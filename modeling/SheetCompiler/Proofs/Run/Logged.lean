import SheetCompiler.Proofs.Run.Phases

/-!
# What the phases do with a log

Whatever a log does to the files, a phase that succeeds has made what it makes without one, from the files that it
finds. For a schema phase the log is part of the compiler, which tells it of a schema as soon as one is written.
-/

namespace SheetCompiler

/-- A compiler that tells a log of the schemas that it gets. -/
def RunLog.announcing (log : RunLog) (compiler : SchemaCompiler) : SchemaCompiler := fun path => do
  log.tell (.schemaWritten path)
  compiler path

namespace Run

/-- The report of a sheet between its phases. -/
def opened (s : Settings) (sheet name : String) : SheetReport :=
  ⟨sheet, name, if s.mode.runsSchema then some (s.schemaPath name) else none, none, none, 0, 0⟩

namespace Logged

variable {log : RunLog} {s : Settings} {compiler : SchemaCompiler} {header : Header} {grid : Grid} {schema : Schema}
  {type : Message} {sheet name : String} {report report' : SheetReport} {t t' : FileTree}

theorem buildSchema_eq {made : Except SheetError Schema} (h : Schema.ofHeader header name s.schemaOptions = made) :
    buildSchema log s header name t = (made, log (.schemaBuilt name header) t) := by
  rw [← h]
  rfl

theorem schemaPhase_of_ok (h : Schema.ofHeader header name s.schemaOptions = .ok schema) :
    schemaPhase log s compiler header name t
      = publish s (log.announcing compiler) name schema (log (.schemaBuilt name header) t) := by
  have hpath : Path.join s.schemaDirectory schema.fileName = s.schemaPath name := by
    rw [Schema.fileName_of_ofHeader h]
    rfl
  rw [schemaPhase, FileM.bind_of_ok (FileM.mapError_of_ok (buildSchema_eq h) _), hpath]
  rfl

theorem schemaPhase_eq_ok {made : String × Message} (h : schemaPhase log s compiler header name t = (.ok made, t')) :
    ∃ schema, Schema.ofHeader header name s.schemaOptions = .ok schema ∧ made = (s.schemaPath name, schema.type) := by
  cases hschema : Schema.ofHeader header name s.schemaOptions with
  | error e =>
      rw [schemaPhase, FileM.bind_of_error (FileM.mapError_of_error (buildSchema_eq hschema) _)] at h
      cases h
  | ok schema =>
      rw [schemaPhase_of_ok hschema] at h
      exact ⟨schema, rfl, (publish_eq_ok.1 h).1⟩

/-- The records of a data phase are encoded with the enum table that it finds in the beginning. -/
theorem dataPhase_eq_ok (h : dataPhase log s (Header.ofGrid grid) grid type report t = (.ok report', t')) :
    ∃ data, Encodes s grid type t data ∧ report' = withRecords s report data := by
  obtain ⟨enums, t₁, henums, h⟩ := FileM.bind_eq_ok.1 h
  obtain ⟨_, t₂, -, h⟩ := FileM.bind_eq_ok.1 h
  obtain ⟨data, t₃, hdata, h⟩ := FileM.bind_eq_ok.1 h
  obtain ⟨_, t₄, -, h⟩ := FileM.bind_eq_ok.1 h
  obtain ⟨_, t₅, -, h⟩ := FileM.bind_eq_ok.1 h
  obtain ⟨_, t₆, -, h⟩ := FileM.bind_eq_ok.1 h
  obtain ⟨rfl, -⟩ := FileM.pure_eq_ok.1 h
  have hsame : t₁ = t := by
    rw [enumTable_eq] at henums
    exact (Prod.mk.inj henums).2.symm
  subst hsame
  exact ⟨data, ⟨enums, henums, mapError_eq_ok.1 (FileM.ofExcept_eq_ok.1 hdata).1⟩, rfl⟩

/-- Whether these are the files between the phases of a sheet, where `t` has those in front of them. -/
def Between (log : RunLog) (s : Settings) (compiler : SchemaCompiler) (header : Header) (name : String)
    (t t' : FileTree) : Prop :=
  if s.mode.runsSchema then ∃ made, schemaPhase log s compiler header name t = (.ok made, t')
  else t' = log (.schemaBuilt name header) t

/-! ### Both phases -/

theorem record_of_schemaPhase_error {e : PhaseError} (hmode : s.mode.runsSchema = true)
    (h : schemaPhase log s compiler (Header.ofGrid grid) name t = (.error e, t')) :
    record log s compiler sheet name grid t = (.error ⟨.schema, e⟩, t') := by
  rw [record, if_pos hmode]
  exact FileM.bind_of_error (FileM.mapError_of_error h _)

theorem record_of_no_schema {e : SheetError} (hmode : s.mode.runsSchema = false)
    (h : Schema.ofHeader (Header.ofGrid grid) name s.schemaOptions = .error e) :
    record log s compiler sheet name grid t
      = (.error ⟨.data, .sheet e⟩, log (.schemaBuilt name (Header.ofGrid grid)) t) := by
  rw [record, if_neg (by simp [hmode])]
  exact FileM.bind_of_error (FileM.mapError_of_error (buildSchema_eq h) _)

/-- A sheet goes on behind its schema, with the files that are there then. -/
theorem record_of_between (hschema : Schema.ofHeader (Header.ofGrid grid) name s.schemaOptions = .ok schema)
    (h : Between log s compiler (Header.ofGrid grid) name t t') :
    record log s compiler sheet name grid t
      = (if s.mode.runsData then
          (dataPhase log s (Header.ofGrid grid) grid schema.type (opened s sheet name)).mapError (.mk .data)
        else pure (opened s sheet name) : FileM SheetFailure SheetReport) t' := by
  rw [Between] at h
  rw [record, opened]
  by_cases hmode : s.mode.runsSchema = true
  · rw [if_pos hmode] at h
    obtain ⟨made, hphase⟩ := h
    obtain ⟨_, hsame, rfl⟩ := schemaPhase_eq_ok hphase
    cases hschema.symm.trans hsame
    rw [if_pos hmode, if_pos hmode, FileM.bind_of_ok (FileM.mapError_of_ok hphase _)]
    rfl
  · rw [if_neg hmode] at h
    rw [if_neg hmode, if_neg hmode, FileM.bind_of_ok (FileM.mapError_of_ok (buildSchema_eq hschema) _), h]
    rfl

end Logged

end Run

end SheetCompiler

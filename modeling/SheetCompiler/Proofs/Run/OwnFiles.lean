import SheetCompiler.Proofs.Run.Phases
import SheetCompiler.Proofs.Run.Places

/-!
# The files of one sheet

A sheet changes the file of its schema and those of its records, and no others. Where its schema cannot be made, nothing
is changed at all, and where it stops later but before its records are encoded, it is the schema at most: the records are
encoded as a whole before the first of their files is written.
-/

namespace SheetCompiler.Run

open FileTree

variable {s : Settings} {compiler : SchemaCompiler} {header : Header} {grid : Grid} {type : Message}
  {sheet name path : String} {report : SheetReport} {w l : Location} {t t' : FileTree}

/-! ### What the phases keep -/

theorem write_keeps (h : place w path ≠ l) (content : Bytes) : FileM.Keeps w l (write path content) :=
  .mapError (.writeWithParents h content) _

theorem publish_keeps (hcompiler : ∀ schema, FileM.Keeps w l (compiler schema))
    (h : place w (s.schemaPath name) ≠ l) (schema : Schema) : FileM.Keeps w l (publish s compiler name schema) :=
  .bind (write_keeps h _) fun _ => .bind (.mapError (hcompiler _) _) fun _ => .pure _

theorem writeRecords_keeps (hbinary : place w (s.binaryPath report.record) ≠ l)
    (htext : place w (s.textPath report.record) ≠ l) (data : EncodedSheet) :
    FileM.Keeps w l (writeRecords s report data) :=
  .bind (write_keeps hbinary _) fun _ => .bind (write_keeps htext _) fun _ => .pure _

theorem schemaPhase_keeps (hcompiler : ∀ schema, FileM.Keeps w l (compiler schema))
    (h : place w (s.schemaPath name) ≠ l) : FileM.Keeps w l (schemaPhase s compiler header name) := by
  intro t ht
  cases hschema : Schema.ofHeader header name s.schemaOptions with
  | error e =>
      rw [schemaPhase_of_error hschema]
      exact ⟨ht, rfl⟩
  | ok schema =>
      rw [schemaPhase_of_ok hschema]
      exact publish_keeps hcompiler h schema t ht

theorem schemaStep_keeps (hcompiler : ∀ schema, FileM.Keeps w l (compiler schema))
    (h : s.mode.runsSchema = true → place w (s.schemaPath name) ≠ l) :
    FileM.Keeps w l (schemaStep s compiler header sheet name) := by
  rw [schemaStep]
  split
  · next hmode => exact .bind (.mapError (schemaPhase_keeps hcompiler (h hmode)) _) fun _ => .pure _
  · exact .bind (.ofExcept _) fun _ => .pure _

theorem schemaStep_of_error {e : SheetError} (h : Schema.ofHeader header name s.schemaOptions = .error e)
    (compiler : SchemaCompiler) (sheet : String) (t : FileTree) :
    ∃ failure, schemaStep s compiler header sheet name t = (.error failure, t) := by
  rw [schemaStep]
  split
  · refine ⟨⟨.schema, .sheet e⟩, FileM.bind_of_error ?_⟩
    rw [FileM.mapError, schemaPhase_of_error h]
    rfl
  · rw [h]
    exact ⟨⟨.data, .sheet e⟩, rfl⟩

/-! ### What a sheet changes -/

/-- Whether the data phase of a sheet comes to write records: its schema is made and gets through the schema phase, where
the mode has one, and its records are encoded with the enum table that is there then. -/
def Encodable (s : Settings) (compiler : SchemaCompiler) (name : String) (grid : Grid) (t : FileTree) : Prop :=
  ∃ schema between data, Schema.ofHeader (Header.ofGrid grid) name s.schemaOptions = .ok schema
    ∧ Between s compiler (Header.ofGrid grid) name t between ∧ encoded s grid schema.type between = .ok data

theorem file?_dataStep (h : s.mode.runsData = true → Succeeds (encoded s grid type t) →
      l ≠ place t.workingDirectory (s.binaryPath report.record) ∧ l ≠ place t.workingDirectory (s.textPath report.record)) :
    (dataStep s grid report type t).2.file? l = t.file? l := by
  cases hmode : s.mode.runsData with
  | false => rw [dataStep_of_unrun hmode]
  | true =>
      cases hdata : encoded s grid type t with
      | error e => rw [dataStep_of_error hmode hdata]
      | ok data =>
          obtain ⟨hbinary, htext⟩ := h hmode ⟨data, hdata⟩
          have hkeeps : FileM.Keeps t.workingDirectory l
              ((writeRecords s report data).mapError (SheetFailure.mk .data)) :=
            .mapError (writeRecords_keeps hbinary.symm htext.symm data) _
          rw [dataStep_of_ok hmode hdata]
          exact (hkeeps t rfl).2

/-- A file stays as it is unless the mode has schemas written and it is that of the schema, or records are written and it
is one of theirs. -/
theorem file?_record (hcompiler : compiler.WritesNoFiles)
    (hschema : s.mode.runsSchema = true → l ≠ place t.workingDirectory (s.schemaPath name))
    (hdata : s.mode.runsData = true → Encodable s compiler name grid t →
      l ≠ place t.workingDirectory (s.binaryPath name) ∧ l ≠ place t.workingDirectory (s.textPath name)) :
    (record s compiler sheet name grid t).2.file? l = t.file? l := by
  have hfirst : FileM.Keeps t.workingDirectory l (schemaStep s compiler (Header.ofGrid grid) sheet name) :=
    schemaStep_keeps hcompiler.keeps fun hmode => (hschema hmode).symm
  obtain ⟨hdirectory, hfile⟩ := hfirst t rfl
  rw [record_eq]
  cases hran : schemaStep s compiler (Header.ofGrid grid) sheet name t with
  | mk outcome between =>
      rw [hran] at hdirectory hfile
      dsimp only at hdirectory hfile
      cases outcome with
      | error failure =>
          rw [FileM.bind_of_error hran]
          exact hfile
      | ok made =>
          obtain ⟨report, type⟩ := made
          obtain ⟨schema, hmade, rfl, rfl, hbetween⟩ := schemaStep_eq_ok hran
          rw [FileM.bind_of_ok hran, ← hfile]
          refine file?_dataStep fun hmode ⟨data, hencoded⟩ => ?_
          rw [hdirectory]
          exact hdata hmode ⟨schema, between, data, hmade, hbetween, hencoded⟩

theorem record_of_error {e : SheetError} (h : Schema.ofHeader (Header.ofGrid grid) name s.schemaOptions = .error e)
    (compiler : SchemaCompiler) (sheet : String) (t : FileTree) : (record s compiler sheet name grid t).2 = t := by
  obtain ⟨failure, hstep⟩ := schemaStep_of_error h compiler sheet t
  rw [record_eq, FileM.bind_of_error hstep]

/-! ### Where a sheet stops -/

/-- Whether a sheet whose schema can be made stops before its records are written. -/
inductive Stops (s : Settings) (compiler : SchemaCompiler) (name : String) (grid : Grid) (t : FileTree) : Prop where
  /-- The compiler fails on the schema that has just been written. -/
  | compiler {schema : Schema} {written : FileTree} {error : CompileError} : s.mode.runsSchema = true →
      Schema.ofHeader (Header.ofGrid grid) name s.schemaOptions = .ok schema →
      write (s.schemaPath name) (Text.Utf8.encode schema.text) t = (.ok (), written) →
      (compiler (s.schemaPath name) written).1 = .error error → Stops s compiler name grid t
  /-- The enum definitions cannot be read. -/
  | enums {between : FileTree} {error : PhaseError} : Between s compiler (Header.ofGrid grid) name t between →
      (enumTable s (Header.ofGrid grid) between).1 = .error error → Stops s compiler name grid t
  /-- The records cannot be encoded. -/
  | records {schema : Schema} {between : FileTree} {enums : EnumTable} {error : SheetError} :
      Schema.ofHeader (Header.ofGrid grid) name s.schemaOptions = .ok schema →
      Between s compiler (Header.ofGrid grid) name t between →
      (enumTable s (Header.ofGrid grid) between).1 = .ok enums →
      EncodedSheet.ofGrid grid schema.type enums = .error error → Stops s compiler name grid t

theorem Between.unique {between between' : FileTree} (h : Between s compiler header name t between)
    (h' : Between s compiler header name t between') : between = between' := by
  rw [Between] at h h'
  split at h
  · next hmode =>
    rw [if_pos hmode] at h'
    obtain ⟨made, hmade⟩ := h
    obtain ⟨made', hmade'⟩ := h'
    exact (Prod.mk.inj (hmade.symm.trans hmade')).2
  · next hmode =>
    rw [if_neg hmode] at h'
    exact h.trans h'.symm

theorem Stops.not_encodable (h : Stops s compiler name grid t) : ¬ Encodable s compiler name grid t := by
  rintro ⟨schema, between, data, hschema, hbetween, hdata⟩
  obtain ⟨enums, henums, hrecords⟩ := encodes_iff.2 hdata
  cases h with
  | compiler hmode hschema' hwrite hcompile =>
      cases hschema.symm.trans hschema'
      rw [Between, if_pos hmode] at hbetween
      obtain ⟨made, hmade⟩ := hbetween
      rw [schemaPhase_of_ok hschema] at hmade
      obtain ⟨-, _, hwritten, hcompiled⟩ := publish_eq_ok.1 hmade
      cases hwrite.symm.trans hwritten
      rw [hcompiled] at hcompile
      cases hcompile
  | enums hbetween' hno =>
      cases hbetween.unique hbetween'
      rw [henums] at hno
      cases hno
  | records hschema' hbetween' hyes hno =>
      cases hschema.symm.trans hschema'
      cases hbetween.unique hbetween'
      rw [henums] at hyes
      cases hyes
      cases hrecords.symm.trans hno

/-- Of all files, a sheet changes those of its own record at most, whatever comes of it and with any compiler that
itself writes none. A sheet without a record changes nothing, and neither does one whose schema cannot be made. One that
stops before its records are encoded changes its schema at most, and nothing if the mode has no schemas written. -/
theorem sheet_changes_own_files {outcome : Except SheetFailure (Option SheetReport)} (hcompiler : compiler.WritesNoFiles)
    (hran : Run.sheet s compiler sheet grid t = (outcome, t')) :
    (recordOfSheet? sheet = none → outcome = .ok none ∧ t' = t)
      ∧ ∀ record, recordOfSheet? sheet = some record →
        Text.isIdentifier record = true
        ∧ place t.workingDirectory (s.binaryPath record)
          = place t.workingDirectory s.outputDirectory ++ ["bin", record ++ ".bin"]
        ∧ place t.workingDirectory (s.textPath record)
          = place t.workingDirectory s.outputDirectory ++ ["log", record ++ ".txt"]
        ∧ (∀ l, l ∉ [s.schemaPath record, s.binaryPath record, s.textPath record].map (place t.workingDirectory) →
          t'.file? l = t.file? l)
        ∧ (∀ e, Schema.ofHeader (Header.ofGrid grid) record s.schemaOptions = .error e → t' = t)
        ∧ (Stops s compiler record grid t →
          (∀ l, l ≠ place t.workingDirectory (s.schemaPath record) → t'.file? l = t.file? l)
          ∧ (s.mode = .data → ∀ l, t'.file? l = t.file? l))
        ∧ (s.mode = .schema →
          ∀ l, l ≠ place t.workingDirectory (s.schemaPath record) → t'.file? l = t.file? l) := by
  cases hrecord : recordOfSheet? sheet with
  | none =>
      cases (sheet_of_none hrecord s compiler grid t).symm.trans hran
      exact ⟨fun _ => ⟨rfl, rfl⟩, nofun⟩
  | some name =>
      have hafter := congrArg Prod.snd ((sheet_of_some hrecord s compiler grid t).symm.trans hran)
      dsimp only at hafter
      subst hafter
      have hidentifier := isIdentifier_of_recordOfSheet? hrecord
      refine ⟨nofun, fun record hsome => ?_⟩
      cases hsome
      refine ⟨hidentifier, place_binaryPath s hidentifier _, place_textPath s hidentifier _, fun l hl => ?_,
        fun e he => record_of_error he compiler sheet t, fun hstops => ⟨fun l hl => ?_, fun hmode l => ?_⟩,
        fun hmode l hl => ?_⟩
      · simp only [List.map_cons, List.map_nil, List.mem_cons, List.not_mem_nil, or_false, not_or] at hl
        exact file?_record hcompiler (fun _ => hl.1) fun _ _ => hl.2
      · exact file?_record hcompiler (fun _ => hl) fun _ hno => (hstops.not_encodable hno).elim
      · refine file?_record hcompiler (fun hyes => ?_) fun _ hno => (hstops.not_encodable hno).elim
        rw [hmode] at hyes
        cases hyes
      · refine file?_record hcompiler (fun _ => hl) fun hyes => ?_
        rw [hmode] at hyes
        cases hyes

end SheetCompiler.Run

namespace SheetCompiler

open FileTree

def crates : Grid := ⟨[[""], ["int32"], ["id"], ["1"], ["2"]]⟩

/-- A sheet whose schema is refused leaves the schema behind and no other file. -/
theorem refusedCrates_leave_their_schema :
    ∃ t', Run.sheet {} (.refusing "rejected") "Crate-list" crates .empty
        = (.error ⟨.schema, .compile (.failed "protocol/Crate.schema" "rejected")⟩, t')
      ∧ (t'.file? ["work", "protocol", "Crate.schema"]).isSome
      ∧ ∀ l, l ≠ ["work", "protocol", "Crate.schema"] → t'.file? l = FileTree.empty.file? l := by
  let run := Run.sheet {} (.refusing "rejected") "Crate-list" crates .empty
  have hran : run.1 = .error ⟨.schema, .compile (.failed "protocol/Crate.schema" "rejected")⟩
      ∧ (run.2.file? ["work", "protocol", "Crate.schema"]).isSome
      ∧ (Schema.ofHeader (Header.ofGrid crates) "Crate" {}).toOption.bind (fun schema =>
        (Run.write "protocol/Crate.schema" (Text.Utf8.encode schema.text) .empty).1.toOption) = some () := by
    decide +kernel
  obtain ⟨herror, hschema, hwritten⟩ := hran
  obtain ⟨schema, hmade, hwritten⟩ := Option.bind_eq_some_iff.1 hwritten
  have hstops : Run.Stops {} (.refusing "rejected") "Crate" crates .empty :=
    .compiler rfl (toOption_eq_some.1 hmade) (FileM.eq_ok_of_fst (toOption_eq_some.1 hwritten)) rfl
  have hchanges := Run.sheet_changes_own_files (SchemaCompiler.writesNoFiles_refusing "rejected")
    (Prod.ext herror rfl : run = (_, run.2))
  obtain ⟨-, -, -, -, -, hlate, -⟩ := hchanges.2 "Crate" (by decide +kernel)
  exact ⟨run.2, Prod.ext herror rfl, hschema, (hlate hstops).1⟩

end SheetCompiler

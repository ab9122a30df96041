import Mathlib.Data.Option.NAry
import SheetCompiler.Proofs.Run.OwnFiles

/-!
# The modes of a run

With all phases, a sheet does what it does with the schema phase alone and then what it does with the data phase alone,
as long as the files that it writes for the one phase are not those that the other phase goes by. The message type that
the data phase goes by is the same whether it comes from the schema phase or not, and so are the enum definitions.
-/

namespace SheetCompiler

open FileTree

/-- Whether a phase fails at a file that cannot be written. (What is wrong with a file that is read, as the enum
definitions are, is that it is no text.) -/
def PhaseError.IsFailedWrite : PhaseError → Prop
  | .file _ error => error ≠ .notUtf8
  | _ => False

/-- The report of a sheet with both phases, by its reports with each of them: that of the data phase, with the schema of
the schema phase. -/
def SheetReport.merge (bySchema byData : SheetReport) : SheetReport := { byData with schema? := bySchema.schema? }

namespace Run

variable {s : Settings} {compiler : SchemaCompiler} {header : Header} {grid : Grid} {type : Message}
  {sheet name path : String} {content : Bytes} {report report' : SheetReport} {schema : Schema} {data : EncodedSheet}
  {failure : SheetFailure} {error : PhaseError} {w l : Location} {t t' between : FileTree}

theorem isFailedWrite_of_write (h : write path content t = (.error error, t')) : error.IsFailedWrite := by
  have houtcome := FileM.isFileOutcome_writeWithParents path content t
  cases hran : FileM.writeWithParents path content t with
  | mk outcome t₁ =>
      rw [hran] at houtcome
      cases outcome with
      | ok _ => cases (FileM.mapError_of_ok hran _).symm.trans h
      | error e =>
          cases (FileM.mapError_of_error hran _).symm.trans h
          exact houtcome

/-- Records are written unless one of their files cannot be. -/
theorem isFailedWrite_of_writeRecords (h : writeRecords s report data t = (.error error, t')) :
    error.IsFailedWrite := by
  rw [writeRecords] at h
  rcases FileM.bind_eq_error.1 h with hbinary | ⟨_, t₁, -, h⟩
  · exact isFailedWrite_of_write hbinary
  · rcases FileM.bind_eq_error.1 h with htext | ⟨_, t₂, -, h⟩
    · exact isFailedWrite_of_write htext
    · cases h

/-! ### A sheet by its phases -/

theorem record_of_refused (hmode : s.mode.runsSchema = true)
    (h : schemaPhase s compiler (Header.ofGrid grid) name t = (.error error, t')) :
    record s compiler sheet name grid t = (.error ⟨.schema, error⟩, t') := by
  rw [record_eq]
  refine FileM.bind_of_error ?_
  rw [schemaStep, if_pos hmode]
  exact FileM.bind_of_error (FileM.mapError_of_error h _)

theorem record_of_published (hmode : s.mode.runsSchema = true)
    (h : schemaPhase s compiler (Header.ofGrid grid) name t = (.ok (path, type), between)) :
    record s compiler sheet name grid t
      = dataStep s grid { sheet, record := name, schema? := some path } type between := by
  rw [record_eq]
  refine FileM.bind_of_ok (a := (_, type)) ?_
  rw [schemaStep, if_pos hmode]
  exact FileM.bind_of_ok (FileM.mapError_of_ok h _)

theorem record_of_unpublished (hmode : s.mode.runsSchema = false)
    (h : Schema.ofHeader (Header.ofGrid grid) name s.schemaOptions = .ok schema) :
    record s compiler sheet name grid t = dataStep s grid { sheet, record := name } schema.type t := by
  rw [record_eq]
  refine FileM.bind_of_ok (a := (_, schema.type)) ?_
  rw [schemaStep, if_neg (by rw [hmode]; decide), h]
  rfl

theorem exists_dataStep (hmode : s.mode.runsData = true) (h : encoded s grid type t = .ok data)
    (hwrites : ∀ failure t', dataStep s grid report type t = (.error failure, t') → ¬ failure.cause.IsFailedWrite) :
    ∃ t', dataStep s grid report type t = (.ok (withRecords s report data), t')
      ∧ Updates (leftAt t.workingDirectory (dataFiles s report.record data)) t t' := by
  have hstep : dataStep s grid report type t = (writeRecords s report data).mapError (.mk .data) t :=
    dataStep_of_ok hmode h
  cases hran : writeRecords s report data t with
  | mk outcome t' =>
      cases outcome with
      | error e =>
          have hfails := hwrites _ _ (hstep.trans (FileM.mapError_of_error hran _))
          exact absurd (isFailedWrite_of_writeRecords hran) hfails
      | ok made =>
          obtain ⟨rfl, hupdates⟩ := writeRecords_eq_ok hran
          exact ⟨t', hstep.trans (FileM.mapError_of_ok hran _), hupdates⟩

/-- The records are encoded alike behind a schema phase that succeeds. -/
theorem encoded_of_published {At : Location → Prop} (hcompiler : compiler.LeavesAlone At)
    (henums : At (place t.workingDirectory s.enumPath))
    (hplace : place t.workingDirectory (s.schemaPath name) ≠ place t.workingDirectory s.enumPath)
    (hclear : t.Clear s.enumPath) (h : schemaPhase s compiler header name t = (.ok (path, type), between))
    (grid : Grid) : encoded s grid type between = encoded s grid type t := by
  have hkeeps : FileM.Keeps _ _ (schemaPhase s compiler header name) :=
    schemaPhase_keeps (hcompiler.keeps henums) hplace
  have hfile := (hkeeps t rfl).2
  rw [h] at hfile
  obtain ⟨_, -, -, -, written, hwrite, hcompile⟩ := schemaPhase_eq_ok h
  have hkept := hcompiler.keepsDirectories (s.schemaPath name) written
  rw [hcompile] at hkept
  have hgrows := (updates_of_write hwrite).keepsDirectories.trans hkept
  exact encoded_congr (fun c => read_congr hgrows.workingDirectory hfile
    (hclear.imp_left fun ⟨l, hl⟩ => ⟨⟨l, hl⟩, l, hgrows.locate hl⟩)) grid _

/-! ### Three modes -/

def withMode (s : Settings) (mode : Mode) : Settings := { s with mode }

def sheetIn (s : Settings) (compiler : SchemaCompiler) (sheet : String) (grid : Grid) (mode : Mode) :
    FileM SheetFailure (Option SheetReport) :=
  Run.sheet (withMode s mode) compiler sheet grid

def recordIn (s : Settings) (compiler : SchemaCompiler) (sheet name : String) (grid : Grid) (mode : Mode) :
    FileM SheetFailure SheetReport :=
  record (withMode s mode) compiler sheet name grid

theorem succeeds_sheetIn (hname : recordOfSheet? sheet = some name) (mode : Mode) :
    Succeeds (sheetIn s compiler sheet grid mode t).1 ↔ Succeeds (recordIn s compiler sheet name grid mode t).1 := by
  rw [sheetIn, recordIn, sheet_of_some hname]
  cases (record (withMode s mode) compiler sheet name grid t).1 with
  | error failure => exact ⟨nofun, nofun⟩
  | ok report => exact ⟨fun _ => ⟨report, rfl⟩, fun _ => ⟨some report, rfl⟩⟩

theorem recordIn_schema_keeps (hcompiler : ∀ schema, FileM.Keeps w l (compiler schema))
    (h : place w (s.schemaPath name) ≠ l) : FileM.Keeps w l (recordIn s compiler sheet name grid .schema) := by
  rw [recordIn, record_eq]
  exact .bind (schemaStep_keeps hcompiler fun _ => h) fun made => .pure made.1

/-- What comes of the runs of a sheet in the three modes: the schema phase fails, or the records cannot be encoded, or
both phases succeed. -/
inductive Outcomes (s : Settings) (compiler : SchemaCompiler) (sheet name : String) (grid : Grid) (t : FileTree) :
    Prop where
  | refused {error : PhaseError} {t' : FileTree} :
      recordIn s compiler sheet name grid .schema t = (.error ⟨.schema, error⟩, t') →
      recordIn s compiler sheet name grid .all t = (.error ⟨.schema, error⟩, t') →
      Outcomes s compiler sheet name grid t
  | unencoded {bySchema : SheetReport} {error : PhaseError} {between : FileTree} :
      recordIn s compiler sheet name grid .schema t = (.ok bySchema, between) →
      recordIn s compiler sheet name grid .data t = (.error ⟨.data, error⟩, t) →
      recordIn s compiler sheet name grid .all t = (.error ⟨.data, error⟩, between) →
      Outcomes s compiler sheet name grid t
  | encoded {bySchema byData : SheetReport} {data : EncodedSheet} {between t₁ t' : FileTree} :
      recordIn s compiler sheet name grid .schema t = (.ok bySchema, between) →
      recordIn s compiler sheet name grid .data t = (.ok byData, t₁) →
      recordIn s compiler sheet name grid .all t = (.ok (bySchema.merge byData), t') →
      Updates (leftAt t.workingDirectory (dataFiles s name data)) t t₁ →
      Updates (leftAt t.workingDirectory (dataFiles s name data)) between t' → Outcomes s compiler sheet name grid t

theorem outcomes {At : Location → Prop} (hcompiler : compiler.LeavesAlone At)
    (henums : At (place t.workingDirectory s.enumPath))
    (hplace : place t.workingDirectory (s.schemaPath name) ≠ place t.workingDirectory s.enumPath)
    (hclear : t.Clear s.enumPath)
    (hwrites : ∀ mode failure t', recordIn s compiler sheet name grid mode t = (.error failure, t') →
      ¬ failure.cause.IsFailedWrite) :
    Outcomes s compiler sheet name grid t := by
  cases hphase : schemaPhase s compiler (Header.ofGrid grid) name t with
  | mk outcome between =>
      cases outcome with
      | error e => exact .refused (record_of_refused rfl hphase) (record_of_refused rfl hphase)
      | ok made =>
          obtain ⟨path, type⟩ := made
          obtain ⟨schema, hschema, rfl, rfl, -⟩ := schemaPhase_eq_ok hphase
          have hencoded := encoded_of_published hcompiler henums hplace hclear hphase grid
          have hpublished (mode : Mode) (hmode : mode.runsSchema = true) :
              recordIn s compiler sheet name grid mode t = dataStep (withMode s mode) grid
                { sheet, record := name, schema? := some (s.schemaPath name) } schema.type between :=
            record_of_published hmode hphase
          have hdata : recordIn s compiler sheet name grid .data t
              = dataStep (withMode s .data) grid { sheet, record := name } schema.type t :=
            record_of_unpublished rfl hschema
          have hbySchema := (hpublished .schema rfl).trans (dataStep_of_unrun rfl _ _ _ _)
          cases hrecords : encoded s grid schema.type t with
          | error e =>
              rw [hrecords] at hencoded
              exact .unencoded hbySchema (hdata.trans (dataStep_of_error rfl hrecords))
                ((hpublished .all rfl).trans (dataStep_of_error rfl hencoded))
          | ok data =>
              rw [hrecords] at hencoded
              obtain ⟨t₁, hran, hupdates⟩ := exists_dataStep (s := withMode s .data) rfl hrecords
                fun failure t' h => hwrites .data failure t' (hdata.trans h)
              obtain ⟨t', hran', hupdates'⟩ := exists_dataStep (s := withMode s .all) rfl hencoded
                fun failure t' h => hwrites .all failure t' ((hpublished .all rfl).trans h)
              have hkeeps : FileM.Keeps _ _ (schemaPhase s compiler (Header.ofGrid grid) name) :=
                schemaPhase_keeps (hcompiler.keeps henums) hplace
              have hdirectory := (hkeeps t rfl).1
              rw [hphase] at hdirectory
              rw [hdirectory] at hupdates'
              exact .encoded hbySchema (hdata.trans hran) ((hpublished .all rfl).trans hran') hupdates hupdates'

namespace Outcomes

variable {bySchema byData : SheetReport} {tₛ t₁ : FileTree}

theorem succeeds_iff (h : Outcomes s compiler sheet name grid t) :
    Succeeds (recordIn s compiler sheet name grid .all t).1
      ↔ Succeeds (recordIn s compiler sheet name grid .schema t).1
        ∧ Succeeds (recordIn s compiler sheet name grid .data t).1 := by
  cases h with
  | refused hschema hall =>
      rw [hschema, hall]
      exact ⟨nofun, nofun⟩
  | unencoded hschema hdata hall =>
      rw [hdata, hall]
      exact ⟨nofun, nofun⟩
  | encoded hschema hdata hall _ _ =>
      rw [hschema, hdata, hall]
      exact ⟨fun _ => ⟨⟨_, rfl⟩, ⟨_, rfl⟩⟩, fun _ => ⟨_, rfl⟩⟩

/-- Both phases together do what each of them does. -/
theorem together (h : Outcomes s compiler sheet name grid t)
    (hschema : recordIn s compiler sheet name grid .schema t = (.ok bySchema, tₛ))
    (hdata : recordIn s compiler sheet name grid .data t = (.ok byData, t₁)) :
    ∃ data t', recordIn s compiler sheet name grid .all t = (.ok (bySchema.merge byData), t')
      ∧ Updates (leftAt t.workingDirectory (dataFiles s name data)) t t₁
      ∧ Updates (leftAt t.workingDirectory (dataFiles s name data)) tₛ t' := by
  cases h with
  | refused hno _ => cases hno.symm.trans hschema
  | unencoded _ hno _ => cases hno.symm.trans hdata
  | @encoded _ _ data _ _ t' hyes hyes' hall hupdates hupdates' =>
      cases hyes.symm.trans hschema
      cases hyes'.symm.trans hdata
      exact ⟨data, t', hall, hupdates, hupdates'⟩

theorem of_schema_error (h : Outcomes s compiler sheet name grid t)
    (hschema : recordIn s compiler sheet name grid .schema t = (.error failure, t')) :
    failure.phase = .schema ∧ recordIn s compiler sheet name grid .all t = (.error failure, t') := by
  cases h with
  | refused hno hall =>
      cases hno.symm.trans hschema
      exact ⟨rfl, hall⟩
  | unencoded hyes _ _ => cases hyes.symm.trans hschema
  | encoded hyes _ _ _ _ => cases hyes.symm.trans hschema

theorem of_data_error (h : Outcomes s compiler sheet name grid t)
    (hschema : Succeeds (recordIn s compiler sheet name grid .schema t).1)
    (hdata : recordIn s compiler sheet name grid .data t = (.error failure, t₁)) :
    failure.phase = .data ∧ (recordIn s compiler sheet name grid .all t).1 = .error failure := by
  cases h with
  | refused hno _ =>
      rw [hno] at hschema
      obtain ⟨_, hschema⟩ := hschema
      cases hschema
  | unencoded _ hno hall =>
      cases hno.symm.trans hdata
      exact ⟨rfl, by rw [hall]⟩
  | encoded _ hyes _ _ _ => cases hyes.symm.trans hdata

end Outcomes

/-! ### The modes together -/

/-- The places of the records of a sheet. -/
def dataPlaces (s : Settings) (w : Location) (sheet : String) : List Location :=
  (recordOfSheet? sheet).elim [] fun record => [s.binaryPath record, s.textPath record].map (place w)

theorem dataPlaces_of_some (h : recordOfSheet? sheet = some name) (s : Settings) (w : Location) :
    dataPlaces s w sheet = [place w (s.binaryPath name), place w (s.textPath name)] := by
  rw [dataPlaces, h]
  rfl

theorem leftAt_dataFiles_of_not_mem (h : l ∉ [place w (s.binaryPath name), place w (s.textPath name)])
    (data : EncodedSheet) : leftAt w (dataFiles s name data) l = none := by
  rw [List.mem_cons, List.mem_singleton, not_or] at h
  exact leftAt_eq_none (List.forall_mem_cons.2 ⟨fun heq => h.1 heq.symm, List.forall_mem_singleton.2
    fun heq => h.2 heq.symm⟩)

theorem exists_leftAt_dataFiles (h : l ∈ [place w (s.binaryPath name), place w (s.textPath name)])
    (data : EncodedSheet) : ∃ content, leftAt w (dataFiles s name data) l = some content := by
  rw [List.mem_cons, List.mem_singleton] at h
  rcases h with h | h
  · rw [h]
    exact exists_leftAt List.mem_cons_self
  · rw [h]
    exact exists_leftAt (List.mem_cons_of_mem _ List.mem_cons_self)

/-- Where both phases succeed, the records are those of the data phase, and the other files those of the schema phase. -/
theorem Outcomes.files_of_each {bySchema byData : SheetReport} {tₛ t₁ : FileTree}
    (h : Outcomes s compiler sheet name grid t) (hname : recordOfSheet? sheet = some name)
    (hkeeps : ∀ l ∈ dataPlaces s t.workingDirectory sheet,
      FileM.Keeps t.workingDirectory l (recordIn s compiler sheet name grid .schema))
    (hschema : recordIn s compiler sheet name grid .schema t = (.ok bySchema, tₛ))
    (hdata : recordIn s compiler sheet name grid .data t = (.ok byData, t₁)) :
    ∃ t', recordIn s compiler sheet name grid .all t = (.ok (bySchema.merge byData), t')
      ∧ (∀ l ∉ dataPlaces s t.workingDirectory sheet, t'.file? l = tₛ.file? l ∧ t₁.file? l = t.file? l)
      ∧ ∀ l ∈ dataPlaces s t.workingDirectory sheet, t'.file? l = t₁.file? l ∧ tₛ.file? l = t.file? l := by
  obtain ⟨data, t', hall, hupdates, hupdates'⟩ := h.together hschema hdata
  refine ⟨t', hall, fun l hl => ?_, fun l hl => ?_⟩
  · rw [dataPlaces_of_some hname] at hl
    rw [hupdates.file, hupdates'.file, leftAt_dataFiles_of_not_mem hl]
    exact ⟨rfl, rfl⟩
  · have hfile := (hkeeps l hl t rfl).2
    rw [hschema] at hfile
    rw [dataPlaces_of_some hname] at hl
    obtain ⟨content, hcontent⟩ := exists_leftAt_dataFiles hl data
    rw [hupdates.file, hupdates'.file, hcontent]
    exact ⟨rfl, hfile⟩

/-- A sheet succeeds with both phases exactly if it does with each of them. Its files are then those of the schema phase,
except for its records, which are those of the data phase, and so is its report. A failure of the schema phase is that of
both phases, and leaves the records alone; so is a failure of the data phase, if the schema phase succeeds. For this the
schema must not be one of the other files, and these are left alone by the compiler too. -/
theorem both_phases_of_each
    (hplaces : ∀ record, recordOfSheet? sheet = some record →
      place t.workingDirectory (s.schemaPath record)
        ∉ place t.workingDirectory s.enumPath :: dataPlaces s t.workingDirectory sheet)
    (hcompiler : compiler.LeavesAlone
      (· ∈ place t.workingDirectory s.enumPath :: dataPlaces s t.workingDirectory sheet))
    (hclear : t.Clear s.enumPath)
    (hwrites : ∀ mode failure t', sheetIn s compiler sheet grid mode t = (.error failure, t') →
      ¬ failure.cause.IsFailedWrite) :
    (Succeeds (sheetIn s compiler sheet grid .all t).1
      ↔ Succeeds (sheetIn s compiler sheet grid .schema t).1 ∧ Succeeds (sheetIn s compiler sheet grid .data t).1)
    ∧ (∀ bySchema tₛ byData t₁, sheetIn s compiler sheet grid .schema t = (.ok bySchema, tₛ) →
      sheetIn s compiler sheet grid .data t = (.ok byData, t₁) →
      ∃ t', sheetIn s compiler sheet grid .all t = (.ok (Option.map₂ SheetReport.merge bySchema byData), t')
        ∧ (∀ l ∉ dataPlaces s t.workingDirectory sheet, t'.file? l = tₛ.file? l ∧ t₁.file? l = t.file? l)
        ∧ ∀ l ∈ dataPlaces s t.workingDirectory sheet, t'.file? l = t₁.file? l ∧ tₛ.file? l = t.file? l)
    ∧ (∀ failure t', sheetIn s compiler sheet grid .schema t = (.error failure, t') →
      failure.phase = .schema ∧ sheetIn s compiler sheet grid .all t = (.error failure, t')
        ∧ ∀ l ∈ dataPlaces s t.workingDirectory sheet, t'.file? l = t.file? l)
    ∧ ∀ failure t₁, Succeeds (sheetIn s compiler sheet grid .schema t).1 →
      sheetIn s compiler sheet grid .data t = (.error failure, t₁) →
      failure.phase = .data ∧ (sheetIn s compiler sheet grid .all t).1 = .error failure := by
  cases hname : recordOfSheet? sheet with
  | none =>
      have hnone (mode : Mode) : sheetIn s compiler sheet grid mode t = (.ok none, t) := sheet_of_none hname _ _ _ _
      have hdone (mode : Mode) : Succeeds (sheetIn s compiler sheet grid mode t).1 := ⟨none, by rw [hnone]⟩
      refine ⟨⟨fun _ => ⟨hdone _, hdone _⟩, fun _ => hdone _⟩, fun bySchema tₛ byData t₁ hschema hdata => ?_,
        fun failure t' hno => ?_, fun failure t₁ _ hno => ?_⟩
      · cases (hnone .schema).symm.trans hschema
        cases (hnone .data).symm.trans hdata
        exact ⟨t, hnone .all, fun _ _ => ⟨rfl, rfl⟩, fun _ _ => ⟨rfl, rfl⟩⟩
      · cases (hnone .schema).symm.trans hno
      · cases (hnone .data).symm.trans hno
  | some name =>
      have hplace := hplaces name hname
      have houtcomes : Outcomes s compiler sheet name grid t :=
        outcomes hcompiler List.mem_cons_self (fun heq => hplace (by rw [heq]; exact List.mem_cons_self)) hclear
          fun mode failure t' h => hwrites mode failure t' ((sheet_eq_error hname).2 h)
      have hkeeps : ∀ l ∈ dataPlaces s t.workingDirectory sheet,
          FileM.Keeps t.workingDirectory l (recordIn s compiler sheet name grid .schema) := fun l hl =>
        recordIn_schema_keeps (hcompiler.keeps (List.mem_cons_of_mem _ hl))
          fun heq => hplace (by rw [heq]; exact List.mem_cons_of_mem _ hl)
      refine ⟨?_, fun bySchema tₛ byData t₁ hschema hdata => ?_, fun failure t' hschema => ?_,
        fun failure t₁ hschema hdata => ?_⟩
      · rw [succeeds_sheetIn hname, succeeds_sheetIn hname, succeeds_sheetIn hname]
        exact houtcomes.succeeds_iff
      · obtain ⟨report, rfl, hbySchema⟩ := (sheet_eq_ok hname).1 hschema
        obtain ⟨report', rfl, hbyData⟩ := (sheet_eq_ok hname).1 hdata
        obtain ⟨t', hall, hfiles⟩ := houtcomes.files_of_each hname hkeeps hbySchema hbyData
        exact ⟨t', (sheet_eq_some hname).2 hall, hfiles⟩
      · have hschema := (sheet_eq_error hname).1 hschema
        obtain ⟨hphase, hall⟩ := houtcomes.of_schema_error hschema
        refine ⟨hphase, (sheet_eq_error hname).2 hall, fun l hl => ?_⟩
        have hfile := (hkeeps l hl t rfl).2
        rwa [recordIn, hschema] at hfile
      · obtain ⟨hphase, hall⟩ := houtcomes.of_data_error ((succeeds_sheetIn hname _).1 hschema)
          ((sheet_eq_error hname).1 hdata)
        have hran := (sheet_eq_error hname).2 (Prod.ext hall rfl)
        exact ⟨hphase, congrArg Prod.fst hran⟩

end Run

/-- Settings with a compiler that accepts every schema. -/
def accepting : Settings := { compiler := "true" }

/-- Files with the enum definitions of colors. -/
def colorFiles : FileTree :=
  ⟨["work"], [(["work"], .directory), (["work", "protocol"], .directory), (["work", "protocol", "enum.proto"],
    .file (Text.Utf8.encode "enum Color \x7b\n  NONE = 0;\n  BLUE = 2;\n\x7d\n"))]⟩

/-- A paint with a color. -/
def paints : Grid := ⟨[[""], ["enum-Color"], ["color"], ["BLUE"]]⟩

/-- The paints in a mode. -/
def paintsIn : Mode → FileM SheetFailure (Option SheetReport) :=
  Run.sheetIn accepting (.ofSettings accepting .known) "Paint-list" paints

/-- Paints have the same schema and the same records whether the phases run together or apart. -/
theorem paints_in_each_mode :
    ∃ bySchema byData tₛ t₁ t', paintsIn .schema colorFiles = (.ok (some bySchema), tₛ)
      ∧ paintsIn .data colorFiles = (.ok (some byData), t₁)
      ∧ paintsIn .all colorFiles = (.ok (some (bySchema.merge byData)), t')
      ∧ t'.file? ["work", "protocol", "Paint.schema"] = tₛ.file? ["work", "protocol", "Paint.schema"]
      ∧ t'.file? ["work", "build_out", "bin", "Paint.bin"] = t₁.file? ["work", "build_out", "bin", "Paint.bin"]
      ∧ t₁.file? ["work", "build_out", "bin", "Paint.bin"] = some [10, 2, 8, 2] := by
  have hname : recordOfSheet? "Paint-list" = some "Paint" := by decide +kernel
  have hdone : ∀ mode ∈ [Mode.all, .schema, .data], ((paintsIn mode colorFiles).1.toOption.bind id).isSome := by
    decide +kernel
  have hplaces : place colorFiles.workingDirectory (accepting.schemaPath "Paint")
        ∉ place colorFiles.workingDirectory accepting.enumPath :: Run.dataPlaces accepting ["work"] "Paint-list"
      ∧ Run.dataPlaces accepting ["work"] "Paint-list"
        = [["work", "build_out", "bin", "Paint.bin"], ["work", "build_out", "log", "Paint.txt"]]
      ∧ Succeeds (colorFiles.locate accepting.enumPath)
      ∧ (paintsIn .data colorFiles).2.file? ["work", "build_out", "bin", "Paint.bin"] = some [10, 2, 8, 2] := by
    decide +kernel
  obtain ⟨hschemaPlace, hdataPlaces, hopen, hbinary⟩ := hplaces
  have hran (mode : Mode) : ∃ report, paintsIn mode colorFiles = (.ok (some report), (paintsIn mode colorFiles).2) := by
    have hsome := hdone mode (by cases mode <;> decide)
    obtain ⟨report, hreport⟩ := Option.isSome_iff_exists.1 hsome
    obtain ⟨_, hok, rfl⟩ := Option.bind_eq_some_iff.1 hreport
    exact ⟨report, FileM.eq_ok_of_fst (toOption_eq_some.1 hok)⟩
  obtain ⟨-, htogether, -, -⟩ := @Run.both_phases_of_each accepting (.ofSettings accepting .known) paints "Paint-list"
    colorFiles
    (fun record h => by cases hname.symm.trans h; exact hschemaPlace)
    (SchemaCompiler.leavesAlone_of_onlyMakesDirectories
      (SchemaCompiler.ofSettings_onlyMakesDirectories _ Programs.known_changeNothing) _)
    (.inl hopen) fun mode failure t' hno => by
      obtain ⟨report, hyes⟩ := hran mode
      cases hyes.symm.trans hno
  obtain ⟨bySchema, hbySchema⟩ := hran .schema
  obtain ⟨byData, hbyData⟩ := hran .data
  obtain ⟨t', hall, helse, hrecords⟩ := htogether _ _ _ _ hbySchema hbyData
  rw [show colorFiles.workingDirectory = ["work"] from rfl, hdataPlaces] at helse hrecords
  exact ⟨bySchema, byData, _, _, t', hbySchema, hbyData, hall, (helse _ (by decide)).1, (hrecords _ (by decide)).1, hbinary⟩

end SheetCompiler

import SheetCompiler.CommandLine
import SheetCompiler.Proofs.Run.FirstFailure
import SheetCompiler.Proofs.Run.Logged

/-!
# What the command line reports

The lines that the program prints are put together from what a run leaves behind, and that a failing sheet had its
schema made is inferred from the mode. Here the course of a sheet is told by its phases, as they are completed or fail
(`Course`), and a run is the courses of its sheets in order up to the first that fails (`Transcript`). The program
prints a line for each phase that was completed and for the one that failed, and its exit code says which one that was.
Nothing is assumed of the programs that compile schemas and of the log: they may write any file, also one that the run
goes on to read.
-/

namespace SheetCompiler

namespace Settings

variable {tree : FileTree} {path : String} {s : Settings}

/-- Where settings are found: in the file that is named, else in the default file, and without one all are at their
defaults. -/
inductive Found (tree : FileTree) : Option String → Settings → Prop
  | named {path text : String} {s : Settings} (hread : tree.readText path = .ok text)
      (hsettings : ofYaml text = .ok s) : Found tree (some path) s
  | ofDefaultFile {text : String} {s : Settings} (hread : tree.readText "sheetproto.yaml" = .ok text)
      (hsettings : ofYaml text = .ok s) : Found tree none s
  | defaults (hfile : tree.isFile "sheetproto.yaml" = false) : Found tree none {}

theorem load_eq_ok : load tree path = .ok s ↔ ∃ text, tree.readText path = .ok text ∧ ofYaml text = .ok s := by
  rw [load, bind_eq_ok]
  exact exists_congr fun text => and_congr mapError_eq_ok mapError_eq_ok

theorem isFile_of_readText {text : String} (h : tree.readText path = .ok text) : tree.isFile path = true := by
  obtain ⟨content, hread, -⟩ := bind_eq_ok.1 h
  rw [FileTree.isFile, hread]
  rfl

theorem discover_eq_ok {path? : Option String} : discover tree path? = .ok s ↔ Found tree path? s := by
  cases path? with
  | some path =>
      rw [discover, load_eq_ok]
      constructor
      · rintro ⟨text, hread, hsettings⟩
        exact .named hread hsettings
      · rintro ⟨hread, hsettings⟩
        exact ⟨_, hread, hsettings⟩
  | none =>
      rw [discover, defaultFile]
      constructor
      · intro h
        split at h
        · obtain ⟨text, hread, hsettings⟩ := load_eq_ok.1 h
          exact .ofDefaultFile hread hsettings
        · next hfile =>
          cases h
          exact .defaults (Bool.eq_false_iff.2 hfile)
      · rintro (⟨⟩ | ⟨hread, hsettings⟩ | hfile)
        · rw [if_pos (isFile_of_readText hread), load_eq_ok]
          exact ⟨_, hread, hsettings⟩
        · rw [if_neg (Bool.eq_false_iff.1 hfile)]

end Settings

namespace Run

/-- How far a sheet has come. -/
structure Progress where
  schema : Bool
  /-- The rows that were encoded, if its data phase was completed. -/
  rows? : Option Nat
  failed? : Option Phase

/-- The course that a sheet with a record takes from one file tree to another, phase by phase. A sheet that cannot be
read fails in the first phase of the mode, and in a mode without a schema phase a header without a schema is left to the
data phase. -/
inductive Course (log : RunLog) (s : Settings) (compiler : SchemaCompiler) (source : SheetSource) (sheet name : String)
    (t : FileTree) : Progress → FileTree → Prop
  | unread {e : GridError} (hread : source.read t sheet = .error e) :
      Course log s compiler source sheet name t ⟨false, none, some (if s.mode = .data then .data else .schema)⟩ t
  | noSchema {grid : Grid} {e : SheetError} (hread : source.read t sheet = .ok grid) (hmode : s.mode.runsSchema = false)
      (hschema : Schema.ofHeader (Header.ofGrid grid) name s.schemaOptions = .error e) :
      Course log s compiler source sheet name t ⟨false, none, some .data⟩
        (log (.schemaBuilt name (Header.ofGrid grid)) (log (.loaded sheet grid) t))
  | schemaFailed {grid : Grid} {e : PhaseError} {t' : FileTree} (hread : source.read t sheet = .ok grid)
      (hmode : s.mode.runsSchema = true)
      (hphase : Logged.schemaPhase log s compiler (Header.ofGrid grid) name (log (.loaded sheet grid) t)
        = (.error e, t')) :
      Course log s compiler source sheet name t ⟨false, none, some .schema⟩ t'
  | schemaOnly {grid : Grid} {made : String × Message} {t' : FileTree} (hread : source.read t sheet = .ok grid)
      (hmode : s.mode = .schema)
      (hphase : Logged.schemaPhase log s compiler (Header.ofGrid grid) name (log (.loaded sheet grid) t)
        = (.ok made, t')) :
      Course log s compiler source sheet name t ⟨true, none, none⟩ t'
  | dataFailed {grid : Grid} {schema : Schema} {e : PhaseError} {between t' : FileTree}
      (hread : source.read t sheet = .ok grid) (hmode : s.mode.runsData = true)
      (hschema : Schema.ofHeader (Header.ofGrid grid) name s.schemaOptions = .ok schema)
      (hbetween : Logged.Between log s compiler (Header.ofGrid grid) name (log (.loaded sheet grid) t) between)
      (hphase : Logged.dataPhase log s (Header.ofGrid grid) grid schema.type (opened s sheet name) between
        = (.error e, t')) :
      Course log s compiler source sheet name t ⟨s.mode.runsSchema, none, some .data⟩ t'
  | dataDone {grid : Grid} {schema : Schema} {data : EncodedSheet} {report : SheetReport} {between t' : FileTree}
      (hread : source.read t sheet = .ok grid) (hmode : s.mode.runsData = true)
      (hschema : Schema.ofHeader (Header.ofGrid grid) name s.schemaOptions = .ok schema)
      (hbetween : Logged.Between log s compiler (Header.ofGrid grid) name (log (.loaded sheet grid) t) between)
      (hencodes : Encodes s grid schema.type between data)
      (hphase : Logged.dataPhase log s (Header.ofGrid grid) grid schema.type (opened s sheet name) between
        = (.ok report, t')) :
      Course log s compiler source sheet name t ⟨s.mode.runsSchema, some data.rowsEncoded, none⟩ t'

/-- The courses of sheets one after another, each from the files that the one before it has left. Sheets without a
record have none, and neither has any sheet behind the first that fails. -/
inductive Transcript (log : RunLog) (s : Settings) (compiler : SchemaCompiler) (source : SheetSource) :
    FileTree → List String → List (String × Progress) → FileTree → Prop
  | done {t : FileTree} : Transcript log s compiler source t [] [] t
  | passed {sheet : String} {names : List String} {courses : List (String × Progress)} {t t' : FileTree}
      (hname : recordOfSheet? sheet = none)
      (hrest : Transcript log s compiler source (log (.skipped sheet) t) names courses t') :
      Transcript log s compiler source t (sheet :: names) courses t'
  | completed {sheet name : String} {names : List String} {p : Progress} {courses : List (String × Progress)}
      {t t₁ t' : FileTree} (hname : recordOfSheet? sheet = some name)
      (hcourse : Course log s compiler source sheet name t p t₁) (hdone : p.failed? = none)
      (hrest : Transcript log s compiler source t₁ names courses t') :
      Transcript log s compiler source t (sheet :: names) ((sheet, p) :: courses) t'
  | failed {sheet name : String} {names : List String} {p : Progress} {phase : Phase} {t t' : FileTree}
      (hname : recordOfSheet? sheet = some name) (hcourse : Course log s compiler source sheet name t p t')
      (hfailed : p.failed? = some phase) :
      Transcript log s compiler source t (sheet :: names) [(sheet, p)] t'

/-- The phase in which a sheet fails, if one does. -/
def failedPhase? (courses : List (String × Progress)) : Option Phase := courses.findSome? (·.2.failed?)

end Run

namespace CommandLine

open Run

variable {log : RunLog} {s : Settings} {compiler : SchemaCompiler} {source : SheetSource}
  {sheet name workbook : String} {grid : Grid} {names : List String} {report : SheetReport} {p : Progress}
  {courses : List (String × Progress)} {t t' : FileTree}

def failedLine (sheet : String) : Phase → String
  | .schema => s!"[{sheet}] Interpreter Failed!!!"
  | .data => s!"[{sheet}] Parse Failed!!!"

/-- A line for each phase that was completed, and for the one that failed. -/
def progressLines (sheet : String) (p : Progress) : List String :=
  (if p.schema then [s!"[{sheet}] Interpreter Success!!!"] else [])
    ++ (p.rows?.map fun rows => s!"[{sheet}] Parse Success!!! ({rows} rows)").toList
    ++ (p.failed?.map (failedLine sheet)).toList

/-- The exit code by the phase that failed. -/
def codeOf (failed? : Option Phase) : Int := failed?.elim 0 Phase.exitCode

def transcriptLines (courses : List (String × Progress)) : List String := courses.flatMap fun c => progressLines c.1 c.2

/-! ### One sheet -/

/-- The report of a sheet and its failure have the lines of its course. -/
theorem readAndRun_of_course (hname : recordOfSheet? sheet = some name)
    (h : Course log s compiler source sheet name t p t') :
    (p.failed? = none ∧ ∃ report, Logged.readAndRun log s compiler source sheet t = (.ok (some report), t')
        ∧ reportLines report = progressLines sheet p)
      ∨ ∃ phase cause, p.failed? = some phase
        ∧ Logged.readAndRun log s compiler source sheet t = (.error ⟨phase, cause⟩, t')
        ∧ failureLines s.mode sheet phase = progressLines sheet p := by
  have haccepted : (recordOfSheet? sheet).isSome := by simp [hname]
  have hmakes {grid : Grid} {report : SheetReport} (hread : source.read t sheet = .ok grid)
      (hrecord : Logged.record log s compiler sheet name grid (log (.loaded sheet grid) t) = (.ok report, t')) :
      Logged.readAndRun log s compiler source sheet t = (.ok (some report), t') := by
    rw [Logged.readAndRun_of_read haccepted hread, Logged.sheet_of_some hname, hrecord]
    rfl
  have hfails {grid : Grid} {failure : SheetFailure} (hread : source.read t sheet = .ok grid)
      (hrecord : Logged.record log s compiler sheet name grid (log (.loaded sheet grid) t) = (.error failure, t')) :
      Logged.readAndRun log s compiler source sheet t = (.error failure, t') := by
    rw [Logged.readAndRun_of_read haccepted hread, Logged.sheet_of_some hname, hrecord]
    rfl
  cases h with
  | unread hread =>
      refine .inr ⟨_, _, rfl, (Logged.readAndRun_of_unread haccepted hread ..).trans (by rw [firstPhase_eq]), ?_⟩
      cases s.mode <;> rfl
  | @noSchema grid e hread hmode hschema =>
      refine .inr ⟨.data, .sheet e, rfl, hfails hread (Logged.record_of_no_schema hmode hschema), ?_⟩
      simp [failureLines, progressLines, failedLine, dataFailed, hmode]
  | @schemaFailed grid e _ hread hmode hphase =>
      exact .inr ⟨.schema, e, rfl, hfails hread (Logged.record_of_schemaPhase_error hmode hphase), rfl⟩
  | @schemaOnly grid made _ hread hmode hphase =>
      obtain ⟨schema, hschema, -⟩ := Logged.schemaPhase_eq_ok hphase
      have hbetween : Logged.Between log s compiler (Header.ofGrid grid) name (log (.loaded sheet grid) t) t' := by
        rw [Logged.Between, if_pos (by simp [hmode, Mode.runsSchema])]
        exact ⟨made, hphase⟩
      refine .inl ⟨rfl, opened s sheet name, hmakes hread ?_, ?_⟩
      · rw [Logged.record_of_between hschema hbetween, if_neg (by simp [hmode, Mode.runsData])]
        rfl
      · simp [reportLines, progressLines, schemaDone, opened, hmode, Mode.runsSchema]
  | @dataFailed grid schema e between _ hread hmode hschema hbetween hphase =>
      refine .inr ⟨.data, e, rfl, hfails hread ?_, ?_⟩
      · rw [Logged.record_of_between hschema hbetween, if_pos hmode]
        exact FileM.mapError_of_error hphase _
      · simp [failureLines, progressLines, failedLine, schemaDone, dataFailed]
  | @dataDone grid schema data report between _ hread hmode hschema hbetween hencodes hphase =>
      obtain ⟨data', hencodes', rfl⟩ := Logged.dataPhase_eq_ok hphase
      cases (encodes_iff.1 hencodes).symm.trans (encodes_iff.1 hencodes')
      refine .inl ⟨rfl, withRecords s (opened s sheet name) data, hmakes hread ?_, ?_⟩
      · rw [Logged.record_of_between hschema hbetween, if_pos hmode]
        exact FileM.mapError_of_ok hphase _
      · cases hschema : s.mode.runsSchema <;>
          simp [reportLines, progressLines, schemaDone, dataDone, withRecords, opened, hschema]

theorem exists_course (log : RunLog) (s : Settings) (compiler : SchemaCompiler) (source : SheetSource)
    (sheet name : String) (t : FileTree) : ∃ p t', Course log s compiler source sheet name t p t' := by
  cases hread : source.read t sheet with
  | error e => exact ⟨_, _, .unread hread⟩
  | ok grid =>
      -- The data phase, where there is one, goes on from the files behind the schema.
      have hdata {schema : Schema} {between : FileTree}
          (hschema : Schema.ofHeader (Header.ofGrid grid) name s.schemaOptions = .ok schema)
          (hbetween : Logged.Between log s compiler (Header.ofGrid grid) name (log (.loaded sheet grid) t) between)
          (hmode : s.mode.runsData = true) : ∃ p t', Course log s compiler source sheet name t p t' := by
        rcases hphase : Logged.dataPhase log s (Header.ofGrid grid) grid schema.type (opened s sheet name) between with
          ⟨e | report, t'⟩
        · exact ⟨_, _, .dataFailed hread hmode hschema hbetween hphase⟩
        · obtain ⟨data, hencodes, -⟩ := Logged.dataPhase_eq_ok hphase
          exact ⟨_, _, .dataDone hread hmode hschema hbetween hencodes hphase⟩
      cases hruns : s.mode.runsSchema with
      | true =>
          rcases hphase : Logged.schemaPhase log s compiler (Header.ofGrid grid) name (log (.loaded sheet grid) t) with
            ⟨e | made, t₁⟩
          · exact ⟨_, _, .schemaFailed hread hruns hphase⟩
          · cases hmode : s.mode with
            | schema => exact ⟨_, _, .schemaOnly hread hmode hphase⟩
            | data => simp [hmode, Mode.runsSchema] at hruns
            | all =>
                obtain ⟨schema, hschema, -⟩ := Logged.schemaPhase_eq_ok hphase
                have hbetween :
                    Logged.Between log s compiler (Header.ofGrid grid) name (log (.loaded sheet grid) t) t₁ := by
                  rw [Logged.Between, if_pos hruns]
                  exact ⟨made, hphase⟩
                exact hdata hschema hbetween (by simp [hmode, Mode.runsData])
      | false =>
          cases hschema : Schema.ofHeader (Header.ofGrid grid) name s.schemaOptions with
          | error e => exact ⟨_, _, .noSchema hread hruns hschema⟩
          | ok schema =>
              have hbetween : Logged.Between log s compiler (Header.ofGrid grid) name (log (.loaded sheet grid) t)
                  (log (.schemaBuilt name (Header.ofGrid grid)) (log (.loaded sheet grid) t)) := by
                rw [Logged.Between, if_neg (by simp [hruns])]
              refine hdata hschema hbetween ?_
              cases hmode : s.mode <;> simp_all [Mode.runsSchema, Mode.runsData]

theorem course_of_report (hname : recordOfSheet? sheet = some name)
    (h : Logged.readAndRun log s compiler source sheet t = (.ok (some report), t')) :
    ∃ p, Course log s compiler source sheet name t p t' ∧ p.failed? = none
      ∧ progressLines sheet p = reportLines report := by
  obtain ⟨p, t₁, hcourse⟩ := exists_course log s compiler source sheet name t
  rcases readAndRun_of_course hname hcourse with ⟨hdone, _, hran, hlines⟩ | ⟨_, _, -, hran, -⟩
  · cases hran.symm.trans h
    exact ⟨p, hcourse, hdone, hlines.symm⟩
  · cases hran.symm.trans h

theorem course_of_failure {failure : SheetFailure} (hname : recordOfSheet? sheet = some name)
    (h : Logged.readAndRun log s compiler source sheet t = (.error failure, t')) :
    ∃ p, Course log s compiler source sheet name t p t' ∧ p.failed? = some failure.phase
      ∧ progressLines sheet p = failureLines s.mode sheet failure.phase := by
  obtain ⟨p, t₁, hcourse⟩ := exists_course log s compiler source sheet name t
  rcases readAndRun_of_course hname hcourse with ⟨-, _, hran, -⟩ | ⟨_, _, hfailed, hran, hlines⟩
  · cases hran.symm.trans h
  · cases hran.symm.trans h
    exact ⟨p, hcourse, hfailed, hlines.symm⟩

/-- A sheet that does not fail completes all phases of the mode. -/
theorem complete_of_course (h : Course log s compiler source sheet name t p t') (hdone : p.failed? = none) :
    p.schema = s.mode.runsSchema ∧ p.rows?.isSome = s.mode.runsData := by
  cases h with
  | unread | noSchema | schemaFailed | dataFailed => cases hdone
  | schemaOnly _ hmode => simp [hmode, Mode.runsSchema, Mode.runsData]
  | dataDone _ hmode => simp [hmode]

/-! ### All sheets -/

theorem sheets_of_transcript (h : Transcript log s compiler source t names courses t') (workbook : String) :
    ∀ done : Summary, ∃ result, Logged.sheets log s compiler source done names t = (result, t')
      ∧ (Outcome.ofRun s.mode workbook result).output = done.sheets.flatMap reportLines ++ transcriptLines courses
      ∧ (Outcome.ofRun s.mode workbook result).exitCode = codeOf (failedPhase? courses) := by
  induction h with
  | done =>
      intro done
      exact ⟨_, rfl, by simp [Outcome.ofRun, transcriptLines], rfl⟩
  | passed hname _ ih =>
      intro done
      rw [Logged.sheets_cons_of_ok (Logged.readAndRun_of_none hname log s compiler source _)]
      exact ih _
  | completed hname hcourse hdone _ ih =>
      intro done
      rcases readAndRun_of_course hname hcourse with ⟨-, report, hran, hlines⟩ | ⟨phase, -, hfailed, -⟩
      · obtain ⟨result, hresult, houtput, hcode⟩ := ih (done.add _ (some report))
        refine ⟨result, (Logged.sheets_cons_of_ok hran).trans hresult, ?_, ?_⟩
        · rw [houtput]
          simp [Summary.add, transcriptLines, hlines]
        · rw [hcode]
          simp [failedPhase?, hdone]
      · cases hdone.symm.trans hfailed
  | failed hname hcourse hfailed =>
      intro done
      rcases readAndRun_of_course hname hcourse with ⟨hdone, -⟩ | ⟨phase, cause, hphase, hran, hlines⟩
      · cases hdone.symm.trans hfailed
      · refine ⟨_, Logged.sheets_cons_of_error hran, ?_, ?_⟩
        · simp [Outcome.ofRun, transcriptLines, hlines]
        · simp [Outcome.ofRun, failedPhase?, codeOf, hphase]

theorem exists_transcript (log : RunLog) (s : Settings) (compiler : SchemaCompiler) (source : SheetSource)
    (names : List String) : ∀ t, ∃ courses t', Transcript log s compiler source t names courses t' := by
  induction names with
  | nil => exact fun t => ⟨[], t, .done⟩
  | cons sheet names ih =>
      intro t
      cases hname : recordOfSheet? sheet with
      | none =>
          obtain ⟨courses, t', h⟩ := ih (log (.skipped sheet) t)
          exact ⟨courses, t', .passed hname h⟩
      | some name =>
          obtain ⟨p, t₁, hcourse⟩ := exists_course log s compiler source sheet name t
          cases hfailed : p.failed? with
          | some phase => exact ⟨_, _, .failed hname hcourse hfailed⟩
          | none =>
              obtain ⟨courses, t', h⟩ := ih t₁
              exact ⟨_, t', .completed hname hcourse hfailed h⟩

/-- There is a course for each sheet with a record up to the first failure, and what is completed is complete. -/
theorem sheets_of_courses (h : Transcript log s compiler source t names courses t') :
    courses.map (·.1) <+: accepted names ∧ (failedPhase? courses = none → courses.map (·.1) = accepted names)
      ∧ (∀ c ∈ courses.dropLast, c.2.failed? = none)
      ∧ ∀ c ∈ courses, c.2.failed? = none → c.2.schema = s.mode.runsSchema ∧ c.2.rows?.isSome = s.mode.runsData := by
  induction h with
  | done => exact ⟨List.prefix_rfl, fun _ => rfl, nofun, nofun⟩
  | passed hname _ ih => rwa [accepted_cons_of_none hname]
  | @completed sheet _ _ p courses _ _ _ hname hcourse hdone _ ih =>
      obtain ⟨hbegins, hall, hlast, hcomplete⟩ := ih
      rw [accepted_cons_of_isSome (by simp [hname])]
      refine ⟨List.cons_prefix_cons.2 ⟨rfl, hbegins⟩, ?_, ?_, ?_⟩
      · intro hnone
        have hrest : failedPhase? courses = none := by simpa [failedPhase?, hdone] using hnone
        simp [hall hrest]
      · intro c hc
        cases courses with
        | nil => cases hc
        | cons other courses =>
            rcases List.mem_cons.1 hc with rfl | hc
            · exact hdone
            · exact hlast c hc
      · exact List.forall_mem_cons.2 ⟨fun _ => complete_of_course hcourse hdone, hcomplete⟩
  | @failed sheet _ _ p phase _ _ hname hcourse hfailed =>
      rw [accepted_cons_of_isSome (by simp [hname])]
      refine ⟨List.cons_prefix_cons.2 ⟨rfl, List.nil_prefix⟩, ?_, nofun, ?_⟩
      · intro hnone
        simp [failedPhase?, hfailed] at hnone
      · intro c hc hnone
        rw [List.mem_singleton.1 hc, hfailed] at hnone
        cases hnone

/-! ### The program -/

/-- Whether the program gets to the sheets: with which settings, sheets and files. -/
structure Starts (log : RunLog) (openWorkbook : WorkbookOpener) (workbook : String) (i : Invocation) (tree : FileTree)
    (s : Settings) (source : SheetSource) (t : FileTree) : Prop where
  settings : ∃ found, Settings.Found tree i.config? found ∧ s = i.override found
  logFile : ∃ made created, FileM.createDirectory s.logDirectory tree = (.ok (), made)
    ∧ made.write s.logPath [] = .ok created ∧ t = log (.started workbook s.mode) (log (.opened s.logPath) created)
  opens : openWorkbook t workbook = .ok source

/-- The program gets to the sheets, and this is how they end: with a phase that fails, or with none. -/
def EndsWith (log : RunLog) (programs : Programs) (openWorkbook : WorkbookOpener) (workbook : String) (i : Invocation)
    (tree : FileTree) (failed? : Option Phase) : Prop :=
  ∃ s source t courses t', Starts log openWorkbook workbook i tree s source t
    ∧ Transcript log s (SchemaCompiler.Logged.ofSettings log s programs) source t source.names courses t'
    ∧ failedPhase? courses = failed?

variable {programs : Programs} {openWorkbook : WorkbookOpener} {i : Invocation} {tree : FileTree}

theorem start_eq_ok : Logged.start log s tree = (.ok (), t) ↔
    ∃ made created, FileM.createDirectory s.logDirectory tree = (.ok (), made)
      ∧ made.write s.logPath [] = .ok created ∧ t = log (.opened s.logPath) created := by
  rw [Logged.start, FileM.mapError_eq_ok, FileM.bind_eq_ok]
  constructor
  · rintro ⟨_, made, hmade, h⟩
    obtain ⟨_, created, hcreated, h⟩ := FileM.bind_eq_ok.1 h
    cases h
    exact ⟨made, created, hmade, FileM.write_eq_ok hcreated, rfl⟩
  · rintro ⟨made, created, hmade, hcreated, rfl⟩
    have hwrite : FileM.write s.logPath [] made = (.ok (), created) := by rw [FileM.write, hcreated]
    exact ⟨(), made, hmade, FileM.bind_of_ok hwrite⟩

theorem error_of_start {e : RunError} (h : Logged.start log s t = (.error e, t')) :
    ∃ error, e = .log s.logDirectory error := by
  rw [Logged.start] at h
  obtain ⟨error, rfl, -⟩ := FileM.mapError_eq_error.1 h
  exact ⟨error, rfl⟩

/-- Behind the beginning of its log, a run ends as its sheets do, if there is a workbook. -/
theorem path_of_start (h : Logged.start log s tree = (.ok (), t)) (compiler : SchemaCompiler)
    (openWorkbook : WorkbookOpener) (workbook : String) :
    (Logged.path log s compiler openWorkbook workbook tree).1
      = match openWorkbook (log (.started workbook s.mode) t) workbook with
        | .ok source => (Logged.all log s compiler source (log (.started workbook s.mode) t)).1
        | .error e => .error (.workbook workbook e) := by
  rw [Logged.path, FileM.bind_of_ok h, RunLog.tell_bind, FileM.get_bind]
  cases openWorkbook (log (.started workbook s.mode) t) workbook <;> rfl

theorem compile_of_settings {found : Settings} (h : Settings.discover tree i.config? = .ok found) :
    (compile log programs openWorkbook workbook i tree).1 = Outcome.ofRun (i.override found).mode workbook
      (Logged.path log (i.override found) (SchemaCompiler.Logged.ofSettings log (i.override found) programs)
        openWorkbook workbook tree).1 := by
  simp only [compile, h]
  split
  next hran => rw [hran]

theorem compile_of_starts (h : Starts log openWorkbook workbook i tree s source t) :
    (compile log programs openWorkbook workbook i tree).1 = Outcome.ofRun s.mode workbook
      (Logged.all log s (SchemaCompiler.Logged.ofSettings log s programs) source t).1 := by
  obtain ⟨⟨found, hfound, rfl⟩, ⟨made, created, hmade, hcreated, rfl⟩, hopens⟩ := h
  rw [compile_of_settings (Settings.discover_eq_ok.2 hfound),
    path_of_start (start_eq_ok.2 ⟨made, created, hmade, hcreated, rfl⟩), hopens]

theorem compile_of_not_starts (h : ¬∃ s source t, Starts log openWorkbook workbook i tree s source t) :
    (compile log programs openWorkbook workbook i tree).1.output = []
      ∧ (compile log programs openWorkbook workbook i tree).1.exitCode = usageExitCode := by
  cases hfound : Settings.discover tree i.config? with
  | error e =>
      rw [compile, hfound]
      exact ⟨rfl, rfl⟩
  | ok found =>
      rw [compile_of_settings hfound]
      rcases hstart : Logged.start log (i.override found) tree with ⟨e | _, t⟩
      · obtain ⟨error, rfl⟩ := error_of_start hstart
        rw [Logged.path, FileM.bind_of_error hstart]
        exact ⟨rfl, rfl⟩
      · rw [path_of_start hstart]
        obtain ⟨made, created, hmade, hcreated, rfl⟩ := start_eq_ok.1 hstart
        split
        · next source hopens =>
          exact absurd ⟨i.override found, source, _, ⟨found, Settings.discover_eq_ok.1 hfound, rfl⟩,
            ⟨made, created, hmade, hcreated, rfl⟩, hopens⟩ h
        · exact ⟨rfl, rfl⟩

theorem codeOf_inj {a b : Option Phase} (h : codeOf a = codeOf b) : a = b := by
  rcases a with - | - | - <;> rcases b with - | - | - <;> simp_all [codeOf, Phase.exitCode]

theorem codeOf_ne_usage (a : Option Phase) : codeOf a ≠ usageExitCode := by
  rcases a with - | - | - <;> simp [codeOf, Phase.exitCode, usageExitCode]

/-- The answer to an invocation that gets to the sheets is told by their transcript. -/
theorem compile_of_transcript (hstarts : Starts log openWorkbook workbook i tree s source t)
    (h : Transcript log s (SchemaCompiler.Logged.ofSettings log s programs) source t source.names courses t') :
    (compile log programs openWorkbook workbook i tree).1.output = transcriptLines courses
      ∧ (compile log programs openWorkbook workbook i tree).1.exitCode = codeOf (failedPhase? courses) := by
  obtain ⟨result, hresult, houtput, hcode⟩ := sheets_of_transcript h workbook {}
  have hall : Logged.all log s (SchemaCompiler.Logged.ofSettings log s programs) source t = (result, t') := hresult
  rw [compile_of_starts hstarts, hall]
  exact ⟨houtput, hcode⟩

/-- Once its arguments are read, the program says what has happened, whatever its log and the programs that it starts do
to the files. It gets to the sheets if there are settings, a log and a workbook, and then prints, for each sheet with a
record in the order of the workbook, a line for every phase that was completed and one for the phase that failed, which
is the last. Its exit code is zero if no phase failed, and otherwise tells the phase; it is that of a wrong usage exactly
if the program does not get to the sheets. -/
theorem run_reports_courses (log : RunLog) (programs : Programs) (openWorkbook : WorkbookOpener)
    {arguments : List String} {workbook : String} {i : Invocation}
    (hparse : Request.ofArguments arguments = .ok (.compile workbook i)) (tree : FileTree) :
    let outcome := (runLogged log programs openWorkbook arguments tree).1
    (∀ s source t, Starts log openWorkbook workbook i tree s source t →
      let compiler := SchemaCompiler.Logged.ofSettings log s programs
      (∃ courses t', Transcript log s compiler source t source.names courses t')
        ∧ ∀ courses t', Transcript log s compiler source t source.names courses t' →
          outcome.output = courses.flatMap (fun c => progressLines c.1 c.2)
            ∧ courses.map (·.1) <+: accepted source.names
            ∧ (failedPhase? courses = none → courses.map (·.1) = accepted source.names)
            ∧ (∀ c ∈ courses.dropLast, c.2.failed? = none)
            ∧ ∀ c ∈ courses, c.2.failed? = none →
                c.2.schema = s.mode.runsSchema ∧ c.2.rows?.isSome = s.mode.runsData)
    ∧ (outcome.exitCode = 0 ↔ EndsWith log programs openWorkbook workbook i tree none)
    ∧ (outcome.exitCode = -3 ↔ EndsWith log programs openWorkbook workbook i tree (some .schema))
    ∧ (outcome.exitCode = -4 ↔ EndsWith log programs openWorkbook workbook i tree (some .data))
    ∧ (outcome.exitCode = -1 ↔ ¬∃ s source t, Starts log openWorkbook workbook i tree s source t)
    ∧ ((¬∃ s source t, Starts log openWorkbook workbook i tree s source t) → outcome.output = []) := by
  have hrun : runLogged log programs openWorkbook arguments = compile log programs openWorkbook workbook i := by
    rw [runLogged, hparse]
  have hcodes (failed? : Option Phase) :
      (compile log programs openWorkbook workbook i tree).1.exitCode = codeOf failed?
        ↔ EndsWith log programs openWorkbook workbook i tree failed? := by
    constructor
    · intro hcode
      by_cases hstarts : ∃ s source t, Starts log openWorkbook workbook i tree s source t
      · obtain ⟨s, source, t, hstarts⟩ := hstarts
        obtain ⟨courses, t', h⟩ := exists_transcript log s (SchemaCompiler.Logged.ofSettings log s programs) source
          source.names t
        refine ⟨s, source, t, courses, t', hstarts, h, codeOf_inj ?_⟩
        exact (compile_of_transcript hstarts h).2.symm.trans hcode
      · exact absurd (hcode.symm.trans (compile_of_not_starts hstarts).2) (codeOf_ne_usage failed?)
    · rintro ⟨s, source, t, courses, t', hstarts, h, rfl⟩
      exact (compile_of_transcript hstarts h).2
  simp only [hrun]
  refine ⟨?_, hcodes none, hcodes (some .schema), hcodes (some .data), ⟨?_, ?_⟩, fun h => (compile_of_not_starts h).1⟩
  · intro s source t hstarts
    refine ⟨exists_transcript .., fun courses t' h => ⟨(compile_of_transcript hstarts h).1, ?_⟩⟩
    exact sheets_of_courses h
  · rintro hcode ⟨s, source, t, hstarts⟩
    obtain ⟨courses, t', h⟩ := exists_transcript log s (SchemaCompiler.Logged.ofSettings log s programs) source
      source.names t
    exact codeOf_ne_usage _ ((compile_of_transcript hstarts h).2.symm.trans hcode)
  · intro h
    exact (compile_of_not_starts h).2

/-! ### A run over a quay

Boats are encoded there, the age of the crew is no number, and the docks cannot be read.
-/

def quay : Workbook := ⟨[("Boat-list", .ok ⟨[[""], ["int32"], ["id"], ["1"]]⟩), ("Notes", .ok ⟨[]⟩),
  ("Crew-list", .ok ⟨[[""], ["int32"], ["age"], ["old"]]⟩), ("Dock-list", .error (.badSheet "no docks"))]⟩

def openQuay : WorkbookOpener := fun _ _ => .ok quay.source

def quayFiles : FileTree :=
  FileTree.empty.put ["work", "quay.yaml"] (.file (Text.Utf8.encode "mode: schema\nprotoc: make\n"))

def quayArguments : List String := ["--config", "quay.yaml", "--mode", "all", "quay.xlsx"]

/-- Programs that accept everything and write code. -/
def generating : Programs := fun tree _ _ => (.exited 0 "", tree.put ["work", "build_out", "code"] (.file []))

/-- A log that writes a line break for everything that it is told. -/
def breaking : RunLog := fun _ tree =>
  match tree.read "build_out/log/sheetproto.log" with
  | .ok content => tree.put ["work", "build_out", "log", "sheetproto.log"] (.file (content ++ [10]))
  | .error _ => tree

/-- With the compiler that the settings name, both phases of the boats are told of, and the schema phase of the crew and
its data phase that fails, but no docks. Where the compiler is missing, the boats are told of only. -/
theorem quay_reported :
    Request.ofArguments quayArguments = .ok (.compile "quay.xlsx"
        { workbook? := some "quay.xlsx", config? := some "quay.yaml", mode? := some .all })
      ∧ (runLogged breaking generating openQuay quayArguments quayFiles).1.output
        = ["[Boat-list] Interpreter Success!!!", "[Boat-list] Parse Success!!! (1 rows)",
          "[Crew-list] Interpreter Success!!!", "[Crew-list] Parse Failed!!!"]
      ∧ (runLogged breaking generating openQuay quayArguments quayFiles).1.exitCode = -4
      ∧ (runLogged breaking .known openQuay quayArguments quayFiles).1.output = ["[Boat-list] Interpreter Failed!!!"]
      ∧ (runLogged breaking .known openQuay quayArguments quayFiles).1.exitCode = -3 := by
  let i : Invocation := { workbook? := some "quay.xlsx", config? := some "quay.yaml", mode? := some .all }
  let s : Settings := { compiler := "make" }
  let compiler := SchemaCompiler.Logged.ofSettings breaking s generating
  let missing := SchemaCompiler.Logged.ofSettings breaking s .known
  let files := breaking (.started "quay.xlsx" .all) (Logged.start breaking s quayFiles).2
  let boats : SheetReport := ⟨"Boat-list", "Boat", some "protocol/Boat.schema", some "build_out/bin/Boat.bin",
    some "build_out/log/Boat.txt", 1, 0⟩
  have hparse : Request.ofArguments quayArguments = .ok (.compile "quay.xlsx" i) := by decide +kernel
  have hnames : recordOfSheet? "Boat-list" = some "Boat" ∧ recordOfSheet? "Notes" = none
      ∧ recordOfSheet? "Crew-list" = some "Crew" := by decide +kernel
  have hsettings : (quayFiles.readText "quay.yaml").toOption = some "mode: schema\nprotoc: make\n"
      ∧ (Settings.ofYaml "mode: schema\nprotoc: make\n").toOption = some { s with mode := .schema } := by
    decide +kernel
  have hruns : (Logged.start breaking s quayFiles).1.toOption = some ()
      ∧ (Logged.readAndRun breaking s compiler quay.source "Boat-list" files).1.toOption = some (some boats)
      ∧ (Logged.readAndRun breaking s compiler quay.source "Crew-list" (breaking (.skipped "Notes")
        (Logged.readAndRun breaking s compiler quay.source "Boat-list" files).2)).1.mapError (·.phase) = .error .data
      ∧ (Logged.readAndRun breaking s missing quay.source "Boat-list" files).1.mapError (·.phase) = .error .schema := by
    decide +kernel
  obtain ⟨hstart, hboats, hcrew, hmissing⟩ := hruns
  obtain ⟨made, created, hmade, hcreated, hopened⟩ := start_eq_ok.1 (FileM.eq_ok_of_fst (toOption_eq_some.1 hstart))
  have hstarts : Starts breaking openQuay "quay.xlsx" i quayFiles s quay.source files :=
    ⟨⟨_, .named (toOption_eq_some.1 hsettings.1) (toOption_eq_some.1 hsettings.2), rfl⟩,
      ⟨made, created, hmade, hcreated, congrArg (breaking (.started "quay.xlsx" .all)) hopened⟩, rfl⟩
  clear_value files
  -- The sheets take the courses that their reports and failures tell of.
  obtain ⟨p, hp, hdone, hplines⟩ := course_of_report hnames.1 (FileM.eq_ok_of_fst (toOption_eq_some.1 hboats))
  obtain ⟨failure, t₁, hphase, hfails⟩ := FileM.exists_error_of_mapError hcrew
  obtain ⟨q, hq, hfailed, hqlines⟩ := course_of_failure hnames.2.2 hfails
  obtain ⟨refusal, t₂, hrefusal, hrefuses⟩ := FileM.exists_error_of_mapError hmissing
  obtain ⟨r, hr, hrefused, hrlines⟩ := course_of_failure hnames.1 hrefuses
  have hends : Transcript breaking s compiler quay.source files quay.source.names
      [("Boat-list", p), ("Crew-list", q)] t₁ :=
    .completed hnames.1 hp hdone (.passed hnames.2.1 (.failed hnames.2.2 hq hfailed))
  have hstops : Transcript breaking s missing quay.source files quay.source.names [("Boat-list", r)] t₂ :=
    .failed hnames.1 hr hrefused
  obtain ⟨hsheets, -, -, hdata, -⟩ := run_reports_courses breaking generating openQuay hparse quayFiles
  obtain ⟨hsheets', -, hschema, -⟩ := run_reports_courses breaking .known openQuay hparse quayFiles
  have houtput := ((hsheets s _ _ hstarts).2 _ _ hends).1
  have houtput' := ((hsheets' s _ _ hstarts).2 _ _ hstops).1
  refine ⟨hparse, houtput.trans ?_, hdata.2 ⟨s, _, _, _, _, hstarts, hends, ?_⟩, houtput'.trans ?_,
    hschema.2 ⟨s, _, _, _, _, hstarts, hstops, ?_⟩⟩
  · rw [List.flatMap_cons, List.flatMap_singleton, hplines, hqlines, hphase]
    decide +kernel
  · simp [failedPhase?, hdone, hfailed, hphase]
  · rw [List.flatMap_singleton, hrlines, hrefusal]
    decide +kernel
  · simp [failedPhase?, hrefused, hrefusal]

end CommandLine

end SheetCompiler

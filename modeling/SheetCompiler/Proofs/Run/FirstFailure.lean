import SheetCompiler.Proofs.Run.Sheets

/-!
# The first failure of a run

What a run does is told by its sheets in order. As long as they are read and run without a failure, each adds its report
to what has been done (`Completes`); the first one that cannot be read or fails is the last one that the run comes to
(`FirstFailure`), with what was done before it as the summary. One of the two happens in every run.
-/

namespace SheetCompiler.Run

open FileTree

variable {s : Settings} {compiler : SchemaCompiler} {source source' : SheetSource} {sheet name : String}
  {names before rest : List String} {grid : Grid} {report : SheetReport} {reports : List SheetReport}
  {failure : SheetFailure} {done : Summary} {t t₀ t' : FileTree}

/-- The sheets that hold no record. -/
def passedOver (names : List String) : List String := names.filter fun name => (recordOfSheet? name).isNone

/-- The sheets that hold a record. -/
def accepted (names : List String) : List String := names.filter fun name => (recordOfSheet? name).isSome

/-- Whether sheets are done one after another, the first with the files of a tree and each of the others with those that
the ones before it have left: which reports there are then, and which files. -/
inductive Completes (s : Settings) (compiler : SchemaCompiler) (source : SheetSource) :
    FileTree → List String → List SheetReport → FileTree → Prop where
  | done {t : FileTree} : Completes s compiler source t [] [] t
  | passed {name : String} {names : List String} {reports : List SheetReport} {t t' : FileTree} :
      recordOfSheet? name = none → Completes s compiler source t names reports t' →
      Completes s compiler source t (name :: names) reports t'
  | reported {name : String} {names : List String} {grid : Grid} {report : SheetReport} {reports : List SheetReport}
      {t t₁ t' : FileTree} : (recordOfSheet? name).isSome → source.read t name = .ok grid →
      Run.sheet s compiler name grid t = (.ok (some report), t₁) → Completes s compiler source t₁ names reports t' →
      Completes s compiler source t (name :: names) (report :: reports) t'

/-- Whether a sheet fails with the files of a tree, and which files it leaves. One that cannot be read fails in the first
phase that the mode has. -/
inductive Fails (s : Settings) (compiler : SchemaCompiler) (source : SheetSource) (name : String) (t : FileTree) :
    SheetFailure → FileTree → Prop where
  | unread {e : GridError} : source.read t name = .error e →
      Fails s compiler source name t ⟨if s.mode = .data then .data else .schema, .grid e⟩ t
  | ran {grid : Grid} {failure : SheetFailure} {t' : FileTree} : source.read t name = .ok grid →
      Run.sheet s compiler name grid t = (.error failure, t') → Fails s compiler source name t failure t'

/-- Whether a run gets through the sheets `before`, with these reports, and then fails at the sheet `name`. -/
structure FirstFailure (s : Settings) (compiler : SchemaCompiler) (source : SheetSource) (t : FileTree)
    (before : List String) (reports : List SheetReport) (name : String) (failure : SheetFailure) (t' : FileTree) :
    Prop where
  names : ∃ after, source.names = before ++ name :: after
  accepted : (recordOfSheet? name).isSome
  fails : ∃ t₀, Completes s compiler source t before reports t₀ ∧ Fails s compiler source name t₀ failure t'

theorem passedOver_cons_of_none (h : recordOfSheet? name = none) : passedOver (name :: names) = name :: passedOver names :=
  List.filter_cons_of_pos (by rw [h]; rfl)

theorem passedOver_cons_of_isSome (h : (recordOfSheet? name).isSome) : passedOver (name :: names) = passedOver names :=
  List.filter_cons_of_neg (by rw [Option.isNone_iff_eq_none]; exact Option.isSome_iff_ne_none.1 h)

theorem accepted_cons_of_none (h : recordOfSheet? name = none) : accepted (name :: names) = accepted names :=
  List.filter_cons_of_neg (by rw [h]; decide)

theorem accepted_cons_of_isSome (h : (recordOfSheet? name).isSome) : accepted (name :: names) = name :: accepted names :=
  List.filter_cons_of_pos h

/-! ### One sheet -/

theorem firstPhase_eq (mode : Mode) :
    (if mode.runsSchema then Phase.schema else .data) = if mode = .data then .data else .schema := by
  cases mode <;> rfl

theorem Fails.readAndRun (h : Fails s compiler source name t failure t') (hname : (recordOfSheet? name).isSome) :
    readAndRun s compiler source name t = (.error failure, t') := by
  cases h with
  | unread hread => rw [readAndRun_of_unread hname hread, firstPhase_eq]
  | ran hread hran => rw [readAndRun_of_read hname hread, hran]

theorem sheet_ne_none (h : (recordOfSheet? sheet).isSome) :
    Run.sheet s compiler sheet grid t ≠ (.ok none, t') := by
  obtain ⟨name, hname⟩ := Option.isSome_iff_exists.1 h
  intro hran
  obtain ⟨report, hreport, -⟩ := (sheet_eq_ok hname).1 hran
  cases hreport

theorem Logged.sheets_cons_of_error {log : RunLog}
    (h : Logged.readAndRun log s compiler source name t = (.error failure, t')) :
    Logged.sheets log s compiler source done (name :: names) t = (.error (.sheet name failure done), t') := by
  rw [Logged.sheets]
  refine FileM.bind_of_error ?_
  rw [FileM.mapError, h]
  rfl

theorem sheets_cons_of_error (h : readAndRun s compiler source name t = (.error failure, t')) :
    sheets s compiler source done (name :: names) t = (.error (.sheet name failure done), t') :=
  Logged.sheets_cons_of_error h

theorem Logged.sheets_cons_of_ok {log : RunLog} {report? : Option SheetReport}
    (h : Logged.readAndRun log s compiler source name t = (.ok report?, t')) :
    Logged.sheets log s compiler source done (name :: names) t
      = Logged.sheets log s compiler source (done.add name report?) names t' := by
  rw [Logged.sheets, FileM.bind_of_ok (FileM.mapError_eq_ok.2 h)]
  cases report? <;> rfl

theorem sheets_cons_of_ok {report? : Option SheetReport} (h : readAndRun s compiler source name t = (.ok report?, t')) :
    sheets s compiler source done (name :: names) t = sheets s compiler source (done.add name report?) names t' :=
  Logged.sheets_cons_of_ok h

/-! ### Sheets one after another -/

/-- A run goes on behind sheets that are done, with their reports and with the names of those without a record. -/
theorem sheets_of_completes (h : Completes s compiler source t before reports t₀) : ∀ done : Summary,
    sheets s compiler source done (before ++ rest) t
      = sheets s compiler source ⟨done.sheets ++ reports, done.skipped ++ passedOver before⟩ rest t₀ := by
  induction h with
  | done =>
      intro done
      rw [passedOver, List.filter_nil, List.append_nil, List.append_nil, List.nil_append]
  | passed hname _ ih =>
      intro done
      rw [List.cons_append, sheets_cons_of_ok (readAndRun_of_none hname s compiler source _), ih,
        passedOver_cons_of_none hname, Summary.add, List.append_assoc, List.singleton_append]
  | reported hname hread hran _ ih =>
      intro done
      rw [List.cons_append, sheets_cons_of_ok ((readAndRun_of_read hname hread s compiler).trans hran), ih,
        passedOver_cons_of_isSome hname, Summary.add, List.append_assoc, List.singleton_append]

theorem exists_completes_or_fails (s : Settings) (compiler : SchemaCompiler) (source : SheetSource)
    (names : List String) : ∀ t : FileTree, (∃ reports t', Completes s compiler source t names reports t')
      ∨ ∃ before name after reports t₀ failure t', names = before ++ name :: after ∧ (recordOfSheet? name).isSome
        ∧ Completes s compiler source t before reports t₀ ∧ Fails s compiler source name t₀ failure t' := by
  induction names with
  | nil => exact fun t => .inl ⟨[], t, .done⟩
  | cons name names ih =>
      intro t
      cases hrecord : recordOfSheet? name with
      | none =>
          rcases ih t with ⟨reports, t', h⟩ | ⟨before, other, after, reports, t₀, failure, t', rfl, hother, h, hfails⟩
          · exact .inl ⟨reports, t', .passed hrecord h⟩
          · exact .inr ⟨name :: before, other, after, reports, t₀, failure, t', rfl, hother, .passed hrecord h, hfails⟩
      | some record =>
          have hname : (recordOfSheet? name).isSome := by rw [hrecord]; rfl
          cases hread : source.read t name with
          | error e => exact .inr ⟨[], name, names, [], t, _, t, rfl, hname, .done, .unread hread⟩
          | ok grid =>
              cases hran : Run.sheet s compiler name grid t with
              | mk outcome t₁ =>
                  match outcome with
                  | .error failure => exact .inr ⟨[], name, names, [], t, failure, t₁, rfl, hname, .done, .ran hread hran⟩
                  | .ok none => exact absurd hran (sheet_ne_none hname)
                  | .ok (some report) =>
                      rcases ih t₁ with
                        ⟨reports, t', h⟩ | ⟨before, other, after, reports, t₀, failure, t', rfl, hother, h, hfails⟩
                      · exact .inl ⟨report :: reports, t', .reported hname hread hran h⟩
                      · exact .inr ⟨name :: before, other, after, report :: reports, t₀, failure, t', rfl, hother,
                          .reported hname hread hran h, hfails⟩

theorem all_of_completes (h : Completes s compiler source t source.names reports t') :
    all s compiler source t = (.ok ⟨reports, passedOver source.names⟩, t') := by
  have hsheets : sheets s compiler source {} (source.names ++ []) t = _ := sheets_of_completes h {}
  rw [List.append_nil] at hsheets
  exact hsheets.trans (sheets_nil_eq_ok.2 ⟨rfl, rfl⟩)

theorem FirstFailure.all (h : FirstFailure s compiler source t before reports name failure t') :
    all s compiler source t = (.error (.sheet name failure ⟨reports, passedOver before⟩), t') := by
  obtain ⟨⟨after, hnames⟩, hname, t₀, hcompletes, hfails⟩ := h
  change sheets s compiler source {} source.names t = _
  rw [hnames, sheets_of_completes hcompletes {}, sheets_cons_of_error (hfails.readAndRun hname)]
  rfl

theorem exists_completes_or_firstFailure (s : Settings) (compiler : SchemaCompiler) (source : SheetSource)
    (t : FileTree) : (∃ reports t', Completes s compiler source t source.names reports t')
      ∨ ∃ before reports name failure t', FirstFailure s compiler source t before reports name failure t' := by
  rcases exists_completes_or_fails s compiler source source.names t with
    h | ⟨before, name, after, reports, t₀, failure, t', hnames, hname, hcompletes, hfails⟩
  · exact .inl h
  · exact .inr ⟨before, reports, name, failure, t', ⟨after, hnames⟩, hname, t₀, hcompletes, hfails⟩

theorem completes_of_all {summary : Summary} (h : all s compiler source t = (.ok summary, t')) :
    Completes s compiler source t source.names summary.sheets t' ∧ summary.skipped = passedOver source.names := by
  rcases exists_completes_or_firstFailure s compiler source t with
    ⟨reports, t₀, hcompletes⟩ | ⟨before, reports, name, failure, t₀, hfails⟩
  · cases (all_of_completes hcompletes).symm.trans h
    exact ⟨hcompletes, rfl⟩
  · cases hfails.all.symm.trans h

/-! ### Reports -/

theorem sheet_of_record {record : String} (h : Run.record s compiler sheet record grid t = (.ok report, t')) :
    report.sheet = sheet := by
  rw [record_eq] at h
  obtain ⟨⟨made, type⟩, between, hfirst, hsecond⟩ := FileM.bind_eq_ok.1 h
  obtain ⟨schema, -, rfl, rfl, -⟩ := schemaStep_eq_ok hfirst
  obtain ⟨hyes, hno⟩ := dataStep_eq_ok (fun _ => False) hsecond
  cases hmode : s.mode.runsData with
  | true =>
      obtain ⟨data, -, rfl, -⟩ := hyes hmode
      rfl
  | false =>
      obtain ⟨rfl, -⟩ := hno hmode
      rfl

theorem sheet_of_sheet (hsheet : (recordOfSheet? sheet).isSome)
    (h : Run.sheet s compiler sheet grid t = (.ok (some report), t')) : report.sheet = sheet := by
  obtain ⟨record, hrecord⟩ := Option.isSome_iff_exists.1 hsheet
  exact sheet_of_record ((sheet_eq_some hrecord).1 h)

theorem Completes.sheets (h : Completes s compiler source t names reports t') :
    reports.map (·.sheet) = accepted names := by
  induction h with
  | done => rfl
  | passed hname _ ih => rw [ih, accepted_cons_of_none hname]
  | reported hname _ hran _ ih =>
      rw [List.map_cons, ih, sheet_of_sheet hname hran, accepted_cons_of_isSome hname]

/-! ### Other sheets -/

theorem Completes.congr (h : Completes s compiler source t names reports t')
    (hread : ∀ name ∈ names, (recordOfSheet? name).isSome → ∀ u, source'.read u name = source.read u name) :
    Completes s compiler source' t names reports t' := by
  induction h with
  | done => exact .done
  | passed hname _ ih => exact .passed hname (ih (List.forall_mem_cons.1 hread).2)
  | reported hname hgrid hran _ ih =>
      obtain ⟨hfirst, hrest⟩ := List.forall_mem_cons.1 hread
      exact .reported hname ((hfirst hname _).trans hgrid) hran (ih hrest)

theorem Fails.congr (h : Fails s compiler source name t failure t')
    (hread : ∀ u, source'.read u name = source.read u name) : Fails s compiler source' name t failure t' := by
  cases h with
  | unread hno => exact .unread ((hread t).trans hno)
  | ran hgrid hran => exact .ran ((hread t).trans hgrid) hran

/-- A run succeeds exactly if every sheet with a record can be read and run, each with the files that those before it
have left. Otherwise it ends with the first failure, and what it has done by then does not depend on any later sheet.
Either way the summary has one report for each sheet that was done and the names of the sheets without a record among
them, both in order. -/
theorem all_ends_with_first_failure (s : Settings) (compiler : SchemaCompiler) (source : SheetSource) (t : FileTree) :
    (∀ summary t', all s compiler source t = (.ok summary, t')
      ↔ Completes s compiler source t source.names summary.sheets t' ∧ summary.skipped = passedOver source.names)
    ∧ (∀ error t', all s compiler source t = (.error error, t')
      ↔ ∃ before reports name failure, FirstFailure s compiler source t before reports name failure t'
        ∧ error = .sheet name failure ⟨reports, passedOver before⟩)
    ∧ (∀ names reports t', Completes s compiler source t names reports t' → reports.map (·.sheet) = accepted names)
    ∧ ∀ before reports name failure t', FirstFailure s compiler source t before reports name failure t' →
      ∀ source' : SheetSource, (∃ after, source'.names = before ++ name :: after) →
        (∀ sheet ∈ name :: before, ∀ u, source'.read u sheet = source.read u sheet) →
        all s compiler source' t = all s compiler source t := by
  refine ⟨fun summary t' => ⟨fun h => ?_, fun ⟨hcompletes, hskipped⟩ => ?_⟩, fun error t' => ⟨fun h => ?_, ?_⟩,
    fun names reports t' h => h.sheets, fun before reports name failure t' h source' hnames hread => ?_⟩
  · exact completes_of_all h
  · rw [all_of_completes hcompletes, ← hskipped]
  · rcases exists_completes_or_firstFailure s compiler source t with
      ⟨reports, t₀, hcompletes⟩ | ⟨before, reports, name, failure, t₀, hfails⟩
    · cases (all_of_completes hcompletes).symm.trans h
    · cases hfails.all.symm.trans h
      exact ⟨before, reports, name, failure, hfails, rfl⟩
  · rintro ⟨before, reports, name, failure, hfails, rfl⟩
    exact hfails.all
  · obtain ⟨hfirst, hrest⟩ := List.forall_mem_cons.1 hread
    obtain ⟨t₀, hcompletes, hfails⟩ := h.fails
    have hsame : FirstFailure s compiler source' t before reports name failure t' :=
      ⟨hnames, h.accepted, t₀, hcompletes.congr fun sheet hsheet _ => hrest sheet hsheet, hfails.congr hfirst⟩
    rw [hsame.all, h.all]

end SheetCompiler.Run

namespace SheetCompiler

/-- A sheet that is done, a page of notes, a sheet that cannot be read, and one more behind it. -/
def harbour (last : Except GridError Grid) : Workbook :=
  ⟨[("Boat-list", .ok ⟨[[""], ["int32"], ["id"], ["1"]]⟩), ("Notes", .ok ⟨[["high tide"]]⟩),
    ("Crew-list", .error (.badSheet "no cells")), ("Dock-list", last)]⟩

/-- The run over the harbour ends with the crew, whose sheet it cannot read, and the docks make no difference. -/
theorem harbour_ends_with_crew :
    ∃ report t', report.sheet = "Boat-list"
      ∧ Run.workbook { mode := .data } .none (harbour (.ok ⟨[]⟩)) .empty
        = (.error (.sheet "Crew-list" ⟨.data, .grid (.badSheet "no cells")⟩ ⟨[report], ["Notes"]⟩), t')
      ∧ Run.workbook { mode := .data } .none (harbour (.error (.badSheet "no docks"))) .empty
        = (.error (.sheet "Crew-list" ⟨.data, .grid (.badSheet "no cells")⟩ ⟨[report], ["Notes"]⟩), t') := by
  let boats : FileM SheetFailure (Option SheetReport) :=
    Run.sheet { mode := .data } .none "Boat-list" ⟨[[""], ["int32"], ["id"], ["1"]]⟩
  have hboats : (boats .empty).1.toOption = some (some ⟨"Boat-list", "Boat", none, some "build_out/bin/Boat.bin",
      some "build_out/log/Boat.txt", 1, 0⟩) := by decide +kernel
  have hran := FileM.eq_ok_of_fst (toOption_eq_some.1 hboats)
  have hnames : (recordOfSheet? "Boat-list").isSome ∧ recordOfSheet? "Notes" = none
      ∧ (recordOfSheet? "Crew-list").isSome := by decide +kernel
  have hfails : Run.FirstFailure { mode := .data } .none (harbour (.ok ⟨[]⟩)).source .empty ["Boat-list", "Notes"] [_]
      "Crew-list" ⟨.data, .grid (.badSheet "no cells")⟩ (boats .empty).2 :=
    ⟨⟨["Dock-list"], rfl⟩, hnames.2.2, _, .reported hnames.1 rfl hran (.passed hnames.2.1 .done), .unread rfl⟩
  have hpassed : Run.passedOver ["Boat-list", "Notes"] = ["Notes"] := by decide +kernel
  obtain ⟨-, herror, -, hlater⟩ :=
    Run.all_ends_with_first_failure { mode := .data } .none (harbour (.ok ⟨[]⟩)).source .empty
  have hran := (herror _ _).2 ⟨_, _, _, _, hfails, rfl⟩
  rw [hpassed] at hran
  refine ⟨_, _, rfl, hran, (hlater _ _ _ _ _ hfails _ ⟨["Dock-list"], rfl⟩ ?_).trans hran⟩
  exact List.forall_mem_cons.2 ⟨fun _ => rfl, List.forall_mem_cons.2 ⟨fun _ => rfl, List.forall_mem_cons.2
    ⟨fun _ => rfl, nofun⟩⟩⟩

end SheetCompiler

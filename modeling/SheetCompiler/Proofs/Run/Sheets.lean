import SheetCompiler.Proofs.Run.Phases

/-!
# What a run does sheet by sheet

A run takes a sheet with the files that the sheets before it have left, and goes on with those that it leaves. Every
report in its summary is from the turn of one sheet: the grid is the one that was there to read, and what the run has
written from then on are the files of that sheet and those of the later ones.
-/

namespace SheetCompiler

open FileTree

/-- The paths of the files that were written for a sheet, in the order in which they were. -/
def SheetReport.paths (r : SheetReport) : List String := r.schema?.toList ++ r.binary?.toList ++ r.text?.toList

/-- Whether the record of a report is that of its sheet, and its paths are the ones for that record. -/
structure SheetReport.Named (s : Settings) (r : SheetReport) : Prop where
  record : recordOfSheet? r.sheet = some r.record
  schema : r.schema? = if s.mode.runsSchema then some (s.schemaPath r.record) else none
  binary : r.binary? = if s.mode.runsData then some (s.binaryPath r.record) else none
  text : r.text? = if s.mode.runsData then some (s.textPath r.record) else none

namespace SheetReport

variable {s : Settings} {r : SheetReport} {path : String}

theorem mem_paths : path ∈ r.paths ↔ r.schema? = some path ∨ r.binary? = some path ∨ r.text? = some path := by
  simp [paths, Option.mem_toList]

theorem Named.schema_eq_some (h : r.Named s) (hpath : r.schema? = some path) :
    s.mode.runsSchema = true ∧ s.schemaPath r.record = path := by
  rw [h.schema, Option.ite_none_right_eq_some, Option.some.injEq] at hpath
  exact hpath

theorem Named.binary_eq_some (h : r.Named s) (hpath : r.binary? = some path) :
    s.mode.runsData = true ∧ s.binaryPath r.record = path := by
  rw [h.binary, Option.ite_none_right_eq_some, Option.some.injEq] at hpath
  exact hpath

theorem Named.text_eq_some (h : r.Named s) (hpath : r.text? = some path) :
    s.mode.runsData = true ∧ s.textPath r.record = path := by
  rw [h.text, Option.ite_none_right_eq_some, Option.some.injEq] at hpath
  exact hpath

end SheetReport

/-- Whether a path is that of a file of one of the sheets. -/
def Summary.Lists (summary : Summary) (path : String) : Prop := ∃ report ∈ summary.sheets, path ∈ report.paths

/-! ### Turns -/

/-- Adds to what has been done what was done for a sheet. -/
def Summary.add (done : Summary) (name : String) : Option SheetReport → Summary
  | some report => { done with sheets := done.sheets ++ [report] }
  | none => { done with skipped := done.skipped ++ [name] }

namespace Run

variable {s : Settings} {compiler : SchemaCompiler} {Known : String → Prop} {source : SheetSource} {grid : Grid}
  {sheet name : String} {report : SheetReport} {done summary : Summary} {t t' : FileTree}

theorem record_eq_ok (hspares : compiler.Spares Known) (hname : recordOfSheet? sheet = some name)
    (h : record s compiler sheet name grid t = (.ok report, t')) :
    report.sheet = sheet ∧ report.record = name ∧ report.Named s ∧ ∃ schema between files,
      Schema.ofHeader (Header.ofGrid grid) name s.schemaOptions = .ok schema
      ∧ Between s compiler (Header.ofGrid grid) name t between
      ∧ (s.mode.runsData = true → ∃ data, Encodes s grid schema.type between data ∧ files = dataFiles s name data)
      ∧ (schemaFiles s name schema ++ files).map (·.1) = report.paths
      ∧ Writes Known (schemaFiles s name schema ++ files) t t' := by
  rw [record_eq] at h
  obtain ⟨⟨made, type⟩, between, hfirst, hsecond⟩ := FileM.bind_eq_ok.1 h
  obtain ⟨schema, hschema, rfl, rfl, hbetween⟩ := schemaStep_eq_ok hfirst
  have hwrites := hbetween.writes hspares hschema
  obtain ⟨hyes, hno⟩ := dataStep_eq_ok Known hsecond
  have hpaths : (schemaFiles s name schema).map (·.1)
      = (if s.mode.runsSchema then some (s.schemaPath name) else none).toList := by
    rw [schemaFiles]
    split <;> rfl
  cases hmode : s.mode.runsData with
  | true =>
      obtain ⟨data, hencodes, rfl, hmore⟩ := hyes hmode
      refine ⟨rfl, rfl, ⟨hname, rfl, by rw [if_pos hmode]; rfl, by rw [if_pos hmode]; rfl⟩, schema, between,
        dataFiles s name data, hschema, hbetween, fun _ => ⟨data, hencodes, rfl⟩, ?_, hwrites.trans hmore⟩
      rw [List.map_append, hpaths, SheetReport.paths, List.append_assoc]
      rfl
  | false =>
      obtain ⟨rfl, rfl⟩ := hno hmode
      refine ⟨rfl, rfl, ⟨hname, rfl, by rw [hmode]; rfl, by rw [hmode]; rfl⟩, schema, t', [], hschema, hbetween,
        fun hyes => absurd hyes Bool.false_ne_true, ?_, by rw [List.append_nil]; exact hwrites⟩
      rw [List.append_nil, hpaths, SheetReport.paths, List.append_assoc]
      exact (List.append_nil _).symm

theorem Logged.readAndRun_of_none (h : recordOfSheet? name = none) (log : RunLog) (s : Settings)
    (compiler : SchemaCompiler) (source : SheetSource) (t : FileTree) :
    Logged.readAndRun log s compiler source name t = (.ok none, log (.skipped name) t) := by
  rw [Logged.readAndRun, h]
  rfl

theorem readAndRun_of_none (h : recordOfSheet? name = none) (s : Settings) (compiler : SchemaCompiler)
    (source : SheetSource) (t : FileTree) : readAndRun s compiler source name t = (.ok none, t) :=
  Logged.readAndRun_of_none h .silent s compiler source t

theorem Logged.readAndRun_of_read (h : (recordOfSheet? name).isSome) (hread : source.read t name = .ok grid)
    (log : RunLog) (s : Settings) (compiler : SchemaCompiler) :
    Logged.readAndRun log s compiler source name t
      = Logged.sheet log s compiler name grid (log (.loaded name grid) t) := by
  obtain ⟨record, hrecord⟩ := Option.isSome_iff_exists.1 h
  rw [Logged.readAndRun, hrecord]
  exact (FileM.get_bind _ t).trans (by rw [hread]; rfl)

theorem readAndRun_of_read (h : (recordOfSheet? name).isSome) (hread : source.read t name = .ok grid) (s : Settings)
    (compiler : SchemaCompiler) : readAndRun s compiler source name t = Run.sheet s compiler name grid t :=
  Logged.readAndRun_of_read h hread .silent s compiler

theorem Logged.readAndRun_of_unread {e : GridError} (h : (recordOfSheet? name).isSome)
    (hread : source.read t name = .error e) (log : RunLog) (s : Settings) (compiler : SchemaCompiler) :
    Logged.readAndRun log s compiler source name t
      = (.error ⟨if s.mode.runsSchema then .schema else .data, .grid e⟩, t) := by
  obtain ⟨record, hrecord⟩ := Option.isSome_iff_exists.1 h
  rw [Logged.readAndRun, hrecord]
  exact (FileM.get_bind _ t).trans (by rw [hread]; rfl)

theorem readAndRun_of_unread {e : GridError} (h : (recordOfSheet? name).isSome)
    (hread : source.read t name = .error e) (s : Settings) (compiler : SchemaCompiler) :
    readAndRun s compiler source name t = (.error ⟨if s.mode.runsSchema then .schema else .data, .grid e⟩, t) :=
  Logged.readAndRun_of_unread h hread .silent s compiler

theorem readAndRun_eq_ok {report? : Option SheetReport}
    (h : readAndRun s compiler source name t = (.ok report?, t')) :
    (report? = none ∧ t' = t) ∨ ∃ record grid report, report? = some report ∧ recordOfSheet? name = some record
      ∧ source.read t name = .ok grid ∧ Run.record s compiler name record grid t = (.ok report, t') := by
  cases hrecord : recordOfSheet? name with
  | none =>
      cases (readAndRun_of_none hrecord s compiler source t).symm.trans h
      exact .inl ⟨rfl, rfl⟩
  | some record =>
      have haccepted : (recordOfSheet? name).isSome := by rw [hrecord]; rfl
      cases hgrid : source.read t name with
      | error e =>
          rw [readAndRun_of_unread haccepted hgrid] at h
          cases h
      | ok grid =>
          rw [readAndRun_of_read haccepted hgrid] at h
          obtain ⟨report, rfl, hran⟩ := (sheet_eq_ok hrecord).1 h
          exact .inr ⟨record, grid, report, rfl, rfl, rfl, hran⟩

theorem sheets_nil_eq_ok : sheets s compiler source done [] t = (.ok summary, t') ↔ done = summary ∧ t = t' :=
  FileM.pure_eq_ok

theorem sheets_cons_eq_ok {names : List String} :
    sheets s compiler source done (name :: names) t = (.ok summary, t')
      ↔ ∃ report? t₁, readAndRun s compiler source name t = (.ok report?, t₁)
        ∧ sheets s compiler source (done.add name report?) names t₁ = (.ok summary, t') := by
  rw [sheets, Logged.sheets, FileM.bind_eq_ok]
  refine exists_congr fun report? => exists_congr fun t₁ => ?_
  rw [FileM.mapError_eq_ok]
  cases report? <;> exact Iff.rfl

theorem writes_of_sheets (hspares : compiler.Spares Known) {names : List String} :
    ∀ {done : Summary} {t : FileTree}, sheets s compiler source done names t = (.ok summary, t') →
      ∃ reports files, summary.sheets = done.sheets ++ reports ∧ (∀ report ∈ reports, report.Named s)
        ∧ files.map (·.1) = reports.flatMap SheetReport.paths ∧ Writes Known files t t' := by
  induction names with
  | nil =>
      intro done t h
      obtain ⟨rfl, rfl⟩ := sheets_nil_eq_ok.1 h
      exact ⟨[], [], (List.append_nil _).symm, nofun, rfl, .refl t⟩
  | cons name names ih =>
      intro done t h
      obtain ⟨report?, t₁, hfirst, h⟩ := sheets_cons_eq_ok.1 h
      obtain ⟨reports, files, hsheets, hnamed, hpaths, hwrites⟩ := ih h
      rcases readAndRun_eq_ok hfirst with ⟨rfl, rfl⟩ | ⟨record, grid, report, rfl, hrecord, -, hran⟩
      · exact ⟨reports, files, hsheets, hnamed, hpaths, hwrites⟩
      · obtain ⟨-, hname, hown, schema, between, data, -, -, -, hdata, hmore⟩ := record_eq_ok hspares hrecord hran
        refine ⟨report :: reports, _, ?_, List.forall_mem_cons.2 ⟨hown, hnamed⟩, ?_, hmore.trans hwrites⟩
        · rw [hsheets, Summary.add, List.append_assoc, List.singleton_append]
        · rw [List.map_append, hdata, hpaths, List.flatMap_cons]

theorem prefix_of_sheets {names : List String} :
    ∀ {done : Summary} {t : FileTree}, sheets s compiler source done names t = (.ok summary, t') →
      done.sheets <+: summary.sheets := by
  induction names with
  | nil =>
      intro done t h
      obtain ⟨rfl, -⟩ := sheets_nil_eq_ok.1 h
      exact List.prefix_rfl
  | cons name names ih =>
      intro done t h
      obtain ⟨report?, t₁, -, h⟩ := sheets_cons_eq_ok.1 h
      refine List.IsPrefix.trans ?_ (ih h)
      cases report? with
      | none => exact List.prefix_rfl
      | some report => exact List.prefix_append done.sheets [report]

/-- The run has come to the sheet of every report, behind the sheets whose reports are before it. -/
theorem reached_of_sheets {names : List String} {after : List SheetReport} :
    ∀ {done : Summary} {t : FileTree} {before : List SheetReport},
      sheets s compiler source done names t = (.ok summary, t') →
      summary.sheets = done.sheets ++ before ++ report :: after →
      ∃ earlier name later mid t₀ t₁, names = earlier ++ name :: later
        ∧ sheets s compiler source done earlier t = (.ok mid, t₀) ∧ mid.sheets = done.sheets ++ before
        ∧ readAndRun s compiler source name t₀ = (.ok (some report), t₁)
        ∧ sheets s compiler source (mid.add name (some report)) later t₁ = (.ok summary, t') := by
  induction names with
  | nil =>
      intro done t before h hsheets
      obtain ⟨rfl, -⟩ := sheets_nil_eq_ok.1 h
      simp at hsheets
  | cons name names ih =>
      intro done t before h hsheets
      obtain ⟨report?, t₁, hfirst, h⟩ := sheets_cons_eq_ok.1 h
      -- The turn may come later, whatever the first sheet has added to what has been done.
      have hlater {before' : List SheetReport}
          (hdone : (done.add name report?).sheets ++ before' = done.sheets ++ before) :
          ∃ earlier name' later mid t₀ t₂, name :: names = earlier ++ name' :: later
            ∧ sheets s compiler source done earlier t = (.ok mid, t₀) ∧ mid.sheets = done.sheets ++ before
            ∧ readAndRun s compiler source name' t₀ = (.ok (some report), t₂)
            ∧ sheets s compiler source (mid.add name' (some report)) later t₂ = (.ok summary, t') := by
        obtain ⟨earlier, name', later, mid, t₀, t₂, hnames, hearlier, hmid, hturn, hrest⟩ :=
          ih h (hsheets.trans (by rw [hdone]))
        exact ⟨name :: earlier, name', later, mid, t₀, t₂, by rw [hnames, List.cons_append],
          sheets_cons_eq_ok.2 ⟨report?, t₁, hfirst, hearlier⟩, hmid.trans hdone, hturn, hrest⟩
      cases report? with
      | none => exact hlater rfl
      | some first =>
          have hprefix : done.sheets ++ [first] <+: done.sheets ++ (before ++ report :: after) := by
            rw [← List.append_assoc, ← hsheets]
            exact prefix_of_sheets h
          rw [List.prefix_append_right_inj] at hprefix
          cases before with
          | nil =>
              obtain ⟨rfl, -⟩ := List.cons_prefix_cons.1 hprefix
              exact ⟨[], name, names, done, t, t₁, rfl, sheets_nil_eq_ok.2 ⟨rfl, rfl⟩, (List.append_nil _).symm,
                hfirst, h⟩
          | cons other before =>
              obtain ⟨rfl, -⟩ := List.cons_prefix_cons.1 hprefix
              exact hlater (by rw [Summary.add, List.append_assoc, List.singleton_append])

/-- The turn of the sheet of a report, in a run that starts from a tree: the sheet's own grid, the schema of its own
header, and the files with which its records are encoded. -/
structure Turn (s : Settings) (compiler : SchemaCompiler) (source : SheetSource) (t : FileTree)
    (report : SheetReport) where
  /-- The sheets whose turn comes before. -/
  earlier : List String
  later : List String
  names_eq : source.names = earlier ++ report.sheet :: later
  /-- What has been done before. -/
  done : Summary
  /-- The files when the turn comes. -/
  files : FileTree
  reached : sheets s compiler source {} earlier t = (.ok done, files)
  named : report.Named s
  grid : Grid
  grid_eq : source.read files report.sheet = .ok grid
  schema : Schema
  schema_eq : Schema.ofHeader (Header.ofGrid grid) report.record s.schemaOptions = .ok schema
  /-- The files when the data phase begins. -/
  between : FileTree
  between_eq : Between s compiler (Header.ofGrid grid) report.record files between

/-- Whether these are the records of the sheet: those of its grid, with the types of its schema. -/
def Turn.Encodes (turn : Turn s compiler source t report) (data : EncodedSheet) : Prop :=
  Run.Encodes s turn.grid turn.schema.type turn.between data

/-- Every report has had its turn. From then on the run has written the files of its sheet and those of the later
ones, and all their paths lead somewhere. -/
theorem exists_turn {before after : List SheetReport} (hspares : compiler.Spares summary.Lists)
    (hrun : all s compiler source t = (.ok summary, t')) (hreport : summary.sheets = before ++ report :: after) :
    ∃ (turn : Turn s compiler source t report) (own rest : List (String × Bytes)), turn.done.sheets = before
      ∧ (s.mode.runsData = true → ∃ data, turn.Encodes data ∧ own = dataFiles s report.record data)
      ∧ (schemaFiles s report.record turn.schema ++ own).map (·.1) = report.paths
      ∧ (∀ later ∈ after, later.Named s) ∧ rest.map (·.1) = after.flatMap SheetReport.paths
      ∧ Writes summary.Lists (schemaFiles s report.record turn.schema ++ own ++ rest) turn.files t'
      ∧ ∀ path ∈ report.paths ++ after.flatMap SheetReport.paths,
        t'.locate path = .ok (place turn.files.workingDirectory path) := by
  obtain ⟨earlier, name, later, done, files, files', hnames, hearlier, hdone, hturn, hrest⟩ :=
    reached_of_sheets hrun hreport
  obtain ⟨h, -⟩ | ⟨record, grid, report', heq, hrecord, hgrid, hran⟩ := readAndRun_eq_ok hturn
  · cases h
  cases heq
  obtain ⟨rfl, rfl, hnamed, schema, between, own, hschema, hbetween, hdata, hown, hwrites⟩ :=
    record_eq_ok hspares hrecord hran
  obtain ⟨reports, rest, hreports, hlater, hpaths, hmore⟩ := writes_of_sheets hspares hrest
  have hafter : reports = after := by
    rw [hreport, Summary.add, hdone, List.append_assoc] at hreports
    exact (List.cons.inj (List.append_cancel_left hreports)).2.symm
  subst hafter
  have hwritten := hwrites.trans hmore
  refine ⟨⟨earlier, later, hnames, done, files, hearlier, hnamed, grid, hgrid, schema, hschema, between, hbetween⟩, own,
    rest, hdone, hdata, hown, hlater, hpaths, hwritten, fun path hpath => ?_⟩
  have hlists : summary.Lists path := by
    rw [← List.flatMap_cons] at hpath
    obtain ⟨r, hr, hpath⟩ := List.mem_flatMap.1 hpath
    exact ⟨r, by rw [hreport]; exact List.mem_append_right _ hr, hpath⟩
  rw [← hown, ← hpaths, ← List.map_append] at hpath
  obtain ⟨file, hfile, rfl⟩ := List.mem_map.1 hpath
  exact hwritten.locate hfile hlists

end Run

end SheetCompiler

import SheetCompiler.Proofs.Run.Places
import SheetCompiler.Proofs.Run.Sheets

/-!
# Whose files are there after a run

Files are named for records, and nothing keeps two sheets from having records of one name, or a schema from being
written where the records of a sheet are. What is there after a run is therefore what was written last. A file is still
the one that its own sheet has written, from its own grid and its own header, unless something later went to the same
place, and for records in either format this can only be a later sheet with the same record or a later schema.
-/

namespace SheetCompiler

open FileTree

/-! ### Files that stay -/

namespace Run

variable {s : Settings} {compiler : SchemaCompiler} {source : SheetSource} {path : String} {report : SheetReport}
  {summary : Summary} {t t' : FileTree}

/-- Whether no later sheet has the same record, and no later schema is written where a path leads. -/
def Outlives (t : FileTree) (report : SheetReport) (path : String) (after : List SheetReport) : Prop :=
  ∀ later ∈ after, later.record ≠ report.record
    ∧ ∀ schema, later.schema? = some schema → t.locate schema ≠ t.locate path

theorem place_ne_of_outlives {w : Location} {after : List SheetReport} (hnamed : report.Named s)
    (hafter : ∀ later ∈ after, later.Named s)
    (hkind : path = s.binaryPath report.record ∨ path = s.textPath report.record)
    (hplace : ∀ other ∈ path :: after.flatMap SheetReport.paths, t.locate other = .ok (place w other))
    (h : Outlives t report path after) :
    ∀ other ∈ after.flatMap SheetReport.paths, place w other ≠ place w path := by
  intro other hmem heq
  obtain ⟨later, hlater, hother⟩ := List.mem_flatMap.1 hmem
  obtain ⟨hrecord, hschema⟩ := h later hlater
  have hown := isIdentifier_of_recordOfSheet? hnamed.record
  have hother' := isIdentifier_of_recordOfSheet? (hafter later hlater).record
  rcases SheetReport.mem_paths.1 hother with hpath | hpath | hpath
  · exact hschema other hpath
      (by rw [hplace other (List.mem_cons_of_mem _ hmem), hplace path List.mem_cons_self, heq])
  · obtain ⟨-, rfl⟩ := (hafter later hlater).binary_eq_some hpath
    rcases hkind with rfl | rfl
    · exact hrecord (eq_of_place_binaryPath hother' hown heq)
    · exact place_binaryPath_ne_textPath s hother' hown w heq
  · obtain ⟨-, rfl⟩ := (hafter later hlater).text_eq_some hpath
    rcases hkind with rfl | rfl
    · exact place_binaryPath_ne_textPath s hown hother' w heq.symm
    · exact hrecord (eq_of_place_textPath hother' hown heq)

/-- A file of a run is the one that its own sheet has written, unless something has later been written to the same
place; to the place of records in either format only a later sheet with the same record writes, or a later schema. -/
theorem read_artifacts_of_all {before after : List SheetReport} (hrun : all s compiler source t = (.ok summary, t'))
    (hspares : compiler.Spares summary.Lists) (hreport : summary.sheets = before ++ report :: after) :
    ∃ turn : Turn s compiler source t report, turn.done.sheets = before
      ∧ (∀ path, report.schema? = some path →
          (∀ other ∈ report.binary?.toList ++ report.text?.toList ++ after.flatMap SheetReport.paths,
            t'.locate other ≠ t'.locate path) →
          t'.read path = .ok (Text.Utf8.encode turn.schema.text))
      ∧ (∀ path, report.binary? = some path → Outlives t' report path after →
          ∃ data, turn.Encodes data ∧ t'.read path = .ok data.binary)
      ∧ ∀ path, report.text? = some path → Outlives t' report path after →
          ∃ data, turn.Encodes data ∧ t'.read path = .ok (Text.Utf8.encode data.text) := by
  obtain ⟨turn, own, rest, hbefore, hdata, hown, hafter, hrest, hwrites, hlocate⟩ := exists_turn hspares hrun hreport
  have hnamed := turn.named
  have hidentifier := isIdentifier_of_recordOfSheet? hnamed.record
  have hlists : ∀ path ∈ report.paths, summary.Lists path := fun path hpath =>
    ⟨report, by rw [hreport]; exact List.mem_append_right _ List.mem_cons_self, hpath⟩
  have hlocateOwn : ∀ path ∈ report.paths, t'.locate path = .ok (place turn.files.workingDirectory path) :=
    fun path hpath => hlocate path (List.mem_append_left _ hpath)
  have hstays {path : String} (hpath : path ∈ report.paths)
      (hkind : path = s.binaryPath report.record ∨ path = s.textPath report.record)
      (houtlives : Outlives t' report path after) :
      ∀ file ∈ rest, place turn.files.workingDirectory file.1 ≠ place turn.files.workingDirectory path :=
    fun file hfile => place_ne_of_outlives hnamed hafter hkind (List.forall_mem_cons.2 ⟨hlocateOwn path hpath,
      fun other hother => hlocate other (List.mem_append_right _ hother)⟩) houtlives file.1
      (hrest ▸ List.mem_map_of_mem hfile)
  refine ⟨turn, hbefore, fun path hpath hlast => ?_, fun path hpath houtlives => ?_, fun path hpath houtlives => ?_⟩
  -- The schema is written before all other files that may still go to its place.
  · have hmem := SheetReport.mem_paths.2 (.inl hpath)
    obtain ⟨hmode, rfl⟩ := hnamed.schema_eq_some hpath
    rw [schemaFiles, if_pos hmode, List.append_assoc] at hwrites
    have hothers : (own ++ rest).map (·.1)
        = report.binary?.toList ++ report.text?.toList ++ after.flatMap SheetReport.paths := by
      rw [schemaFiles, if_pos hmode, SheetReport.paths, hpath, List.map_append, List.append_assoc] at hown
      rw [List.map_append, List.append_cancel_left hown, hrest]
    change Writes _ ([] ++ (s.schemaPath report.record, _) :: (own ++ rest)) _ _ at hwrites
    refine hwrites.read_of_last (hlists _ hmem) fun file hfile heq => ?_
    have hother : file.1 ∈ report.binary?.toList ++ report.text?.toList ++ after.flatMap SheetReport.paths :=
      hothers ▸ List.mem_map_of_mem hfile
    refine hlast file.1 hother ?_
    rw [hlocateOwn _ hmem, hlocate file.1, heq]
    rw [SheetReport.paths, List.append_assoc, List.append_assoc, ← List.append_assoc report.binary?.toList]
    exact List.mem_append_right _ hother
  -- Between the records in the one format and the later sheets there are only the records in the other.
  · have hmem := SheetReport.mem_paths.2 (.inr (.inl hpath))
    obtain ⟨hmode, rfl⟩ := hnamed.binary_eq_some hpath
    obtain ⟨data, hencodes, rfl⟩ := hdata hmode
    refine ⟨data, hencodes, ?_⟩
    rw [List.append_assoc] at hwrites
    exact hwrites.read_of_last (hlists _ hmem) (List.forall_mem_cons.2
      ⟨(place_binaryPath_ne_textPath s hidentifier hidentifier _).symm, hstays hmem (.inl rfl) houtlives⟩)
  · have hmem := SheetReport.mem_paths.2 (.inr (.inr hpath))
    obtain ⟨hmode, rfl⟩ := hnamed.text_eq_some hpath
    obtain ⟨data, hencodes, rfl⟩ := hdata hmode
    refine ⟨data, hencodes, ?_⟩
    have hlast : dataFiles s report.record data
        = [(s.binaryPath report.record, data.binary)] ++ [(s.textPath report.record, Text.Utf8.encode data.text)] := rfl
    rw [hlast, ← List.append_assoc, List.append_assoc] at hwrites
    exact hwrites.read_of_last (hlists _ hmem) (hstays hmem (.inr rfl) houtlives)

end Run

/-- Settings for runs that compile nothing. -/
def uncompiled : Settings := { compile := false }

def shelf (id : String) : Grid := ⟨[[""], ["int32"], ["id"], [id]]⟩

/-- The report of a sheet with one row. -/
def shelfReport (sheet record : String) : SheetReport :=
  ⟨sheet, record, some (uncompiled.schemaPath record), some (uncompiled.binaryPath record),
    some (uncompiled.textPath record), 1, 0⟩

/-- Two sheets with records of their own, and a page of notes. -/
def stock : Workbook :=
  ⟨[("Item-list", .ok (shelf "1")), ("Notes", .ok ⟨[["check the tags"]]⟩), ("Tag-list", .ok (shelf "7"))]⟩

/-- The files of the items are there after the run, though those of the tags have been written since. -/
theorem stock_keeps_its_items :
    ∃ summary t' schema data, Run.workbook uncompiled (.ofSettings uncompiled .known) stock .empty = (.ok summary, t')
      ∧ summary.sheets = [shelfReport "Item-list" "Item", shelfReport "Tag-list" "Tag"]
      ∧ Schema.ofHeader (Header.ofGrid (shelf "1")) "Item" {} = .ok schema
      ∧ EncodedSheet.ofGrid (shelf "1") schema.type {} = .ok data
      ∧ t'.read (uncompiled.schemaPath "Item") = .ok (Text.Utf8.encode schema.text)
      ∧ t'.read (uncompiled.binaryPath "Item") = .ok data.binary
      ∧ t'.read (uncompiled.textPath "Item") = .ok (Text.Utf8.encode data.text) := by
  let run := Run.workbook uncompiled (.ofSettings uncompiled .known) stock .empty
  have hran : (run.1.toOption.map (·.sheets)
        = some [shelfReport "Item-list" "Item", shelfReport "Tag-list" "Tag"])
      ∧ (∀ other ∈ (shelfReport "Item-list" "Item").paths.tail ++ (shelfReport "Tag-list" "Tag").paths,
        run.2.locate other ≠ run.2.locate (uncompiled.schemaPath "Item"))
      ∧ ∀ path ∈ (shelfReport "Item-list" "Item").paths.tail,
        run.2.locate (uncompiled.schemaPath "Tag") ≠ run.2.locate path := by decide +kernel
  obtain ⟨hsheets, hplaces, hschemas⟩ := hran
  obtain ⟨summary, hsummary, hsheets⟩ := map_toOption_eq_some.1 hsheets
  have hrun : run = (.ok summary, run.2) := FileM.eq_ok_of_fst hsummary
  obtain ⟨turn, -, hschema, hbinary, htext⟩ := Run.read_artifacts_of_all hrun
    (SchemaCompiler.spares_ofSettings _ Programs.known_changeNothing) (hsheets.trans (List.nil_append _).symm)
  have hgrid : turn.grid = shelf "1" := (Except.ok.inj turn.grid_eq).symm
  have hencoded : ∀ data, turn.Encodes data → EncodedSheet.ofGrid (shelf "1") turn.schema.type {} = .ok data := by
    rintro data ⟨enums, henums, hdata⟩
    rw [Run.enumTable_of_mentionsEnums (by rw [hgrid]; decide +kernel)] at henums
    cases henums
    rwa [hgrid] at hdata
  have houtlives : ∀ path ∈ (shelfReport "Item-list" "Item").paths.tail,
      Run.Outlives run.2 (shelfReport "Item-list" "Item") path [shelfReport "Tag-list" "Tag"] := fun path hpath =>
    List.forall_mem_singleton.2 ⟨by decide, fun _ h => by cases h; exact hschemas path hpath⟩
  obtain ⟨data, hdata, hbinary⟩ := hbinary _ rfl (houtlives _ (.head _))
  obtain ⟨data', hdata', htext⟩ := htext _ rfl (houtlives _ (.tail _ (.head _)))
  cases (hencoded data hdata).symm.trans (hencoded data' hdata')
  refine ⟨summary, run.2, turn.schema, data, hrun, hsheets, ?_, hencoded data hdata, ?_, hbinary, htext⟩
  · have heq := turn.schema_eq
    rwa [hgrid] at heq
  · exact hschema _ rfl hplaces

/-- A run that has a sheet after another one with the same record. -/
def items : Workbook := ⟨[("Item-old", .ok (shelf "1")), ("Item-new", .ok (shelf "2"))]⟩

/-- Settings whose schemas go to where the records go. -/
def oneDirectory : Settings := { uncompiled with schemaDirectory := "build_out/bin", schemaExtension := "bin" }

/-- Where the report of the first sheet has its records, there are those of the second one. With schemas that go to
where the records go, there are records where the report has its schema. -/
theorem items_share_their_files :
    ∃ schema data, Schema.ofHeader (Header.ofGrid (shelf "1")) "Item" {} = .ok schema
      ∧ EncodedSheet.ofGrid (shelf "1") schema.type {} = .ok data ∧ data.binary = [10, 2, 8, 1]
      ∧ (∃ summary t', Run.workbook uncompiled (.ofSettings uncompiled .known) items .empty = (.ok summary, t')
        ∧ summary.sheets = [shelfReport "Item-old" "Item", shelfReport "Item-new" "Item"]
        ∧ t'.read (uncompiled.binaryPath "Item") = .ok [10, 2, 8, 2])
      ∧ ∃ summary t' report, Run.workbook oneDirectory (.ofSettings oneDirectory .known)
          ⟨[("Item-list", .ok (shelf "1"))]⟩ .empty = (.ok summary, t')
        ∧ summary.sheets = [report] ∧ report.schema? = some "build_out/bin/Item.bin"
        ∧ t'.read "build_out/bin/Item.bin" = .ok data.binary ∧ data.binary ≠ Text.Utf8.encode schema.text := by
  have hdata : (Schema.ofHeader (Header.ofGrid (shelf "1")) "Item" {}).toOption.bind (fun schema =>
      (EncodedSheet.ofGrid (shelf "1") schema.type {}).toOption.map fun data =>
        (data.binary, decide (data.binary = Text.Utf8.encode schema.text))) = some ([10, 2, 8, 1], false) := by
    decide +kernel
  have hitems : (Run.workbook uncompiled (.ofSettings uncompiled .known) items .empty).1.toOption.map (·.sheets)
        = some [shelfReport "Item-old" "Item", shelfReport "Item-new" "Item"]
      ∧ ((Run.workbook uncompiled (.ofSettings uncompiled .known) items .empty).2.read
        (uncompiled.binaryPath "Item")).toOption = some [10, 2, 8, 2] := by decide +kernel
  have hone : (Run.workbook oneDirectory (.ofSettings oneDirectory .known) ⟨[("Item-list", .ok (shelf "1"))]⟩
        .empty).1.toOption.map (fun summary => summary.sheets)
        = some [⟨"Item-list", "Item", some "build_out/bin/Item.bin", some "build_out/bin/Item.bin",
          some "build_out/log/Item.txt", 1, 0⟩]
      ∧ ((Run.workbook oneDirectory (.ofSettings oneDirectory .known) ⟨[("Item-list", .ok (shelf "1"))]⟩ .empty).2.read
        "build_out/bin/Item.bin").toOption = some [10, 2, 8, 1] := by decide +kernel
  obtain ⟨schema, hschema, hdata⟩ := Option.bind_eq_some_iff.1 hdata
  obtain ⟨data, hdata, hbinary⟩ := map_toOption_eq_some.1 hdata
  obtain ⟨hbinary, hother⟩ := Prod.mk.inj hbinary
  obtain ⟨summary, hsummary, hsheets⟩ := map_toOption_eq_some.1 hitems.1
  obtain ⟨summary', hsummary', hsheets'⟩ := map_toOption_eq_some.1 hone.1
  refine ⟨schema, data, toOption_eq_some.1 hschema, hdata, hbinary,
    ⟨summary, _, FileM.eq_ok_of_fst hsummary, hsheets, toOption_eq_some.1 hitems.2⟩,
    summary', _, _, FileM.eq_ok_of_fst hsummary', hsheets', rfl, ?_, of_decide_eq_false hother⟩
  rw [hbinary]
  exact toOption_eq_some.1 hone.2

end SheetCompiler

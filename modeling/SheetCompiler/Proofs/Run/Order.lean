import Mathlib.Data.List.Pairwise
import SheetCompiler.Proofs.Run.Again
import SheetCompiler.Proofs.Run.FirstFailure
import SheetCompiler.Proofs.Run.Modes
import SheetCompiler.Proofs.Run.Places

/-!
# The order of the sheets

Where no sheet writes a file of another one, or the enum definitions that another one goes by, every sheet does what it
would do if it were the only one (`readAndRun` with the files that are there at first). So the sheets may come in any
order: the reports are those of the sheets by themselves, and so are the files. Names of records that differ are not
enough for this, as the settings may let schemas of two records, or a schema and the enum definitions, be the same file.
-/

namespace SheetCompiler

open FileTree

/-! ### Workbooks in another order -/

namespace Workbook

variable {w w' : Workbook} {name record : String}

def records (w : Workbook) : List String := w.names.filterMap recordOfSheet?

/-- A record belongs to one sheet. -/
theorem eq_of_mem_sheets {sheet sheet' : Except GridError Grid} (hrecords : w.records.Nodup)
    (hname : recordOfSheet? name = some record) (h : (name, sheet) ∈ w.sheets) (h' : (name, sheet') ∈ w.sheets) :
    sheet = sheet' := by
  rw [records, names, List.filterMap_map] at hrecords
  by_contra hne
  have hpairwise := List.pairwise_filterMap.1 hrecords
  have hsymm : Std.Symm fun entry entry' : String × Except GridError Grid =>
      ∀ b, (recordOfSheet? ∘ (·.1)) entry = some b → ∀ b', (recordOfSheet? ∘ (·.1)) entry' = some b' → b ≠ b' :=
    ⟨fun _ _ hapart b hb b' hb' => (hapart b' hb' b hb).symm⟩
  have hentries : (name, sheet) ≠ (name, sheet') := fun heq => hne (Prod.mk.inj heq).2
  exact hpairwise.forall h h' hentries record hname record hname rfl

theorem read_eq_iff {sheet : Except GridError Grid} (hrecords : w.records.Nodup)
    (hname : recordOfSheet? name = some record) (hmem : name ∈ w.names) :
    w.read name = sheet ↔ (name, sheet) ∈ w.sheets := by
  obtain ⟨entry, hentry, hkey⟩ := List.mem_map.1 hmem
  cases hfound : w.sheets.find? (·.1 == name) with
  | none => exact absurd (beq_iff_eq.2 hkey) (List.find?_eq_none.1 hfound entry hentry)
  | some entry =>
      obtain ⟨other, first⟩ := entry
      have hother := List.find?_some hfound
      obtain rfl : other = name := beq_iff_eq.1 hother
      have hfirst := List.mem_of_find?_eq_some hfound
      rw [read, hfound]
      exact ⟨fun heq => heq ▸ hfirst, fun h => eq_of_mem_sheets hrecords hname hfirst h⟩

/-- A sheet with a record is read alike in any order. -/
theorem read_eq_of_perm (hperm : w'.sheets.Perm w.sheets) (hrecords : w.records.Nodup)
    (hname : recordOfSheet? name = some record) (hmem : name ∈ w'.names) : w'.read name = w.read name := by
  have hnames : w'.names.Perm w.names := hperm.map _
  have hrecords' : w'.records.Nodup := (hnames.filterMap _).nodup_iff.2 hrecords
  have hfirst := (read_eq_iff hrecords hname (hnames.subset hmem)).1 rfl
  exact (read_eq_iff hrecords' hname hmem).2 (hperm.symm.subset hfirst)

end Workbook

namespace Run

variable {s : Settings} {compiler : SchemaCompiler} {source : SheetSource} {sheet name record : String}
  {names : List String} {grid : Grid} {report : SheetReport} {reports : List SheetReport} {records : List String}
  {Own : Location → Prop} {t t' u u' room : FileTree}

/-! ### Sheets beside others -/

/-- Whether a location is that of a file that one of some records other than this one has. -/
def OfOthers (s : Settings) (w : Location) (records : List String) (record : String) (l : Location) : Prop :=
  ∃ other ∈ records, other ≠ record ∧ l ∈ artifactPlaces s w other

/-- Whether the sheet of a record finds the same files in a tree as in the one that was there at first, up to those of the
other records and of the compiler. -/
structure Fresh (s : Settings) (Own : Location → Prop) (records : List String) (t : FileTree) (record : String)
    (u : FileTree) : Prop where
  grows : t.Within u
  file : ∀ l, ¬ (Own l ∨ OfOthers s t.workingDirectory records record l) → u.file? l = t.file? l

theorem Fresh.refl (s : Settings) (Own : Location → Prop) (records : List String) (t : FileTree) (record : String) :
    Fresh s Own records t record t :=
  ⟨.refl t, fun _ _ => rfl⟩

/-- A sheet is still fresh behind that of another record. -/
theorem Fresh.step {other : String} (h : Fresh s Own records t record u) (hother : other ∈ records)
    (hne : other ≠ record) (hgrows : u.Within u')
    (hfile : ∀ l ∉ artifactPlaces s t.workingDirectory other, ¬ Own l → u'.file? l = u.file? l) :
    Fresh s Own records t record u' where
  grows := h.grows.trans hgrows
  file l hl := by
    have hplaces : l ∉ artifactPlaces s t.workingDirectory other := fun hno => hl (.inr ⟨other, hother, hne, hno⟩)
    rw [hfile l hplaces fun hno => hl (.inl hno), h.file l hl]

/-- Whether the enum definitions are no file of the compiler or of another record, and the way to them is open from the
first, or there are none unless the schema of the record itself becomes them. -/
structure EnumsApart (s : Settings) (Own : Location → Prop) (records : List String) (t : FileTree) (record : String) :
    Prop where
  place : ¬ (Own (place t.workingDirectory s.enumPath)
    ∨ OfOthers s t.workingDirectory records record (FileTree.place t.workingDirectory s.enumPath))
  clear : Succeeds (t.locate s.enumPath) ∨ t.file? (FileTree.place t.workingDirectory s.enumPath) = none
    ∧ (FileTree.place t.workingDirectory (s.schemaPath record) = FileTree.place t.workingDirectory s.enumPath →
      s.schemaPath record = s.enumPath)

theorem EnumsApart.sameEnums (h : EnumsApart s Own records t record) (hu : Fresh s Own records t record u)
    (hu' : Fresh s Own records t record u') :
    SameEnums s record (fun l => Own l ∨ OfOthers s t.workingDirectory records record l) u u' := by
  rw [SameEnums, hu.grows.workingDirectory]
  refine ⟨h.place, h.clear.imp (fun ⟨l, hl⟩ => ⟨⟨l, hu.grows.locate hl⟩, l, hu'.grows.locate hl⟩) fun ⟨hnone, hpath⟩ =>
    ⟨?_, hpath⟩⟩
  rw [hu.file _ h.place, hnone]

/-- Whether a location is that of a file of some records. -/
def OfRecords (s : Settings) (w : Location) (records : List String) (l : Location) : Prop :=
  ∃ record ∈ records, l ∈ artifactPlaces s w record

theorem record_again_of_fresh (hcompiler : compiler.Steady Own (OfRecords s t.workingDirectory records))
    (hstart : t.HasWorkingDirectory)
    (henums : s.mode.runsData = true → (Header.ofGrid grid).mentionsEnums = true → EnumsApart s Own records t record)
    (hu : Fresh s Own records t record u) (hran : Run.record s compiler sheet record grid u = (.ok report, t'))
    (hroom : t'.Within room) (hu' : Fresh s Own records t record u') (hright : u'.Within room) :
    ∃ t'', Run.record s compiler sheet record grid u' = (.ok report, t'')
      ∧ Alongside (fun l => Own l ∨ OfOthers s t.workingDirectory records record l) room t' t'' := by
  have halong : Alongside (fun l => Own l ∨ OfOthers s t.workingDirectory records record l) room u u' :=
    ⟨(record_grows hcompiler hran).1.trans hroom, hright, fun l hl => by rw [hu'.file l hl, hu.file l hl],
      hstart.of_keepsDirectories hu'.grows.toKeepsDirectories⟩
  exact record_again hcompiler (fun l hl => hl.imp_right fun ⟨other, hother, _, hmem⟩ => ⟨other, hother, hmem⟩)
    (fun _ => .inl) (fun hmode hmentions => (henums hmode hmentions).sameEnums hu hu') hran hroom halong

/-- Sheets that are done take nothing away, and change no files but their own and those of the compiler. -/
theorem Completes.grows {Written : Location → Prop} (hcompiler : compiler.Steady Own Written)
    (h : Completes s compiler source t names reports t') :
    t.Within t' ∧ ∀ l, ¬ Own l →
      (∀ record ∈ names.filterMap recordOfSheet?, l ∉ artifactPlaces s t.workingDirectory record) →
      t'.file? l = t.file? l := by
  induction h with
  | done => exact ⟨.refl _, fun _ _ _ => rfl⟩
  | passed hname _ ih => rwa [List.filterMap_cons_none hname]
  | reported hname _ hran _ ih =>
      obtain ⟨record, hrecord⟩ := Option.isSome_iff_exists.1 hname
      obtain ⟨hgrows, hfile⟩ := record_grows hcompiler ((sheet_eq_some hrecord).1 hran)
      rw [hgrows.workingDirectory] at ih
      rw [List.filterMap_cons_some hrecord]
      refine ⟨hgrows.trans ih.1, fun l hown hl => ?_⟩
      obtain ⟨hfirst, hrest⟩ := List.forall_mem_cons.1 hl
      rw [ih.2 l hown hrest, hfile l hfirst hown]

/-! ### Extensions without a slash -/

theorem eq_append_of_mem_artifactPlaces {w l : Location} (hslash : '/' ∉ s.schemaExtension.toList)
    (hrecord : Text.isIdentifier record = true) (h : l ∈ artifactPlaces s w record) :
    ∃ directory behind, l = directory ++ [record ++ ("." ++ behind)] := by
  rcases mem_artifactPlaces.1 h with ⟨-, rfl⟩ | ⟨-, rfl | rfl⟩
  · exact ⟨_, _, place_schemaPath hrecord hslash w⟩
  · exact ⟨place w s.outputDirectory ++ ["bin"], "bin", by rw [place_binaryPath s hrecord, List.append_assoc]; rfl⟩
  · exact ⟨place w s.outputDirectory ++ ["log"], "txt", by rw [place_textPath s hrecord, List.append_assoc]; rfl⟩

/-- If the extension of schemas has no slash, no file of a record is one of another record. -/
theorem artifactPlaces_disjoint {other : String} {w l : Location} (hslash : '/' ∉ s.schemaExtension.toList)
    (hrecord : Text.isIdentifier record = true) (hother : Text.isIdentifier other = true) (hne : other ≠ record)
    (hl : l ∈ artifactPlaces s w record) : l ∉ artifactPlaces s w other := by
  intro hl'
  obtain ⟨directory, behind, rfl⟩ := eq_append_of_mem_artifactPlaces hslash hrecord hl
  obtain ⟨directory', behind', heq⟩ := eq_append_of_mem_artifactPlaces hslash hother hl'
  exact hne (eq_of_append_dot hother hrecord (List.singleton_inj.1 (List.append_inj' heq rfl).2.symm))

/-! ### Sheets by themselves -/

/-- Whether the sheets of a workbook are kept apart, from some files on. -/
structure Apart (s : Settings) (compiler : SchemaCompiler) (Own : Location → Prop) (w : Workbook) (t : FileTree) :
    Prop where
  /-- Every record belongs to one sheet. -/
  records : w.records.Nodup
  /-- No file of a record is one of another record. -/
  files : ∀ record ∈ w.records, ∀ other ∈ w.records, other ≠ record →
    ∀ l ∈ artifactPlaces s t.workingDirectory record, l ∉ artifactPlaces s t.workingDirectory other
  /-- Nor is it the enum definitions that the sheet of another record goes by. -/
  enums : ∀ name grid record, (name, .ok grid) ∈ w.sheets → recordOfSheet? name = some record →
    s.mode.runsData = true → (Header.ofGrid grid).mentionsEnums = true → EnumsApart s Own w.records t record
  /-- What the compiler makes of a schema depends on no file of the records but the schema. -/
  compiler : compiler.Steady Own (OfRecords s t.workingDirectory w.records)
  start : t.HasWorkingDirectory

variable {w w' : Workbook} {summary : Summary}

/-- The report of a sheet that is the only one. -/
def reportOf (s : Settings) (compiler : SchemaCompiler) (w : Workbook) (t : FileTree) (name : String) :
    Option SheetReport :=
  (readAndRun s compiler w.source name t).1.toOption.join

theorem reportOf_of_none (h : recordOfSheet? name = none) : reportOf s compiler w t name = none := by
  rw [reportOf, readAndRun_of_none h]
  rfl

theorem reportOf_of_eq_ok (h : readAndRun s compiler w.source name t = (.ok (some report), t')) :
    reportOf s compiler w t name = some report := by
  rw [reportOf, h]
  rfl

theorem Apart.again (hapart : Apart s compiler Own w t) (hmem : name ∈ w.names)
    (hrecord : recordOfSheet? name = some record) (hread : w.read name = .ok grid)
    (hu : Fresh s Own w.records t record u) (hran : Run.record s compiler name record grid u = (.ok report, t'))
    (hroom : t'.Within room) (hu' : Fresh s Own w.records t record u') (hright : u'.Within room) :
    ∃ t'', Run.record s compiler name record grid u' = (.ok report, t'') ∧ t''.Within room
      ∧ ∀ l ∈ artifactPlaces s t.workingDirectory record, ¬ Own l → t''.file? l = t'.file? l := by
  have hsheet := (Workbook.read_eq_iff hapart.records hrecord hmem).1 hread
  obtain ⟨t'', hagain, halong⟩ := record_again_of_fresh hapart.compiler hapart.start
    (hapart.enums name grid record hsheet hrecord) hu hran hroom hu' hright
  refine ⟨t'', hagain, halong.right, fun l hl hown => halong.file l fun h => h.elim hown ?_⟩
  rintro ⟨other, hother, hne, hotherPlace⟩
  exact hapart.files record (List.mem_filterMap.2 ⟨name, hmem, hrecord⟩) other hother hne l hl hotherPlace

/-- Whether some sheets are those of a workbook, and all of them are fresh. -/
structure Ready (s : Settings) (Own : Location → Prop) (w : Workbook) (t : FileTree) (names : List String)
    (u : FileTree) : Prop where
  subset : names ⊆ w.names
  nodup : (names.filterMap recordOfSheet?).Nodup
  fresh : ∀ record ∈ names.filterMap recordOfSheet?, Fresh s Own w.records t record u

theorem Ready.tail_of_none (h : Ready s Own w t (name :: names) u) (hname : recordOfSheet? name = none) :
    Ready s Own w t names u := by
  obtain ⟨hsubset, hnodup, hfresh⟩ := h
  rw [List.filterMap_cons_none hname] at hnodup hfresh
  exact ⟨(List.cons_subset.1 hsubset).2, hnodup, hfresh⟩

theorem Ready.tail_of_some (h : Ready s Own w t (name :: names) u) (hname : recordOfSheet? name = some record)
    (hgrows : u.Within u')
    (hfile : ∀ l ∉ artifactPlaces s t.workingDirectory record, ¬ Own l → u'.file? l = u.file? l) :
    Ready s Own w t names u' := by
  obtain ⟨hsubset, hnodup, hfresh⟩ := h
  obtain ⟨hmem, hsubset⟩ := List.cons_subset.1 hsubset
  rw [List.filterMap_cons_some hname] at hnodup hfresh
  obtain ⟨hnot, hnodup⟩ := List.nodup_cons.1 hnodup
  refine ⟨hsubset, hnodup, fun other hother => ?_⟩
  exact (hfresh other (List.mem_cons_of_mem _ hother)).step (List.mem_filterMap.2 ⟨name, hmem, hname⟩)
    (fun heq => hnot (heq ▸ hother)) hgrows hfile

theorem Ready.ne_of_mem {other : String} (h : Ready s Own w t (name :: names) u)
    (hname : recordOfSheet? name = some record) (hother : other ∈ names.filterMap recordOfSheet?) :
    other ∈ w.records ∧ other ≠ record := by
  have hnodup := h.nodup
  rw [List.filterMap_cons_some hname] at hnodup
  obtain ⟨sheet, hsheet, hrecord⟩ := List.mem_filterMap.1 hother
  exact ⟨List.mem_filterMap.2 ⟨sheet, h.subset (List.mem_cons_of_mem _ hsheet), hrecord⟩,
    fun heq => (List.nodup_cons.1 hnodup).1 (heq ▸ hother)⟩

theorem Ready.fresh_head (h : Ready s Own w t (name :: names) u) (hname : recordOfSheet? name = some record) :
    Fresh s Own w.records t record u := by
  refine h.fresh record ?_
  rw [List.filterMap_cons_some hname]
  exact List.mem_cons_self

/-- Whether a sheet succeeds if it is the only one, where there is room for its files. -/
def Alone (s : Settings) (compiler : SchemaCompiler) (w : Workbook) (t room : FileTree) (name : String)
    (alone : FileTree) : Prop :=
  ∃ report, readAndRun s compiler w.source name t = (.ok (some report), alone) ∧ alone.Within room

/-- Sheets that are done have the reports and the files that they have by themselves. -/
theorem Completes.alone (hapart : Apart s compiler Own w t) (h : Completes s compiler w.source u names reports u')
    (hready : Ready s Own w t names u) (hroom : u'.Within room) (ht : t.Within room) :
    reports = names.filterMap (reportOf s compiler w t)
      ∧ ∀ name ∈ names, ∀ record, recordOfSheet? name = some record → ∃ alone, Alone s compiler w t room name alone
        ∧ ∀ l ∈ artifactPlaces s t.workingDirectory record, ¬ Own l → u'.file? l = alone.file? l := by
  induction h with
  | done => exact ⟨rfl, nofun⟩
  | passed hname _ ih =>
      obtain ⟨hreports, hnames⟩ := ih (hready.tail_of_none hname) hroom
      refine ⟨?_, List.forall_mem_cons.2 ⟨fun record hrecord => ?_, hnames⟩⟩
      · rw [List.filterMap_cons_none (reportOf_of_none hname), hreports]
      · cases hname.symm.trans hrecord
  | @reported name names grid report reports u u₁ u' hname hread hran hrest ih =>
      obtain ⟨record, hrecord⟩ := Option.isSome_iff_exists.1 hname
      have hran := (sheet_eq_some hrecord).1 hran
      have hfresh := hready.fresh_head hrecord
      obtain ⟨hgrows, hfile⟩ := record_grows hapart.compiler hran
      obtain ⟨hrestGrows, hrestFile⟩ := hrest.grows hapart.compiler
      rw [hfresh.grows.workingDirectory] at hfile
      rw [hgrows.workingDirectory, hfresh.grows.workingDirectory] at hrestFile
      obtain ⟨alone, hagain, haloneRoom, haloneFile⟩ := hapart.again (hready.subset List.mem_cons_self) hrecord hread
        hfresh hran (hrestGrows.trans hroom) (.refl s Own w.records t record) ht
      have hone : readAndRun s compiler w.source name t = (.ok (some report), alone) :=
        (readAndRun_of_read (t := t) hname hread s compiler).trans ((sheet_eq_some hrecord).2 hagain)
      obtain ⟨hreports, hnames⟩ := ih (hready.tail_of_some hrecord hgrows hfile) hroom
      refine ⟨?_, List.forall_mem_cons.2 ⟨fun record' hrecord' => ?_, hnames⟩⟩
      · rw [List.filterMap_cons_some (reportOf_of_eq_ok hone), hreports]
      · cases hrecord.symm.trans hrecord'
        refine ⟨alone, ⟨report, hone, haloneRoom⟩, fun l hl hown => ?_⟩
        rw [haloneFile l hl hown]
        refine hrestFile l hown fun other hother => ?_
        obtain ⟨hmem, hne⟩ := hready.ne_of_mem hrecord hother
        exact hapart.files record (List.mem_filterMap.2 ⟨name, hready.subset List.mem_cons_self, hrecord⟩) other hmem hne
          l hl

/-- Sheets that succeed by themselves succeed one after another. -/
theorem exists_completes (hapart : Apart s compiler Own w t) :
    ∀ {u : FileTree}, Ready s Own w t names u →
      (∀ name ∈ names, ∀ record, recordOfSheet? name = some record → ∃ alone, Alone s compiler w t room name alone) →
      u.Within room → ∃ reports u', Completes s compiler w.source u names reports u' ∧ u'.Within room := by
  induction names with
  | nil => exact fun {u} _ _ hu => ⟨[], u, .done, hu⟩
  | cons name names ih =>
      intro u hready halone hu
      obtain ⟨hfirst, hrest⟩ := List.forall_mem_cons.1 halone
      cases hname : recordOfSheet? name with
      | none =>
          obtain ⟨reports, u', hcompletes, hroom⟩ := ih (hready.tail_of_none hname) hrest hu
          exact ⟨reports, u', .passed hname hcompletes, hroom⟩
      | some record =>
          obtain ⟨alone, report, hone, hroom⟩ := hfirst record hname
          obtain ⟨h, -⟩ | ⟨_, grid, _, heq, hrecord, hread, hran⟩ := readAndRun_eq_ok hone
          · cases h
          cases heq
          cases hname.symm.trans hrecord
          have hfresh := hready.fresh_head hname
          obtain ⟨u₁, hagain, hroom₁, -⟩ := hapart.again (hready.subset List.mem_cons_self) hname hread
            (.refl s Own w.records t record) hran hroom hfresh hu
          obtain ⟨hgrows, hfile⟩ := record_grows hapart.compiler hagain
          rw [hfresh.grows.workingDirectory] at hfile
          obtain ⟨reports, u', hcompletes, hroom'⟩ := ih (hready.tail_of_some hname hgrows hfile) hrest hroom₁
          exact ⟨report :: reports, u', .reported (by rw [hname]; rfl) hread ((sheet_eq_some hname).2 hagain)
            hcompletes, hroom'⟩

/-- Sheets that are kept apart may come in any order: the run succeeds with the same reports, and leaves the same files. -/
theorem workbook_in_any_order (hperm : w'.sheets.Perm w.sheets) (hapart : Apart s compiler Own w t)
    (hran : workbook s compiler w t = (.ok summary, t')) :
    ∃ summary' t'', workbook s compiler w' t = (.ok summary', t'') ∧ summary'.sheets.Perm summary.sheets
      ∧ summary'.skipped.Perm summary.skipped ∧ ∀ l, ¬ Own l → t''.file? l = t'.file? l := by
  have hnames : w'.names.Perm w.names := hperm.map _
  have hready : Ready s Own w t w.names t := ⟨List.Subset.refl _, hapart.records, fun record _ => .refl s Own _ t record⟩
  have hready' : Ready s Own w t w'.names t :=
    ⟨hnames.subset, (hnames.filterMap _).nodup_iff.2 hapart.records, fun record _ => .refl s Own _ t record⟩
  obtain ⟨hcompletes, hskipped⟩ := completes_of_all hran
  obtain ⟨hgrows, hfile⟩ := hcompletes.grows hapart.compiler
  obtain ⟨hreports, halone⟩ := hcompletes.alone hapart hready (.refl t') hgrows
  obtain ⟨reports, t'', hcompletes', hroom⟩ := exists_completes hapart hready'
    (fun name hname record hrecord => (halone name (hnames.subset hname) record hrecord).imp fun _ => And.left) hgrows
  obtain ⟨hreports', halone'⟩ := hcompletes'.alone hapart hready' hroom hgrows
  obtain ⟨-, hfile'⟩ := hcompletes'.grows hapart.compiler
  have hsource : Completes s compiler w'.source t w'.names reports t'' := hcompletes'.congr fun name hname hsome _ => by
    obtain ⟨record, hrecord⟩ := Option.isSome_iff_exists.1 hsome
    exact Workbook.read_eq_of_perm hperm hapart.records hrecord hname
  refine ⟨_, t'', all_of_completes hsource, ?_, ?_, fun l hown => ?_⟩
  · rw [hreports, hreports']
    exact hnames.filterMap _
  · rw [hskipped]
    exact hnames.filter _
  · by_cases hl : ∃ name ∈ w.names, ∃ record, recordOfSheet? name = some record
        ∧ l ∈ artifactPlaces s t.workingDirectory record
    · obtain ⟨name, hname, record, hrecord, hl⟩ := hl
      obtain ⟨alone, ⟨report, hone, -⟩, hsame⟩ := halone name hname record hrecord
      obtain ⟨alone', ⟨report', hone', -⟩, hsame'⟩ := halone' name (hnames.symm.subset hname) record hrecord
      cases hone.symm.trans hone'
      rw [hsame l hl hown, hsame' l hl hown]
    · have hnone : ∀ record ∈ w.names.filterMap recordOfSheet?, l ∉ artifactPlaces s t.workingDirectory record := by
        intro record hrecord hmem
        obtain ⟨name, hname, hrecord⟩ := List.mem_filterMap.1 hrecord
        exact hl ⟨name, hname, record, hrecord, hmem⟩
      rw [hfile l hown hnone, hfile' l hown fun record hrecord => hnone record ((hnames.filterMap _).subset hrecord)]

end Run

def jars : Grid := ⟨[[""], ["int32"], ["id"], ["1"]]⟩

/-- Paints, with their colors, and the jars that they are in. -/
def palette : Workbook :=
  ⟨[("Paint-list", .ok paints), ("Notes", .error (.badSheet "no cells")), ("Jar-list", .ok jars)]⟩

/-- The palette may be turned round. -/
theorem palette_in_any_order :
    ∃ summary summary' t' t'', Run.workbook accepting (.ofSettings accepting .known) palette colorFiles = (.ok summary, t')
      ∧ Run.workbook accepting (.ofSettings accepting .known) ⟨palette.sheets.reverse⟩ colorFiles = (.ok summary', t'')
      ∧ summary.sheets.map (·.sheet) = ["Paint-list", "Jar-list"] ∧ summary'.sheets.Perm summary.sheets
      ∧ summary'.skipped.Perm summary.skipped ∧ ∀ l, t''.file? l = t'.file? l := by
  have hran : (Run.workbook accepting (.ofSettings accepting .known) palette colorFiles).1.toOption.map
      (fun summary => summary.sheets.map (·.sheet)) = some ["Paint-list", "Jar-list"] := by decide +kernel
  have hplaces : palette.records.Nodup ∧ Succeeds (colorFiles.locate accepting.enumPath)
      ∧ ∀ record ∈ palette.records, place colorFiles.workingDirectory accepting.enumPath
        ∉ Run.artifactPlaces accepting colorFiles.workingDirectory record := by decide +kernel
  obtain ⟨hnodup, hopen, henums⟩ := hplaces
  obtain ⟨summary, hsummary, hsheets⟩ := map_toOption_eq_some.1 hran
  have hidentifier : ∀ record ∈ palette.records, Text.isIdentifier record = true := fun record hrecord => by
    obtain ⟨name, -, hname⟩ := List.mem_filterMap.1 hrecord
    exact isIdentifier_of_recordOfSheet? hname
  have hdirectories : SchemaCompiler.DirectoriesEndInParts accepting := by
    refine List.forall_mem_cons.2 ⟨?_, List.forall_mem_cons.2 ⟨?_, List.forall_mem_singleton.2 ?_⟩⟩
    · exact ⟨["build_out"], "desc", by decide +kernel, by decide⟩
    · exact ⟨["build_out"], "cpp", by decide +kernel, by decide⟩
    · exact ⟨["build_out"], "py", by decide +kernel, by decide⟩
  have hapart : Run.Apart accepting (.ofSettings accepting .known) (fun _ => False) palette colorFiles :=
    { records := hnodup
      files := fun record hrecord other hother hne l hl =>
        Run.artifactPlaces_disjoint (by decide) (hidentifier record hrecord) (hidentifier other hother) hne hl
      enums := fun name grid record _ _ _ _ =>
        ⟨fun h => h.elim id fun ⟨other, hother, _, hmem⟩ => henums other hother hmem, .inl hopen⟩
      compiler := SchemaCompiler.steady_ofSettings fun _ => ⟨hdirectories, fun _ => .exited 0 "", fun _ _ => rfl⟩
      start := rfl }
  have hreverse : (⟨palette.sheets.reverse⟩ : Workbook).sheets.Perm palette.sheets := palette.sheets.reverse_perm
  obtain ⟨summary', t'', hran', hperm, hskipped, hfiles⟩ :=
    Run.workbook_in_any_order hreverse hapart (FileM.eq_ok_of_fst hsummary)
  exact ⟨summary, summary', _, t'', FileM.eq_ok_of_fst hsummary, hran', hsheets, hperm, hskipped, fun l => hfiles l id⟩

/-- Settings without a compiler, for schemas with an extension. -/
def withExtension (schemaExtension : String) : Settings := { compile := false, schemaExtension }

/-- A compiler that has every schema import the one at a path. -/
def importing (path : String) : SchemaCompiler := fun schema tree =>
  (if tree.isFile path then .ok () else .error (.failed schema "missing import"), tree)

/-- The order of sheets with different records matters if the schema of one becomes the enum definitions of the other, if
they have their schemas in one file, or if the compiler looks at the schema of one for the other. -/
theorem order_matters_for_shared_files :
    (∃ w w' : Workbook, w'.sheets.Perm w.sheets ∧ w.records.Nodup
      ∧ Succeeds (Run.workbook (withExtension "proto") .none w colorFiles).1
      ∧ ¬ Succeeds (Run.workbook (withExtension "proto") .none w' colorFiles).1)
    ∧ (∃ w w' : Workbook, w'.sheets.Perm w.sheets ∧ w.records.Nodup
      ∧ Succeeds (Run.workbook (withExtension "x/../all.schema") .none w .empty).1
      ∧ Succeeds (Run.workbook (withExtension "x/../all.schema") .none w' .empty).1
      ∧ (Run.workbook (withExtension "x/../all.schema") .none w .empty).2.file? ["work", "protocol", "all.schema"]
        ≠ (Run.workbook (withExtension "x/../all.schema") .none w' .empty).2.file? ["work", "protocol", "all.schema"])
    ∧ ∃ (compiler : SchemaCompiler) (w w' : Workbook), compiler.WritesNoFiles ∧ w'.sheets.Perm w.sheets
      ∧ w.records.Nodup ∧ Succeeds (Run.workbook {} compiler w .empty).1
      ∧ ¬ Succeeds (Run.workbook {} compiler w' .empty).1 := by
  have hswap (first last : String × Except GridError Grid) : [last, first].Perm [first, last] := .swap _ _ _
  refine ⟨⟨⟨[("Paint-list", .ok paints), ("enum-list", .ok jars)]⟩, ⟨[("enum-list", .ok jars), ("Paint-list", .ok paints)]⟩,
    hswap _ _, ?_⟩, ⟨⟨[("Jar-list", .ok jars), ("Lid-list", .ok jars)]⟩, ⟨[("Lid-list", .ok jars), ("Jar-list", .ok jars)]⟩,
    hswap _ _, ?_⟩, importing "protocol/Jar.schema", ⟨[("Jar-list", .ok jars), ("Lid-list", .ok jars)]⟩,
    ⟨[("Lid-list", .ok jars), ("Jar-list", .ok jars)]⟩,
    SchemaCompiler.writesNoFiles_of_onlyMakesDirectories fun _ t => .refl t, hswap _ _, ?_⟩
  · decide +kernel
  · decide +kernel
  · decide +kernel

end SheetCompiler

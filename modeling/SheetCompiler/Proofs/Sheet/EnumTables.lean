import SheetCompiler.Proofs.Layout.EnumMarks
import SheetCompiler.Proofs.Record.WithoutEnums
import SheetCompiler.Proofs.Rows.Acceptance
import SheetCompiler.Proofs.Rows.Agreement
import SheetCompiler.Proofs.Sheet.Concatenation
import SheetCompiler.Proofs.Sheet.Failures
import SheetCompiler.Run

/-!
# Sheets that need no enum table

The data of a sheet are made with an enum table, which is looked at in three places: to know whether the enum types of
the layout are there, to convert cells, and to write values by name. A run reads the table only if some type cell has a
word with the mark of enums. Without such a word the layout names no enum type, no record has an enum value, whatever
type it is read with, and nothing depends on the table.
-/

namespace SheetCompiler

/-! ### Records of layouts without enum types -/

namespace Row

variable {row : Source}

theorem lackEnumsAll_of_values? {type : ValueType} {texts : List String} {vs : List Value}
    (htype : type.enumName? = none) (h : row.values? type texts = some vs) : Value.LackEnumsAll vs :=
  Value.lackEnumsAll_iff.2 fun v hv => Value.lacksEnums_of_fits htype (fits_of_values? h v hv)

open Node in
mutual

theorem lacksEnums_content {content : Content} :
    ∀ {shift : Nat} {node : Node}, content? row shift node = some (some content) → enums node = [] →
      content.LacksEnums
  | _, .skip _, h, _ => by cases h
  | _, .value field _, h, henums => by
      rw [content?] at h
      obtain ⟨v?, hv, h⟩ := Option.bind_eq_some_iff.1 h
      obtain ⟨v, rfl, rfl⟩ := Option.map_eq_some_iff.1 (Option.some.inj h)
      exact Value.lacksEnums_of_fits (enumOf_eq_nil_iff.1 henums) (fits_of_value? hv)
  | _, .inline field, h, henums => by
      rw [content?] at h
      obtain ⟨vs, hvs, h⟩ := Option.bind_eq_some_iff.1 h
      obtain ⟨rfl, -⟩ := eq_of_ofList (Option.some.inj h)
      exact lackEnumsAll_of_values? (enumOf_eq_nil_iff.1 henums) hvs
  | _, .values _ _ field _, h, henums => by
      rw [content?] at h
      obtain ⟨copies, -, h⟩ := Option.bind_eq_some_iff.1 h
      obtain ⟨vs, hvs, h⟩ := Option.bind_eq_some_iff.1 h
      obtain ⟨rfl, -⟩ := eq_of_ofList (Option.some.inj h)
      exact lackEnumsAll_of_values? (enumOf_eq_nil_iff.1 henums) hvs
  | _, .struct head members, h, henums => by
      rw [content?] at h
      obtain ⟨entries, hentries, h⟩ := Option.bind_eq_some_iff.1 h
      split at h
      · cases h
      · cases h
        exact lackEnumsAll_entries hentries henums
  | _, .structs _ _ head members, h, henums => by
      rw [content?] at h
      obtain ⟨copies, -, h⟩ := Option.bind_eq_some_iff.1 h
      cases copies with
      | zero =>
          -- Nothing is kept of a repetition without instances.
          simp only at h
          split at h
          · cases h
          · obtain ⟨_, _, h⟩ := Option.bind_eq_some_iff.1 h
            cases h
      | succ copies =>
          obtain ⟨subs, hsubs, h⟩ := Option.bind_eq_some_iff.1 h
          obtain ⟨rfl, -⟩ := eq_of_ofList (Option.some.inj h)
          refine Value.lackEnumsAll_iff.2 (List.forall_mem_map.2 fun entries hentries => ?_)
          obtain ⟨i, hread⟩ := exists_of_mem_mapM hsubs entries hentries
          exact lackEnumsAll_entries hread henums

theorem lackEnumsAll_entries :
    ∀ {shift number : Nat} {nodes : List Node} {entries : List (Nat × Content)},
      entries? row shift number nodes = some entries → enumsOf nodes = [] → Content.LackEnumsAll entries
  | _, _, [], _, h, _ => by
      cases h
      trivial
  | _, number, node :: nodes, _, h, henums => by
      rw [entries?] at h
      obtain ⟨content, hcontent, h⟩ := Option.bind_eq_some_iff.1 h
      obtain ⟨entries, hentries, h⟩ := Option.bind_eq_some_iff.1 h
      cases h
      obtain ⟨hnode, hnodes⟩ := List.append_eq_nil_iff.1 henums
      have hrest := lackEnumsAll_entries hentries hnodes
      cases content with
      | none => exact hrest
      | some content => exact ⟨lacksEnums_content hcontent hnode, hrest⟩

end

/-- A row is read as a record without enum values where the layout names no enum type, whatever the type is that the row
is read with. -/
theorem lacksEnums_of_toRecord {h : Header} {l : Layout} (hlayout : Layout.ofHeader h = .ok l) (henums : l.enums = [])
    {type : Message} {r : Record} (hr : toRecord row l type = .ok r) : r.LacksEnums := by
  obtain ⟨entries, hentries, rfl⟩ := Option.map_eq_some_iff.1 (reference_of_toRecord hlayout hr)
  exact lackEnumsAll_entries hentries henums

end Row

namespace EncodedSheet

variable {g : Grid} {l : Layout} {type : Message} {enums enums' : EnumTable}

/-- Records without enum values are written as the same data with every enum table. -/
theorem write_of_lackEnums {read : List Record × Nat} (hrecords : ∀ r ∈ read.1, r.LacksEnums) :
    write type enums' read = write type enums read := by
  have hitems : Value.LackEnumsAll (read.1.map .message) := Value.lackEnumsAll_iff.2 (List.forall_mem_map.2 hrecords)
  have htext : (Record.wrap read.1).toText type.arrayOf enums' = (Record.wrap read.1).toText type.arrayOf enums := by
    rw [Record.toText, Record.toText, Record.lines_wrap, Record.lines_wrap,
      Value.linesAll_of_lackEnumsAll enums enums' 0 hitems]
  rw [write, write, htext]

/-- Where the layout of a sheet names no enum type, its data are the same with every enum table, or the same error. -/
theorem ofGrid_of_enums_eq_nil (hlayout : Layout.ofHeader (Header.ofGrid g) = .ok l) (henums : l.enums = []) :
    ofGrid g type enums' = ofGrid g type enums := by
  have hread : readData g l type enums' = readData g l type enums := by
    rw [readData, readData]
    cases (Header.ofGrid g).idColumn? with
    | none => rfl
    | some id => exact readRows_congr (Grid.RowsShow.refl _) (.inr henums) type id Header.height
  rw [ofGrid_eq, ofGrid_eq, hlayout]
  simp only [Except.mapError, bind, Except.bind, henums, checkEnums, hread]
  cases hdata : readData g l type enums with
  | error e => rfl
  | ok read =>
      apply write_of_lackEnums
      intro r hr
      obtain ⟨row, hrow⟩ := exists_toRecord_of_mem (dataRows_of_readData hdata) hr
      exact Row.lacksEnums_of_toRecord hlayout henums hrow

/-- Every enum type that the layout of a sheet names, in whatever scope and however often its values stand there, comes
from a type cell with a word that has the mark of enums. If no type cell has one, a run takes an empty table for the
sheet without looking for the file, and with any other table, and whatever type, the outcome would be the same. -/
theorem ofGrid_of_mentionsEnums (g : Grid) :
    (∀ l column name, Layout.ofHeader (Header.ofGrid g) = .ok l → Node.NamesEnum l.nodes column name →
        column < g.columnCount ∧ ∃ word ∈ Text.words (g.cell 1 column), Text.IsMarked word)
      ∧ ((Header.ofGrid g).mentionsEnums = false →
        (∀ s tree, Run.enumTable s (Header.ofGrid g) tree = (.ok {}, tree))
          ∧ ∀ type enums enums', ofGrid g type enums = ofGrid g type enums') := by
  constructor
  · intro l column name hlayout hnames
    obtain ⟨hlt, hmarked⟩ := Layout.marked_of_namesEnum hlayout hnames
    rw [Header.columnCount_ofGrid] at hlt
    rw [Header.heading_ofGrid hlt] at hmarked
    exact ⟨hlt, hmarked⟩
  · intro hnone
    constructor
    · intro s tree
      simp only [Run.enumTable, hnone, Bool.false_and]
      rfl
    · intro type enums enums'
      cases hlayout : Layout.ofHeader (Header.ofGrid g) with
      | error e =>
          rw [ofGrid_eq, ofGrid_eq, hlayout]
          simp only [Except.mapError, bind, Except.bind]
      | ok l => exact ofGrid_of_enums_eq_nil hlayout (Layout.enums_eq_nil_of_mentionsEnums hlayout hnone)

end EncodedSheet

/-- A sheet that has the mark of enums in comments, defaults and data, but not in a type cell. -/
def flags : Grid :=
  ⟨[["", "enum-Color"], ["int32", "optional int32", "string[]"], ["id", "paint", "notes=enum-Color"],
    ["1", "2", "enum-Color"], ["2"]]⟩

/-- A type for flags with wider numbers than those of the sheet. -/
def flagType : Message :=
  ⟨"Flag", [⟨1, "id", .implicit, .value (.scalar .sint64)⟩, ⟨2, "paint", .optional, .value (.scalar .sint64)⟩,
    ⟨3, "notes", .repeated, .value (.scalar .string)⟩]⟩

/-- The spots of signs are in zones, by the heading of the first of them, and flags have no enum. -/
theorem signs_marked_and_flags_not :
    (∃ word ∈ Text.words (signs.cell 1 4), Text.IsMarked word)
      ∧ ∃ s, EncodedSheet.ofGrid flags flagType {} = .ok s ∧ EncodedSheet.ofGrid flags flagType colors = .ok s
        ∧ s.text = "items \x7b\n  id: 1\n  paint: 2\n  notes: \"enum-Color\"\n\x7d\nitems \x7b\n  id: 2\n\x7d\n" := by
  constructor
  · have hzone : (Layout.ofHeader (Header.ofGrid signs)).toOption.map (fun l => decide ((4, "Zone") ∈ l.enums))
        = some true := by decide +kernel
    obtain ⟨l, hlayout, hzone⟩ := map_toOption_eq_some.1 hzone
    have hnames := Node.mem_enumsOf_iff.1 (of_decide_eq_true hzone)
    exact ((EncodedSheet.ofGrid_of_mentionsEnums signs).1 l 4 "Zone" hlayout hnames).2
  · have htext : (EncodedSheet.ofGrid flags flagType {}).toOption.map (·.text)
        = some "items \x7b\n  id: 1\n  paint: 2\n  notes: \"enum-Color\"\n\x7d\nitems \x7b\n  id: 2\n\x7d\n" := by
      decide +kernel
    obtain ⟨s, hs, htext⟩ := map_toOption_eq_some.1 htext
    obtain ⟨-, hsame⟩ := (EncodedSheet.ofGrid_of_mentionsEnums flags).2 (by decide +kernel)
    exact ⟨s, hs, (hsame flagType colors {}).trans hs, htext⟩

end SheetCompiler

import SheetCompiler.Proofs.Layout.Completeness
import SheetCompiler.Proofs.Rows.Blame

/-!
# Defaults

A field with a cell of its own takes its default where the cell is blank, in a struct and in every copy of a repetition
as well: the row is read as if the default stood in the cell, and fails as it would fail then. A list takes no default,
neither one that is joined in one cell nor one that has a count, and what its heading gives as a default makes no
difference to any row.
-/

namespace SheetCompiler

namespace Node

variable {h : Header}

theorem Tile.last_of_mem {first last : Nat} {nodes : List Node} (htile : Tile h first last nodes) {node : Node}
    (hnode : node ∈ nodes) : node.column + node.span ≤ last := by
  induction nodes generalizing first with
  | nil => cases hnode
  | cons other nodes ih =>
      have hlast := htile.last_eq
      obtain ⟨hstands, htile⟩ := htile
      rcases List.mem_cons.1 hnode with rfl | hnode
      · rw [hlast, hstands.column_eq, spans, ← Nat.add_assoc]
        exact Nat.le_add_right _ _
      · exact ih htile hnode

/-- In whatever copy a construct occurs, it stands in a column of the constructs around it. -/
theorem Tile.range_of_occurs {first last shift : Nat} {nodes : List Node} {node : Node}
    (htile : Tile h first last nodes) (hoccurs : Occurs nodes shift node) :
    first ≤ node.column + shift ∧ node.column + shift < last := by
  induction hoccurs generalizing first last with
  | @here nodes node hnode =>
      have hfirst := (htile.stands node hnode).1
      have hlast := htile.last_of_mem hnode
      have hpos := node.span_pos
      omega
  | @struct nodes members head shift node hstruct _ ih =>
      obtain ⟨hfirst, -, -, hmembers⟩ := htile.stands _ hstruct
      have hlast := htile.last_of_mem hstruct
      have hrange := ih hmembers
      rw [span] at hlast
      omega
  | @structs nodes members count max copy head shift node hstructs hcopy _ ih =>
      obtain ⟨hfirst, -, -, -, -, -, hmembers, -⟩ := htile.stands _ hstructs
      have hlast := htile.last_of_mem hstructs
      have hrange := ih hmembers
      have hroom : (copy + 1) * (1 + spans members) ≤ max * (1 + spans members) := Nat.mul_le_mul_right _ hcopy
      rw [Nat.succ_mul] at hroom
      rw [span] at hlast
      omega

/-- Whether a column is that of a field among constructs, in some copy that stands `shift` columns to the right of the
headings, or is none of theirs. -/
def Targets (nodes : List Node) (first last shift : Nat) (field : ValueColumn) (target : Nat) : Prop :=
  target < first + shift ∨ last + shift ≤ target
    ∨ ∃ inner optional, Occurs nodes inner (.value field optional) ∧ target = field.column + inner + shift

namespace Targets

variable {first last shift target count max : Nat} {field : ValueColumn} {node : Node} {nodes members : List Node}
  {head : StructColumn}

theorem cons (htile : Tile h first last (node :: nodes)) (ht : Targets (node :: nodes) first last shift field target) :
    Targets [node] first (first + node.span) shift field target
      ∧ Targets nodes (first + node.span) last shift field target := by
  have hlast := htile.last_eq
  rw [spans] at hlast
  obtain ⟨hstands, hothers⟩ := htile
  have halone : Tile h first (first + node.span) [node] := ⟨hstands, rfl⟩
  rcases ht with hbefore | hbehind | ⟨inner, optional, hoccurs, rfl⟩
  · exact ⟨.inl hbefore, .inl (by omega)⟩
  · exact ⟨.inr (.inl (by omega)), .inr (.inl hbehind)⟩
  · rcases Occurs.cons_iff.1 hoccurs with hoccurs | hoccurs
    · have hrange : field.column + inner < first + node.span := (halone.range_of_occurs hoccurs).2
      exact ⟨.inr (.inr ⟨inner, optional, hoccurs, rfl⟩), .inl (by omega)⟩
    · have hrange : first + node.span ≤ field.column + inner := (hothers.range_of_occurs hoccurs).1
      exact ⟨.inr (.inl (by omega)), .inr (.inr ⟨inner, optional, hoccurs, rfl⟩)⟩

/-- A column that is not in the span of a construct which holds no values of the field. -/
theorem outside (ht : Targets [node] first last shift field target) (hleaf : node.struct? = none)
    (hother : ∀ optional, node ≠ .value field optional) : target < first + shift ∨ last + shift ≤ target := by
  rcases ht with hbefore | hbehind | ⟨inner, optional, hoccurs, -⟩
  · exact .inl hbefore
  · exact .inr hbehind
  · exact absurd (hoccurs.eq_of_leaf hleaf).symm (hother optional)

theorem struct (ht : Targets [.struct head members] first (first + (1 + spans members)) shift field target) :
    Targets members (first + 1) (first + 1 + spans members) shift field target := by
  rcases ht with hbefore | hbehind | ⟨inner, optional, hoccurs, rfl⟩
  · exact .inl (by omega)
  · exact .inr (.inl (by omega))
  · refine .inr (.inr ⟨inner, optional, ?_, rfl⟩)
    cases hoccurs with
    | here hnode => cases List.mem_singleton.1 hnode
    | struct hstruct hoccurs =>
        cases List.mem_singleton.1 hstruct
        exact hoccurs
    | structs hstructs => cases List.mem_singleton.1 hstructs

/-- In a repetition of structs the column is not that of the count, and it is that of the field in one copy at most. -/
theorem copy (htile : Tile h (first + 2) (first + 2 + spans members) members)
    (ht : Targets [.structs count max head members] first (first + (max * (1 + spans members) + 1)) shift field
      target) :
    target ≠ first + shift ∧ ∀ copy < max,
      Targets members (first + 2) (first + 2 + spans members) (copy * (1 + spans members) + shift) field target := by
  have hroom (copy : Nat) (hcopy : copy < max) :
      copy * (1 + spans members) + (1 + spans members) ≤ max * (1 + spans members) := by
    rw [← Nat.succ_mul]
    exact Nat.mul_le_mul_right _ hcopy
  rcases ht with hbefore | hbehind | ⟨inner, optional, hoccurs, rfl⟩
  · exact ⟨by omega, fun copy _ => .inl (by omega)⟩
  · refine ⟨by omega, fun copy hcopy => .inr (.inl ?_)⟩
    have := hroom copy hcopy
    omega
  · cases hoccurs with
    | here hnode => cases List.mem_singleton.1 hnode
    | struct hstruct => cases List.mem_singleton.1 hstruct
    | @structs _ _ _ _ found _ inner _ hstructs hfound hoccurs =>
        cases List.mem_singleton.1 hstructs
        have hrange : first + 2 ≤ field.column + inner ∧ field.column + inner < first + 2 + spans members :=
          htile.range_of_occurs hoccurs
        refine ⟨by omega, fun copy hcopy => ?_⟩
        rcases Nat.lt_trichotomy found copy with hlt | rfl | hgt
        · have hlater : (found + 1) * (1 + spans members) ≤ copy * (1 + spans members) := Nat.mul_le_mul_right _ hlt
          rw [Nat.succ_mul] at hlater
          exact .inl (by omega)
        · exact .inr (.inr ⟨inner, optional, hoccurs, by omega⟩)
        · have hearlier : (copy + 1) * (1 + spans members) ≤ found * (1 + spans members) := Nat.mul_le_mul_right _ hgt
          rw [Nat.succ_mul] at hearlier
          exact .inr (.inl (by omega))

end Targets

end Node

/-- A text that takes the place of a blank one is read as the default would be there. -/
theorem Conversion.convert_default {type : ValueType} {default text : String} (hblank : isBlank type text = true)
    (enums : EnumTable) : convert type (some default) enums default = convert type (some default) enums text := by
  have heffective : effective type (some default) default = effective type (some default) text := by
    simp only [effective, hblank, if_true, ite_self]
  simp only [convert, heffective]

namespace Row

open Node

/-- Whether a row is another one with a text put into a column. -/
structure Source.Puts (row' row : Source) (column : Nat) (text : String) : Prop where
  index : row'.index = row.index
  enums : row'.enums = row.enums
  cell : row'.cell column = text
  others : ∀ c, c ≠ column → row'.cell c = row.cell c

section Puts

variable {row row' : Source} {target : Nat} {text : String} (hputs : row'.Puts row target text)
include hputs

theorem convert_puts : convert row' = convert row := by
  funext column type default? text
  rw [convert, convert, hputs.enums, Source.cellName, Source.cellName, hputs.index]

theorem readCount_puts {w : Walk} (hother : w.column ≠ target) (max : Nat) :
    readCount row' max w = readCount row max w := by
  rw [readCount, readCount, hputs.others _ hother, Source.cellName, Source.cellName, hputs.index]

theorem readInline_puts (type : ValueType) (number : Nat) (w : Walk) (tokens : List String) :
    readInline row' type number w tokens = readInline row type number w tokens := by
  induction tokens generalizing w with
  | nil => rfl
  | cons token tokens ih => simp only [readInline, convert_puts hputs, ih]

theorem readCopies_puts {w : Walk} {count : Nat} (hother : target < w.column ∨ w.column + count ≤ target)
    (type : ValueType) (number : Nat) : readCopies row' type number count w = readCopies row type number count w := by
  rw [readCopies_eq, readCopies_eq]
  have hstep (i : Nat) (s : Walk) (hs : s.column = w.column + i) :
      Ends (fun s' => s'.column = w.column + (i + 1)) SheetError.InCells (readCell row type number s) := by
    refine (ends_convert s.column type none _).bind fun v _ => ?_
    have hcolumn := ((s.append_passes number v).trans (Walk.skip_passes _ 1)).column
    show ((s.append number v).skip 1).column = _
    omega
  refine Ends.iterateM_congr (fun i s => s.column = w.column + i) (fun i s _ hs => hstep i s hs) ?_ rfl
  intro i s hlt hs
  rw [readCell, readCell, convert_puts hputs, hputs.others s.column (by omega)]

end Puts

/-! ### Fields with a cell of their own -/

/-- Whether a row is another one with the default of a field in a cell of the field that is blank. -/
structure Source.TakesDefault (row' row : Source) (field : ValueColumn) (target : Nat) : Prop where
  blank : Conversion.isBlank field.type (row.cell target) = true
  puts : ∃ default, field.default? = some default ∧ row'.Puts row target default

variable {h : Header} {row row' : Source} {field : ValueColumn} {target : Nat}

theorem read_value_default (htakes : row'.TakesDefault row field target) {column : ValueColumn} {optional : Bool}
    {w : Walk} (hcolumn : w.column = target → column = field) (type : Message) :
    read row' type w (.value column optional) = read row type w (.value column optional) := by
  obtain ⟨hblank, default, hdefault, hputs⟩ := htakes
  have hconvert : convert row w.column column.type column.default? (row'.cell w.column)
      = convert row w.column column.type column.default? (row.cell w.column) := by
    by_cases htarget : w.column = target
    · obtain rfl := hcolumn htarget
      rw [convert, convert, htarget, hputs.cell, hdefault, Conversion.convert_default hblank]
    · rw [hputs.others _ htarget]
  rw [read, read, convert_puts hputs, hconvert]

theorem column_readCopy {members : List Node} (hwalks : WalksMembers row members) (nested : Message)
    (column number i : Nat) (s : Walk) (hs : s.column = column + i * (1 + spans members)) :
    Ends (fun s' => s'.column = column + (i + 1) * (1 + spans members)) (Fault nested 1 members)
      (readCopy row nested number members s) := by
  refine (ends_readCopy hwalks nested number s).mono fun s' hs' => ?_
  rw [hs'.column, hs, Nat.succ_mul, Nat.add_assoc]

theorem read_structs_default (htakes : row'.TakesDefault row field target) {count max : Nat} {head : StructColumn}
    {members : List Node} {type : Message} {w : Walk} (hpos : 0 < max) (hcount : w.column ≠ target)
    (hwalks : WalksMembers row members)
    (hmembers : ∀ copy < max, ∀ (nested : Message) (inner : Walk),
      inner.column = w.column + 2 + copy * (1 + spans members) →
        readAll row' nested inner members = readAll row nested inner members) :
    read row' type w (.structs count max head members) = read row type w (.structs count max head members) := by
  obtain ⟨default, -, hputs⟩ := htakes.puts
  rw [read_structs, read_structs, readCount_puts hputs hcount]
  refine bind_congr_ok fun copies hcopies => bind_congr_ok fun nested _ => ?_
  have hused : Nat.max copies 1 ≤ max := Nat.max_le.2 ⟨le_of_readCount hcopies, hpos⟩
  have hsame : ∀ i s, i < max → s.column = w.column + 1 + i * (1 + spans members) →
      readCopy row' nested w.scopes.number members s = readCopy row nested w.scopes.number members s := by
    intro i s hi hs
    have hinner : (s.enter .empty).column = w.column + 2 + i * (1 + spans members) := by
      change s.column + 1 = _
      rw [hs]
      omega
    rw [readCopy, readCopy, hmembers i hi nested _ hinner]
  have hstart : (w.skip 1).number.column = w.column + 1 + 0 * (1 + spans members) := by
    change w.column + 1 = _
    omega
  rw [Ends.iterateM_congr _ (fun i s _ => column_readCopy hwalks nested (w.column + 1) w.scopes.number i s)
    (fun i s hi => hsame i s (Nat.lt_of_lt_of_le hi hused)) hstart, Source.cellName, Source.cellName, hputs.index]

mutual

theorem read_default (htakes : row'.TakesDefault row field target) {shift : Nat} :
    ∀ {first : Nat} {node : Node} {type : Message} {w : Walk}, node.Stands h first → w.column = first + shift →
      Targets [node] first (first + node.span) shift field target → read row' type w node = read row type w node
  | _, .skip _, _, _, _, _, _ => rfl
  | first, .value column optional, type, w, ⟨hfirst, _⟩, hcolumn, ht => by
      refine read_value_default htakes (fun htarget => ?_) type
      rw [span] at ht
      rcases ht with hbefore | hbehind | ⟨inner, _, hoccurs, -⟩
      · omega
      · omega
      · cases hoccurs.eq_of_leaf rfl
        rfl
  | first, .inline column, type, w, ⟨hfirst, _⟩, hcolumn, ht => by
      obtain ⟨-, default, -, hputs⟩ := htakes
      have hother := ht.outside rfl nofun
      rw [span] at hother
      simp only [read, readInline_puts hputs, hputs.others w.column (by omega)]
  | first, .values count max column optional, type, w, ⟨hfirst, _⟩, hcolumn, ht => by
      obtain ⟨-, default, -, hputs⟩ := htakes
      have hother := ht.outside rfl nofun
      rw [span] at hother
      rw [read, read, readCount_puts hputs (by omega)]
      refine bind_congr_ok fun copies hcopies => ?_
      have hle := le_of_readCount hcopies
      have hcells : target < (w.skip 1).column ∨ (w.skip 1).column + copies ≤ target := by
        rw [Walk.column_skip]
        omega
      simp only [readCopies_puts hputs hcells]
  | first, .struct head members, type, w, ⟨_, _, htile⟩, hcolumn, ht => by
      rw [span] at ht
      rw [read, read]
      refine bind_congr_ok fun nested _ => ?_
      have hinner : (w.number.enter (w.record.message w.scopes.number)).column = first + 1 + shift := by
        show w.column + 1 = _
        omega
      show readAll row' nested (w.number.enter (w.record.message w.scopes.number)) members >>= _ = _
      rw [readAll_default htakes htile hinner ht.struct]
      rfl
  | first, .structs count max head members, type, w, ⟨_, hpos, _, _, _, htile, _⟩, hcolumn, ht => by
      rw [span] at ht
      obtain ⟨hcount, hmembers⟩ := ht.copy htile
      have hwalks : WalksMembers row members := fun _ _ hnumber => hnumber ▸ ends_readAll htile
      exact read_structs_default htakes hpos (by omega) hwalks fun copy hcopy nested inner hinner =>
        readAll_default htakes htile (by omega) (hmembers copy hcopy)

/-- The walk over constructs of which the field is one, in some copy, or which stand beside its column. -/
theorem readAll_default (htakes : row'.TakesDefault row field target) {shift : Nat} :
    ∀ {first last : Nat} {nodes : List Node} {type : Message} {w : Walk}, Tile h first last nodes →
      w.column = first + shift → Targets nodes first last shift field target →
      readAll row' type w nodes = readAll row type w nodes
  | _, _, [], _, _, _, _, _ => rfl
  | first, last, node :: nodes, type, w, htile, hcolumn, ht => by
      obtain ⟨hnode, hnodes⟩ := ht.cons htile
      obtain ⟨hstands, htile⟩ := htile
      rw [readAll, readAll, read_default htakes hstands hcolumn hnode]
      refine bind_congr_ok fun w' hw' => ?_
      have hread : Ends (fun w' => w.Passes w' node.span node.fieldCount) (Fault type w.scopes.number (node :: nodes))
          (read row type w node) := ends_read hstands
      rw [hw'] at hread
      have hcolumn' := hread.of_ok.column
      exact readAll_default htakes htile (by omega) hnodes

end

end Row

/-! ### Lists -/

namespace Node

mutual

/-- The construct with no default for its lists. -/
def plain : Node → Node
  | .inline field => .inline { field with default? := none }
  | .values count max field optional => .values count max { field with default? := none } optional
  | .struct head members => .struct head (plainAll members)
  | .structs count max head members => .structs count max head (plainAll members)
  | .skip column => .skip column
  | .value field optional => .value field optional

def plainAll : List Node → List Node
  | [] => []
  | node :: nodes => plain node :: plainAll nodes

end

mutual

theorem span_plain : ∀ node : Node, node.plain.span = node.span
  | .skip _ | .value .. | .inline _ | .values .. => rfl
  | .struct _ members | .structs _ _ _ members => by rw [plain, span, span, spans_plainAll members]

theorem spans_plainAll : ∀ nodes : List Node, spans (plainAll nodes) = spans nodes
  | [] => rfl
  | node :: nodes => by rw [plainAll, spans, spans, span_plain node, spans_plainAll nodes]

end

end Node

namespace Row

open Node

variable {row : Source}

mutual

theorem read_plain : ∀ (node : Node) (type : Message) (w : Walk), read row type w node.plain = read row type w node
  | .skip _, _, _ | .value .., _, _ => rfl
  | .inline _, _, _ | .values .., _, _ => by rw [plain, read, read]
  | .struct head members, type, w => by simp only [plain, read, readAll_plain members]
  | .structs count max head members, type, w => by
      have hcopy (nested : Message) (number : Nat) :
          readCopy row nested number (plainAll members) = readCopy row nested number members := by
        funext w
        simp only [readCopy, readAll_plain members]
      simp only [plain, read_structs, hcopy, spans_plainAll]

theorem readAll_plain : ∀ (nodes : List Node) (type : Message) (w : Walk),
    readAll row type w (plainAll nodes) = readAll row type w nodes
  | [], _, _ => rfl
  | node :: nodes, type, w => by simp only [plainAll, readAll, read_plain node, readAll_plain nodes]

end

end Row

/-- The layout with no default for its lists. -/
def Layout.plain (l : Layout) : Layout := ⟨Node.plainAll l.nodes, l.columnCount⟩

/-- A blank cell of a field with a default is read as the default, in whatever copy of a repetition it stands and
whatever else is in the row, and so is a row that cannot be read. The defaults of lists make no difference. -/
theorem Row.toRecord_eq_of_takesDefault {h : Header} {l : Layout} (hlayout : Layout.ofHeader h = .ok l)
    (type : Message) :
    (∀ field optional shift, Node.Occurs l.nodes shift (.value field optional) → ∀ row row' : Source,
        row'.TakesDefault row field (field.column + shift) → toRecord row' l type = toRecord row l type)
      ∧ ∀ row : Source, toRecord row l.plain type = toRecord row l type := by
  obtain ⟨-, htile⟩ := Layout.tile_of_ofHeader hlayout
  constructor
  · intro field optional shift hoccurs row row' htakes
    have ht : Node.Targets l.nodes 0 h.columnCount 0 field (field.column + shift) :=
      .inr (.inr ⟨shift, optional, hoccurs, rfl⟩)
    rw [toRecord, toRecord, readAll_default htakes htile rfl ht]
  · intro row
    rw [toRecord, toRecord, Layout.plain, readAll_plain, Layout.span, Layout.span, Node.spans_plainAll]

/-- A header of tables with two seats. The guests have a default, and so have the levels, which are a list, and the
notes, which are the elements of one. -/
def tables : Header :=
  ⟨[⟨"", "int32", "id"⟩, ⟨"", "2[]", ""⟩, ⟨"seats", "optional_struct 1", "Seat"⟩, ⟨"", "string", "guest=nobody"⟩, {},
    {}, ⟨"", "int32[]", "levels=1;2"⟩, ⟨"", "1[]", ""⟩, ⟨"", "string", "notes=none"⟩]⟩

def tableLayout : Layout :=
  ⟨[.value ⟨0, "id", .scalar .int32, none, ""⟩ false,
    .structs 1 2 ⟨2, "seats", "Seat", false⟩ [.value ⟨3, "guest", .scalar .string, some "nobody", ""⟩ false],
    .inline ⟨6, "levels", .scalar .int32, some "1;2", ""⟩,
    .values 7 1 ⟨8, "notes", .scalar .string, some "none", ""⟩ false], 9⟩

/-- A table with these cells for the second guest, the levels and the note. -/
def table (guest levels note : String) : Row.Source :=
  ⟨3, ["7", "2", "", "Ann", "", guest, levels, "1", note], ⟨[]⟩⟩

theorem tables_laidOut : Layout.ofHeader tables = .ok tableLayout := by
  have hread (column : Nat) (d : Descriptor) (h : (tables.descriptor column).toOption = some d) :
      tables.descriptor column = .ok d := toOption_eq_some.1 h
  have hid := hread 0 (.value ⟨0, "id", .scalar .int32, none, ""⟩ false) (by decide +kernel)
  have hcount := hread 1 (.count 2 "") (by decide +kernel)
  have hseat := hread 2 (.struct ⟨2, "seats", "Seat", false⟩ 1) (by decide +kernel)
  have hguest := hread 3 (.value ⟨3, "guest", .scalar .string, some "nobody", ""⟩ false) (by decide +kernel)
  have hlevels := hread 6 (.inline ⟨6, "levels", .scalar .int32, some "1;2", ""⟩) (by decide +kernel)
  have hnotes := hread 7 (.count 1 "") (by decide +kernel)
  have hnote := hread 8 (.value ⟨8, "notes", .scalar .string, some "none", ""⟩ false) (by decide +kernel)
  refine Layout.ofHeader_eq_ok_iff.2 ⟨rfl, ⟨rfl, hid⟩, ?_, ⟨rfl, hlevels⟩, ?_, rfl⟩
  · exact ⟨rfl, by decide, ⟨"", hcount⟩, rfl, hseat, ⟨⟨rfl, hguest⟩, rfl⟩, by decide⟩
  · exact ⟨rfl, by decide, ⟨"", hnotes⟩, rfl, hnote, by decide⟩

/-- The second guest is nobody where the cell is blank, and the row is read like the one that says so. -/
theorem blankGuest_is_nobody :
    ∃ schema record, Schema.ofHeader tables "Table" {} = .ok schema
      ∧ Row.toRecord (table "" "3" "new") tableLayout schema.type = .ok record
      ∧ Row.toRecord (table "nobody" "3" "new") tableLayout schema.type = .ok record
      ∧ record.agrees ⟨[(1, .single (.int 7)),
          (2, .list [.message ⟨[(1, .single (.string "Ann"))]⟩, .message ⟨[(1, .single (.string "nobody"))]⟩]),
          (3, .list [.int 3]), (4, .list [.string "new"])]⟩ = true := by
  have hschema : Succeeds (Schema.ofHeader tables "Table" {}) := by decide +kernel
  have hread : (Row.toRecord (table "" "3" "new") tableLayout (tableLayout.type "Table")).toOption.map (fun record =>
        record.agrees ⟨[(1, .single (.int 7)),
          (2, .list [.message ⟨[(1, .single (.string "Ann"))]⟩, .message ⟨[(1, .single (.string "nobody"))]⟩]),
          (3, .list [.int 3]), (4, .list [.string "new"])]⟩) = some true := by decide +kernel
  obtain ⟨schema, hschema⟩ := hschema
  rw [← Schema.type_of_ofHeader tables_laidOut hschema] at hread
  obtain ⟨record, hrecord, hagrees⟩ := map_toOption_eq_some.1 hread
  obtain ⟨hdefaults, -⟩ := Row.toRecord_eq_of_takesDefault tables_laidOut schema.type
  have hoccurs : Node.Occurs tableLayout.nodes 2 (.value ⟨3, "guest", .scalar .string, some "nobody", ""⟩ false) :=
    .structs (.tail _ (.head _)) (by decide : 1 < 2) (.here (.head _))
  have hputs : (table "nobody" "3" "new").Puts (table "" "3" "new") 5 "nobody" := by
    refine ⟨rfl, rfl, rfl, fun c hc => ?_⟩
    match c, hc with
    | 0, _ | 1, _ | 2, _ | 3, _ | 4, _ | 6, _ | 7, _ | 8, _ | _ + 9, _ => rfl
    | 5, hc => exact absurd rfl hc
  have hsame := hdefaults _ _ _ hoccurs _ _ ⟨by decide +kernel, "nobody", rfl, hputs⟩
  exact ⟨schema, record, hschema, hrecord, hsame.trans hrecord, hagrees⟩

/-- The levels stay empty where the cell is blank, and the note is left out, so neither row is read like the one that
has the default in the cell. -/
theorem blankLists_take_no_default :
    ∃ schema, Schema.ofHeader tables "Table" {} = .ok schema
      ∧ (∃ record record', Row.toRecord (table "Ben" "" "new") tableLayout schema.type = .ok record
        ∧ Row.toRecord (table "Ben" "1;2" "new") tableLayout schema.type = .ok record'
        ∧ (record.list 3).length = 0 ∧ (record'.list 3).length = 2)
      ∧ ∃ record record', Row.toRecord (table "Ben" "3" "") tableLayout schema.type = .ok record
        ∧ Row.toRecord (table "Ben" "3" "none") tableLayout schema.type = .ok record'
        ∧ (record.list 4).length = 0 ∧ (record'.list 4).length = 1 := by
  have hschema : Succeeds (Schema.ofHeader tables "Table" {}) := by decide +kernel
  have hlengths : ∀ cells ∈ [("", "new", 3, 0), ("1;2", "new", 3, 2), ("3", "", 4, 0), ("3", "none", 4, 1)],
      (Row.toRecord (table "Ben" cells.1 cells.2.1) tableLayout (tableLayout.type "Table")).toOption.map
        (fun record => (record.list cells.2.2.1).length) = some cells.2.2.2 := by decide +kernel
  obtain ⟨schema, hschema⟩ := hschema
  rw [← Schema.type_of_ofHeader tables_laidOut hschema] at hlengths
  simp only [List.forall_mem_cons, map_toOption_eq_some] at hlengths
  obtain ⟨⟨record, hrecord, hnone⟩, ⟨record', hrecord', htwo⟩, ⟨noted, hnoted, hempty⟩, ⟨noted', hnoted', hone⟩, -⟩ :=
    hlengths
  exact ⟨schema, hschema, ⟨record, record', hrecord, hrecord', hnone, htwo⟩, noted, noted', hnoted, hnoted', hempty,
    hone⟩

end SheetCompiler

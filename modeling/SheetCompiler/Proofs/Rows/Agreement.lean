import Mathlib.Data.List.Forall2
import SheetCompiler.Proofs.Rows.Walk

/-!
# Rows that show the same cells

A walk over a row looks at its cells, at its index where it fails, and at the enums where a column has an enum type.
Rows that are the same in all this are walked in the same way, and fail in the same way, whatever type they are held
against.
-/

namespace SheetCompiler

/-- Texts are converted without enums to types that are not enums. -/
theorem Conversion.convert_of_enumName? {type : ValueType} (htype : type.enumName? = none) (default? : Option String)
    (enums enums' : EnumTable) (text : String) :
    convert type default? enums' text = convert type default? enums text := by
  cases type with
  | scalar kind => rfl
  | enum name => cases htype

namespace Node

theorem enumOf_eq_nil_iff {field : ValueColumn} : enumOf field = [] ↔ field.type.enumName? = none := by
  rw [enumOf]
  cases field.type.enumName? <;> simp

end Node

namespace Row

/-- Whether a row has the index of another one and shows the same cells. -/
structure Source.Shows (row' row : Source) : Prop where
  index : row'.index = row.index
  cells : ∀ c, row'.cell c = row.cell c

variable {row row' : Source}

theorem Source.Shows.cellName_eq (hshows : row'.Shows row) (column : Nat) :
    row'.cellName column = row.cellName column :=
  congrArg (Address.cellName · column) hshows.index

theorem convert_congr (hshows : row'.Shows row) {type : ValueType}
    (henums : row'.enums = row.enums ∨ type.enumName? = none) (column : Nat) (default? : Option String)
    (text : String) : convert row' column type default? text = convert row column type default? text := by
  rw [convert, convert, hshows.cellName_eq]
  rcases henums with henums | htype
  · rw [henums]
  · rw [Conversion.convert_of_enumName? htype]

theorem readInline_congr (hshows : row'.Shows row) {type : ValueType}
    (henums : row'.enums = row.enums ∨ type.enumName? = none) (number : Nat) (w : Walk) (tokens : List String) :
    readInline row' type number w tokens = readInline row type number w tokens := by
  induction tokens generalizing w with
  | nil => rfl
  | cons token tokens ih => simp only [readInline, convert_congr hshows henums, ih]

theorem readCopies_congr (hshows : row'.Shows row) {type : ValueType}
    (henums : row'.enums = row.enums ∨ type.enumName? = none) (number count : Nat) (w : Walk) :
    readCopies row' type number count w = readCopies row type number count w := by
  simp only [readCopies, convert_congr hshows henums, hshows.cells]

theorem readCount_congr (hshows : row'.Shows row) (max : Nat) (w : Walk) :
    readCount row' max w = readCount row max w := by
  rw [readCount, readCount, hshows.cellName_eq, hshows.cells]

mutual

theorem read_congr (hshows : row'.Shows row) :
    ∀ {node : Node}, (row'.enums = row.enums ∨ node.enums = []) → ∀ (type : Message) (w : Walk),
      read row' type w node = read row type w node
  | .skip _, _, _, _ => rfl
  | .value field _, henums, type, w => by
      have henums := henums.imp_right Node.enumOf_eq_nil_iff.1
      simp only [read, convert_congr hshows henums, hshows.cells]
  | .inline field, henums, type, w => by
      have henums := henums.imp_right Node.enumOf_eq_nil_iff.1
      simp only [read, readInline_congr hshows henums, hshows.cells]
  | .values _ max field _, henums, type, w => by
      have henums := henums.imp_right Node.enumOf_eq_nil_iff.1
      simp only [read, readCount_congr hshows, readCopies_congr hshows henums]
  | .struct head members, henums, type, w => by
      simp only [read, readAll_congr hshows henums]
  | .structs count max head members, henums, type, w => by
      have hcopy (nested : Message) (number : Nat) :
          readCopy row' nested number members = readCopy row nested number members := by
        funext w
        simp only [readCopy, readAll_congr hshows henums]
      simp only [read_structs, readCount_congr hshows, hshows.cellName_eq, hcopy]

/-- Rows that show the same cells are walked in the same way, with other enums if the constructs name none. -/
theorem readAll_congr (hshows : row'.Shows row) :
    ∀ {nodes : List Node}, (row'.enums = row.enums ∨ Node.enumsOf nodes = []) → ∀ (type : Message) (w : Walk),
      readAll row' type w nodes = readAll row type w nodes
  | [], _, _, _ => rfl
  | node :: nodes, henums, type, w => by
      have hnode := henums.imp_right fun h => (List.append_eq_nil_iff.1 h).1
      have hnodes := henums.imp_right fun h => (List.append_eq_nil_iff.1 h).2
      simp only [readAll, read_congr hshows hnode, readAll_congr hshows hnodes]

end

theorem toRecord_congr (hshows : row'.Shows row) {l : Layout} (henums : row'.enums = row.enums ∨ l.enums = [])
    (type : Message) : toRecord row' l type = toRecord row l type := by
  rw [toRecord, toRecord, readAll_congr hshows henums]

end Row

/-- Whether rows show the same cells as others, row by row. However long they are, they are blank behind their cells. -/
def Grid.RowsShow (rows' rows : List (List String)) : Prop :=
  List.Forall₂ (fun cells' cells => ∀ c, cellOf cells' c = cellOf cells c) rows' rows

theorem Grid.RowsShow.refl (rows : List (List String)) : RowsShow rows rows := List.forall₂_same.2 fun _ _ _ => rfl

/-- Data rows that show the same cells have the same outcome, with other enums if the layout names none. -/
theorem EncodedSheet.readRows_congr {rows rows' : List (List String)} (hrows : Grid.RowsShow rows' rows) {l : Layout}
    {enums enums' : EnumTable} (henums : enums' = enums ∨ l.enums = []) (type : Message) (id index : Nat) :
    readRows l type enums' id index rows' = readRows l type enums id index rows := by
  induction hrows generalizing index with
  | nil => rfl
  | @cons cells' cells _ _ hcells _ ih =>
      have hshows : (⟨index, cells', enums'⟩ : Row.Source).Shows ⟨index, cells, enums⟩ := ⟨rfl, hcells⟩
      rw [readRows, readRows, hcells id, Row.toRecord_congr hshows henums, ih]

end SheetCompiler

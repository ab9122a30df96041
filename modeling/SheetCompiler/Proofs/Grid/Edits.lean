import SheetCompiler.Grid.Measured
import SheetCompiler.Proofs.Grid

/-!
# Grids under any edits

A measured grid that starts empty and is edited in any way keeps the width of its longest row, though no edit but a
replacement of all rows looks at more than one of them. It reads as a map from cells to texts: an edit changes what
it is about, and every other cell reads as before.
-/

namespace SheetCompiler

inductive Grid.Edit where
  /-- Takes these rows in place of those that are there. -/
  | replace (rows : List (List String))
  | set (r c : Nat) (text : String)
  | push (cells : List String)
  deriving DecidableEq, Repr

namespace MeasuredGrid

open Grid (Edit IsWidth)

def edit (m : MeasuredGrid) : Edit → MeasuredGrid
  | .replace rows => ofRows rows
  | .set r c text => m.set r c text
  | .push cells => m.push cells

def after (edits : List Edit) : MeasuredGrid := edits.foldl edit {}

/-! ### What an edit does -/

structure Replaced (rows : List (List String)) (m : MeasuredGrid) : Prop where
  cell : ∀ r c, m.cell r c = (rows[r]?.bind fun cells => cells[c]?).getD ""
  rowCount : m.rowCount = rows.length
  width : IsWidth rows m.width

structure Written (m : MeasuredGrid) (r c : Nat) (text : String) (m' : MeasuredGrid) : Prop where
  cell : m'.cell r c = text
  others : ∀ r' c', (r', c') ≠ (r, c) → m'.cell r' c' = m.cell r' c'
  rowCount : m'.rowCount = max m.rowCount (r + 1)
  width : m'.width = max m.width (c + 1)

structure Pushed (m : MeasuredGrid) (cells : List String) (m' : MeasuredGrid) : Prop where
  cell : ∀ c, m'.cell m.rowCount c = cells[c]?.getD ""
  others : ∀ r, r ≠ m.rowCount → ∀ c, m'.cell r c = m.cell r c
  rowCount : m'.rowCount = m.rowCount + 1
  width : m'.width = max m.width cells.length

/-- Whether an edit makes the one grid the other. -/
def Makes (m : MeasuredGrid) : Edit → MeasuredGrid → Prop
  | .replace rows, m' => Replaced rows m'
  | .set r c text, m' => Written m r c text m'
  | .push cells, m' => Pushed m cells m'

theorem replaced_ofRows (rows : List (List String)) : Replaced rows (ofRows rows) where
  cell r c := by
    change Grid.cellOf (Grid.row ⟨rows⟩ r) c = _
    rw [Grid.cellOf, Grid.row, List.getD_eq_getElem?_getD, List.getD_eq_getElem?_getD]
    cases rows[r]? <;> rfl
  rowCount := rfl
  width := Grid.isWidth_columnCount rows

theorem written_set (m : MeasuredGrid) (r c : Nat) (text : String) : Written m r c text (m.set r c text) where
  cell := Grid.cell_set_self _ _ _ _
  others _ _ h := Grid.cell_set_of_ne _ _ h
  rowCount := Grid.rowCount_set _ _ _ _
  width := rfl

theorem pushed_push (m : MeasuredGrid) (cells : List String) : Pushed m cells (m.push cells) where
  cell c := by
    change Grid.cellOf ((m.toGrid.push cells).row m.rowCount) c = _
    rw [Grid.row_push_self, Grid.cellOf, List.getD_eq_getElem?_getD]
  others r h c := congrArg (Grid.cellOf · c) (Grid.row_push_of_ne _ _ h)
  rowCount := Grid.rowCount_push _ _
  width := rfl

theorem makes_edit (m : MeasuredGrid) : ∀ e : Edit, m.Makes e (m.edit e)
  | .replace rows => replaced_ofRows rows
  | .set r c text => written_set m r c text
  | .push cells => pushed_push m cells

/-! ### The width after edits -/

/-- The width that an edit leaves is that of the rows it leaves, if that was so before. -/
theorem width_edit {m : MeasuredGrid} (hwidth : m.width = m.columnCount) (e : Edit) :
    (m.edit e).width = (m.edit e).columnCount := by
  cases e with
  | replace rows => rfl
  | set r c text =>
      change max m.width (c + 1) = (m.toGrid.set r c text).columnCount
      rw [Grid.columnCount_set, hwidth]
  | push cells =>
      change max m.width cells.length = (m.toGrid.push cells).columnCount
      rw [Grid.columnCount_push, hwidth]

theorem width_foldl_edit {m : MeasuredGrid} (hwidth : m.width = m.columnCount) (edits : List Edit) :
    (edits.foldl edit m).width = (edits.foldl edit m).columnCount := by
  induction edits generalizing m with
  | nil => exact hwidth
  | cons e edits ih => exact ih (width_edit hwidth e)

theorem width_after (edits : List Edit) : (after edits).width = (after edits).columnCount := width_foldl_edit rfl edits

theorem after_append_singleton (edits : List Edit) (e : Edit) : after (edits ++ [e]) = (after edits).edit e :=
  List.foldl_append

theorem cell_of_unstored {g : Grid} {r c : Nat} (h : ∀ cells, g.rows[r]? = some cells → cells.length ≤ c) :
    g.cell r c = "" := by
  rw [Grid.cell, Grid.row, List.getD_eq_getElem?_getD]
  cases hrow : g.rows[r]? with
  | none => exact Grid.cellOf_of_length_le (Nat.zero_le _)
  | some cells => exact Grid.cellOf_of_length_le (h cells hrow)

/-- After any edits the width is that of the longest row, which is also what counting the rows gives, cells outside
the stored rows read as empty, and the next edit does what it says and nothing else. -/
theorem reads_as_edited (edits : List Edit) :
    IsWidth (after edits).rows (after edits).width
      ∧ (after edits).width = (after edits).columnCount
      ∧ (∀ r c, (∀ cells, (after edits).rows[r]? = some cells → cells.length ≤ c) → (after edits).cell r c = "")
      ∧ ∀ e : Edit, (after edits).Makes e (after (edits ++ [e])) := by
  refine ⟨?_, width_after edits, fun _ _ => cell_of_unstored, fun e => ?_⟩
  · rw [width_after]
    exact Grid.isWidth_columnCount _
  · rw [after_append_singleton]
    exact makes_edit _ e

/-- A write far below and on the right of a short row, and another row behind it. -/
def raggedEdits : List Edit := [.push ["id", "name"], .set 2 3 "x", .push ["y"]]

/-- The written cell stays when a row is added, and what lies between the rows and past them is empty. -/
theorem raggedEdits_read :
    (after raggedEdits).rows = [["id", "name"], [], ["", "", "", "x"], ["y"]] ∧ (after raggedEdits).width = 4
      ∧ (after raggedEdits).cell 1 0 = "" ∧ (after raggedEdits).cell 3 1 = ""
      ∧ (after (raggedEdits ++ [.set 0 5 "z"])).cell 2 3 = "x"
      ∧ (after (raggedEdits ++ [.set 0 5 "z"])).width = 6 := by
  obtain ⟨-, -, hblank, hnext⟩ := reads_as_edited raggedEdits
  have hset : Written (after raggedEdits) 0 5 "z" (after (raggedEdits ++ [.set 0 5 "z"])) := hnext (.set 0 5 "z")
  have hrows : (after raggedEdits).rows = [["id", "name"], [], ["", "", "", "x"], ["y"]] := by decide
  refine ⟨hrows, by decide, hblank 1 0 fun cells hcells => ?_, hblank 3 1 fun cells hcells => ?_,
    (hset.others 2 3 (by decide)).trans (by decide), hset.width.trans (by decide)⟩
  · rw [hrows] at hcells
    cases hcells
    decide
  · rw [hrows] at hcells
    cases hcells
    decide

end MeasuredGrid

end SheetCompiler

import Mathlib.Data.List.GetD
import Mathlib.Order.Lattice
import SheetCompiler.Grid

/-!
# What a grid reads after a change

Every cell but the ones that a change is about reads as before, whether it is stored or not. The width is the least
number that no row is longer than, where a row that is not stored counts as an empty one. So it grows to the length
of the row that was changed.
-/

namespace SheetCompiler.Grid

variable {g : Grid} {r r' c c' width : Nat} {cells : List String}

/-! ### Reading past the end -/

theorem cellOf_of_length_le {column : Nat} (h : cells.length ≤ column) : cellOf cells column = "" :=
  List.getD_eq_default _ _ h

theorem row_of_rowCount_le (h : g.rowCount ≤ r) : g.row r = [] := List.getD_eq_default _ _ h

/-- Storing what is read past the end makes no difference to what is read. -/
theorem getD_append_replicate {α : Type} (items : List α) (count i : Nat) (blank : α) :
    (items ++ List.replicate count blank).getD i blank = items.getD i blank := by
  rcases Nat.lt_or_ge i items.length with hlt | hge
  · exact List.getD_append _ _ _ _ hlt
  · rw [List.getD_append_right _ _ _ _ hge, List.getD_eq_default _ _ hge, List.getD_eq_getElem?_getD,
      List.getElem?_getD_replicate_default_eq]

/-! ### Widths -/

theorem columnCount_append (rows more : List (List String)) :
    columnCount ⟨rows ++ more⟩ = max (columnCount ⟨rows⟩) (columnCount ⟨more⟩) := by
  induction rows with
  | nil => exact (Nat.zero_max _).symm
  | cons row rows ih =>
      change max row.length (columnCount ⟨rows ++ more⟩) = max (max row.length (columnCount ⟨rows⟩)) _
      rw [ih, Nat.max_assoc]

theorem length_le_columnCount : ∀ {rows : List (List String)}, cells ∈ rows → cells.length ≤ columnCount ⟨rows⟩
  | _ :: _, .head _ => Nat.le_max_left _ _
  | _ :: _, .tail _ h => Nat.le_trans (length_le_columnCount h) (Nat.le_max_right _ _)

/-- Rows that are not stored are empty, so they may be counted as well. -/
theorem columnCount_le_iff (g : Grid) : g.columnCount ≤ width ↔ ∀ r, (g.row r).length ≤ width := by
  obtain ⟨rows⟩ := g
  induction rows with
  | nil => exact ⟨fun _ _ => Nat.zero_le _, fun _ => Nat.zero_le _⟩
  | cons row rows ih =>
      change max row.length (columnCount ⟨rows⟩) ≤ width ↔ _
      rw [Nat.max_le, ih]
      exact ⟨fun h r => r.casesOn h.1 h.2, fun h => ⟨h 0, fun r => h (r + 1)⟩⟩

/-- Whether this is the length of the longest row, or zero if there is none. -/
structure IsWidth (rows : List (List String)) (width : Nat) : Prop where
  length_le : ∀ row ∈ rows, row.length ≤ width
  reached : width = 0 ∨ ∃ row ∈ rows, row.length = width

theorem isWidth_columnCount (rows : List (List String)) : IsWidth rows (columnCount ⟨rows⟩) where
  length_le _ hrow := length_le_columnCount hrow
  reached := by
    induction rows with
    | nil => exact .inl rfl
    | cons row rows ih =>
        have hwidth : columnCount ⟨row :: rows⟩ = max row.length (columnCount ⟨rows⟩) := rfl
        rw [hwidth]
        rcases Nat.le_total (columnCount ⟨rows⟩) row.length with hle | hle
        · exact .inr ⟨row, List.mem_cons_self, (Nat.max_eq_left hle).symm⟩
        · rw [Nat.max_eq_right hle]
          exact ih.imp_right fun ⟨longest, hmem, hlongest⟩ => ⟨longest, List.mem_cons_of_mem _ hmem, hlongest⟩

/-! ### Writing a cell -/

/-- A write makes the row long enough before it puts the text there. -/
theorem row_set_self (g : Grid) (r c : Nat) (text : String) :
    (g.set r c text).row r = (g.row r ++ List.replicate (c + 1 - (g.row r).length) "").set c text := by
  let rows := g.rows ++ List.replicate (r + 1 - g.rows.length) ([] : List String)
  have hstored : r < rows.length := by
    rw [List.length_append, List.length_replicate]
    omega
  have hrow : rows[r] = g.row r := (List.getD_eq_getElem _ _ hstored).symm.trans (getD_append_replicate _ _ _ _)
  rw [row, set, List.getD_eq_getElem?_getD, List.getElem?_modify_eq, List.getElem?_eq_getElem hstored, hrow]
  rfl

theorem row_set_of_ne (g : Grid) (c : Nat) (text : String) (h : r' ≠ r) : (g.set r c text).row r' = g.row r' := by
  rw [row, set, List.getD_eq_getElem?_getD, List.getElem?_modify_ne _ _ (Ne.symm h), ← List.getD_eq_getElem?_getD]
  exact getD_append_replicate _ _ _ _

theorem rowCount_set (g : Grid) (r c : Nat) (text : String) : (g.set r c text).rowCount = max g.rowCount (r + 1) := by
  rw [rowCount, set]
  simp only [List.length_modify, List.length_append, List.length_replicate, rowCount]
  omega

theorem length_row_set_self (g : Grid) (r c : Nat) (text : String) :
    ((g.set r c text).row r).length = max (g.row r).length (c + 1) := by
  rw [row_set_self, List.length_set, List.length_append, List.length_replicate]
  omega

theorem columnCount_set (g : Grid) (r c : Nat) (text : String) :
    (g.set r c text).columnCount = max g.columnCount (c + 1) := by
  refine eq_of_forall_ge_iff fun width => ?_
  rw [columnCount_le_iff, Nat.max_le, columnCount_le_iff]
  constructor
  · intro h
    have hself := h r
    rw [length_row_set_self, Nat.max_le] at hself
    refine ⟨fun r' => ?_, hself.2⟩
    by_cases hrow : r' = r
    · exact hrow ▸ hself.1
    · exact row_set_of_ne g c text hrow ▸ h r'
  · rintro ⟨hrows, hc⟩ r'
    by_cases hrow : r' = r
    · rw [hrow, length_row_set_self]
      exact Nat.max_le.2 ⟨hrows r, hc⟩
    · rw [row_set_of_ne g c text hrow]
      exact hrows r'

theorem cell_set_self (g : Grid) (r c : Nat) (text : String) : (g.set r c text).cell r c = text := by
  have hlong : c < ((g.set r c text).row r).length := by
    rw [length_row_set_self]
    omega
  rw [cell, cellOf, List.getD_eq_getElem _ _ hlong]
  simp only [row_set_self, List.getElem_set_self]

theorem cell_set_of_ne (g : Grid) (text : String) (h : (r', c') ≠ (r, c)) :
    (g.set r c text).cell r' c' = g.cell r' c' := by
  rw [cell, cell]
  by_cases hrow : r' = r
  · have hcolumn : c ≠ c' := fun hc => h (Prod.ext hrow hc.symm)
    rw [hrow, row_set_self, cellOf, List.getD_eq_getElem?_getD, List.getElem?_set_ne hcolumn,
      ← List.getD_eq_getElem?_getD]
    exact getD_append_replicate _ _ _ _
  · rw [row_set_of_ne g c text hrow]

/-! ### Adding a row -/

theorem row_push_self (g : Grid) (cells : List String) : (g.push cells).row g.rowCount = cells := by
  rw [row, push, rowCount, List.getD_append_right _ _ _ _ (Nat.le_refl _), Nat.sub_self]
  rfl

theorem row_push_of_ne (g : Grid) (cells : List String) (h : r ≠ g.rowCount) : (g.push cells).row r = g.row r := by
  rcases Nat.lt_or_gt_of_ne h with hlt | hgt
  · exact List.getD_append _ _ _ _ hlt
  · rw [row_of_rowCount_le (Nat.le_of_lt hgt)]
    exact row_of_rowCount_le (Nat.le_trans (Nat.le_of_eq List.length_append) hgt)

theorem rowCount_push (g : Grid) (cells : List String) : (g.push cells).rowCount = g.rowCount + 1 :=
  List.length_append

theorem columnCount_push (g : Grid) (cells : List String) :
    (g.push cells).columnCount = max g.columnCount cells.length := by
  rw [push, columnCount_append]
  exact congrArg (max g.columnCount) (Nat.max_zero _)

end SheetCompiler.Grid

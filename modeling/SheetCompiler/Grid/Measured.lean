import SheetCompiler.Grid

/-!
# Measured grids

A grid that is built up cell by cell or row by row keeps its width beside its rows, so that they need not be
counted whenever the width is asked for. Whatever changes the grid changes the width with it.
-/

namespace SheetCompiler

/-- A grid and its width. -/
structure MeasuredGrid extends Grid where
  width : Nat := 0
  deriving DecidableEq, Repr, Inhabited

namespace MeasuredGrid

/-- The grid of these rows, which are counted once. -/
def ofRows (rows : List (List String)) : MeasuredGrid := ⟨⟨rows⟩, Grid.columnCount ⟨rows⟩⟩

def set (m : MeasuredGrid) (r c : Nat) (text : String) : MeasuredGrid :=
  ⟨m.toGrid.set r c text, max m.width (c + 1)⟩

def push (m : MeasuredGrid) (row : List String) : MeasuredGrid := ⟨m.toGrid.push row, max m.width row.length⟩

end MeasuredGrid

end SheetCompiler

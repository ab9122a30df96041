import SheetCompiler.Text.Blank

/-!
# Grids

A grid is what one sheet holds: rows of cell texts. Rows may differ in length; whatever lies outside
the stored rows reads as the empty text, and the width is that of the longest row.
-/

namespace SheetCompiler

/-- The cell texts of one sheet, row by row. -/
structure Grid where
  rows : List (List String) := []
  deriving DecidableEq, Repr, Inhabited

namespace Grid

def rowCount (g : Grid) : Nat := g.rows.length

def columnCount (g : Grid) : Nat := g.rows.foldr (fun row width => max row.length width) 0

/-- The text of a cell among the cells of its row. -/
def cellOf (row : List String) (column : Nat) : String := row.getD column ""

/-- The cells of a row, none where there is no such row. -/
def row (g : Grid) (r : Nat) : List String := g.rows.getD r []

def cell (g : Grid) (r c : Nat) : String := cellOf (g.row r) c

/-- Writes one cell; the grid grows to hold it. -/
def set (g : Grid) (r c : Nat) (text : String) : Grid :=
  let rows := g.rows ++ List.replicate (r + 1 - g.rows.length) []
  ⟨rows.modify r fun row => (row ++ List.replicate (c + 1 - row.length) "").set c text⟩

def push (g : Grid) (row : List String) : Grid := ⟨g.rows ++ [row]⟩

end Grid

end SheetCompiler

/-!
# Cell addresses

Cells are named as spreadsheets name them: letters for the column, then the number of the row,
counted from one. The letters are the bijective base-26 numeral of the column's number counted from
one, so that `Z` is followed by `AA`.
-/

namespace SheetCompiler.Address

def letter (n : Nat) : Char := Char.ofNat ('A'.toNat + n % 26)

def columnChars (column : Nat) : List Char :=
  if column < 26 then [letter column]
  else columnChars (column / 26 - 1) ++ [letter column]
termination_by column

/-- The letters of a column counted from zero. -/
def columnName (column : Nat) : String := String.ofList (columnChars column)

/-- The name of a cell, its row and its column counted from zero. -/
def cellName (row column : Nat) : String := columnName column ++ toString (row + 1)

end SheetCompiler.Address

import SheetCompiler.FileTree
import SheetCompiler.Grid.Measured
import SheetCompiler.Number.Hexadecimal
import SheetCompiler.Number.Shortest
import SheetCompiler.Workbook

/-!
# Spreadsheets

What a spreadsheet file stores in its cells, and the texts that the cells have in a grid. Numbers are
stored as decimal numerals and rewritten the way people write them, so that `7.0` is `7`. A cell whose
text is empty is not stored in the grid, which reaches only as far as the last cell that is.
-/

namespace SheetCompiler.Spreadsheet

/-- Undoes the way in which texts of cells spell characters that a document cannot hold: a code of four
hexadecimal digits behind `_x` and before `_`. -/
def unescapeChars : List Char → List Char
  | '_' :: 'x' :: a :: b :: c :: d :: '_' :: rest =>
      match Hexadecimal.character? 4 [a, b, c, d] with
      | some x => x :: unescapeChars rest
      | none => '_' :: unescapeChars ('x' :: a :: b :: c :: d :: '_' :: rest)
  | c :: rest => c :: unescapeChars rest
  | [] => []

def unescape (s : String) : String := .ofList (unescapeChars s.toList)

inductive Cell where
  | empty
  /-- A text, the text that a formula came to, or a date that is spelled out. -/
  | text (content : String)
  /-- A number, or a date as the number of its day, by its numeral. -/
  | number (numeral : String)
  | boolean (numeral : String)
  /-- What a formula came to that could not be evaluated. -/
  | fault (code : String)
  deriving DecidableEq, Repr

/-- The codes of the faults that a formula can come to. -/
def faultCodes : List String := ["#DIV/0!", "#N/A", "#NAME?", "#NULL!", "#NUM!", "#REF!", "#VALUE!"]

/-- Numbers with a fraction are written out in full, whatever their size. -/
def numberStyle : FloatStyle := ⟨false, none, "NaN"⟩

/-- Integers from here on are written as other numbers are. -/
def integerBound : Nat := 10 ^ 15

/-- The text of a number. Small integers lose the sign of zero. -/
def numberText (d : Double) : String :=
  match d.integer? with
  | some n => if n.natAbs < integerBound then toString n else numberStyle.writeDouble d
  | none => numberStyle.writeDouble d

/-- The text of a cell. A numeral that is none is kept as it is, and every boolean but `0` is true. -/
def Cell.toText : Cell → Except GridError String
  | .empty => .ok ""
  | .text content => .ok content
  | .number numeral => .ok (((Double.read? numeral.toList).map numberText).getD numeral)
  | .boolean numeral => .ok (if numeral == "0" then "false" else "true")
  | .fault code =>
      if faultCodes.contains code then .ok code
      else .error (.badSheet s!"Xlsx error: Unsupported cell error value '{code}'")

structure Placed where
  row : Nat
  column : Nat
  cell : Cell
  deriving DecidableEq, Repr

structure Sheet where
  name : String
  cells : List Placed
  deriving DecidableEq, Repr

/-- The cells of a row from a column on. -/
def placeRow (row column : Nat) (cells : List Cell) : List Placed :=
  cells.zipIdx.map fun (cell, i) => ⟨row, column + i, cell⟩

/-- A sheet that is filled row by row from a place on. -/
def Sheet.ofRows (name : String) (row column : Nat) (rows : List (List Cell)) : Sheet :=
  ⟨name, rows.zipIdx.flatMap fun (cells, i) => placeRow (row + i) column cells⟩

/-- Stores a cell in a grid if it has a text. -/
def store (m : MeasuredGrid) (placed : Placed) : Except GridError MeasuredGrid := do
  let text ← placed.cell.toText
  return if text.isEmpty then m else m.set placed.row placed.column text

/-- The grid of a sheet. One cell that has no text fails the whole sheet. -/
def Sheet.toGrid (s : Sheet) : Except GridError Grid := do
  return (← s.cells.foldlM store {}).toGrid

def toWorkbook (sheets : List Sheet) : Workbook := ⟨sheets.map fun s => (s.name, s.toGrid)⟩

/-- The extensions of files that hold workbooks in some other format. -/
def otherFormats : List String := ["xls", "xla", "xlsb", "ods"]

/-- The sheets of a workbook that was opened at a location. They are read from the file, so they can be
read only while it holds what it held then. -/
def source (location : Location) (content : Bytes) (sheets : List Sheet) : SheetSource where
  names := sheets.map (·.name)
  read tree name :=
    match (toWorkbook sheets).read name with
    | .error (.missingSheet name) => .error (.missingSheet name)
    | outcome =>
        if tree.node? location == some (.file content) then outcome
        else .error (.badSheet "Xlsx error: Zip error: i/o error: failed to fill whole buffer")

/-- Opens the workbook at a path. `decode` finds the sheets in the content of the file, or says why there
are none. The extension matters only where it stands for some other format. -/
def openWorkbook (decode : Bytes → Except String (List Sheet)) : WorkbookOpener := fun tree path => do
  if (Path.extension? path).any otherFormats.contains then
    .error (.unreadable path "the format of the file is not supported")
  let content ← (tree.read path).mapError fun e => .unreadable path e.message
  let location ← (tree.locate path).mapError fun e => .unreadable path e.message
  let sheets ← (decode content).mapError (.unreadable path)
  return source location content sheets

end SheetCompiler.Spreadsheet

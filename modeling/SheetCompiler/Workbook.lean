import SheetCompiler.FileTree
import SheetCompiler.Grid

/-!
# Workbooks

A workbook is a sequence of named sheets. Opening one can fail, and so can reading one of its sheets,
even though the others can be read. The sheets of an open file are read when they are asked for, and by
then the file may have been written over.
-/

namespace SheetCompiler

inductive GridError where
  | unreadable (path reason : String)
  | missingSheet (name : String)
  /-- A sheet that holds something its format does not allow. -/
  | badSheet (reason : String)
  deriving DecidableEq, Repr

def GridError.message : GridError → String
  | .unreadable path reason => s!"failed to open workbook {path}: {reason}"
  | .missingSheet name => s!"sheet `{name}` not found in workbook"
  | .badSheet reason => s!"calamine backend error: {reason}"

/-- Named sheets in their order, each read or failed. -/
structure Workbook where
  sheets : List (String × Except GridError Grid) := []

namespace Workbook

def names (w : Workbook) : List String := w.sheets.map (·.1)

def add (w : Workbook) (name : String) (grid : Grid) : Workbook := ⟨w.sheets ++ [(name, .ok grid)]⟩

/-- The grid of the first sheet with this name. -/
def read (w : Workbook) (name : String) : Except GridError Grid :=
  match w.sheets.find? (·.1 == name) with
  | some (_, sheet) => sheet
  | none => .error (.missingSheet name)

end Workbook

/-- Named sheets, each of which is read when it is asked for, with the files as they are then. -/
structure SheetSource where
  names : List String
  read : FileTree → String → Except GridError Grid

/-- The sheets of a workbook, whatever happens to the files. -/
def Workbook.source (w : Workbook) : SheetSource := ⟨w.names, fun _ => w.read⟩

/-- A way to open the workbook at a path. -/
abbrev WorkbookOpener := FileTree → String → Except GridError SheetSource

end SheetCompiler

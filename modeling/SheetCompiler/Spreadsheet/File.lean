import SheetCompiler.Archive.Zip
import SheetCompiler.Markup
import SheetCompiler.Spreadsheet

/-!
# Spreadsheet files

Reads the sheets of a workbook file: a zip archive of XML documents. One of them names the sheets and
points to a document for each, whose cells hold their values or the numbers of texts that are shared
among all sheets.
-/

namespace SheetCompiler.Spreadsheet

inductive FileFault where
  | zip (fault : Archive.ZipFault)
  | markup (name : String) (fault : MarkupFault)
  | missingNode (name : String)
  | missingAttribute (name : String)
  | badReference (text : String)
  deriving DecidableEq, Repr

def FileFault.message : FileFault → String
  | .zip fault => s!"Xlsx error: {fault.message}"
  | .markup name fault => s!"Xlsx error: Xml error: {name}: {fault.message}"
  | .missingNode name => s!"Xlsx error: Expecting '{name}' node"
  | .missingAttribute name => s!"Xlsx error: missing attribute '{name}'"
  | .badReference text => s!"Xlsx error: invalid cell reference '{text}'"

/-- The root element of a document of an archive. -/
def readDocument (z : Archive.Zip) (name : String) : Except FileFault Markup := do
  let text ← (z.readText name).mapError .zip
  (Markup.read text).mapError (.markup name)

/-- The document that a relation points to. Its target is told from the directory of the workbook, unless
it begins at the root. -/
def documentName (target : String) : String :=
  if target.startsWith "/" then String.ofList (target.toList.drop 1)
  else if target.startsWith "xl/" then target
  else "xl/" ++ target

/-- The texts below an element, without those that only tell how to pronounce them. -/
def richText : Nat → Markup → String
  | 0, _ => ""
  | depth + 1, m => String.join (m.children.map fun child =>
      if child.hasName "t" then unescape child.ownText
      else if child.hasName "r" then richText depth child
      else "")

/-- The texts that the cells share. -/
def sharedTexts (z : Archive.Zip) : Except FileFault (Array String) := do
  if !z.contains "xl/sharedStrings.xml" then return #[]
  return (((← readDocument z "xl/sharedStrings.xml").named "si").map (richText 2)).toArray

/-- The number of a column that letters name, counted from zero. -/
def columnOf? (letters : List Char) : Option Nat :=
  if letters.isEmpty || !letters.all fun c => 'A' ≤ c && c ≤ 'Z' then none
  else some (letters.foldl (fun n c => 26 * n + (c.toNat - 'A'.toNat + 1)) 0 - 1)

/-- The row and the column of a cell reference such as `B3`, counted from zero. -/
def place? (reference : String) : Option (Nat × Nat) := do
  let letters := reference.toList.takeWhile Char.isAlpha
  let digits := reference.toList.dropWhile Char.isAlpha
  let row ← Numeral.natural? digits
  if row = 0 then none
  return (row - 1, ← columnOf? (letters.map Char.toUpper))

/-- What a cell element stores. -/
def cellOf (shared : Array String) (c : Markup) : Except FileFault Cell :=
  let value := ((c.child? "v").map Markup.ownText)
  match (c.attribute? "t").getD "n", value with
  | "inlineStr", _ => .ok (((c.child? "is").map fun m => .text (richText 2 m)).getD .empty)
  | _, none => .ok .empty
  | "s", some text =>
      match (Numeral.natural? text.toList).bind (shared[·]?) with
      | some content => .ok (.text content)
      | none => .error (.badReference text)
  | "b", some text => .ok (.boolean text)
  | "e", some text => .ok (.fault text)
  | "n", some text => .ok (.number text)
  | _, some text => .ok (.text text)

/-- The cells of a row, each at the place that it names or behind the one before it. -/
def placeCells (shared : Array String) (row column : Nat) : List Markup → Except FileFault (List Placed)
  | [] => .ok []
  | c :: cells => do
      let (row, column) ← match c.attribute? "r" with
        | none => pure (row, column)
        | some reference =>
            match place? reference with
            | some place => pure place
            | none => .error (.badReference reference)
      let cell ← cellOf shared c
      return ⟨row, column, cell⟩ :: (← placeCells shared row (column + 1) cells)

/-- The cells of rows, each row being the one that it names or the one below the row before it. -/
def placeRows (shared : Array String) (row : Nat) : List Markup → Except FileFault (List Placed)
  | [] => .ok []
  | r :: rows => do
      let row := ((r.attribute? "r").bind fun n => Numeral.natural? n.toList).map (· - 1) |>.getD row
      let cells ← placeCells shared row 0 (r.named "c")
      return cells ++ (← placeRows shared (row + 1) rows)

def readSheet (z : Archive.Zip) (shared : Array String) (targets : List (String × String)) (sheet : Markup) :
    Except FileFault Sheet := do
  let some name := sheet.attribute? "name" | .error (.missingAttribute "name")
  let some id := sheet.attribute? "r:id" | .error (.missingAttribute "r:id")
  let some target := targets.lookup id | .error (.badReference id)
  let document ← readDocument z (documentName target)
  let rows := ((document.child? "sheetData").map (Markup.named "row")).getD []
  return ⟨name, ← placeRows shared 0 rows⟩

def ofArchive (z : Archive.Zip) : Except FileFault (List Sheet) := do
  let workbook ← readDocument z "xl/workbook.xml"
  let some sheets := workbook.child? "sheets" | .error (.missingNode "sheets")
  let relations ← readDocument z "xl/_rels/workbook.xml.rels"
  let targets := (relations.named "Relationship").filterMap fun r => do
    return (← r.attribute? "Id", ← r.attribute? "Target")
  let shared ← sharedTexts z
  (sheets.named "sheet").mapM (readSheet z shared targets)

def decode (content : Bytes) : Except String (List Sheet) := do
  let z ← (Archive.Zip.ofBytes ⟨content.toArray⟩).mapError fun e => (FileFault.zip e).message
  (ofArchive z).mapError FileFault.message

end SheetCompiler.Spreadsheet

import SheetCompiler.Layout
import SheetCompiler.Scopes
import SheetCompiler.SheetError
import SheetCompiler.TextFormat
import SheetCompiler.Wire.Encode

/-!
# Reading rows

The second pass walks the layout of a sheet once for every data row and fills a record. It keeps its
own column and its own numbers, and holds every field it comes to against the message type that it is
given: a type that was made for another header is noticed by the number or the name of a field.

A repetition reads as many copies as its count says and passes over the columns of the others. A
repetition of structs that is empty still walks its first copy, which keeps its columns checked, and
then drops what it has read.
-/

namespace SheetCompiler

/-- Applies a step that can fail `n` times. -/
def iterateM {σ ε : Type} (step : σ → Except ε σ) : Nat → σ → Except ε σ
  | 0, s => .ok s
  | n + 1, s => do iterateM step n (← step s)

namespace Row

/-- A data row and what it is read with. -/
structure Source where
  /-- The index of the row in its sheet, which errors name. -/
  index : Nat
  cells : List String
  enums : EnumTable

def Source.cell (row : Source) (column : Nat) : String := Grid.cellOf row.cells column

def Source.cellName (row : Source) (column : Nat) : String := Address.cellName row.index column

/-- How far the walk has come: the column it stands in, the scopes around it, and the record of the
current message. -/
structure Walk where
  column : Nat := 0
  scopes : Scopes := {}
  record : Record := .empty

namespace Walk

def skip (w : Walk) (columns : Nat) : Walk := { w with column := w.column + columns }

/-- Adds a value that may be missing to a list. -/
def append (w : Walk) (number : Nat) (v : Option Value) : Walk :=
  match v with
  | some v => { w with record := w.record.append number v }
  | none => w

def set (w : Walk) (number : Nat) (v : Option Value) : Walk :=
  match v with
  | some v => { w with record := w.record.set number v }
  | none => w

/-- Enters a struct with the record that is to be filled, past the column that opens it. -/
def enter (w : Walk) (sub : Record) : Walk := ⟨w.column + 1, w.scopes.push, sub⟩

/-- Leaves a struct, which `inner` has walked, and puts what it has read into the record. -/
def leave (w inner : Walk) (put : Record → Record → Record) : Walk :=
  ⟨inner.column, inner.scopes.pop, put w.record inner.record⟩

end Walk

/-- The field of a type that has the current number; it has to have the name as well. -/
def bound (type : Message) (w : Walk) (name : String) : Except SheetError Field :=
  match (type.field? w.scopes.number).filter (·.name == name) with
  | some field => .ok field
  | none => .error (.mismatch ⟨type.name, w.scopes.number, name⟩)

/-- The type of the messages in the field of a type that has the current number. -/
def boundMessage (type : Message) (w : Walk) (name : String) : Except SheetError Message := do
  match (← bound type w name).message? with
  | some nested => .ok nested
  | none => .error (.mismatch ⟨type.name, w.scopes.number, name⟩)

def convert (row : Source) (column : Nat) (type : ValueType) (default? : Option String) (text : String) :
    Except SheetError (Option Value) :=
  (Conversion.convert type default? row.enums text).mapError (.conversion (row.cellName column))

/-- Converts the texts joined in the current cell, and adds each value to the list. -/
def readInline (row : Source) (type : ValueType) (number : Nat) (w : Walk) :
    List String → Except SheetError Walk
  | [] => .ok w
  | token :: tokens => do
      let v ← convert row w.column type none token
      readInline row type number (w.append number v) tokens

/-- Converts the cells of `count` columns from the current one on, and adds each value to the list. -/
def readCopies (row : Source) (type : ValueType) (number count : Nat) (w : Walk) : Except SheetError Walk :=
  iterateM (fun w => do
    let v ← convert row w.column type none (row.cell w.column)
    return (w.append number v).skip 1) count w

/-- The count in the current cell, at most `max`. -/
def readCount (row : Source) (max : Nat) (w : Walk) : Except SheetError Nat := do
  let count ← (Conversion.count (row.cell w.column)).mapError (.conversion (row.cellName w.column))
  return min count max

mutual

def read (row : Source) (type : Message) (w : Walk) : Node → Except SheetError Walk
  | .skip _ => .ok (w.skip 1)
  | .value field _ => do
      let _ ← bound type w field.name
      let v ← convert row w.column field.type field.default? (row.cell w.column)
      return { (w.set w.scopes.number v).skip 1 with scopes := w.scopes.advance }
  | .inline field => do
      let _ ← bound type w field.name
      let w ← readInline row field.type w.scopes.number w (Conversion.splitInline (row.cell w.column))
      return { w.skip 1 with scopes := w.scopes.advance }
  | .values _ max field _ => do
      let count ← readCount row max w
      let w := w.skip 1
      let _ ← bound type w field.name
      let w ← readCopies row field.type w.scopes.number count w
      return { w.skip (max - count) with scopes := w.scopes.advance }
  | .struct head members => do
      let number := w.scopes.number
      let nested ← boundMessage type w head.name
      let w := { w with scopes := w.scopes.advance }
      let inner ← readAll row nested (w.enter (w.record.message number)) members
      return w.leave inner fun record sub =>
        if !head.required && sub.isEmpty then record.clear number else record.set number (.message sub)
  | .structs countColumn max head members => do
      let count ← readCount row max w
      let w := w.skip 1
      let number := w.scopes.number
      let nested ← boundMessage type w head.name
      if count = 0 ∧ head.required then
        throw (.missingRepeat (row.cellName countColumn) head.name)
      let w := { w with scopes := w.scopes.advance }
      let used := Nat.max count 1
      let w ← iterateM (fun w => do
        let inner ← readAll row nested (w.enter .empty) members
        return w.leave inner fun record sub => record.append number (.message sub)) used w
      let w := if count = 0 then { w with record := w.record.dropLast number } else w
      return w.skip ((max - used) * (1 + Node.spans members))

def readAll (row : Source) (type : Message) (w : Walk) : List Node → Except SheetError Walk
  | [] => .ok w
  | node :: nodes => do readAll row type (← read row type w node) nodes

end

def toRecord (row : Source) (layout : Layout) (type : Message) : Except SheetError Record := do
  let w ← readAll row type {} layout.nodes
  if w.column ≠ layout.span then
    throw (.alignment .encode layout.span w.column)
  return w.record

end Row

structure EncodedSheet where
  /-- The message type that holds the list of records. -/
  type : Message
  records : List Record
  /-- The list in the wire format. -/
  binary : Bytes
  /-- The list in the text format. -/
  text : String
  rowsSkipped : Nat

namespace EncodedSheet

def rowsEncoded (s : EncodedSheet) : Nat := s.records.length

/-- The first enum type of the layout that the table does not know is an error. -/
def checkEnums (enums : EnumTable) : List (Nat × String) → Except SheetError Unit
  | [] => .ok ()
  | (column, name) :: rest =>
      if enums.contains name then checkEnums enums rest else .error (.unknownEnum column name)

/-- The records of data rows, the first of which has the index `index`, and the number of rows that
are left out because they are blank in the column `id`. -/
def readRows (layout : Layout) (type : Message) (enums : EnumTable) (id index : Nat) :
    List (List String) → Except SheetError (List Record × Nat)
  | [] => .ok ([], 0)
  | cells :: rows =>
      if Text.isBlank (Grid.cellOf cells id) then do
        let (records, skipped) ← readRows layout type enums id (index + 1) rows
        return (records, skipped + 1)
      else do
        let record ← Row.toRecord ⟨index, cells, enums⟩ layout type
        let (records, skipped) ← readRows layout type enums id (index + 1) rows
        return (record :: records, skipped)

/-- Reads the data rows of a grid as records of a type, and writes them in both formats. -/
def ofGrid (g : Grid) (type : Message) (enums : EnumTable) : Except SheetError EncodedSheet := do
  let header := Header.ofGrid g
  let layout ← (Layout.ofHeader header).mapError .malformed
  checkEnums enums layout.enums
  let (records, rowsSkipped) ← match header.idColumn? with
    | some id => readRows layout type enums id Header.height (g.rows.drop Header.height)
    | none => pure ([], 0)
  let array := Record.wrap records
  let binary ← (array.encode type.arrayOf).mapError .mismatch
  let text ← (array.toText type.arrayOf enums).mapError .mismatch
  return ⟨type.arrayOf, records, binary, text, rowsSkipped⟩

end EncodedSheet

end SheetCompiler

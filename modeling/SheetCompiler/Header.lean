import SheetCompiler.Grid
import SheetCompiler.Grid.Address
import SheetCompiler.Number.Whole
import SheetCompiler.ValueType

/-!
# Headers

The first three rows of a sheet describe its columns: a comment, a type and a name for each. The type
cell decides what a column is. A word for a type, alone or after `required` or `optional`, makes it a
field; a type followed by `[]` a list within one cell; a number followed by `[]` the count of a
repetition of what stands to its right; and `required_struct` or `optional_struct` with a number opens
a struct of that many members, whose type name is in the name cell and whose field name is in the
comment cell. A blank type cell leaves the column out.

Columns are read one at a time and on demand, so that the columns reserved for further copies of a
repetition need no header of their own.
-/

namespace SheetCompiler

/-- The names that a header has to give. -/
inductive NameRole where
  | field
  | structType
  | structField
  deriving DecidableEq, Repr

def NameRole.label : NameRole → String
  | .field => "field name"
  | .structType => "struct type name"
  | .structField => "struct field name"

inductive HeaderFault where
  | unknownRule (word : String)
  | ruleOnRepetition
  | unknownType (word : String)
  | unknownElementType (word : String)
  | repeatMaximum
  | structSize
  | missingName (role : NameRole)
  | badName (role : NameRole)
  | countWithoutField
  | notRepeatable
  | copiesDoNotFit (max span : Nat)
  | tooFewColumns (typeName : String) (declared remaining : Nat)
  | membersCutShort (typeName : String) (declared found : Nat)
  | conflictingStruct (typeName : String)
  deriving DecidableEq, Repr

def HeaderFault.message : HeaderFault → String
  | .unknownRule word => s!"unrecognized rule token `{word}`"
  | .ruleOnRepetition => "repetition markers cannot carry a rule"
  | .unknownType word => s!"unknown field type `{word}`"
  | .unknownElementType word => s!"unknown repeated type `{word}`"
  | .repeatMaximum => "maximum repeat count must be a positive integer"
  | .structSize => "struct element count must be a positive integer"
  | .missingName role => s!"missing {role.label}"
  | .badName role => s!"{role.label} is not a valid identifier"
  | .countWithoutField => "repetition count is not followed by a field"
  | .notRepeatable => "only scalar and struct fields can follow a repetition count"
  | .copiesDoNotFit max span => s!"{max} repeated copies of a {span}-column field do not fit in the sheet"
  | .tooFewColumns typeName declared remaining =>
      s!"struct `{typeName}` declares {declared} members but only {remaining} columns follow"
  | .membersCutShort typeName declared found =>
      s!"struct `{typeName}` declares {declared} members but the sheet ends after {found}"
  | .conflictingStruct typeName =>
      s!"message `{typeName}` is already declared in this scope with different fields"

/-- A fault in the header of a column, with the text it was found in. -/
structure Malformed where
  column : Nat
  token : String
  fault : HeaderFault
  deriving DecidableEq, Repr

def Malformed.message (m : Malformed) : String :=
  s!"malformed header in column {Address.columnName m.column}: `{m.token}` ({m.fault.message})"

/-- The three header cells of a column. -/
structure Heading where
  comment : String := ""
  type : String := ""
  name : String := ""
  deriving DecidableEq, Repr, Inhabited

/-- The type cell without the blanks around it. -/
def Heading.token (h : Heading) : String := Text.trim h.type

structure Header where
  columns : List Heading
  deriving DecidableEq, Repr

namespace Header

/-- Rows above the data. -/
def height : Nat := 3

def ofGrid (g : Grid) : Header :=
  let comments := g.row 0
  let types := g.row 1
  let names := g.row 2
  ⟨(List.range g.columnCount).map fun c =>
    ⟨Grid.cellOf comments c, Grid.cellOf types c, Grid.cellOf names c⟩⟩

def columnCount (h : Header) : Nat := h.columns.length

/-- The heading of a column, a blank one past the edge of the sheet. -/
def heading (h : Header) (column : Nat) : Heading := h.columns.getD column {}

/-- The first column that has a type. A data row that is blank there is left out. -/
def idColumn? (h : Header) : Option Nat := h.columns.findIdx? fun heading => !Text.isBlank heading.type

/-- Whether a word of some type cell begins as the name of an enum type does. -/
def mentionsEnums (h : Header) : Bool :=
  h.columns.any fun heading =>
    (Text.words heading.type).any fun word => ValueType.enumMark.toList.isPrefixOf word.toList

end Header

structure ValueColumn where
  column : Nat
  name : String
  type : ValueType
  default? : Option String
  comment : String
  deriving DecidableEq, Repr

/-- A column that opens a struct. -/
structure StructColumn where
  column : Nat
  /-- The field that holds the struct. -/
  name : String
  typeName : String
  required : Bool
  deriving DecidableEq, Repr

/-- What the heading of one column says. -/
inductive Descriptor where
  | skip (name comment : String)
  | value (field : ValueColumn) (optional : Bool)
  | inline (field : ValueColumn)
  | count (max : Nat) (comment : String)
  | struct (head : StructColumn) (members : Nat)
  deriving DecidableEq, Repr

namespace Descriptor

/-- Whether a word ends in the mark of a repetition, `[]`. -/
def isRepeated (word : String) : Bool :=
  match word.toList.reverse with
  | ']' :: '[' :: _ => true
  | _ => false

/-- Takes every mark of a repetition off the end of a reversed word. -/
def dropMarks : List Char → List Char
  | ']' :: '[' :: rest => dropMarks rest
  | s => s

/-- What stands in front of the marks of a repetition. -/
def element (word : String) : String := String.ofList (dropMarks word.toList.reverse).reverse

/-- An identifier, as the name that `role` asks for. -/
def readName (column : Nat) (role : NameRole) (text : String) : Except Malformed String :=
  if Text.isIdentifier text then .ok text
  else .error ⟨column, text, if text.isEmpty then .missingName role else .badName role⟩

/-- The name cell of a field: a name, and a default after the first `=` if there is one. -/
def readNameCell (column : Nat) (cell : String) : Except Malformed (String × Option String) :=
  let name := cell.toList.takeWhile (· != '=')
  match cell.toList.dropWhile (· != '=') with
  | [] => return (← readName column .field cell, none)
  | _ :: default =>
      return (← readName column .field (Text.trim (String.ofList name)),
        some (Text.trim (String.ofList default)))

/-- A word for a type that no mark of a repetition follows. -/
def readType (column : Nat) (token word : String) : Except Malformed ValueType :=
  if isRepeated word then .error ⟨column, token, .ruleOnRepetition⟩
  else match ValueType.read? word with
    | some type => .ok type
    | none => .error ⟨column, token, .unknownType word⟩

def readField (column : Nat) (heading : Heading) (type : ValueType) : Except Malformed ValueColumn := do
  let (name, default?) ← readNameCell column (Text.trim heading.name)
  return ⟨column, name, type, default?, heading.comment⟩

/-- A word that ends in the mark of a repetition: a count if it begins with a digit, a list otherwise. -/
def readRepeated (column : Nat) (heading : Heading) (word : String) : Except Malformed Descriptor :=
  let inner := element word
  if (inner.toList.head?.any Text.isDigit) then
    match Whole.count? inner with
    | some (max + 1) => .ok (.count (max + 1) heading.comment)
    | _ => .error ⟨column, heading.token, .repeatMaximum⟩
  else match ValueType.read? inner with
    | some type => return .inline (← readField column heading type)
    | none => .error ⟨column, heading.token, .unknownElementType inner⟩

/-- The column that opens a struct of as many members as `size` says. -/
def readStruct (column : Nat) (heading : Heading) (required : Bool) (size : String) :
    Except Malformed Descriptor :=
  match Whole.count? size with
  | some (members + 1) => do
      let typeName ← readName column .structType (Text.trim heading.name)
      let name ← readName column .structField (Text.trim heading.comment)
      return .struct ⟨column, name, typeName, required⟩ (members + 1)
  | _ => .error ⟨column, heading.token, .structSize⟩

def read (column : Nat) (heading : Heading) : Except Malformed Descriptor := do
  let token := heading.token
  match Text.words token with
  | [] => return .skip (Text.trim heading.name) heading.comment
  | [word] =>
      if isRepeated word then readRepeated column heading word
      else return .value (← readField column heading (← readType column token word)) false
  | ["required", word] => return .value (← readField column heading (← readType column token word)) false
  | ["optional", word] => return .value (← readField column heading (← readType column token word)) true
  | ["required_struct", size] => readStruct column heading true size
  | ["optional_struct", size] => readStruct column heading false size
  | word :: _ => .error ⟨column, token, .unknownRule word⟩

end Descriptor

/-- A column of a header that has been read. Whether reading it failed matters only to what needs the
column, so the failure is kept with it. -/
structure Column where
  index : Nat
  token : String
  descriptor : Except Malformed Descriptor

def Column.malformed (c : Column) (fault : HeaderFault) : Malformed := ⟨c.index, c.token, fault⟩

def Heading.read (heading : Heading) (index : Nat) : Column :=
  ⟨index, heading.token, Descriptor.read index heading⟩

def Header.read (h : Header) : List Column := h.columns.mapIdx fun index heading => heading.read index

end SheetCompiler

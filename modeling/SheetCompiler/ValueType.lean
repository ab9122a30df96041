import SheetCompiler.Text.Identifier

/-!
# Value types

The types a column can have: the fifteen scalar types of the schema language, or an enum type, which
a header writes as `enum-` and the name of the enum.
-/

namespace SheetCompiler

inductive ScalarKind where
  | int32 | int64 | uint32 | uint64 | sint32 | sint64
  | fixed32 | fixed64 | sfixed32 | sfixed64
  | double | float | bool | string | bytes
  deriving DecidableEq, Repr

namespace ScalarKind

def all : List ScalarKind :=
  [.int32, .int64, .uint32, .uint64, .sint32, .sint64, .fixed32, .fixed64, .sfixed32, .sfixed64,
    .double, .float, .bool, .string, .bytes]

/-- The keyword of the schema language. -/
def name : ScalarKind → String
  | .int32 => "int32"
  | .int64 => "int64"
  | .uint32 => "uint32"
  | .uint64 => "uint64"
  | .sint32 => "sint32"
  | .sint64 => "sint64"
  | .fixed32 => "fixed32"
  | .fixed64 => "fixed64"
  | .sfixed32 => "sfixed32"
  | .sfixed64 => "sfixed64"
  | .double => "double"
  | .float => "float"
  | .bool => "bool"
  | .string => "string"
  | .bytes => "bytes"

/-- The scalar type with this keyword. -/
def ofName? (word : String) : Option ScalarKind := all.find? (·.name == word)

def isSigned : ScalarKind → Bool
  | .int32 | .int64 | .sint32 | .sint64 | .sfixed32 | .sfixed64 => true
  | _ => false

def isUnsigned : ScalarKind → Bool
  | .uint32 | .uint64 | .fixed32 | .fixed64 => true
  | _ => false

def isFloating : ScalarKind → Bool
  | .double | .float => true
  | _ => false

end ScalarKind

inductive ValueType where
  | scalar (kind : ScalarKind)
  | enum (name : String)
  deriving DecidableEq, Repr

namespace ValueType

/-- What stands in front of the name of an enum in a header. -/
def enumMark : String := "enum-"

/-- The type that a word of a type cell names. -/
def read? (word : String) : Option ValueType :=
  match enumMark.toList.isPrefixOf word.toList with
  | true =>
      let name := String.ofList (word.toList.drop enumMark.length)
      if Text.isIdentifier name then some (.enum name) else none
  | false => (ScalarKind.ofName? word).map .scalar

/-- The word that names the type in a header. -/
def word : ValueType → String
  | .scalar kind => kind.name
  | .enum name => enumMark ++ name

/-- The name of the type in a schema. -/
def schemaName : ValueType → String
  | .scalar kind => kind.name
  | .enum name => name

def enumName? : ValueType → Option String
  | .scalar _ => none
  | .enum name => some name

end ValueType

end SheetCompiler

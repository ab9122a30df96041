import SheetCompiler.EnumTable
import SheetCompiler.Number.Whole
import SheetCompiler.Record

/-!
# Conversion of cells

A cell text becomes a value of its column's type, or no value where it is blank. A default stands in
for a blank cell. What a type cannot read is an error, except for enums: a name that is no member of
the enum is no value.
-/

namespace SheetCompiler

/-- What a cell is read as. -/
inductive CellTarget where
  | scalar (kind : ScalarKind)
  | repeatCount
  deriving DecidableEq, Repr

def CellTarget.name : CellTarget → String
  | .scalar kind => kind.name
  | .repeatCount => "repeat count"

inductive ConversionReason where
  | notBoolean
  | notNumber
  | notUnsigned
  | notInteger
  | outOfRange
  | notCount
  deriving DecidableEq, Repr

def ConversionReason.message : ConversionReason → String
  | .notBoolean => "expected true, false, 1 or 0"
  | .notNumber => "not a number"
  | .notUnsigned => "not an unsigned integer"
  | .notInteger => "not an integer"
  | .outOfRange => "out of range for 32 bits"
  | .notCount => "not a non-negative integer"

structure ConversionFault where
  target : CellTarget
  text : String
  reason : ConversionReason
  deriving DecidableEq, Repr

def ConversionFault.message (cell : String) (fault : ConversionFault) : String :=
  s!"cannot convert cell {cell} `{fault.text}` to {fault.target.name}: {fault.reason.message}"

namespace Conversion

/-- Whether a text stands for no value. A string does only if it has no characters at all. -/
def isBlank (type : ValueType) (text : String) : Bool :=
  match type with
  | .scalar .string => text.isEmpty
  | _ => Text.isBlank text

/-- The truth value of a word in any case, or of a digit. -/
def boolean? (text : String) : Option Bool :=
  match String.ofList ((Text.trimChars text.toList).map Char.toLower) with
  | "true" | "1" => some true
  | "false" | "0" => some false
  | _ => none

def signed32 (text : String) : Except ConversionReason Value :=
  match Whole.signed? text with
  | none => .error .notInteger
  | some n => if -2 ^ 31 ≤ n ∧ n < 2 ^ 31 then .ok (.int (Int64.ofInt n)) else .error .outOfRange

def signed64 (text : String) : Except ConversionReason Value :=
  match Whole.signed? text with
  | none => .error .notInteger
  | some n => .ok (.int (Int64.ofInt n))

def unsigned32 (text : String) : Except ConversionReason Value :=
  match Whole.unsigned? text with
  | none => .error .notUnsigned
  | some n => if n < 2 ^ 32 then .ok (.uint (UInt64.ofNat n)) else .error .outOfRange

def unsigned64 (text : String) : Except ConversionReason Value :=
  match Whole.unsigned? text with
  | none => .error .notUnsigned
  | some n => .ok (.uint (UInt64.ofNat n))

/-- Reads a text as a scalar. Strings and byte strings take it as it is. -/
def scalar (kind : ScalarKind) (text : String) : Except ConversionReason Value :=
  match kind with
  | .string => .ok (.string text)
  | .bytes => .ok (.bytes (Text.Utf8.encode text))
  | .bool => match boolean? text with
    | some b => .ok (.bool b)
    | none => .error .notBoolean
  | .double => match Double.read? (Text.trimChars text.toList) with
    | some d => .ok (.float d)
    | none => .error .notNumber
  | .float => match Single.read? (Text.trimChars text.toList) with
    | some s => .ok (.float s.toDouble)
    | none => .error .notNumber
  | .uint32 | .fixed32 => unsigned32 text
  | .uint64 | .fixed64 => unsigned64 text
  | .int32 | .sint32 | .sfixed32 => signed32 text
  | .int64 | .sint64 | .sfixed64 => signed64 text

/-- The text that a cell is converted from: the default where the cell is blank. -/
def effective (type : ValueType) (default? : Option String) (text : String) : String :=
  match default? with
  | some default => if isBlank type text then default else text
  | none => text

def convert (type : ValueType) (default? : Option String) (enums : EnumTable) (text : String) :
    Except ConversionFault (Option Value) :=
  let text := effective type default? text
  if isBlank type text then .ok none
  else match type with
    | .scalar kind => match scalar kind text with
      | .ok v => .ok (some v)
      | .error reason => .error ⟨.scalar kind, text, reason⟩
    | .enum name => .ok ((enums.number? name (Text.trim text)).map .enum)

/-- The values joined in one cell: between semicolons if it has one, else between bars. What is empty
is left out. -/
def splitInline (text : String) : List String :=
  let delimiter := if text.toList.contains ';' then ';' else '|'
  ((Text.split (· == delimiter) text.toList).filter (!·.isEmpty)).map String.ofList

/-- Reads the count of a repetition; a blank one is zero. -/
def count (text : String) : Except ConversionFault Nat :=
  if Text.isBlank text then .ok 0
  else match Whole.count? text with
    | some n => .ok n
    | none => .error ⟨.repeatCount, text, .notCount⟩

end Conversion

end SheetCompiler

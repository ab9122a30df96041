import SheetCompiler.EnumTable
import SheetCompiler.Number.Shortest
import SheetCompiler.Record
import SheetCompiler.Text.Escape

/-!
# The text format

A record is written for people, a line to each value: the name of the field, and the value; messages
stand between braces, indented by two blanks a level. The same fields are left out as in the wire
format. Members of enums are written by name where the table knows one.
-/

namespace SheetCompiler

namespace TextFormat

/-- Numbers keep a fraction even when it is zero, and go over to an exponent from `1e16` up and below
`1e-4`. -/
def number : FloatStyle := ⟨true, some (-4, 16), "nan"⟩

/-- Not-a-number has no sign in this format. -/
def double (d : Double) : String := number.writeDouble d

def single (s : Single) : String := number.writeSingle s

/-- The text of a value that is not between braces. A message can stand here only if its field holds
no messages. -/
def value (kind : FieldKind) (enums : EnumTable) : Value → String
  | .int v => toString v.toInt
  | .uint v => toString v.toNat
  | .float v => match kind with
    | .value (.scalar .float) => single v.toSingle
    | _ => double v
  | .bool v => if v then "true" else "false"
  | .string v => "\"" ++ String.ofList (Text.Escape.string v.toList) ++ "\""
  | .bytes v => "\"" ++ String.ofList (Text.Escape.bytes v) ++ "\""
  | .enum v => match kind with
    | .value (.enum name) => (enums.member? name v).getD (toString v.toInt)
    | _ => toString v.toInt
  | .message _ => "\x7b \x7d"

def line (depth : Nat) (text : String) : String :=
  String.ofList (List.replicate (2 * depth) ' ') ++ text

/-- Whether a field of a record is left out: it holds the default, and its presence says nothing. -/
def omits (field : Field) : Content → Bool
  | .single v => field.label == .implicit && v.isDefault
  | .list _ => false

end TextFormat

mutual

/-- The lines of a record of a type. -/
def Record.lines (type : Message) (enums : EnumTable) (depth : Nat) : Record → Except Mismatch (List String)
  | ⟨entries⟩ => Content.linesAll type enums depth entries

def Content.linesAll (type : Message) (enums : EnumTable) (depth : Nat) :
    List (Nat × Content) → Except Mismatch (List String)
  | [] => .ok []
  | (number, content) :: rest =>
      match type.field? number with
      | none => .error ⟨type.name, number, "<unbound>"⟩
      | some field => do
          let lines ← if TextFormat.omits field content then pure []
            else Content.lines field enums depth content
          return lines ++ (← Content.linesAll type enums depth rest)

/-- The lines of what a record holds for one field. -/
def Content.lines (field : Field) (enums : EnumTable) (depth : Nat) :
    Content → Except Mismatch (List String)
  | .single v => Value.lines field enums depth v
  | .list vs => Value.linesAll field enums depth vs

def Value.lines (field : Field) (enums : EnumTable) (depth : Nat) :
    Value → Except Mismatch (List String)
  | .message r =>
      match field.kind with
      | .message nested => do
          let inner ← Record.lines nested enums (depth + 1) r
          return TextFormat.line depth (field.name ++ " \x7b") :: inner ++ [TextFormat.line depth "\x7d"]
      | kind => .ok [TextFormat.line depth
          (field.name ++ ": " ++ TextFormat.value kind enums (.message r))]
  | v => .ok [TextFormat.line depth (field.name ++ ": " ++ TextFormat.value field.kind enums v)]

def Value.linesAll (field : Field) (enums : EnumTable) (depth : Nat) :
    List Value → Except Mismatch (List String)
  | [] => .ok []
  | v :: vs => do
      let lines ← Value.lines field enums depth v
      return lines ++ (← Value.linesAll field enums depth vs)

end

namespace Text

/-- A text of lines, each of them ended. -/
def unlines (lines : List String) : String := String.join (lines.map (· ++ "\n"))

end Text

def Record.toText (type : Message) (enums : EnumTable) (r : Record) : Except Mismatch String := do
  return Text.unlines (← Record.lines type enums 0 r)

end SheetCompiler

import SheetCompiler.ValueType

/-!
# Message types

A message type says which fields a record may have: their numbers, names, labels and kinds. It is
what the schema pass finds out about a sheet, and all that the wire format, the text format and the
reading of rows need to know of the schema. Message types nest, since a field can hold a message.

Fields keep the order in which they were declared. A look-up answers with the first match, so a type
with two fields of one number is legal and its later field is out of reach.
-/

namespace SheetCompiler

/-- How often a field occurs, and what its absence means. -/
inductive Label where
  /-- At most once; the default of its type is as good as absent. -/
  | implicit
  /-- At most once, and told apart from its default. -/
  | optional
  /-- Any number of times. -/
  | repeated
  deriving DecidableEq, Repr

mutual

inductive FieldKind where
  | value (type : ValueType)
  | message (type : Message)

structure Field where
  number : Nat
  name : String
  label : Label
  kind : FieldKind

structure Message where
  name : String
  fields : List Field

end

mutual

def FieldKind.decEq : (a b : FieldKind) → Decidable (a = b)
  | .value a, .value b => decidable_of_iff (a = b) (by simp)
  | .message a, .message b =>
      have := Message.decEq a b
      decidable_of_iff (a = b) (by simp)
  | .value _, .message _ | .message _, .value _ => isFalse nofun

def Field.decEq : (a b : Field) → Decidable (a = b)
  | ⟨number, name, label, kind⟩, ⟨number', name', label', kind'⟩ =>
      have := FieldKind.decEq kind kind'
      decidable_of_iff (number = number' ∧ name = name' ∧ label = label' ∧ kind = kind') (by simp)

def Field.decEqList : (a b : List Field) → Decidable (a = b)
  | [], [] => isTrue rfl
  | [], _ :: _ | _ :: _, [] => isFalse nofun
  | a :: as, b :: bs =>
      have := Field.decEq a b
      have := Field.decEqList as bs
      decidable_of_iff (a = b ∧ as = bs) (by simp)

def Message.decEq : (a b : Message) → Decidable (a = b)
  | ⟨name, fields⟩, ⟨name', fields'⟩ =>
      have := Field.decEqList fields fields'
      decidable_of_iff (name = name' ∧ fields = fields') (by simp)

end

instance : DecidableEq FieldKind := FieldKind.decEq
instance : DecidableEq Field := Field.decEq
instance : DecidableEq Message := Message.decEq

def FieldKind.typeName : FieldKind → String
  | .value type => type.schemaName
  | .message type => type.name

namespace Field

def isRepeated (f : Field) : Bool := f.label == .repeated

/-- The type of the messages that the field holds. -/
def message? (f : Field) : Option Message :=
  match f.kind with
  | .message type => some type
  | _ => none

end Field

namespace Message

/-- The first field with this number. -/
def field? (m : Message) (number : Nat) : Option Field := m.fields.find? (·.number == number)

/-- The first field with this name. -/
def fieldNamed? (m : Message) (name : String) : Option Field := m.fields.find? (·.name == name)

def arrayName (name : String) : String := name ++ "_array"

/-- The field of an array type that holds the messages. -/
def itemsName : String := "items"

def arrayOf (m : Message) : Message :=
  ⟨arrayName m.name, [⟨1, itemsName, .repeated, .message m⟩]⟩

end Message

/-- A field that a message type does not have, or a value that does not suit its field. -/
structure Mismatch where
  message : String
  number : Nat
  name : String
  deriving DecidableEq, Repr

def Mismatch.text (m : Mismatch) : String :=
  s!"field #{m.number} `{m.name}` has no matching binding in message `{m.message}`"

end SheetCompiler

import SheetCompiler.Message
import SheetCompiler.Number.Double
import SheetCompiler.Text.Utf8

/-!
# Records

A record is an instance of a message: what it holds for each field number, in ascending order of the
numbers. A field holds a single value or a list, and a value may be a record again. Records know
nothing of message types, so a record can hold what no type allows; the formats that write records
check it against a type.
-/

namespace SheetCompiler

mutual

inductive Value where
  | int (value : Int64)
  | uint (value : UInt64)
  | float (value : Double)
  | bool (value : Bool)
  | string (value : String)
  | bytes (value : Bytes)
  | enum (value : Int32)
  | message (value : Record)

/-- What a record holds for one field. -/
inductive Content where
  | single (value : Value)
  | list (values : List Value)

structure Record where
  entries : List (Nat × Content)

end

namespace Value

/-- The integer of a signed or an enum value. -/
def signed? : Value → Option Int
  | .int v => some v.toInt
  | .enum v => some v.toInt
  | _ => none

def unsigned? : Value → Option UInt64
  | .uint v => some v
  | _ => none

def float? : Value → Option Double
  | .float v => some v
  | _ => none

def bool? : Value → Option Bool
  | .bool v => some v
  | _ => none

def string? : Value → Option String
  | .string v => some v
  | _ => none

def bytes? : Value → Option Bytes
  | .bytes v => some v
  | _ => none

def enum? : Value → Option Int32
  | .enum v => some v
  | _ => none

def message? : Value → Option Record
  | .message v => some v
  | _ => none

/-- Whether the value is the default of its type, which a field of implicit presence need not hold.
The zero that is the default has no sign, and no message is one. -/
def isDefault : Value → Bool
  | .int v => v == 0
  | .uint v => v == 0
  | .float v => v.bits == 0
  | .bool v => !v
  | .string v => v.isEmpty
  | .bytes v => v.isEmpty
  | .enum v => v == 0
  | .message _ => false

end Value

def Content.values : Content → List Value
  | .single v => [v]
  | .list vs => vs

namespace Record

def empty : Record := ⟨[]⟩

instance : Inhabited Record := ⟨empty⟩
instance : EmptyCollection Record := ⟨empty⟩

def isEmpty (r : Record) : Bool := r.entries.isEmpty

def size (r : Record) : Nat := r.entries.length

/-- What ascending entries hold for a number. -/
def find? (number : Nat) : List (Nat × Content) → Option Content
  | [] => none
  | (n, content) :: rest => if n = number then some content else find? number rest

/-- Puts an entry where its number belongs, in the place of one with the same number. -/
def insert (number : Nat) (content : Content) : List (Nat × Content) → List (Nat × Content)
  | [] => [(number, content)]
  | (n, old) :: rest =>
      if number < n then (number, content) :: (n, old) :: rest
      else if number = n then (number, content) :: rest
      else (n, old) :: insert number content rest

def get? (r : Record) (number : Nat) : Option Content := find? number r.entries

def single? (r : Record) (number : Nat) : Option Value :=
  match r.get? number with
  | some (.single v) => some v
  | _ => none

def list (r : Record) (number : Nat) : List Value :=
  match r.get? number with
  | some (.list vs) => vs
  | _ => []

/-- What the record holds for the field of this name in a message type. -/
def named? (r : Record) (type : Message) (name : String) : Option Content :=
  (type.fieldNamed? name).bind fun field => r.get? field.number

def put (r : Record) (number : Nat) (content : Content) : Record := ⟨insert number content r.entries⟩

/-- Sets a single value, whatever was there before. -/
def set (r : Record) (number : Nat) (value : Value) : Record := r.put number (.single value)

/-- Adds a value to a list. A single value that was there gives way to the list. -/
def append (r : Record) (number : Nat) (value : Value) : Record :=
  r.put number (.list (r.list number ++ [value]))

/-- The record that a field holds as its single value, an empty one if it holds none. -/
def message (r : Record) (number : Nat) : Record :=
  match r.single? number with
  | some (.message sub) => sub
  | _ => empty

/-- Makes the record hold nothing for a field. -/
def clear (r : Record) (number : Nat) : Record := ⟨r.entries.filter (·.1 != number)⟩

/-- Drops the last value of a list, and the list if none is left. -/
def dropLast (r : Record) (number : Nat) : Record :=
  match r.get? number with
  | some (.list vs) =>
      if vs.dropLast.isEmpty then r.clear number else r.put number (.list vs.dropLast)
  | _ => r

/-- The record of an array type whose items are these. -/
def wrap (items : List Record) : Record :=
  if items.isEmpty then empty else empty.put 1 (.list (items.map .message))

end Record

mutual

/-- Values that agree numerically: as equality, except on floating-point numbers. -/
def Value.agrees : Value → Value → Bool
  | .int a, .int b => a == b
  | .uint a, .uint b => a == b
  | .float a, .float b => a.agrees b
  | .bool a, .bool b => a == b
  | .string a, .string b => a == b
  | .bytes a, .bytes b => a == b
  | .enum a, .enum b => a == b
  | .message a, .message b => Record.agrees a b
  | _, _ => false

def Value.agreeAll : List Value → List Value → Bool
  | [], [] => true
  | a :: as, b :: bs => Value.agrees a b && Value.agreeAll as bs
  | _, _ => false

/-- A single value never agrees with a list. -/
def Content.agrees : Content → Content → Bool
  | .single a, .single b => Value.agrees a b
  | .list a, .list b => Value.agreeAll a b
  | _, _ => false

def Content.agreeAll : List (Nat × Content) → List (Nat × Content) → Bool
  | [], [] => true
  | (n, a) :: as, (m, b) :: bs => n == m && Content.agrees a b && Content.agreeAll as bs
  | _, _ => false

/-- Records agree when they hold the same fields with contents that agree. -/
def Record.agrees : Record → Record → Bool
  | ⟨a⟩, ⟨b⟩ => Content.agreeAll a b

end

end SheetCompiler

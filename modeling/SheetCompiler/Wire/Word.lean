import SheetCompiler.Record
import SheetCompiler.Wire.Varint
import SheetCompiler.Wire.Zigzag

/-!
# Words of the wire format

Every entry of a message carries a word in one of four forms: a varint, 32 or 64 bits in
little-endian order, or a byte string behind its length. `WireType.Word` is what each of them holds,
so a value of a type is written as, and read from, exactly the words of the form that the type calls
for.
-/

namespace SheetCompiler

inductive WireType where
  | varint
  | fixed64
  | lengthDelimited
  | fixed32
  deriving DecidableEq, Repr

inductive DecodeFault where
  | varint (fault : Varint.Fault)
  | wireType (number : Nat)
  | fieldNumber (number : Nat)
  | pastEnd (length : Nat)
  | notMessage (field : String) (found : WireType)
  | packedSingular (field : String)
  | wrongForm (field : String) (expected found : WireType)
  | notUtf8 (fault : Text.Utf8.Fault)
  deriving DecidableEq, Repr

namespace WireType

/-- The number of the form in a tag. -/
def number : WireType → Nat
  | .varint => 0
  | .fixed64 => 1
  | .lengthDelimited => 2
  | .fixed32 => 5

def ofNumber? : Nat → Option WireType
  | 0 => some .varint
  | 1 => some .fixed64
  | 2 => some .lengthDelimited
  | 5 => some .fixed32
  | _ => none

def name : WireType → String
  | .varint => "Varint"
  | .fixed64 => "Fixed64"
  | .lengthDelimited => "LengthDelimited"
  | .fixed32 => "Fixed32"

abbrev Word : WireType → Type
  | .varint | .fixed64 => UInt64
  | .lengthDelimited => Bytes
  | .fixed32 => UInt32

/-- The lowest `count` bytes of a number, the least significant one first. -/
def littleEndian : (count : Nat) → Nat → Bytes
  | 0, _ => []
  | count + 1, n => UInt8.ofNat (n % 256) :: littleEndian count (n / 256)

/-- The number with these bytes, the least significant one first. -/
def ofLittleEndian : Bytes → Nat
  | [] => 0
  | b :: rest => b.toNat + 256 * ofLittleEndian rest

/-- The bytes behind their number. -/
def delimit (bytes : Bytes) : Bytes := Varint.write bytes.length ++ bytes

def write : (form : WireType) → form.Word → Bytes
  | .varint, n => Varint.write n.toNat
  | .fixed64, n => littleEndian 8 n.toNat
  | .lengthDelimited, bytes => delimit bytes
  | .fixed32, n => littleEndian 4 n.toNat

def readVarint (bytes : Bytes) : Except DecodeFault (Nat × Bytes) :=
  match Varint.read bytes with
  | .ok r => .ok r
  | .error e => .error (.varint e)

/-- Takes `length` bytes off the front. -/
def take (length : Nat) (bytes : Bytes) : Except DecodeFault (Bytes × Bytes) :=
  if bytes.length < length then .error (.pastEnd length)
  else .ok (bytes.take length, bytes.drop length)

/-- Takes a byte string off the front, which stands behind its length. -/
def readDelimited (bytes : Bytes) : Except DecodeFault (Bytes × Bytes) := do
  let (length, rest) ← readVarint bytes
  take length rest

/-- Takes a word of the form off the front. -/
def read : (form : WireType) → Bytes → Except DecodeFault (form.Word × Bytes)
  | .varint, bytes => do
      let (n, rest) ← readVarint bytes
      return (UInt64.ofNat n, rest)
  | .fixed64, bytes => do
      let (word, rest) ← take 8 bytes
      return (UInt64.ofNat (ofLittleEndian word), rest)
  | .lengthDelimited, bytes => readDelimited bytes
  | .fixed32, bytes => do
      let (word, rest) ← take 4 bytes
      return (UInt32.ofNat (ofLittleEndian word), rest)

theorem readVarint_length_lt {bytes rest : Bytes} {n : Nat} (h : readVarint bytes = .ok (n, rest)) :
    rest.length < bytes.length := by
  rw [readVarint] at h
  split at h
  · next hread =>
      cases h
      exact Varint.read_length_lt hread
  · cases h

theorem take_length {length : Nat} {bytes word rest : Bytes} (h : take length bytes = .ok (word, rest)) :
    word.length = length ∧ word.length + rest.length = bytes.length := by
  rw [take] at h
  split at h
  · cases h
  · cases h
    simp only [List.length_take, List.length_drop]
    omega

theorem readDelimited_length {bytes word rest : Bytes} (h : readDelimited bytes = .ok (word, rest)) :
    word.length + rest.length < bytes.length := by
  rw [readDelimited] at h
  cases hvarint : readVarint bytes with
  | error e => rw [hvarint] at h; cases h
  | ok r =>
      rw [hvarint] at h
      have := readVarint_length_lt hvarint
      have := (take_length h).2
      omega

theorem read_length_lt {form : WireType} {bytes rest : Bytes} {word : form.Word}
    (h : read form bytes = .ok (word, rest)) : rest.length < bytes.length := by
  cases form with
  | varint =>
      rw [read] at h
      cases hvarint : readVarint bytes with
      | error e => rw [hvarint] at h; cases h
      | ok r =>
          rw [hvarint] at h
          cases h
          exact readVarint_length_lt hvarint
  | lengthDelimited =>
      have := readDelimited_length h
      omega
  | fixed64 =>
      rw [read] at h
      cases htake : take 8 bytes with
      | error e => rw [htake] at h; cases h
      | ok r =>
          rw [htake] at h
          cases h
          have := take_length htake
          omega
  | fixed32 =>
      rw [read] at h
      cases htake : take 4 bytes with
      | error e => rw [htake] at h; cases h
      | ok r =>
          rw [htake] at h
          cases h
          have := take_length htake
          omega

end WireType

/-- The form of the words that carry values of a type. -/
def ValueType.wireType : ValueType → WireType
  | .enum _ => .varint
  | .scalar kind => match kind with
    | .int32 | .int64 | .uint32 | .uint64 | .sint32 | .sint64 | .bool => .varint
    | .fixed64 | .sfixed64 | .double => .fixed64
    | .fixed32 | .sfixed32 | .float => .fixed32
    | .string | .bytes => .lengthDelimited

namespace Value

/-- The word that carries a value, if the value suits the type. The 32-bit types whose words are
varints are not held to their range. -/
def word? : (type : ValueType) → Value → Option type.wireType.Word
  | .enum _, .enum v => some v.toInt64.toUInt64
  | .scalar .int32, .int v | .scalar .int64, .int v => some v.toUInt64
  | .scalar .uint32, .uint v | .scalar .uint64, .uint v => some v
  | .scalar .sint32, .int v | .scalar .sint64, .int v => some (Zigzag.encode v)
  | .scalar .bool, .bool v => some v.toUInt64
  | .scalar .fixed32, .uint v => if v.toNat < 2 ^ 32 then some v.toUInt32 else none
  | .scalar .sfixed32, .int v =>
      if -2 ^ 31 ≤ v.toInt ∧ v.toInt < 2 ^ 31 then some v.toInt32.toUInt32 else none
  | .scalar .fixed64, .uint v => some v
  | .scalar .sfixed64, .int v => some v.toUInt64
  | .scalar .float, .float v => some v.toSingle.bits
  | .scalar .double, .float v => some v.bits
  | .scalar .string, .string v => some (Text.Utf8.encode v)
  | .scalar .bytes, .bytes v => some v
  | _, _ => none

/-- The value that a word carries. The 32-bit types whose words are varints take the lowest 32 bits. -/
def ofWord : (type : ValueType) → type.wireType.Word → Except DecodeFault Value
  | .enum _, (n : UInt64) => .ok (.enum n.toInt64.toInt32)
  | .scalar .int32, (n : UInt64) => .ok (.int n.toInt64.toInt32.toInt64)
  | .scalar .int64, (n : UInt64) => .ok (.int n.toInt64)
  | .scalar .uint32, (n : UInt64) => .ok (.uint n.toUInt32.toUInt64)
  | .scalar .uint64, (n : UInt64) => .ok (.uint n)
  | .scalar .sint32, (n : UInt64) => .ok (.int (Zigzag.decode n).toInt32.toInt64)
  | .scalar .sint64, (n : UInt64) => .ok (.int (Zigzag.decode n))
  | .scalar .bool, (n : UInt64) => .ok (.bool (n != 0))
  | .scalar .fixed32, (n : UInt32) => .ok (.uint n.toUInt64)
  | .scalar .sfixed32, (n : UInt32) => .ok (.int n.toInt32.toInt64)
  | .scalar .float, (n : UInt32) => .ok (.float (Single.toDouble ⟨n⟩))
  | .scalar .fixed64, (n : UInt64) => .ok (.uint n)
  | .scalar .sfixed64, (n : UInt64) => .ok (.int n.toInt64)
  | .scalar .double, (n : UInt64) => .ok (.float ⟨n⟩)
  | .scalar .string, (word : Bytes) =>
      match Text.Utf8.decode word with
      | .ok s => .ok (.string s)
      | .error e => .error (.notUtf8 e)
  | .scalar .bytes, (word : Bytes) => .ok (.bytes word)

end Value

def DecodeFault.message : DecodeFault → String
  | .varint fault => fault.message
  | .wireType number => s!"unsupported wire type {number}"
  | .fieldNumber number => s!"field number {number} too large"
  | .pastEnd length => s!"field of {length} bytes runs past the end"
  | .notMessage field found => s!"field `{field}` expects a message, found {found.name}"
  | .packedSingular field => s!"packed data for singular field `{field}`"
  | .wrongForm field expected found =>
      s!"field `{field}` expects {expected.name}, found {found.name}"
  | .notUtf8 fault => s!"string is not UTF-8: {fault.message}"

end SheetCompiler

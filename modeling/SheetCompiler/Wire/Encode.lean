import SheetCompiler.Wire.Word

/-!
# Writing records in the wire format

The fields of a record are written in ascending order of their numbers. A single value is a tag and a
word, left out where it is the default of a field of implicit presence; a list of numbers is packed
into one byte string, and a list of anything else is an entry for each value. A record that does not
suit its type is refused, with the field that it fails at.
-/

namespace SheetCompiler

/-- What stands in front of a word: the number of its field and the form of the word. -/
def WireType.tag (form : WireType) (number : Nat) : Bytes := Varint.write (number * 8 + form.number)

/-- A tag and its word. -/
def WireType.entry (form : WireType) (number : Nat) (word : form.Word) : Bytes :=
  form.tag number ++ form.write word

namespace Message

/-- A field number that the type does not have. -/
def unbound (type : Message) (number : Nat) : Mismatch := ⟨type.name, number, "<unbound>"⟩

/-- A field of the type that holds something else than its kind asks for. -/
def mismatch (type : Message) (field : Field) (what : String) : Mismatch :=
  ⟨type.name, field.number, s!"{field.name} ({what})"⟩

/-- The word of a value in a field of the type. -/
def word (type : Message) (field : Field) (t : ValueType) (v : Value) : Except Mismatch t.wireType.Word :=
  match v.word? t with
  | some word => .ok word
  | none => .error (type.mismatch field "value does not fit the field type")

/-- The words of the values in a list, one after another. -/
def words (type : Message) (field : Field) (t : ValueType) : List Value → Except Mismatch Bytes
  | [] => .ok []
  | v :: vs => do
      let word ← type.word field t v
      return t.wireType.write word ++ (← type.words field t vs)

/-- The values in a list, each with a tag. -/
def entries (type : Message) (field : Field) (t : ValueType) : List Value → Except Mismatch Bytes
  | [] => .ok []
  | v :: vs => do
      let word ← type.word field t v
      return t.wireType.entry field.number word ++ (← type.entries field t vs)

def encodeSingle (type : Message) (field : Field) (t : ValueType) (v : Value) : Except Mismatch Bytes :=
  if field.label == .implicit && v.isDefault then .ok []
  else do
    let word ← type.word field t v
    return t.wireType.entry field.number word

def encodeList (type : Message) (field : Field) (t : ValueType) (vs : List Value) :
    Except Mismatch Bytes :=
  if vs.isEmpty then .ok []
  else if t.wireType = .lengthDelimited then type.entries field t vs
  else do return WireType.lengthDelimited.entry field.number (← type.words field t vs)

end Message

mutual

/-- The bytes of a record of a type. -/
def Record.encode (type : Message) : Record → Except Mismatch Bytes
  | ⟨entries⟩ => Content.encodeAll type entries

def Content.encodeAll (type : Message) : List (Nat × Content) → Except Mismatch Bytes
  | [] => .ok []
  | (number, content) :: rest =>
      match type.field? number with
      | none => .error (type.unbound number)
      | some field => do
          let bytes ← Content.encode type field content
          return bytes ++ (← Content.encodeAll type rest)

def Content.encode (type : Message) (field : Field) : Content → Except Mismatch Bytes
  | .single v =>
      match field.kind with
      | .message nested => Value.encodeMessage type field nested v
      | .value t => type.encodeSingle field t v
  | .list vs =>
      match field.kind with
      | .message nested => Value.encodeMessages type field nested vs
      | .value t => type.encodeList field t vs

/-- A message in a field, behind its tag and its length. -/
def Value.encodeMessage (type : Message) (field : Field) (nested : Message) :
    Value → Except Mismatch Bytes
  | .message r => do return WireType.lengthDelimited.entry field.number (← Record.encode nested r)
  | _ => .error (type.mismatch field "expected a message")

/-- The messages in a list, one after another. -/
def Value.encodeMessages (type : Message) (field : Field) (nested : Message) :
    List Value → Except Mismatch Bytes
  | [] => .ok []
  | v :: vs => do
      let bytes ← Value.encodeMessage type field nested v
      return bytes ++ (← Value.encodeMessages type field nested vs)

end

end SheetCompiler

import SheetCompiler.Wire.Word

/-!
# Reading records in the wire format

Bytes are read as a sequence of entries. An entry with a field number that the type does not have is
passed over. A list of numbers may come packed or as an entry for each value, and a field that holds a
single value keeps the last one. Bytes are accepted to their end or refused with the first fault.
-/

namespace SheetCompiler

/-- What one entry of a message says. -/
inductive Entry where
  /-- Something for a field that the type does not have. -/
  | unknown
  /-- Values of a field. -/
  | values (field : Field) (values : List Value)
  /-- The bytes of a message in a field. -/
  | message (field : Field) (type : Message) (bytes : Bytes)

namespace Entry

/-- Takes a tag off the front: a field number and the form of the word that follows. -/
def readTag (bytes : Bytes) : Except DecodeFault ((Nat × WireType) × Bytes) := do
  let (tag, rest) ← WireType.readVarint bytes
  match WireType.ofNumber? (tag % 8) with
  | none => .error (.wireType (tag % 8))
  | some form =>
      if tag / 8 < 2 ^ 32 then .ok ((tag / 8, form), rest) else .error (.fieldNumber (tag / 8))

def readValue (type : ValueType) (bytes : Bytes) : Except DecodeFault (Value × Bytes) := do
  let (word, rest) ← type.wireType.read bytes
  return (← Value.ofWord type word, rest)

theorem readTag_length_lt {bytes rest : Bytes} {tag : Nat × WireType}
    (h : readTag bytes = .ok (tag, rest)) : rest.length < bytes.length := by
  rw [readTag] at h
  cases hvarint : WireType.readVarint bytes with
  | error e => rw [hvarint] at h; cases h
  | ok r =>
      rw [hvarint] at h
      have hlt := WireType.readVarint_length_lt hvarint
      simp only [bind, Except.bind] at h
      split at h
      · cases h
      · split at h
        · cases h
          exact hlt
        · cases h

theorem readValue_length_lt {type : ValueType} {bytes rest : Bytes} {v : Value}
    (h : readValue type bytes = .ok (v, rest)) : rest.length < bytes.length := by
  rw [readValue] at h
  cases hread : type.wireType.read bytes with
  | error e => rw [hread] at h; cases h
  | ok r =>
      rw [hread] at h
      have hlt := WireType.read_length_lt hread
      simp only [bind, Except.bind] at h
      split at h
      · cases h
      · cases h
        exact hlt

/-- Reads values until the bytes are used up. -/
def readPacked (type : ValueType) (bytes : Bytes) : Except DecodeFault (List Value) :=
  match bytes with
  | [] => .ok []
  | b :: bytes =>
      match _h : readValue type (b :: bytes) with
      | .error e => .error e
      | .ok (v, rest) => do return v :: (← readPacked type rest)
termination_by bytes.length
decreasing_by exact readValue_length_lt _h

/-- Reads the word behind a tag for a field that holds values of a type. -/
def readWord (field : Field) (type : ValueType) (form : WireType) (bytes : Bytes) :
    Except DecodeFault (List Value × Bytes) :=
  if form = .lengthDelimited ∧ type.wireType ≠ .lengthDelimited then
    if field.isRepeated then do
      let (packed, rest) ← WireType.readDelimited bytes
      return (← readPacked type packed, rest)
    else .error (.packedSingular field.name)
  else if form ≠ type.wireType then .error (.wrongForm field.name type.wireType form)
  else do
    let (v, rest) ← readValue type bytes
    return ([v], rest)

/-- Takes an entry off the front. -/
def read (type : Message) (bytes : Bytes) : Except DecodeFault (Entry × Bytes) := do
  let ((number, form), rest) ← readTag bytes
  match type.field? number with
  | none =>
      let (_, rest) ← form.read rest
      return (.unknown, rest)
  | some field =>
      match field.kind with
      | .message nested =>
          if form ≠ .lengthDelimited then .error (.notMessage field.name form)
          else
            let (bytes, rest) ← WireType.readDelimited rest
            return (.message field nested bytes, rest)
      | .value t =>
          let (vs, rest) ← readWord field t form rest
          return (.values field vs, rest)

theorem readWord_length_lt {field : Field} {type : ValueType} {form : WireType} {bytes rest : Bytes}
    {vs : List Value} (h : readWord field type form bytes = .ok (vs, rest)) :
    rest.length < bytes.length := by
  rw [readWord] at h
  split at h
  · split at h
    · cases hdelimited : WireType.readDelimited bytes with
      | error e => rw [hdelimited] at h; cases h
      | ok r =>
          rw [hdelimited] at h
          have := WireType.readDelimited_length hdelimited
          simp only [bind, Except.bind] at h
          split at h
          · cases h
          · cases h
            omega
    · cases h
  · split at h
    · cases h
    · cases hvalue : readValue type bytes with
      | error e => rw [hvalue] at h; cases h
      | ok r =>
          rw [hvalue] at h
          cases h
          exact readValue_length_lt hvalue

/-- An entry is never empty, and the bytes of a message lie within it. -/
theorem read_length_lt {type : Message} {bytes rest : Bytes} {entry : Entry}
    (h : read type bytes = .ok (entry, rest)) :
    rest.length < bytes.length
      ∧ ∀ field nested payload, entry = .message field nested payload → payload.length < bytes.length := by
  rw [read] at h
  cases htag : readTag bytes with
  | error e => rw [htag] at h; cases h
  | ok r =>
      obtain ⟨⟨number, form⟩, after⟩ := r
      rw [htag] at h
      have hlt := readTag_length_lt htag
      simp only [bind, Except.bind] at h
      split at h
      · cases hread : form.read after with
        | error e => rw [hread] at h; cases h
        | ok r =>
            rw [hread] at h
            cases h
            have := WireType.read_length_lt hread
            exact ⟨by omega, by rintro _ _ _ ⟨⟩⟩
      · split at h
        · split at h
          · cases h
          · cases hdelimited : WireType.readDelimited after with
            | error e => rw [hdelimited] at h; cases h
            | ok r =>
                rw [hdelimited] at h
                cases h
                have := WireType.readDelimited_length hdelimited
                refine ⟨by omega, fun _ _ _ heq => ?_⟩
                cases heq
                omega
        · next t hkind =>
          cases hword : readWord _ t form after with
          | error e => rw [hword] at h; cases h
          | ok r =>
              rw [hword] at h
              cases h
              have := readWord_length_lt hword
              exact ⟨by omega, by rintro _ _ _ ⟨⟩⟩

end Entry

namespace Record

/-- Takes in a value of a field: added to its list, or set. -/
def store (r : Record) (field : Field) (v : Value) : Record :=
  if field.isRepeated then r.append field.number v else r.set field.number v

/-- Takes in the entries of a message, one after another. -/
def decodeInto (type : Message) (r : Record) (bytes : Bytes) : Except DecodeFault Record :=
  match bytes with
  | [] => .ok r
  | b :: bytes =>
      match _h : Entry.read type (b :: bytes) with
      | .error e => .error e
      | .ok (.unknown, rest) => decodeInto type r rest
      | .ok (.values field vs, rest) => decodeInto type (vs.foldl (·.store field ·) r) rest
      | .ok (.message field nested payload, rest) =>
          match decodeInto nested empty payload with
          | .error e => .error e
          | .ok sub => decodeInto type (r.store field (.message sub)) rest
termination_by bytes.length
decreasing_by
  · exact (Entry.read_length_lt _h).1
  · exact (Entry.read_length_lt _h).1
  · exact (Entry.read_length_lt _h).2 _ _ _ rfl
  · exact (Entry.read_length_lt _h).1

def decode (type : Message) (bytes : Bytes) : Except DecodeFault Record := decodeInto type empty bytes

end Record

end SheetCompiler

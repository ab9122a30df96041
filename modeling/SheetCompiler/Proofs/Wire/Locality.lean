import SheetCompiler.Proofs.Outcome
import SheetCompiler.Proofs.Wire.Varint
import SheetCompiler.Wire.Decode

/-!
# Readers take what they read off the front

Every reader of the wire format answers with what it has read and with the bytes behind it. It has looked at no byte
of these: it reads the same from the same front, whatever stands behind. So bytes that are read one after another fall
into the parts that the readers have taken, and bytes appended to them change nothing about what is read before.
-/

namespace SheetCompiler

variable {α β : Type}

/-- Whether a reader takes what it reads off the front of bytes and reads the same in front of any others. -/
def ReadsFront (reader : Bytes → Except DecodeFault (α × Bytes)) : Prop :=
  ∀ (bytes rest : Bytes) (a : α), reader bytes = .ok (a, rest) →
    ∃ front, bytes = front ++ rest ∧ ∀ behind, reader (front ++ behind) = .ok (a, behind)

namespace ReadsFront

theorem result (a : α) : ReadsFront fun bytes => .ok (a, bytes) := by
  intro bytes rest b h
  cases h
  exact ⟨[], rfl, fun _ => rfl⟩

theorem fault (e : DecodeFault) : ReadsFront fun _ => (.error e : Except DecodeFault (α × Bytes)) := nofun

theorem bind {first : Bytes → Except DecodeFault (α × Bytes)} {next : α × Bytes → Except DecodeFault (β × Bytes)}
    (hfirst : ReadsFront first) (hnext : ∀ a, ReadsFront fun bytes => next (a, bytes)) :
    ReadsFront fun bytes => first bytes >>= next := by
  intro bytes rest b h
  obtain ⟨⟨a, middle⟩, ha, hb⟩ := bind_eq_ok.1 h
  obtain ⟨front, rfl, hfront⟩ := hfirst _ _ _ ha
  obtain ⟨more, rfl, hmore⟩ := hnext a _ _ _ hb
  refine ⟨front ++ more, (List.append_assoc ..).symm, fun behind => ?_⟩
  rw [List.append_assoc]
  exact bind_eq_ok.2 ⟨(a, more ++ behind), hfront _, hmore behind⟩

theorem check (x : Except DecodeFault α) : ReadsFront fun bytes => x >>= fun a => .ok (a, bytes) := by
  cases x with
  | error e => exact fault e
  | ok a => exact result a

variable {reader : Bytes → Except DecodeFault (α × Bytes)}

/-- Bytes that are appended stay behind what is read. -/
theorem append (hreader : ReadsFront reader) {bytes rest : Bytes} {a : α} (h : reader bytes = .ok (a, rest))
    (more : Bytes) : reader (bytes ++ more) = .ok (a, rest ++ more) := by
  obtain ⟨front, rfl, hfront⟩ := hreader _ _ _ h
  rw [List.append_assoc]
  exact hfront _

end ReadsFront

/-! ### Words -/

namespace WireType

theorem readVarint_front : ReadsFront readVarint := by
  intro bytes rest n h
  rw [readVarint, Varint.read] at h
  rcases hscan : Varint.scan 0 bytes with ⟨outcome, after⟩
  rw [hscan] at h
  cases outcome with
  | error e => cases h
  | ok m =>
      cases h
      obtain ⟨front, rfl, hfront⟩ := Varint.scan_front hscan
      exact ⟨front, rfl, fun behind => by rw [readVarint, Varint.read, hfront]⟩

theorem take_front (length : Nat) : ReadsFront (take length) := by
  intro bytes rest word h
  rw [take] at h
  split at h
  · cases h
  · next hlong =>
    cases h
    refine ⟨bytes.take length, (List.take_append_drop length bytes).symm, fun behind => ?_⟩
    have hlength : (bytes.take length).length = length := List.length_take_of_le (Nat.le_of_not_lt hlong)
    rw [take, if_neg (by rw [List.length_append]; omega), List.take_left' hlength, List.drop_left' hlength]

theorem readDelimited_front : ReadsFront readDelimited := readVarint_front.bind take_front

theorem read_front (form : WireType) : ReadsFront form.read := by
  cases form with
  | varint => exact readVarint_front.bind fun n => .result (UInt64.ofNat n)
  | fixed64 => exact (take_front 8).bind fun word => .result (UInt64.ofNat (ofLittleEndian word))
  | lengthDelimited => exact readDelimited_front
  | fixed32 => exact (take_front 4).bind fun word => .result (UInt32.ofNat (ofLittleEndian word))

end WireType

/-! ### Entries -/

namespace Entry

theorem readTag_front : ReadsFront readTag := by
  refine WireType.readVarint_front.bind fun tag => ?_
  simp only
  cases hform : WireType.ofNumber? (tag % 8) with
  | none => exact .fault _
  | some form =>
      by_cases hnumber : tag / 8 < 2 ^ 32
      · simp only [if_pos hnumber]
        exact .result _
      · simp only [if_neg hnumber]
        exact .fault _

theorem readValue_front (type : ValueType) : ReadsFront (readValue type) :=
  type.wireType.read_front.bind fun word => .check (Value.ofWord type word)

theorem readWord_front (field : Field) (type : ValueType) (form : WireType) :
    ReadsFront (readWord field type form) := by
  unfold readWord
  by_cases hpacked : form = .lengthDelimited ∧ type.wireType ≠ .lengthDelimited
  · simp only [if_pos hpacked]
    by_cases hrepeated : field.isRepeated = true
    · simp only [if_pos hrepeated]
      exact WireType.readDelimited_front.bind fun packed => .check (readPacked type packed)
    · simp only [if_neg hrepeated]
      exact .fault _
  · simp only [if_neg hpacked]
    by_cases hform : form ≠ type.wireType
    · simp only [if_pos hform]
      exact .fault _
    · simp only [if_neg hform]
      exact (readValue_front type).bind fun v => .result [v]

/-- What is read of an entry does not depend on what stands behind it. -/
theorem read_front (type : Message) : ReadsFront (read type) := by
  refine readTag_front.bind ?_
  rintro ⟨number, form⟩
  simp only
  cases hfield : type.field? number with
  | none => exact form.read_front.bind fun _ => .result unknown
  | some field =>
      cases hkind : field.kind with
      | message nested =>
          by_cases hform : form ≠ .lengthDelimited
          · simp only [hkind, if_pos hform]
            exact .fault _
          · simp only [hkind, if_neg hform]
            exact WireType.readDelimited_front.bind fun payload => .result (message field nested payload)
      | value t =>
          simp only [hkind]
          exact (readWord_front field t form).bind fun vs => .result (values field vs)

end Entry

end SheetCompiler

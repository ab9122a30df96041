import SheetCompiler.Proofs.Record.Reread
import SheetCompiler.Proofs.Wire.Varint
import SheetCompiler.Proofs.Wire.Zigzag
import SheetCompiler.Wire.Decode
import SheetCompiler.Wire.Encode

/-!
# Words are read as they were written

The parts of an entry, each taken off the front of what it was written in front of: varints, numbers in
little-endian order, byte strings behind their length, and tags. The one condition is that a length fits
in 64 bits.
-/

namespace SheetCompiler

namespace WireType

theorem readVarint_write {n : Nat} (h : n < 2 ^ 64) (rest : Bytes) :
    readVarint (Varint.write n ++ rest) = .ok (n, rest) := by
  rw [readVarint, Varint.read_write h]

theorem take_append {length : Nat} {bytes : Bytes} (h : bytes.length = length) (rest : Bytes) :
    take length (bytes ++ rest) = .ok (bytes, rest) := by
  rw [take, if_neg (by rw [List.length_append]; omega), List.take_left' h, List.drop_left' h]

theorem length_littleEndian (count n : Nat) : (littleEndian count n).length = count := by
  induction count generalizing n with
  | zero => rfl
  | succ count ih => rw [littleEndian, List.length_cons, ih]

theorem ofLittleEndian_littleEndian {count n : Nat} (h : n < 256 ^ count) :
    ofLittleEndian (littleEndian count n) = n := by
  induction count generalizing n with
  | zero => exact (Nat.lt_one_iff.1 h).symm
  | succ count ih =>
      have hbyte : (UInt8.ofNat (n % 256)).toNat = n % 256 := by
        rw [UInt8.toNat_ofNat']
        omega
      rw [littleEndian, ofLittleEndian, ih (Nat.div_lt_of_lt_mul (by rwa [← Nat.pow_succ'])), hbyte]
      exact Nat.mod_add_div n 256

theorem length_le_delimit (bytes : Bytes) : bytes.length ≤ (delimit bytes).length := by
  rw [delimit, List.length_append]
  exact Nat.le_add_left _ _

theorem readDelimited_delimit {bytes : Bytes} (h : bytes.length < 2 ^ 64) (rest : Bytes) :
    readDelimited (delimit bytes ++ rest) = .ok (bytes, rest) := by
  rw [readDelimited, delimit, List.append_assoc, readVarint_write h]
  exact take_append rfl rest

theorem read_write (form : WireType) (word : form.Word) (h : (form.write word).length < 2 ^ 64) (rest : Bytes) :
    form.read (form.write word ++ rest) = .ok (word, rest) := by
  cases form with
  | varint =>
      rw [read, write, readVarint_write word.toNat_lt]
      exact congrArg (fun n => Except.ok (n, rest)) UInt64.ofNat_toNat
  | fixed64 =>
      have hword : ofLittleEndian (littleEndian 8 word.toNat) = word.toNat :=
        ofLittleEndian_littleEndian word.toNat_lt
      rw [read, write, take_append (length_littleEndian 8 _)]
      change Except.ok (UInt64.ofNat (ofLittleEndian (littleEndian 8 word.toNat)), rest) = _
      rw [hword, UInt64.ofNat_toNat]
  | lengthDelimited => exact readDelimited_delimit (Nat.lt_of_le_of_lt (length_le_delimit word) h) rest
  | fixed32 =>
      have hword : ofLittleEndian (littleEndian 4 word.toNat) = word.toNat :=
        ofLittleEndian_littleEndian word.toNat_lt
      rw [read, write, take_append (length_littleEndian 4 _)]
      change Except.ok (UInt32.ofNat (ofLittleEndian (littleEndian 4 word.toNat)), rest) = _
      rw [hword, UInt32.ofNat_toNat]

theorem ofNumber?_number (form : WireType) : ofNumber? form.number = some form := by
  cases form <;> rfl

end WireType

/-- The number of a field and the form of its word are read off the tag, if the number is one of 32 bits. -/
theorem Entry.readTag_tag {number : Nat} (h : number < 2 ^ 32) (form : WireType) (rest : Bytes) :
    readTag (form.tag number ++ rest) = .ok ((number, form), rest) := by
  have hform : form.number < 8 := by cases form <;> decide
  have htag : number * 8 + form.number < 2 ^ 64 := by omega
  rw [readTag, WireType.tag, WireType.readVarint_write htag]
  simp only [bind, Except.bind, show (number * 8 + form.number) % 8 = form.number by omega,
    show (number * 8 + form.number) / 8 = number by omega, WireType.ofNumber?_number, if_pos h]

/-! ### Values -/

theorem toUInt64_toUInt32 {v : UInt64} (h : v.toNat < 2 ^ 32) : v.toUInt32.toUInt64 = v := by
  apply UInt64.toNat_inj.1
  rw [UInt32.toNat_toUInt64, UInt64.toNat_toUInt32, Nat.mod_eq_of_lt h]

/-- Every value that a field can hold has a word, which carries it. -/
theorem Value.word?_spec : ∀ {t : ValueType} {v : Value}, v.Fits t →
    ∃ word, v.word? t = some word ∧ ofWord t word = .ok (v.narrow t)
  | .enum _, .enum v, _ => ⟨v.toInt64.toUInt64, rfl, by simp [ofWord, narrow]⟩
  | .scalar .int32, .int v, h => ⟨v.toUInt64, rfl, by simp [ofWord, narrow, toInt64_toInt32 h]⟩
  | .scalar .int64, .int v, _ => ⟨v.toUInt64, rfl, by simp [ofWord, narrow]⟩
  | .scalar .uint32, .uint v, h => ⟨v, rfl, by rw [ofWord, toUInt64_toUInt32 h]; rfl⟩
  | .scalar .uint64, .uint v, _ => ⟨v, rfl, rfl⟩
  | .scalar .sint32, .int v, h =>
      ⟨Zigzag.encode v, rfl, by rw [ofWord, Zigzag.decode_encode, toInt64_toInt32 h]; rfl⟩
  | .scalar .sint64, .int v, _ => ⟨Zigzag.encode v, rfl, by rw [ofWord, Zigzag.decode_encode]; rfl⟩
  | .scalar .bool, .bool v, _ => ⟨v.toUInt64, rfl, by cases v <;> rfl⟩
  | .scalar .fixed32, .uint v, h => ⟨v.toUInt32, if_pos h, by rw [ofWord, toUInt64_toUInt32 h]; rfl⟩
  | .scalar .sfixed32, .int v, h => ⟨v.toInt32.toUInt32, if_pos h, by simp [ofWord, narrow, toInt64_toInt32 h]⟩
  | .scalar .fixed64, .uint v, _ => ⟨v, rfl, rfl⟩
  | .scalar .sfixed64, .int v, _ => ⟨v.toUInt64, rfl, by simp [ofWord, narrow]⟩
  | .scalar .float, .float d, _ => ⟨d.toSingle.bits, rfl, rfl⟩
  | .scalar .double, .float d, _ => ⟨d.bits, rfl, rfl⟩
  | .scalar .string, .string v, _ => ⟨Text.Utf8.encode v, rfl, by simp [ofWord, narrow, Text.Utf8.decode_encode]⟩
  | .scalar .bytes, .bytes v, _ => ⟨v, rfl, rfl⟩

end SheetCompiler

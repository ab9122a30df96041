import SheetCompiler.Proofs.Wire.Locality
import SheetCompiler.Proofs.Wire.Words

/-!
# Words are written with no more bytes than they are read from

A varint is written with as few bytes as it can be. So what is read of bytes is a word that is written with as many at
most, and so is a tag. Only a value can take more: a word of 32 bits stands for a negative number that is written with
the sign in all of 64. That takes at most twice as many bytes.
-/

namespace SheetCompiler

namespace WireType

/-! ### Words -/

variable {bytes rest : Bytes}

theorem length_write_of_readVarint {n : Nat} (h : readVarint bytes = .ok (n, rest)) :
    (Varint.write n).length + rest.length ≤ bytes.length := by
  rw [readVarint, Varint.read] at h
  rcases hscan : Varint.scan 0 bytes with ⟨outcome, after⟩
  rw [hscan] at h
  cases outcome with
  | error e => cases h
  | ok m =>
      cases h
      exact Varint.length_write_of_scan hscan

/-- The word of a byte string, read with a length that may have bytes to spare. -/
theorem length_delimit_of_readDelimited {word : Bytes} (h : readDelimited bytes = .ok (word, rest)) :
    (delimit word).length + rest.length ≤ bytes.length := by
  obtain ⟨⟨n, after⟩, hvarint, htake⟩ := bind_eq_ok.1 h
  have hlength := length_write_of_readVarint hvarint
  obtain ⟨rfl, hrest⟩ := take_length htake
  rw [delimit, List.length_append]
  omega

theorem length_write_of_read {form : WireType} {word : form.Word} (h : form.read bytes = .ok (word, rest)) :
    (form.write word).length + rest.length ≤ bytes.length := by
  cases form with
  | varint =>
      obtain ⟨⟨n, after⟩, hvarint, h⟩ := bind_eq_ok.1 h
      cases h
      have hlength := length_write_of_readVarint hvarint
      have hword : (Varint.write (UInt64.ofNat n).toNat).length ≤ (Varint.write n).length :=
        Varint.length_write_mono (UInt64.toNat_ofNat' ▸ Nat.mod_le _ _)
      exact Nat.le_trans (Nat.add_le_add_right hword _) hlength
  | fixed64 =>
      obtain ⟨⟨word, after⟩, htake, h⟩ := bind_eq_ok.1 h
      cases h
      obtain ⟨hword, hrest⟩ := take_length htake
      rw [write, length_littleEndian]
      omega
  | lengthDelimited => exact length_delimit_of_readDelimited h
  | fixed32 =>
      obtain ⟨⟨word, after⟩, htake, h⟩ := bind_eq_ok.1 h
      cases h
      obtain ⟨hword, hrest⟩ := take_length htake
      rw [write, length_littleEndian]
      omega

/-- The form of a word is in the lowest bits of a tag, which are in its first byte. -/
theorem length_tag_le (form form' : WireType) (number : Nat) :
    (form.tag number).length ≤ (form'.tag number).length := by
  have hform : form.number < 8 := by cases form <;> decide
  have hpos : 0 < (form'.tag number).length := Varint.length_write_pos _
  have hlt : number * 8 + form'.number < 0x80 ^ (form'.tag number).length := Varint.lt_pow_length_write _
  refine (Varint.length_write_le_iff hpos _).2 ?_
  obtain ⟨k, hk⟩ := Nat.exists_eq_succ_of_ne_zero (Nat.ne_of_gt hpos)
  rw [hk, Nat.pow_succ] at hlt ⊢
  omega

end WireType

theorem Entry.length_tag_of_readTag {bytes after : Bytes} {number : Nat} {form : WireType}
    (h : readTag bytes = .ok ((number, form), after)) (form' : WireType) :
    (form'.tag number).length + after.length ≤ bytes.length := by
  obtain ⟨⟨tag, rest⟩, hvarint, h⟩ := bind_eq_ok.1 h
  simp only at h
  split at h
  · cases h
  split at h
  · cases h
    have hlength := WireType.length_write_of_readVarint hvarint
    have hform := form'.length_tag_le .varint (tag / 8)
    have htag : (WireType.varint.tag (tag / 8)).length ≤ (Varint.write tag).length :=
      Varint.length_write_mono (Nat.div_mul_le_self tag 8)
    omega
  · cases h

/-! ### Values -/

namespace Text.Utf8

theorem encode_of_decode {bytes : Bytes} {s : String} (h : decode bytes = .ok s) : encode s = bytes := by
  rw [decode] at h
  split at h
  · next hs =>
    cases h
    rw [String.fromUTF8?] at hs
    split at hs
    · cases hs
      rfl
    · cases hs
  · cases h

end Text.Utf8

namespace Value

/-- A small word says the same as a number of 32 bits and as one of 64. -/
theorem toInt64_toInt32_of_lt {n : UInt64} (h : n.toNat < 2 ^ 28) : n.toInt64.toInt32.toInt64.toUInt64 = n := by
  have hn : n.toInt64.toInt = n.toNat := BitVec.toInt_eq_toNat_of_lt (by change 2 * n.toNat < _; omega)
  rw [toInt64_toInt32 (by omega), UInt64.toUInt64_toInt64]

theorem toNat_toUInt32_le (n : UInt64) : n.toUInt32.toUInt64.toNat ≤ n.toNat := by
  rw [UInt32.toNat_toUInt64, UInt64.toNat_toUInt32]
  exact Nat.mod_le _ _

theorem toNat_toUInt64_bne_zero_le (n : UInt64) : (n != 0).toUInt64.toNat ≤ n.toNat := by
  by_cases h : n = 0
  · subst h
    decide
  · have hpos : n.toNat ≠ 0 := fun h0 => h (UInt64.toNat_inj.1 h0)
    rw [bne_iff_ne.2 h]
    exact Nat.pos_of_ne_zero hpos

/-- What a word carries is written as one that is at most twice as long. -/
theorem length_write_word? {t : ValueType} {word word' : t.wireType.Word} {v : Value} (h : ofWord t word = .ok v)
    (hword : v.word? t = some word') : (t.wireType.write word').length ≤ 2 * (t.wireType.write word).length := by
  have hvarint {n m : UInt64} (h : m.toNat < 2 ^ 28 → n.toNat ≤ m.toNat) :
      (Varint.write n.toNat).length ≤ 2 * (Varint.write m.toNat).length :=
    Varint.length_write_le_two_mul n.toNat_lt h
  have hdouble {n m : Nat} (h : n = m) : n ≤ 2 * m := by omega
  have hfixed (count n m : Nat) : (WireType.littleEndian count n).length = (WireType.littleEndian count m).length := by
    rw [WireType.length_littleEndian, WireType.length_littleEndian]
  cases t with
  | enum name =>
      cases h
      cases hword
      exact hvarint fun hlt => Nat.le_of_eq (congrArg UInt64.toNat (toInt64_toInt32_of_lt hlt))
  | scalar kind =>
      cases kind
      case int32 =>
        cases h
        cases hword
        exact hvarint fun hlt => Nat.le_of_eq (congrArg UInt64.toNat (toInt64_toInt32_of_lt hlt))
      case int64 =>
        cases h
        cases hword
        exact hvarint fun _ => Nat.le_of_eq (congrArg UInt64.toNat (UInt64.toUInt64_toInt64 _))
      case uint32 =>
        cases h
        cases hword
        exact hvarint fun _ => toNat_toUInt32_le _
      case uint64 =>
        cases h
        cases hword
        exact hvarint fun _ => Nat.le_refl _
      case sint32 =>
        cases h
        cases hword
        exact hvarint fun hlt => Nat.le_of_eq (congrArg UInt64.toNat (Zigzag.encode_toInt32_decode hlt))
      case sint64 =>
        cases h
        cases hword
        exact hvarint fun _ => Nat.le_of_eq (congrArg UInt64.toNat (Zigzag.encode_decode _))
      case bool =>
        cases h
        cases hword
        exact hvarint fun _ => toNat_toUInt64_bne_zero_le _
      case string =>
        simp only [ofWord] at h
        split at h
        · next hdecode =>
          cases h
          cases hword
          exact hdouble (congrArg (List.length ∘ WireType.delimit) (Text.Utf8.encode_of_decode hdecode))
        · cases h
      case bytes =>
        cases h
        cases hword
        exact hdouble rfl
      all_goals exact hdouble (hfixed _ _ _)

end Value

end SheetCompiler

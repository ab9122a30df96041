import SheetCompiler.Wire.Word

/-!
# Zigzag codes

Every number of 64 bits has one code and every code stands for one number: the even codes are twice the numbers from
zero up, and the odd ones lie between them. So the codes below `2 ^ 32` are those of the numbers of 32 bits, and the
smaller type reads them with the code of the larger one.
-/

namespace SheetCompiler

theorem toInt64_toInt32 {v : Int64} (h : -2 ^ 31 ≤ v.toInt ∧ v.toInt < 2 ^ 31) : v.toInt32.toInt64 = v := by
  apply Int64.toInt_inj.1
  rw [Int32.toInt_toInt64, Int64.toInt_toInt32]
  exact Int.bmod_eq_of_le (by omega) (by omega)

namespace Zigzag

/-! ### Codes bit by bit -/

theorem and_one (x : BitVec 64) : x &&& 1#64 = BitVec.ofNat 64 (x.toNat % 2) := by
  apply BitVec.eq_of_toNat_eq
  rw [BitVec.toNat_and, BitVec.toNat_ofNat, BitVec.toNat_ofNat]
  change x.toNat &&& 1 = _
  rw [Nat.and_one_is_mod]
  omega

/-- Shifting in the sign until nothing else is left. -/
theorem sshiftRight_63 (x : BitVec 64) : x.sshiftRight 63 = if x.msb then BitVec.allOnes 64 else 0#64 := by
  ext i hi
  have hlast (h : 63 + i < 64) : x[63 + i] = x.msb := by
    obtain rfl : i = 0 := by omega
    rw [BitVec.msb_eq_getLsbD_last]
    exact (BitVec.getLsbD_eq_getElem h).symm
  have hcopies : (x.sshiftRight 63)[i] = x.msb := by
    rw [BitVec.getElem_sshiftRight]
    split
    · next h => exact hlast h
    · rfl
  cases hmsb : x.msb with
  | false => rw [hcopies, hmsb, if_neg Bool.false_ne_true, BitVec.getElem_zero]
  | true => rw [hcopies, hmsb, if_pos rfl, BitVec.getElem_allOnes]

theorem toNat_shiftLeft_one (x : BitVec 64) : (x <<< 1).toNat = 2 * x.toNat % 2 ^ 64 := by
  rw [BitVec.toNat_shiftLeft, Nat.shiftLeft_eq, Nat.pow_one, Nat.mul_comm]

theorem toNat_shiftRight_one (x : BitVec 64) : (x >>> 1).toNat = x.toNat / 2 := by
  rw [BitVec.toNat_ushiftRight, Nat.shiftRight_eq_div_pow]

/-- The sign turns all bits round. -/
theorem toBitVec_encode (v : Int64) : (encode v).toBitVec
    = if v.toBitVec.msb then ~~~(v.toBitVec <<< 1) else v.toBitVec <<< 1 := by
  change v.toBitVec <<< 1 ^^^ v.toBitVec.sshiftRight 63 = _
  rw [sshiftRight_63]
  split
  · exact BitVec.xor_allOnes
  · exact BitVec.xor_zero

/-- The lowest bit turns all others round. -/
theorem toBitVec_decode (code : UInt64) : (decode code).toBitVec
    = if code.toNat % 2 = 0 then code.toBitVec >>> 1 else ~~~(code.toBitVec >>> 1) := by
  change code.toBitVec >>> 1 ^^^ -(code.toBitVec &&& 1#64) = _
  rw [and_one]
  rcases Nat.mod_two_eq_zero_or_one code.toNat with heven | hodd
  · rw [if_pos heven]
    change _ ^^^ -BitVec.ofNat 64 (code.toNat % 2) = _
    rw [heven, BitVec.neg_zero, BitVec.xor_zero]
  · have hones : -BitVec.ofNat 64 1 = BitVec.allOnes 64 := by decide
    rw [if_neg (by omega)]
    change _ ^^^ -BitVec.ofNat 64 (code.toNat % 2) = _
    rw [hodd, hones, BitVec.xor_allOnes]

theorem decode_encode (v : Int64) : decode (encode v) = v := by
  apply Int64.toBitVec.inj
  have hcode : (encode v).toNat = (encode v).toBitVec.toNat := rfl
  rw [toBitVec_decode, hcode, toBitVec_encode]
  generalize v.toBitVec = x
  have hlt := x.isLt
  have hdouble := toNat_shiftLeft_one x
  cases hsign : x.msb with
  | false =>
      have hsmall := BitVec.msb_eq_false_iff_two_mul_lt.1 hsign
      rw [if_neg Bool.false_ne_true, if_pos (by omega)]
      apply BitVec.eq_of_toNat_eq
      rw [toNat_shiftRight_one, hdouble]
      omega
  | true =>
      have hlarge := BitVec.msb_eq_true_iff_two_mul_ge.1 hsign
      have hnot : (~~~(x <<< 1)).toNat = 2 ^ 64 - 1 - 2 * x.toNat % 2 ^ 64 := by rw [BitVec.toNat_not, hdouble]
      rw [if_pos rfl, if_neg (by omega)]
      apply BitVec.eq_of_toNat_eq
      rw [BitVec.toNat_not, toNat_shiftRight_one, hnot]
      omega

theorem encode_decode (code : UInt64) : encode (decode code) = code := by
  apply UInt64.toBitVec_inj.1
  have hcode : code.toNat = code.toBitVec.toNat := rfl
  rw [toBitVec_encode, toBitVec_decode, hcode]
  generalize code.toBitVec = x
  have hlt := x.isLt
  have hhalf := toNat_shiftRight_one x
  split
  · next heven =>
    have hsign : (x >>> 1).msb = false := BitVec.msb_eq_false_iff_two_mul_lt.2 (by omega)
    rw [hsign, if_neg Bool.false_ne_true]
    apply BitVec.eq_of_toNat_eq
    rw [toNat_shiftLeft_one, hhalf]
    omega
  · next hodd =>
    have hnot : (~~~(x >>> 1)).toNat = 2 ^ 64 - 1 - x.toNat / 2 := by rw [BitVec.toNat_not, hhalf]
    have hsign : (~~~(x >>> 1)).msb = true := BitVec.msb_eq_true_iff_two_mul_ge.2 (by omega)
    rw [hsign, if_pos rfl]
    apply BitVec.eq_of_toNat_eq
    rw [BitVec.toNat_not, toNat_shiftLeft_one, hnot]
    omega

/-! ### Codes as integers -/

/-- Even codes stand for the numbers from zero up and odd ones for those from -1 down. -/
theorem toInt_decode (code : UInt64) : (decode code).toInt
    = if code.toNat % 2 = 0 then (code.toNat / 2 : Int) else -(code.toNat / 2 : Int) - 1 := by
  have hhalf : (code.toBitVec >>> 1).toNat = code.toNat / 2 := toNat_shiftRight_one code.toBitVec
  have hlt := code.toNat_lt
  change (decode code).toBitVec.toInt = _
  rw [toBitVec_decode]
  split
  · rw [BitVec.toInt_eq_toNat_cond, hhalf]
    omega
  · rw [BitVec.toInt_eq_toNat_cond, BitVec.toNat_not, hhalf]
    omega

theorem toInt_decode_of_lt {code : UInt64} (h : code.toNat < 2 ^ 32) :
    -2 ^ 31 ≤ (decode code).toInt ∧ (decode code).toInt < 2 ^ 31 := by
  rw [toInt_decode]
  split <;> omega

/-- A small word says the same as a number of 32 bits and as one of 64. -/
theorem encode_toInt32_decode {code : UInt64} (h : code.toNat < 2 ^ 28) :
    encode (decode code).toInt32.toInt64 = code := by
  rw [toInt64_toInt32 (toInt_decode_of_lt (by omega)), encode_decode]

/-- The code as an integer. -/
theorem toNat_encode (v : Int64) :
    ((encode v).toNat : Int) = if 0 ≤ v.toInt then 2 * v.toInt else -2 * v.toInt - 1 := by
  have hdecode := toInt_decode (encode v)
  rw [decode_encode] at hdecode
  split at hdecode <;> split <;> omega

theorem encode_lt_iff (v : Int64) : -2 ^ 31 ≤ v.toInt ∧ v.toInt < 2 ^ 31 ↔ (encode v).toNat < 2 ^ 32 := by
  have hcode := toNat_encode v
  split at hcode <;> omega

/-- What is cut off when a code is read as one of 32 bits. -/
theorem ofWord_encode_iff (v : Int64) :
    (encode v).toNat < 2 ^ 32 ↔ Value.ofWord (.scalar .sint32) (encode v) = .ok (.int v) := by
  rw [Value.ofWord, decode_encode]
  constructor
  · intro h
    rw [toInt64_toInt32 ((encode_lt_iff v).2 h)]
  · intro h
    have hkept : v.toInt32.toInt64 = v := by
      injection h with h
      injection h
    rw [← encode_lt_iff, ← hkept, Int32.toInt_toInt64]
    exact ⟨Int32.le_toInt _, Int32.toInt_lt _⟩

/-- A number and its code determine each other, without any overflow, and 32 bits suffice for both or for none. -/
theorem codes_exact :
    (∀ v : Int64, ((encode v).toNat : Int) = if 0 ≤ v.toInt then 2 * v.toInt else -2 * v.toInt - 1)
      ∧ (∀ v, decode (encode v) = v) ∧ (∀ code, encode (decode code) = code)
      ∧ (∀ v : Int64, -2 ^ 31 ≤ v.toInt ∧ v.toInt < 2 ^ 31 ↔ (encode v).toNat < 2 ^ 32)
      ∧ ∀ v, (encode v).toNat < 2 ^ 32 ↔ Value.ofWord (.scalar .sint32) (encode v) = .ok (.int v) :=
  ⟨toNat_encode, decode_encode, encode_decode, encode_lt_iff, ofWord_encode_iff⟩

end Zigzag

end SheetCompiler

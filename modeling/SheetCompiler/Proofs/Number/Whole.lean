import SheetCompiler.Number.Whole
import SheetCompiler.Proofs.Number.Rounding

/-!
# Whole numbers from numerals

What each reader of whole numbers makes of a numeral, however it is spelled. An integer numeral within 64 bits is read
as it stands. Every other numeral is read as the double that is nearest to it, so that the answer is the rounded number
where this is an integer in range.
-/

namespace SheetCompiler

namespace Double

/-! ### Doubles among the integers -/

variable {x : ℚ}

@[simp]
theorem rounded_neg (x : ℚ) : rounded (-x) = -rounded x := BinaryFormat.double.rounded_neg x

/-- An integer that fits into a significand is a double. -/
theorem rounded_intCast {z : ℤ} (hz : |z| < 2 ^ 53) : rounded z = z := by
  by_cases hzero : z = 0
  · simp [hzero, rounded]
  rw [rounded, BinaryFormat.rounded_eq_self_iff]
  have hpos : (0 : ℚ) < |(z : ℚ)| := abs_pos.2 (Int.cast_ne_zero.2 hzero)
  have hlog : Int.log 2 |(z : ℚ)| < 53 := by
    rw [BinaryFormat.log_lt_iff hpos]
    exact_mod_cast hz
  obtain ⟨e, he⟩ : ∃ e : ℕ, BinaryFormat.double.unitExponent z = -e := by
    refine ⟨(-BinaryFormat.double.unitExponent z).toNat, ?_⟩
    rw [BinaryFormat.unitExponent, BinaryFormat.minExponent_double, BinaryFormat.fractionBits_double]
    omega
  refine ⟨z * 2 ^ e, ?_⟩
  rw [BinaryFormat.unit, he, zpow_neg, zpow_natCast]
  push_cast
  field_simp

/-- A number is no nearer to an integer that it is not than its denominator allows. -/
theorem one_div_den_le {n : ℤ} (h : x ≠ n) : 1 / x.den ≤ |x - n| := by
  have hden : (0 : ℚ) < x.den := Nat.cast_pos.2 x.den_pos
  have hscaled : (x - n) * x.den = (x.num - n * x.den : ℤ) := by
    push_cast
    rw [sub_mul, Rat.mul_den_eq_num]
  have hne : x.num - n * x.den ≠ 0 := by
    intro hzero
    rw [hzero, Int.cast_zero, mul_eq_zero] at hscaled
    exact hscaled.elim (fun hsame => h (sub_eq_zero.1 hsame)) hden.ne'
  calc 1 / (x.den : ℚ)
    _ ≤ |((x.num - n * x.den : ℤ) : ℚ)| / x.den :=
      div_le_div_of_nonneg_right (by exact_mod_cast Int.one_le_abs hne) hden.le
    _ = |x - n| := by rw [← hscaled, abs_mul, abs_of_pos hden, mul_div_cancel_right₀ _ hden.ne']

/-- Half a unit is less than what the denominator allows, if the numerator fits into a significand and the denominator
is not finer than the least unit. -/
theorem half_unit_lt_one_div_den (hx : x ≠ 0) (hnum : |x.num| < 2 ^ 53) (hden : x.den ≤ 2 ^ 1074) :
    BinaryFormat.double.unit x / 2 < 1 / x.den := by
  have hpos : (0 : ℚ) < x.den := Nat.cast_pos.2 x.den_pos
  have hunit := BinaryFormat.double.unit_pos x
  by_cases hleast : BinaryFormat.double.unitExponent x = BinaryFormat.double.minExponent
  · refine lt_of_lt_of_le (half_lt_self hunit) ?_
    have hmin : BinaryFormat.double.minExponent = -((1074 : ℕ) : ℤ) := BinaryFormat.minExponent_double
    rw [BinaryFormat.unit, hleast, hmin, zpow_neg, zpow_natCast, ← one_div]
    generalize 1074 = e at hden ⊢
    exact one_div_le_one_div_of_le hpos (by exact_mod_cast hden)
  · have hfull := BinaryFormat.double.le_quotient (abs_pos.2 hx) (by rwa [BinaryFormat.unitExponent_abs])
    rw [BinaryFormat.unit_abs, BinaryFormat.fractionBits_double, le_div_iff₀ hunit] at hfull
    have hlt : ((|x.num| : ℤ) : ℚ) < 2 ^ 53 := by exact_mod_cast hnum
    have hsmall : |x| < 2 ^ 53 * (1 / x.den) := by
      calc |x|
        _ = (|x.num| : ℤ) / x.den := by rw [Int.cast_abs, ← Nat.abs_cast x.den, ← abs_div, Rat.num_div_den]
        _ < 2 ^ 53 / x.den := div_lt_div_of_pos_right hlt hpos
        _ = 2 ^ 53 * (1 / x.den) := (mul_one_div ..).symm
    linarith

/-- Such a number is rounded to an integer only if it is that integer. -/
theorem rounded_eq_intCast_iff (hnum : |x.num| < 2 ^ 53) (hden : x.den ≤ 2 ^ 1074) {n : ℤ} :
    rounded x = n ↔ x = n := by
  constructor
  · intro h
    by_contra hne
    have hx : x ≠ 0 := by
      rintro rfl
      exact hne (by rw [← h, rounded, BinaryFormat.rounded_zero])
    have hgap : 1 / (x.den : ℚ) ≤ BinaryFormat.double.unit x / 2 := by
      calc 1 / (x.den : ℚ)
        _ ≤ |x - n| := one_div_den_le hne
        _ = |x - rounded x| := by rw [h]
        _ ≤ BinaryFormat.double.unit x / 2 := BinaryFormat.double.abs_sub_rounded_le x
    exact absurd hgap (not_le.2 (half_unit_lt_one_div_den hx hnum hden))
  · rintro rfl
    exact rounded_intCast (by simpa using hnum)

theorem two_pow_le_rounded (k : ℕ) (h : 2 ^ k ≤ x) : 2 ^ k ≤ rounded x := by
  have hrounded := BinaryFormat.double.zpow_le_rounded (x := x) (k := k)
    (by rw [BinaryFormat.minExponent_double]; omega) (by rwa [zpow_natCast])
  rwa [zpow_natCast] at hrounded

/-- From its lower end up, the first half unit of a range of exponents is rounded down. -/
theorem rounded_eq_two_pow_iff (h : 2 ^ 63 ≤ x) : rounded x = 2 ^ 63 ↔ x ≤ 2 ^ 63 + 1024 := by
  rcases lt_or_ge x (2 ^ 64) with hlt | hge
  · have hpos : 0 < x := lt_of_lt_of_le (by norm_num) h
    have hlog : Int.log 2 x = 63 := BinaryFormat.log_eq_of_bounds hpos (by exact_mod_cast h) (by exact_mod_cast hlt)
    have hunit : BinaryFormat.double.unit x = 2 ^ 11 := by
      rw [BinaryFormat.unit, BinaryFormat.unitExponent, abs_of_pos hpos, hlog, BinaryFormat.minExponent_double,
        BinaryFormat.fractionBits_double]
      norm_num
    have hsignificand : rounded x = 2 ^ 63 ↔ roundEven (x / 2 ^ 11) = 2 ^ 52 := by
      rw [rounded, BinaryFormat.rounded, hunit, ← Int.cast_inj (α := ℚ)]
      push_cast
      constructor <;> intro h <;> linarith
    rw [hsignificand, roundEven_eq_iff]
    constructor
    · intro hrounds
      have hnear := (abs_le.1 hrounds.near).2
      push_cast at hnear
      linarith
    · intro hle
      refine ⟨abs_le.2 ⟨?_, ?_⟩, fun _ => ⟨2 ^ 51, by norm_num⟩⟩ <;> push_cast <;> linarith
  · refine iff_of_false (fun heq => ?_) fun hle => by linarith
    have hrounded := two_pow_le_rounded 64 hge
    rw [heq] at hrounded
    norm_num at hrounded

/-- Of the integers that do not fit into 64 bits with a sign, only the first half unit is rounded to one that does. -/
theorem rounded_outside_signed {z n : ℤ} (hz : ¬(-2 ^ 63 ≤ z ∧ z < 2 ^ 63)) :
    (-2 ^ 63 ≤ n ∧ n < 2 ^ 63) ∧ rounded z = n ↔ (-2 ^ 63 - 1024 ≤ z ∧ z < -2 ^ 63) ∧ n = -2 ^ 63 := by
  rcases lt_or_ge z (2 ^ 63) with hneg | hlarge
  · obtain ⟨y, rfl⟩ : ∃ y, z = -y := ⟨-z, (neg_neg z).symm⟩
    have hy : (2 : ℚ) ^ 63 ≤ y := by exact_mod_cast (show (2 : ℤ) ^ 63 ≤ y by omega)
    have hreach : (y : ℚ) ≤ 2 ^ 63 + 1024 ↔ y ≤ 2 ^ 63 + 1024 := by
      rw [← Int.cast_le (R := ℚ)]
      norm_num
    have hend := (rounded_eq_two_pow_iff hy).trans hreach
    rw [Int.cast_neg, rounded_neg]
    constructor
    · rintro ⟨hn, hrounded⟩
      have hle : (n : ℚ) ≤ (-2 ^ 63 : ℤ) := by
        rw [← hrounded]
        push_cast
        linarith [two_pow_le_rounded 63 hy]
      obtain rfl : n = -2 ^ 63 := by
        have := Int.cast_le.1 hle
        omega
      push_cast at hrounded
      have hreached := hend.1 (neg_inj.1 hrounded)
      omega
    · rintro ⟨hreached, rfl⟩
      rw [hend.2 (by omega)]
      norm_num
  · refine iff_of_false ?_ (by omega)
    rintro ⟨hn, hrounded⟩
    have hle := two_pow_le_rounded 63 (x := z) (by exact_mod_cast hlarge)
    rw [hrounded] at hle
    have : (2 : ℤ) ^ 63 ≤ n := by exact_mod_cast hle
    omega

theorem rounded_outside_unsigned {z : ℤ} (hz : z ≤ 0 ∨ 2 ^ 64 ≤ z) {n : ℕ} :
    n < 2 ^ 64 ∧ rounded z = n ↔ z < 2 ^ 64 ∧ z = n := by
  rcases hz with hneg | hlarge
  · rcases hneg.eq_or_lt with rfl | hneg
    · have hzero : rounded ((0 : ℤ) : ℚ) = 0 := by simp [rounded]
      rw [hzero]
      constructor
      · rintro ⟨-, h⟩
        exact ⟨by decide, by exact_mod_cast h⟩
      · rintro ⟨-, h⟩
        obtain rfl : n = 0 := by omega
        exact ⟨by decide, by simp⟩
    · refine iff_of_false ?_ (by omega)
      rintro ⟨-, hrounded⟩
      have hone := two_pow_le_rounded 0 (x := (-z : ℤ)) (by exact_mod_cast (show (1 : ℤ) ≤ -z by omega))
      push_cast at hone
      rw [rounded_neg, hrounded] at hone
      have : (0 : ℚ) ≤ n := Nat.cast_nonneg n
      norm_num at hone
      linarith
  · refine iff_of_false ?_ (by omega)
    rintro ⟨hn, hrounded⟩
    have hle := two_pow_le_rounded 64 (x := z) (by exact_mod_cast hlarge)
    rw [hrounded] at hle
    have : 2 ^ 64 ≤ n := by exact_mod_cast hle
    omega

end Double

namespace Whole

open Numeral Text

variable {s : Spelling} {text : String}

/-! ### By way of the double -/

/-- A numeral that is read as an integer, as a double, is rounded to that integer. -/
theorem rounded_of_ofDouble? {n : ℤ} (h : ofDouble? s.chars = some n) : Double.rounded s.value = n := by
  rw [ofDouble?, Double.read?, s.signed?_chars] at h
  rw [s.value_eq]
  exact Double.rounded_of_integer? h

theorem ofDouble?_of_rounded {n : ℤ} (hn : |n| ≤ 2 ^ 64) (h : Double.rounded s.value = n) :
    ofDouble? s.chars = some n := by
  rw [s.value_eq] at h
  rw [ofDouble?, Double.read?, s.signed?_chars]
  exact Double.integer?_of_rounded hn h

/-- Within a range of integers of 64 bits the answer is the rounded number. -/
theorem filter_ofDouble?_eq_some_iff {p : ℤ → Bool} (hp : ∀ n, p n = true → |n| ≤ 2 ^ 64) {n : ℤ} :
    (ofDouble? s.chars).filter p = some n ↔ p n = true ∧ Double.rounded s.value = n := by
  rw [Option.filter_eq_some_iff]
  constructor
  · rintro ⟨h, hn⟩
    exact ⟨hn, rounded_of_ofDouble? h⟩
  · rintro ⟨hn, h⟩
    exact ⟨ofDouble?_of_rounded (hp n hn) h, hn⟩

theorem filter_ofDouble?_eq_natCast_iff {p : ℤ → Bool} (hp : ∀ n, p n = true → 0 ≤ n ∧ n ≤ 2 ^ 64) {m : ℤ} :
    (ofDouble? s.chars).filter p = some m ↔ ∃ n : ℕ, m = n ∧ p n = true ∧ Double.rounded s.value = n := by
  rw [filter_ofDouble?_eq_some_iff fun n hn => abs_le.2 ⟨by have := hp n hn; omega, (hp n hn).2⟩]
  constructor
  · rintro ⟨hm, h⟩
    obtain ⟨n, rfl⟩ := Int.eq_ofNat_of_zero_le (hp m hm).1
    exact ⟨n, rfl, hm, by exact_mod_cast h⟩
  · rintro ⟨n, rfl, hn, h⟩
    exact ⟨hn, by exact_mod_cast h⟩

theorem signed_ofDouble? {n : ℤ} : ((ofDouble? s.chars).filter fun n => -2 ^ 63 ≤ n && n < 2 ^ 63) = some n
    ↔ (-2 ^ 63 ≤ n ∧ n < 2 ^ 63) ∧ Double.rounded s.value = n := by
  rw [filter_ofDouble?_eq_some_iff]
  · simp
  · intro n hn
    simp only [Bool.and_eq_true, decide_eq_true_eq] at hn
    exact abs_le.2 ⟨by omega, by omega⟩

theorem unsigned_ofDouble? {n : ℕ} :
    ((ofDouble? s.chars).filter fun n => 0 ≤ n && n < 2 ^ 64).map Int.toNat = some n
      ↔ n < 2 ^ 64 ∧ Double.rounded s.value = n := by
  have hp (m : ℤ) (hm : (0 ≤ m && m < 2 ^ 64) = true) : 0 ≤ m ∧ m ≤ 2 ^ 64 := by
    simp only [Bool.and_eq_true, decide_eq_true_eq] at hm
    omega
  simp only [Option.map_eq_some_iff, filter_ofDouble?_eq_natCast_iff hp]
  constructor
  · rintro ⟨_, ⟨k, rfl, hk, h⟩, rfl⟩
    simp only [Bool.and_eq_true, decide_eq_true_eq] at hk
    exact ⟨by omega, h⟩
  · rintro ⟨hn, h⟩
    exact ⟨n, ⟨n, rfl, by simpa using hn, h⟩, Int.toNat_natCast n⟩

theorem count_ofDouble? {n : ℕ} :
    (((ofDouble? s.chars).filter fun n => 0 ≤ n && n ≤ 2 ^ 64).map fun n => min n.toNat (2 ^ 64 - 1)) = some n
      ↔ n < 2 ^ 64 ∧ (Double.rounded s.value = n ∨ n = 2 ^ 64 - 1 ∧ Double.rounded s.value = 2 ^ 64) := by
  have hp (m : ℤ) (hm : (0 ≤ m && m ≤ 2 ^ 64) = true) : 0 ≤ m ∧ m ≤ 2 ^ 64 := by
    simpa using hm
  simp only [Option.map_eq_some_iff, filter_ofDouble?_eq_natCast_iff hp]
  constructor
  · rintro ⟨_, ⟨k, rfl, hk, h⟩, rfl⟩
    simp only [Bool.and_eq_true, decide_eq_true_eq] at hk
    rcases Nat.lt_or_ge k (2 ^ 64) with hlt | hge
    · rw [Int.toNat_natCast, min_eq_left (by omega)]
      exact ⟨hlt, .inl h⟩
    · obtain rfl : k = 2 ^ 64 := by omega
      refine ⟨by decide, .inr ⟨by decide, ?_⟩⟩
      rw [h]
      norm_num
  · rintro ⟨hn, h | ⟨rfl, h⟩⟩
    · exact ⟨n, ⟨n, rfl, by simpa using hn.le, h⟩, by rw [Int.toNat_natCast]; omega⟩
    · exact ⟨2 ^ 64, ⟨2 ^ 64, rfl, by decide, by rw [h]; norm_num⟩, by decide⟩

section Readers

variable (htext : trimChars text.toList = s.chars)
include htext

/-! ### Numerals with a point or an exponent -/

theorem signed?_eq_some_iff (hs : ¬s.IsInteger) {n : ℤ} :
    signed? text = some n ↔ (-2 ^ 63 ≤ n ∧ n < 2 ^ 63) ∧ Double.rounded s.value = n := by
  simp only [signed?, htext, Spelling.integer?_chars_eq_none hs, Option.filter_none]
  exact signed_ofDouble?

theorem unsigned?_eq_some_iff (hs : ¬s.IsInteger) {n : ℕ} :
    unsigned? text = some n ↔ n < 2 ^ 64 ∧ Double.rounded s.value = n := by
  simp only [unsigned?, htext, Spelling.unsigned?_chars_eq_none hs, Option.filter_none]
  exact unsigned_ofDouble?

theorem count?_eq_some_iff (hs : ¬s.IsInteger) {n : ℕ} : count? text = some n
    ↔ n < 2 ^ 64 ∧ (Double.rounded s.value = n ∨ n = 2 ^ 64 - 1 ∧ Double.rounded s.value = 2 ^ 64) := by
  simp only [count?, htext, Spelling.unsigned?_chars_eq_none hs, Option.filter_none]
  exact count_ofDouble?

/-! ### Integer numerals -/

theorem signed?_of_isInteger (hs : s.IsInteger) {n : ℤ} : signed? text = some n
    ↔ (-2 ^ 63 ≤ s.integer ∧ s.integer < 2 ^ 63) ∧ n = s.integer
      ∨ (-2 ^ 63 - 1024 ≤ s.integer ∧ s.integer < -2 ^ 63) ∧ n = -2 ^ 63 := by
  simp only [signed?, htext, hs.integer?_chars]
  by_cases hfits : -2 ^ 63 ≤ s.integer ∧ s.integer < 2 ^ 63
  · rw [Option.filter_some, if_pos (by simpa using hfits)]
    simp only [Option.some_inj]
    omega
  · rw [Option.filter_some, if_neg (by simpa using hfits)]
    simp only [signed_ofDouble?, hs.value_eq, Double.rounded_outside_signed hfits]
    exact ⟨.inr, fun h => h.resolve_left fun h => hfits h.1⟩

theorem unsigned?_of_isInteger (hs : s.IsInteger) {n : ℕ} :
    unsigned? text = some n ↔ s.integer < 2 ^ 64 ∧ s.integer = n := by
  simp only [unsigned?, htext, hs.unsigned?_chars]
  cases hsign : s.sign.isMinus with
  | true =>
      have hinteger : s.integer = -ofDigits s.whole := by rw [Spelling.integer, hsign]; rfl
      simp only [if_true, Option.filter_none, unsigned_ofDouble?, hs.value_eq]
      exact Double.rounded_outside_unsigned (.inl (by omega))
  | false =>
      have hinteger : s.integer = ofDigits s.whole := by rw [Spelling.integer, hsign]; rfl
      simp only [Bool.false_eq_true, if_false, Option.filter_some, decide_eq_true_eq]
      by_cases hfits : ofDigits s.whole < 2 ^ 64
      · simp only [if_pos hfits, Option.some_inj, hinteger]
        omega
      · simp only [if_neg hfits, unsigned_ofDouble?, hs.value_eq]
        exact Double.rounded_outside_unsigned (.inr (by omega))

end Readers

end Whole

end SheetCompiler

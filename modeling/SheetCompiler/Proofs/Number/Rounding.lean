import Mathlib.Data.Int.Log
import Mathlib.Data.Rat.Floor
import Mathlib.Tactic.Linarith
import Mathlib.Tactic.Positivity
import Mathlib.Tactic.Ring
import SheetCompiler.Proofs.Number.Spelling
import SheetCompiler.Proofs.Number.Widening

/-!
# Rounding, in rational numbers

A binary format rounds quotients of naturals by integer arithmetic on encodings. What this comes to is said here in the
rational numbers, where a format without a greatest exponent has for each number a unit in the last place, and the
number is rounded to a multiple of it. An encoding that is finite stands for just that multiple.
-/

namespace SheetCompiler

/-! ### The nearest integer -/

/-- An integer to which no other is nearer, of two the even one. -/
structure RoundsTo (y : ℚ) (k : ℤ) : Prop where
  near : |y - k| ≤ 1 / 2
  even : |y - k| = 1 / 2 → Even k

/-- The integer that a number is rounded to. -/
def roundEven (y : ℚ) : ℤ :=
  if 2 * Int.fract y < 1 ∨ 2 * Int.fract y = 1 ∧ Even ⌊y⌋ then ⌊y⌋ else ⌊y⌋ + 1

section RoundEven

variable {y : ℚ} {k l : ℤ}

theorem roundsTo_roundEven (y : ℚ) : RoundsTo y (roundEven y) := by
  have hfract : y = ⌊y⌋ + Int.fract y := (Int.floor_add_fract y).symm
  have hnonneg := Int.fract_nonneg y
  have hlt := Int.fract_lt_one y
  rw [roundEven]
  split
  · next hdown =>
    have habs : |y - ⌊y⌋| = Int.fract y := by rw [Int.self_sub_floor, abs_of_nonneg hnonneg]
    constructor
    · rw [habs]
      rcases hdown with h | ⟨h, -⟩ <;> linarith
    · intro htie
      rw [habs] at htie
      exact (hdown.resolve_left (by linarith)).2
  · next hup =>
    have habs : |y - (⌊y⌋ + 1 : ℤ)| = 1 - Int.fract y := by
      rw [abs_of_nonpos] <;> push_cast <;> linarith
    have hhalf : 1 ≤ 2 * Int.fract y := not_lt.1 fun h => hup (.inl h)
    constructor
    · rw [habs]
      linarith
    · intro htie
      rw [habs] at htie
      have hodd : ¬Even ⌊y⌋ := fun h => hup (.inr ⟨by linarith, h⟩)
      exact Int.even_add_one.2 hodd

theorem RoundsTo.le_of_le (h : RoundsTo y k) {a : ℤ} (ha : (a : ℚ) ≤ y) : a ≤ k := by
  have hnear := (abs_le.1 h.near).2
  have hlt : (a : ℚ) < (k + 1 : ℤ) := by
    push_cast
    linarith
  exact Int.lt_add_one_iff.1 (Int.cast_lt.1 hlt)

theorem RoundsTo.neg (h : RoundsTo y k) : RoundsTo (-y) (-k) := by
  have habs : |-y - (-k : ℤ)| = |y - k| := by
    rw [← abs_neg]
    congr 1
    push_cast
    ring
  exact ⟨habs ▸ h.near, fun htie => (h.even (habs ▸ htie)).neg⟩

theorem RoundsTo.ge_of_ge (h : RoundsTo y k) {a : ℤ} (ha : y ≤ a) : k ≤ a := by
  have hneg : ((-a : ℤ) : ℚ) ≤ -y := by
    push_cast
    linarith
  exact neg_le_neg_iff.1 (h.neg.le_of_le hneg)

/-- Two neighbours are both nearest only half-way between them, and one of them is odd. -/
theorem RoundsTo.unique (hk : RoundsTo y k) (hl : RoundsTo y l) : k = l := by
  wlog hlt : k < l generalizing k l
  · rcases lt_or_eq_of_le (not_lt.1 hlt) with h | h
    · exact (this hl hk h).symm
    · exact h.symm
  have hklow := (abs_le.1 hk.near).2
  have hlhigh := (abs_le.1 hl.near).1
  have hstep : l = k + 1 := by
    have hle : (l : ℚ) ≤ (k + 1 : ℤ) := by
      push_cast
      linarith
    exact le_antisymm (Int.cast_le.1 hle) hlt
  subst hstep
  push_cast at hlhigh
  have hhalf : y - k = 1 / 2 := by linarith
  have hkeven := hk.even (by rw [hhalf]; norm_num)
  have hleven := hl.even (by push_cast; rw [show y - (k + 1) = -(1 / 2) by linarith]; norm_num)
  exact absurd hkeven (Int.even_add_one.1 hleven)

theorem roundEven_eq_iff : roundEven y = k ↔ RoundsTo y k :=
  ⟨fun h => h ▸ roundsTo_roundEven y, fun h => (roundsTo_roundEven y).unique h⟩

theorem roundEven_neg (y : ℚ) : roundEven (-y) = -roundEven y :=
  roundEven_eq_iff.2 (roundsTo_roundEven y).neg

theorem le_roundEven {a : ℤ} (h : (a : ℚ) ≤ y) : a ≤ roundEven y := (roundsTo_roundEven y).le_of_le h

theorem roundEven_le {a : ℤ} (h : y ≤ a) : roundEven y ≤ a := (roundsTo_roundEven y).ge_of_ge h

@[simp]
theorem roundEven_intCast (a : ℤ) : roundEven a = a := le_antisymm (roundEven_le le_rfl) (le_roundEven le_rfl)

end RoundEven

namespace BinaryFormat

theorem nearest_eq_roundEven (num : ℕ) {den : ℕ} (hden : 0 < den) :
    (nearest num den : ℤ) = roundEven (num / den : ℚ) := by
  have hpos : (0 : ℚ) < den := Nat.cast_pos.2 hden
  have hfloor : ⌊(num / den : ℚ)⌋ = (num / den : ℕ) := by exact_mod_cast Rat.floor_natCast_div_natCast num den
  have hfract : 2 * Int.fract (num / den : ℚ) = (2 * (num % den) : ℕ) / den := by
    rw [Int.fract_div_natCast_eq_div_natCast_mod]
    push_cast
    ring
  have hless : 2 * Int.fract (num / den : ℚ) < 1 ↔ 2 * (num % den) < den := by
    rw [hfract, div_lt_one hpos, Nat.cast_lt]
  have htie : 2 * Int.fract (num / den : ℚ) = 1 ↔ 2 * (num % den) = den := by
    rw [hfract, div_eq_one_iff_eq hpos.ne', Nat.cast_inj]
  simp only [nearest, roundEven, hless, htie, hfloor, Int.even_coe_nat, Nat.even_iff]
  split_ifs <;> omega

/-! ### Powers of two -/

theorem two_zpow_eq (q : ℤ) : (2 : ℚ) ^ q = 2 ^ q.toNat / 2 ^ (-q).toNat := by
  obtain ⟨n, rfl | rfl⟩ := q.eq_nat_or_neg <;> simp

theorem scaled_eq (num den : ℕ) (q : ℤ) :
    ((num * 2 ^ (-q).toNat : ℕ) : ℚ) / (den * 2 ^ q.toNat : ℕ) = num / den / 2 ^ q := by
  rw [two_zpow_eq]
  push_cast
  field_simp

theorem zpow_le_div_iff (num : ℕ) {den : ℕ} (hden : 0 < den) (k : ℤ) :
    (2 : ℚ) ^ k ≤ num / den ↔ den * 2 ^ k.toNat ≤ num * 2 ^ (-k).toNat := by
  have hpos : (0 : ℚ) < 2 ^ k := zpow_pos two_pos k
  have hscaled : (0 : ℚ) < (den * 2 ^ k.toNat : ℕ) := Nat.cast_pos.2 (Nat.mul_pos hden (Nat.two_pow_pos _))
  rw [← one_le_div hpos, ← scaled_eq, one_le_div hscaled, Nat.cast_le]

theorem zpow_sub_natCast (a b : ℕ) : (2 : ℚ) ^ ((a : ℤ) - b) = 2 ^ a / 2 ^ b := by
  rw [zpow_sub₀ two_ne_zero, zpow_natCast, zpow_natCast]

section Log

variable {x : ℚ} {k : ℤ}

theorem le_log_iff (hx : 0 < x) : k ≤ Int.log 2 x ↔ 2 ^ k ≤ x := by
  rw [← Int.zpow_le_iff_le_log one_lt_two hx, Nat.cast_ofNat]

theorem log_lt_iff (hx : 0 < x) : Int.log 2 x < k ↔ x < 2 ^ k := by
  rw [← Int.lt_zpow_iff_log_lt one_lt_two hx, Nat.cast_ofNat]

theorem log_eq_of_bounds (hx : 0 < x) (hlow : 2 ^ k ≤ x) (hhigh : x < 2 ^ (k + 1)) : Int.log 2 x = k :=
  le_antisymm (Int.lt_add_one_iff.1 ((log_lt_iff hx).2 hhigh)) ((le_log_iff hx).2 hlow)

end Log

theorem two_pow_log2_le {n : ℕ} (hn : n ≠ 0) : (2 : ℚ) ^ n.log2 ≤ n := by exact_mod_cast Nat.log2_self_le hn

theorem lt_two_pow_log2 (n : ℕ) : (n : ℚ) < 2 ^ (n.log2 + 1) := by exact_mod_cast Nat.lt_log2_self

theorem floorLog2_eq_log {num den : ℕ} (hnum : num ≠ 0) (hden : den ≠ 0) :
    floorLog2 num den = Int.log 2 (num / den : ℚ) := by
  have hpos : (0 : ℚ) < num / den := by positivity
  have hlow : (2 : ℚ) ^ ((num.log2 : ℤ) - (den.log2 + 1 : ℕ)) ≤ num / den := by
    rw [zpow_sub_natCast]
    exact div_le_div₀ (by positivity) (two_pow_log2_le hnum) (by positivity) (lt_two_pow_log2 den).le
  have hhigh : (num / den : ℚ) < 2 ^ (((num.log2 + 1 : ℕ) : ℤ) - den.log2) := by
    rw [zpow_sub_natCast]
    exact div_lt_div₀ (lt_two_pow_log2 num) (two_pow_log2_le hden) (by positivity) (by positivity)
  push_cast at hlow hhigh
  simp only [floorLog2]
  symm
  -- The widths leave two powers of two to choose from, and one comparison tells which.
  split
  · next hless =>
    have hlt := not_le.1 (mt (zpow_le_div_iff num (Nat.pos_of_ne_zero hden) _).1 (Nat.not_le.2 hless))
    refine log_eq_of_bounds hpos ?_ (by rwa [sub_add_cancel])
    rwa [sub_sub]
  · next hless =>
    refine log_eq_of_bounds hpos ((zpow_le_div_iff num (Nat.pos_of_ne_zero hden) _).2 (Nat.not_lt.1 hless)) ?_
    rwa [add_sub_right_comm] at hhigh

/-! ### Multiples of the unit in the last place -/

/-- The exponent of the unit in the last place. -/
def unitExponent (f : BinaryFormat) (x : ℚ) : ℤ := max f.minExponent (Int.log 2 |x| - f.fractionBits)

def unit (f : BinaryFormat) (x : ℚ) : ℚ := 2 ^ f.unitExponent x

/-- The multiple of its unit that a number is rounded to, however great it is. -/
def rounded (f : BinaryFormat) (x : ℚ) : ℚ := roundEven (x / f.unit x) * f.unit x

variable (f : BinaryFormat) {x : ℚ}

theorem unit_pos (x : ℚ) : 0 < f.unit x := zpow_pos two_pos _

@[simp]
theorem unit_neg (x : ℚ) : f.unit (-x) = f.unit x := by simp [unit, unitExponent]

@[simp]
theorem unitExponent_abs (x : ℚ) : f.unitExponent |x| = f.unitExponent x := by simp [unitExponent]

@[simp]
theorem unit_abs (x : ℚ) : f.unit |x| = f.unit x := by simp [unit]

@[simp]
theorem rounded_neg (x : ℚ) : f.rounded (-x) = -f.rounded x := by
  simp [rounded, neg_div, roundEven_neg]

@[simp]
theorem rounded_zero : f.rounded 0 = 0 := by simp [rounded, show roundEven 0 = 0 from roundEven_intCast 0]

/-- Rounding changes a number by half a unit at most. -/
theorem abs_sub_rounded_le (x : ℚ) : |x - f.rounded x| ≤ f.unit x / 2 := by
  have hunit := f.unit_pos x
  have hscaled : x - f.rounded x = (x / f.unit x - roundEven (x / f.unit x)) * f.unit x := by
    rw [rounded, sub_mul, div_mul_cancel₀ x hunit.ne']
  rw [hscaled, abs_mul, abs_of_pos hunit]
  have hnear := mul_le_mul_of_nonneg_right (roundsTo_roundEven (x / f.unit x)).near hunit.le
  linarith

/-- Multiples of the unit are kept, and nothing else is. -/
theorem rounded_eq_self_iff : f.rounded x = x ↔ ∃ k : ℤ, x = k * f.unit x := by
  constructor
  · intro h
    exact ⟨_, h.symm⟩
  · rintro ⟨k, hk⟩
    have hquotient : x / f.unit x = k := (div_eq_iff (f.unit_pos x).ne').2 hk
    rw [rounded, hquotient, roundEven_intCast, ← hk]

/-- In its units a number has no more digits than the significand. -/
theorem quotient_lt (hx : 0 < x) : x / f.unit x < 2 ^ (f.fractionBits + 1) := by
  have hlog := (log_lt_iff hx).1 (Int.lt_succ (Int.log 2 x))
  rw [div_lt_iff₀ (f.unit_pos x), unit, ← zpow_natCast, ← zpow_add₀ two_ne_zero]
  refine lt_of_lt_of_le hlog (zpow_le_zpow_right₀ one_le_two ?_)
  rw [unitExponent, abs_of_pos hx]
  omega

/-- It has as many, unless its unit is the least. -/
theorem le_quotient (hx : 0 < x) (h : f.unitExponent x ≠ f.minExponent) : 2 ^ f.fractionBits ≤ x / f.unit x := by
  have hunit : f.unitExponent x + f.fractionBits = Int.log 2 x := by
    rw [unitExponent, abs_of_pos hx] at h ⊢
    omega
  rw [le_div_iff₀ (f.unit_pos x), unit, ← zpow_natCast, ← zpow_add₀ two_ne_zero, add_comm, hunit]
  exact (le_log_iff hx).1 le_rfl

/-- A power of two stays below what is rounded, if it was below it. -/
theorem zpow_le_rounded {k : ℤ} (hk : f.minExponent ≤ k) (h : 2 ^ k ≤ x) : 2 ^ k ≤ f.rounded x := by
  have hpos : 0 < x := lt_of_lt_of_le (zpow_pos two_pos k) h
  rw [rounded, ← div_le_iff₀ (f.unit_pos x)]
  rcases le_or_gt (f.unitExponent x) k with hle | hlt
  · -- The power is a multiple of the unit.
    obtain ⟨e, he⟩ := Int.eq_ofNat_of_zero_le (sub_nonneg.2 hle)
    have hpower : (2 : ℚ) ^ k / f.unit x = (2 ^ e : ℤ) := by
      rw [unit, ← zpow_sub₀ two_ne_zero, he]
      simp
    rw [hpower, Int.cast_le]
    apply le_roundEven
    rw [← hpower]
    exact div_le_div_of_nonneg_right h (f.unit_pos x).le
  · have hfull := f.le_quotient hpos (by omega)
    have hone : (1 : ℤ) ≤ roundEven (x / f.unit x) := le_roundEven (le_trans (by simp [one_le_pow₀]) hfull)
    calc (2 : ℚ) ^ k / f.unit x
      _ ≤ 1 := (div_le_one (f.unit_pos x)).2 (zpow_le_zpow_right₀ one_le_two hlt.le)
      _ ≤ roundEven (x / f.unit x) := by exact_mod_cast hone

/-- A significand that a number is rounded to: it may be one past the greatest, and is full unless the unit is the
least. -/
structure Significand (x : ℚ) (significand : ℕ) : Prop where
  eq : roundEven (x / f.unit x) = significand
  le : significand ≤ 2 ^ (f.fractionBits + 1)
  full : f.unitExponent x = f.minExponent ∨ 2 ^ f.fractionBits ≤ significand

theorem exists_significand (hx : 0 < x) : ∃ significand, f.Significand x significand := by
  have hnonneg : 0 ≤ roundEven (x / f.unit x) := by
    apply le_roundEven
    rw [Int.cast_zero]
    exact (div_pos hx (f.unit_pos x)).le
  obtain ⟨significand, hsignificand⟩ := Int.eq_ofNat_of_zero_le hnonneg
  refine ⟨significand, hsignificand, ?_, or_iff_not_imp_left.2 fun h => ?_⟩
  · zify
    rw [← hsignificand]
    apply roundEven_le
    push_cast
    exact (f.quotient_lt hx).le
  · zify
    rw [← hsignificand]
    apply le_roundEven
    push_cast
    exact f.le_quotient hx h

/-- An encoding is made of the unit and of the significand. -/
theorem round_eq {num den significand : ℕ} (hnum : num ≠ 0) (hden : den ≠ 0) (hx : x = num / den)
    (h : f.Significand x significand) : f.round num den
      = min f.infinity ((f.unitExponent x - f.minExponent).toNat * 2 ^ f.fractionBits + significand) := by
  have hpos : 0 < x := by
    rw [hx]
    positivity
  have hunit : max f.minExponent (floorLog2 num den - f.fractionBits) = f.unitExponent x := by
    rw [unitExponent, abs_of_pos hpos, hx, floorLog2_eq_log hnum hden]
  have hnearest : nearest (num * 2 ^ (-f.unitExponent x).toNat) (den * 2 ^ (f.unitExponent x).toNat) = significand := by
    zify
    rw [nearest_eq_roundEven _ (Nat.mul_pos (Nat.pos_of_ne_zero hden) (Nat.two_pow_pos _)), scaled_eq, ← hx]
    exact h.eq
  simp only [round, if_neg hnum, hunit, hnearest]

/-! ### What an encoding stands for -/

/-- The number that a finite encoding stands for. -/
def value (magnitude : ℕ) : ℚ := (f.parts magnitude).1 * 2 ^ (f.parts magnitude).2

theorem quotient_eq_value (magnitude : ℕ) :
    ((f.quotient magnitude).1 : ℚ) / (f.quotient magnitude).2 = f.value magnitude := by
  rw [value, two_zpow_eq, quotient]
  push_cast
  ring

theorem value_of_lt {fraction : ℕ} (h : fraction < 2 ^ f.fractionBits) :
    f.value fraction = fraction * 2 ^ f.minExponent := by
  rw [value, parts, Nat.div_eq_of_lt h, Nat.mod_eq_of_lt h]

theorem value_of_full {significand : ℕ} {exponent : ℤ} (hleast : f.minExponent ≤ exponent)
    (hfull : 2 ^ f.fractionBits ≤ significand) (hlt : significand < 2 ^ (f.fractionBits + 1)) :
    f.value ((exponent - f.minExponent).toNat * 2 ^ f.fractionBits + significand) = significand * 2 ^ exponent := by
  rw [value, f.parts_eq hleast hfull hlt]

/-- A significand that is one past the greatest carries into the exponent, and stands for the same. -/
theorem value_of_significand {significand : ℕ} {exponent : ℤ} (hleast : f.minExponent ≤ exponent)
    (hle : significand ≤ 2 ^ (f.fractionBits + 1))
    (hfull : exponent = f.minExponent ∨ 2 ^ f.fractionBits ≤ significand) :
    f.value ((exponent - f.minExponent).toNat * 2 ^ f.fractionBits + significand) = significand * 2 ^ exponent := by
  rcases Nat.lt_or_eq_of_le hle with hlt | rfl
  · rcases Nat.lt_or_ge significand (2 ^ f.fractionBits) with hsmall | hlarge
    · obtain rfl := hfull.resolve_right (Nat.not_le.2 hsmall)
      rw [sub_self, Int.toNat_zero, Nat.zero_mul, Nat.zero_add]
      exact f.value_of_lt hsmall
    · exact f.value_of_full hleast hlarge hlt
  · have hnext : (exponent - f.minExponent).toNat * 2 ^ f.fractionBits + 2 ^ (f.fractionBits + 1)
        = (exponent + 1 - f.minExponent).toNat * 2 ^ f.fractionBits + 2 ^ f.fractionBits := by
      have hexponent : (exponent + 1 - f.minExponent).toNat = (exponent - f.minExponent).toNat + 1 := by omega
      rw [hexponent, Nat.succ_mul, Nat.pow_succ]
      omega
    rw [hnext, f.value_of_full (by omega) le_rfl (Nat.pow_lt_pow_right Nat.one_lt_two (Nat.lt_succ_self _)),
      zpow_add_one₀ two_ne_zero]
    push_cast
    ring

/-- A number that does not overflow is rounded to an encoding of its rounded multiple. -/
theorem value_round {num den : ℕ} (hden : den ≠ 0) (hfinite : f.round num den < f.infinity) :
    f.value (f.round num den) = f.rounded (num / den) := by
  by_cases hnum : num = 0
  · subst hnum
    have hzero : f.round 0 den = 0 := by rw [round, if_pos rfl]
    rw [hzero, f.value_of_lt (Nat.two_pow_pos _), Nat.cast_zero, zero_mul, zero_div, rounded_zero]
  · obtain ⟨x, hx⟩ : ∃ x : ℚ, x = num / den := ⟨_, rfl⟩
    have hpos : 0 < x := by
      rw [hx]
      positivity
    obtain ⟨significand, h⟩ := f.exists_significand hpos
    rw [f.round_eq hnum hden hx h] at hfinite ⊢
    have hleast : f.minExponent ≤ f.unitExponent x := le_max_left _ _
    rw [min_eq_right (by omega), f.value_of_significand hleast h.le h.full, ← hx, rounded, h.eq, unit, Int.cast_natCast]

/-! ### Overflow and underflow -/

theorem round_of_small {num den : ℕ} (hden : den ≠ 0) (h : (num / den : ℚ) < 2 ^ (f.minExponent - 1)) :
    f.round num den = 0 := by
  by_cases hnum : num = 0
  · rw [round, if_pos hnum]
  · obtain ⟨x, hx⟩ : ∃ x : ℚ, x = num / den := ⟨_, rfl⟩
    have hpos : 0 < x := by
      rw [hx]
      positivity
    rw [← hx] at h
    have hlog := (log_lt_iff hpos).2 h
    have hunit : f.unitExponent x = f.minExponent := by
      rw [unitExponent, abs_of_pos hpos]
      omega
    have hquotient : x / f.unit x < 1 / 2 := by
      rw [zpow_sub_one₀ two_ne_zero] at h
      rw [div_lt_iff₀ (f.unit_pos x), unit, hunit]
      linarith
    have hzero : roundEven (x / f.unit x) = 0 := by
      have hnonneg := div_pos hpos (f.unit_pos x)
      refine roundEven_eq_iff.2 ⟨?_, fun htie => ?_⟩
      · rw [Int.cast_zero, sub_zero, abs_of_pos hnonneg]
        exact hquotient.le
      · rw [Int.cast_zero, sub_zero, abs_of_pos hnonneg] at htie
        exact absurd htie hquotient.ne
    have hsignificand : f.Significand x 0 := ⟨hzero, Nat.zero_le _, .inl hunit⟩
    rw [f.round_eq hnum hden hx hsignificand, hunit]
    simp

theorem fractionBits_double : double.fractionBits = 52 := rfl

theorem maxExponent_double : double.maxExponent = 1024 := by decide

theorem double_round_of_large {num den : ℕ} (hden : den ≠ 0) (h : 2 ^ (1024 : ℤ) ≤ (num / den : ℚ)) :
    double.round num den = double.infinity := by
  obtain ⟨x, hx⟩ : ∃ x : ℚ, x = num / den := ⟨_, rfl⟩
  rw [← hx] at h
  have hpos : 0 < x := lt_of_lt_of_le (zpow_pos two_pos _) h
  have hnum : num ≠ 0 := by
    rintro rfl
    simp [hx] at hpos
  have hlog := (le_log_iff hpos).2 h
  obtain ⟨significand, hsignificand⟩ := double.exists_significand hpos
  have hunit : 972 ≤ double.unitExponent x := by
    rw [unitExponent, abs_of_pos hpos, fractionBits_double]
    omega
  have hfull : 2 ^ 52 ≤ significand := by
    refine hsignificand.full.resolve_left ?_
    rw [minExponent_double]
    omega
  rw [double.round_eq hnum hden hx hsignificand, minExponent_double, infinity_double, fractionBits_double]
  omega

/-- What is rounded to less than half the greatest power is finite. -/
theorem double_round_lt_infinity {num den : ℕ} (hden : den ≠ 0)
    (h : double.rounded (num / den) < 2 ^ (1023 : ℤ)) : double.round num den < double.infinity := by
  by_cases hnum : num = 0
  · rw [round, if_pos hnum]
    decide
  obtain ⟨x, hx⟩ : ∃ x : ℚ, x = num / den := ⟨_, rfl⟩
  have hpos : 0 < x := by
    rw [hx]
    positivity
  obtain ⟨significand, hsignificand⟩ := double.exists_significand hpos
  by_contra hinfinite
  have hle := hsignificand.le
  rw [double.round_eq hnum hden hx hsignificand, minExponent_double, infinity_double, fractionBits_double] at hinfinite
  rw [fractionBits_double] at hle
  have hunit : 971 ≤ double.unitExponent x := by omega
  have hfull : 2 ^ 52 ≤ significand := by
    refine hsignificand.full.resolve_left ?_
    rw [minExponent_double]
    omega
  have hlarge : (2 : ℚ) ^ (1023 : ℤ) ≤ double.rounded x := by
    have hexponent : (1023 : ℤ) = (52 : ℕ) + 971 := by norm_num
    rw [rounded, hsignificand.eq, unit, hexponent, zpow_add₀ two_ne_zero, zpow_natCast]
    have hcast : (2 : ℚ) ^ 52 ≤ (significand : ℤ) := by exact_mod_cast hfull
    exact mul_le_mul hcast (zpow_le_zpow_right₀ one_le_two hunit) (zpow_pos two_pos _).le (by positivity)
  rw [hx] at hlarge
  exact absurd h (not_lt.2 hlarge)

/-! ### Decimals -/

theorem eight_pow_le (e : ℕ) : (2 : ℚ) ^ (3 * e) ≤ 10 ^ e := by
  rw [pow_mul]
  exact pow_le_pow_left₀ (by norm_num) (by norm_num) e

/-- What is taken for plain is what the arithmetic answers. -/
theorem double_ofDecimal_eq_round (d : Numeral.Decimal) : ∃ num den : ℕ, den ≠ 0 ∧ d.value = num / den
    ∧ double.ofDecimal d.mantissa d.exponent = double.round num den := by
  obtain ⟨mantissa, exponent⟩ := d
  simp only [Numeral.Decimal.value, ofDecimal]
  by_cases hmantissa : mantissa = 0
  · exact ⟨0, 1, one_ne_zero, by simp [hmantissa], by simp [hmantissa, round]⟩
  rw [if_neg hmantissa]
  split
  · next hexponent =>
    obtain ⟨e, rfl⟩ := Int.eq_ofNat_of_zero_le hexponent
    refine ⟨mantissa * 10 ^ e, 1, one_ne_zero, by simp, ?_⟩
    split
    · next hlarge =>
      refine (double_round_of_large one_ne_zero ?_).symm
      rw [maxExponent_double] at hlarge
      have hexponent : (1024 : ℤ) ≤ (mantissa.log2 + 3 * e : ℕ) := by exact_mod_cast hlarge
      calc (2 : ℚ) ^ (1024 : ℤ)
        _ ≤ 2 ^ ((mantissa.log2 + 3 * e : ℕ) : ℤ) := zpow_le_zpow_right₀ one_le_two hexponent
        _ = 2 ^ mantissa.log2 * 2 ^ (3 * e) := by rw [zpow_natCast, pow_add]
        _ ≤ mantissa * 10 ^ e := mul_le_mul (two_pow_log2_le hmantissa) (eight_pow_le e) (by positivity) (by positivity)
        _ = ((mantissa * 10 ^ e : ℕ) : ℚ) / (1 : ℕ) := by simp
    · rw [Int.toNat_natCast]
  · next hexponent =>
    obtain ⟨e, rfl⟩ : ∃ e : ℕ, exponent = -e := ⟨(-exponent).toNat, by omega⟩
    refine ⟨mantissa, 10 ^ e, by positivity, by simp [div_eq_mul_inv], ?_⟩
    split
    · next hsmall =>
      refine (double.round_of_small (by positivity) ?_).symm
      have hexponent : ((mantissa.log2 + 1 : ℕ) : ℤ) - (3 * e : ℕ) ≤ double.minExponent - 1 := by
        push_cast
        omega
      calc (mantissa : ℚ) / (10 ^ e : ℕ)
        _ = mantissa / 10 ^ e := by simp
        _ < 2 ^ (mantissa.log2 + 1) / 2 ^ (3 * e) :=
          div_lt_div₀ (lt_two_pow_log2 mantissa) (eight_pow_le e) (by positivity) (by positivity)
        _ = 2 ^ (((mantissa.log2 + 1 : ℕ) : ℤ) - (3 * e : ℕ)) := (zpow_sub_natCast ..).symm
        _ ≤ 2 ^ (double.minExponent - 1) := zpow_le_zpow_right₀ one_le_two hexponent
    · rw [neg_neg, Int.toNat_natCast]

end BinaryFormat

namespace Double

open Numeral (negateIf)

/-- The double nearest to a number, as a number. -/
def rounded (x : ℚ) : ℚ := BinaryFormat.double.rounded x

theorem rounded_negateIf (negative : Bool) (x : ℚ) : rounded (negateIf negative x) = negateIf negative (rounded x) := by
  cases negative <;> simp [negateIf, rounded]

theorem mod_eq_zero_of_div_eq {num den : ℕ} (hden : den ≠ 0) {z : ℤ} (h : (num / den : ℚ) = z) : num % den = 0 := by
  rw [div_eq_iff (Nat.cast_ne_zero.2 hden)] at h
  have hint : (num : ℤ) = z * den := by exact_mod_cast h
  exact Nat.mod_eq_zero_of_dvd (Int.natCast_dvd_natCast.1 (hint ▸ dvd_mul_left _ _))

theorem integer?_ofMagnitude (negative : Bool) {magnitude : ℕ} (h : magnitude ≤ BinaryFormat.double.infinity) {n : ℤ} :
    (ofMagnitude negative magnitude).integer? = some n
      ↔ magnitude < BinaryFormat.double.infinity ∧ negateIf negative (BinaryFormat.double.value magnitude) = n := by
  have hlt : magnitude < 2 ^ 63 := by
    rw [BinaryFormat.infinity_double] at h
    omega
  have hden : (BinaryFormat.double.quotient magnitude).2 ≠ 0 := (Nat.two_pow_pos _).ne'
  rw [integer?, isFinite, magnitude_ofMagnitude hlt, isNegative_ofMagnitude hlt, ← BinaryFormat.quotient_eq_value]
  generalize BinaryFormat.double.quotient magnitude = quotient at hden ⊢
  obtain ⟨num, den⟩ := quotient
  simp only [decide_eq_true_eq] at hden ⊢
  by_cases hfinite : magnitude < BinaryFormat.double.infinity
  · rw [if_pos hfinite, and_iff_right hfinite]
    by_cases hrest : num % den = 0
    · obtain ⟨k, rfl⟩ := Nat.dvd_of_mod_eq_zero hrest
      have hquotient : ((den * k : ℕ) : ℚ) / den = k := by
        push_cast
        exact mul_div_cancel_left₀ _ (Nat.cast_ne_zero.2 hden)
      rw [if_pos hrest, hquotient, Nat.mul_div_cancel_left k (Nat.pos_of_ne_zero hden), Option.some_inj]
      cases negative <;> simp only [negateIf, if_true, if_false, Bool.false_eq_true] <;> norm_cast
    · rw [if_neg hrest]
      refine iff_of_false (by simp) fun hn => hrest ?_
      cases negative with
      | false => exact mod_eq_zero_of_div_eq hden hn
      | true => exact mod_eq_zero_of_div_eq (z := -n) hden (by push_cast; exact neg_eq_iff_eq_neg.1 hn)
  · simp [hfinite]

/-- A double that a decimal is read as is an integer only if the rounded number is. -/
theorem rounded_of_integer? {negative : Bool} {d : Numeral.Decimal} {n : ℤ}
    (h : (ofNumeral (negative, .finite d)).integer? = some n) : rounded (negateIf negative d.value) = n := by
  obtain ⟨num, den, hden, hvalue, hround⟩ := BinaryFormat.double_ofDecimal_eq_round d
  rw [ofNumeral, hround, integer?_ofMagnitude negative (BinaryFormat.round_le_infinity ..)] at h
  rw [rounded_negateIf, hvalue, rounded, ← BinaryFormat.double.value_round hden h.1, h.2]

/-- An integer that is far from overflow is found. -/
theorem integer?_of_rounded {negative : Bool} {d : Numeral.Decimal} {n : ℤ} (hn : |n| ≤ 2 ^ 64)
    (h : rounded (negateIf negative d.value) = n) : (ofNumeral (negative, .finite d)).integer? = some n := by
  obtain ⟨num, den, hden, hvalue, hround⟩ := BinaryFormat.double_ofDecimal_eq_round d
  rw [rounded_negateIf, hvalue, rounded] at h
  have hfinite : BinaryFormat.double.round num den < BinaryFormat.double.infinity := by
    apply BinaryFormat.double_round_lt_infinity hden
    have habs : BinaryFormat.double.rounded (num / den) ≤ |(n : ℚ)| := by
      rw [← h]
      cases negative with
      | false => exact le_abs_self _
      | true => simpa [negateIf] using le_abs_self (BinaryFormat.double.rounded (num / den))
    calc BinaryFormat.double.rounded (num / den)
      _ ≤ ((|n| : ℤ) : ℚ) := by rwa [Int.cast_abs]
      _ ≤ ((2 ^ 64 : ℤ) : ℚ) := Int.cast_le.2 hn
      _ = 2 ^ (64 : ℤ) := by norm_num
      _ < 2 ^ (1023 : ℤ) := zpow_lt_zpow_right₀ one_lt_two (by norm_num)
  rw [ofNumeral, hround, integer?_ofMagnitude negative (BinaryFormat.round_le_infinity ..)]
  exact ⟨hfinite, by rw [BinaryFormat.double.value_round hden hfinite, h]⟩

end Double

end SheetCompiler

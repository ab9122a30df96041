import SheetCompiler.Number.Double

/-!
# Singles among the doubles

Every single is exactly one of the doubles, so a value that came from a single survives being narrowed:
`Double.toSingle` undoes `Single.toDouble`. The argument is about quotients that a format can represent.
Rounding such a quotient finds its very significand, and the significand and exponent of a magnitude say
again which magnitude it was.
-/

namespace SheetCompiler

namespace BinaryFormat

theorem nearest_mul (n : Nat) {den : Nat} (h : 0 < den) : nearest (n * den) den = n := by
  simp only [nearest, Nat.mul_div_cancel n h, Nat.mul_mod_left, Nat.mul_zero, if_pos h]

theorem log2_mul_two_pow {a : Nat} (ha : a ≠ 0) (n : Nat) : (a * 2 ^ n).log2 = a.log2 + n := by
  have hpos : 0 < 2 ^ n := Nat.two_pow_pos n
  refine (Nat.log2_eq_iff (Nat.mul_ne_zero ha (Nat.ne_of_gt hpos))).2 ⟨?_, ?_⟩
  · rw [Nat.pow_add]
    exact Nat.mul_le_mul_right _ (Nat.log2_self_le ha)
  · rw [Nat.add_right_comm, Nat.pow_add]
    exact Nat.mul_lt_mul_of_pos_right Nat.lt_log2_self hpos

/-- A power of two with an integer exponent is a quotient of two powers; scaling by two of them comes to
scaling by the power of their difference. -/
theorem scale_eq (a : Nat) {s t : Nat} {p q : Int} (h : s + p = t + q) :
    a * 2 ^ s * 2 ^ p.toNat * 2 ^ (-q).toNat = a * 2 ^ t * (2 ^ (-p).toNat * 2 ^ q.toNat) := by
  simp only [Nat.mul_assoc, ← Nat.pow_add]
  congr 2
  omega

theorem floorLog2_scale {a : Nat} (ha : a ≠ 0) (e : Int) :
    floorLog2 (a * 2 ^ e.toNat) (2 ^ (-e).toNat) = a.log2 + e := by
  have hk : ((a * 2 ^ e.toNat).log2 : Int) - (2 ^ (-e).toNat).log2 = a.log2 + e := by
    rw [log2_mul_two_pow ha, Nat.log2_two_pow]
    omega
  have hle : 2 ^ (-e).toNat * 2 ^ (a.log2 + e : Int).toNat
      ≤ a * 2 ^ e.toNat * 2 ^ (-(a.log2 + e : Int)).toNat := by
    have hscale := scale_eq 1 (s := a.log2) (t := 0) (p := e) (q := a.log2 + e) (by omega)
    simp only [Nat.one_mul, Nat.pow_zero] at hscale
    rw [← hscale]
    exact Nat.mul_le_mul_right _ (Nat.mul_le_mul_right _ (Nat.log2_self_le ha))
  simp only [floorLog2, hk, if_neg (Nat.not_lt.2 hle)]

/-- Rounding a value that the format represents, whose unit in the last place is `2 ^ q`. -/
theorem round_scale (f : BinaryFormat) {a s t : Nat} (ha : a ≠ 0) {e q : Int}
    (hq : max f.minExponent (((a * 2 ^ s).log2 : Int) + e - f.fractionBits) = q) (h : s + e = t + q) :
    f.round (a * 2 ^ s * 2 ^ e.toNat) (2 ^ (-e).toNat)
      = min f.infinity ((q - f.minExponent).toNat * 2 ^ f.fractionBits + a * 2 ^ t) := by
  have hscaled : a * 2 ^ s ≠ 0 := Nat.mul_ne_zero ha (Nat.ne_of_gt (Nat.two_pow_pos s))
  have hnum : a * 2 ^ s * 2 ^ e.toNat ≠ 0 := Nat.mul_ne_zero hscaled (Nat.ne_of_gt (Nat.two_pow_pos _))
  have hden : 0 < 2 ^ (-e).toNat * 2 ^ q.toNat := Nat.mul_pos (Nat.two_pow_pos _) (Nat.two_pow_pos _)
  simp only [round, if_neg hnum, floorLog2_scale hscaled, hq, scale_eq a h, nearest_mul _ hden]

/-! ### Significands and exponents -/

/-- What a magnitude says about its significand and exponent: the exponent is one that the format has, the
significand is full unless the exponent is the least, and both together say what the magnitude is. -/
structure Splits (f : BinaryFormat) (magnitude significand : Nat) (exponent : Int) : Prop where
  least : f.minExponent ≤ exponent
  lt : significand < 2 ^ (f.fractionBits + 1)
  full : exponent = f.minExponent ∨ 2 ^ f.fractionBits ≤ significand
  eq : (exponent - f.minExponent).toNat * 2 ^ f.fractionBits + significand = magnitude

theorem splits_parts (f : BinaryFormat) (magnitude : Nat) :
    f.Splits magnitude (f.parts magnitude).1 (f.parts magnitude).2 := by
  have hlt := Nat.mod_lt magnitude (Nat.two_pow_pos f.fractionBits)
  have hsplit := Nat.div_add_mod magnitude (2 ^ f.fractionBits)
  have hpow : 2 ^ (f.fractionBits + 1) = 2 * 2 ^ f.fractionBits := Nat.pow_succ'
  rw [parts]
  cases hexponent : magnitude / 2 ^ f.fractionBits with
  | zero =>
      rw [hexponent, Nat.mul_zero, Nat.zero_add] at hsplit
      exact ⟨Int.le_refl _, by simp only; omega, .inl rfl, by simp only [Int.sub_self, Int.toNat_zero]; omega⟩
  | succ e =>
      have he : (f.minExponent + (e : Int) - f.minExponent).toNat = e := by omega
      rw [hexponent, Nat.mul_succ, Nat.mul_comm] at hsplit
      exact ⟨by simp only; omega, by simp only; omega, .inr (Nat.le_add_right _ _), by simp only [he]; omega⟩

/-- A magnitude with a full significand has just that significand and exponent. -/
theorem parts_eq (f : BinaryFormat) {significand : Nat} {exponent : Int} (hleast : f.minExponent ≤ exponent)
    (hfull : 2 ^ f.fractionBits ≤ significand) (hlt : significand < 2 ^ (f.fractionBits + 1)) :
    f.parts ((exponent - f.minExponent).toNat * 2 ^ f.fractionBits + significand) = (significand, exponent) := by
  have hpow : 2 ^ (f.fractionBits + 1) = 2 * 2 ^ f.fractionBits := Nat.pow_succ'
  obtain ⟨fraction, rfl⟩ := Nat.exists_eq_add_of_le hfull
  have hfraction : fraction < 2 ^ f.fractionBits := by omega
  have hsum : (exponent - f.minExponent).toNat * 2 ^ f.fractionBits + (2 ^ f.fractionBits + fraction)
      = fraction + 2 ^ f.fractionBits * ((exponent - f.minExponent).toNat + 1) := by
    rw [Nat.mul_succ, Nat.mul_comm]
    omega
  rw [parts, hsum, Nat.add_mul_mod_self_left, Nat.add_mul_div_left _ _ (Nat.two_pow_pos _),
    Nat.mod_eq_of_lt hfraction, Nat.div_eq_of_lt hfraction, Nat.zero_add]
  exact Prod.ext rfl (by simp only; omega)

/-! ### Widening and narrowing magnitudes -/

theorem minExponent_single : single.minExponent = -149 := by decide

theorem minExponent_double : double.minExponent = -1074 := by decide

theorem infinity_single : single.infinity = 255 * 2 ^ 23 := by decide

theorem infinity_double : double.infinity = 2047 * 2 ^ 52 := by decide

theorem Splits.ne_zero {f : BinaryFormat} {magnitude significand : Nat} {exponent : Int}
    (h : f.Splits magnitude significand exponent) (hmagnitude : magnitude ≠ 0) : significand ≠ 0 := by
  rintro rfl
  have heq := h.eq
  rcases h.full with rfl | hfull
  · rw [Int.sub_self, Int.toNat_zero, Nat.zero_mul] at heq
    exact hmagnitude heq.symm
  · exact Nat.ne_of_gt (Nat.two_pow_pos f.fractionBits) (Nat.le_zero.1 hfull)

/-- A single of the significand `a` and the exponent `e`, which is not zero, is a double with a full
significand. -/
theorem widen_spec {m a : Nat} {e : Int} (hm : m ≠ 0) (hfinite : m < single.infinity)
    (h : single.Splits m a e) :
    ∃ t : Nat, ∃ q : Int, (t : Int) + q = e ∧ (a * 2 ^ t).log2 = 52 ∧ double.minExponent ≤ q ∧ q < 100
      ∧ double.round (a * 2 ^ e.toNat) (2 ^ (-e).toNat)
        = (q - double.minExponent).toNat * 2 ^ double.fractionBits + a * 2 ^ t := by
  have ha := h.ne_zero hm
  have hleast := h.least
  have heq := h.eq
  have hlog : a.log2 < 24 := (Nat.log2_lt ha).2 h.lt
  rw [minExponent_single] at hleast heq
  rw [infinity_single] at hfinite
  have hscaled : (a * 2 ^ (52 - a.log2)).log2 = 52 := by
    rw [log2_mul_two_pow ha]
    omega
  have hlt : a * 2 ^ (52 - a.log2) < 2 ^ 53 := by
    have := Nat.lt_log2_self (n := a * 2 ^ (52 - a.log2))
    rwa [hscaled] at this
  have he : e < 106 := by
    simp only [single] at heq
    omega
  have hq : max double.minExponent (((a * 2 ^ 0).log2 : Int) + e - double.fractionBits) = a.log2 + e - 52 := by
    rw [Nat.pow_zero, Nat.mul_one, minExponent_double]
    simp only [double]
    omega
  have hround := double.round_scale (t := 52 - a.log2) ha hq (by omega)
  rw [Nat.pow_zero, Nat.mul_one, Nat.min_eq_right] at hround
  · exact ⟨52 - a.log2, a.log2 + e - 52, by omega, hscaled, by rw [minExponent_double]; omega, by omega, hround⟩
  · rw [minExponent_double, infinity_double]
    simp only [double]
    omega

theorem convert_convert_of_finite {m : Nat} (hfinite : m < single.infinity) :
    single.convert double m < double.infinity ∧ double.convert single (single.convert double m) = m := by
  by_cases hm : m = 0
  · subst hm
    exact ⟨by decide, by decide⟩
  obtain ⟨a, e, hparts⟩ : ∃ a e, single.parts m = (a, e) := ⟨_, _, rfl⟩
  have hsplits := single.splits_parts m
  simp only [hparts] at hsplits
  obtain ⟨t, q, hexponent, hlog, hleast, hlt, hround⟩ := widen_spec hm hfinite hsplits
  have hwide : single.convert double m = (q - double.minExponent).toNat * 2 ^ double.fractionBits + a * 2 ^ t := by
    rw [convert, if_pos hfinite, quotient, hparts]
    exact hround
  have ha := hsplits.ne_zero hm
  have hscaled : a * 2 ^ t ≠ 0 := Nat.mul_ne_zero ha (Nat.ne_of_gt (Nat.two_pow_pos t))
  have hfull : 2 ^ double.fractionBits ≤ a * 2 ^ t := (Nat.le_log2 hscaled).1 (Nat.le_of_eq hlog.symm)
  have hwidth : a * 2 ^ t < 2 ^ (double.fractionBits + 1) := (Nat.log2_lt hscaled).1 (by rw [hlog]; decide)
  have hwideFinite : single.convert double m < double.infinity := by
    rw [hwide, minExponent_double, infinity_double]
    simp only [double] at hwidth ⊢
    omega
  refine ⟨hwideFinite, ?_⟩
  have hq : max single.minExponent (((a * 2 ^ t).log2 : Int) + q - single.fractionBits) = e := by
    have hlt := (Nat.log2_lt ha).2 hsplits.lt
    have hlog' := hlog
    rw [log2_mul_two_pow ha] at hlog'
    rw [hlog, minExponent_single]
    rcases hsplits.full with hmin | hfull
    · rw [minExponent_single] at hmin
      simp only [single] at hlt ⊢
      omega
    · have := (Nat.le_log2 ha).2 hfull
      have hle := hsplits.least
      rw [minExponent_single] at hle
      simp only [single] at this hlt ⊢
      omega
  rw [convert, if_pos hwideFinite, quotient, hwide, parts_eq double hleast hfull hwidth]
  have hround := single.round_scale (t := 0) ha hq (by omega)
  rw [Nat.pow_zero, Nat.mul_one, hsplits.eq, Nat.min_eq_right (Nat.le_of_lt hfinite)] at hround
  exact hround

theorem convert_infinity (source target : BinaryFormat) : source.convert target source.infinity = target.infinity := by
  rw [convert, if_neg (Nat.lt_irrefl _), if_pos rfl]

theorem round_le_infinity (f : BinaryFormat) (num den : Nat) : f.round num den ≤ f.infinity := by
  rw [round]
  split
  · exact Nat.zero_le _
  · exact Nat.min_le_left _ _

/-- A not-a-number stays one in any format. -/
theorem infinity_lt_convert (source target : BinaryFormat) {m : Nat} (h : source.infinity < m) :
    target.infinity < source.convert target m := by
  have hquiet := Nat.left_le_or (n := 2 ^ (target.fractionBits - 1))
    (m := m % 2 ^ source.fractionBits * 2 ^ target.fractionBits / 2 ^ source.fractionBits)
  have hpos := Nat.two_pow_pos (target.fractionBits - 1)
  rw [convert, if_neg (Nat.lt_asymm h), if_neg (Nat.ne_of_gt h)]
  simp only
  omega

theorem convert_of_infinity_lt {source : BinaryFormat} (target : BinaryFormat) {m : Nat} (h : source.infinity < m) :
    source.convert target m = target.infinity + (2 ^ (target.fractionBits - 1)
      ||| m % 2 ^ source.fractionBits * 2 ^ target.fractionBits / 2 ^ source.fractionBits) := by
  rw [convert, if_neg (Nat.lt_asymm h), if_neg (Nat.ne_of_gt h)]

/-- Of the payload of a not-a-number only the bit is lost that tells a signalling one. -/
theorem convert_convert_convert_of_nan {m : Nat} (h : single.infinity < m) :
    single.convert double (double.convert single (single.convert double m)) = single.convert double m := by
  have hwide := infinity_lt_convert single double h
  have hnarrow := infinity_lt_convert double single hwide
  rw [convert_of_infinity_lt double hnarrow, convert_of_infinity_lt single hwide, convert_of_infinity_lt double h]
  generalize hp : m % 2 ^ single.fractionBits = p
  have hpayload : p < 2 ^ 23 := hp ▸ Nat.mod_lt m (Nat.two_pow_pos 23)
  have hquiet : (2 ^ 22 ||| p) < 2 ^ 23 := Nat.or_lt_two_pow (by decide) hpayload
  have honce : (2 ^ 22 ||| (2 ^ 22 ||| p)) = 2 ^ 22 ||| p := by rw [← Nat.or_assoc, Nat.or_self]
  have hwiden (q : Nat) :
      (2 ^ (double.fractionBits - 1) ||| q * 2 ^ double.fractionBits / 2 ^ single.fractionBits)
        = (2 ^ 22 ||| q) * 2 ^ 29 := by
    have hshift : q * 2 ^ double.fractionBits / 2 ^ single.fractionBits = q <<< 29 := by
      rw [Nat.shiftLeft_eq]
      simp only [double, single]
      omega
    rw [hshift, ← Nat.shiftLeft_eq, Nat.shiftLeft_or_distrib]
    rfl
  have hback : (double.infinity + (2 ^ 22 ||| p) * 2 ^ 29) % 2 ^ double.fractionBits * 2 ^ single.fractionBits
      / 2 ^ double.fractionBits = 2 ^ 22 ||| p := by
    rw [infinity_double]
    simp only [double, single]
    omega
  have hkept : (single.infinity + (2 ^ 22 ||| p)) % 2 ^ single.fractionBits = 2 ^ 22 ||| p := by
    rw [infinity_single]
    simp only [single]
    omega
  simp only [hwiden, hback, show single.fractionBits - 1 = 22 from rfl, honce, hkept]

theorem convert_lt (source : BinaryFormat) {target : BinaryFormat} (hbits : 0 < target.fractionBits) (m : Nat) :
    source.convert target m < target.infinity + 2 ^ target.fractionBits := by
  have hpos := Nat.two_pow_pos target.fractionBits
  rw [convert]
  split
  · exact Nat.lt_of_le_of_lt (round_le_infinity ..) (Nat.lt_add_of_pos_right hpos)
  · split
    · exact Nat.lt_add_of_pos_right hpos
    · have hpayload := Nat.mod_lt m (Nat.two_pow_pos source.fractionBits)
      have hshifted : m % 2 ^ source.fractionBits * 2 ^ target.fractionBits / 2 ^ source.fractionBits
          < 2 ^ target.fractionBits :=
        Nat.div_lt_of_lt_mul (Nat.mul_lt_mul_of_pos_right hpayload hpos)
      have hquiet : 2 ^ (target.fractionBits - 1) < 2 ^ target.fractionBits :=
        Nat.pow_lt_pow_right Nat.one_lt_two (by omega)
      exact Nat.add_lt_add_left (Nat.or_lt_two_pow hquiet hshifted) _

end BinaryFormat

/-! ### Signs -/

namespace Single

theorem magnitude_ofMagnitude {m : Nat} (h : m < 2 ^ 31) (negative : Bool) :
    (ofMagnitude negative m).magnitude = m := by
  cases negative <;> simp only [magnitude, ofMagnitude, UInt32.toNat_ofNat', if_true, if_false, Bool.false_eq_true]
    <;> omega

theorem isNegative_ofMagnitude {m : Nat} (h : m < 2 ^ 31) (negative : Bool) :
    (ofMagnitude negative m).isNegative = negative := by
  cases negative <;> simp only [isNegative, ofMagnitude, UInt32.toNat_ofNat', if_true, if_false, Bool.false_eq_true]
    <;> simp <;> omega

theorem ofMagnitude_magnitude (s : Single) : ofMagnitude s.isNegative s.magnitude = s := by
  have hlt := s.bits.toNat_lt
  have hbits : (if s.isNegative = true then 2 ^ 31 else 0) + s.magnitude = s.bits.toNat := by
    simp only [isNegative, magnitude, decide_eq_true_eq]
    split <;> omega
  rw [ofMagnitude, hbits, UInt32.ofNat_toNat]

end Single

namespace Double

theorem magnitude_ofMagnitude {m : Nat} (h : m < 2 ^ 63) (negative : Bool) :
    (ofMagnitude negative m).magnitude = m := by
  cases negative <;> simp only [magnitude, ofMagnitude, UInt64.toNat_ofNat', if_true, if_false, Bool.false_eq_true]
    <;> omega

theorem isNegative_ofMagnitude {m : Nat} (h : m < 2 ^ 63) (negative : Bool) :
    (ofMagnitude negative m).isNegative = negative := by
  cases negative <;> simp only [isNegative, ofMagnitude, UInt64.toNat_ofNat', if_true, if_false, Bool.false_eq_true]
    <;> simp <;> omega

end Double

theorem Single.magnitude_toDouble (s : Single) :
    s.toDouble.magnitude = BinaryFormat.single.convert .double s.magnitude :=
  Double.magnitude_ofMagnitude (BinaryFormat.single.convert_lt (by decide) s.magnitude) _

theorem Single.isNegative_toDouble (s : Single) : s.toDouble.isNegative = s.isNegative :=
  Double.isNegative_ofMagnitude (BinaryFormat.single.convert_lt (by decide) s.magnitude) _

theorem Double.magnitude_toSingle (d : Double) :
    d.toSingle.magnitude = BinaryFormat.double.convert .single d.magnitude :=
  Single.magnitude_ofMagnitude (BinaryFormat.double.convert_lt (by decide) d.magnitude) _

theorem Double.isNegative_toSingle (d : Double) : d.toSingle.isNegative = d.isNegative :=
  Single.isNegative_ofMagnitude (BinaryFormat.double.convert_lt (by decide) d.magnitude) _

/-- A single that is a number, infinite or not, is the nearest single to its double. -/
theorem Single.toSingle_toDouble {s : Single} (h : s.magnitude ≤ BinaryFormat.single.infinity) :
    s.toDouble.toSingle = s := by
  rw [Double.toSingle, magnitude_toDouble, isNegative_toDouble]
  have hback : BinaryFormat.double.convert .single (BinaryFormat.single.convert .double s.magnitude)
      = s.magnitude := by
    rcases Nat.lt_or_eq_of_le h with hfinite | hinfinite
    · exact (BinaryFormat.convert_convert_of_finite hfinite).2
    · rw [hinfinite, BinaryFormat.convert_infinity, BinaryFormat.convert_infinity]
  rw [hback, ofMagnitude_magnitude]

/-- Narrowing a double that came from a single loses nothing, also where it is not a number. -/
theorem Double.toDouble_toSingle (s : Single) : s.toDouble.toSingle.toDouble = s.toDouble := by
  rcases Nat.lt_or_ge BinaryFormat.single.infinity s.magnitude with hnan | hnumber
  · have hback := BinaryFormat.convert_convert_convert_of_nan hnan
    rw [← Single.magnitude_toDouble, ← magnitude_toSingle] at hback
    rw [Single.toDouble, isNegative_toSingle, Single.isNegative_toDouble, hback, Single.magnitude_toDouble,
      ← Single.toDouble]
  · rw [Single.toSingle_toDouble hnumber]

/-- Not-a-number is narrowed to not-a-number. -/
theorem Double.isNaN_toDouble_toSingle {d : Double} (h : d.isNaN = true) : d.toSingle.toDouble.isNaN = true := by
  rw [isNaN, decide_eq_true_eq] at h ⊢
  rw [Single.magnitude_toDouble, magnitude_toSingle]
  exact BinaryFormat.infinity_lt_convert _ _ (BinaryFormat.infinity_lt_convert _ _ h)

end SheetCompiler

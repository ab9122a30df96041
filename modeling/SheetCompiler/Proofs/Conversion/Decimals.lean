import SheetCompiler.Proofs.Conversion.Integers
import SheetCompiler.Proofs.Header.Grammar

/-!
# Decimal numerals in place of integers

Spreadsheets write whole numbers with a point or an exponent, so a numeral of this kind is taken for an integer in four
places: in the cells of integer columns, in the cells of counts, and in headers as the maximum of a repetition and as
the size of a struct. In all of them it is read as a double. What is accepted is therefore not the number that is
denoted but the one that it is rounded to, and the answer is right exactly if that makes no difference. It makes none
for a number in lowest terms whose numerator is below 2^53, unless it is too small for a double.
-/

namespace SheetCompiler

open Numeral Text

/-- An integer that is taken for a number as a count, where the double just past 64 bits is the greatest count. -/
def Double.Counts (x : ℚ) (n : ℤ) : Prop := rounded x = n ∨ n = 2 ^ 64 - 1 ∧ rounded x = 2 ^ 64

/-- An answer to the number of a numeral by the integers from `lo` to `hi` that are taken for it. It is the answer that
the number itself asks for exactly if each of these is taken where it is the number, and nowhere else. -/
def AnswersNumber {ε α : Type} (answer : Except ε α) (integer? : α → Option ℤ) (Refusal : ε → Prop) (lo hi : ℤ) (x : ℚ)
    (Taken : ℤ → Prop) : Prop :=
  AnswersBy answer integer? Refusal (fun n => (lo ≤ n ∧ n ≤ hi) ∧ Taken n)
    ∧ (AnswersBy answer integer? Refusal (fun n => (lo ≤ n ∧ n ≤ hi) ∧ x = n)
      ↔ ∀ n, lo ≤ n ∧ n ≤ hi → (Taken n ↔ x = n))

/-- A number that is rounded to no integer but itself is no count but itself. -/
theorem Double.counts_iff {x : ℚ} (hnum : |x.num| < 2 ^ 53) (hden : x.den ≤ 2 ^ 1074) {n : ℤ} :
    Counts x n ↔ x = n := by
  rw [Counts, rounded_eq_intCast_iff hnum hden]
  refine or_iff_left ?_
  rintro ⟨-, hrounded⟩
  have hlarge : x = (2 ^ 64 : ℤ) := (rounded_eq_intCast_iff hnum hden).1 (by rw [hrounded]; norm_num)
  rw [hlarge, Rat.num_intCast] at hnum
  norm_num at hnum

theorem AnswersBy.answersNumber {ε α : Type} {answer : Except ε α} {integer? : α → Option ℤ} {Refusal : ε → Prop}
    {lo hi : ℤ} {Accepted Taken : ℤ → Prop} (h : AnswersBy answer integer? Refusal Accepted)
    (haccepted : ∀ n, Accepted n ↔ (lo ≤ n ∧ n ≤ hi) ∧ Taken n) (x : ℚ) :
    AnswersNumber answer integer? Refusal lo hi x Taken := by
  refine ⟨h.congr haccepted, h.iff_of_answersBy.trans ?_⟩
  simp only [haccepted, and_congr_right_iff]

/-! ### Cells -/

theorem Conversion.whole?_of_not_isInteger {s : Spelling} {text : String} (htext : trimChars text.toList = s.chars)
    (hs : ¬s.IsInteger) {kind : ScalarKind} {lo hi : ℤ} (hkind : kind.bounds? = some (lo, hi)) {n : ℤ} :
    (whole? kind text = some n ∧ lo ≤ n ∧ n ≤ hi) ↔ (lo ≤ n ∧ n ≤ hi) ∧ Double.rounded s.value = n := by
  rcases ScalarKind.signed_or_unsigned hkind with ⟨hsigned, hlo, -, hhi⟩ | ⟨hunsigned, rfl, hhi⟩
  · rw [whole?, if_pos hsigned, Whole.signed?_eq_some_iff htext hs]
    constructor
    · rintro ⟨⟨-, hrounded⟩, hrange⟩
      exact ⟨hrange, hrounded⟩
    · rintro ⟨hrange, hrounded⟩
      exact ⟨⟨by omega, hrounded⟩, hrange⟩
  · simp only [whole?, hunsigned, Bool.false_eq_true, if_false, map_ofNat_eq_some_iff,
      Whole.unsigned?_eq_some_iff htext hs]
    constructor
    · rintro ⟨⟨-, -, hrounded⟩, hrange⟩
      obtain ⟨k, rfl⟩ := Int.eq_ofNat_of_zero_le hrange.1
      exact ⟨hrange, by simpa using hrounded⟩
    · rintro ⟨hrange, hrounded⟩
      obtain ⟨k, rfl⟩ := Int.eq_ofNat_of_zero_le hrange.1
      exact ⟨⟨hrange.1, by omega, by simpa using hrounded⟩, hrange⟩

/-! ### Counts -/

section Counts

variable {s : Spelling} {text : String}

theorem counts_natCast_iff {n : ℕ} : Double.Counts s.value n
    ↔ Double.rounded s.value = n ∨ n = 2 ^ 64 - 1 ∧ Double.rounded s.value = 2 ^ 64 := by
  have hlast : (n : ℤ) = 2 ^ 64 - 1 ↔ n = 2 ^ 64 - 1 := by omega
  rw [Double.Counts, hlast, Int.cast_natCast]

theorem exists_count?_iff (hs : ¬s.IsInteger) (htext : trimChars text.toList = s.chars) (least : ℕ) {n : ℤ} :
    (∃ count, Whole.count? text = some count ∧ least ≤ count ∧ (count : ℤ) = n)
      ↔ ((least : ℤ) ≤ n ∧ n ≤ 2 ^ 64 - 1) ∧ Double.Counts s.value n := by
  simp only [Whole.count?_eq_some_iff htext hs, ← counts_natCast_iff]
  constructor
  · rintro ⟨count, ⟨hlt, hcounts⟩, hleast, rfl⟩
    exact ⟨by omega, hcounts⟩
  · rintro ⟨⟨hleast, hlast⟩, hcounts⟩
    obtain ⟨count, rfl⟩ := Int.eq_ofNat_of_zero_le (by omega : 0 ≤ n)
    exact ⟨count, ⟨by omega, hcounts⟩, by omega, rfl⟩

theorem Conversion.answersBy_count (hblank : Text.isBlank text = false) (cell : String) :
    AnswersBy ((Conversion.count text).mapError (SheetError.conversion cell)) (fun count => some (count : ℤ))
      (· = .conversion cell ⟨.repeatCount, text, .notCount⟩)
      fun n => ∃ count, Whole.count? text = some count ∧ 0 ≤ count ∧ (count : ℤ) = n := by
  rw [Conversion.count, hblank]
  constructor
  · rintro n ⟨count, hcount, -, rfl⟩
    exact ⟨count, by simp only [hcount]; rfl, rfl⟩
  · intro hnone
    cases hcount : Whole.count? text with
    | none => exact ⟨_, rfl, rfl⟩
    | some count => exact absurd ⟨count, hcount, Nat.zero_le _, rfl⟩ (hnone count)

end Counts

/-! ### Headers -/

namespace Numeral

theorem isSpace_of_inAlphabet {c : Char} (h : inAlphabet c = true) : isSpace c = false := by
  simp only [inAlphabet, Bool.or_eq_true, beq_iff_eq] at h
  rcases h with (((hdigit | hletter) | rfl) | rfl) | rfl
  · exact isSpace_of_continuesIdentifier (by simp [continuesIdentifier, hdigit])
  · exact isSpace_of_continuesIdentifier (by simp [continuesIdentifier, startsIdentifier, hletter])
  all_goals decide

namespace Spelling

variable (s : Spelling)

/-- Whether the numeral begins with a digit, as the maximum of a repetition has to. -/
def StartsWithDigit : Prop := s.chars.head?.any isDigit = true

theorem trimChars_chars : trimChars (String.ofList s.chars).toList = s.chars := by
  rw [String.toList_ofList]
  exact trimChars_of_not_space fun c hc => isSpace_of_inAlphabet (alphabet_of_signed? s.signed?_chars c hc)

theorem bracket_not_mem : ']' ∉ (String.ofList s.chars).toList := by
  rw [String.toList_ofList]
  exact fun hmem => absurd (alphabet_of_signed? s.signed?_chars _ hmem) (by decide)

/-- A numeral that begins with no digit begins with a sign or a point. -/
theorem exists_head_of_not_startsWithDigit (h : ¬s.StartsWithDigit) :
    ∃ c ∈ s.chars.head?, c = '+' ∨ c = '-' ∨ c = '.' := by
  rw [StartsWithDigit, chars] at h
  rw [chars]
  cases hsign : s.sign with
  | plus => exact ⟨'+', rfl, .inl rfl⟩
  | minus => exact ⟨'-', rfl, .inr (.inl rfl)⟩
  | none =>
      rw [hsign, Sign.chars, List.nil_append] at h
      rw [Sign.chars, List.nil_append]
      have hnonempty := s.nonempty
      cases hwhole : s.whole with
      | cons first whole =>
          have hfirst := head_digit s.wholeDigits (by simp [hwhole]) s.tail first (by rw [hwhole]; rfl)
          exact absurd (by rw [hwhole]; exact hfirst) h
      | nil =>
          rw [hwhole, List.nil_append] at hnonempty
          cases hfraction : s.fraction? with
          | none => simp [hfraction] at hnonempty
          | some digits => exact ⟨'.', by rw [tail, hfraction]; rfl, .inr (.inr rfl)⟩

end Spelling

end Numeral

/-- Words for types begin with neither a sign nor a point. -/
theorem ValueType.head?_word_any_isMark (type : ValueType) :
    type.word.toList.head?.any (fun c => c == '+' || c == '-' || c == '.') = false := by
  cases type with
  | scalar kind => cases kind <;> decide
  | enum name =>
      rw [word, String.toList_append]
      rfl

namespace Descriptor

variable {s : Spelling} {column : ℕ} {heading : Heading}

def size? : Descriptor → Option ℤ
  | .count max _ => some max
  | .struct _ members => some members
  | _ => none

theorem read?_eq_none (h : ¬s.StartsWithDigit) : ValueType.read? (String.ofList s.chars) = none := by
  obtain ⟨c, hc, hmark⟩ := s.exists_head_of_not_startsWithDigit h
  cases hread : ValueType.read? (String.ofList s.chars) with
  | none => rfl
  | some type =>
      have hword := congrArg String.toList (ValueType.read?_eq_some_iff.1 hread).1
      rw [String.toList_ofList] at hword
      have hnone := type.head?_word_any_isMark
      rw [← hword, Option.mem_def.1 hc] at hnone
      rcases hmark with rfl | rfl | rfl <;> cases hnone

theorem read_maximum (hcell : words heading.type = [String.ofList s.chars ++ "[]"]) :
    read column heading = readRepeated column heading (String.ofList s.chars ++ "[]") := by
  have hwords : words heading.token = words heading.type := words_trim heading.type
  rw [read]
  simp only [hwords, hcell, isRepeated_append_mark, if_true]

theorem answersBy_maximum (hcell : words heading.type = [String.ofList s.chars ++ "[]"]) :
    AnswersBy (read column heading) size? (fun e => ∃ fault, e = ⟨column, heading.token, fault⟩)
      fun n => s.StartsWithDigit
        ∧ ∃ count, Whole.count? (String.ofList s.chars) = some count ∧ 1 ≤ count ∧ (count : ℤ) = n := by
  have helement : element (String.ofList s.chars ++ "[]") = String.ofList s.chars := by
    rw [element_append_mark, element_of_not_isRepeated (isRepeated_of_bracket_not_mem s.bracket_not_mem)]
  have hhead : (String.ofList s.chars).toList.head?.any isDigit = s.chars.head?.any isDigit := by
    rw [String.toList_ofList]
  rw [read_maximum hcell, readRepeated]
  simp only [helement, hhead]
  constructor
  · rintro n ⟨hdigit, count, hcount, hpos, rfl⟩
    obtain ⟨max, rfl⟩ := Nat.exists_eq_succ_of_ne_zero (Nat.ne_of_gt hpos)
    rw [Spelling.StartsWithDigit] at hdigit
    rw [if_pos hdigit, hcount]
    exact ⟨_, rfl, rfl⟩
  · intro hnone
    by_cases hdigit : s.chars.head?.any isDigit = true
    · rw [if_pos hdigit]
      split
      · next max hcount => exact absurd ⟨hdigit, _, hcount, Nat.succ_pos max, rfl⟩ (hnone _)
      · exact ⟨_, rfl, _, rfl⟩
    · rw [if_neg hdigit, read?_eq_none hdigit]
      exact ⟨_, rfl, _, rfl⟩

theorem read_size {required : Bool} {size : String}
    (hcell : words heading.type = [if required then "required_struct" else "optional_struct", size]) :
    read column heading = readStruct column heading required size := by
  have hwords : words heading.token = words heading.type := words_trim heading.type
  rw [read]
  cases required <;> simp only [hwords, hcell] <;> rfl

theorem answersBy_size {required : Bool} {size : String}
    (hcell : words heading.type = [if required then "required_struct" else "optional_struct", size])
    (htypeName : isIdentifier (trim heading.name) = true) (hname : isIdentifier (trim heading.comment) = true) :
    AnswersBy (read column heading) size? (fun e => ∃ fault, e = ⟨column, heading.token, fault⟩)
      fun n => ∃ count, Whole.count? size = some count ∧ 1 ≤ count ∧ (count : ℤ) = n := by
  rw [read_size hcell]
  constructor
  · rintro n ⟨count, hcount, hpos, rfl⟩
    exact ⟨_, readStruct_of_size hcount hpos htypeName hname, rfl⟩
  · intro hnone
    rw [readStruct]
    split
    · next members hcount => exact absurd ⟨_, hcount, Nat.succ_pos members, rfl⟩ (hnone _)
    · exact ⟨_, rfl, _, rfl⟩

end Descriptor

/-- A numeral with a point or an exponent is answered in every place by the integer that its number is rounded to, if
this is in range, and is refused otherwise; as a maximum it also has to begin with a digit. The answer is the right one,
which is the number itself if that is an integer in range and a refusal if not, exactly if the integers in range that
are taken for the number are those that it is. They are, if the numerator of the number fits into a significand and its
denominator is not finer than the least unit of a double. -/
theorem decimal_numerals_answered {s : Spelling} (hs : ¬s.IsInteger) :
    (∀ kind lo hi, ScalarKind.bounds? kind = some (lo, hi) → ∀ text, trimChars text.toList = s.chars →
      ∀ default? enums cell, AnswersNumber
        ((Conversion.convert (.scalar kind) default? enums text).mapError (SheetError.conversion cell))
        (·.bind Value.integer?) (fun e => ∃ reason, e = .conversion cell ⟨.scalar kind, text, reason⟩)
        lo hi s.value (Double.rounded s.value = ·))
    ∧ (∀ text, trimChars text.toList = s.chars → ∀ cell, AnswersNumber
        ((Conversion.count text).mapError (SheetError.conversion cell)) (fun count => some (count : ℤ))
        (· = .conversion cell ⟨.repeatCount, text, .notCount⟩)
        0 (2 ^ 64 - 1) s.value (Double.Counts s.value))
    ∧ (∀ column heading, words (Heading.type heading) = [String.ofList s.chars ++ "[]"] → AnswersNumber
        (Descriptor.read column heading) Descriptor.size? (fun e => ∃ fault, e = ⟨column, heading.token, fault⟩)
        1 (2 ^ 64 - 1) s.value (fun n => s.StartsWithDigit ∧ Double.Counts s.value n))
    ∧ (∀ column heading (required : Bool),
      words (Heading.type heading)
        = [if required then "required_struct" else "optional_struct", String.ofList s.chars] →
      isIdentifier (trim heading.name) = true → isIdentifier (trim heading.comment) = true → AnswersNumber
        (Descriptor.read column heading) Descriptor.size? (fun e => ∃ fault, e = ⟨column, heading.token, fault⟩)
        1 (2 ^ 64 - 1) s.value (Double.Counts s.value))
    ∧ (|s.value.num| < 2 ^ 53 → s.value.den ≤ 2 ^ 1074 →
      ∀ n : ℤ, (Double.rounded s.value = n ↔ s.value = n) ∧ (Double.Counts s.value n ↔ s.value = n)) := by
  refine ⟨?_, ?_, ?_, ?_, ?_⟩
  · intro kind lo hi hkind text htext default? enums cell
    exact (Conversion.answersBy_convert hkind (Conversion.isBlank_of_spelling htext) default? enums cell).answersNumber
      (fun n => Conversion.whole?_of_not_isInteger htext hs hkind) s.value
  · intro text htext cell
    exact (Conversion.answersBy_count (Conversion.isBlank_of_spelling htext) cell).answersNumber
      (fun n => exists_count?_iff hs htext 0) s.value
  · intro column heading hcell
    refine (Descriptor.answersBy_maximum hcell).answersNumber (fun n => ?_) s.value
    rw [exists_count?_iff hs s.trimChars_chars 1, and_left_comm]
    rfl
  · intro column heading required hcell htypeName hname
    exact (Descriptor.answersBy_size hcell htypeName hname).answersNumber
      (fun n => exists_count?_iff hs s.trimChars_chars 1) s.value
  · exact fun hnum hden n => ⟨Double.rounded_eq_intCast_iff hnum hden, Double.counts_iff hnum hden⟩

/-- Thirty-five, written with a point and an exponent. -/
def thirtyFive : Spelling where
  whole := ['3']
  fraction? := some ['5', '0']
  exponent? := some
    { mark := 'e'
      sign := .plus
      digits := ['0', '1']
      isMark := .inl rfl
      areDigits := by decide
      nonempty := by decide }
  wholeDigits := by decide
  fractionDigits := by decide
  nonempty := by decide

/-- It is a value, a count, a maximum and a size. -/
theorem thirtyFive_answered :
    let convert := Conversion.convert (.scalar .uint32) (some "7") {} "3.50e+01"
    let count := Conversion.count " 3.50e+01"
    let maximum := Descriptor.read 4 ⟨"", "3.50e+01[]", ""⟩
    let size := Descriptor.read 4 ⟨"home", "required_struct 3.50e+01", "Home"⟩
    ¬thirtyFive.IsInteger
      ∧ (∃ v, convert.mapError (SheetError.conversion "B4") = .ok v ∧ v.bind Value.integer? = some 35)
      ∧ (∃ n, count.mapError (SheetError.conversion "B4") = .ok n ∧ some (n : ℤ) = some 35)
      ∧ (∃ d, maximum = .ok d ∧ d.size? = some 35) ∧ ∃ d, size = .ok d ∧ d.size? = some 35 := by
  intro convert count maximum size
  have hs : ¬thirtyFive.IsInteger := fun h => Option.some_ne_none _ h.1
  have hdigits : ofDigits thirtyFive.whole = 3 ∧ ofDigits thirtyFive.fraction = 50 ∧ thirtyFive.exponent = 1 := by
    decide
  have hvalue : thirtyFive.value = (35 : ℤ) := by
    have hsign : thirtyFive.sign.isMinus = false := rfl
    rw [Spelling.value, hdigits.1, hdigits.2.1, hdigits.2.2, hsign]
    norm_num [negateIf, thirtyFive, Spelling.fraction]
  obtain ⟨hcolumns, hcounts, hmaxima, hsizes, hright⟩ := decimal_numerals_answered hs
  have hrounded : Double.rounded thirtyFive.value = (35 : ℤ) := by
    refine (hright ?_ ?_ 35).1.2 hvalue
    · rw [hvalue, Rat.num_intCast]
      decide
    · have hden : thirtyFive.value.den = 1 := by rw [hvalue, Rat.den_intCast]
      exact hden.le.trans (Nat.two_pow_pos 1074)
  refine ⟨hs, ?_, ?_, ?_, ?_⟩
  · exact (hcolumns .uint32 _ _ rfl "3.50e+01" (by decide) (some "7") {} "B4").1.accepts 35 ⟨by decide, hrounded⟩
  · exact (hcounts " 3.50e+01" (by decide) "B4").1.accepts 35 ⟨by decide, .inl hrounded⟩
  · exact (hmaxima 4 ⟨"", "3.50e+01[]", ""⟩ (by decide)).1.accepts 35 ⟨by decide, rfl, .inl hrounded⟩
  · exact (hsizes 4 ⟨"home", "required_struct 3.50e+01", "Home"⟩ true (by decide) (by decide) (by decide)).1.accepts 35
      ⟨by decide, .inl hrounded⟩

def withFraction (whole fraction : String) (hwhole : whole.toList.all isDigit = true)
    (hfraction : fraction.toList.all isDigit = true) (hnonempty : whole.toList ++ fraction.toList ≠ []) : Spelling where
  whole := whole.toList
  fraction? := some fraction.toList
  wholeDigits := hwhole
  fractionDigits := hfraction
  nonempty := hnonempty

theorem value_withFraction {whole fraction : String} (hwhole : whole.toList.all isDigit = true)
    (hfraction : fraction.toList.all isDigit = true) (hnonempty : whole.toList ++ fraction.toList ≠ []) :
    (withFraction whole fraction hwhole hfraction hnonempty).value
      = ofDigits whole.toList + ofDigits fraction.toList / 10 ^ fraction.toList.length := by
  simp [Spelling.value, withFraction, Spelling.fraction, Spelling.exponent, negateIf, Sign.isMinus]

/-- The first integer that is no double. -/
def pastDoubles : Spelling := withFraction "9007199254740993" "0" (by decide) (by decide) (by decide)

/-- One, but for its twentieth decimal. -/
def nearlyOne : Spelling := withFraction "0" "99999999999999999999" (by decide) (by decide) (by decide)

/-- The first integer that is no count. -/
def pastCounts : Spelling := withFraction "18446744073709551616" "0" (by decide) (by decide) (by decide)

/-- The first is read as the integer before it, the second as one, and the third as the greatest count. -/
theorem pastDoubles_and_nearlyOne_and_pastCounts_misread :
    (pastDoubles.value = 9007199254740993 ∧ pastDoubles.chars = "9007199254740993.0".toList
        ∧ (Conversion.convert (.scalar .int64) none {} "9007199254740993.0").toOption.bind (·.bind Value.integer?)
          = some 9007199254740992)
      ∧ (nearlyOne.value = 1 - 1 / 10 ^ 20 ∧ nearlyOne.chars = "0.99999999999999999999".toList
        ∧ (Conversion.convert (.scalar .int32) none {} "0.99999999999999999999").toOption.bind (·.bind Value.integer?)
          = some 1)
      ∧ (pastCounts.value = 2 ^ 64 ∧ pastCounts.chars = "18446744073709551616.0".toList
        ∧ (Conversion.count "18446744073709551616.0").toOption = some (2 ^ 64 - 1)) := by
  have hpastDoubles : ofDigits "9007199254740993".toList = 9007199254740993 := by decide
  have hnearlyOne : ofDigits "99999999999999999999".toList = 99999999999999999999 := by decide
  have hpastCounts : ofDigits "18446744073709551616".toList = 18446744073709551616 := by decide
  have hzero : ofDigits "0".toList = 0 := by decide
  refine ⟨⟨?_, by decide, by decide +kernel⟩, ⟨?_, by decide, by decide +kernel⟩, ?_, by decide, by decide +kernel⟩
  · rw [pastDoubles, value_withFraction, hpastDoubles, hzero]
    norm_num
  · have hlength : "99999999999999999999".toList.length = 20 := by decide
    rw [nearlyOne, value_withFraction, hzero, hnearlyOne, hlength]
    norm_num
  · rw [pastCounts, value_withFraction, hpastCounts, hzero]
    norm_num

end SheetCompiler

import Mathlib.Data.List.TakeWhile
import SheetCompiler.Number.Whole

/-!
# The characters of numerals

Whatever can be read as a number is spelled with digits, letters, signs and points. The letters are those of an
exponent, of infinity and of not-a-number. So a text with any other character in it, blanks around it aside, is no
count.
-/

namespace SheetCompiler

namespace Numeral

/-- Whether numerals may have a character. -/
def inAlphabet (c : Char) : Bool := Text.isDigit c || Text.isLetter c || c == '+' || c == '-' || c == '.'

theorem inAlphabet_of_isDigit {c : Char} (h : Text.isDigit c = true) : inAlphabet c = true := by
  simp only [inAlphabet, h, Bool.true_or]

theorem inAlphabet_of_toLower {c : Char} (h : Text.isLetter c.toLower = true) : inAlphabet c = true := by
  have hletter : Text.isLetter c = true := by
    by_cases hupper : 'A' ≤ c ∧ c ≤ 'Z'
    · simp only [Text.isLetter, hupper.1, hupper.2, decide_true, Bool.and_self, Bool.or_true]
    · have hsame : c.toLower = c := dif_neg hupper
      rwa [hsame] at h
  simp only [inAlphabet, hletter, Bool.or_true, Bool.true_or]

variable {s : List Char}

theorem alphabet_of_natural? {n : Nat} (h : natural? s = some n) : ∀ c ∈ s, inAlphabet c = true := by
  rw [natural?] at h
  split at h
  · cases h
  · next hdigits =>
    simp only [Bool.or_eq_true, Bool.not_eq_true', not_or, Bool.not_eq_false] at hdigits
    exact fun c hc => inAlphabet_of_isDigit (List.all_eq_true.1 hdigits.2 c hc)

theorem alphabet_of_takeSign (h : ∀ c ∈ (takeSign s).2, inAlphabet c = true) : ∀ c ∈ s, inAlphabet c = true := by
  rw [takeSign.eq_def] at h
  split at h
  · exact List.forall_mem_cons.2 ⟨by decide, h⟩
  · exact List.forall_mem_cons.2 ⟨by decide, h⟩
  · exact h

theorem alphabet_of_integer? {n : Int} (h : integer? s = some n) : ∀ c ∈ s, inAlphabet c = true := by
  cases hnatural : natural? (takeSign s).2 with
  | none => simp [integer?, hnatural] at h
  | some n => exact alphabet_of_takeSign (alphabet_of_natural? hnatural)

theorem alphabet_of_unsigned? {n : Nat} (h : unsigned? s = some n) : ∀ c ∈ s, inAlphabet c = true := by
  rw [unsigned?.eq_def] at h
  split at h
  · exact List.forall_mem_cons.2 ⟨by decide, alphabet_of_natural? h⟩
  · exact alphabet_of_natural? h

theorem alphabet_of_exponent? {e : Int} (h : exponent? s = some e) : ∀ c ∈ s, inAlphabet c = true := by
  cases s with
  | nil => exact fun _ hc => absurd hc List.not_mem_nil
  | cons c rest =>
      rw [exponent?] at h
      split at h
      · next hmark =>
        refine List.forall_mem_cons.2 ⟨?_, alphabet_of_integer? h⟩
        simp only [Bool.or_eq_true, beq_iff_eq] at hmark
        rcases hmark with rfl | rfl <;> decide
      · cases h

theorem alphabet_of_digits (h : ∀ c ∈ s.dropWhile Text.isDigit, inAlphabet c = true) :
    ∀ c ∈ s, inAlphabet c = true := by
  intro c hc
  rw [← List.takeWhile_append_dropWhile (p := Text.isDigit) (l := s)] at hc
  rcases List.mem_append.1 hc with hdigit | hrest
  · exact inAlphabet_of_isDigit (List.mem_takeWhile_imp hdigit)
  · exact h c hrest

theorem alphabet_of_decimal? {d : Decimal} (h : decimal? s = some d) : ∀ c ∈ s, inAlphabet c = true := by
  -- What stands behind the digits is an exponent, with a fraction in front of it if there is a point.
  apply alphabet_of_digits
  simp only [decimal?] at h
  split at h
  · next rest hrest =>
    rw [hrest]
    refine List.forall_mem_cons.2 ⟨by decide, alphabet_of_digits ?_⟩
    cases hexponent : exponent? (rest.dropWhile Text.isDigit) with
    | none => simp [hexponent] at h
    | some e => exact alphabet_of_exponent? hexponent
  · cases hexponent : exponent? (s.dropWhile Text.isDigit) with
    | none => simp [hexponent] at h
    | some e => exact alphabet_of_exponent? hexponent

theorem alphabet_of_magnitude? {m : Magnitude} (h : magnitude? s = some m) : ∀ c ∈ s, inAlphabet c = true := by
  have hword : ∀ word : String, String.ofList (s.map Char.toLower) = word → word.toList.all Text.isLetter = true →
      ∀ c ∈ s, inAlphabet c = true := by
    rintro word rfl hletters c hc
    rw [String.toList_ofList] at hletters
    exact inAlphabet_of_toLower (List.all_eq_true.1 hletters _ (List.mem_map_of_mem hc))
  rw [magnitude?] at h
  split at h
  · next hdecimal => exact alphabet_of_decimal? hdecimal
  · split at h
    · next hinf => exact hword _ hinf (by decide)
    · next hinfinity => exact hword _ hinfinity (by decide)
    · next hnan => exact hword _ hnan (by decide)
    · cases h

theorem alphabet_of_signed? {n : Bool × Magnitude} (h : signed? s = some n) : ∀ c ∈ s, inAlphabet c = true := by
  obtain ⟨m, hm, -⟩ := Option.map_eq_some_iff.1 h
  exact alphabet_of_takeSign (alphabet_of_magnitude? hm)

end Numeral

theorem Text.mem_trimChars {text : List Char} {c : Char} (hc : c ∈ text) (hspace : isSpace c = false) :
    c ∈ trimChars text := by
  have hkept : ∀ {text : List Char}, c ∈ text → c ∈ text.dropWhile isSpace := by
    intro text hc
    rw [← List.takeWhile_append_dropWhile (p := isSpace) (l := text)] at hc
    rcases List.mem_append.1 hc with hfront | hrest
    · rw [List.mem_takeWhile_imp hfront] at hspace
      cases hspace
    · exact hrest
  exact List.mem_reverse.2 (hkept (List.mem_reverse.2 (hkept hc)))

/-- A count has blanks and characters of numerals. -/
theorem Whole.alphabet_of_count? {text : String} {n : Nat} (h : count? text = some n) :
    ∀ c ∈ text.toList, Text.isSpace c = false → Numeral.inAlphabet c = true := by
  have htrimmed : ∀ c ∈ Text.trimChars text.toList, Numeral.inAlphabet c = true := by
    rw [count?] at h
    split at h
    · next hunsigned => exact Numeral.alphabet_of_unsigned? (Option.filter_eq_some_iff.1 hunsigned).1
    · obtain ⟨i, hi, -⟩ := Option.map_eq_some_iff.1 h
      obtain ⟨d, hd, -⟩ := Option.bind_eq_some_iff.1 (Option.filter_eq_some_iff.1 hi).1
      obtain ⟨numeral, hnumeral, -⟩ := Option.map_eq_some_iff.1 hd
      exact Numeral.alphabet_of_signed? hnumeral
  exact fun c hc hspace => htrimmed c (Text.mem_trimChars hc hspace)

end SheetCompiler

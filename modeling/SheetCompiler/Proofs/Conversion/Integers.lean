import SheetCompiler.Proofs.Number.Whole
import SheetCompiler.SheetError

/-!
# Integer numerals in cells

A cell of an integer column that holds an integer numeral is read as just that integer if it is in the range of the
kind, and is refused otherwise. There is one exception: of the integers below the signed range of 64 bits the first
thousand are read as its least one, because what does not fit is read once more as a double, and these are rounded into
range.
-/

namespace SheetCompiler

def ScalarKind.bounds? : ScalarKind → Option (ℤ × ℤ)
  | .int32 | .sint32 | .sfixed32 => some (-2 ^ 31, 2 ^ 31 - 1)
  | .int64 | .sint64 | .sfixed64 => some (-2 ^ 63, 2 ^ 63 - 1)
  | .uint32 | .fixed32 => some (0, 2 ^ 32 - 1)
  | .uint64 | .fixed64 => some (0, 2 ^ 64 - 1)
  | .double | .float | .bool | .string | .bytes => none

/-- The bounds of a signed kind and of an unsigned one are within 64 bits. -/
theorem ScalarKind.signed_or_unsigned {kind : ScalarKind} {lo hi : ℤ} (h : kind.bounds? = some (lo, hi)) :
    (kind.isSigned = true ∧ -2 ^ 63 ≤ lo ∧ 0 ≤ hi ∧ hi < 2 ^ 63) ∨ kind.isSigned = false ∧ lo = 0 ∧ hi < 2 ^ 64 := by
  cases kind <;> cases h <;> decide

def Value.integer? : Value → Option ℤ
  | .int v => some v.toInt
  | .uint v => some v.toNat
  | _ => none

theorem Text.isBlank_of_trimChars_ne_nil {text : String} (h : trimChars text.toList ≠ []) : isBlank text = false := by
  rw [← Bool.not_eq_true]
  intro hblank
  have hstart : trimStart (text.toList ++ []) = trimStart [] := List.dropWhile_append_of_pos (List.all_eq_true.1 hblank)
  rw [List.append_nil] at hstart
  exact h (by rw [trimChars, hstart]; rfl)

/-- An answer is an integer that is accepted, wherever there is one, and otherwise an error of a certain form. -/
structure AnswersBy {ε α : Type} (answer : Except ε α) (integer? : α → Option ℤ) (Refusal : ε → Prop)
    (Accepted : ℤ → Prop) : Prop where
  accepts : ∀ n, Accepted n → ∃ a, answer = .ok a ∧ integer? a = some n
  refuses : (∀ n, ¬Accepted n) → ∃ e, answer = .error e ∧ Refusal e

namespace AnswersBy

variable {ε α : Type} {answer : Except ε α} {integer? : α → Option ℤ} {Refusal : ε → Prop} {Accepted Other : ℤ → Prop}

theorem congr (h : AnswersBy answer integer? Refusal Accepted) (hsame : ∀ n, Accepted n ↔ Other n) :
    AnswersBy answer integer? Refusal Other :=
  ⟨fun n hn => h.accepts n ((hsame n).2 hn), fun hnone => h.refuses fun n hn => hnone n ((hsame n).1 hn)⟩

theorem accepted (h : AnswersBy answer integer? Refusal Accepted) {a : α} {n : ℤ} (ha : answer = .ok a)
    (hn : integer? a = some n) : Accepted n := by
  by_contra hnot
  by_cases hsome : ∃ m, Accepted m
  · obtain ⟨m, hm⟩ := hsome
    obtain ⟨b, hb, hmb⟩ := h.accepts m hm
    cases ha.symm.trans hb
    cases hn.symm.trans hmb
    exact hnot hm
  · obtain ⟨e, he, -⟩ := h.refuses (not_exists.1 hsome)
    cases ha.symm.trans he

theorem iff_of_answersBy (h : AnswersBy answer integer? Refusal Accepted) :
    AnswersBy answer integer? Refusal Other ↔ ∀ n, Accepted n ↔ Other n := by
  refine ⟨fun hother n => ⟨fun hn => ?_, fun hn => ?_⟩, h.congr⟩
  · obtain ⟨a, ha, hread⟩ := h.accepts n hn
    exact hother.accepted ha hread
  · obtain ⟨a, ha, hread⟩ := hother.accepts n hn
    exact h.accepted ha hread

end AnswersBy

namespace Conversion

open Numeral Text

variable {kind : ScalarKind} {lo hi : ℤ} {text : String}

/-- The integer that a text is read as for a kind, before it is compared with the bounds of 32 bits. -/
def whole? (kind : ScalarKind) (text : String) : Option ℤ :=
  if kind.isSigned then Whole.signed? text else (Whole.unsigned? text).map Int.ofNat

theorem bounds_of_signed? {n : ℤ} (h : Whole.signed? text = some n) : -2 ^ 63 ≤ n ∧ n < 2 ^ 63 := by
  simp only [Whole.signed?] at h
  split at h
  · next hfits =>
    cases h
    simpa using (Option.filter_eq_some_iff.1 hfits).2
  · simpa using (Option.filter_eq_some_iff.1 h).2

theorem lt_of_unsigned? {n : ℕ} (h : Whole.unsigned? text = some n) : n < 2 ^ 64 := by
  simp only [Whole.unsigned?] at h
  split at h
  · next hfits =>
    cases h
    simpa using (Option.filter_eq_some_iff.1 hfits).2
  · obtain ⟨m, hm, rfl⟩ := Option.map_eq_some_iff.1 h
    have := (Option.filter_eq_some_iff.1 hm).2
    simp only [Bool.and_eq_true, decide_eq_true_eq] at this
    omega

theorem map_ofNat_eq_some_iff {natural? : Option ℕ} {n : ℤ} :
    natural?.map Int.ofNat = some n ↔ 0 ≤ n ∧ natural? = some n.toNat := by
  rw [Option.map_eq_some_iff]
  constructor
  · rintro ⟨k, hk, rfl⟩
    exact ⟨Int.natCast_nonneg k, hk⟩
  · rintro ⟨hn, hk⟩
    exact ⟨n.toNat, hk, Int.toNat_of_nonneg hn⟩

/-- An answer that goes by a whole number, if there is one, and by whether it is in range. -/
theorem answersBy_of_whole {read? : Option ℤ} {answer : Except ConversionReason Value}
    (hnone : read? = none → ∃ reason, answer = .error reason)
    (hin : ∀ n, read? = some n → lo ≤ n ∧ n ≤ hi → ∃ v, answer = .ok v ∧ v.integer? = some n)
    (hout : ∀ n, read? = some n → ¬(lo ≤ n ∧ n ≤ hi) → ∃ reason, answer = .error reason) :
    AnswersBy answer Value.integer? (fun _ => True) fun n => read? = some n ∧ lo ≤ n ∧ n ≤ hi := by
  constructor
  · rintro n ⟨hread, hrange⟩
    exact hin n hread hrange
  · intro hrefused
    have herror : ∃ reason, answer = .error reason := by
      cases hread : read? with
      | none => exact hnone hread
      | some n => exact hout n hread fun hrange => hrefused n ⟨hread, hrange⟩
    obtain ⟨reason, hreason⟩ := herror
    exact ⟨reason, hreason, trivial⟩

theorem integer?_int {n : ℤ} (h : -2 ^ 63 ≤ n ∧ n < 2 ^ 63) : (Value.int (Int64.ofInt n)).integer? = some n := by
  rw [Value.integer?, Int64.toInt_ofInt_of_le (by omega) (by omega)]

theorem integer?_uint {n : ℕ} (h : n < 2 ^ 64) : (Value.uint (UInt64.ofNat n)).integer? = some (n : ℤ) := by
  rw [Value.integer?, UInt64.toNat_ofNat_of_lt' h]

theorem answersBy_signed32 (text : String) : AnswersBy (signed32 text) Value.integer? (fun _ => True)
    fun n => Whole.signed? text = some n ∧ -2 ^ 31 ≤ n ∧ n ≤ 2 ^ 31 - 1 := by
  apply answersBy_of_whole
  · intro hnone
    exact ⟨.notInteger, by simp [signed32, hnone]⟩
  · intro n hn hrange
    refine ⟨_, ?_, integer?_int (bounds_of_signed? hn)⟩
    simp only [signed32, hn]
    exact if_pos (by omega)
  · intro n hn hrange
    refine ⟨.outOfRange, ?_⟩
    simp only [signed32, hn]
    exact if_neg (by omega)

theorem answersBy_signed64 (text : String) : AnswersBy (signed64 text) Value.integer? (fun _ => True)
    fun n => Whole.signed? text = some n ∧ -2 ^ 63 ≤ n ∧ n ≤ 2 ^ 63 - 1 := by
  apply answersBy_of_whole
  · intro hnone
    exact ⟨.notInteger, by simp [signed64, hnone]⟩
  · intro n hn _
    exact ⟨_, by simp only [signed64, hn], integer?_int (bounds_of_signed? hn)⟩
  · intro n hn hrange
    have := bounds_of_signed? hn
    omega

theorem answersBy_unsigned32 (text : String) : AnswersBy (unsigned32 text) Value.integer? (fun _ => True)
    fun n => (Whole.unsigned? text).map Int.ofNat = some n ∧ 0 ≤ n ∧ n ≤ 2 ^ 32 - 1 := by
  apply answersBy_of_whole
  · intro hnone
    exact ⟨.notUnsigned, by simp [unsigned32, Option.map_eq_none_iff.1 hnone]⟩
  · intro n hn hrange
    obtain ⟨k, hk, rfl⟩ := Option.map_eq_some_iff.1 hn
    simp only [Int.ofNat_eq_natCast] at hrange ⊢
    refine ⟨_, ?_, integer?_uint (lt_of_unsigned? hk)⟩
    simp only [unsigned32, hk]
    exact if_pos (by omega)
  · intro n hn hrange
    obtain ⟨k, hk, rfl⟩ := Option.map_eq_some_iff.1 hn
    simp only [Int.ofNat_eq_natCast] at hrange
    refine ⟨.outOfRange, ?_⟩
    simp only [unsigned32, hk]
    exact if_neg (by omega)

theorem answersBy_unsigned64 (text : String) : AnswersBy (unsigned64 text) Value.integer? (fun _ => True)
    fun n => (Whole.unsigned? text).map Int.ofNat = some n ∧ 0 ≤ n ∧ n ≤ 2 ^ 64 - 1 := by
  apply answersBy_of_whole
  · intro hnone
    exact ⟨.notUnsigned, by simp [unsigned64, Option.map_eq_none_iff.1 hnone]⟩
  · intro n hn _
    obtain ⟨k, hk, rfl⟩ := Option.map_eq_some_iff.1 hn
    exact ⟨_, by simp only [unsigned64, hk], integer?_uint (lt_of_unsigned? hk)⟩
  · intro n hn hrange
    obtain ⟨k, hk, rfl⟩ := Option.map_eq_some_iff.1 hn
    have := lt_of_unsigned? hk
    simp only [Int.ofNat_eq_natCast] at hrange
    omega

/-- Whatever is read as a whole number is an answer for a kind that has it in range. -/
theorem answersBy_scalar (hkind : kind.bounds? = some (lo, hi)) (text : String) :
    AnswersBy (scalar kind text) Value.integer? (fun _ => True)
      fun n => whole? kind text = some n ∧ lo ≤ n ∧ n ≤ hi := by
  cases kind with
  | double | float | bool | string | bytes => cases hkind
  | int32 | sint32 | sfixed32 =>
      cases hkind
      exact answersBy_signed32 text
  | int64 | sint64 | sfixed64 =>
      cases hkind
      exact answersBy_signed64 text
  | uint32 | fixed32 =>
      cases hkind
      exact answersBy_unsigned32 text
  | uint64 | fixed64 =>
      cases hkind
      exact answersBy_unsigned64 text

/-- A cell that is not blank is answered as its text is, whatever its default. -/
theorem answersBy_convert (hkind : kind.bounds? = some (lo, hi)) (hblank : Text.isBlank text = false)
    (default? : Option String) (enums : EnumTable) (cell : String) :
    AnswersBy ((convert (.scalar kind) default? enums text).mapError (SheetError.conversion cell))
      (·.bind Value.integer?) (fun e => ∃ reason, e = .conversion cell ⟨.scalar kind, text, reason⟩)
      fun n => whole? kind text = some n ∧ lo ≤ n ∧ n ≤ hi := by
  have htype : isBlank (.scalar kind) text = false := by
    cases kind with
    | string => cases hkind
    | _ => exact hblank
  have heffective : effective (.scalar kind) default? text = text := by
    rw [effective.eq_def]
    cases default? <;> simp [htype]
  have hscalar := answersBy_scalar hkind text
  constructor
  · intro n hn
    obtain ⟨v, hv, hread⟩ := hscalar.accepts n hn
    refine ⟨some v, ?_, hread⟩
    simp only [convert, heffective, htype, hv]
    rfl
  · intro hnone
    obtain ⟨reason, hreason, -⟩ := hscalar.refuses hnone
    refine ⟨_, ?_, reason, rfl⟩
    simp only [convert, heffective, htype, hreason]
    rfl

/-! ### Integer numerals -/

section Numerals

variable {s : Spelling} (htext : trimChars text.toList = s.chars)
include htext

theorem isBlank_of_spelling : Text.isBlank text = false := by
  apply isBlank_of_trimChars_ne_nil
  rw [htext, Spelling.chars]
  intro hnil
  have hbody := (List.append_eq_nil_iff.1 hnil).2
  have hread := s.decimal?_chars
  rw [hbody] at hread
  cases hread

/-- An integer numeral in the range of a kind is read as what it denotes. Out of range none is read, except that the
first integers below the signed range of 64 bits are read as its least one. -/
theorem whole?_of_isInteger (hs : s.IsInteger) (hkind : kind.bounds? = some (lo, hi)) {n : ℤ} :
    (whole? kind text = some n ∧ lo ≤ n ∧ n ≤ hi)
      ↔ (s.integer = n ∧ lo ≤ n ∧ n ≤ hi)
        ∨ n = lo ∧ lo = -2 ^ 63 ∧ -2 ^ 63 - 1024 ≤ s.integer ∧ s.integer < -2 ^ 63 := by
  rcases ScalarKind.signed_or_unsigned hkind with ⟨hsigned, hlo, hpos, hhi⟩ | ⟨hunsigned, rfl, hhi⟩
  · rw [whole?, if_pos hsigned, Whole.signed?_of_isInteger htext hs]
    omega
  · simp only [whole?, hunsigned, Bool.false_eq_true, if_false, map_ofNat_eq_some_iff,
      Whole.unsigned?_of_isInteger htext hs]
    omega

end Numerals

/-- Whether an integer numeral is one of the first below the signed range of 64 bits, which are rounded into it. -/
def RoundsIntoRange (lo : ℤ) (s : Spelling) : Prop :=
  lo = -2 ^ 63 ∧ -2 ^ 63 - 1024 ≤ s.integer ∧ s.integer < -2 ^ 63

/-- A cell of an integer column that holds an integer numeral is read as exactly what the numeral denotes if that is in
the range of the kind, and is refused otherwise, for every kind and every numeral that is not rounded into range. One
that is rounded into range is read as the least integer of the kind. -/
theorem convert_integer_numeral (hkind : kind.bounds? = some (lo, hi)) {s : Spelling} (hs : s.IsInteger)
    (htext : trimChars text.toList = s.chars) (enums : EnumTable) (cell : String) :
    let answer := (convert (.scalar kind) none enums text).mapError (SheetError.conversion cell)
    (AnswersBy answer (·.bind Value.integer?) (fun e => ∃ reason, e = .conversion cell ⟨.scalar kind, text, reason⟩)
        (fun n => s.integer = n ∧ lo ≤ n ∧ n ≤ hi)
      ↔ ¬RoundsIntoRange lo s)
    ∧ (RoundsIntoRange lo s → ∃ v, answer = .ok (some v) ∧ v.integer? = some lo) := by
  have hanswer := answersBy_convert hkind (isBlank_of_spelling htext) none enums cell
  have haccepted (n : ℤ) := whole?_of_isInteger (n := n) htext hs hkind
  refine ⟨?_, fun hrounds => ?_⟩
  · rw [hanswer.iff_of_answersBy]
    constructor
    · rintro hsame ⟨rfl, hlow, hhigh⟩
      have := (hsame (-2 ^ 63)).1 ((haccepted _).2 (.inr ⟨rfl, rfl, hlow, hhigh⟩))
      omega
    · intro hnot n
      rw [haccepted]
      constructor
      · rintro (h | ⟨-, hlo, hlow, hhigh⟩)
        · exact h
        · exact absurd ⟨hlo, hlow, hhigh⟩ hnot
      · exact .inl
  · obtain ⟨hlo, hlow, hhigh⟩ := hrounds
    obtain ⟨v?, hv, hread⟩ := hanswer.accepts lo ((haccepted lo).2 (.inr ⟨rfl, hlo, hlow, hhigh⟩))
    obtain ⟨v, rfl, hinteger⟩ := Option.bind_eq_some_iff.1 hread
    exact ⟨v, hv, hinteger⟩

end Conversion

/-- Two to the power of 31, written with zeros in front. -/
def pastInt32 : Numeral.Spelling where
  sign := .plus
  whole := "0002147483648".toList
  wholeDigits := by decide
  fractionDigits := by decide
  nonempty := by decide

theorem pastInt32_answered :
    let text := " +0002147483648 "
    let convert (kind : ScalarKind) :=
      (Conversion.convert (.scalar kind) none {} text).mapError (SheetError.conversion "B4")
    Text.trimChars text.toList = pastInt32.chars
      ∧ (∃ reason, convert .sint32 = .error (.conversion "B4" ⟨.scalar .sint32, text, reason⟩))
      ∧ ∃ v, convert .fixed32 = .ok v ∧ v.bind Value.integer? = some 2147483648 := by
  intro text convert
  have htext : Text.trimChars text.toList = pastInt32.chars := by decide
  have hinteger : pastInt32.integer = 2147483648 := by decide
  have hanswer (kind : ScalarKind) {lo hi : ℤ} (hkind : kind.bounds? = some (lo, hi)) :=
    (Conversion.convert_integer_numeral hkind ⟨rfl, rfl⟩ htext {} "B4").1.2 fun h => by
      have := h.2.2
      omega
  have hsigned := hanswer .sint32 rfl
  have hunsigned := hanswer .fixed32 rfl
  refine ⟨htext, ?_, hunsigned.accepts _ ⟨hinteger, by decide, by decide⟩⟩
  obtain ⟨e, he, reason, rfl⟩ := hsigned.refuses fun n hn => by omega
  exact ⟨reason, he⟩

/-- The greatest integer below the signed range of 64 bits. -/
def belowInt64 : Numeral.Spelling where
  sign := .minus
  whole := "9223372036854775809".toList
  wholeDigits := by decide
  fractionDigits := by decide
  nonempty := by decide

/-- It is read as the least integer of 64 bits, which is another. -/
theorem belowInt64_read_as_least :
    belowInt64.integer = -9223372036854775809 ∧ belowInt64.chars = "-9223372036854775809".toList
      ∧ ∀ kind ∈ [ScalarKind.int64, .sint64, .sfixed64],
        (Conversion.convert (.scalar kind) none {} "-9223372036854775809").toOption.bind (·.bind Value.integer?)
          = some (-9223372036854775808) := by
  decide +kernel

end SheetCompiler

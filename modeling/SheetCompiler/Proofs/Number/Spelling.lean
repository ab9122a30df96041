import Mathlib.Algebra.Field.Rat
import Mathlib.Data.List.Induction
import Mathlib.Tactic.FieldSimp
import Mathlib.Tactic.Ring
import SheetCompiler.Number.BinaryFormat
import SheetCompiler.Number.Numeral

/-!
# Decimal numerals and what they denote

A decimal numeral is taken apart here as it is spelled: a sign, digits in front of the point, digits behind it, and an
exponent. The rational number that it denotes goes by those parts. Reading a numeral finds that number without loss, and
a numeral with a point or an exponent is never taken for an integer numeral.
-/

namespace SheetCompiler.Numeral

open Text

def negateIf {α : Type} [Neg α] (negative : Bool) (x : α) : α := if negative then -x else x

inductive Sign where
  | none
  | plus
  | minus
  deriving DecidableEq, Repr

namespace Sign

def chars : Sign → List Char
  | .none => []
  | .plus => ['+']
  | .minus => ['-']

def isMinus (s : Sign) : Bool := s == .minus

end Sign

/-- The number that a decimal denotes. -/
def Decimal.value (d : Decimal) : ℚ := d.mantissa * 10 ^ d.exponent

/-- An exponent as it is spelled. -/
structure Exponent where
  mark : Char
  sign : Sign
  digits : List Char
  isMark : mark = 'e' ∨ mark = 'E'
  areDigits : digits.all isDigit = true
  nonempty : digits ≠ []

namespace Exponent

def chars (e : Exponent) : List Char := e.mark :: (e.sign.chars ++ e.digits)

def value (e : Exponent) : ℤ := negateIf e.sign.isMinus (ofDigits e.digits)

end Exponent

/-- A decimal numeral as it is spelled, with digits in front of the point or behind it. -/
structure Spelling where
  sign : Sign := .none
  whole : List Char
  fraction? : Option (List Char) := none
  exponent? : Option Exponent := none
  wholeDigits : whole.all isDigit = true
  fractionDigits : (fraction?.getD []).all isDigit = true
  nonempty : whole ++ fraction?.getD [] ≠ []

namespace Spelling

def fraction (s : Spelling) : List Char := s.fraction?.getD []

def exponent (s : Spelling) : ℤ := s.exponent?.elim 0 Exponent.value

def exponentChars (s : Spelling) : List Char := s.exponent?.elim [] Exponent.chars

/-- What stands behind the digits in front of the point. -/
def tail (s : Spelling) : List Char := (s.fraction?.elim [] fun digits => '.' :: digits) ++ s.exponentChars

def chars (s : Spelling) : List Char := s.sign.chars ++ (s.whole ++ s.tail)

/-- The number that the numeral denotes. -/
def value (s : Spelling) : ℚ :=
  negateIf s.sign.isMinus ((ofDigits s.whole + ofDigits s.fraction / 10 ^ s.fraction.length) * 10 ^ s.exponent)

/-- Whether this is an integer numeral: a sign, if any, and digits. -/
def IsInteger (s : Spelling) : Prop := s.fraction? = none ∧ s.exponent? = none

def integer (s : Spelling) : ℤ := negateIf s.sign.isMinus (ofDigits s.whole)

end Spelling

/-! ### Digits -/

section Digits

variable {s rest : List Char}

theorem ofDigits_append (s rest : List Char) :
    ofDigits (s ++ rest) = ofDigits s * 10 ^ rest.length + ofDigits rest := by
  induction rest using List.reverseRecOn with
  | nil => simp [ofDigits]
  | append_singleton rest c ih =>
      have hstep (digits : List Char) : ofDigits (digits ++ [c]) = 10 * ofDigits digits + (c.toNat - '0'.toNat) := by
        simp [ofDigits]
      rw [← List.append_assoc, hstep, hstep, ih, List.length_append, List.length_singleton, pow_succ]
      ring

theorem ofDigits_toDigits (n : ℕ) : ofDigits (Nat.toDigits 10 n) = n := by
  induction n using Nat.strongRecOn with
  | ind n ih =>
  have hdigit (d : ℕ) (hd : d < 10) : ofDigits [d.digitChar] = d := by
    have hall : ∀ d < 10, ofDigits [Nat.digitChar d] = d := by decide
    exact hall d hd
  rw [Nat.toDigits_eq_if (by decide)]
  split
  · next hsmall => exact hdigit n hsmall
  · next hlarge =>
    rw [ofDigits_append, ih (n / 10) (by omega), hdigit _ (Nat.mod_lt _ (by decide)), List.length_singleton, pow_one]
    exact Nat.div_add_mod' n 10

theorem natural?_digits (hdigits : s.all isDigit = true) (hne : s ≠ []) : natural? s = some (ofDigits s) := by
  simp [natural?, hdigits, hne]

theorem natural?_of_not_digit {c : Char} (hc : c ∈ s) (hdigit : isDigit c = false) : natural? s = none := by
  rw [natural?, if_pos]
  simp only [Bool.or_eq_true, Bool.not_eq_true', List.all_eq_false]
  exact .inr ⟨c, hc, by simp [hdigit]⟩

theorem takeWhile_digits (hdigits : s.all isDigit = true) (hrest : ∀ c ∈ rest.head?, isDigit c = false) :
    (s ++ rest).takeWhile isDigit = s ∧ (s ++ rest).dropWhile isDigit = rest := by
  have hall : ∀ c ∈ s, isDigit c = true := List.all_eq_true.1 hdigits
  have hstop : rest.takeWhile isDigit = [] ∧ rest.dropWhile isDigit = rest := by
    cases rest with
    | nil => exact ⟨rfl, rfl⟩
    | cons c rest =>
        have hc := hrest c rfl
        simp [hc]
  rw [List.takeWhile_append_of_pos hall, List.dropWhile_append_of_pos hall, hstop.1, hstop.2, List.append_nil]
  exact ⟨rfl, rfl⟩

theorem isDigit_ne {c : Char} (h : isDigit c = true) : c ≠ '+' ∧ c ≠ '-' := by
  constructor <;> rintro rfl <;> exact absurd h (by decide)

/-- A sign is taken off in front of what begins with no other. -/
theorem takeSign_append (sign : Sign) (hrest : ∀ c ∈ rest.head?, c ≠ '+' ∧ c ≠ '-') :
    takeSign (sign.chars ++ rest) = (sign.isMinus, rest) := by
  cases sign with
  | plus | minus => rfl
  | none =>
      rw [Sign.chars, List.nil_append, takeSign.eq_def]
      split
      · exact absurd rfl (hrest _ rfl).2
      · exact absurd rfl (hrest _ rfl).1
      · rfl

theorem head_digit (hdigits : s.all isDigit = true) (hne : s ≠ []) (rest : List Char) :
    ∀ c ∈ (s ++ rest).head?, isDigit c = true := by
  obtain ⟨first, s, rfl⟩ := List.exists_cons_of_ne_nil hne
  intro c hc
  cases hc
  exact List.all_eq_true.1 hdigits first List.mem_cons_self

theorem integer?_append (sign : Sign) (hrest : ∀ c ∈ rest.head?, c ≠ '+' ∧ c ≠ '-') :
    integer? (sign.chars ++ rest) = (natural? rest).map fun n => negateIf sign.isMinus (n : ℤ) := by
  simp only [integer?, takeSign_append sign hrest]
  rfl

theorem unsigned?_append (sign : Sign) (hrest : ∀ c ∈ rest.head?, c ≠ '+' ∧ c ≠ '-') :
    unsigned? (sign.chars ++ rest) = if sign.isMinus then none else natural? rest := by
  cases sign with
  | plus => rfl
  | minus => exact natural?_of_not_digit List.mem_cons_self (by decide)
  | none =>
      rw [Sign.chars, List.nil_append, unsigned?.eq_def]
      split
      · exact absurd rfl (hrest _ rfl).1
      · rfl

end Digits

namespace Exponent

theorem exponent?_chars (e : Exponent) : exponent? e.chars = some e.value := by
  have hmark : (e.mark == 'e' || e.mark == 'E') = true := by simpa using e.isMark
  have hhead := head_digit e.areDigits e.nonempty []
  rw [List.append_nil] at hhead
  rw [chars, exponent?, if_pos hmark, integer?_append e.sign fun c hc => isDigit_ne (hhead c hc),
    natural?_digits e.areDigits e.nonempty]
  rfl

theorem mark_spec (e : Exponent) : isDigit e.mark = false ∧ e.mark ≠ '.' := by
  rcases e.isMark with h | h <;> rw [h] <;> decide

end Exponent

namespace Spelling

variable (s : Spelling)

theorem exponent?_exponentChars : Numeral.exponent? s.exponentChars = some s.exponent := by
  rw [exponentChars, exponent]
  cases s.exponent? with
  | none => rfl
  | some e => exact e.exponent?_chars

theorem head_exponentChars : ∀ c ∈ s.exponentChars.head?, isDigit c = false ∧ c ≠ '.' := by
  rw [exponentChars]
  cases s.exponent? with
  | none => nofun
  | some e =>
      intro c hc
      cases hc
      exact e.mark_spec

theorem head_tail : ∀ c ∈ s.tail.head?, isDigit c = false := by
  rw [tail]
  cases s.fraction? with
  | none => exact fun c hc => (s.head_exponentChars c hc).1
  | some digits =>
      intro c hc
      cases hc
      decide

def decimal : Decimal := ⟨ofDigits (s.whole ++ s.fraction), s.exponent - s.fraction.length⟩

theorem decimal?_chars : decimal? (s.whole ++ s.tail) = some s.decimal := by
  obtain ⟨hwhole, htail⟩ := takeWhile_digits s.wholeDigits s.head_tail
  have hnonempty := s.nonempty
  have hdigits := s.fractionDigits
  simp only [decimal?, hwhole, htail, decimal, fraction]
  rw [tail]
  cases hfraction : s.fraction? with
  | none =>
      rw [hfraction] at hnonempty
      rw [Option.elim_none, List.nil_append]
      split
      · next rest hpoint => exact absurd rfl (s.head_exponentChars '.' (by rw [hpoint]; rfl)).2
      · have hwhole : s.whole ≠ [] := by simpa using hnonempty
        simp [s.exponent?_exponentChars, hwhole]
  | some digits =>
      rw [hfraction] at hnonempty hdigits
      obtain ⟨hfront, hbehind⟩ := takeWhile_digits hdigits fun c hc => (s.head_exponentChars c hc).1
      simp only [Option.getD_some] at hnonempty hfront hbehind
      have hsome : (s.whole.isEmpty && digits.isEmpty) = false := by simpa using hnonempty
      simp [hfront, hbehind, s.exponent?_exponentChars, hsome]

theorem head_body : ∀ c ∈ (s.whole ++ s.tail).head?, c ≠ '+' ∧ c ≠ '-' := by
  by_cases hwhole : s.whole = []
  · have hnonempty := s.nonempty
    rw [hwhole, List.nil_append] at hnonempty ⊢
    intro c hc
    cases hfraction : s.fraction? with
    | none => simp [hfraction] at hnonempty
    | some digits =>
        rw [tail, hfraction] at hc
        cases hc
        decide
  · exact fun c hc => isDigit_ne (head_digit s.wholeDigits hwhole s.tail c hc)

/-- A numeral is read as its digits. -/
theorem signed?_chars : signed? s.chars = some (s.sign.isMinus, .finite s.decimal) := by
  simp only [signed?, chars, takeSign_append s.sign s.head_body, magnitude?, s.decimal?_chars, Option.map_some]

/-- These digits with their power of ten are the number that is denoted. -/
theorem value_eq : s.value = negateIf s.sign.isMinus s.decimal.value := by
  have hten : (10 : ℚ) ≠ 0 := by norm_num
  rw [value, Decimal.value, decimal, ofDigits_append, zpow_sub₀ hten, zpow_natCast]
  congr 1
  push_cast
  field_simp

/-! ### Integer numerals -/

variable {s}

theorem IsInteger.tail_eq (h : s.IsInteger) : s.tail = [] := by simp [tail, exponentChars, h.1, h.2]

theorem IsInteger.whole_ne (h : s.IsInteger) : s.whole ≠ [] := by
  have := s.nonempty
  rw [h.1] at this
  simpa using this

theorem IsInteger.value_eq (h : s.IsInteger) : s.value = s.integer := by
  have hfraction : ofDigits s.fraction = 0 := by rw [fraction, h.1]; rfl
  rw [value, integer, exponent, h.2, hfraction]
  cases s.sign.isMinus <;> simp [negateIf]

theorem IsInteger.natural?_body (h : s.IsInteger) : natural? (s.whole ++ s.tail) = some (ofDigits s.whole) := by
  rw [h.tail_eq, List.append_nil]
  exact natural?_digits s.wholeDigits h.whole_ne

theorem IsInteger.integer?_chars (h : s.IsInteger) : integer? s.chars = some s.integer := by
  rw [chars, integer?_append s.sign s.head_body, h.natural?_body]
  rfl

theorem IsInteger.unsigned?_chars (h : s.IsInteger) :
    unsigned? s.chars = if s.sign.isMinus then none else some (ofDigits s.whole) := by
  rw [chars, unsigned?_append s.sign s.head_body, h.natural?_body]

/-- A point or the mark of an exponent is no digit. -/
theorem natural?_body_eq_none (h : ¬s.IsInteger) : natural? (s.whole ++ s.tail) = none := by
  have hmem : ∃ c ∈ s.tail, isDigit c = false := by
    rw [tail, exponentChars]
    cases hfraction : s.fraction? with
    | some digits => exact ⟨'.', List.mem_cons_self, by decide⟩
    | none =>
        cases hexponent : s.exponent? with
        | some e => exact ⟨e.mark, List.mem_cons_self, e.mark_spec.1⟩
        | none => exact absurd ⟨hfraction, hexponent⟩ h
  obtain ⟨c, hc, hdigit⟩ := hmem
  exact natural?_of_not_digit (List.mem_append_right _ hc) hdigit

theorem integer?_chars_eq_none (h : ¬s.IsInteger) : integer? s.chars = none := by
  rw [chars, integer?_append s.sign s.head_body, natural?_body_eq_none h]
  rfl

theorem unsigned?_chars_eq_none (h : ¬s.IsInteger) : unsigned? s.chars = none := by
  rw [chars, unsigned?_append s.sign s.head_body, natural?_body_eq_none h, ite_self]

end Spelling

end SheetCompiler.Numeral

import SheetCompiler.Number.Shortest
import SheetCompiler.Proofs.Number.Alphabet

/-!
# The characters of numbers that are written

What is read as a number is spelled with digits, letters, signs and points. Numbers are written with the same
characters, integers and floating-point numbers of every style.
-/

namespace SheetCompiler

namespace Numeral

/-- Whether a text has characters of numerals only. -/
def InAlphabet (s : List Char) : Prop := ∀ c ∈ s, inAlphabet c = true

instance (s : List Char) : Decidable (InAlphabet s) := decidable_of_iff (s.all inAlphabet = true) List.all_eq_true

namespace InAlphabet

variable {s more : List Char} {c : Char}

theorem nil : InAlphabet [] := fun _ hc => absurd hc List.not_mem_nil

theorem cons (hc : inAlphabet c = true) (hs : InAlphabet s) : InAlphabet (c :: s) := List.forall_mem_cons.2 ⟨hc, hs⟩

theorem append (hs : InAlphabet s) (hmore : InAlphabet more) : InAlphabet (s ++ more) :=
  fun c hc => (List.mem_append.1 hc).elim (hs c) (hmore c)

theorem replicate (n : Nat) (hc : inAlphabet c = true) : InAlphabet (List.replicate n c) :=
  fun _ h => List.eq_of_mem_replicate h ▸ hc

end InAlphabet

theorem inAlphabet_toDigits (n : Nat) : InAlphabet (Nat.toDigits 10 n) := by
  intro c hc
  have hdigit : c.isDigit = true := Nat.isDigit_of_mem_toDigits (by decide) (by decide) hc
  apply inAlphabet_of_isDigit
  simpa [Text.isDigit, Char.isDigit, Char.le_def] using hdigit

theorem inAlphabet_toString_nat (n : Nat) : InAlphabet (toString n).toList := by
  rw [Nat.toString_eq_repr, Nat.repr, String.toList_ofList]
  exact inAlphabet_toDigits n

theorem inAlphabet_toString_int (n : Int) : InAlphabet (toString n).toList := by
  cases n with
  | ofNat n => exact inAlphabet_toString_nat n
  | negSucc n =>
      have htext : toString (Int.negSucc n) = "-" ++ toString (n + 1) := rfl
      rw [htext, String.toList_append]
      exact .cons rfl (inAlphabet_toString_nat _)

end Numeral

namespace FloatStyle

open Numeral (InAlphabet)

variable {digits : List Char}

theorem inAlphabet_writtenOut (style : FloatStyle) (h : InAlphabet digits) (point : Int) :
    InAlphabet (style.writtenOut digits point) := by
  have hzeros (n : Nat) : InAlphabet (List.replicate n '0') := .replicate n rfl
  rw [writtenOut]
  split
  · exact .append (.cons rfl (.cons rfl (hzeros _))) h
  · split
    · apply InAlphabet.append (.append h (hzeros _))
      split <;> decide
    · apply InAlphabet.append (fun c hc => h c (List.mem_of_mem_take hc))
      exact .cons rfl fun c hc => h c (List.mem_of_mem_drop hc)

theorem inAlphabet_scientific (h : InAlphabet digits) (exponent : Int) : InAlphabet (scientific digits exponent) := by
  unfold scientific
  apply InAlphabet.append ?_ (.cons rfl (Numeral.inAlphabet_toString_int exponent))
  match digits, h with
  | [], h | [_], h => exact h
  | d :: next :: rest, h =>
      obtain ⟨hd, hrest⟩ := List.forall_mem_cons.1 h
      exact .cons hd (.cons rfl hrest)

theorem inAlphabet_decimal (style : FloatStyle) (d : Numeral.Decimal) : InAlphabet (style.decimal d) := by
  have hdigits := Numeral.inAlphabet_toDigits d.mantissa
  unfold decimal
  dsimp only
  split
  · split
    · exact style.inAlphabet_writtenOut hdigits _
    · exact inAlphabet_scientific hdigits _
  · exact style.inAlphabet_writtenOut hdigits _

theorem inAlphabet_write (style : FloatStyle) (hnan : InAlphabet style.nan.toList) (f : BinaryFormat) (negative : Bool)
    (magnitude : Nat) : InAlphabet (style.write f negative magnitude).toList := by
  have hsigned {body : List Char} (hbody : InAlphabet body) :
      InAlphabet (String.ofList (if negative then '-' :: body else body)).toList := by
    rw [String.toList_ofList]
    split
    · exact .cons rfl hbody
    · exact hbody
  unfold write
  split
  · exact hnan
  · apply hsigned
    split
    · decide
    · split
      · split <;> decide
      · exact style.inAlphabet_decimal _

end FloatStyle

end SheetCompiler

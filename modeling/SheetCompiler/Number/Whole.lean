import SheetCompiler.Number.Double
import SheetCompiler.Text.Blank

/-!
# Whole numbers in cells

Spreadsheets store whole numbers as floating-point ones, so `3.0` and `1e3` have to read as
integers. A text that is an integer numeral within 64 bits is read exactly; any other text is read as
a double, and counts if that double is an integer within the range.
-/

namespace SheetCompiler.Whole

/-- The integer that a text denotes as a double. -/
def ofDouble? (s : List Char) : Option Int := (Double.read? s).bind Double.integer?

def signed? (text : String) : Option Int :=
  let s := Text.trimChars text.toList
  let fits (n : Int) : Bool := -2 ^ 63 ≤ n && n < 2 ^ 63
  match (Numeral.integer? s).filter fits with
  | some n => some n
  | none => (ofDouble? s).filter fits

def unsigned? (text : String) : Option Nat :=
  let s := Text.trimChars text.toList
  match (Numeral.unsigned? s).filter (· < 2 ^ 64) with
  | some n => some n
  | none => ((ofDouble? s).filter fun n => 0 ≤ n && n < 2 ^ 64).map Int.toNat

/-- A count: an unsigned integer of 64 bits, where a double of exactly `2 ^ 64` is taken for the
greatest of them. -/
def count? (text : String) : Option Nat :=
  let s := Text.trimChars text.toList
  match (Numeral.unsigned? s).filter (· < 2 ^ 64) with
  | some n => some n
  | none => ((ofDouble? s).filter fun n => 0 ≤ n && n ≤ 2 ^ 64).map fun n => min n.toNat (2 ^ 64 - 1)

end SheetCompiler.Whole

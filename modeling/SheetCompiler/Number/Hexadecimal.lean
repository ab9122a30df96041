import SheetCompiler.Text.Identifier

/-!
# Hexadecimal numerals

Numbers and codes of characters that are spelled with sixteen digits, the letters in either case.
-/

namespace SheetCompiler.Hexadecimal

def isDigit (c : Char) : Bool := Text.isDigit c || ('a' ≤ c && c ≤ 'f') || ('A' ≤ c && c ≤ 'F')

def digitValue (c : Char) : Nat :=
  if Text.isDigit c then c.toNat - '0'.toNat
  else if 'a' ≤ c then c.toNat - 'a'.toNat + 10
  else c.toNat - 'A'.toNat + 10

/-- The number that digits denote, the most significant one first. -/
def ofDigits (digits : List Char) : Nat := digits.foldl (fun n c => 16 * n + digitValue c) 0

/-- The character whose code is spelled with exactly this many digits. -/
def character? (count : Nat) (s : List Char) : Option Char :=
  if s.length = count ∧ s.all isDigit then
    let code := ofDigits s
    if h : code.isValidChar then some (Char.ofNatAux code h) else none
  else none

end SheetCompiler.Hexadecimal

import SheetCompiler.Text.Utf8

/-!
# Escaped text

Strings and byte strings of the text format stand between double quotes. Quotes, backslashes and
control characters inside them are escaped, so a literal ends at its own closing quote and on its own
line. Characters outside ASCII are kept in strings; in byte strings every byte that is not printable
ASCII is three octal digits.
-/

namespace SheetCompiler.Text.Escape

/-- The octal digit of the residue of `n` modulo eight. -/
def octalDigit (n : Nat) : Char := Char.ofNat ('0'.toNat + n % 8)

/-- A backslash and three octal digits. -/
def octal (n : Nat) : List Char := ['\\', octalDigit (n / 64), octalDigit (n / 8), octalDigit n]

/-- The characters that have a short escape of their own. -/
def short? : Char → Option Char
  | '\n' => some 'n'
  | '\r' => some 'r'
  | '\t' => some 't'
  | '"' => some '"'
  | '\'' => some '\''
  | '\\' => some '\\'
  | _ => none

/-- One character of a string. -/
def char (c : Char) : List Char :=
  match short? c with
  | some mark => ['\\', mark]
  | none => if c.toNat < 0x20 || c.toNat == 0x7F then octal c.toNat else [c]

/-- One byte of a byte string. -/
def byte (b : UInt8) : List Char :=
  let c := Char.ofNat b.toNat
  match short? c with
  | some mark => ['\\', mark]
  | none => if 0x20 ≤ b.toNat && b.toNat ≤ 0x7E then [c] else octal b.toNat

/-- The inside of a string literal. -/
def string (s : List Char) : List Char := s.flatMap char

/-- The inside of a byte-string literal. -/
def bytes (bs : Bytes) : List Char := bs.flatMap byte

end SheetCompiler.Text.Escape

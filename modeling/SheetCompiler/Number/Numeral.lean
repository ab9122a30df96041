import SheetCompiler.Text.Identifier

/-!
# Numerals

The numbers that cells, headers and enum definitions spell out, read exactly. An integer is an
optional sign and decimal digits; a decimal may add a fraction and an exponent, or be one of the
words for infinity and for not-a-number. Reading loses nothing: rounding a decimal into a binary
format is the business of `BinaryFormat`.
-/

namespace SheetCompiler.Numeral

open Text

/-- The number that decimal digits denote, the most significant one first. -/
def ofDigits (digits : List Char) : Nat :=
  digits.foldl (fun n c => 10 * n + (c.toNat - '0'.toNat)) 0

/-- One or more digits and nothing else. -/
def natural? (s : List Char) : Option Nat :=
  if s.isEmpty || !s.all isDigit then none else some (ofDigits s)

/-- Takes an optional sign off the front and says whether it was a minus. -/
def takeSign : List Char → Bool × List Char
  | '-' :: rest => (true, rest)
  | '+' :: rest => (false, rest)
  | s => (false, s)

/-- An optional sign and digits. -/
def integer? (s : List Char) : Option Int :=
  let (negative, rest) := takeSign s
  (natural? rest).map fun n => if negative then -(n : Int) else n

/-- An optional plus and digits. A minus is refused even in front of zero. -/
def unsigned? : List Char → Option Nat
  | '+' :: rest => natural? rest
  | s => natural? s

/-- The decimal `mantissa · 10 ^ exponent`. -/
structure Decimal where
  mantissa : Nat
  exponent : Int
  deriving DecidableEq, Repr

/-- What a decimal numeral denotes, its sign aside. -/
inductive Magnitude where
  | finite (value : Decimal)
  | infinity
  | nan
  deriving DecidableEq, Repr

/-- The exponent mark, an optional sign and digits; no mark at all means exponent zero. -/
def exponent? : List Char → Option Int
  | [] => some 0
  | c :: rest => if c == 'e' || c == 'E' then integer? rest else none

/-- Digits with an optional point among or around them, then an optional exponent. -/
def decimal? (s : List Char) : Option Decimal :=
  let whole := s.takeWhile isDigit
  let rest := s.dropWhile isDigit
  let (fraction, rest) := match rest with
    | '.' :: rest => (rest.takeWhile isDigit, rest.dropWhile isDigit)
    | rest => ([], rest)
  if whole.isEmpty && fraction.isEmpty then none
  else (exponent? rest).map fun e => ⟨ofDigits (whole ++ fraction), e - fraction.length⟩

/-- An unsigned decimal, or a word for infinity or not-a-number in any case. -/
def magnitude? (s : List Char) : Option Magnitude :=
  match decimal? s with
  | some d => some (.finite d)
  | none =>
      match String.ofList (s.map Char.toLower) with
      | "inf" | "infinity" => some .infinity
      | "nan" => some .nan
      | _ => none

/-- An optional sign in front of a magnitude: whether it is a minus, and the magnitude. -/
def signed? (s : List Char) : Option (Bool × Magnitude) :=
  let (negative, rest) := takeSign s
  (magnitude? rest).map (negative, ·)

end SheetCompiler.Numeral

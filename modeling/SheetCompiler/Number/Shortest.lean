import SheetCompiler.Number.Double

/-!
# Shortest decimals

A floating-point number is written with the fewest decimal digits that read back as the same number.
For one digit, two digits and so on, the two neighbours of the value on the grid of decimals with
that many digits are tried; the first grid on which one of them reads back wins, the nearer neighbour
if both do, and the upper one if the value lies halfway.
-/

namespace SheetCompiler

namespace Shortest

/-- The number of decimal digits of a natural number. -/
def width (n : Nat) : Nat := (Nat.toDigits 10 n).length

/-- The greatest power of ten that is at most `num / den`, by its exponent. -/
def floorLog10 (num den : Nat) : Int :=
  if den ≤ num then (width (num / den) : Int) - 1
  else
    let k := width (den / num)
    if num * 10 ^ (k - 1) = den then 1 - (k : Int) else -(k : Int)

/-- The neighbour of `num / den` on the grid of the multiples of `10 ^ unit` that reads back as
`magnitude`. -/
def onGrid? (f : BinaryFormat) (magnitude num den : Nat) (unit : Int) : Option Nat :=
  let num := num * 10 ^ (-unit).toNat
  let den := den * 10 ^ unit.toNat
  let low := num / den
  let readsBack (n : Nat) := f.ofDecimal n unit == magnitude
  match readsBack low, readsBack (low + 1) with
  | true, true => some (if 2 * (num % den) < den then low else low + 1)
  | true, false => some low
  | false, true => some (low + 1)
  | false, false => none

/-- Seventeen digits tell any two numbers of either format apart. -/
def maxDigits : Nat := 17

/-- Moves the zeros at the end of the mantissa into the exponent. -/
def normalise : Nat → Numeral.Decimal → Numeral.Decimal
  | 0, d => d
  | fuel + 1, d =>
      if d.mantissa % 10 = 0 then normalise fuel ⟨d.mantissa / 10, d.exponent + 1⟩ else d

/-- The shortest decimal of a finite magnitude other than zero. -/
def decimal (f : BinaryFormat) (magnitude : Nat) : Numeral.Decimal :=
  let (num, den) := f.quotient magnitude
  let top := floorLog10 num den
  let attempt (digits : Nat) : Option Numeral.Decimal :=
    (onGrid? f magnitude num den (top - digits)).map fun n => ⟨n, top - digits⟩
  normalise maxDigits (((List.range maxDigits).findSome? attempt).getD ⟨0, 0⟩)

end Shortest

/-- How a floating-point number is laid out in characters. -/
structure FloatStyle where
  /-- Whether a number without a fraction is written with one, `.0`. -/
  alwaysFraction : Bool
  /-- The decimal exponents for which the number is written out in full; all of them if absent. -/
  positional : Option (Int × Int)
  nan : String

namespace FloatStyle

/-- The digits written out around the point, which stands after the first `point` of them. -/
def writtenOut (style : FloatStyle) (digits : List Char) (point : Int) : List Char :=
  if point ≤ 0 then '0' :: '.' :: List.replicate (-point).toNat '0' ++ digits
  else if digits.length ≤ point then
    digits ++ List.replicate (point.toNat - digits.length) '0'
      ++ (if style.alwaysFraction then ['.', '0'] else [])
  else digits.take point.toNat ++ '.' :: digits.drop point.toNat

/-- One digit before the point and the others after it, then the exponent. -/
def scientific (digits : List Char) (exponent : Int) : List Char :=
  let mantissa := match digits with
    | [] => []
    | [d] => [d]
    | d :: rest => d :: '.' :: rest
  mantissa ++ 'e' :: (toString exponent).toList

def decimal (style : FloatStyle) (d : Numeral.Decimal) : List Char :=
  let digits := Nat.toDigits 10 d.mantissa
  let exponent := d.exponent + digits.length - 1
  match style.positional with
  | some (low, high) =>
      if low ≤ exponent ∧ exponent < high then style.writtenOut digits (exponent + 1)
      else scientific digits exponent
  | none => style.writtenOut digits (exponent + 1)

def write (style : FloatStyle) (f : BinaryFormat) (negative : Bool) (magnitude : Nat) : String :=
  if f.infinity < magnitude then style.nan
  else
    let body :=
      if magnitude = f.infinity then "inf".toList
      else if magnitude = 0 then if style.alwaysFraction then "0.0".toList else ['0']
      else style.decimal (Shortest.decimal f magnitude)
    String.ofList (if negative then '-' :: body else body)

def writeDouble (style : FloatStyle) (d : Double) : String := style.write .double d.isNegative d.magnitude

def writeSingle (style : FloatStyle) (s : Single) : String := style.write .single s.isNegative s.magnitude

end FloatStyle

end SheetCompiler

/-!
# Binary floating-point formats

A binary interchange format stores a sign, an exponent and the fraction of a significand. The
magnitude part of an encoding is a number that grows with the value it stands for: zero first, then
the subnormal and the normal numbers, then infinity, and every not-a-number above that. Rounding a
quotient of naturals to the nearest encoding, a half going to the even significand, is exact integer
arithmetic on that number, and both formats in use here are instances of it.
-/

-- A power of a number is the one of core, so that a definition means the same beside any library.
attribute [instance (high), default_instance 20000] instPowNat

namespace SheetCompiler

/-- A format by the widths of its stored fraction and exponent. -/
structure BinaryFormat where
  fractionBits : Nat
  exponentBits : Nat
  deriving DecidableEq, Repr

def BinaryFormat.single : BinaryFormat := ⟨23, 8⟩

def BinaryFormat.double : BinaryFormat := ⟨52, 11⟩

namespace BinaryFormat

/-- The magnitude encoding of infinity. -/
def infinity (f : BinaryFormat) : Nat := (2 ^ f.exponentBits - 1) * 2 ^ f.fractionBits

/-- The magnitude encoding of the not-a-number that arithmetic answers with. -/
def quietNaN (f : BinaryFormat) : Nat := f.infinity + 2 ^ (f.fractionBits - 1)

/-- The least positive value is two to this power. -/
def minExponent (f : BinaryFormat) : Int := 2 - 2 ^ (f.exponentBits - 1) - f.fractionBits

/-- Values from two to this power on overflow. -/
def maxExponent (f : BinaryFormat) : Int := 2 ^ (f.exponentBits - 1)

/-- The integer nearest to `num / den`, a half going to the even neighbour. -/
def nearest (num den : Nat) : Nat :=
  let low := num / den
  let rest := num % den
  if 2 * rest < den then low
  else if den < 2 * rest then low + 1
  else if low % 2 = 0 then low
  else low + 1

/-- The greatest power of two that is at most `num / den`, by its exponent. -/
def floorLog2 (num den : Nat) : Int :=
  let k : Int := (Nat.log2 num : Int) - Nat.log2 den
  if num * 2 ^ (-k).toNat < den * 2 ^ k.toNat then k - 1 else k

/-- The magnitude encoding nearest to `num / den`. The unit in the last place is `2 ^ q`; a
significand that rounds up past its width carries into the exponent, which is the right encoding,
and what exceeds every finite value becomes infinity. -/
def round (f : BinaryFormat) (num den : Nat) : Nat :=
  if num = 0 then 0
  else
    let q := max f.minExponent (floorLog2 num den - f.fractionBits)
    let significand := nearest (num * 2 ^ (-q).toNat) (den * 2 ^ q.toNat)
    min f.infinity ((q - f.minExponent).toNat * 2 ^ f.fractionBits + significand)

/-- The magnitude encoding nearest to `mantissa · 10 ^ exponent`. An exponent so large or so small
that the answer is plain from the mantissa's width never reaches the arithmetic. -/
def ofDecimal (f : BinaryFormat) (mantissa : Nat) (exponent : Int) : Nat :=
  if mantissa = 0 then 0
  else if 0 ≤ exponent then
    if f.maxExponent ≤ Nat.log2 mantissa + 3 * exponent then f.infinity
    else f.round (mantissa * 10 ^ exponent.toNat) 1
  else if Nat.log2 mantissa + 1 + 3 * exponent < f.minExponent then 0
  else f.round mantissa (10 ^ (-exponent).toNat)

/-- Significand and exponent of a finite magnitude: it stands for `significand · 2 ^ exponent`. -/
def parts (f : BinaryFormat) (magnitude : Nat) : Nat × Int :=
  let fraction := magnitude % 2 ^ f.fractionBits
  match magnitude / 2 ^ f.fractionBits with
  | 0 => (fraction, f.minExponent)
  | e + 1 => (2 ^ f.fractionBits + fraction, f.minExponent + e)

def quotient (f : BinaryFormat) (magnitude : Nat) : Nat × Nat :=
  let (significand, exponent) := f.parts magnitude
  (significand * 2 ^ exponent.toNat, 2 ^ (-exponent).toNat)

/-- The same value in another format, rounded where it has to be. A not-a-number keeps the leading
bits of its payload and becomes quiet. -/
def convert (source target : BinaryFormat) (magnitude : Nat) : Nat :=
  if magnitude < source.infinity then
    let (num, den) := source.quotient magnitude
    target.round num den
  else if magnitude = source.infinity then target.infinity
  else
    let payload := magnitude % 2 ^ source.fractionBits
    let shifted := payload * 2 ^ target.fractionBits / 2 ^ source.fractionBits
    target.infinity + (2 ^ (target.fractionBits - 1) ||| shifted)

end BinaryFormat

end SheetCompiler

import SheetCompiler.Number.BinaryFormat
import SheetCompiler.Number.Numeral

/-!
# Doubles and singles

The two floating-point types of the schema language, each as its bits. Two doubles are equal here
when their bits are, so `-0.0` differs from `0.0` and a not-a-number equals itself; `Double.agrees`
is the numeric comparison, for which neither holds.
-/

namespace SheetCompiler

/-- A binary64 number. -/
structure Double where
  bits : UInt64
  deriving DecidableEq, Repr, Inhabited

/-- A binary32 number. -/
structure Single where
  bits : UInt32
  deriving DecidableEq, Repr, Inhabited

namespace Double

def isNegative (d : Double) : Bool := 2 ^ 63 ≤ d.bits.toNat

/-- The encoding without its sign. -/
def magnitude (d : Double) : Nat := d.bits.toNat % 2 ^ 63

def ofMagnitude (negative : Bool) (magnitude : Nat) : Double :=
  ⟨.ofNat ((if negative then 2 ^ 63 else 0) + magnitude)⟩

def isNaN (d : Double) : Bool := BinaryFormat.double.infinity < d.magnitude

def isFinite (d : Double) : Bool := d.magnitude < BinaryFormat.double.infinity

/-- The double nearest to a numeral. -/
def ofNumeral : Bool × Numeral.Magnitude → Double
  | (negative, .finite d) => ofMagnitude negative (BinaryFormat.double.ofDecimal d.mantissa d.exponent)
  | (negative, .infinity) => ofMagnitude negative BinaryFormat.double.infinity
  | (negative, .nan) => ofMagnitude negative BinaryFormat.double.quietNaN

/-- The double that a decimal numeral, signed or not, is nearest to. -/
def read? (s : List Char) : Option Double := (Numeral.signed? s).map ofNumeral

/-- The value of a double that is an integer. -/
def integer? (d : Double) : Option Int :=
  if d.isFinite then
    let (num, den) := BinaryFormat.double.quotient d.magnitude
    if num % den = 0 then some (if d.isNegative then -((num / den : Nat) : Int) else (num / den : Nat))
    else none
  else none

/-- Numeric equality: the two zeros agree, and a not-a-number agrees with nothing. -/
def agrees (a b : Double) : Bool :=
  !a.isNaN && !b.isNaN && (a.bits == b.bits || (a.magnitude == 0 && b.magnitude == 0))

end Double

namespace Single

def isNegative (s : Single) : Bool := 2 ^ 31 ≤ s.bits.toNat

def magnitude (s : Single) : Nat := s.bits.toNat % 2 ^ 31

def ofMagnitude (negative : Bool) (magnitude : Nat) : Single :=
  ⟨.ofNat ((if negative then 2 ^ 31 else 0) + magnitude)⟩

/-- The single nearest to a numeral, rounded once and not by way of a double. -/
def ofNumeral : Bool × Numeral.Magnitude → Single
  | (negative, .finite d) => ofMagnitude negative (BinaryFormat.single.ofDecimal d.mantissa d.exponent)
  | (negative, .infinity) => ofMagnitude negative BinaryFormat.single.infinity
  | (negative, .nan) => ofMagnitude negative BinaryFormat.single.quietNaN

/-- The single that a decimal numeral, signed or not, is nearest to. -/
def read? (s : List Char) : Option Single := (Numeral.signed? s).map ofNumeral

/-- The double of the same value. -/
def toDouble (s : Single) : Double :=
  .ofMagnitude s.isNegative (BinaryFormat.single.convert .double s.magnitude)

end Single

def Double.toSingle (d : Double) : Single :=
  .ofMagnitude d.isNegative (BinaryFormat.double.convert .single d.magnitude)

end SheetCompiler

/-!
# Zigzag numbers

Signed numbers near zero, of either sign, become small unsigned ones: the sign moves into the lowest
bit, so that 0, -1, 1, -2, 2 are written as 0, 1, 2, 3, 4.
-/

namespace SheetCompiler.Zigzag

def encode (n : Int64) : UInt64 := ((n <<< 1) ^^^ (n >>> 63)).toUInt64

def decode (code : UInt64) : Int64 := (code >>> 1).toInt64 ^^^ -(code &&& 1).toInt64

end SheetCompiler.Zigzag

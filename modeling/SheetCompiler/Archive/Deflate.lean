/-!
# Deflate

Reads data that is compressed in the deflate format: blocks that are stored as they are, or whose
literals and copies are written in prefix codes. A prefix code is canonical, so it is told by the
lengths of its words alone.

Every symbol takes at least one bit, so the number of bits bounds the number of steps; the readers
carry it as a bound that is never met.
-/

-- A power of a number is the one of core, so that a definition means the same beside any library.
attribute [instance (high), default_instance 20000] instPowNat

namespace SheetCompiler.Archive

inductive DeflateFault where
  | truncated
  | badBlock
  | badCode
  | badDistance
  deriving DecidableEq, Repr

namespace Deflate

/-- Reads compressed data from a place on, counted in bits. The bits of a byte come with the lowest one
first. -/
abbrev BitReader := ReaderT ByteArray (StateT Nat (Except DeflateFault))

namespace BitReader

def bit : BitReader Nat := fun data position =>
  match data[position / 8]? with
  | some byte => .ok (byte.toNat / 2 ^ (position % 8) % 2, position + 1)
  | none => .error .truncated

def bits : Nat → BitReader Nat
  | 0 => pure 0
  | n + 1 => do
      let low ← bit
      return low + 2 * (← bits n)

def bytes (length : Nat) : BitReader ByteArray := fun data position =>
  let start := (position + 7) / 8
  if data.size < start + length then .error .truncated
  else .ok (data.extract start (start + length), 8 * (start + length))

end BitReader

open BitReader

/-- The longest word of a prefix code. -/
def maxLength : Nat := 15

/-- A canonical prefix code: how many words there are of each length, and the symbols in the order of
their words. -/
structure Code where
  counts : List Nat
  symbols : Array Nat

/-- The code in which each symbol has a word of the given length, or none if the length is zero. -/
def Code.ofLengths (lengths : List Nat) : Code :=
  let ofLength (n : Nat) := (lengths.zipIdx.filter (·.1 == n)).map (·.2)
  let words := (List.range maxLength).map fun n => ofLength (n + 1)
  ⟨words.map (·.length), words.flatten.toArray⟩

/-- Reads a word, the counts of the remaining lengths given. Of the words of the length so far, the
first is `first`, and its symbol is at `index`. -/
def Code.readFrom (code : Code) (word first index : Nat) : List Nat → BitReader Nat
  | [] => throw .badCode
  | count :: counts => do
      let word := 2 * word + (← bit)
      let first := 2 * first
      if first + count ≤ word then code.readFrom word (first + count) (index + count) counts
      else match code.symbols[index + (word - first)]? with
        | some symbol => return symbol
        | none => throw .badCode

def Code.read (code : Code) : BitReader Nat := code.readFrom 0 0 0 code.counts

/-- The least length of the copies of a symbol from 257 on, and how many bits are added to it. -/
def copyLengths : Array (Nat × Nat) := #[(3, 0), (4, 0), (5, 0), (6, 0), (7, 0), (8, 0), (9, 0), (10, 0),
  (11, 1), (13, 1), (15, 1), (17, 1), (19, 2), (23, 2), (27, 2), (31, 2), (35, 3), (43, 3), (51, 3), (59, 3),
  (67, 4), (83, 4), (99, 4), (115, 4), (131, 5), (163, 5), (195, 5), (227, 5), (258, 0)]

/-- The least distance of a symbol, and how many bits are added to it. -/
def copyDistances : Array (Nat × Nat) := #[(1, 0), (2, 0), (3, 0), (4, 0), (5, 1), (7, 1), (9, 2), (13, 2),
  (17, 3), (25, 3), (33, 4), (49, 4), (65, 5), (97, 5), (129, 6), (193, 6), (257, 7), (385, 7), (513, 8),
  (769, 8), (1025, 9), (1537, 9), (2049, 10), (3073, 10), (4097, 11), (6145, 11), (8193, 12), (12289, 12),
  (16385, 13), (24577, 13)]

def readExtended (table : Array (Nat × Nat)) (symbol : Nat) : BitReader Nat :=
  match table[symbol]? with
  | none => throw .badCode
  | some (least, extra) => do return least + (← bits extra)

/-- Copies bytes from a distance behind the end, one after another, so that a copy can reach into itself. -/
def copy (out : ByteArray) (distance : Nat) : Nat → ByteArray
  | 0 => out
  | n + 1 => copy (out.push ((out[out.size - distance]?).getD 0)) distance n

/-- Reads literals and copies up to the end of a block. -/
def readSymbols (literals distances : Code) : Nat → ByteArray → BitReader ByteArray
  | 0, _ => throw .truncated
  | fuel + 1, out => do
      let symbol ← literals.read
      if symbol < 256 then readSymbols literals distances fuel (out.push (.ofNat symbol))
      else if symbol = 256 then return out
      else
        let length ← readExtended copyLengths (symbol - 257)
        let distance ← readExtended copyDistances (← distances.read)
        if out.size < distance then throw .badDistance
        readSymbols literals distances fuel (copy out distance length)

def fixedLiterals : Code := .ofLengths (List.replicate 144 8 ++ List.replicate 112 9 ++
  List.replicate 24 7 ++ List.replicate 8 8)

def fixedDistances : Code := .ofLengths (List.replicate 30 5)

/-- The order in which the lengths of the code for lengths are written. -/
def lengthOrder : List Nat := [16, 17, 18, 0, 8, 7, 9, 6, 10, 5, 11, 4, 12, 3, 13, 2, 14, 1, 15]

def readTriples : Nat → BitReader (List Nat)
  | 0 => pure []
  | n + 1 => do return (← bits 3) :: (← readTriples n)

/-- Reads a length and how often it stands there. Three symbols repeat, the first of them what came last. -/
def readRun (code : Code) (last? : Option Nat) : BitReader (Nat × Nat) := do
  match ← code.read, last? with
  | 16, some last => return (last, 3 + (← bits 2))
  | 16, none => throw .badCode
  | 17, _ => return (0, 3 + (← bits 3))
  | 18, _ => return (0, 11 + (← bits 7))
  | length, _ => return (length, 1)

/-- Reads the lengths of the words of two codes, which have `total` symbols. -/
def readLengths (code : Code) (total : Nat) : Nat → Array Nat → BitReader (Array Nat)
  | 0, _ => throw .badCode
  | fuel + 1, lengths =>
      if total ≤ lengths.size then pure lengths
      else do
        let (length, count) ← readRun code lengths.back?
        readLengths code total fuel (lengths ++ Array.replicate count length)

def readCodes : BitReader (Code × Code) := do
  let literals := (← bits 5) + 257
  let distances := (← bits 5) + 1
  let triples ← readTriples ((← bits 4) + 4)
  let lengthOf (symbol : Nat) := ((lengthOrder.zip triples).lookup symbol).getD 0
  let code := Code.ofLengths ((List.range 19).map lengthOf)
  let lengths ← readLengths code (literals + distances) (literals + distances + 1) #[]
  if literals + distances < lengths.size then throw .badCode
  let lengths := lengths.toList
  return (.ofLengths (lengths.take literals), .ofLengths (lengths.drop literals))

def readStored (out : ByteArray) : BitReader ByteArray := do
  let head ← bytes 4
  let byte (i : Nat) := ((head[i]?).getD 0).toNat
  let length := byte 0 + 256 * byte 1
  if length + (byte 2 + 256 * byte 3) ≠ 0xFFFF then throw .badBlock
  return out ++ (← bytes length)

/-- Reads blocks up to the last one. -/
def readBlocks (bound : Nat) : Nat → ByteArray → BitReader ByteArray
  | 0, _ => throw .truncated
  | fuel + 1, out => do
      let last ← bit
      let out ← match ← bits 2 with
        | 0 => readStored out
        | 1 => readSymbols fixedLiterals fixedDistances bound out
        | 2 => do
            let (literals, distances) ← readCodes
            readSymbols literals distances bound out
        | _ => throw .badBlock
      if last = 1 then return out else readBlocks bound fuel out

end Deflate

/-- The data that compressed data stand for. -/
def inflate (data : ByteArray) : Except DeflateFault ByteArray :=
  let bound := 8 * data.size + 1
  (Deflate.readBlocks bound bound .empty data 0).map (·.1)

end SheetCompiler.Archive

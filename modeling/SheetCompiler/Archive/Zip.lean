import SheetCompiler.Archive.Deflate
import SheetCompiler.Text.Utf8

/-!
# Zip archives

Reads the files of a zip archive by name. The directory stands at the end of the archive; each of its
entries says where a file is, how large, and how it is compressed.
-/

namespace SheetCompiler.Archive

inductive ZipFault where
  | noDirectory
  | badEntry
  | missing (name : String)
  | unknownMethod (method : Nat)
  | compressed (fault : DeflateFault)
  | notUtf8 (name : String)
  deriving DecidableEq, Repr

def ZipFault.message : ZipFault → String
  | .noDirectory => "invalid Zip archive: Could not find EOCD"
  | .badEntry => "invalid Zip archive: broken directory"
  | .missing name => s!"File not found '{name}'"
  | .unknownMethod method => s!"unsupported Zip archive: Compression method {method} not supported"
  | .compressed _ => "corrupt deflate stream"
  | .notUtf8 name => s!"invalid utf-8 in {name}"

structure Entry where
  name : Bytes
  method : Nat
  compressedSize : Nat
  offset : Nat
  deriving DecidableEq, Repr

structure Zip where
  data : ByteArray
  entries : List Entry

namespace Zip

/-- A number of some bytes, the lowest one first; bytes past the end count as zero. -/
def number (data : ByteArray) (start : Nat) : Nat → Nat
  | 0 => 0
  | n + 1 => ((data[start]?).getD 0).toNat + 256 * number data (start + 1) n

/-- What the end of the directory begins with. -/
def endMark : Nat := 0x06054b50

/-- What an entry of the directory begins with. -/
def entryMark : Nat := 0x02014b50

/-- What a file begins with. -/
def fileMark : Nat := 0x04034b50

/-- The last place from `start` downwards where the end of the directory begins. -/
def findEnd? (data : ByteArray) : Nat → Option Nat
  | 0 => if number data 0 4 = endMark then some 0 else none
  | start + 1 => if number data (start + 1) 4 = endMark then some (start + 1) else findEnd? data start

/-- Reads entries of the directory from a place on. -/
def readEntries (data : ByteArray) (start : Nat) : Nat → Except ZipFault (List Entry)
  | 0 => .ok []
  | n + 1 =>
      if number data start 4 ≠ entryMark then .error .badEntry
      else do
        let nameLength := number data (start + 28) 2
        let next := start + 46 + nameLength + number data (start + 30) 2 + number data (start + 32) 2
        let name := (data.extract (start + 46) (start + 46 + nameLength)).data.toList
        let entry : Entry :=
          ⟨name, number data (start + 10) 2, number data (start + 20) 4, number data (start + 42) 4⟩
        return entry :: (← readEntries data next n)

def ofBytes (data : ByteArray) : Except ZipFault Zip := do
  match findEnd? data (data.size - 22) with
  | none => .error .noDirectory
  | some mark =>
      if data.size < mark + 22 then .error .noDirectory
      return ⟨data, ← readEntries data (number data (mark + 16) 4) (number data (mark + 10) 2)⟩

def content (z : Zip) (e : Entry) : Except ZipFault ByteArray :=
  if number z.data e.offset 4 ≠ fileMark then .error .badEntry
  else
    let start := e.offset + 30 + number z.data (e.offset + 26) 2 + number z.data (e.offset + 28) 2
    let stored := z.data.extract start (start + e.compressedSize)
    match e.method with
    | 0 => .ok stored
    | 8 => (inflate stored).mapError .compressed
    | method => .error (.unknownMethod method)

def contains (z : Zip) (name : String) : Bool := z.entries.any (·.name == Text.Utf8.encode name)

def readText (z : Zip) (name : String) : Except ZipFault String := do
  match z.entries.find? (·.name == Text.Utf8.encode name) with
  | none => .error (.missing name)
  | some entry =>
      match Text.Utf8.decode (← z.content entry).data.toList with
      | .ok text => .ok text
      | .error _ => .error (.notUtf8 name)

end Zip

end SheetCompiler.Archive

/-!
# Blank characters

What counts as blank is the Unicode property `White_Space`: 25 characters, among them the no-break
and the ideographic space, and none of the zero-width ones. Everything that trims a cell, splits a
type cell into words or asks whether a cell is empty goes through this module, so the set is written
once.
-/

namespace SheetCompiler.Text

/-- The characters of the Unicode property `White_Space`. -/
def isSpace (c : Char) : Bool :=
  let n := c.toNat
  (9 ≤ n && n ≤ 13) || n == 0x20 || n == 0x85 || n == 0xA0 || n == 0x1680
    || (0x2000 ≤ n && n ≤ 0x200A) || n == 0x2028 || n == 0x2029 || n == 0x202F || n == 0x205F
    || n == 0x3000

def trimStart (s : List Char) : List Char := s.dropWhile isSpace

def trimEnd (s : List Char) : List Char := (s.reverse.dropWhile isSpace).reverse

/-- The text without the blanks around it. -/
def trimChars (s : List Char) : List Char := trimEnd (trimStart s)

def trim (s : String) : String := String.ofList (trimChars s.toList)

/-- Whether nothing but blanks is there. -/
def isBlank (s : String) : Bool := s.toList.all isSpace

/-- The pieces between the characters that satisfy `cut`, those characters left out. There is always
one more piece than there are cuts, so the empty text is one empty piece. -/
def split (cut : Char → Bool) : List Char → List (List Char)
  | [] => [[]]
  | c :: rest =>
      if cut c then [] :: split cut rest
      else match split cut rest with
        | [] => [[c]]
        | piece :: pieces => (c :: piece) :: pieces

/-- The maximal runs of characters that are not blank, left to right. -/
def words (s : String) : List String :=
  ((split isSpace s.toList).filter (! ·.isEmpty)).map String.ofList

/-- The lines of a text. A line feed ends a line, so one at the very end opens no further line. -/
def lines (s : List Char) : List (List Char) :=
  let pieces := split (· == '\n') s
  if pieces.getLast? = some [] then pieces.dropLast else pieces

end SheetCompiler.Text

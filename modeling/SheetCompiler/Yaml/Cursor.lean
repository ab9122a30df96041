import SheetCompiler.Yaml.Node

/-!
# Places in a document

Depth is told by columns, and a key and its colon have to be on one line, so whoever reads a document
has to know where in the text it stands. A cursor is such a place: what is still to be read, and the
line and column of it.
-/

namespace SheetCompiler.Yaml

/-- The characters that end a line, once those with other spellings have become line feeds. -/
def isBreak (c : Char) : Bool := c == '\n' || c.toNat == 0x2028 || c.toNat == 0x2029

def isBlank (c : Char) : Bool := c == ' ' || c == '\t'

def isGap (c : Char) : Bool := isBlank c || isBreak c

/-- The mark of the byte order, which may stand at the front of any line. -/
def isOrderMark (c : Char) : Bool := c.toNat == 0xFEFF

/-- Whether a token can end here: before a blank, a line break or the end of the text. -/
def endsToken (s : List Char) : Bool := s.head?.all isGap

/-- Writes every line break that comes to a line feed as one. -/
def normalise : List Char → List Char
  | '\r' :: '\n' :: rest => '\n' :: normalise rest
  | c :: rest => (if c == '\r' || c.toNat == 0x85 then '\n' else c) :: normalise rest
  | [] => []

/-- The characters that a document may hold. -/
def isAllowed (c : Char) : Bool :=
  let n := c.toNat
  c == '\t' || c == '\n' || c == '\r' || (0x20 ≤ n && n ≤ 0x7E) || n == 0x85
    || (0xA0 ≤ n && n ≤ 0xFFFD) || 0x10000 ≤ n

structure Cursor where
  rest : List Char
  /-- The bytes before the place. -/
  offset : Nat := 0
  line : Nat := 0
  column : Nat := 0
  deriving DecidableEq, Repr

namespace Cursor

def place (c : Cursor) : Place := ⟨c.line, c.column⟩

def fault (c : Cursor) (problem : Problem) : Fault := ⟨problem, c.place⟩

def advance (c : Cursor) : Cursor :=
  match c.rest with
  | [] => c
  | x :: rest =>
      let offset := c.offset + x.utf8Size
      if isBreak x then ⟨rest, offset, c.line + 1, 0⟩ else ⟨rest, offset, c.line, c.column + 1⟩

def advanceBy (c : Cursor) : Nat → Cursor
  | 0 => c
  | n + 1 => c.advance.advanceBy n

/-- To a later place, given by what is still to be read there. -/
def moveTo (c : Cursor) (rest : List Char) : Cursor := c.advanceBy (c.rest.length - rest.length)

/-- Past blanks, comments and line breaks, `s` being what is still to be read, and whether a key may begin
there. Outside flow collections a key may begin on any new line, and no tab must stand where one may. -/
def skipGap (flow keyAllowed comment : Bool) (c : Cursor) : List Char → Cursor × Bool
  | [] => (c, keyAllowed)
  | x :: rest =>
      if isBreak x then skipGap flow (keyAllowed || !flow) false c.advance rest
      else if comment then skipGap flow keyAllowed true c.advance rest
      else if x == ' ' || (x == '\t' && (flow || !keyAllowed)) || (isOrderMark x && c.column == 0) then
        skipGap flow keyAllowed false c.advance rest
      else if x == '#' then skipGap flow keyAllowed true c.advance rest
      else (c, keyAllowed)

/-- Whether a mark stands here that begins or ends documents: three of a kind at the front of a line. -/
def atMark (c : Cursor) (mark : Char) : Bool :=
  c.column == 0 && c.rest.take 3 == [mark, mark, mark] && endsToken (c.rest.drop 3)

/-- The most bytes that a key may have, its colon aside. -/
def maxKey : Nat := 1024

/-- Whether what begins at a cursor and ends at another one can be a key. -/
def spansKey (start stop : Cursor) : Bool :=
  start.line == stop.line && stop.offset - start.offset ≤ maxKey

end Cursor

end SheetCompiler.Yaml

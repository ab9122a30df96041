import SheetCompiler.Number.Hexadecimal
import SheetCompiler.Number.Numeral
import SheetCompiler.Text.Utf8
import SheetCompiler.Yaml.Cursor

/-!
# Names, tags and directives

What can be said about a node or a document besides its content: the names by which a node is mentioned
elsewhere, the tags that say what a node is meant to be, and the directives in front of a document.
-/

namespace SheetCompiler.Yaml.Property

/-- The characters of anchors, handles and directives. -/
def isNameChar (c : Char) : Bool :=
  Text.isDigit c || ('a' ≤ c && c ≤ 'z') || ('A' ≤ c && c ≤ 'Z') || c == '_' || c == '-'

/-- Takes the name of an anchor, which no character must follow that could belong to a word. -/
def anchor (s : List Char) : Except Problem (String × List Char) :=
  let name := s.takeWhile isNameChar
  let rest := s.dropWhile isNameChar
  let ends := endsToken rest || rest.head?.any ['?', ':', ',', ']', '\x7d', '%', '@', '\x60'].contains
  if name.isEmpty || !ends then .error .anchor else .ok (.ofList name, rest)

/-- The characters that a tag may have besides letters and digits. -/
def isTagChar (c : Char) : Bool :=
  isNameChar c || [';', '/', '?', ':', '@', '&', '=', '+', '$', '.', '%', '!', '~', '*', '\'', '(', ')'].contains c

/-- The bytes of a character that begins with a byte. -/
def width? (first : Nat) : Option Nat :=
  if first < 0x80 then some 1
  else if 0xC0 ≤ first && first < 0xE0 then some 2
  else if 0xE0 ≤ first && first < 0xF0 then some 3
  else if 0xF0 ≤ first && first < 0xF8 then some 4
  else none

/-- A byte that is spelled behind a percent sign, at the front of a text. -/
def escapedByte? : List Char → Option (UInt8 × List Char)
  | '%' :: a :: b :: rest =>
      if Hexadecimal.isDigit a && Hexadecimal.isDigit b then some (UInt8.ofNat (Hexadecimal.ofDigits [a, b]), rest)
      else none
  | _ => none

def escapedBytes? : Nat → List Char → Option (Bytes × List Char)
  | 0, s => some ([], s)
  | n + 1, s => do
      let (b, s) ← escapedByte? s
      let (bytes, s) ← escapedBytes? n s
      return (b :: bytes, s)

/-- A character whose bytes are spelled, at the front of a text. -/
def escapedChar? (s : List Char) : Option (List Char × List Char) := do
  let (first, _) ← escapedByte? s
  let (bytes, rest) ← escapedBytes? (← width? first.toNat) s
  match Text.Utf8.decode bytes with
  | .ok text => return (text.toList, rest)
  | .error _ => none

/-- Takes the characters of a tag. The bound is the number of characters. -/
def tagText (isChar : Char → Bool) : Nat → (done : List Char) → List Char → Except Problem (List Char × List Char)
  | 0, done, s => .ok (done, s)
  | _ + 1, done, [] => .ok (done, [])
  | bound + 1, done, c :: rest =>
      if c == '%' then
        match escapedChar? (c :: rest) with
        | some (chars, rest) => tagText isChar bound (done ++ chars) rest
        | none => .error .tag
      else if isChar c then tagText isChar bound (done ++ [c]) rest
      else .ok (done, c :: rest)

def someTagText (isChar : Char → Bool) (s : List Char) : Except Problem (String × List Char) := do
  let (text, rest) ← tagText isChar s.length [] s
  if text.isEmpty then .error .tag else .ok (.ofList text, rest)

/-- The characters of a tag between angle brackets, and of what a handle stands for. -/
def isLongTagChar (c : Char) : Bool := isTagChar c || c == ',' || c == '[' || c == ']'

/-- A handle and what follows it in a tag. Without a handle what follows is the whole tag. -/
structure Tag where
  handle : String
  suffix : String
  deriving DecidableEq, Repr

/-- Takes a tag behind its exclamation mark, whatever follows it. -/
def anyTag : List Char → Except Problem (Tag × List Char)
  | '<' :: s => do
      let (suffix, rest) ← someTagText isLongTagChar s
      match rest with
      | '>' :: rest => return (⟨"", suffix⟩, rest)
      | _ => .error .tag
  | s => do
      let name := s.takeWhile isNameChar
      match s.dropWhile isNameChar with
      | '!' :: rest =>
          let (suffix, rest) ← someTagText isTagChar rest
          return (⟨.ofList ('!' :: name ++ ['!']), suffix⟩, rest)
      | rest =>
          let (more, rest) ← tagText isTagChar rest.length [] rest
          return (if (name ++ more).isEmpty then ⟨"", "!"⟩ else ⟨"!", .ofList (name ++ more)⟩, rest)

/-- Takes a tag behind its exclamation mark. It is set off from what follows. -/
def tag (flow : Bool) (s : List Char) : Except Problem (Tag × List Char) := do
  let (t, rest) ← anyTag s
  if endsToken rest || (flow && rest.head? == some ',') then .ok (t, rest) else .error .tag

/-- What a directive says. -/
inductive Directive where
  | version (major minor : Nat)
  /-- A handle, and what it stands for at the front of tags. -/
  | handle (name expansion : String)
  deriving DecidableEq, Repr

/-- The most digits of a number in a version. -/
def maxVersionDigits : Nat := 9

def versionNumber (s : List Char) : Except Problem (Nat × List Char) :=
  let digits := s.takeWhile Text.isDigit
  if digits.isEmpty || maxVersionDigits < digits.length then .error .directive
  else .ok (Numeral.ofDigits digits, s.dropWhile Text.isDigit)

def version (s : List Char) : Except Problem (Directive × List Char) := do
  let (major, rest) ← versionNumber (s.dropWhile isBlank)
  match rest with
  | '.' :: rest =>
      let (minor, rest) ← versionNumber rest
      return (.version major minor, rest)
  | _ => .error .directive

/-- The handle that a directive declares: one exclamation mark, or a name between two. -/
def declaredHandle : List Char → Except Problem (String × List Char)
  | '!' :: s =>
      match s.takeWhile isNameChar, s.dropWhile isNameChar with
      | name, '!' :: rest => .ok (.ofList ('!' :: name ++ ['!']), rest)
      | [], rest => .ok ("!", rest)
      | _, _ => .error .directive
  | _ => .error .directive

def handle (s : List Char) : Except Problem (Directive × List Char) := do
  let (name, rest) ← declaredHandle (s.dropWhile isBlank)
  if !rest.head?.any isBlank then .error .directive
  let (expansion, rest) ← someTagText isLongTagChar (rest.dropWhile isBlank)
  if endsToken rest then return (.handle name expansion, rest) else .error .directive

/-- Takes a directive behind its percent sign, up to the end of its line. -/
def directive (s : List Char) : Except Problem (Directive × List Char) := do
  let name := s.takeWhile isNameChar
  let rest := s.dropWhile isNameChar
  if !endsToken rest then .error .directive
  let (d, rest) ←
    if name == "YAML".toList then version rest
    else if name == "TAG".toList then handle rest
    else .error .directive
  let rest := rest.dropWhile isBlank
  let rest := if rest.head? == some '#' then rest.dropWhile (! isBreak ·) else rest
  match rest with
  | [] => return (d, [])
  | c :: rest => if isBreak c then return (d, rest) else .error .directive

end SheetCompiler.Yaml.Property

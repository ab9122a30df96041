import SheetCompiler.Text.Blank

/-!
# Markup documents

Reads XML: elements with attributes around text and other elements. Declarations, comments and
processing instructions are passed over; an element is known by its name without what stands before a
colon.
-/

namespace SheetCompiler

inductive Markup where
  | text (content : String)
  | element (name : String) (attributes : List (String × String)) (children : List Markup)
  deriving Repr, Inhabited

inductive MarkupFault where
  | unclosedTag
  | unknownReference
  | badAttribute
  | unopened (name : String)
  | unclosed (name : String)
  | noRoot
  deriving DecidableEq, Repr

def MarkupFault.message : MarkupFault → String
  | .unclosedTag => "unclosed tag"
  | .unknownReference => "unrecognized entity"
  | .badAttribute => "malformed attribute"
  | .unopened name => s!"close tag `</{name}>` does not match any open tag"
  | .unclosed name => s!"start tag not closed: `</{name}>` not found before end of input"
  | .noRoot => "no root element"

namespace Markup

inductive Token where
  | text (content : List Char)
  | start (name : String) (attributes : List (String × String))
  | stop (name : String)

/-- A name without what stands before its last colon. -/
def localName (name : List Char) : String := .ofList (name.reverse.takeWhile (· != ':')).reverse

/-- What a reference between an ampersand and a semicolon stands for. -/
def reference? (name : List Char) : Option Char :=
  let code? (base : Nat) (digits : List Char) : Option Char :=
    let value? (c : Char) : Option Nat :=
      if c.isDigit then some (c.toNat - '0'.toNat)
      else if base = 16 && 'a' ≤ c.toLower && c.toLower ≤ 'f' then some (c.toLower.toNat - 'a'.toNat + 10)
      else none
    if digits.isEmpty then none
    else (digits.mapM value?).bind fun values =>
      let code := values.foldl (fun n d => base * n + d) 0
      if h : code.isValidChar then some (Char.ofNatAux code h) else none
  match String.ofList name, name with
  | "amp", _ => some '&'
  | "lt", _ => some '<'
  | "gt", _ => some '>'
  | "quot", _ => some '"'
  | "apos", _ => some '\''
  | _, '#' :: 'x' :: digits => code? 16 digits
  | _, '#' :: digits => code? 10 digits
  | _, _ => none

/-- Puts in the characters that references stand for. -/
def resolve (s : List Char) : Except MarkupFault (List Char) :=
  match Text.split (· == '&') s with
  | [] => .ok []
  | first :: pieces => do
      let resolved ← pieces.mapM fun piece =>
        match reference? (piece.takeWhile (· != ';')), piece.dropWhile (· != ';') with
        | some c, _ :: rest => .ok (c :: rest)
        | _, _ => .error .unknownReference
      return first ++ resolved.flatten

/-- Reads an attribute off the front of a tag: its name, its value in quotes, and what follows. -/
def readAttribute (s : List Char) : Except MarkupFault (String × String × List Char) :=
  let name := s.takeWhile fun c => c != '=' && !Text.isSpace c
  match Text.trimStart ((s.dropWhile (· != '=')).drop 1) with
  | quote :: value =>
      if quote == '"' || quote == '\'' then do
        let content ← resolve (value.takeWhile (· != quote))
        return (.ofList name, .ofList content, (value.dropWhile (· != quote)).drop 1)
      else .error .badAttribute
  | [] => .error .badAttribute

/-- Reads attributes to the end of a tag. Each takes at least one character, so the length of the tag
bounds their number. -/
def readAttributes : Nat → List Char → Except MarkupFault (List (String × String))
  | 0, _ => .ok []
  | fuel + 1, s =>
      match Text.trimStart s with
      | [] => .ok []
      | s => do
          let (name, value, rest) ← readAttribute s
          return (name, value) :: (← readAttributes fuel rest)

/-- The characters of a tag up to its bracket, which may also stand in quotes, and what follows it. -/
def splitTag (quote? : Option Char) : List Char → Option (List Char × List Char)
  | [] => none
  | c :: rest =>
      match quote? with
      | some quote =>
          (splitTag (if c == quote then none else some quote) rest).map fun (tag, s) => (c :: tag, s)
      | none =>
          if c == '>' then some ([], rest)
          else (splitTag (if c == '"' || c == '\'' then some c else none) rest).map fun (tag, s) => (c :: tag, s)

/-- What stands before a mark, and what follows the mark. -/
def splitAt (mark : List Char) : List Char → Option (List Char × List Char)
  | [] => none
  | c :: rest =>
      if mark.isPrefixOf (c :: rest) then some ([], (c :: rest).drop mark.length)
      else (splitAt mark rest).map fun (before, s) => (c :: before, s)

/-- The tokens of a tag without its brackets. One that closes itself is a start and a stop. -/
def readTag (tag : List Char) : Except MarkupFault (List Token) :=
  match tag with
  | '?' :: _ | '!' :: _ => .ok []
  | '/' :: name => .ok [.stop (localName (Text.trimEnd name))]
  | tag => do
      let closes := tag.getLast? == some '/'
      let tag := if closes then tag.dropLast else tag
      let name := localName (tag.takeWhile (! Text.isSpace ·))
      let start := Token.start name (← readAttributes tag.length (tag.dropWhile (! Text.isSpace ·)))
      return if closes then [start, .stop name] else [start]

/-- Reads tokens. Each step reads at least one character, so the length of the text bounds their number. -/
def readTokens : Nat → List Char → Except MarkupFault (List Token)
  | 0, _ => .ok []
  | _, [] => .ok []
  | fuel + 1, '<' :: rest =>
      if "!--".toList.isPrefixOf rest then
        match splitAt "-->".toList (rest.drop 3) with
        | none => .error .unclosedTag
        | some (_, rest) => readTokens fuel rest
      else if "![CDATA[".toList.isPrefixOf rest then
        match splitAt "]]>".toList (rest.drop 8) with
        | none => .error .unclosedTag
        | some (content, rest) => do return .text content :: (← readTokens fuel rest)
      else match splitTag none rest with
        | none => .error .unclosedTag
        | some (tag, rest) => do return (← readTag tag) ++ (← readTokens fuel rest)
  | fuel + 1, s => do
      let content ← resolve (s.takeWhile (· != '<'))
      return .text content :: (← readTokens fuel (s.dropWhile (· != '<')))

/-- An element that is still open, and its children so far, the last one first. -/
structure Open where
  name : String
  attributes : List (String × String)
  children : List Markup

/-- Puts tokens together to elements: `opened` are the open elements, the innermost one first, and
`done` what has been read outside of all, the last one first. -/
def assemble (opened : List Open) (done : List Markup) : List Token → Except MarkupFault (List Markup)
  | [] => match opened with
      | [] => .ok done.reverse
      | o :: _ => .error (.unclosed o.name)
  | token :: tokens =>
      match token, opened with
      | .start name attributes, _ => assemble (⟨name, attributes, []⟩ :: opened) done tokens
      | .text content, o :: outer =>
          assemble ({ o with children := .text (.ofList content) :: o.children } :: outer) done tokens
      | .text _, [] => assemble [] done tokens
      | .stop name, [] => .error (.unopened name)
      | .stop name, o :: outer =>
          if o.name ≠ name then .error (.unopened name)
          else
            let closed : Markup := .element o.name o.attributes o.children.reverse
            match outer with
            | [] => assemble [] (closed :: done) tokens
            | p :: outer => assemble ({ p with children := closed :: p.children } :: outer) done tokens

def read (text : String) : Except MarkupFault Markup := do
  let s := text.toList
  let s := if s.head?.any (·.toNat == 0xFEFF) then s.drop 1 else s
  let elements ← assemble [] [] (← readTokens (s.length + 1) s)
  match elements.head? with
  | some root => .ok root
  | none => .error .noRoot

def children : Markup → List Markup
  | .text _ => []
  | .element _ _ children => children

def attribute? (name : String) : Markup → Option String
  | .text _ => none
  | .element _ attributes _ => attributes.lookup name

def hasName (name : String) : Markup → Bool
  | .text _ => false
  | .element n _ _ => n == name

def named (name : String) (m : Markup) : List Markup := m.children.filter (hasName name)

def child? (name : String) (m : Markup) : Option Markup := m.children.find? (hasName name)

/-- The text that stands directly in an element. -/
def ownText (m : Markup) : String :=
  String.join (m.children.filterMap fun | .text content => some content | .element .. => none)

end Markup

end SheetCompiler

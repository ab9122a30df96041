import SheetCompiler.Yaml.Property
import SheetCompiler.Yaml.Scalar

/-!
# YAML tokens

A document is read as a sequence of tokens. Block collections have no tokens of their own in the text:
they begin where something stands deeper than what is around it, and end where something stands less deep.
A key is known only by the colon that follows it, so a key that has no question mark is put in front of
tokens that are there already.
-/

namespace SheetCompiler.Yaml

inductive Token where
  | directive (d : Property.Directive)
  /-- Three dashes. -/
  | documentStart
  /-- Three dots. -/
  | documentEnd
  | blockSequence
  | blockMapping
  | blockEnd
  | openBracket
  | closeBracket
  | openBrace
  | closeBrace
  | comma
  /-- A dash in front of an item. -/
  | item
  | key
  | value
  | anchor (name : String)
  | mention (name : String)
  | tag (t : Property.Tag)
  | scalar (style : ScalarStyle) (text : String)
  deriving DecidableEq, Repr

/-- A token that is a key if a colon follows it on its line. -/
structure Candidate where
  start : Cursor
  /-- How many tokens are in front of it. -/
  index : Nat
  /-- Whether it can be nothing but a key. -/
  required : Bool
  deriving DecidableEq, Repr

/-- What is known about a text up to a place in it. -/
structure Lexer where
  cursor : Cursor
  tokens : Array (Token × Place) := #[]
  /-- The least depth of what belongs to the innermost block collection; zero outside of all. -/
  depth : Nat := 0
  /-- The depths of the block collections around it, the innermost first. -/
  outerDepths : List Nat := []
  /-- Whether a key or an item may begin here. -/
  keyAllowed : Bool := true
  candidate? : Option Candidate := none
  /-- The candidates around the open flow collections, the innermost first. -/
  outerCandidates : List (Option Candidate) := []
  deriving DecidableEq, Repr

namespace Lexer

/-- Whether a flow collection is open. -/
def flow (l : Lexer) : Bool := !l.outerCandidates.isEmpty

def fault (l : Lexer) (problem : Problem) : Fault := l.cursor.fault problem

/-- Adds a token that begins here and has some characters. -/
def add (l : Lexer) (token : Token) (length : Nat) : Lexer :=
  { l with tokens := l.tokens.push (token, l.cursor.place), cursor := l.cursor.advanceBy length }

/-- Adds a token that begins here, or the problem with it; `rest` is what is behind it. -/
def addTaken {α : Type} (l : Lexer) (token : α → Token) (taken : Except Problem (α × List Char)) :
    Except Fault Lexer := do
  let (a, rest) ← taken.mapError l.fault
  return { l with tokens := l.tokens.push (token a, l.cursor.place), cursor := l.cursor.moveTo rest }

/-- Puts a token in front of a candidate. -/
def insert (l : Lexer) (c : Candidate) (token : Token) : Lexer :=
  { l with tokens := l.tokens.insertIdxIfInBounds c.index (token, c.start.place) }

/-- Ends block collections: those of the given depths from the innermost on whose depth is above a bound. -/
def endAbove (bound : Nat) (l : Lexer) : List Nat → Lexer
  | [] => l
  | outer :: depths =>
      if bound < l.depth then
        endAbove bound { l with
          tokens := l.tokens.push (.blockEnd, l.cursor.place), depth := outer, outerDepths := depths } depths
      else l

/-- Ends the block collections whose depth is above a bound, unless a flow collection is open. -/
def endBlocks (l : Lexer) (bound : Nat) : Lexer := if l.flow then l else l.endAbove bound l.outerDepths

/-- Begins a block collection at a column if it is deeper than what is around it. -/
def beginBlock (l : Lexer) (column : Nat) (put : Lexer → Lexer) : Lexer :=
  if !l.flow && l.depth ≤ column then
    { put l with depth := column + 1, outerDepths := l.depth :: l.outerDepths }
  else l

def giveUp (l : Lexer) : Except Fault Lexer :=
  if l.candidate?.any (·.required) then .error (l.fault .key) else .ok { l with candidate? := none }

/-- Makes what begins here the candidate, if a key may begin here. Behind it none may. -/
def nominate (l : Lexer) : Except Fault Lexer := do
  if !l.keyAllowed then return l
  let required := !l.flow && l.depth = l.cursor.column + 1
  return { ← l.giveUp with candidate? := some ⟨l.cursor, l.tokens.size, required⟩, keyAllowed := false }

def openFlow (l : Lexer) (token : Token) : Except Fault Lexer := do
  let l ← l.nominate
  return { l.add token 1 with
    outerCandidates := l.candidate? :: l.outerCandidates, candidate? := none, keyAllowed := true }

def closeFlow (l : Lexer) (token : Token) : Except Fault Lexer := do
  let l := (← l.giveUp).add token 1
  match l.outerCandidates with
  | [] => return { l with keyAllowed := false }
  | candidate? :: outer => return { l with candidate?, outerCandidates := outer, keyAllowed := false }

def addItem (l : Lexer) : Except Fault Lexer := do
  if !l.flow && !l.keyAllowed then .error (l.fault .entry)
  let l ← (l.beginBlock l.cursor.column (·.add .blockSequence 0)).giveUp
  return { l with keyAllowed := true }.add .item 1

def addKey (l : Lexer) : Except Fault Lexer := do
  if !l.flow && !l.keyAllowed then .error (l.fault .key)
  let l ← (l.beginBlock l.cursor.column (·.add .blockMapping 0)).giveUp
  return { l with keyAllowed := !l.flow }.add .key 1

/-- Adds the colon of a value. What stands before it on the line is its key. -/
def addValue (l : Lexer) : Except Fault Lexer := do
  match l.candidate?.filter (·.start.spansKey l.cursor) with
  | some c =>
      let l := (l.insert c .key).beginBlock c.start.column (·.insert c .blockMapping)
      return { l with candidate? := none, keyAllowed := false }.add .value 1
  | none =>
      let l ← l.giveUp
      if !l.flow && !l.keyAllowed then .error (l.fault .key)
      let l := l.beginBlock l.cursor.column (·.add .blockMapping 0)
      return { l with keyAllowed := !l.flow }.add .value 1

def leaveDocument (l : Lexer) : Except Fault Lexer := do
  return { ← (l.endBlocks 0).giveUp with keyAllowed := false }

def addQuoted (l : Lexer) (taken : Except Problem (List Char × List Char)) : Except Fault Lexer := do
  (← l.nominate).addTaken (fun text => .scalar .quoted (.ofList text)) taken

def addBlock (l : Lexer) (folded : Bool) (rest : List Char) : Except Fault Lexer := do
  let style := if folded then ScalarStyle.folded else .literal
  addTaken { ← l.giveUp with keyAllowed := true } (fun text => .scalar style (.ofList text))
    (Scalar.block folded l.depth rest)

def addPlain (l : Lexer) : Except Fault Lexer := do
  let l ← l.nominate
  let (text, rest, broken) ← (Scalar.plain l.flow l.depth [] l.cursor.rest).mapError l.fault
  return { l with
    tokens := l.tokens.push (.scalar .plain (.ofList text), l.cursor.place)
    cursor := l.cursor.moveTo rest
    keyAllowed := broken }

def addProperty {α : Type} (l : Lexer) (token : α → Token) (taken : Except Problem (α × List Char)) :
    Except Fault Lexer := do
  (← l.nominate).addTaken token taken

def skipGap (l : Lexer) : Lexer :=
  let (cursor, keyAllowed) := l.cursor.skipGap l.flow l.keyAllowed false l.cursor.rest
  { l with cursor, keyAllowed }.endBlocks (cursor.column + 1)

def addToken (l : Lexer) (c : Char) (rest : List Char) : Except Fault Lexer := do
  if l.cursor.column == 0 && c == '%' then
    (← l.leaveDocument).addTaken .directive (Property.directive rest)
  else if l.cursor.atMark '-' then return (← l.leaveDocument).add .documentStart 3
  else if l.cursor.atMark '.' then return (← l.leaveDocument).add .documentEnd 3
  else match c with
    | '[' => l.openFlow .openBracket
    | '\x7b' => l.openFlow .openBrace
    | ']' => l.closeFlow .closeBracket
    | '\x7d' => l.closeFlow .closeBrace
    | ',' => return { ← l.giveUp with keyAllowed := true }.add .comma 1
    | '*' => l.addProperty .mention (Property.anchor rest)
    | '&' => l.addProperty .anchor (Property.anchor rest)
    | '!' => l.addProperty .tag (Property.tag l.flow rest)
    | '\'' => l.addQuoted (Scalar.single [] rest)
    | '"' => l.addQuoted (Scalar.double [] rest)
    | _ =>
        if c == '-' && endsToken rest then l.addItem
        else if c == '?' && (l.flow || endsToken rest) then l.addKey
        else if c == ':' && (l.flow || endsToken rest) then l.addValue
        else if c == '|' && !l.flow then l.addBlock false rest
        else if c == '>' && !l.flow then l.addBlock true rest
        else if Scalar.beginsPlain l.flow (c :: rest) then l.addPlain
        else .error (l.fault .unexpected)

/-- Adds the tokens of a text, as many as a bound allows. -/
def run : Nat → Lexer → Except Fault Lexer
  | 0, l => .ok l
  | bound + 1, l =>
      let l := l.skipGap
      match l.cursor.rest with
      | [] => (l.endBlocks 0).giveUp
      | c :: rest => do run bound (← l.addToken c rest)

end Lexer

/-- The tokens of a text. Every token but the ends of block collections has a character, which bounds
their number. -/
def Token.ofText (text : String) : Except Fault (List (Token × Place)) := do
  let start : Cursor := { rest := normalise text.toList }
  match start.rest.findIdx? (! isAllowed ·) with
  | some i => .error ((start.advanceBy i).fault .control)
  | none => return (← Lexer.run (start.rest.length + 1) { cursor := start }).tokens.toList

end SheetCompiler.Yaml

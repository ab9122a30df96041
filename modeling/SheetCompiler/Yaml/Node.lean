/-!
# YAML nodes

What a YAML document says: scalars, sequences and mappings. A scalar keeps its spelling and the way it is
written, since only a plain one can be a boolean or nothing at all. The keys of a mapping are nodes, in
the order of the document, and may repeat. A tag says what a node is meant to be.
-/

namespace SheetCompiler.Yaml

inductive ScalarStyle where
  | plain
  | quoted
  /-- A block whose lines are kept. -/
  | literal
  /-- A block whose lines are joined. -/
  | folded
  deriving DecidableEq, Repr, Inhabited

inductive Node where
  | scalar (style : ScalarStyle) (tag? : Option String) (text : String)
  | sequence (tag? : Option String) (items : List Node)
  | mapping (tag? : Option String) (entries : List (Node × Node))
  /-- A mention of a node inside of that very node. -/
  | enclosing
  deriving Repr, Inhabited

/-- What stands where nothing is written. -/
def Node.nothing : Node := .scalar .plain none ""

/-- A place in a text, lines and columns counted from zero. -/
structure Place where
  line : Nat
  column : Nat
  deriving DecidableEq, Repr, Inhabited

inductive Problem where
  /-- A character that no text may hold. -/
  | control
  /-- A character that nothing can begin with at its place. -/
  | unexpected
  | unclosedQuote
  | unknownEscape
  /-- A mark between documents inside a scalar or a collection. -/
  | documentMark
  /-- A tab where blanks tell the depth. -/
  | tab
  /-- A key that no colon follows on its line, or a colon that no key precedes. -/
  | key
  /-- An entry of a sequence where none can begin. -/
  | entry
  /-- A token that nothing at its place can begin with. -/
  | misplaced
  /-- The front line of a block scalar that says something else than how to read the block. -/
  | blockHeader
  | anchor
  /-- A mention of an anchor that no node before it has. -/
  | unknownAnchor
  | tag
  /-- A tag with a handle that no directive declares. -/
  | unknownHandle
  | directive
  /-- More than one document, or text behind the end of the only one. -/
  | secondDocument
  deriving DecidableEq, Repr

structure Fault where
  problem : Problem
  place : Place
  deriving DecidableEq, Repr

def Problem.message : Problem → String
  | .control => "control characters are not allowed"
  | .unexpected => "found a character that cannot begin a value"
  | .unclosedQuote => "found the end of the text inside quotes"
  | .unknownEscape => "found an unknown escape"
  | .documentMark => "found a document mark inside a value"
  | .tab => "found a tab where blanks are needed"
  | .key => "found a key without a colon or a colon without a key"
  | .entry => "found a sequence entry where none can begin"
  | .misplaced => "found a token where it cannot stand"
  | .blockHeader => "found something else than a comment in front of a block"
  | .anchor => "found an anchor without a name"
  | .unknownAnchor => "found a mention of an unknown anchor"
  | .tag => "found a tag that cannot be read"
  | .unknownHandle => "found a tag with an unknown handle"
  | .directive => "found a directive that cannot be followed"
  | .secondDocument => "found more than one document"

def Fault.message (f : Fault) : String :=
  s!"{f.problem.message} at line {f.place.line + 1} column {f.place.column + 1}"

end SheetCompiler.Yaml

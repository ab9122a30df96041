import SheetCompiler.Yaml.Token

/-!
# YAML documents

A text holds at most one document. The tokens of a document come to a node: each collection goes from
the token that begins it to the one that ends it, and where a key, a value or an item is missing, an empty
scalar stands for it.

The readers that call each other carry a bound on the depth of their calls. Between two calls for a
node at least one token is taken, so a bound taken from the number of tokens is never met.
-/

namespace SheetCompiler.Yaml

/-- The state of a reader: the tokens that are left, and what is known from those that were taken. -/
structure Reader where
  tokens : List (Token × Place)
  /-- The handles of tags, and what they stand for. -/
  handles : List (String × String) := []
  /-- The anchors in the order of the text, each with its node. -/
  anchors : Array (String × Node) := #[]

abbrev ReadM := StateT Reader (Except Fault)

namespace Reader

def next? : ReadM (Option Token) := do return (← get).tokens.head?.map (·.1)

def skip : ReadM Unit := modify fun r => { r with tokens := r.tokens.tail }

/-- Whether the next token is one of some tokens. -/
def atAny (tokens : List Token) : ReadM Bool := do return (← next?).any tokens.contains

/-- Takes the next token if it is this one. -/
def take (token : Token) : ReadM Bool := do
  if (← next?) == some token then
    skip
    return true
  else return false

/-- Fails at the next token. -/
def fail {α : Type} (problem : Problem) : ReadM α := do
  throw ⟨problem, ((← get).tokens.head?.map (·.2)).getD ⟨0, 0⟩⟩

/-- Takes the next token, which has to be this one. -/
def expect (token : Token) : ReadM Unit := do
  if !(← take token) then fail .misplaced

/-- The whole tag that is meant by a tag in the text. -/
def resolve (t : Property.Tag) : ReadM String := do
  if t.handle.isEmpty then return t.suffix
  match (← get).handles.lookup t.handle with
  | some expansion => return expansion ++ t.suffix
  | none => fail .unknownHandle

/-- The anchor and the tag in front of a node, which come in either order. -/
def properties : ReadM (Option String × Option String) := do
  match ← next? with
  | some (.anchor name) =>
      skip
      match ← next? with
      | some (.tag t) =>
          let tag ← resolve t
          skip
          return (name, tag)
      | _ => return (name, none)
  | some (.tag t) =>
      let tag ← resolve t
      skip
      match ← next? with
      | some (.anchor name) =>
          skip
          return (name, tag)
      | _ => return (none, tag)
  | _ => return (none, none)

/-- Reads a node that may have an anchor. A mention inside of it finds the anchor, but no node yet. -/
def anchored (name? : Option String) (node : ReadM Node) : ReadM Node := do
  match name? with
  | none => node
  | some name =>
      let i := (← get).anchors.size
      modify fun r => { r with anchors := r.anchors.push (name, .enclosing) }
      let n ← node
      modify fun r => { r with anchors := r.anchors.setIfInBounds i (name, n) }
      return n

/-- The node that was last given an anchor. -/
def mentioned (name : String) : ReadM Node := do
  match (← get).anchors.toList.reverse.lookup name with
  | some node => return node
  | none => fail .unknownAnchor

end Reader

open Reader

/-- The tag of a scalar. A lone exclamation mark says nothing. -/
def scalarTag? (tag? : Option String) : Option String := tag?.filter (· != "!")

mutual

/-- Reads a node. Block collections can stand only in block collections; `items` says that the items of a
sequence may stand there without a beginning of their own. -/
def node : Nat → (block items : Bool) → ReadM Node
  | 0, _, _ => fail .misplaced
  | fuel + 1, block, items => do
      if let some (.mention name) ← next? then
        let n ← mentioned name
        skip
        return n
      let (name?, tag?) ← properties
      anchored name? do
        match ← next? with
        | some (.scalar style text) => do
            skip
            return .scalar style (scalarTag? tag?) text
        | some .openBracket => do
            skip
            return .sequence tag? (← flowItems fuel true)
        | some .openBrace => do
            skip
            return .mapping tag? (← flowEntries fuel true)
        | token => do
            if items && token == some .item then return .sequence tag? (← looseItems fuel)
            else if block && token == some .blockSequence then
              skip
              return .sequence tag? (← blockItems fuel)
            else if block && token == some .blockMapping then
              skip
              return .mapping tag? (← blockEntries fuel)
            else if name?.isSome || tag?.isSome then return .scalar .plain tag? ""
            else fail .misplaced

/-- Reads a node, unless one of some tokens comes next, which nothing stands in front of. -/
def nodeUnless : Nat → (block items : Bool) → List Token → ReadM Node
  | 0, _, _, _ => fail .misplaced
  | fuel + 1, block, items, tokens => do
      if ← atAny tokens then return .nothing else node fuel block items

def blockItems : Nat → ReadM (List Node)
  | 0 => fail .misplaced
  | fuel + 1 => do
      if ← take .item then
        let item ← nodeUnless fuel true false [.item, .blockEnd]
        return item :: (← blockItems fuel)
      else
        expect .blockEnd
        return []

/-- Reads items that stand as deep as the key that they belong to. -/
def looseItems : Nat → ReadM (List Node)
  | 0 => fail .misplaced
  | fuel + 1 => do
      if ← take .item then
        let item ← nodeUnless fuel true false [.item, .key, .value, .blockEnd]
        return item :: (← looseItems fuel)
      else return []

def blockEntries : Nat → ReadM (List (Node × Node))
  | 0 => fail .misplaced
  | fuel + 1 => do
      if ← take .key then
        let stops : List Token := [.key, .value, .blockEnd]
        let key ← nodeUnless fuel true true stops
        let value ← if ← take .value then nodeUnless fuel true true stops else pure .nothing
        return (key, value) :: (← blockEntries fuel)
      else
        expect .blockEnd
        return []

def flowItems : Nat → (first : Bool) → ReadM (List Node)
  | 0, _ => fail .misplaced
  | fuel + 1, first => do
      if ← take .closeBracket then return []
      if !first then expect .comma
      if ← take .closeBracket then return []
      let item ← if ← take .key then flowPair fuel else node fuel false false
      return item :: (← flowItems fuel false)

/-- Reads an item of a flow sequence that is a mapping of one entry, without its braces. Where a question
mark has no key behind it, the token that comes instead is lost. -/
def flowPair : Nat → ReadM Node
  | 0 => fail .misplaced
  | fuel + 1 => do
      let key ← if ← atAny [.value, .comma, .closeBracket] then (do skip; return .nothing) else node fuel false false
      let value ← if ← take .value then nodeUnless fuel false false [.comma, .closeBracket] else pure .nothing
      return .mapping none [(key, value)]

/-- Reads the entries of a flow mapping. A key without a colon has no value. -/
def flowEntries : Nat → (first : Bool) → ReadM (List (Node × Node))
  | 0, _ => fail .misplaced
  | fuel + 1, first => do
      if ← take .closeBrace then return []
      if !first then expect .comma
      if ← take .closeBrace then return []
      if ← take .key then
        let key ← nodeUnless fuel false false [.value, .comma, .closeBrace]
        let value ← if ← take .value then nodeUnless fuel false false [.comma, .closeBrace] else pure .nothing
        return (key, value) :: (← flowEntries fuel false)
      else
        let key ← node fuel false false
        return (key, .nothing) :: (← flowEntries fuel false)

end

/-- The handles that every document has. -/
def commonHandles : List (String × String) := [("!", "!"), ("!!", "tag:yaml.org,2002:")]

/-- Takes directives. Each handle may be declared once, and so may the version. -/
def takeDirectives (versioned : Bool) : List (Token × Place) → ReadM Unit
  | (.directive (.version major minor), _) :: rest => do
      if versioned || major != 1 || (minor != 1 && minor != 2) then fail .directive
      skip
      takeDirectives true rest
  | (.directive (.handle name expansion), _) :: rest => do
      if ((← get).handles.lookup name).isSome then fail .directive
      modify fun r => { r with handles := r.handles ++ [(name, expansion)] }
      skip
      takeDirectives versioned rest
  | _ => modify fun r => { r with handles := r.handles ++ commonHandles }

def skipEndMarks : List (Token × Place) → ReadM Unit
  | (.documentEnd, _) :: rest => do
      skip
      skipEndMarks rest
  | _ => pure ()

/-- Reads the node of a document behind its three dashes. -/
def content (fuel : Nat) : ReadM Node := do
  match ← next? with
  | none | some .documentStart | some .documentEnd | some (.directive _) => return .nothing
  | _ => node fuel true false

/-- Reads the only document; none if there are no tokens. -/
def document : ReadM (Option Node) := do
  let tokens := (← get).tokens
  let fuel := 3 * tokens.length + 3
  if tokens.isEmpty then return none
  takeDirectives false tokens
  let directed := (← get).tokens.length < tokens.length
  let root ←
    if directed || (← atAny [.documentStart]) then do
      expect .documentStart
      content fuel
    else node fuel true false
  skipEndMarks (← get).tokens
  if (← get).tokens.isEmpty then return root else fail .secondDocument

/-- Reads the document of a text; none if nothing but comments is there. -/
def read (text : String) : Except Fault (Option Node) := do
  document.run' { tokens := ← Token.ofText text }

end SheetCompiler.Yaml

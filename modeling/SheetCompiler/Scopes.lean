import SheetCompiler.Message

/-!
# Message scopes

While a sheet is walked, every message that has been entered and not yet left is a scope. A scope
numbers its fields from one and remembers the message types declared in it. Entering a struct opens
a fresh scope, leaving it returns to the enclosing one just as it was.
-/

namespace SheetCompiler

/-- One message that is being walked. -/
structure Scope where
  next : Nat := 1
  /-- The message types declared so far, no two of one name. -/
  declared : List Message := []
  deriving DecidableEq

/-- The scopes around the current position, of which the innermost is the current one. There is
always one: that of the record itself. -/
structure Scopes where
  inner : Scope := {}
  outer : List Scope := []
  deriving DecidableEq

namespace Scopes

/-- Enters a message. -/
def push (s : Scopes) : Scopes := ⟨{}, s.inner :: s.outer⟩

/-- Leaves a message. The scope of the record cannot be left. -/
def pop (s : Scopes) : Scopes :=
  match s.outer with
  | [] => s
  | scope :: outer => ⟨scope, outer⟩

def depth (s : Scopes) : Nat := s.outer.length + 1

/-- The number of the next field in the current scope. -/
def number (s : Scopes) : Nat := s.inner.next

/-- The scopes after a field has been given its number. -/
def advance (s : Scopes) : Scopes := { s with inner.next := s.inner.next + 1 }

/-- The message type of this name that the current scope declares. -/
def declared? (s : Scopes) (name : String) : Option Message := s.inner.declared.find? (·.name == name)

/-- Declares a message type in the current scope, unless one of its name is declared there. -/
def declare? (s : Scopes) (type : Message) : Option Scopes :=
  match s.declared? type.name with
  | some _ => none
  | none => some { s with inner.declared := s.inner.declared ++ [type] }

end Scopes

end SheetCompiler

/-!
# Enum tables

The numbers of the members of enums. An enum may name one number twice and one name twice: looking a
name up answers with the number of its first member, looking a number up with the name of its first
member. Enums are kept in the order of their names, members in the order of their declaration.
-/

namespace SheetCompiler

structure EnumTable where
  enums : List (String × List (String × Int32)) := []
  deriving DecidableEq, Repr, Inhabited

namespace EnumTable

/-- Changes the members of an enum among enums in the order of their names, as from none if the enum
is new. -/
def modify (name : String) (change : List (String × Int32) → List (String × Int32)) :
    List (String × List (String × Int32)) → List (String × List (String × Int32))
  | [] => [(name, change [])]
  | (n, members) :: rest =>
      if name < n then (name, change []) :: (n, members) :: rest
      else if name = n then (n, change members) :: rest
      else (n, members) :: modify name change rest

/-- Makes an enum known, without members if it is new. -/
def declare (t : EnumTable) (name : String) : EnumTable := ⟨modify name id t.enums⟩

def insert (t : EnumTable) (name member : String) (number : Int32) : EnumTable :=
  ⟨modify name (· ++ [(member, number)]) t.enums⟩

def members? (t : EnumTable) (name : String) : Option (List (String × Int32)) :=
  (t.enums.find? (·.1 == name)).map (·.2)

def contains (t : EnumTable) (name : String) : Bool := (t.members? name).isSome

def isEmpty (t : EnumTable) : Bool := t.enums.isEmpty

/-- The number of the first member with this name. -/
def number? (t : EnumTable) (name member : String) : Option Int32 :=
  ((t.members? name).bind fun members => members.find? (·.1 == member)).map (·.2)

/-- The name of the first member with this number. -/
def member? (t : EnumTable) (name : String) (number : Int32) : Option String :=
  ((t.members? name).bind fun members => members.find? (·.2 == number)).map (·.1)

end EnumTable

end SheetCompiler

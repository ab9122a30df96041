import SheetCompiler.Header

/-!
# Column layouts

A layout says which columns belong together: the columns of a sheet, left to right, as a forest in
which a struct holds its members and a repetition holds what it repeats. It is the one place that
decides how many columns a construct takes. Both passes over a sheet, the one that writes the schema
and the one that reads the data rows, walk the same layout.

Only values and structs can be repeated, which the type `Node` says by having a node for each.
-/

namespace SheetCompiler

/-- A construct of the header, in the column where it begins. -/
inductive Node where
  /-- A column that is left out. -/
  | skip (column : Nat)
  /-- One value in one column. -/
  | value (field : ValueColumn) (optional : Bool)
  /-- The values of a list, joined in one cell. -/
  | inline (field : ValueColumn)
  /-- A count, then `max` columns with a value each. -/
  | values (count max : Nat) (field : ValueColumn) (optional : Bool)
  /-- The column that opens a struct, then its members. -/
  | struct (head : StructColumn) (members : List Node)
  /-- A count, then `max` structs, only the first of which has headings of its own. -/
  | structs (count max : Nat) (head : StructColumn) (members : List Node)

namespace Node

def column : Node → Nat
  | .skip column => column
  | .value field _ | .inline field => field.column
  | .values count .. | .structs count .. => count
  | .struct head _ => head.column

mutual
/-- The number of columns that the construct takes, those of all copies included. -/
def span : Node → Nat
  | .skip _ | .value .. | .inline _ => 1
  | .values _ max .. => max + 1
  | .struct _ members => 1 + spans members
  | .structs _ max _ members => max * (1 + spans members) + 1
def spans : List Node → Nat
  | [] => 0
  | node :: nodes => span node + spans nodes
end

def enumOf (field : ValueColumn) : List (Nat × String) :=
  (field.type.enumName?.map (field.column, ·)).toList

mutual
/-- The enum types that the construct refers to, with the columns that name them. -/
def enums : Node → List (Nat × String)
  | .skip _ => []
  | .value field _ | .inline field | .values _ _ field _ => enumOf field
  | .struct _ members | .structs _ _ _ members => enumsOf members
def enumsOf : List Node → List (Nat × String)
  | [] => []
  | node :: nodes => enums node ++ enumsOf nodes
end

def usesEnums (node : Node) : Bool := !node.enums.isEmpty

/-- The repetition of a construct, its count in the column `count`. Only a value and a struct can be
repeated. -/
def repeated? (count max : Nat) : Node → Option Node
  | .value field optional => some (.values count max field optional)
  | .struct head members => some (.structs count max head members)
  | _ => none

/-- Why the members of a struct cannot be read: one of them is at fault, or the sheet ends while
`missing` of them are still to come. -/
inductive MemberFault where
  | malformed (fault : Malformed)
  | ended (missing : Nat)
  deriving DecidableEq, Repr

/-- Something that has been read off the front of `columns`, and the columns that are left. -/
structure Taken (α : Type) (columns : List Column) where
  value : α
  rest : List Column
  length_le : rest.length ≤ columns.length

mutual

/-- Reads the construct that begins in the column `first`; `right` are the columns to its right. -/
def read (first : Column) (right : List Column) : Except Malformed (Taken Node right) :=
  match first.descriptor with
  | .error e => .error e
  | .ok (.skip ..) => .ok ⟨.skip first.index, right, Nat.le_refl _⟩
  | .ok (.value field optional) => .ok ⟨.value field optional, right, Nat.le_refl _⟩
  | .ok (.inline field) => .ok ⟨.inline field, right, Nat.le_refl _⟩
  | .ok (.struct head size) =>
      if right.length < size then .error (first.malformed (.tooFewColumns head.typeName size right.length))
      else match readMembers size right with
        | .error (.malformed e) => .error e
        | .error (.ended missing) =>
            .error (first.malformed (.membersCutShort head.typeName size (size - missing)))
        | .ok members => .ok ⟨.struct head members.value, members.rest, members.length_le⟩
  | .ok (.count max _) =>
      match right with
      | [] => .error (first.malformed .countWithoutField)
      | next :: others =>
          match read next others with
          | .error e => .error e
          | .ok element =>
              match element.value.repeated? first.index max with
              | none => .error (next.malformed .notRepeatable)
              | some node =>
                  if element.rest.length < (max - 1) * element.value.span then
                    .error (first.malformed (.copiesDoNotFit max element.value.span))
                  else .ok ⟨node, element.rest.drop ((max - 1) * element.value.span), by
                    have := element.length_le
                    simp only [List.length_drop, List.length_cons]
                    omega⟩
termination_by 2 * right.length + 1

/-- Reads the `size` members of a struct. -/
def readMembers (size : Nat) (columns : List Column) :
    Except MemberFault (Taken (List Node) columns) :=
  match size, columns with
  | 0, columns => .ok ⟨[], columns, Nat.le_refl _⟩
  | size + 1, [] => .error (.ended (size + 1))
  | size + 1, first :: right =>
      match read first right with
      | .error e => .error (.malformed e)
      | .ok member =>
          match readMembers size member.rest with
          | .error e => .error e
          | .ok members => .ok ⟨member.value :: members.value, members.rest, by
              have := member.length_le
              have := members.length_le
              simp only [List.length_cons]
              omega⟩
termination_by 2 * columns.length
decreasing_by
  · simp only [List.length_cons]
    omega
  · have := member.length_le
    simp only [List.length_cons]
    omega

end

/-- Reads constructs side by side until the columns are used up. -/
def readAll : List Column → Except Malformed (List Node)
  | [] => .ok []
  | first :: right =>
      match read first right with
      | .error e => .error e
      | .ok node => do return node.value :: (← readAll node.rest)
termination_by columns => columns.length
decreasing_by
  have := node.length_le
  simp only [List.length_cons]
  omega

end Node

/-- The layout of all columns of a sheet. -/
structure Layout where
  nodes : List Node
  columnCount : Nat

namespace Layout

def ofHeader (h : Header) : Except Malformed Layout := do
  return ⟨← Node.readAll h.read, h.columnCount⟩

def span (l : Layout) : Nat := Node.spans l.nodes

def enums (l : Layout) : List (Nat × String) := Node.enumsOf l.nodes

def usesEnums (l : Layout) : Bool := !l.enums.isEmpty

end Layout

end SheetCompiler

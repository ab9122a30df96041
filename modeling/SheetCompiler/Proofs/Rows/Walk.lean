import SheetCompiler.Proofs.Outcome

/-!
# One step of a walk over a row

What the walk over a construct does, in the form in which it is reasoned about: the copies of a repeated
struct as one step that is taken again and again, and the effect of each small step on the parts of a
walk that it does not mean to change.
-/

namespace SheetCompiler.Row

namespace Walk

@[simp] theorem column_skip (w : Walk) (columns : Nat) : (w.skip columns).column = w.column + columns := rfl

@[simp] theorem column_set (w : Walk) (number : Nat) (v : Option Value) : (w.set number v).column = w.column := by
  cases v <;> rfl

/-- Gives the current field its number. -/
def number (w : Walk) : Walk := { w with scopes := w.scopes.advance }

/-- Drops the last message of a list, if it was walked only to keep its columns checked. -/
def settle (w : Walk) (count number : Nat) : Walk :=
  if count = 0 then { w with record := w.record.dropLast number } else w

end Walk

/-- Converts the current cell and adds the value to a list. -/
def readCell (row : Source) (type : ValueType) (number : Nat) (w : Walk) : Except SheetError Walk :=
  convert row w.column type none (row.cell w.column) >>= fun v => .ok ((w.append number v).skip 1)

theorem readCopies_eq (row : Source) (type : ValueType) (number count : Nat) (w : Walk) :
    readCopies row type number count w = iterateM (readCell row type number) count w := rfl

/-- Walks one copy of a struct and adds what it has read to a list. -/
def readCopy (row : Source) (nested : Message) (number : Nat) (members : List Node) (w : Walk) :
    Except SheetError Walk :=
  readAll row nested (w.enter .empty) members >>= fun inner =>
    .ok (w.leave inner fun record sub => record.append number (.message sub))

theorem read_structs (row : Source) (type : Message) (w : Walk) (countColumn max : Nat) (head : StructColumn)
    (members : List Node) :
    read row type w (.structs countColumn max head members)
      = readCount row max w >>= fun count =>
          boundMessage type (w.skip 1) head.name >>= fun nested =>
            if count = 0 ∧ head.required = true then
              .error (.missingRepeat (row.cellName countColumn) head.name)
            else
              iterateM (readCopy row nested w.scopes.number members) (Nat.max count 1) (w.skip 1).number
                >>= fun w' => .ok ((w'.settle count w.scopes.number).skip
                  ((max - Nat.max count 1) * (1 + Node.spans members))) := by
  rw [read]
  refine congrArg _ (funext fun count => congrArg _ (funext fun nested => ?_))
  by_cases hmissing : count = 0 ∧ head.required = true
  · simp only [if_pos hmissing]
    rfl
  · simp only [if_neg hmissing, Walk.settle]
    by_cases hcount : count = 0
    · simp only [if_pos hcount]
      rfl
    · simp only [if_neg hcount]
      rfl

end SheetCompiler.Row

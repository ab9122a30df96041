import SheetCompiler.Proofs.Layout.Alignment
import SheetCompiler.Proofs.Record.Entries

/-!
# Rows read by position

A row can be read without walking it. The heading of a construct names its column, and inside the copies
of a repeated struct every column lies a whole number of copies further to the right; so what a construct
contributes to its record is a function of the cells alone, with no cursor and no counters. Such a
reading is undefined where some cell cannot be converted, or where a repetition of required structs has no
instance.

`toRecord_eq_ok_iff` says that walking a row with the type that the schema pass found comes to the same
records. Of a repetition without instances the first copy has to be readable all the same, although
nothing of it is kept.
-/

namespace SheetCompiler

namespace Row

/-- The value that a text is converted to, if there is one. -/
def Source.value? (row : Source) (type : ValueType) (default? : Option String) (text : String) :
    Option (Option Value) :=
  (Conversion.convert type default? row.enums text).toOption

/-- The values that texts are converted to. Those that stand for no value are left out, and no default
takes their place. -/
def Source.values? (row : Source) (type : ValueType) (texts : List String) : Option (List Value) :=
  (texts.mapM (row.value? type none)).map (List.filterMap id)

/-- The texts that are joined in a cell, the empty ones left out. -/
def Source.tokens (row : Source) (column : Nat) : List String :=
  let text := (row.cell column).toList
  ((text.splitOn (if ';' ∈ text then ';' else '|')).filter (· ≠ [])).map String.ofList

/-- How many of `max` copies a row uses, by its count cell. -/
def Source.count? (row : Source) (column max : Nat) : Option Nat :=
  if Text.isBlank (row.cell column) then some 0 else (Whole.count? (row.cell column)).map (min · max)

/-- Whether a count cell asks for no copies: it is blank, or reads as zero. -/
def Source.AsksNone (row : Source) (column : Nat) : Prop :=
  Text.isBlank (row.cell column) = true ∨ Whole.count? (row.cell column) = some 0

instance (row : Source) (column : Nat) : Decidable (row.AsksNone column) :=
  inferInstanceAs (Decidable (_ ∨ _))

theorem Source.count?_eq_zero_iff {row : Source} {column max : Nat} (hpos : 0 < max) :
    row.count? column max = some 0 ↔ row.AsksNone column := by
  rw [Source.count?, Source.AsksNone]
  by_cases hblank : Text.isBlank (row.cell column) = true
  · simp [hblank]
  · cases Whole.count? (row.cell column) with
    | none => simp [hblank]
    | some n => simp [hblank]; omega

mutual

/-- What a construct contributes to its record, if it can be read. All its columns lie `shift` columns
to the right of where its heading stands. -/
def content? (row : Source) (shift : Nat) : Node → Option (Option Content)
  | .skip _ => some none
  | .value field _ => do
      let v ← row.value? field.type field.default? (row.cell (field.column + shift))
      return v.map .single
  | .inline field => do
      return Content.ofList (← row.values? field.type (row.tokens (field.column + shift)))
  | .values count max field _ => do
      let copies ← row.count? (count + shift) max
      let texts := (List.range copies).map fun i => row.cell (count + shift + 1 + i)
      return Content.ofList (← row.values? field.type texts)
  | .struct head members => do
      let entries ← entries? row shift 1 members
      return if !head.required && entries.isEmpty then none else some (.single (.message ⟨entries⟩))
  | .structs count max head members => do
      match ← row.count? (count + shift) max with
      | 0 =>
          if head.required then none
          else do
            let _ ← entries? row shift 1 members
            return none
      | copies + 1 => do
          let subs ← (List.range (copies + 1)).mapM fun i =>
            entries? row (shift + i * (1 + Node.spans members)) 1 members
          return Content.ofList (subs.map fun entries => .message ⟨entries⟩)

/-- The entries of constructs side by side, whose fields are numbered from `number` on. -/
def entries? (row : Source) (shift number : Nat) : List Node → Option (List (Nat × Content))
  | [] => some []
  | node :: nodes => do
      let content ← content? row shift node
      let entries ← entries? row shift (number + node.fieldCount) nodes
      return (content.map (number, ·)).toList ++ entries

end

/-- The record of a row, read by position. -/
def reference? (row : Source) (l : Layout) : Option Record := (entries? row 0 1 l.nodes).map .mk

end Row

end SheetCompiler

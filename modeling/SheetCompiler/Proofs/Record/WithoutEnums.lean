import SheetCompiler.Proofs.Record.Canonical

/-!
# Records without enum values

The text format asks the enum table for the names of enum values and for nothing else. So the text of a record that has
no such value, at whatever depth, is the same with every table.
-/

namespace SheetCompiler

mutual

/-- Whether a value is not one of an enum, and holds none. -/
def Value.LacksEnums : Value → Prop
  | .enum _ => False
  | .message r => Record.LacksEnums r
  | _ => True

def Value.LackEnumsAll : List Value → Prop
  | [] => True
  | v :: vs => Value.LacksEnums v ∧ Value.LackEnumsAll vs

def Content.LacksEnums : Content → Prop
  | .single v => Value.LacksEnums v
  | .list vs => Value.LackEnumsAll vs

def Content.LackEnumsAll : List (Nat × Content) → Prop
  | [] => True
  | (_, content) :: rest => Content.LacksEnums content ∧ Content.LackEnumsAll rest

/-- Whether no value of a record is one of an enum, at every depth. -/
def Record.LacksEnums : Record → Prop
  | ⟨entries⟩ => Content.LackEnumsAll entries

end

theorem Value.lackEnumsAll_iff {vs : List Value} : LackEnumsAll vs ↔ ∀ v ∈ vs, LacksEnums v := by
  induction vs with
  | nil => exact ⟨fun _ _ hv => absurd hv List.not_mem_nil, fun _ => trivial⟩
  | cons v vs ih => rw [LackEnumsAll, List.forall_mem_cons, ih]

theorem Value.lacksEnums_of_fits {t : ValueType} {v : Value} (ht : t.enumName? = none) (hv : v.Fits t) :
    v.LacksEnums := by
  cases v
  case message r => exact absurd hv (not_fits_message t r)
  case enum n =>
    cases t with
    | enum name => cases ht
    | scalar kind => cases kind <;> exact hv.elim
  all_goals trivial

section Lines

variable (enums enums' : EnumTable)

mutual

theorem Value.lines_of_lacksEnums {field : Field} (depth : Nat) :
    ∀ {v : Value}, v.LacksEnums → v.lines field enums' depth = v.lines field enums depth
  | .enum _, h => h.elim
  | .message r, h => by
      rw [Value.lines, Value.lines]
      cases field.kind with
      | value t => rfl
      | message nested => simp only [Record.lines_of_lacksEnums (depth + 1) h]
  | .int _, _ | .uint _, _ | .float _, _ | .bool _, _ | .string _, _ | .bytes _, _ => rfl

theorem Value.linesAll_of_lackEnumsAll {field : Field} (depth : Nat) :
    ∀ {vs : List Value}, Value.LackEnumsAll vs →
      Value.linesAll field enums' depth vs = Value.linesAll field enums depth vs
  | [], _ => rfl
  | v :: vs, ⟨hv, hvs⟩ => by
      rw [Value.linesAll, Value.linesAll, Value.lines_of_lacksEnums depth hv, Value.linesAll_of_lackEnumsAll depth hvs]

theorem Content.lines_of_lacksEnums {field : Field} (depth : Nat) :
    ∀ {content : Content}, content.LacksEnums → content.lines field enums' depth = content.lines field enums depth
  | .single _, h => Value.lines_of_lacksEnums depth h
  | .list _, h => Value.linesAll_of_lackEnumsAll depth h

theorem Content.linesAll_of_lackEnumsAll {type : Message} (depth : Nat) :
    ∀ {entries : List (Nat × Content)}, Content.LackEnumsAll entries →
      Content.linesAll type enums' depth entries = Content.linesAll type enums depth entries
  | [], _ => rfl
  | (number, content) :: entries, ⟨hcontent, hentries⟩ => by
      rw [Content.linesAll, Content.linesAll]
      simp only [Content.lines_of_lacksEnums depth hcontent, Content.linesAll_of_lackEnumsAll depth hentries]

/-- The lines of a record without enum values are the same with every enum table. -/
theorem Record.lines_of_lacksEnums {type : Message} (depth : Nat) :
    ∀ {r : Record}, r.LacksEnums → r.lines type enums' depth = r.lines type enums depth
  | ⟨_⟩, h => Content.linesAll_of_lackEnumsAll depth h

end

end Lines

end SheetCompiler

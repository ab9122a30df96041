import SheetCompiler.Proofs.Record.Canonical

/-!
# Types that lack fields, and records restricted to them

A type is older than another if it is what is left of it after fields have been deleted, from the type itself or from
the types of messages in it at any depth. What a record of the newer type holds for the fields that are left is its
restriction to the older type. While the numbers of a record ascend, it makes no difference whether something is put
into the record before it is restricted or after.
-/

namespace SheetCompiler

/-! ### Older types -/

mutual

/-- Whether a kind is another, but for fields that its messages lack. -/
inductive FieldKind.Older : FieldKind → FieldKind → Prop
  | value (t : ValueType) : FieldKind.Older (.value t) (.value t)
  | message {older newer : Message} (h : Message.Older older newer) : FieldKind.Older (.message older) (.message newer)

inductive Field.Older : Field → Field → Prop
  | mk (number : Nat) (name : String) (label : Label) {older newer : FieldKind} (h : FieldKind.Older older newer) :
      Field.Older ⟨number, name, label, older⟩ ⟨number, name, label, newer⟩

inductive Field.OlderAll : List Field → List Field → Prop
  | nil : Field.OlderAll [] []
  | delete (field : Field) {olders newers : List Field} (h : Field.OlderAll olders newers) :
      Field.OlderAll olders (field :: newers)
  | keep {older newer : Field} {olders newers : List Field} (hfield : Field.Older older newer)
      (h : Field.OlderAll olders newers) : Field.OlderAll (older :: olders) (newer :: newers)

/-- Whether a type is what is left of another when fields are deleted from it, or from types of messages in it. -/
inductive Message.Older : Message → Message → Prop
  | mk (name : String) {olders newers : List Field} (h : Field.OlderAll olders newers) :
      Message.Older ⟨name, olders⟩ ⟨name, newers⟩

end

mutual

def FieldKind.Distinct : FieldKind → Prop
  | .value _ => True
  | .message type => Message.Distinct type

def Field.Distinct : Field → Prop
  | ⟨_, _, _, kind⟩ => FieldKind.Distinct kind

def Field.DistinctAll : List Field → Prop
  | [] => True
  | field :: fields => Field.Distinct field ∧ Field.DistinctAll fields

/-- Whether the fields of a type have distinct numbers, and those of the types of messages in it. -/
def Message.Distinct : Message → Prop
  | ⟨_, fields⟩ => (fields.Pairwise fun field other => field.number ≠ other.number) ∧ Field.DistinctAll fields

end

theorem Field.distinctAll_iff {fields : List Field} : DistinctAll fields ↔ ∀ field ∈ fields, field.kind.Distinct := by
  induction fields with
  | nil => exact ⟨fun _ _ hfield => absurd hfield List.not_mem_nil, fun _ => trivial⟩
  | cons field fields ih =>
      rw [DistinctAll, List.forall_mem_cons, ih]
      cases field
      exact Iff.rfl

theorem Field.Older.number_eq {older newer : Field} (h : older.Older newer) : older.number = newer.number := by
  cases h
  rfl

theorem Field.Older.label_eq {older newer : Field} (h : older.Older newer) : older.label = newer.label := by
  cases h
  rfl

theorem Field.Older.kind_value {older newer : Field} {t : ValueType} (h : older.Older newer)
    (hkind : newer.kind = .value t) : older.kind = .value t := by
  cases h with
  | mk _ _ _ h =>
      obtain rfl : _ = FieldKind.value t := hkind
      cases h
      rfl

theorem Field.Older.kind_message {older newer : Field} {type : Message} (h : older.Older newer)
    (hkind : newer.kind = .message type) : ∃ nested, older.kind = .message nested ∧ nested.Older type := by
  cases h with
  | mk _ _ _ h =>
      obtain rfl : _ = FieldKind.message type := hkind
      cases h
      exact ⟨_, rfl, ‹_›⟩

theorem Field.Older.isRepeated_eq {older newer : Field} (h : older.Older newer) :
    older.isRepeated = newer.isRepeated := by
  rw [isRepeated, isRepeated, h.label_eq]

/-- A field that is not deleted is found where the newer one is. Behind a deleted one, no other has its number. -/
theorem Field.find?_older (number : Nat) : ∀ {olders newers : List Field}, Field.OlderAll olders newers →
    (newers.Pairwise fun field other => field.number ≠ other.number) →
      olders.find? (·.number == number) = none
        ∨ ∃ older newer, olders.find? (·.number == number) = some older
            ∧ newers.find? (·.number == number) = some newer ∧ older.Older newer
  | _, _, .nil, _ => .inl rfl
  | _, _, .delete field h, hdistinct => by
      obtain ⟨hfield, hrest⟩ := List.pairwise_cons.1 hdistinct
      rcases find?_older number h hrest with hnone | ⟨older, newer, holder, hnewer, hfields⟩
      · exact .inl hnone
      · refine .inr ⟨older, newer, holder, ?_, hfields⟩
        have hnumber : newer.number = number := by simpa using List.find?_some hnewer
        have hne : field.number ≠ number := hnumber ▸ hfield newer (List.mem_of_find?_eq_some hnewer)
        rw [List.find?_cons_of_neg (by simpa using hne), hnewer]
  | older :: _, newer :: _, .keep hfield h, hdistinct => by
      by_cases hnumber : newer.number = number
      · refine .inr ⟨older, newer, ?_, ?_, hfield⟩
        · exact List.find?_cons_of_pos (by simpa [hfield.number_eq] using hnumber)
        · exact List.find?_cons_of_pos (by simpa using hnumber)
      · rw [List.find?_cons_of_neg (by simpa [hfield.number_eq] using hnumber),
          List.find?_cons_of_neg (by simpa using hnumber)]
        exact find?_older number h (List.pairwise_cons.1 hdistinct).2

namespace Message

variable {older newer : Message} {number : Nat}

theorem Distinct.kind {field : Field} (h : newer.Distinct) (hfield : newer.field? number = some field) :
    field.kind.Distinct := by
  cases newer
  exact Field.distinctAll_iff.1 h.2 field (List.mem_of_find?_eq_some hfield)

theorem Older.field?_none (h : older.Older newer) (hdistinct : newer.Distinct) (hfield : newer.field? number = none) :
    older.field? number = none := by
  cases h with
  | mk name h =>
      rcases Field.find?_older number h hdistinct.1 with hnone | ⟨_, _, -, hnewer, -⟩
      · exact hnone
      · cases hfield.symm.trans hnewer

/-- An older type lacks a field, or has it as the newer type has it. -/
theorem Older.field?_some {field : Field} (h : older.Older newer) (hdistinct : newer.Distinct)
    (hfield : newer.field? number = some field) :
    older.field? number = none ∨ ∃ old, older.field? number = some old ∧ old.Older field := by
  cases h with
  | mk name h =>
      rcases Field.find?_older number h hdistinct.1 with hnone | ⟨old, _, hold, hnewer, hsame⟩
      · exact .inl hnone
      · cases hfield.symm.trans hnewer
        exact .inr ⟨old, hold, hsame⟩

end Message

/-! ### Restriction -/

mutual

def Value.restrict : FieldKind → Value → Value
  | .message nested, .message r => .message (Record.restrict nested r)
  | _, v => v

def Value.restrictAll (kind : FieldKind) : List Value → List Value
  | [] => []
  | v :: vs => Value.restrict kind v :: Value.restrictAll kind vs

def Content.restrict (kind : FieldKind) : Content → Content
  | .single v => .single (Value.restrict kind v)
  | .list vs => .list (Value.restrictAll kind vs)

def Content.restrictAll (type : Message) : List (Nat × Content) → List (Nat × Content)
  | [] => []
  | (number, content) :: rest =>
      match type.field? number with
      | none => Content.restrictAll type rest
      | some field => (number, Content.restrict field.kind content) :: Content.restrictAll type rest

/-- A record without the entries that are for no field of a type, and the messages in it without theirs. -/
def Record.restrict (type : Message) : Record → Record
  | ⟨entries⟩ => ⟨Content.restrictAll type entries⟩

end

theorem Value.restrict_value (t : ValueType) (v : Value) : restrict (.value t) v = v := by
  cases v <;> rfl

theorem Value.restrictAll_eq_map (kind : FieldKind) (vs : List Value) :
    restrictAll kind vs = vs.map (restrict kind) := by
  induction vs with
  | nil => rfl
  | cons v vs ih => rw [restrictAll, ih, List.map_cons]

namespace Content

variable {type : Message} {field : Field} {number : Nat} {content : Content} {entries : List (Nat × Content)}

theorem restrictAll_cons_none (hfield : type.field? number = none) :
    restrictAll type ((number, content) :: entries) = restrictAll type entries := by
  rw [restrictAll, hfield]

theorem restrictAll_cons_some (hfield : type.field? number = some field) :
    restrictAll type ((number, content) :: entries)
      = (number, content.restrict field.kind) :: restrictAll type entries := by
  rw [restrictAll, hfield]

theorem find?_restrictAll (hfield : type.field? number = some field) :
    Record.find? number (restrictAll type entries) = (Record.find? number entries).map (restrict field.kind) := by
  induction entries with
  | nil => rfl
  | cons entry entries ih =>
      obtain ⟨n, old⟩ := entry
      by_cases hn : n = number
      · subst hn
        rw [restrictAll_cons_some hfield, Record.find?, if_pos rfl, Record.find?, if_pos rfl]
        rfl
      · rw [Record.find?, if_neg hn, ← ih]
        cases hother : type.field? n with
        | none => rw [restrictAll_cons_none hother]
        | some other => rw [restrictAll_cons_some hother, Record.find?, if_neg hn]

/-- What is put in for a number that is not of a field leaves nothing in the restriction. -/
theorem restrictAll_insert_none (hfield : type.field? number = none) :
    restrictAll type (Record.insert number content entries) = restrictAll type entries := by
  induction entries with
  | nil => exact restrictAll_cons_none hfield
  | cons entry entries ih =>
      obtain ⟨n, old⟩ := entry
      rw [Record.insert]
      by_cases hbefore : number < n
      · rw [if_pos hbefore, restrictAll_cons_none hfield]
      rw [if_neg hbefore]
      by_cases hsame : number = n
      · subst hsame
        rw [if_pos rfl, restrictAll_cons_none hfield, restrictAll_cons_none hfield]
      · rw [if_neg hsame, restrictAll, restrictAll, ih]

theorem insert_restrictAll_of_lt (content : Content) :
    ∀ {least : Nat} {entries : List (Nat × Content)}, number < least → WellFormedAll least entries →
      Record.insert number content (restrictAll type entries) = (number, content) :: restrictAll type entries
  | _, [], _, _ => rfl
  | _, (n, old) :: entries, hlt, ⟨hleast, _, _, hrest⟩ => by
      cases hfield : type.field? n with
      | none =>
          rw [restrictAll_cons_none hfield]
          exact insert_restrictAll_of_lt content (by omega) hrest
      | some field => rw [restrictAll_cons_some hfield, Record.insert, if_pos (by omega)]

theorem restrictAll_insert_some (hfield : type.field? number = some field) (content : Content) :
    ∀ {least : Nat} {entries : List (Nat × Content)}, WellFormedAll least entries →
      restrictAll type (Record.insert number content entries)
        = Record.insert number (content.restrict field.kind) (restrictAll type entries)
  | _, [], _ => restrictAll_cons_some hfield
  | least, (n, old) :: entries, h => by
      obtain ⟨-, hn, hold, hrest⟩ := id h
      rw [Record.insert]
      by_cases hbefore : number < n
      · rw [if_pos hbefore, restrictAll_cons_some hfield]
        have hbehind : WellFormedAll n ((n, old) :: entries) := ⟨Nat.le_refl n, hn, hold, hrest⟩
        exact (insert_restrictAll_of_lt _ hbefore hbehind).symm
      rw [if_neg hbefore]
      by_cases hsame : number = n
      · subst hsame
        rw [if_pos rfl, restrictAll_cons_some hfield, restrictAll_cons_some hfield, Record.insert,
          if_neg (Nat.lt_irrefl number), if_pos rfl]
      · have hinsert := restrictAll_insert_some hfield content hrest
        rw [if_neg hsame]
        cases hother : type.field? n with
        | none => rw [restrictAll_cons_none hother, restrictAll_cons_none hother, hinsert]
        | some other =>
            rw [restrictAll_cons_some hother, restrictAll_cons_some hother, Record.insert, if_neg hbefore,
              if_neg hsame, hinsert]

end Content

namespace Record

variable {type : Message} {field : Field} {number : Nat} {r : Record}

theorem restrict_put_none (hfield : type.field? number = none) (content : Content) :
    (r.put number content).restrict type = r.restrict type := by
  cases r
  exact congrArg Record.mk (Content.restrictAll_insert_none hfield)

theorem restrict_put_some (hfield : type.field? number = some field) (h : r.WellFormed) (content : Content) :
    (r.put number content).restrict type = (r.restrict type).put number (content.restrict field.kind) := by
  cases r
  exact congrArg Record.mk (Content.restrictAll_insert_some hfield content h)

theorem list_restrict (hfield : type.field? number = some field) :
    (r.restrict type).list number = (r.list number).map (Value.restrict field.kind) := by
  have hget : (r.restrict type).get? number = (r.get? number).map (Content.restrict field.kind) := by
    cases r
    exact Content.find?_restrictAll hfield
  rw [list, list, hget]
  cases r.get? number with
  | none => rfl
  | some content =>
      cases content with
      | single v => rfl
      | list vs => exact Value.restrictAll_eq_map field.kind vs

end Record

end SheetCompiler

import SheetCompiler.Proofs.Record.Canonical

/-!
# What the wire format makes of a record

Of a record that is written and read again, the canonical form is left, and the doubles in fields of singles have been
narrowed and widened. For a conforming record this is the canonical form but for what is not a number. A settled
record, in which these doubles are those of singles already and no list is empty, loses its defaults and is otherwise as
it was.
-/

namespace SheetCompiler

/-- What a word carries of a value: a double in a field of singles is narrowed to its word and widened again. -/
def Value.narrow : ValueType → Value → Value
  | .scalar .float, .float d => .float d.toSingle.toDouble
  | _, v => v

mutual

def Value.reread : FieldKind → Value → Value
  | .value t, v => v.narrow t
  | .message nested, .message r => .message (Record.reread nested r)
  | .message _, v => v

def Value.rereadAll (kind : FieldKind) : List Value → List Value
  | [] => []
  | v :: vs => Value.reread kind v :: Value.rereadAll kind vs

def Content.reread (field : Field) : Content → Content
  | .single v => .single (Value.reread field.kind v)
  | .list vs => .list (Value.rereadAll field.kind vs)

def Content.rereadAll (type : Message) : List (Nat × Content) → List (Nat × Content)
  | [] => []
  | (number, content) :: rest =>
      match type.field? number with
      | none => (number, content) :: Content.rereadAll type rest
      | some field =>
          if content.leavesNoTrace field then Content.rereadAll type rest
          else (number, Content.reread field content) :: Content.rereadAll type rest

/-- What is read of a record that has been written. -/
def Record.reread (type : Message) : Record → Record
  | ⟨entries⟩ => ⟨Content.rereadAll type entries⟩

end

theorem Value.reread_value (t : ValueType) (v : Value) : reread (.value t) v = v.narrow t := by
  cases v <;> rfl

/-! ### Conforming records -/

theorem Double.quiet_toDouble_toSingle {d : Double} (h : d.isNaN = true ∨ ∃ s : Single, s.toDouble = d) :
    d.toSingle.toDouble.quiet = d.quiet := by
  rcases h with hnan | ⟨s, rfl⟩
  · rw [quiet, quiet, if_pos (isNaN_toDouble_toSingle hnan), if_pos hnan]
  · rw [toDouble_toSingle]

theorem Value.quiet_narrow {t : ValueType} {v : Value} (h : v.Fits t) : (v.narrow t).quiet = v.quiet := by
  cases t with
  | enum name => rfl
  | scalar kind =>
      cases kind
      case float =>
        cases v
        case float d => exact congrArg Value.float (Double.quiet_toDouble_toSingle h)
        all_goals rfl
      all_goals rfl

mutual

theorem Value.quiet_reread {kind : FieldKind} :
    ∀ {v : Value}, v.Conforms kind → (v.reread kind).quiet = (v.prune Content.leavesNoTrace kind).quiet
  | .message r, h => by
      cases kind with
      | value t => exact absurd (Value.conforms_value.1 h) (Value.not_fits_message t r)
      | message nested => exact congrArg Value.message (Record.quiet_reread h)
  | .int _, h | .uint _, h | .float _, h | .bool _, h | .string _, h | .bytes _, h | .enum _, h => by
      cases kind with
      | value t => rw [Value.reread_value, Value.prune_value, Value.quiet_narrow (Value.conforms_value.1 h)]
      | message nested => rfl

theorem Value.quietAll_rereadAll {kind : FieldKind} :
    ∀ {vs : List Value}, Value.ConformAll kind vs →
      Value.quietAll (Value.rereadAll kind vs) = Value.quietAll (Value.pruneAll Content.leavesNoTrace kind vs)
  | [], _ => rfl
  | v :: vs, ⟨hv, hvs⟩ => by
      rw [Value.rereadAll, Value.pruneAll, Value.quietAll, Value.quietAll, Value.quiet_reread hv,
        Value.quietAll_rereadAll hvs]

theorem Content.quiet_reread {field : Field} :
    ∀ {content : Content}, content.Conforms field →
      (content.reread field).quiet = (content.prune Content.leavesNoTrace field).quiet
  | .single _, ⟨_, hv⟩ => congrArg Content.single (Value.quiet_reread hv)
  | .list _, ⟨_, hvs⟩ => congrArg Content.list (Value.quietAll_rereadAll hvs)

theorem Content.quietAll_rereadAll {type : Message} :
    ∀ {entries : List (Nat × Content)}, Content.ConformAll type entries →
      Content.quietAll (Content.rereadAll type entries)
        = Content.quietAll (Content.pruneAll Content.leavesNoTrace type entries)
  | [], _ => rfl
  | (number, content) :: entries, ⟨⟨field, hfield, hcontent⟩, hentries⟩ => by
      have hrest := Content.quietAll_rereadAll hentries
      cases hleaves : content.leavesNoTrace field with
      | true => simp only [Content.rereadAll, Content.pruneAll, hfield, hleaves, if_true, hrest]
      | false =>
          simp only [Content.rereadAll, Content.pruneAll, hfield, hleaves, Bool.false_eq_true, if_false,
            Content.quietAll, Content.quiet_reread hcontent, hrest]

/-- What is read of a conforming record that has been written is its canonical form, but for what is not a number. -/
theorem Record.quiet_reread {type : Message} :
    ∀ {r : Record}, r.Conforms type → (r.reread type).quiet = (r.normalise type).quiet
  | ⟨_⟩, h => congrArg Record.mk (Content.quietAll_rereadAll h)

end

/-! ### Settled records -/

mutual

def Value.Settled : FieldKind → Value → Prop
  | .value (.scalar .float), .float d => ∃ s : Single, s.toDouble = d
  | .message nested, .message r => Record.Settled nested r
  | _, _ => True

def Value.SettledAll (kind : FieldKind) : List Value → Prop
  | [] => True
  | v :: vs => Value.Settled kind v ∧ Value.SettledAll kind vs

def Content.Settled (kind : FieldKind) : Content → Prop
  | .single v => Value.Settled kind v
  | .list vs => vs ≠ [] ∧ Value.SettledAll kind vs

def Content.SettledAll (type : Message) : List (Nat × Content) → Prop
  | [] => True
  | (number, content) :: rest =>
      (∀ field, type.field? number = some field → Content.Settled field.kind content)
        ∧ Content.SettledAll type rest

/-- Whether in a record, at every depth, no list is empty and every double in a field of singles is that of a single,
also where it is not a number. -/
def Record.Settled (type : Message) : Record → Prop
  | ⟨entries⟩ => Content.SettledAll type entries

end

theorem Value.settledAll_iff {kind : FieldKind} {vs : List Value} : SettledAll kind vs ↔ ∀ v ∈ vs, v.Settled kind := by
  induction vs with
  | nil => exact ⟨fun _ _ hv => absurd hv List.not_mem_nil, fun _ => trivial⟩
  | cons v vs ih => rw [SettledAll, List.forall_mem_cons, ih]

theorem Value.narrow_of_settled {t : ValueType} {v : Value} (h : v.Settled (.value t)) : v.narrow t = v := by
  cases t with
  | enum name => rfl
  | scalar kind =>
      cases kind
      case float =>
        cases v
        case float d =>
          obtain ⟨s, rfl⟩ := h
          exact congrArg Value.float (Double.toDouble_toSingle s)
        all_goals rfl
      all_goals rfl

theorem Content.leavesNoTrace_of_settled {field : Field} {kind : FieldKind} :
    ∀ {content : Content}, content.Settled kind → content.leavesNoTrace field = TextFormat.omits field content
  | .single _, _ => Bool.or_false _
  | .list vs, ⟨hne, _⟩ => by
      rw [leavesNoTrace, values, List.isEmpty_eq_false_iff.2 hne, Bool.or_false]

mutual

theorem Value.reread_of_settled {kind : FieldKind} :
    ∀ {v : Value}, v.Settled kind →
      v.reread kind = v.prune TextFormat.omits kind
        ∧ v.prune Content.leavesNoTrace kind = v.prune TextFormat.omits kind
  | .message r, h => by
      cases kind with
      | value t => exact ⟨Value.narrow_of_settled h, rfl⟩
      | message nested =>
          obtain ⟨hreread, hnormalise⟩ := Record.reread_of_settled h
          exact ⟨congrArg Value.message hreread, congrArg Value.message hnormalise⟩
  | .int _, h | .uint _, h | .float _, h | .bool _, h | .string _, h | .bytes _, h | .enum _, h => by
      cases kind with
      | value t => exact ⟨Value.narrow_of_settled h, rfl⟩
      | message nested => exact ⟨rfl, rfl⟩

theorem Value.rereadAll_of_settledAll {kind : FieldKind} :
    ∀ {vs : List Value}, Value.SettledAll kind vs →
      Value.rereadAll kind vs = Value.pruneAll TextFormat.omits kind vs
        ∧ Value.pruneAll Content.leavesNoTrace kind vs = Value.pruneAll TextFormat.omits kind vs
  | [], _ => ⟨rfl, rfl⟩
  | v :: vs, ⟨hv, hvs⟩ => by
      obtain ⟨hreread, hnormalise⟩ := Value.reread_of_settled hv
      obtain ⟨hrereads, hnormalises⟩ := Value.rereadAll_of_settledAll hvs
      simp only [Value.rereadAll, Value.pruneAll, hreread, hnormalise, hrereads, hnormalises, and_self]

theorem Content.reread_of_settled {field : Field} :
    ∀ {content : Content}, content.Settled field.kind →
      content.reread field = content.prune TextFormat.omits field
        ∧ content.prune Content.leavesNoTrace field = content.prune TextFormat.omits field
  | .single _, hv =>
      (Value.reread_of_settled hv).imp (congrArg Content.single) (congrArg Content.single)
  | .list _, ⟨_, hvs⟩ =>
      (Value.rereadAll_of_settledAll hvs).imp (congrArg Content.list) (congrArg Content.list)

theorem Content.rereadAll_of_settledAll {type : Message} :
    ∀ {entries : List (Nat × Content)}, Content.SettledAll type entries →
      Content.rereadAll type entries = Content.pruneAll TextFormat.omits type entries
        ∧ Content.pruneAll Content.leavesNoTrace type entries = Content.pruneAll TextFormat.omits type entries
  | [], _ => ⟨rfl, rfl⟩
  | (number, content) :: entries, ⟨hcontent, hentries⟩ => by
      obtain ⟨hrereads, hnormalises⟩ := Content.rereadAll_of_settledAll hentries
      cases hfield : type.field? number with
      | none => simp only [Content.rereadAll, Content.pruneAll, hfield, hrereads, hnormalises, and_self]
      | some field =>
          obtain ⟨hreread, hnormalise⟩ := Content.reread_of_settled (hcontent field hfield)
          simp only [Content.rereadAll, Content.pruneAll, hfield,
            Content.leavesNoTrace_of_settled (hcontent field hfield), hreread, hnormalise, hrereads, hnormalises,
            and_self]

/-- A settled record is read again without its defaults, and these are all that its canonical form lacks. -/
theorem Record.reread_of_settled {type : Message} :
    ∀ {r : Record}, r.Settled type →
      r.reread type = r.withoutDefaults type ∧ r.normalise type = r.withoutDefaults type
  | ⟨_⟩, h => (Content.rereadAll_of_settledAll h).imp (congrArg Record.mk) (congrArg Record.mk)

end

end SheetCompiler

import SheetCompiler.Proofs.Number.Widening
import SheetCompiler.TextFormat

/-!
# Records that suit a type, and their canonical form

A record conforms to a message type if every number in it is that of a field, a field holds a list exactly
if it is repeated, and every value is one that the kind of its field can hold. The formats do not tell a
conforming record from its canonical form, in which the defaults of implicit fields and the empty lists
are left out at every depth and everything else is as it was.

A not-a-number that is narrowed and widened again comes back quiet, and with less of its payload. Records
are therefore compared after all of these have been made the same one.
-/

namespace SheetCompiler

theorem Message.number_of_field? {type : Message} {number : Nat} {field : Field}
    (h : type.field? number = some field) : field.number = number := by
  have := List.find?_some h
  simpa using this

/-- Whether a value is one that a field of a type can hold. A single stands in a record as the double of
its value. -/
def Value.Fits : ValueType → Value → Prop
  | .enum _, .enum _ => True
  | .scalar .int32, .int v | .scalar .sint32, .int v | .scalar .sfixed32, .int v =>
      -2 ^ 31 ≤ v.toInt ∧ v.toInt < 2 ^ 31
  | .scalar .int64, .int _ | .scalar .sint64, .int _ | .scalar .sfixed64, .int _ => True
  | .scalar .uint32, .uint v | .scalar .fixed32, .uint v => v.toNat < 2 ^ 32
  | .scalar .uint64, .uint _ | .scalar .fixed64, .uint _ => True
  | .scalar .float, .float d => d.isNaN = true ∨ ∃ s : Single, s.toDouble = d
  | .scalar .double, .float _ => True
  | .scalar .bool, .bool _ | .scalar .string, .string _ | .scalar .bytes, .bytes _ => True
  | _, _ => False

mutual

/-- Whether a value is one that a field of a kind can hold, messages at every depth. -/
def Value.Conforms : FieldKind → Value → Prop
  | .value t, v => v.Fits t
  | .message nested, .message r => Record.Conforms nested r
  | .message _, _ => False

def Value.ConformAll (kind : FieldKind) : List Value → Prop
  | [] => True
  | v :: vs => Value.Conforms kind v ∧ Value.ConformAll kind vs

/-- Whether a field can hold this: a list if it is repeated, else a single value. -/
def Content.Conforms (field : Field) : Content → Prop
  | .single v => field.label ≠ .repeated ∧ Value.Conforms field.kind v
  | .list vs => field.label = .repeated ∧ Value.ConformAll field.kind vs

def Content.ConformAll (type : Message) : List (Nat × Content) → Prop
  | [] => True
  | (number, content) :: rest =>
      (∃ field, type.field? number = some field ∧ Content.Conforms field content) ∧ Content.ConformAll type rest

/-- Whether a record conforms to a type. -/
def Record.Conforms (type : Message) : Record → Prop
  | ⟨entries⟩ => Content.ConformAll type entries

end

theorem Value.conforms_value {t : ValueType} {v : Value} : Conforms (.value t) v ↔ v.Fits t := by
  cases v <;> exact Iff.rfl

theorem Value.conformAll_iff {kind : FieldKind} {vs : List Value} :
    ConformAll kind vs ↔ ∀ v ∈ vs, Conforms kind v := by
  induction vs with
  | nil => exact ⟨fun _ _ hv => absurd hv List.not_mem_nil, fun _ => trivial⟩
  | cons v vs ih => rw [ConformAll, List.forall_mem_cons, ih]

theorem Value.not_fits_message (t : ValueType) (r : Record) : ¬(Value.message r).Fits t := by
  cases t with
  | enum name => exact id
  | scalar kind => cases kind <;> exact id

/-! ### Conforming is decidable -/

/-- A double is that of a single exactly if it survives being narrowed. -/
theorem Double.exists_toDouble_iff {d : Double} :
    (d.isNaN = true ∨ ∃ s : Single, s.toDouble = d) ↔ d.isNaN = true ∨ d.toSingle.toDouble = d := by
  constructor
  · rintro (hnan | ⟨s, rfl⟩)
    · exact .inl hnan
    · exact .inr (toDouble_toSingle s)
  · rintro (hnan | hnarrow)
    · exact .inl hnan
    · exact .inr ⟨d.toSingle, hnarrow⟩

instance Value.decidableFits (t : ValueType) (v : Value) : Decidable (v.Fits t) := by
  cases t with
  | enum name => cases v <;> first | exact .isTrue trivial | exact .isFalse id
  | scalar kind =>
      cases kind <;> cases v <;>
        first
        | exact .isTrue trivial
        | exact .isFalse id
        | exact instDecidableAnd
        | exact Nat.decLt _ _
        | exact decidable_of_iff' _ Double.exists_toDouble_iff

mutual

def Value.decideConforms : (kind : FieldKind) → (v : Value) → Decidable (v.Conforms kind)
  | .value _, _ => decidable_of_iff' _ Value.conforms_value
  | .message nested, .message r => Record.decideConforms nested r
  | .message _, .int _ | .message _, .uint _ | .message _, .float _ | .message _, .bool _ | .message _, .string _
  | .message _, .bytes _ | .message _, .enum _ => .isFalse id

def Value.decideConformAll (kind : FieldKind) : (vs : List Value) → Decidable (Value.ConformAll kind vs)
  | [] => .isTrue trivial
  | v :: vs =>
      have := Value.decideConforms kind v
      have := Value.decideConformAll kind vs
      instDecidableAnd

def Content.decideConforms (field : Field) : (content : Content) → Decidable (content.Conforms field)
  | .single v =>
      have := Value.decideConforms field.kind v
      instDecidableAnd
  | .list vs =>
      have := Value.decideConformAll field.kind vs
      instDecidableAnd

def Content.decideConformAll (type : Message) :
    (entries : List (Nat × Content)) → Decidable (Content.ConformAll type entries)
  | [] => .isTrue trivial
  | (number, content) :: rest =>
      have (field : Field) := Content.decideConforms field content
      have := Content.decideConformAll type rest
      inferInstanceAs
        (Decidable ((∃ field ∈ type.field? number, content.Conforms field) ∧ Content.ConformAll type rest))

def Record.decideConforms (type : Message) : (r : Record) → Decidable (r.Conforms type)
  | ⟨entries⟩ => Content.decideConformAll type entries

end

instance (type : Message) (r : Record) : Decidable (r.Conforms type) := r.decideConforms type

/-! ### Numbers in order -/

mutual

def Value.WellFormed : Value → Prop
  | .message r => Record.WellFormed r
  | _ => True

def Value.WellFormedAll : List Value → Prop
  | [] => True
  | v :: vs => Value.WellFormed v ∧ Value.WellFormedAll vs

def Content.WellFormed : Content → Prop
  | .single v => Value.WellFormed v
  | .list vs => Value.WellFormedAll vs

/-- Whether the numbers of entries ascend from `least` on. -/
def Content.WellFormedAll (least : Nat) : List (Nat × Content) → Prop
  | [] => True
  | (number, content) :: rest =>
      least ≤ number ∧ number < 2 ^ 32 ∧ Content.WellFormed content ∧ Content.WellFormedAll (number + 1) rest

/-- Whether a record is a map from numbers of 32 bits, at every depth: its numbers ascend. -/
def Record.WellFormed : Record → Prop
  | ⟨entries⟩ => Content.WellFormedAll 0 entries

end

theorem Value.wellFormedAll_iff {vs : List Value} : WellFormedAll vs ↔ ∀ v ∈ vs, WellFormed v := by
  induction vs with
  | nil => exact ⟨fun _ _ hv => absurd hv List.not_mem_nil, fun _ => trivial⟩
  | cons v vs ih => rw [WellFormedAll, List.forall_mem_cons, ih]

theorem Value.wellFormed_of_fits {t : ValueType} {v : Value} (h : v.Fits t) : v.WellFormed := by
  cases v
  case message r => exact absurd h (not_fits_message t r)
  all_goals trivial

theorem Content.WellFormedAll.mono {least bound : Nat} (hle : least ≤ bound) :
    ∀ {entries : List (Nat × Content)}, WellFormedAll bound entries → WellFormedAll least entries
  | [], _ => trivial
  | _ :: _, ⟨hbound, hrest⟩ => ⟨Nat.le_trans hle hbound, hrest⟩

/-! ### Leaving fields out -/

section Prune

variable (omit? : Field → Content → Bool)

mutual

def Value.prune : FieldKind → Value → Value
  | .message nested, .message r => .message (Record.prune nested r)
  | _, v => v

def Value.pruneAll (kind : FieldKind) : List Value → List Value
  | [] => []
  | v :: vs => Value.prune kind v :: Value.pruneAll kind vs

def Content.prune (field : Field) : Content → Content
  | .single v => .single (Value.prune field.kind v)
  | .list vs => .list (Value.pruneAll field.kind vs)

def Content.pruneAll (type : Message) : List (Nat × Content) → List (Nat × Content)
  | [] => []
  | (number, content) :: rest =>
      match type.field? number with
      | none => (number, content) :: Content.pruneAll type rest
      | some field =>
          if omit? field content then Content.pruneAll type rest
          else (number, Content.prune field content) :: Content.pruneAll type rest

/-- A record of a type without the fields that are left out, at every depth. -/
def Record.prune (type : Message) : Record → Record
  | ⟨entries⟩ => ⟨Content.pruneAll type entries⟩

end

theorem Value.prune_value (t : ValueType) (v : Value) : prune omit? (.value t) v = v := by
  cases v <;> rfl

variable {omit?} in
/-- Nothing is left out of a value that is no message. -/
theorem Value.prune_of_fits {t : ValueType} {kind : FieldKind} {v : Value} (hv : v.Fits t) :
    v.prune omit? kind = v := by
  cases v
  case message r => exact absurd hv (not_fits_message t r)
  all_goals cases kind <;> rfl

theorem Value.pruneAll_eq_map (kind : FieldKind) (vs : List Value) :
    pruneAll omit? kind vs = vs.map (prune omit? kind) := by
  induction vs with
  | nil => rfl
  | cons v vs ih => rw [pruneAll, ih, List.map_cons]

theorem Value.pruneAll_value (t : ValueType) (vs : List Value) : pruneAll omit? (.value t) vs = vs := by
  rw [pruneAll_eq_map, funext (prune_value omit? t), List.map_id']

end Prune

/-- A record without the defaults of implicit fields, at every depth. -/
def Record.withoutDefaults : Message → Record → Record := Record.prune TextFormat.omits

/-- Whether the wire format has nothing for what a field holds. -/
def Content.leavesNoTrace (field : Field) (content : Content) : Bool :=
  TextFormat.omits field content || content.values.isEmpty

/-- The canonical form of a record: without the defaults of implicit fields and without empty lists, at
every depth. -/
def Record.normalise : Message → Record → Record := Record.prune Content.leavesNoTrace

/-! ### Canonical forms are canonical -/

/-- A field has something in the wire format exactly if its canonical form has. -/
theorem Content.leavesNoTrace_prune (field : Field) :
    ∀ content : Content, (content.prune Content.leavesNoTrace field).leavesNoTrace field = content.leavesNoTrace field
  | .single v => by
      rw [Content.prune]
      cases field.kind with
      | value t => rw [Value.prune_value]
      | message nested => cases v <;> rfl
  | .list vs => by
      rw [Content.prune, Value.pruneAll_eq_map]
      cases vs <;> rfl

mutual

theorem Value.prune_prune {kind : FieldKind} :
    ∀ {v : Value}, (v.prune Content.leavesNoTrace kind).prune Content.leavesNoTrace kind
      = v.prune Content.leavesNoTrace kind
  | .message r => by
      cases kind with
      | value t => rfl
      | message nested => exact congrArg Value.message Record.normalise_normalise
  | .int _ | .uint _ | .float _ | .bool _ | .string _ | .bytes _ | .enum _ => by cases kind <;> rfl

theorem Value.pruneAll_pruneAll {kind : FieldKind} :
    ∀ {vs : List Value}, Value.pruneAll Content.leavesNoTrace kind (Value.pruneAll Content.leavesNoTrace kind vs)
      = Value.pruneAll Content.leavesNoTrace kind vs
  | [] => rfl
  | v :: vs => by
      rw [Value.pruneAll, Value.pruneAll, Value.prune_prune, Value.pruneAll_pruneAll]

theorem Content.prune_prune {field : Field} :
    ∀ {content : Content}, (content.prune Content.leavesNoTrace field).prune Content.leavesNoTrace field
      = content.prune Content.leavesNoTrace field
  | .single _ => congrArg Content.single Value.prune_prune
  | .list _ => congrArg Content.list Value.pruneAll_pruneAll

theorem Content.pruneAll_pruneAll {type : Message} :
    ∀ {entries : List (Nat × Content)},
      Content.pruneAll Content.leavesNoTrace type (Content.pruneAll Content.leavesNoTrace type entries)
        = Content.pruneAll Content.leavesNoTrace type entries
  | [] => rfl
  | (number, content) :: entries => by
      cases hfield : type.field? number with
      | none => simp only [Content.pruneAll, hfield, Content.pruneAll_pruneAll]
      | some field =>
          cases hleaves : content.leavesNoTrace field with
          | true => simp only [Content.pruneAll, hfield, hleaves, if_true, Content.pruneAll_pruneAll]
          | false =>
              simp only [Content.pruneAll, hfield, hleaves, Content.leavesNoTrace_prune, Bool.false_eq_true, if_false,
                Content.prune_prune, Content.pruneAll_pruneAll]

theorem Record.normalise_normalise {type : Message} :
    ∀ {r : Record}, (r.normalise type).normalise type = r.normalise type
  | ⟨_⟩ => congrArg Record.mk Content.pruneAll_pruneAll

end

section Prune

variable {omit? : Field → Content → Bool}

mutual

theorem Value.WellFormed.prune {kind : FieldKind} : ∀ {v : Value}, v.WellFormed → (v.prune omit? kind).WellFormed
  | .message r, h => by
      cases kind with
      | value t => exact h
      | message nested => exact Record.WellFormed.prune h
  | .int _, _ | .uint _, _ | .float _, _ | .bool _, _ | .string _, _ | .bytes _, _ | .enum _, _ => by
      cases kind <;> trivial

theorem Value.WellFormedAll.pruneAll {kind : FieldKind} :
    ∀ {vs : List Value}, Value.WellFormedAll vs → Value.WellFormedAll (Value.pruneAll omit? kind vs)
  | [], _ => trivial
  | _ :: _, ⟨hv, hvs⟩ => ⟨Value.WellFormed.prune hv, Value.WellFormedAll.pruneAll hvs⟩

theorem Content.WellFormed.prune {field : Field} :
    ∀ {content : Content}, content.WellFormed → (content.prune omit? field).WellFormed
  | .single _, h => Value.WellFormed.prune h
  | .list _, h => Value.WellFormedAll.pruneAll h

theorem Content.WellFormedAll.pruneAll {type : Message} :
    ∀ {least : Nat} {entries : List (Nat × Content)}, Content.WellFormedAll least entries →
      Content.WellFormedAll least (Content.pruneAll omit? type entries)
  | _, [], _ => trivial
  | least, (number, content) :: entries, ⟨hleast, hnumber, hcontent, hentries⟩ => by
      have hrest : Content.WellFormedAll (number + 1) (Content.pruneAll omit? type entries) :=
        Content.WellFormedAll.pruneAll hentries
      cases hfield : type.field? number with
      | none =>
          simp only [Content.pruneAll, hfield]
          exact ⟨hleast, hnumber, hcontent, hrest⟩
      | some field =>
          cases homit : omit? field content with
          | true =>
              simp only [Content.pruneAll, hfield, homit, if_true]
              exact hrest.mono (Nat.le_succ_of_le hleast)
          | false =>
              simp only [Content.pruneAll, hfield, homit, Bool.false_eq_true, if_false]
              exact ⟨hleast, hnumber, Content.WellFormed.prune hcontent, hrest⟩

/-- Leaving fields out keeps the numbers in order. -/
theorem Record.WellFormed.prune {type : Message} : ∀ {r : Record}, r.WellFormed → (r.prune omit? type).WellFormed
  | ⟨_⟩, h => Content.WellFormedAll.pruneAll h

end

end Prune

/-! ### Identifying what is not a number -/

/-- The double, or the one quiet not-a-number. -/
def Double.quiet (d : Double) : Double :=
  if d.isNaN then .ofMagnitude false BinaryFormat.double.quietNaN else d

mutual

def Value.quiet : Value → Value
  | .float d => .float d.quiet
  | .message r => .message (Record.quiet r)
  | v => v

def Value.quietAll : List Value → List Value
  | [] => []
  | v :: vs => Value.quiet v :: Value.quietAll vs

def Content.quiet : Content → Content
  | .single v => .single (Value.quiet v)
  | .list vs => .list (Value.quietAll vs)

def Content.quietAll : List (Nat × Content) → List (Nat × Content)
  | [] => []
  | (number, content) :: rest => (number, Content.quiet content) :: Content.quietAll rest

/-- A record in which all that is not a number is the same: records that agree in it are equal bit by bit
but for the payloads of these. -/
def Record.quiet : Record → Record
  | ⟨entries⟩ => ⟨Content.quietAll entries⟩

end

/-! ### Conforming but for what is not a number -/

theorem Double.quiet_fits {d : Double} :
    (d.quiet.isNaN = true ∨ ∃ s : Single, s.toDouble = d.quiet) ↔ d.isNaN = true ∨ ∃ s : Single, s.toDouble = d := by
  rw [quiet]
  by_cases hnan : d.isNaN = true
  · rw [if_pos hnan]
    exact ⟨fun _ => .inl hnan, fun _ => .inl (by decide)⟩
  · rw [if_neg hnan]

theorem Value.fits_quiet {t : ValueType} : ∀ {v : Value}, v.quiet.Fits t ↔ v.Fits t
  | .float d => by
      cases t with
      | enum name => exact Iff.rfl
      | scalar kind =>
          cases kind
          case float => exact Double.quiet_fits
          all_goals exact Iff.rfl
  | .message r => ⟨fun h => absurd h (not_fits_message t _), fun h => absurd h (not_fits_message t r)⟩
  | .int _ | .uint _ | .bool _ | .string _ | .bytes _ | .enum _ => Iff.rfl

mutual

theorem Value.conforms_quiet {kind : FieldKind} : ∀ {v : Value}, v.quiet.Conforms kind ↔ v.Conforms kind
  | .message r => by
      cases kind with
      | value t => rw [Value.conforms_value, Value.conforms_value, Value.fits_quiet]
      | message nested => exact Record.conforms_quiet
  | .float d => by
      cases kind with
      | value t => rw [Value.conforms_value, Value.conforms_value, Value.fits_quiet]
      | message nested => exact Iff.rfl
  | .int _ | .uint _ | .bool _ | .string _ | .bytes _ | .enum _ => Iff.rfl

theorem Value.conformAll_quiet {kind : FieldKind} :
    ∀ {vs : List Value}, Value.ConformAll kind (Value.quietAll vs) ↔ Value.ConformAll kind vs
  | [] => Iff.rfl
  | _ :: _ => and_congr Value.conforms_quiet Value.conformAll_quiet

theorem Content.conforms_quiet {field : Field} :
    ∀ {content : Content}, content.quiet.Conforms field ↔ content.Conforms field
  | .single _ => and_congr Iff.rfl Value.conforms_quiet
  | .list _ => and_congr Iff.rfl Value.conformAll_quiet

theorem Content.conformAll_quiet {type : Message} :
    ∀ {entries : List (Nat × Content)}, Content.ConformAll type (Content.quietAll entries)
      ↔ Content.ConformAll type entries
  | [] => Iff.rfl
  | (_, _) :: _ =>
      and_congr (exists_congr fun _ => and_congr Iff.rfl Content.conforms_quiet) Content.conformAll_quiet

/-- Whether a record conforms does not depend on which of the doubles that are no numbers it holds. -/
theorem Record.conforms_quiet {type : Message} : ∀ {r : Record}, r.quiet.Conforms type ↔ r.Conforms type
  | ⟨_⟩ => Content.conformAll_quiet

end

end SheetCompiler

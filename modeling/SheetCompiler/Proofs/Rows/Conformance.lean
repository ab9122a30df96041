import SheetCompiler.Proofs.Record.Canonical
import SheetCompiler.Proofs.Rows.Refinement

/-!
# The records of rows conform

What a cell is converted to is a value that its column's type can hold, and a row contributes to the fields
of its layout only: single values to the fields that hold one, and lists that are not empty to those that
are repeated. So the record of a row conforms to the type of its layout, and its canonical form differs from
it by defaults alone.
-/

namespace SheetCompiler

/-! ### Cells -/

namespace Conversion

theorem fits_of_signed32 {text : String} {v : Value} (h : signed32 text = .ok v) :
    ∃ n : Int64, v = .int n ∧ -2 ^ 31 ≤ n.toInt ∧ n.toInt < 2 ^ 31 := by
  unfold signed32 at h
  split at h
  · cases h
  · next n _ =>
    split at h
    · next hrange =>
      cases h
      have hn : (Int64.ofInt n).toInt = n := Int64.toInt_ofInt_of_le (by omega) (by omega)
      exact ⟨_, rfl, by rw [hn]; exact hrange⟩
    · cases h

theorem int_of_signed64 {text : String} {v : Value} (h : signed64 text = .ok v) : ∃ n, v = .int n := by
  unfold signed64 at h
  split at h
  · cases h
  · cases h
    exact ⟨_, rfl⟩

theorem fits_of_unsigned32 {text : String} {v : Value} (h : unsigned32 text = .ok v) :
    ∃ n : UInt64, v = .uint n ∧ n.toNat < 2 ^ 32 := by
  unfold unsigned32 at h
  split at h
  · cases h
  · next n _ =>
    split at h
    · next hrange =>
      cases h
      exact ⟨_, rfl, by rw [UInt64.toNat_ofNat']; omega⟩
    · cases h

theorem uint_of_unsigned64 {text : String} {v : Value} (h : unsigned64 text = .ok v) : ∃ n, v = .uint n := by
  unfold unsigned64 at h
  split at h
  · cases h
  · cases h
    exact ⟨_, rfl⟩

theorem fits_of_scalar {kind : ScalarKind} {text : String} {v : Value} (h : scalar kind text = .ok v) :
    v.Fits (.scalar kind) := by
  cases kind
  case int32 | sint32 | sfixed32 =>
    obtain ⟨n, rfl, hrange⟩ := fits_of_signed32 h
    exact hrange
  case int64 | sint64 | sfixed64 =>
    obtain ⟨n, rfl⟩ := int_of_signed64 h
    trivial
  case uint32 | fixed32 =>
    obtain ⟨n, rfl, hrange⟩ := fits_of_unsigned32 h
    exact hrange
  case uint64 | fixed64 =>
    obtain ⟨n, rfl⟩ := uint_of_unsigned64 h
    trivial
  case string | bytes =>
    cases h
    trivial
  case double | bool =>
    unfold scalar at h
    simp only at h
    split at h
    · cases h
      trivial
    · cases h
  case float =>
    unfold scalar at h
    simp only at h
    split at h
    · next s _ =>
      cases h
      exact .inr ⟨s, rfl⟩
    · cases h

theorem fits_of_convert {type : ValueType} {default? : Option String} {enums : EnumTable} {text : String}
    {v : Value} (h : convert type default? enums text = .ok (some v)) : v.Fits type := by
  unfold convert at h
  simp only at h
  split at h
  · cases h
  · split at h
    · split at h
      · next hscalar =>
        cases h
        exact fits_of_scalar hscalar
      · cases h
    · next name =>
      simp only [Except.ok.injEq, Option.map_eq_some_iff] at h
      obtain ⟨number, _, rfl⟩ := h
      trivial

end Conversion

/-! ### Types with numbers of 32 bits -/

mutual

def FieldKind.NumbersFit : FieldKind → Prop
  | .value _ => True
  | .message type => Message.NumbersFit type

def Field.NumbersFit : Field → Prop
  | ⟨number, _, _, kind⟩ => number < 2 ^ 32 ∧ FieldKind.NumbersFit kind

def Field.NumbersFitAll : List Field → Prop
  | [] => True
  | field :: fields => Field.NumbersFit field ∧ Field.NumbersFitAll fields

/-- Whether the fields of a message type have numbers of 32 bits, at every depth. -/
def Message.NumbersFit : Message → Prop
  | ⟨_, fields⟩ => Field.NumbersFitAll fields

end

theorem Field.numbersFitAll_iff {fields : List Field} : NumbersFitAll fields ↔ ∀ f ∈ fields, f.NumbersFit := by
  induction fields with
  | nil => exact ⟨fun _ _ hf => absurd hf List.not_mem_nil, fun _ => trivial⟩
  | cons f fields ih => rw [NumbersFitAll, List.forall_mem_cons, ih]

theorem Message.NumbersFit.field {type : Message} (h : type.NumbersFit) {number : Nat} {field : Field}
    (hfield : type.field? number = some field) : number < 2 ^ 32 ∧ field.kind.NumbersFit := by
  have hnumber := Message.number_of_field? hfield
  cases type with
  | mk name fields =>
      have hfit := Field.numbersFitAll_iff.1 h field (List.mem_of_find?_eq_some hfield)
      cases field with
      | mk _ _ _ kind => exact ⟨hnumber ▸ hfit.1, hfit.2⟩

namespace Node

theorem fieldCount_le_span (node : Node) : node.fieldCount ≤ node.span := by
  have := node.span_pos
  cases node <;> simp only [fieldCount] <;> omega

mutual

theorem numbersFit_of_field? {h : Header} {first number : Nat} {field : Field} :
    ∀ {node : Node}, node.Stands h first → number + node.span ≤ 2 ^ 32 → node.field? number = some field →
      field.NumbersFit
  | .skip _, _, _, hfield => by cases hfield
  | .value .., _, hroom, hfield | .inline _, _, hroom, hfield => by
      cases hfield
      exact ⟨hroom, trivial⟩
  | .values _ max _ _, _, hroom, hfield => by
      cases hfield
      rw [span] at hroom
      exact ⟨by omega, trivial⟩
  | .struct _ members, ⟨_, _, htile⟩, hroom, hfield => by
      cases hfield
      rw [span] at hroom
      exact ⟨by omega, numbersFit_fields 1 htile (by omega)⟩
  | .structs _ max _ members, ⟨_, hpos, _, _, _, htile, _⟩, hroom, hfield => by
      cases hfield
      rw [span] at hroom
      have hcopy := Nat.le_mul_of_pos_left (1 + spans members) hpos
      exact ⟨by omega, numbersFit_fields 1 htile (by omega)⟩

/-- Constructs that take few enough columns have fields with numbers of 32 bits. -/
theorem numbersFit_fields {h : Header} :
    ∀ {first last : Nat} (number : Nat) {nodes : List Node}, Tile h first last nodes →
      number + spans nodes ≤ 2 ^ 32 → Field.NumbersFitAll (fields number nodes)
  | _, _, _, [], _, _ => trivial
  | _, _, number, node :: nodes, ⟨hnode, htile⟩, hroom => by
      rw [spans] at hroom
      have hcount := node.fieldCount_le_span
      have hrest := numbersFit_fields (number + node.fieldCount) htile (by omega)
      rw [fields, Field.numbersFitAll_iff]
      intro field hfield
      rcases List.mem_append.1 hfield with hfield | hfield
      · exact numbersFit_of_field? hnode (by omega) (Option.mem_toList.1 hfield)
      · exact Field.numbersFitAll_iff.1 hrest field hfield

end

end Node

/-- A sheet of fewer than `2 ^ 32` columns numbers its fields in 32 bits. -/
theorem Layout.numbersFit_type {h : Header} {l : Layout} (hlayout : Layout.ofHeader h = .ok l)
    (hcolumns : h.columnCount < 2 ^ 32) (record : String) : (l.type record).NumbersFit := by
  obtain ⟨hcount, htile⟩ := Layout.tile_of_ofHeader hlayout
  have hspan := htile.last_eq
  exact Node.numbersFit_fields 1 htile (by omega)

/-! ### What rows contribute -/

mutual

/-- What a row can contribute to a field: values that its type can hold, or messages of what it contributes to
them. No list is empty. -/
inductive Content.Contributed : Field → Content → Prop
  | value {field : Field} {t : ValueType} {v : Value} (hkind : field.kind = .value t)
      (hsingle : field.label ≠ .repeated) (hv : v.Fits t) : Content.Contributed field (.single v)
  | values {field : Field} {t : ValueType} {vs : List Value} (hkind : field.kind = .value t)
      (hrepeated : field.label = .repeated) (hne : vs ≠ []) (hvs : ∀ v ∈ vs, v.Fits t) :
      Content.Contributed field (.list vs)
  | message {field : Field} {nested : Message} {entries : List (Nat × Content)} (hkind : field.kind = .message nested)
      (hsingle : field.label ≠ .repeated) (h : Content.ContributedAll nested 1 entries) :
      Content.Contributed field (.single (.message ⟨entries⟩))
  | messages {field : Field} {nested : Message} {subs : List (List (Nat × Content))}
      (hkind : field.kind = .message nested) (hrepeated : field.label = .repeated) (hne : subs ≠ [])
      (hsubs : ∀ entries ∈ subs, Content.ContributedAll nested 1 entries) :
      Content.Contributed field (.list (subs.map fun entries => .message ⟨entries⟩))

/-- What a row can contribute to a message, whose numbers begin at `least`: something for fields of its, in
ascending order. -/
inductive Content.ContributedAll : Message → Nat → List (Nat × Content) → Prop
  | nil {type : Message} {least : Nat} : Content.ContributedAll type least []
  | cons {type : Message} {least number : Nat} {field : Field} {content : Content} {entries : List (Nat × Content)}
      (hle : least ≤ number) (hfield : type.field? number = some field) (hcontent : Content.Contributed field content)
      (hrest : Content.ContributedAll type (number + 1) entries) :
      Content.ContributedAll type least ((number, content) :: entries)

end

namespace Content

variable {field : Field}

theorem conforms_value {t : ValueType} (hkind : field.kind = .value t) (hsingle : field.label ≠ .repeated) {v : Value}
    (hv : v.Fits t) : Conforms field (.single v) :=
  ⟨hsingle, hkind ▸ Value.conforms_value.2 hv⟩

theorem conforms_values {t : ValueType} (hkind : field.kind = .value t) (hrepeated : field.label = .repeated)
    {vs : List Value} (hvs : ∀ v ∈ vs, v.Fits t) : Conforms field (.list vs) :=
  ⟨hrepeated, hkind ▸ Value.conformAll_iff.2 fun v hv => Value.conforms_value.2 (hvs v hv)⟩

theorem conforms_message {nested : Message} (hkind : field.kind = .message nested) (hsingle : field.label ≠ .repeated)
    {entries : List (Nat × Content)} (h : ConformAll nested entries) : Conforms field (.single (.message ⟨entries⟩)) :=
  ⟨hsingle, hkind ▸ h⟩

theorem conforms_messages {nested : Message} (hkind : field.kind = .message nested)
    (hrepeated : field.label = .repeated) {subs : List (List (Nat × Content))}
    (hsubs : ∀ entries ∈ subs, ConformAll nested entries) :
    Conforms field (.list (subs.map fun entries => .message ⟨entries⟩)) :=
  ⟨hrepeated, hkind ▸ Value.conformAll_iff.2 (List.forall_mem_map.2 hsubs)⟩

mutual

theorem Contributed.conforms {field : Field} {content : Content} : Contributed field content → content.Conforms field
  | .value hkind hsingle hv => conforms_value hkind hsingle hv
  | .values hkind hrepeated _ hvs => conforms_values hkind hrepeated hvs
  | .message hkind hsingle h => conforms_message hkind hsingle h.conforms
  | .messages hkind hrepeated _ hsubs =>
      conforms_messages hkind hrepeated fun entries hmem => (hsubs entries hmem).conforms

/-- What a row contributes to a message conforms to its type. -/
theorem ContributedAll.conforms {type : Message} {least : Nat} {entries : List (Nat × Content)} :
    ContributedAll type least entries → ConformAll type entries
  | .nil => trivial
  | .cons _ hfield hcontent hrest => ⟨⟨_, hfield, hcontent.conforms⟩, hrest.conforms⟩

end

theorem ContributedAll.mono {type : Message} {least bound : Nat} {entries : List (Nat × Content)}
    (h : ContributedAll type bound entries) (hle : least ≤ bound) : ContributedAll type least entries := by
  cases h with
  | nil => exact .nil
  | cons hbound hfield hcontent hrest => exact .cons (Nat.le_trans hle hbound) hfield hcontent hrest

end Content

/-! ### Canonical forms of what rows contribute -/

/-- What holds of whatever a row contributes to a field. No list in it is empty, so its canonical form differs from it
by defaults alone, also where it is held against another field than its own. -/
structure Content.Sound (field : Field) (content : Content) : Prop where
  conforms : content.Conforms field
  formed : content.WellFormed
  leaves (other : Field) : content.leavesNoTrace other = TextFormat.omits other content
  prune (other : Field) : content.prune Content.leavesNoTrace other = content.prune TextFormat.omits other

/-- What holds of the entries that a row contributes to a message, whose numbers begin at `least`. -/
structure Content.SoundAll (type : Message) (least : Nat) (entries : List (Nat × Content)) : Prop where
  conforms : Content.ConformAll type entries
  formed : Content.WellFormedAll least entries
  prune (other : Message) :
    Content.pruneAll Content.leavesNoTrace other entries = Content.pruneAll TextFormat.omits other entries

namespace Content

variable {field : Field}

theorem SoundAll.prune_message {nested : Message} {least : Nat} {entries : List (Nat × Content)}
    (h : SoundAll nested least entries) (kind : FieldKind) :
    Value.prune leavesNoTrace kind (.message ⟨entries⟩) = Value.prune TextFormat.omits kind (.message ⟨entries⟩) := by
  cases kind with
  | value t => rfl
  | message other => rw [Value.prune, Value.prune, Record.prune, Record.prune, h.prune]

theorem sound_value {t : ValueType} (hkind : field.kind = .value t) (hsingle : field.label ≠ .repeated) {v : Value}
    (hv : v.Fits t) : Sound field (.single v) where
  conforms := conforms_value hkind hsingle hv
  formed := Value.wellFormed_of_fits hv
  leaves _ := Bool.or_false _
  prune _ := by rw [Content.prune, Content.prune, Value.prune_of_fits hv, Value.prune_of_fits hv]

theorem sound_values {t : ValueType} (hkind : field.kind = .value t) (hrepeated : field.label = .repeated)
    {vs : List Value} (hne : vs ≠ []) (hvs : ∀ v ∈ vs, v.Fits t) : Sound field (.list vs) where
  conforms := conforms_values hkind hrepeated hvs
  formed := Value.wellFormedAll_iff.2 fun v hv => Value.wellFormed_of_fits (hvs v hv)
  leaves _ := by rw [leavesNoTrace, values, List.isEmpty_eq_false_iff.2 hne, Bool.or_false]
  prune other := by
    have hvalue (v : Value) (hv : v ∈ vs) :
        Value.prune leavesNoTrace other.kind v = Value.prune TextFormat.omits other.kind v := by
      rw [Value.prune_of_fits (hvs v hv), Value.prune_of_fits (hvs v hv)]
    rw [Content.prune, Content.prune, Value.pruneAll_eq_map, Value.pruneAll_eq_map, List.map_congr_left hvalue]

theorem sound_message {nested : Message} (hkind : field.kind = .message nested) (hsingle : field.label ≠ .repeated)
    {least : Nat} {entries : List (Nat × Content)} (h : SoundAll nested least entries) :
    Sound field (.single (.message ⟨entries⟩)) where
  conforms := conforms_message hkind hsingle h.conforms
  formed := h.formed.mono (Nat.zero_le least)
  leaves _ := Bool.or_false _
  prune other := congrArg Content.single (h.prune_message other.kind)

theorem sound_messages {nested : Message} (hkind : field.kind = .message nested) (hrepeated : field.label = .repeated)
    {least : Nat} {subs : List (List (Nat × Content))} (hne : subs ≠ [])
    (hsubs : ∀ entries ∈ subs, SoundAll nested least entries) :
    Sound field (.list (subs.map fun entries => .message ⟨entries⟩)) where
  conforms := conforms_messages hkind hrepeated fun sub hsub => (hsubs sub hsub).conforms
  formed := Value.wellFormedAll_iff.2
    (List.forall_mem_map.2 fun sub hsub => (hsubs sub hsub).formed.mono (Nat.zero_le least))
  leaves _ := by
    rw [leavesNoTrace, values, List.isEmpty_eq_false_iff.2 (by simpa using hne), Bool.or_false]
  prune other := by
    rw [Content.prune, Content.prune, Value.pruneAll_eq_map, Value.pruneAll_eq_map,
      List.map_congr_left (List.forall_mem_map.2 fun sub hsub => (hsubs sub hsub).prune_message other.kind)]

theorem sound_cons {type : Message} {number : Nat} (hfield : type.field? number = some field)
    (hnumber : number < 2 ^ 32) {content : Content} (hcontent : content.Sound field)
    {entries : List (Nat × Content)} (h : SoundAll type (number + 1) entries) :
    SoundAll type number ((number, content) :: entries) where
  conforms := ⟨⟨field, hfield, hcontent.conforms⟩, h.conforms⟩
  formed := ⟨Nat.le_refl number, hnumber, hcontent.formed, h.formed⟩
  prune other := by
    rw [pruneAll, pruneAll, h.prune]
    cases other.field? number with
    | none => rfl
    | some found => simp only [hcontent.leaves, hcontent.prune]

/-- A record of sound entries conforms, and its canonical form differs from it by defaults alone. -/
theorem SoundAll.record {type : Message} {least : Nat} :
    ∀ {r : Record}, SoundAll type least r.entries →
      r.Conforms type ∧ r.WellFormed ∧ ∀ other, r.normalise other = r.withoutDefaults other
  | ⟨_⟩, h =>
      ⟨h.conforms, h.formed.mono (Nat.zero_le least), fun other => congrArg Record.mk (h.prune other)⟩

end Content

namespace Content

mutual

theorem Contributed.sound {field : Field} {content : Content} :
    Contributed field content → field.kind.NumbersFit → content.Sound field
  | .value hkind hsingle hv, _ => sound_value hkind hsingle hv
  | .values hkind hrepeated hne hvs, _ => sound_values hkind hrepeated hne hvs
  | .message hkind hsingle h, hfit => sound_message hkind hsingle (h.sound (by rwa [hkind] at hfit))
  | .messages hkind hrepeated hne hsubs, hfit =>
      sound_messages hkind hrepeated hne fun entries hmem => (hsubs entries hmem).sound (by rwa [hkind] at hfit)

theorem ContributedAll.sound {type : Message} {least : Nat} {entries : List (Nat × Content)} :
    ContributedAll type least entries → type.NumbersFit → SoundAll type least entries
  | .nil, _ => ⟨trivial, trivial, fun _ => rfl⟩
  | .cons hle hfield hcontent hrest, hfit => by
      obtain ⟨hnumber, hkind⟩ := hfit.field hfield
      have hsound := sound_cons hfield hnumber (hcontent.sound hkind) (hrest.sound hfit)
      exact ⟨hsound.conforms, hsound.formed.mono hle, hsound.prune⟩

end

end Content

/-! ### Rows -/

namespace Row

theorem fits_of_value? {row : Source} {type : ValueType} {default? : Option String} {text : String} {v : Value}
    (h : row.value? type default? text = some (some v)) : v.Fits type :=
  Conversion.fits_of_convert (toOption_eq_some.1 h)

theorem fits_of_values? {row : Source} {type : ValueType} {texts : List String} :
    ∀ {vs : List Value}, row.values? type texts = some vs → ∀ v ∈ vs, v.Fits type := by
  induction texts with
  | nil =>
      intro vs h
      cases h
      exact fun _ hv => absurd hv List.not_mem_nil
  | cons text texts ih =>
      intro vs h
      rw [values?_cons] at h
      obtain ⟨v?, hv?, h⟩ := Option.bind_eq_some_iff.1 h
      obtain ⟨more, hmore, rfl⟩ := Option.map_eq_some_iff.1 h
      intro v hv
      rcases List.mem_append.1 hv with hv | hv
      · rw [Option.mem_toList] at hv
        cases hv
        exact fits_of_value? hv?
      · exact ih hmore v hv

/-- What a partial function makes of a list holds what it makes of its items only. -/
theorem exists_of_mem_mapM {α β : Type} {f : α → Option β} {as : List α} :
    ∀ {bs : List β}, as.mapM f = some bs → ∀ b ∈ bs, ∃ a, f a = some b := by
  induction as with
  | nil =>
      intro bs h
      cases h
      exact fun _ hb => absurd hb List.not_mem_nil
  | cons a as ih =>
      intro bs h
      rw [List.mapM_cons] at h
      obtain ⟨b', hb', h⟩ := Option.bind_eq_some_iff.1 h
      obtain ⟨bs', hbs', h⟩ := Option.bind_eq_some_iff.1 h
      cases h
      intro b hb
      rcases List.mem_cons.1 hb with rfl | hb
      · exact ⟨a, hb'⟩
      · exact ih hbs' b hb

theorem eq_of_ofList {vs : List Value} {content : Content} (h : Content.ofList vs = some content) :
    content = .list vs ∧ vs ≠ [] := by
  cases vs with
  | nil => cases h
  | cons v vs =>
      cases h
      exact ⟨rfl, List.cons_ne_nil v vs⟩

/-- A construct that contributes to its record declares a field. -/
theorem declares_of_content? {row : Source} {shift : Nat} {node : Node} {content : Content}
    (h : content? row shift node = some (some content)) (number : Nat) :
    node.fieldCount = 1 ∧ ∃ field, node.field? number = some field := by
  cases node
  case skip => cases h
  all_goals exact ⟨rfl, _, rfl⟩

open Node in
mutual

theorem contributed_content {row : Source} {number : Nat} {field : Field} {content : Content} :
    ∀ {shift : Nat} {node : Node}, content? row shift node = some (some content) →
      node.field? number = some field → content.Contributed field
  | _, .skip _, _, hfield => by cases hfield
  | shift, .value column optional, h, hfield => by
      rw [content?] at h
      obtain ⟨v?, hv, h⟩ := Option.bind_eq_some_iff.1 h
      obtain ⟨v, rfl, rfl⟩ := Option.map_eq_some_iff.1 (Option.some.inj h)
      cases hfield
      exact .value rfl (by cases optional <;> exact nofun) (fits_of_value? hv)
  | shift, .inline column, h, hfield => by
      rw [content?] at h
      obtain ⟨vs, hvs, h⟩ := Option.bind_eq_some_iff.1 h
      obtain ⟨rfl, hne⟩ := eq_of_ofList (Option.some.inj h)
      cases hfield
      exact .values rfl rfl hne (fits_of_values? hvs)
  | shift, .values _ max column _, h, hfield => by
      rw [content?] at h
      obtain ⟨copies, _, h⟩ := Option.bind_eq_some_iff.1 h
      obtain ⟨vs, hvs, h⟩ := Option.bind_eq_some_iff.1 h
      obtain ⟨rfl, hne⟩ := eq_of_ofList (Option.some.inj h)
      cases hfield
      exact .values rfl rfl hne (fits_of_values? hvs)
  | shift, .struct head members, h, hfield => by
      rw [content?] at h
      obtain ⟨entries, hentries, h⟩ := Option.bind_eq_some_iff.1 h
      cases hfield
      have hmembers := contributed_entries hentries (Message.Provides.of_fields head.typeName members)
      split at h
      · cases h
      · cases h
        exact .message rfl (by exact nofun) hmembers
  | shift, .structs _ max head members, h, hfield => by
      rw [content?] at h
      obtain ⟨copies, _, h⟩ := Option.bind_eq_some_iff.1 h
      cases hfield
      cases copies with
      | zero =>
          -- Nothing is kept of a repetition without instances.
          simp only at h
          split at h
          · cases h
          · obtain ⟨_, _, h⟩ := Option.bind_eq_some_iff.1 h
            cases h
      | succ copies =>
          obtain ⟨subs, hsubs, h⟩ := Option.bind_eq_some_iff.1 h
          obtain ⟨rfl, hne⟩ := eq_of_ofList (Option.some.inj h)
          have hcopy (entries : List (Nat × Content)) (hentries : entries ∈ subs) :
              Content.ContributedAll ⟨head.typeName, fields 1 members⟩ 1 entries := by
            obtain ⟨i, hread⟩ := exists_of_mem_mapM hsubs entries hentries
            exact contributed_entries hread (Message.Provides.of_fields head.typeName members)
          exact .messages rfl rfl (by simpa using hne) hcopy

/-- What a row contributes to a message by position. -/
theorem contributed_entries {row : Source} {type : Message} {shift : Nat} :
    ∀ {number : Nat} {nodes : List Node} {entries : List (Nat × Content)},
      entries? row shift number nodes = some entries → type.Provides number nodes →
      Content.ContributedAll type number entries
  | _, [], _, h, _ => by
      cases h
      exact .nil
  | number, node :: nodes, _, h, hprovides => by
      rw [entries?] at h
      obtain ⟨content, hcontent, h⟩ := Option.bind_eq_some_iff.1 h
      obtain ⟨entries, hentries, h⟩ := Option.bind_eq_some_iff.1 h
      cases h
      have hrest := contributed_entries hentries hprovides.tail
      cases content with
      | none => exact hrest.mono (Nat.le_add_right _ _)
      | some content =>
          obtain ⟨hcount, field, hfield⟩ := declares_of_content? hcontent number
          rw [hcount] at hrest
          exact .cons (Nat.le_refl number) (hprovides.field?_eq hfield) (contributed_content hcontent hfield) hrest

end

/-- The record of a row holds what the row contributes to its type. -/
theorem contributed_of_toRecord {h : Header} {l : Layout} (hlayout : Layout.ofHeader h = .ok l) {record : String}
    {row : Source} {r : Record} (hr : toRecord row l (l.type record) = .ok r) :
    Content.ContributedAll (l.type record) 1 r.entries := by
  have hreference : reference? row l = some r := by
    rw [← toOption_toRecord hlayout row record, hr]
    rfl
  obtain ⟨entries, hentries, rfl⟩ := Option.map_eq_some_iff.1 hreference
  exact contributed_entries hentries (Message.Provides.of_fields record l.nodes)

end Row

end SheetCompiler

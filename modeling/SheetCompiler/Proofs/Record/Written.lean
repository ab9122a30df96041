import SheetCompiler.Proofs.Outcome
import SheetCompiler.Proofs.Wire.Words

/-!
# Conforming records can be written

Both formats refuse a record only where it does not suit its type: where a number is not that of a field, or a value
is not one that its field can hold. So a record that conforms to its type is written by both, whatever its numbers
and however long it gets. Lists are written value by value.
-/

namespace SheetCompiler

/-! ### The wire format -/

namespace Message

variable {t : ValueType}

theorem word_succeeds (type : Message) (field : Field) {v : Value} (hv : v.Fits t) :
    Succeeds (type.word field t v) := by
  obtain ⟨word, hword, _⟩ := Value.word?_spec hv
  exact ⟨word, by rw [Message.word, hword]⟩

theorem words_succeed (type : Message) (field : Field) {vs : List Value} (hvs : ∀ v ∈ vs, v.Fits t) :
    Succeeds (type.words field t vs) := by
  induction vs with
  | nil => exact ⟨[], rfl⟩
  | cons v vs ih =>
      obtain ⟨hv, hvs⟩ := List.forall_mem_cons.1 hvs
      exact (type.word_succeeds field hv).bind fun _ => (ih hvs).bind fun _ => ⟨_, rfl⟩

theorem entries_succeed (type : Message) (field : Field) {vs : List Value} (hvs : ∀ v ∈ vs, v.Fits t) :
    Succeeds (type.entries field t vs) := by
  induction vs with
  | nil => exact ⟨[], rfl⟩
  | cons v vs ih =>
      obtain ⟨hv, hvs⟩ := List.forall_mem_cons.1 hvs
      exact (type.word_succeeds field hv).bind fun _ => (ih hvs).bind fun _ => ⟨_, rfl⟩

theorem encodeSingle_succeeds (type : Message) (field : Field) {v : Value} (hv : v.Fits t) :
    Succeeds (type.encodeSingle field t v) := by
  rw [encodeSingle]
  split
  · exact ⟨[], rfl⟩
  · exact (type.word_succeeds field hv).bind fun _ => ⟨_, rfl⟩

theorem encodeList_succeeds (type : Message) (field : Field) {vs : List Value} (hvs : ∀ v ∈ vs, v.Fits t) :
    Succeeds (type.encodeList field t vs) := by
  rw [encodeList]
  split
  · exact ⟨[], rfl⟩
  · split
    · exact type.entries_succeed field hvs
    · exact (type.words_succeed field hvs).bind fun _ => ⟨_, rfl⟩

end Message

mutual

theorem Value.encodeMessage_succeeds (type : Message) (field : Field) {nested : Message} :
    ∀ {v : Value}, v.Conforms (.message nested) → Succeeds (v.encodeMessage type field nested)
  | .message _, h => (Record.encode_succeeds h).bind fun _ => ⟨_, rfl⟩

theorem Value.encodeMessages_succeed (type : Message) (field : Field) {nested : Message} :
    ∀ {vs : List Value}, Value.ConformAll (.message nested) vs → Succeeds (Value.encodeMessages type field nested vs)
  | [], _ => ⟨[], rfl⟩
  | _ :: _, ⟨hv, hvs⟩ =>
      (Value.encodeMessage_succeeds type field hv).bind fun _ =>
        (Value.encodeMessages_succeed type field hvs).bind fun _ => ⟨_, rfl⟩

theorem Content.encode_succeeds (type : Message) {field : Field} :
    ∀ {content : Content}, content.Conforms field → Succeeds (content.encode type field)
  | .single v, ⟨_, hv⟩ => by
      rw [Content.encode]
      cases hkind : field.kind with
      | value t =>
          rw [hkind] at hv
          exact type.encodeSingle_succeeds field (Value.conforms_value.1 hv)
      | message nested =>
          rw [hkind] at hv
          exact Value.encodeMessage_succeeds type field hv
  | .list vs, ⟨_, hvs⟩ => by
      rw [Content.encode]
      cases hkind : field.kind with
      | value t =>
          rw [hkind, Value.conformAll_iff] at hvs
          exact type.encodeList_succeeds field fun v hv => Value.conforms_value.1 (hvs v hv)
      | message nested =>
          rw [hkind] at hvs
          exact Value.encodeMessages_succeed type field hvs

theorem Content.encodeAll_succeeds {type : Message} :
    ∀ {entries : List (Nat × Content)}, Content.ConformAll type entries → Succeeds (Content.encodeAll type entries)
  | [], _ => ⟨[], rfl⟩
  | (_, _) :: _, ⟨⟨_, hfield, hcontent⟩, hentries⟩ => by
      simp only [Content.encodeAll, hfield]
      exact (Content.encode_succeeds type hcontent).bind fun _ =>
        (Content.encodeAll_succeeds hentries).bind fun _ => ⟨_, rfl⟩

theorem Record.encode_succeeds {type : Message} : ∀ {r : Record}, r.Conforms type → Succeeds (r.encode type)
  | ⟨_⟩, h => Content.encodeAll_succeeds h

end

theorem Message.words_append {type : Message} {field : Field} {t : ValueType} {vs ws : List Value}
    {bytes more : Bytes} (h : type.words field t vs = .ok bytes) (hmore : type.words field t ws = .ok more) :
    type.words field t (vs ++ ws) = .ok (bytes ++ more) := by
  refine writeAll_append (fun v => (type.word field t v).map t.wireType.write) rfl (fun v vs => ?_) h hmore
  rw [words]
  cases type.word field t v <;> rfl

theorem Message.entries_append {type : Message} {field : Field} {t : ValueType} {vs ws : List Value}
    {bytes more : Bytes} (h : type.entries field t vs = .ok bytes) (hmore : type.entries field t ws = .ok more) :
    type.entries field t (vs ++ ws) = .ok (bytes ++ more) := by
  refine writeAll_append (fun v => (type.word field t v).map (t.wireType.entry field.number)) rfl (fun v vs => ?_) h
    hmore
  rw [entries]
  cases type.word field t v <;> rfl

theorem Value.encodeMessages_append {type nested : Message} {field : Field} {vs ws : List Value} {bytes more : Bytes}
    (h : encodeMessages type field nested vs = .ok bytes) (hmore : encodeMessages type field nested ws = .ok more) :
    encodeMessages type field nested (vs ++ ws) = .ok (bytes ++ more) :=
  writeAll_append (encodeMessage type field nested) rfl (fun _ _ => rfl) h hmore

/-! ### The text format -/

section Text

variable (enums : EnumTable)

mutual

theorem Value.lines_succeed {field : Field} :
    ∀ {v : Value} (depth : Nat), v.Conforms field.kind → Succeeds (v.lines field enums depth)
  | .message r, depth, h => by
      rw [Value.lines]
      cases hkind : field.kind with
      | value t => exact ⟨_, rfl⟩
      | message nested =>
          rw [hkind] at h
          exact (Record.lines_succeed (depth + 1) h).bind fun _ => ⟨_, rfl⟩
  | .int _, _, _ | .uint _, _, _ | .float _, _, _ | .bool _, _, _ | .string _, _, _ | .bytes _, _, _
  | .enum _, _, _ => ⟨_, rfl⟩

theorem Value.linesAll_succeed {field : Field} :
    ∀ {vs : List Value} (depth : Nat), Value.ConformAll field.kind vs →
      Succeeds (Value.linesAll field enums depth vs)
  | [], _, _ => ⟨[], rfl⟩
  | _ :: _, depth, ⟨hv, hvs⟩ =>
      (Value.lines_succeed depth hv).bind fun _ => (Value.linesAll_succeed depth hvs).bind fun _ => ⟨_, rfl⟩

theorem Content.lines_succeed {field : Field} :
    ∀ {content : Content} (depth : Nat), content.Conforms field → Succeeds (content.lines field enums depth)
  | .single _, depth, ⟨_, hv⟩ => Value.lines_succeed depth hv
  | .list _, depth, ⟨_, hvs⟩ => Value.linesAll_succeed depth hvs

theorem Content.linesAll_succeed {type : Message} :
    ∀ {entries : List (Nat × Content)} (depth : Nat), Content.ConformAll type entries →
      Succeeds (Content.linesAll type enums depth entries)
  | [], _, _ => ⟨[], rfl⟩
  | (_, content) :: _, depth, ⟨⟨field, hfield, hcontent⟩, hentries⟩ => by
      simp only [Content.linesAll, hfield]
      split
      · exact (Content.linesAll_succeed depth hentries).bind fun _ => ⟨_, rfl⟩
      · exact (Content.lines_succeed depth hcontent).bind fun _ =>
          (Content.linesAll_succeed depth hentries).bind fun _ => ⟨_, rfl⟩

theorem Record.lines_succeed {type : Message} :
    ∀ {r : Record} (depth : Nat), r.Conforms type → Succeeds (r.lines type enums depth)
  | ⟨_⟩, depth, h => Content.linesAll_succeed depth h

end

theorem Value.linesAll_append {enums : EnumTable} {field : Field} {depth : Nat} {vs ws : List Value}
    {lines more : List String} (h : linesAll field enums depth vs = .ok lines)
    (hmore : linesAll field enums depth ws = .ok more) : linesAll field enums depth (vs ++ ws) = .ok (lines ++ more) :=
  writeAll_append (Value.lines field enums depth) rfl (fun _ _ => rfl) h hmore

theorem Record.toText_succeeds {type : Message} {r : Record} (h : r.Conforms type) :
    Succeeds (r.toText type enums) :=
  (Record.lines_succeed enums 0 h).bind fun _ => ⟨_, rfl⟩

end Text

end SheetCompiler

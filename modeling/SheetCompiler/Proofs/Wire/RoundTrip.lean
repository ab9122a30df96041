import SheetCompiler.Proofs.Record.Entries
import SheetCompiler.Proofs.Record.Written
import SheetCompiler.Proofs.Wire.Steps

/-!
# The wire format keeps conforming records

A record that conforms to its type is written, and what is written is read as its canonical form. The
canonical form is written as the same bytes. The bytes of a record are a sequence of entries, one or
several to a field, so the proof goes entry by entry: whatever a decoder has read so far, if its numbers are
below that of the field, the bytes of the field lead it to what the field holds and leave the bytes behind
them alone.
-/

namespace SheetCompiler

/-! ### The canonical form has the same bytes -/

/-- A field that is written and of which the canonical form holds nothing has no bytes. -/
theorem Content.eq_nil_of_leavesNoTrace {type : Message} {field : Field} {bytes : Bytes} :
    ∀ {content : Content}, content.encode type field = .ok bytes → content.leavesNoTrace field = true → bytes = []
  | .single v, h, hleaves => by
      have homits : (field.label == .implicit && v.isDefault) = true := by
        simpa [leavesNoTrace, TextFormat.omits, values] using hleaves
      rw [encode] at h
      cases hkind : field.kind with
      | value t =>
          simp only [hkind, Message.encodeSingle, homits, if_true] at h
          cases h
          rfl
      | message nested =>
          simp only [hkind] at h
          cases v
          case message r => simp [Value.isDefault] at homits
          all_goals cases h
  | .list vs, h, hleaves => by
      obtain rfl : vs = [] := by simpa [leavesNoTrace, TextFormat.omits, values] using hleaves
      rw [encode] at h
      cases hkind : field.kind <;> simp only [hkind] at h <;> cases h <;> rfl

theorem Content.encode_of_leavesNoTrace {type : Message} {field : Field} {content : Content}
    (hconforms : content.Conforms field) (hleaves : content.leavesNoTrace field = true) :
    content.encode type field = .ok [] := by
  obtain ⟨bytes, hbytes⟩ := Content.encode_succeeds type hconforms
  rw [hbytes, eq_nil_of_leavesNoTrace hbytes hleaves]

mutual

theorem Value.encodeMessage_prune {type nested : Message} {field : Field} {bytes : Bytes} :
    ∀ {v : Value}, v.encodeMessage type field nested = .ok bytes →
      (v.prune Content.leavesNoTrace (.message nested)).encodeMessage type field nested = .ok bytes
  | .message r, h => by
      obtain ⟨payload, hpayload, h⟩ := bind_eq_ok.1 h
      rw [Value.prune, Value.encodeMessage, ← Record.normalise, Record.encode_prune hpayload]
      exact h
  | .int _, h | .uint _, h | .float _, h | .bool _, h | .string _, h | .bytes _, h | .enum _, h => by cases h

theorem Value.encodeMessages_prune {type nested : Message} {field : Field} :
    ∀ {vs : List Value} {bytes : Bytes}, Value.encodeMessages type field nested vs = .ok bytes →
      Value.encodeMessages type field nested (Value.pruneAll Content.leavesNoTrace (.message nested) vs) = .ok bytes
  | [], _, h => h
  | v :: vs, _, h => by
      rw [Value.encodeMessages] at h
      obtain ⟨first, hfirst, h⟩ := bind_eq_ok.1 h
      obtain ⟨more, hmore, h⟩ := bind_eq_ok.1 h
      rw [Value.pruneAll, Value.encodeMessages, Value.encodeMessage_prune hfirst, Value.encodeMessages_prune hmore]
      exact h

theorem Content.encode_prune {type : Message} {field : Field} {bytes : Bytes} :
    ∀ {content : Content}, content.encode type field = .ok bytes →
      (content.prune Content.leavesNoTrace field).encode type field = .ok bytes
  | .single v, h => by
      rw [Content.prune, Content.encode]
      rw [Content.encode] at h
      cases hkind : field.kind with
      | value t =>
          simp only [hkind] at h
          simp only [Value.prune_value, h]
      | message nested =>
          simp only [hkind] at h
          exact Value.encodeMessage_prune h
  | .list vs, h => by
      rw [Content.prune, Content.encode]
      rw [Content.encode] at h
      cases hkind : field.kind with
      | value t =>
          simp only [hkind] at h
          simp only [Value.pruneAll_value, h]
      | message nested =>
          simp only [hkind] at h
          exact Value.encodeMessages_prune h

theorem Content.encodeAll_prune {type : Message} :
    ∀ {entries : List (Nat × Content)} {bytes : Bytes}, Content.encodeAll type entries = .ok bytes →
      Content.encodeAll type (Content.pruneAll Content.leavesNoTrace type entries) = .ok bytes
  | [], _, h => h
  | (number, content) :: rest, bytes, h => by
      rw [Content.encodeAll] at h
      cases hfield : type.field? number with
      | none =>
          rw [hfield] at h
          cases h
      | some field =>
          simp only [hfield] at h
          obtain ⟨first, hfirst, h⟩ := bind_eq_ok.1 h
          obtain ⟨more, hmore, h⟩ := bind_eq_ok.1 h
          cases hleaves : content.leavesNoTrace field with
          | true =>
              obtain rfl := Content.eq_nil_of_leavesNoTrace hfirst hleaves
              cases h
              simp only [Content.pruneAll, hfield, hleaves, if_true]
              exact Content.encodeAll_prune hmore
          | false =>
              simp only [Content.pruneAll, hfield, hleaves, Bool.false_eq_true, if_false, Content.encodeAll,
                Content.encode_prune hfirst, Content.encodeAll_prune hmore]
              exact h

/-- The canonical form of a record that is written has the same bytes. -/
theorem Record.encode_prune {type : Message} :
    ∀ {r : Record} {bytes : Bytes}, r.encode type = .ok bytes → (r.normalise type).encode type = .ok bytes
  | ⟨_⟩, _, h => Content.encodeAll_prune h

end

/-! ### Entries are read as they were written -/

theorem WireType.length_write_le (form : WireType) (number : Nat) (word : form.Word) :
    (form.write word).length ≤ (form.entry number word).length := by
  rw [entry, List.length_append]
  exact Nat.le_add_left _ _

theorem WireType.length_le_entry (number : Nat) (payload : Bytes) :
    payload.length ≤ (WireType.lengthDelimited.entry number payload).length := by
  have hwrite : (delimit payload).length ≤ (WireType.lengthDelimited.entry number payload).length :=
    length_write_le .lengthDelimited number payload
  exact Nat.le_trans (length_le_delimit payload) hwrite

namespace Entry

variable {type : Message} {field : Field}

theorem readValue_write {t : ValueType} {word : t.wireType.Word} {v : Value} (hv : Value.ofWord t word = .ok v)
    (hlength : (t.wireType.write word).length < 2 ^ 64) (rest : Bytes) :
    readValue t (t.wireType.write word ++ rest) = .ok (v, rest) := by
  rw [readValue, WireType.read_write _ word hlength]
  simp only [bind, Except.bind, hv, pure, Except.pure]

theorem read_value (hfield : type.field? field.number = some field) (hnumber : field.number < 2 ^ 32)
    {t : ValueType} (hkind : field.kind = .value t) {word : t.wireType.Word} {v : Value}
    (hv : Value.ofWord t word = .ok v) (hlength : (t.wireType.entry field.number word).length < 2 ^ 64)
    (rest : Bytes) :
    read type (t.wireType.entry field.number word ++ rest) = .ok (.values field [v], rest) := by
  have hword := Nat.lt_of_le_of_lt (WireType.length_write_le _ field.number word) hlength
  rw [read, WireType.entry, List.append_assoc, readTag_tag hnumber]
  simp only [bind, Except.bind, hfield, hkind]
  rw [readWord, if_neg fun h => h.2 h.1, if_neg fun h => h rfl, readValue_write hv hword]
  rfl

theorem read_packed (hfield : type.field? field.number = some field) (hnumber : field.number < 2 ^ 32)
    (hrepeated : field.label = .repeated) {t : ValueType} (hkind : field.kind = .value t)
    (hpacks : t.wireType ≠ .lengthDelimited) {packed : Bytes} {vs : List Value} (hvs : readPacked t packed = .ok vs)
    (hlength : (WireType.lengthDelimited.entry field.number packed).length < 2 ^ 64) (rest : Bytes) :
    read type (WireType.lengthDelimited.entry field.number packed ++ rest) = .ok (.values field vs, rest) := by
  have hword : (WireType.lengthDelimited.write packed).length < 2 ^ 64 :=
    Nat.lt_of_le_of_lt (WireType.length_write_le .lengthDelimited field.number packed) hlength
  have hlist : field.isRepeated = true := by rw [Field.isRepeated, hrepeated]; rfl
  rw [read, WireType.entry, List.append_assoc, readTag_tag hnumber]
  simp only [bind, Except.bind, hfield, hkind]
  rw [readWord, if_pos ⟨rfl, hpacks⟩, if_pos hlist]
  change (WireType.lengthDelimited.read _ >>= _) >>= _ = _
  rw [WireType.read_write .lengthDelimited packed hword]
  simp only [bind, Except.bind, hvs, pure, Except.pure]

theorem read_message (hfield : type.field? field.number = some field) (hnumber : field.number < 2 ^ 32)
    {nested : Message} (hkind : field.kind = .message nested) {payload : Bytes}
    (hlength : (WireType.lengthDelimited.entry field.number payload).length < 2 ^ 64) (rest : Bytes) :
    read type (WireType.lengthDelimited.entry field.number payload ++ rest)
      = .ok (.message field nested payload, rest) := by
  have hword : (WireType.lengthDelimited.write payload).length < 2 ^ 64 :=
    Nat.lt_of_le_of_lt (WireType.length_write_le .lengthDelimited field.number payload) hlength
  rw [read, WireType.entry, List.append_assoc, readTag_tag hnumber]
  simp only [bind, Except.bind, hfield, hkind]
  rw [if_neg fun h => h rfl]
  change WireType.lengthDelimited.read _ >>= _ = _
  rw [WireType.read_write .lengthDelimited payload hword]
  rfl

theorem readPacked_of_readValue {t : ValueType} {bytes rest : Bytes} {v : Value}
    (h : readValue t bytes = .ok (v, rest)) : readPacked t bytes = (readPacked t rest).map (v :: ·) := by
  cases bytes with
  | nil => exact absurd (readValue_length_lt h) (Nat.not_lt_zero _)
  | cons b bytes =>
      rw [readPacked]
      split
      · next heq =>
        rw [h] at heq
        cases heq
      · next heq =>
        rw [h] at heq
        cases heq
        cases readPacked t rest <;> rfl

end Entry

/-! ### Fields are read behind those before them -/

namespace Message

/-- Whether bytes lead a decoder of a type from what it has read before a field to that and what the field
holds, and leave the bytes behind them alone. -/
def Gives (type : Message) (number : Nat) (bytes : Bytes) (content : Option Content) : Prop :=
  ∀ (acc : Record) (rest : Bytes), acc.Below number →
    Record.decodeInto type acc (bytes ++ rest) = Record.decodeInto type (acc.extend number content) rest

/-- Whether bytes lead a decoder of a type from any part of a list to that part and more values. -/
def Lists (type : Message) (number : Nat) (bytes : Bytes) (vs : List Value) : Prop :=
  ∀ (acc : Record) (found : List Value) (rest : Bytes), acc.Below number →
    Record.decodeInto type (acc.extend number (Content.ofList found)) (bytes ++ rest)
      = Record.decodeInto type (acc.extend number (Content.ofList (found ++ vs))) rest

variable {type : Message} {number : Nat} {bytes more : Bytes} {vs ws : List Value}

theorem Gives.nil : type.Gives number [] none := fun acc rest _ => by
  rw [Record.extend_none, List.nil_append]

theorem Lists.nil : type.Lists number [] [] := fun acc found rest _ => by
  rw [List.append_nil, List.nil_append]

theorem Lists.append (h : type.Lists number bytes vs) (hmore : type.Lists number more ws) :
    type.Lists number (bytes ++ more) (vs ++ ws) := fun acc found rest hacc => by
  rw [List.append_assoc, h acc found _ hacc, hmore acc _ rest hacc, List.append_assoc]

theorem Lists.gives (h : type.Lists number bytes vs) : type.Gives number bytes (Content.ofList vs) :=
  fun acc rest hacc => by
    have := h acc [] rest hacc
    rwa [Content.ofList, Record.extend_none, List.nil_append] at this

theorem foldl_store {field : Field} (hrepeated : field.label = .repeated) {acc : Record}
    (hacc : acc.Below field.number) (vs : List Value) : ∀ found,
    vs.foldl (·.store field ·) (acc.extend field.number (Content.ofList found))
      = acc.extend field.number (Content.ofList (found ++ vs)) := by
  have hlist : field.isRepeated = true := by rw [Field.isRepeated, hrepeated]; rfl
  induction vs with
  | nil =>
      intro found
      rw [List.append_nil]
      rfl
  | cons v vs ih =>
      intro found
      rw [List.foldl_cons, Record.store, if_pos hlist, hacc.append_extend, ih, List.append_assoc]
      rfl

theorem lists_of_read_values {field : Field} (hrepeated : field.label = .repeated)
    (h : ∀ rest, Entry.read type (bytes ++ rest) = .ok (.values field vs, rest)) :
    type.Lists field.number bytes vs := fun acc found rest hacc => by
  rw [Record.decodeInto_values (h rest), foldl_store hrepeated hacc]

theorem lists_of_read_message {field : Field} (hrepeated : field.label = .repeated) {nested : Message}
    {payload : Bytes} (h : ∀ rest, Entry.read type (bytes ++ rest) = .ok (.message field nested payload, rest))
    {sub : Record} (hsub : Record.decode nested payload = .ok sub) :
    type.Lists field.number bytes [.message sub] := fun acc found rest hacc => by
  rw [Record.decodeInto_message (h rest) hsub]
  exact congrArg (Record.decodeInto type · rest) (foldl_store hrepeated hacc [.message sub] found)

/-- A single value is stored at the end of what has been read. -/
theorem store_single {field : Field} (hsingle : field.label ≠ .repeated) {acc : Record}
    (hacc : acc.Below field.number) (v : Value) :
    acc.store field v = acc.extend field.number (some (.single v)) := by
  have hlabel : field.isRepeated = false := by
    rw [Field.isRepeated]
    exact beq_eq_false_iff_ne.2 hsingle
  rw [Record.store, if_neg (by rw [hlabel]; exact Bool.false_ne_true), hacc.set_eq]

/-! ### Fields that hold no messages -/

variable {field : Field} {t : ValueType}

theorem word_spec (type : Message) (field : Field) {v : Value} (hv : v.Fits t) :
    ∃ word, type.word field t v = .ok word ∧ Value.ofWord t word = .ok (v.narrow t) := by
  obtain ⟨word, hword, hof⟩ := Value.word?_spec hv
  exact ⟨word, by rw [Message.word, hword], hof⟩

theorem encodeSingle_spec (hfield : type.field? field.number = some field) (hnumber : field.number < 2 ^ 32)
    (hkind : field.kind = .value t) (hsingle : field.label ≠ .repeated) {v : Value} (hv : v.Fits t)
    (hkept : (field.label == .implicit && v.isDefault) = false) :
    ∃ bytes, type.encodeSingle field t v = .ok bytes ∧ (bytes.length < 2 ^ 64 →
      type.Gives field.number bytes (some (.single (v.narrow t)))) := by
  obtain ⟨word, hword, hof⟩ := word_spec type field hv
  refine ⟨t.wireType.entry field.number word, ?_, fun hlength acc rest hacc => ?_⟩
  · rw [encodeSingle, if_neg (by rw [hkept]; exact Bool.false_ne_true), hword]
    rfl
  · rw [Record.decodeInto_values (Entry.read_value hfield hnumber hkind hof hlength rest)]
    exact congrArg (Record.decodeInto type · rest) (store_single hsingle hacc _)

theorem words_spec (type : Message) (field : Field) :
    ∀ {vs : List Value}, Value.ConformAll (.value t) vs →
      ∃ packed, type.words field t vs = .ok packed ∧ (packed.length < 2 ^ 64 →
        Entry.readPacked t packed = .ok (Value.rereadAll (.value t) vs))
  | [], _ => ⟨[], rfl, fun _ => by rw [Entry.readPacked, Value.rereadAll]⟩
  | v :: vs, ⟨hv, hvs⟩ => by
      obtain ⟨word, hword, hof⟩ := word_spec type field (Value.conforms_value.1 hv)
      obtain ⟨packed, hpacked, hread⟩ := words_spec type field hvs
      refine ⟨t.wireType.write word ++ packed, by rw [words, hword, hpacked]; rfl, fun hlength => ?_⟩
      rw [List.length_append] at hlength
      rw [Entry.readPacked_of_readValue (Entry.readValue_write hof (by omega) packed), hread (by omega),
        Value.rereadAll, Value.reread_value]
      rfl

theorem entries_spec (hfield : type.field? field.number = some field) (hnumber : field.number < 2 ^ 32)
    (hkind : field.kind = .value t) (hrepeated : field.label = .repeated) :
    ∀ {vs : List Value}, Value.ConformAll (.value t) vs →
      ∃ bytes, type.entries field t vs = .ok bytes ∧ (bytes.length < 2 ^ 64 →
        type.Lists field.number bytes (Value.rereadAll (.value t) vs))
  | [], _ => ⟨[], rfl, fun _ => Lists.nil⟩
  | v :: vs, ⟨hv, hvs⟩ => by
      obtain ⟨word, hword, hof⟩ := word_spec type field (Value.conforms_value.1 hv)
      obtain ⟨bytes, hbytes, hread⟩ := entries_spec hfield hnumber hkind hrepeated hvs
      refine ⟨t.wireType.entry field.number word ++ bytes, by rw [entries, hword, hbytes]; rfl, fun hlength => ?_⟩
      rw [List.length_append] at hlength
      have hentry := lists_of_read_values hrepeated
        (Entry.read_value hfield hnumber hkind hof (by omega))
      rw [Value.rereadAll, Value.reread_value]
      exact hentry.append (hread (by omega))

theorem encodeList_spec (hfield : type.field? field.number = some field) (hnumber : field.number < 2 ^ 32)
    (hkind : field.kind = .value t) (hrepeated : field.label = .repeated) {vs : List Value}
    (hvs : Value.ConformAll (.value t) vs) :
    ∃ bytes, type.encodeList field t vs = .ok bytes ∧ (bytes.length < 2 ^ 64 →
      type.Lists field.number bytes (Value.rereadAll (.value t) vs)) := by
  by_cases hempty : vs = []
  · subst hempty
    exact ⟨[], rfl, fun _ => Lists.nil⟩
  by_cases hpacks : t.wireType = .lengthDelimited
  · obtain ⟨bytes, hbytes, hread⟩ := entries_spec hfield hnumber hkind hrepeated hvs
    exact ⟨bytes, by rw [encodeList, if_neg (by simpa using hempty), if_pos hpacks, hbytes], hread⟩
  · obtain ⟨packed, hpacked, hread⟩ := words_spec type field hvs
    refine ⟨WireType.lengthDelimited.entry field.number packed, ?_, fun hlength => ?_⟩
    · rw [encodeList, if_neg (by simpa using hempty), if_neg hpacks, hpacked]
      rfl
    · have hle := WireType.length_le_entry field.number packed
      exact lists_of_read_values hrepeated
        (Entry.read_packed hfield hnumber hrepeated hkind hpacks (hread (by omega)) hlength)

end Message

/-! ### Records -/

theorem Content.ofList_rereadAll (kind : FieldKind) {vs : List Value} (hne : vs ≠ []) :
    Content.ofList (Value.rereadAll kind vs) = some (.list (Value.rereadAll kind vs)) := by
  cases vs with
  | nil => exact absurd rfl hne
  | cons v vs => rfl

mutual

theorem Value.encodeMessage_spec (type : Message) {nested : Message} (field : Field) :
    ∀ {v : Value}, v.Conforms (.message nested) → v.WellFormed →
      ∃ payload sub, v.encodeMessage type field nested = .ok (WireType.lengthDelimited.entry field.number payload)
        ∧ v.reread (.message nested) = .message sub
        ∧ (payload.length < 2 ^ 64 → Record.decode nested payload = .ok sub)
  | .message r, hconforms, hformed => by
      obtain ⟨payload, hpayload, hread⟩ := Record.encode_decodes hconforms hformed
      exact ⟨payload, r.reread nested, by rw [Value.encodeMessage, hpayload]; rfl, rfl, hread⟩

theorem Value.encodeMessages_spec {type nested : Message} {field : Field}
    (hfield : type.field? field.number = some field) (hnumber : field.number < 2 ^ 32)
    (hkind : field.kind = .message nested) (hrepeated : field.label = .repeated) :
    ∀ {vs : List Value}, Value.ConformAll (.message nested) vs → Value.WellFormedAll vs →
      ∃ bytes, Value.encodeMessages type field nested vs = .ok bytes ∧ (bytes.length < 2 ^ 64 →
        type.Lists field.number bytes (Value.rereadAll (.message nested) vs))
  | [], _, _ => ⟨[], rfl, fun _ => Message.Lists.nil⟩
  | v :: vs, ⟨hv, hvs⟩, ⟨hvformed, hvsformed⟩ => by
      obtain ⟨payload, sub, hpayload, hsub, hread⟩ := Value.encodeMessage_spec type field hv hvformed
      obtain ⟨bytes, hbytes, hreads⟩ := Value.encodeMessages_spec hfield hnumber hkind hrepeated hvs hvsformed
      refine ⟨WireType.lengthDelimited.entry field.number payload ++ bytes,
        by rw [Value.encodeMessages, hpayload, hbytes]; rfl, fun hlength => ?_⟩
      rw [List.length_append] at hlength
      have hpayloadLength := WireType.length_le_entry field.number payload
      have hentry : (WireType.lengthDelimited.entry field.number payload).length < 2 ^ 64 := by omega
      have hmessage := Message.lists_of_read_message hrepeated
        (Entry.read_message hfield hnumber hkind hentry) (hread (by omega))
      rw [Value.rereadAll, hsub]
      exact hmessage.append (hreads (by omega))

theorem Content.encode_spec {type : Message} {field : Field} (hfield : type.field? field.number = some field)
    (hnumber : field.number < 2 ^ 32) :
    ∀ {content : Content}, content.Conforms field → content.WellFormed → content.leavesNoTrace field = false →
      ∃ bytes, content.encode type field = .ok bytes ∧ (bytes.length < 2 ^ 64 →
        type.Gives field.number bytes (some (content.reread field)))
  | .single v, ⟨hsingle, hv⟩, hformed, hkept => by
      have homits : (field.label == .implicit && v.isDefault) = false := by
        simpa [Content.leavesNoTrace, TextFormat.omits, Content.values] using hkept
      rw [Content.encode, Content.reread]
      cases hkind : field.kind with
      | value t =>
          rw [hkind] at hv
          rw [Value.reread_value]
          exact Message.encodeSingle_spec hfield hnumber hkind hsingle (Value.conforms_value.1 hv) homits
      | message nested =>
          rw [hkind] at hv
          obtain ⟨payload, sub, hpayload, hsub, hread⟩ := Value.encodeMessage_spec type field hv hformed
          refine ⟨_, hpayload, fun hlength acc rest hacc => ?_⟩
          have hpayloadLength := WireType.length_le_entry field.number payload
          rw [Record.decodeInto_message (Entry.read_message hfield hnumber hkind hlength rest) (hread (by omega)),
            Message.store_single hsingle hacc, hsub]
  | .list vs, ⟨hrepeated, hvs⟩, hformed, hkept => by
      have hne : vs ≠ [] := by
        simpa [Content.leavesNoTrace, TextFormat.omits, Content.values] using hkept
      rw [Content.encode, Content.reread, ← Content.ofList_rereadAll field.kind hne]
      cases hkind : field.kind with
      | value t =>
          rw [hkind] at hvs
          obtain ⟨bytes, hbytes, hread⟩ := Message.encodeList_spec hfield hnumber hkind hrepeated hvs
          exact ⟨bytes, hbytes, fun hlength => (hread hlength).gives⟩
      | message nested =>
          rw [hkind] at hvs
          obtain ⟨bytes, hbytes, hread⟩ := Value.encodeMessages_spec hfield hnumber hkind hrepeated hvs hformed
          exact ⟨bytes, hbytes, fun hlength => (hread hlength).gives⟩

theorem Content.encodeAll_spec {type : Message} :
    ∀ {entries : List (Nat × Content)} {least : Nat}, Content.ConformAll type entries →
      Content.WellFormedAll least entries →
      ∃ bytes, Content.encodeAll type entries = .ok bytes ∧ (bytes.length < 2 ^ 64 →
        ∀ (acc : Record) (rest : Bytes), acc.Below least →
          Record.decodeInto type acc (bytes ++ rest)
            = Record.decodeInto type ⟨acc.entries ++ Content.rereadAll type entries⟩ rest)
  | [], _, _, _ => ⟨[], rfl, fun _ acc rest _ => by
      rw [Content.rereadAll, List.append_nil, Record.mk_entries, List.nil_append]⟩
  | (number, content) :: entries, least, ⟨⟨field, hfield, hcontent⟩, hentries⟩,
      ⟨hleast, hnumber, hformed, hformedAll⟩ => by
      obtain ⟨more, hmore, hreads⟩ := Content.encodeAll_spec hentries hformedAll
      obtain rfl := Message.number_of_field? hfield
      cases hleaves : content.leavesNoTrace field with
      | true =>
          -- The field has no bytes, and nothing is read of it.
          refine ⟨more, ?_, fun hlength acc rest hacc => ?_⟩
          · simp only [Content.encodeAll, hfield, Content.encode_of_leavesNoTrace hcontent hleaves, hmore]
            rfl
          · simp only [Content.rereadAll, hfield, hleaves, if_true]
            exact hreads hlength acc rest (hacc.mono (Nat.le_succ_of_le hleast))
      | false =>
          obtain ⟨bytes, hbytes, hread⟩ := Content.encode_spec hfield hnumber hcontent hformed hleaves
          refine ⟨bytes ++ more, ?_, fun hlength acc rest hacc => ?_⟩
          · simp only [Content.encodeAll, hfield, hbytes, hmore]
            rfl
          · rw [List.length_append] at hlength
            have hbelow := hacc.mono hleast
            rw [List.append_assoc, hread (by omega) acc _ hbelow, hreads (by omega) _ rest (hbelow.extend _),
              Record.extend, List.append_assoc]
            simp only [Content.rereadAll, hfield, hleaves, Bool.false_eq_true, if_false]
            rfl

/-- A conforming record is written, and what is written is read as what the wire format makes of it. -/
theorem Record.encode_decodes {type : Message} :
    ∀ {r : Record}, r.Conforms type → r.WellFormed →
      ∃ bytes, r.encode type = .ok bytes ∧ (bytes.length < 2 ^ 64 → Record.decode type bytes = .ok (r.reread type))
  | ⟨entries⟩, hconforms, hformed => by
      obtain ⟨bytes, hbytes, hread⟩ := Content.encodeAll_spec hconforms hformed
      refine ⟨bytes, hbytes, fun hlength => ?_⟩
      have hall := hread hlength .empty [] (Record.below_empty 0)
      rwa [List.append_nil, Record.decodeInto_nil] at hall

end

/-- A conforming record is written, and what is written is read as its canonical form. -/
theorem Record.encode_spec {type : Message} {r : Record} (hconforms : r.Conforms type) (hformed : r.WellFormed) :
    ∃ bytes, r.encode type = .ok bytes ∧ (bytes.length < 2 ^ 64 →
      ∃ r', Record.decode type bytes = .ok r' ∧ r'.quiet = (r.normalise type).quiet) := by
  obtain ⟨bytes, hbytes, hread⟩ := Record.encode_decodes hconforms hformed
  exact ⟨bytes, hbytes, fun hlength => ⟨_, hread hlength, Record.quiet_reread hconforms⟩⟩

/-- A conforming record is written. Its canonical form is written as the same bytes, and they are read as
that form. The length of bytes in memory, which the lengths written in front of messages cannot exceed, is one
of 64 bits. -/
theorem Record.wire_round_trip {type : Message} {r : Record} (hconforms : r.Conforms type) (hformed : r.WellFormed) :
    ∃ bytes, r.encode type = .ok bytes ∧ (r.normalise type).encode type = .ok bytes
      ∧ (bytes.length < 2 ^ 64 →
        ∃ r', decode type bytes = .ok r' ∧ r'.quiet = (r.normalise type).quiet) := by
  obtain ⟨bytes, hbytes, hread⟩ := Record.encode_spec hconforms hformed
  exact ⟨bytes, hbytes, Record.encode_prune hbytes, hread⟩

/-- A type with numbers in a list, and with messages. -/
def pathType : Message :=
  ⟨"path", [⟨1, "name", .implicit, .value (.scalar .string)⟩, ⟨4, "steps", .repeated, .value (.scalar .sint32)⟩,
    ⟨7, "points", .repeated, .message ⟨"point",
      [⟨1, "x", .implicit, .value (.scalar .int64)⟩, ⟨2, "y", .optional, .value (.scalar .float)⟩]⟩⟩]⟩

/-- Defaults that are left out, the name and an `x`, beside a `y` of zero and an empty point, which are not. -/
def path : Record :=
  ⟨[(1, .single (.string "")), (4, .list [.int (-1), .int 0]),
    (7, .list [.message ⟨[(1, .single (.int 0)), (2, .single (.float (Single.toDouble ⟨0⟩)))]⟩, .message ⟨[]⟩])]⟩

theorem path_wire_round_trip :
    ∃ r', Record.decode pathType [0x22, 2, 1, 0, 0x3A, 5, 0x15, 0, 0, 0, 0, 0x3A, 0] = .ok r'
      ∧ r'.quiet = (path.normalise pathType).quiet := by
  have hstep (n : Int64) (h : -2 ^ 31 ≤ n.toInt ∧ n.toInt < 2 ^ 31) :
      Value.Conforms (.value (.scalar .sint32)) (.int n) := h
  have hconforms : path.Conforms pathType :=
    ⟨⟨_, rfl, nofun, trivial⟩, ⟨_, rfl, rfl, hstep (-1) (by decide), hstep 0 (by decide), trivial⟩,
      ⟨_, rfl, rfl, ⟨⟨_, rfl, nofun, trivial⟩, ⟨_, rfl, nofun, .inr ⟨⟨0⟩, rfl⟩⟩, trivial⟩, trivial, trivial⟩, trivial⟩
  have hformed : path.WellFormed := by
    simp [path, Record.WellFormed, Content.WellFormedAll, Content.WellFormed, Value.WellFormedAll, Value.WellFormed]
  obtain ⟨bytes, hbytes, -, hread⟩ := Record.wire_round_trip hconforms hformed
  have hencode : (path.encode pathType).toOption = some [0x22, 2, 1, 0, 0x3A, 5, 0x15, 0, 0, 0, 0, 0x3A, 0] := by
    decide +kernel
  cases (toOption_eq_some.1 hencode).symm.trans hbytes
  exact hread (by decide)

end SheetCompiler

import SheetCompiler.Proofs.Wire.Steps
import SheetCompiler.Proofs.Wire.Words

/-!
# What is decoded conforms

Whatever bytes a decoder accepts, the record that it makes of them conforms to the type it reads them with: words of
the wire format are brought into the range of their type, a field takes what its kind asks for, and a list is made
only for a field that is repeated. The record is a map from field numbers, and it is settled: no list is made without a
value, and the double of a single is made from that single. So bytes that were written of a record which does not
conform to a type are not read back as that record.
-/

namespace SheetCompiler

/-! ### Values -/

theorem Value.ends_ofWord : ∀ (t : ValueType) (word : t.wireType.Word),
    Ends (fun v => v.Fits t) (fun _ => True) (ofWord t word)
  | .enum _, _ => trivial
  | .scalar .int32, word => by
      show -2 ^ 31 ≤ (UInt64.toInt64 word).toInt32.toInt64.toInt ∧ _ < 2 ^ 31
      rw [Int32.toInt_toInt64]
      exact ⟨Int32.le_toInt _, Int32.toInt_lt _⟩
  | .scalar .sint32, word => by
      show -2 ^ 31 ≤ (Zigzag.decode word).toInt32.toInt64.toInt ∧ _ < 2 ^ 31
      rw [Int32.toInt_toInt64]
      exact ⟨Int32.le_toInt _, Int32.toInt_lt _⟩
  | .scalar .sfixed32, word => by
      show -2 ^ 31 ≤ (UInt32.toInt32 word).toInt64.toInt ∧ _ < 2 ^ 31
      rw [Int32.toInt_toInt64]
      exact ⟨Int32.le_toInt _, Int32.toInt_lt _⟩
  | .scalar .uint32, word => by
      show (UInt64.toUInt32 word).toUInt64.toNat < 2 ^ 32
      rw [UInt32.toNat_toUInt64]
      exact UInt32.toNat_lt _
  | .scalar .fixed32, word => by
      have hword : (UInt32.toUInt64 word).toNat = UInt32.toNat word := UInt32.toNat_toUInt64 word
      show (UInt32.toUInt64 word).toNat < 2 ^ 32
      exact hword ▸ UInt32.toNat_lt word
  | .scalar .float, word => .inr ⟨⟨word⟩, rfl⟩
  | .scalar .string, word => by
      simp only [ofWord]
      split <;> trivial
  | .scalar .int64, _ | .scalar .uint64, _ | .scalar .sint64, _ | .scalar .bool, _ | .scalar .fixed64, _
  | .scalar .sfixed64, _ | .scalar .double, _ | .scalar .bytes, _ => trivial

theorem Value.fits_of_ofWord {t : ValueType} {word : t.wireType.Word} {v : Value} (h : ofWord t word = .ok v) :
    v.Fits t := by
  have hends := ends_ofWord t word
  rwa [h] at hends

theorem Value.settled_of_ofWord {t : ValueType} {word : t.wireType.Word} {v : Value} (h : ofWord t word = .ok v) :
    v.Settled (.value t) := by
  cases t with
  | enum name =>
      cases h
      trivial
  | scalar kind =>
      cases kind
      case float =>
        cases h
        exact ⟨⟨word⟩, rfl⟩
      case string =>
        simp only [ofWord] at h
        split at h
        · cases h
          trivial
        · cases h
      all_goals
        cases h
        trivial

/-- What a decoder can find for a field of a kind: what a word carries, or a message in which `P` holds. -/
inductive Value.Found (P : Message → Record → Prop) : FieldKind → Value → Prop
  | word {t : ValueType} {word : t.wireType.Word} {v : Value} (h : ofWord t word = .ok v) : Found P (.value t) v
  | message {nested : Message} {sub : Record} (h : P nested sub) : Found P (.message nested) (.message sub)

theorem Value.Found.conforms {kind : FieldKind} {v : Value} (h : v.Found (fun type r => r.Conforms type) kind) :
    v.Conforms kind := by
  cases h with
  | word hword => exact conforms_value.2 (fits_of_ofWord hword)
  | message hsub => exact hsub

theorem Value.Found.settled {kind : FieldKind} {v : Value} (h : v.Found (fun type r => r.Settled type) kind) :
    v.Settled kind := by
  cases h with
  | word hword => exact settled_of_ofWord hword
  | message hsub => exact hsub

theorem Value.Found.wellFormed {kind : FieldKind} {v : Value} (h : v.Found (fun _ r => r.WellFormed) kind) :
    v.WellFormed := by
  cases h with
  | word hword => exact wellFormed_of_fits (fits_of_ofWord hword)
  | message hsub => exact hsub

/-! ### Entries -/

namespace Entry

variable {t : ValueType} {type : Message} {bytes : Bytes}

/-- Whether an entry suits a type: its field is one of the type, and the values are carried by words for the field. -/
def Suits (type : Message) : Entry → Prop
  | .unknown => True
  | .values field vs =>
      type.field? field.number = some field ∧ field.number < 2 ^ 32
        ∧ ∃ t, field.kind = .value t ∧ ∀ v ∈ vs, ∃ word, Value.ofWord t word = .ok v
  | .message field nested _ =>
      type.field? field.number = some field ∧ field.number < 2 ^ 32 ∧ field.kind = .message nested

theorem ends_readTag (bytes : Bytes) : Ends (fun r => r.1.1 < 2 ^ 32) (fun _ => True) (readTag bytes) := by
  apply (Ends.any (WireType.readVarint bytes)).bind
  rintro ⟨tag, rest⟩ -
  simp only
  split
  · trivial
  · split
    · assumption
    · trivial

theorem word_of_readValue {rest : Bytes} {v : Value} (h : readValue t bytes = .ok (v, rest)) :
    ∃ word, t.wireType.read bytes = .ok (word, rest) ∧ Value.ofWord t word = .ok v := by
  obtain ⟨⟨word, after⟩, hread, h⟩ := bind_eq_ok.1 h
  obtain ⟨_, hword, h⟩ := bind_eq_ok.1 h
  cases h
  exact ⟨word, hread, hword⟩

theorem words_of_readPacked {vs : List Value} (h : readPacked t bytes = .ok vs) :
    ∀ v ∈ vs, ∃ word, Value.ofWord t word = .ok v := by
  fun_induction readPacked t bytes generalizing vs with
  | case1 =>
      cases h
      exact fun _ hv => absurd hv List.not_mem_nil
  | case2 => cases h
  | case3 b bytes v rest hread ih =>
      obtain ⟨vs, hvs, h⟩ := bind_eq_ok.1 h
      cases h
      obtain ⟨word, -, hword⟩ := word_of_readValue hread
      exact List.forall_mem_cons.2 ⟨⟨word, hword⟩, ih hvs⟩

theorem words_of_readWord {field : Field} {form : WireType} {rest : Bytes} {vs : List Value}
    (h : readWord field t form bytes = .ok (vs, rest)) : ∀ v ∈ vs, ∃ word, Value.ofWord t word = .ok v := by
  rcases readWord_eq_ok h with ⟨-, -, packed, -, hvs⟩ | ⟨-, v, hv, rfl⟩
  · exact words_of_readPacked hvs
  · obtain ⟨word, -, hword⟩ := word_of_readValue hv
    exact List.forall_mem_singleton.2 ⟨word, hword⟩

theorem suits_of_read {entry : Entry} {rest : Bytes} (h : read type bytes = .ok (entry, rest)) :
    entry.Suits type := by
  have hnumber {number : Nat} {form : WireType} {after : Bytes} (htag : readTag bytes = .ok ((number, form), after)) :
      number < 2 ^ 32 := by
    have hends := ends_readTag bytes
    rwa [htag] at hends
  cases read_eq_ok_iff.1 h with
  | unknown => trivial
  | values htag hfield hkind hread => exact ⟨hfield, hnumber htag, _, hkind, words_of_readWord hread⟩
  | message htag hfield hkind => exact ⟨hfield, hnumber htag, hkind⟩

end Entry

/-! ### Records -/

namespace Record

variable {type : Message} {r : Record} {number : Nat}

/-- What holds of the empty record and is kept by storing whatever a decoder can find holds of all that is decoded. -/
theorem Decodes.invariant (P : Message → Record → Prop) (hempty : ∀ type, P type empty)
    (hstore : ∀ {type : Message} {r : Record} {field : Field} {v : Value}, P type r →
      type.field? field.number = some field → field.number < 2 ^ 32 → v.Found P field.kind → P type (r.store field v))
    {bytes : Bytes} {r' : Record} (h : Decodes type r bytes r') : P type r → P type r' := by
  induction h with
  | nil => exact id
  | unknown _ _ ih => exact ih
  | values hread _ ih =>
      obtain ⟨hfield, hnumber, t, hkind, hvs⟩ := Entry.suits_of_read hread
      refine fun h => ih (List.foldlRecOn _ _ h fun r hr v hv => ?_)
      obtain ⟨word, hword⟩ := hvs v hv
      exact hstore hr hfield hnumber (hkind ▸ .word hword)
  | message hread _ _ ihsub ih =>
      obtain ⟨hfield, hnumber, hkind⟩ := Entry.suits_of_read hread
      exact fun h => ih (hstore h hfield hnumber (hkind ▸ .message (ihsub (hempty _))))

theorem mem_insert {content : Content} {entries : List (Nat × Content)} {entry : Nat × Content}
    (h : entry ∈ insert number content entries) : entry = (number, content) ∨ entry ∈ entries := by
  induction entries with
  | nil => exact .inl (List.mem_singleton.1 h)
  | cons front entries ih =>
      obtain ⟨n, old⟩ := front
      rw [insert] at h
      split at h
      · exact List.mem_cons.1 h
      · split at h
        · rcases List.mem_cons.1 h with h | h
          · exact .inl h
          · exact .inr (List.mem_cons_of_mem _ h)
        · rcases List.mem_cons.1 h with rfl | h
          · exact .inr List.mem_cons_self
          · exact (ih h).imp id (List.mem_cons_of_mem _)

theorem mem_of_find? {content : Content} {entries : List (Nat × Content)} (h : find? number entries = some content) :
    (number, content) ∈ entries := by
  induction entries with
  | nil => cases h
  | cons front entries ih =>
      obtain ⟨n, old⟩ := front
      rw [find?] at h
      by_cases hn : n = number
      · rw [if_pos hn] at h
        cases h
        rw [hn]
        exact List.mem_cons_self
      · rw [if_neg hn] at h
        exact List.mem_cons_of_mem _ (ih h)

theorem list_eq_nil_or_mem (r : Record) (number : Nat) :
    r.list number = [] ∨ (number, .list (r.list number)) ∈ r.entries := by
  cases hget : r.get? number with
  | none =>
      left
      rw [Record.list, hget]
  | some content =>
      cases content with
      | single v =>
          left
          rw [Record.list, hget]
      | list vs =>
          right
          rw [Record.list, hget]
          exact mem_of_find? hget

/-- What a value in a record changes is the entry of its field: a list that it ends, or the value alone. -/
theorem forall_mem_store {Q : Nat × Content → Prop} {field : Field} {v : Value} (h : ∀ entry ∈ r.entries, Q entry)
    (hlist : field.label = .repeated → ∀ vs, vs = [] ∨ Q (field.number, .list vs) →
      Q (field.number, .list (vs ++ [v])))
    (hsingle : field.label ≠ .repeated → Q (field.number, .single v)) :
    ∀ entry ∈ (r.store field v).entries, Q entry := by
  intro entry hentry
  rw [Record.store] at hentry
  by_cases hrepeated : field.label = .repeated
  · rw [if_pos (by simpa [Field.isRepeated] using hrepeated)] at hentry
    rcases mem_insert hentry with rfl | hentry
    · exact hlist hrepeated _ ((r.list_eq_nil_or_mem field.number).imp id (h _))
    · exact h entry hentry
  · rw [if_neg (by simpa [Field.isRepeated] using hrepeated)] at hentry
    rcases mem_insert hentry with rfl | hentry
    · exact hsingle hrepeated
    · exact h entry hentry

end Record

/-! ### Conforming -/

theorem Content.conformAll_iff {type : Message} {entries : List (Nat × Content)} :
    ConformAll type entries
      ↔ ∀ entry ∈ entries, ∃ field, type.field? entry.1 = some field ∧ Conforms field entry.2 := by
  induction entries with
  | nil => exact ⟨fun _ _ hentry => absurd hentry List.not_mem_nil, fun _ => trivial⟩
  | cons entry entries ih => rw [ConformAll, List.forall_mem_cons, ih]

namespace Record

variable {type : Message} {r : Record}

theorem conforms_iff : r.Conforms type
    ↔ ∀ entry ∈ r.entries, ∃ field, type.field? entry.1 = some field ∧ Content.Conforms field entry.2 := by
  cases r
  exact Content.conformAll_iff

theorem Conforms.store {field : Field} {v : Value} (h : r.Conforms type)
    (hfield : type.field? field.number = some field) (hv : v.Conforms field.kind) :
    (r.store field v).Conforms type := by
  refine conforms_iff.2 (forall_mem_store (conforms_iff.1 h) ?_ fun hsingle => ⟨field, hfield, hsingle, hv⟩)
  intro hrepeated vs hvs
  have hall : ∀ w ∈ vs, w.Conforms field.kind := by
    rcases hvs with rfl | ⟨field', hfield', hlist⟩
    · exact fun _ hw => absurd hw List.not_mem_nil
    · cases hfield.symm.trans hfield'
      exact Value.conformAll_iff.1 hlist.2
  exact ⟨field, hfield, hrepeated,
    Value.conformAll_iff.2 (List.forall_mem_append.2 ⟨hall, List.forall_mem_singleton.2 hv⟩)⟩

theorem Conforms.stores {vs : List Value} (h : r.Conforms type) (hfield : type.field? field.number = some field)
    (hvs : ∀ v ∈ vs, v.Conforms field.kind) : (vs.foldl (·.store field ·) r).Conforms type :=
  List.foldlRecOn vs _ h fun _ hr v hv => hr.store hfield (hvs v hv)

theorem Conforms.list (h : r.Conforms type) (hfield : type.field? field.number = some field)
    (hrepeated : field.label = .repeated) : Content.Conforms field (.list (r.list field.number)) := by
  rcases r.list_eq_nil_or_mem field.number with hnil | hmem
  · rw [hnil]
    exact ⟨hrepeated, trivial⟩
  · obtain ⟨field', hfield', hcontent⟩ := conforms_iff.1 h _ hmem
    cases hfield.symm.trans hfield'
    exact hcontent

/-- A record that is decoded conforms to the type it is decoded with. -/
theorem conforms_of_decode {bytes : Bytes} (h : decode type bytes = .ok r) : r.Conforms type :=
  (decode_eq_ok_iff.1 h).invariant (fun type r => r.Conforms type) (fun _ => trivial)
    (fun hr hfield _ hv => hr.store hfield hv.conforms) trivial

end Record

/-! ### Settled -/

theorem Content.settledAll_iff {type : Message} {entries : List (Nat × Content)} :
    SettledAll type entries
      ↔ ∀ entry ∈ entries, ∀ field, type.field? entry.1 = some field → Settled field.kind entry.2 := by
  induction entries with
  | nil => exact ⟨fun _ _ hentry => absurd hentry List.not_mem_nil, fun _ => trivial⟩
  | cons entry entries ih => rw [SettledAll, List.forall_mem_cons, ih]

namespace Record

variable {type : Message} {r : Record}

theorem settled_iff : r.Settled type
    ↔ ∀ entry ∈ r.entries, ∀ field, type.field? entry.1 = some field → Content.Settled field.kind entry.2 := by
  cases r
  exact Content.settledAll_iff

theorem Settled.store {field : Field} {v : Value} (h : r.Settled type)
    (hfield : type.field? field.number = some field) (hv : v.Settled field.kind) :
    (r.store field v).Settled type := by
  refine settled_iff.2 (forall_mem_store (settled_iff.1 h) ?_ ?_)
  · intro _ vs hvs field' hfield'
    cases hfield.symm.trans hfield'
    have hall : ∀ w ∈ vs, w.Settled field.kind := by
      rcases hvs with rfl | hlist
      · exact fun _ hw => absurd hw List.not_mem_nil
      · exact Value.settledAll_iff.1 (hlist field hfield).2
    exact ⟨List.append_ne_nil_of_right_ne_nil _ (List.cons_ne_nil _ _),
      Value.settledAll_iff.2 (List.forall_mem_append.2 ⟨hall, List.forall_mem_singleton.2 hv⟩)⟩
  · intro _ field' hfield'
    cases hfield.symm.trans hfield'
    exact hv

/-- A record that is decoded holds no empty list, and where its type has singles only what singles can be. -/
theorem settled_of_decode {bytes : Bytes} (h : decode type bytes = .ok r) : r.Settled type :=
  (decode_eq_ok_iff.1 h).invariant (fun type r => r.Settled type) (fun _ => trivial)
    (fun hr hfield _ hv => hr.store hfield hv.settled) trivial

end Record

/-! ### Numbers in order -/

theorem Content.WellFormedAll.insert {number : Nat} {content : Content} (hnumber : number < 2 ^ 32)
    (hcontent : content.WellFormed) :
    ∀ {least : Nat} {entries : List (Nat × Content)}, least ≤ number → WellFormedAll least entries →
      WellFormedAll least (Record.insert number content entries)
  | _, [], hleast, _ => ⟨hleast, hnumber, hcontent, trivial⟩
  | _, (n, old) :: rest, hleast, ⟨hn, hfits, hold, hrest⟩ => by
      rw [Record.insert]
      by_cases hbefore : number < n
      · rw [if_pos hbefore]
        exact ⟨hleast, hnumber, hcontent, hbefore, hfits, hold, hrest⟩
      rw [if_neg hbefore]
      by_cases hsame : number = n
      · rw [if_pos hsame]
        exact ⟨hleast, hnumber, hcontent, hsame ▸ hrest⟩
      · rw [if_neg hsame]
        exact ⟨hn, hfits, hold, insert hnumber hcontent (by omega) hrest⟩

theorem Content.WellFormedAll.find?_eq_none {number : Nat} :
    ∀ {least : Nat} {entries : List (Nat × Content)}, WellFormedAll least entries → number < least →
      Record.find? number entries = none
  | _, [], _, _ => rfl
  | _, (_, _) :: _, ⟨hleast, _, _, hrest⟩, hlt => by
      rw [Record.find?, if_neg (by omega)]
      exact hrest.find?_eq_none (by omega)

theorem Content.WellFormedAll.of_mem {number : Nat} {content : Content} :
    ∀ {least : Nat} {entries : List (Nat × Content)}, WellFormedAll least entries → (number, content) ∈ entries →
      content.WellFormed
  | _, _ :: _, ⟨_, _, hfront, hrest⟩, hmem => by
      rcases List.mem_cons.1 hmem with rfl | hmem
      · exact hfront
      · exact of_mem hrest hmem

namespace Record

variable {type : Message} {r : Record} {number : Nat}

theorem WellFormed.put {content : Content} (h : r.WellFormed) (hnumber : number < 2 ^ 32)
    (hcontent : content.WellFormed) : (r.put number content).WellFormed := by
  cases r
  exact Content.WellFormedAll.insert hnumber hcontent (Nat.zero_le number) h

theorem WellFormed.list (h : r.WellFormed) (number : Nat) : Value.WellFormedAll (r.list number) := by
  cases r
  rcases list_eq_nil_or_mem _ number with hnil | hmem
  · rw [hnil]
    trivial
  · exact Content.WellFormedAll.of_mem h hmem

theorem WellFormed.append {v : Value} (h : r.WellFormed) (hnumber : number < 2 ^ 32) (hv : v.WellFormed) :
    (r.append number v).WellFormed := by
  refine h.put hnumber (Value.wellFormedAll_iff.2 (List.forall_mem_append.2 ⟨?_, ?_⟩))
  · exact Value.wellFormedAll_iff.1 (h.list number)
  · exact List.forall_mem_singleton.2 hv

theorem WellFormed.store {field : Field} {v : Value} (h : r.WellFormed) (hnumber : field.number < 2 ^ 32)
    (hv : v.WellFormed) : (r.store field v).WellFormed := by
  rw [Record.store]
  split
  · exact h.append hnumber hv
  · exact h.put hnumber hv

theorem WellFormed.stores {field : Field} (h : r.WellFormed) (hnumber : field.number < 2 ^ 32) {vs : List Value}
    (hvs : ∀ v ∈ vs, v.WellFormed) : (vs.foldl (·.store field ·) r).WellFormed :=
  List.foldlRecOn vs _ h fun _ hr v hv => hr.store hnumber (hvs v hv)

theorem Decodes.wellFormed {bytes : Bytes} {r' : Record} (h : Decodes type r bytes r') :
    r.WellFormed → r'.WellFormed :=
  h.invariant (fun _ r => r.WellFormed) (fun _ => trivial) fun hr _ hnumber hv => hr.store hnumber hv.wellFormed

/-- A record that is decoded is a map from numbers of 32 bits. -/
theorem wellFormed_of_decode {bytes : Bytes} (h : decode type bytes = .ok r) : r.WellFormed :=
  (decode_eq_ok_iff.1 h).wellFormed trivial

end Record

end SheetCompiler

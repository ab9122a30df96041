import SheetCompiler.Proofs.Record.Restriction
import SheetCompiler.Proofs.Wire.Decoded
import SheetCompiler.Proofs.Wire.RoundTrip

/-!
# Older types read what newer types read

Bytes that are decoded with a type are decoded with every older one, as the same record without what it holds for the
fields that the older type lacks. The two decoders go over the bytes side by side: where one reads an entry, the other
reads the same entry or passes over it, and both take the same bytes off the front.
-/

namespace SheetCompiler

/-! ### Entries -/

namespace Entry

variable {older newer : Message} {bytes rest : Bytes}

/-- Where the values of a field are read, packed or not, a word is, and reading it takes the same bytes. -/
theorem word_of_readWord {field : Field} {t : ValueType} {form : WireType} {vs : List Value}
    (h : readWord field t form bytes = .ok (vs, rest)) : ∃ word, form.read bytes = .ok (word, rest) := by
  rcases readWord_eq_ok h with ⟨⟨rfl, -⟩, -, packed, hread, -⟩ | ⟨rfl, v, hv, -⟩
  · exact ⟨packed, hread⟩
  · obtain ⟨word, hread, -⟩ := word_of_readValue hv
    exact ⟨word, hread⟩

theorem readWord_older {field field' : Field} (h : field.Older field') (t : ValueType) (form : WireType)
    (bytes : Bytes) : readWord field t form bytes = readWord field' t form bytes := by
  cases h
  rfl

/-- What is left of an entry for an older type: what is for a field that the type lacks is passed over. -/
def restrict (type : Message) : Entry → Entry
  | .unknown => .unknown
  | .values field vs =>
      match type.field? field.number with
      | none => .unknown
      | some field => .values field vs
  | .message field _ payload =>
      match type.field? field.number with
      | none => .unknown
      | some field =>
          match field.kind with
          | .message nested => .message field nested payload
          | .value _ => .unknown

/-- An older type reads what is left of the entry that the newer type reads, and takes the same bytes. -/
theorem read_older {entry : Entry} (h : older.Older newer) (hdistinct : newer.Distinct)
    (hread : read newer bytes = .ok (entry, rest)) : read older bytes = .ok (entry.restrict older, rest) := by
  refine read_eq_ok_iff.2 ?_
  cases read_eq_ok_iff.1 hread with
  | unknown htag hfield hword => exact .unknown htag (h.field?_none hdistinct hfield) hword
  | values htag hfield hkind hvs =>
      rcases h.field?_some hdistinct hfield with hnone | ⟨old, hold, hsame⟩
      · obtain ⟨word, hword⟩ := word_of_readWord hvs
        simp only [restrict, hnone]
        exact .unknown htag hnone hword
      · simp only [restrict, hold]
        rw [← hsame.number_eq] at htag hold
        exact .values htag hold (hsame.kind_value hkind) (readWord_older hsame _ _ _ ▸ hvs)
  | message htag hfield hkind hpayload =>
      rcases h.field?_some hdistinct hfield with hnone | ⟨old, hold, hsame⟩
      · simp only [restrict, hnone]
        exact .unknown htag hnone hpayload
      · obtain ⟨nested, hnested, -⟩ := hsame.kind_message hkind
        simp only [restrict, hold, hnested]
        rw [← hsame.number_eq] at htag hold
        exact .message htag hold hnested hpayload

end Entry

/-! ### Records -/

namespace Record

variable {older newer : Message} {r : Record} {number : Nat}

theorem restrict_store_none {field : Field} (hnone : older.field? field.number = none) (v : Value) :
    (r.store field v).restrict older = r.restrict older := by
  rw [store]
  split <;> exact restrict_put_none hnone _

theorem restrict_store_some {old field : Field} (hold : older.field? field.number = some old) (hsame : old.Older field)
    (h : r.WellFormed) (v : Value) :
    (r.store field v).restrict older = (r.restrict older).store old (v.restrict old.kind) := by
  rw [store, store, hsame.isRepeated_eq, hsame.number_eq]
  split
  · rw [append, append, restrict_put_some hold h, list_restrict hold, Content.restrict, Value.restrictAll_eq_map,
      List.map_append]
    rfl
  · exact restrict_put_some hold h _

theorem restrict_stores_none {field : Field} (hnone : older.field? field.number = none) (vs : List Value) :
    ∀ r : Record, (vs.foldl (·.store field ·) r).restrict older = r.restrict older := by
  induction vs with
  | nil => exact fun _ => rfl
  | cons v vs ih => exact fun r => (ih _).trans (restrict_store_none hnone v)

theorem restrict_stores_some {old field : Field} (hold : older.field? field.number = some old)
    (hsame : old.Older field) (hnumber : field.number < 2 ^ 32) {t : ValueType} (hkind : old.kind = .value t)
    {vs : List Value} (hvs : ∀ v ∈ vs, v.WellFormed) : ∀ {r : Record}, r.WellFormed →
      (vs.foldl (·.store field ·) r).restrict older = vs.foldl (·.store old ·) (r.restrict older) := by
  induction vs with
  | nil => exact fun _ => rfl
  | cons v vs ih =>
      obtain ⟨hv, hvs⟩ := List.forall_mem_cons.1 hvs
      intro r h
      rw [List.foldl_cons, List.foldl_cons, ih hvs (h.store hnumber hv), restrict_store_some hold hsame h, hkind,
        Value.restrict_value]

theorem Decodes.restrict {bytes : Bytes} {r' : Record} (h : Decodes newer r bytes r') :
    ∀ {older : Message}, older.Older newer → newer.Distinct → r.WellFormed →
      Decodes older (r.restrict older) bytes (r'.restrict older) := by
  induction h with
  | nil => exact fun _ _ _ => .nil
  | unknown hread _ ih =>
      intro older holder hdistinct hr
      exact .unknown (Entry.read_older holder hdistinct hread) (ih holder hdistinct hr)
  | @values newer r _ _ _ field vs hread _ ih =>
      intro older holder hdistinct hr
      obtain ⟨hfield, hnumber, t, hkind, hvs⟩ := Entry.suits_of_read hread
      have hformed : ∀ v ∈ vs, v.WellFormed := by
        intro v hv
        obtain ⟨word, hword⟩ := hvs v hv
        exact Value.wellFormed_of_fits (Value.fits_of_ofWord hword)
      have hentry := Entry.read_older holder hdistinct hread
      have hrest := ih holder hdistinct (hr.stores hnumber hformed)
      rcases holder.field?_some hdistinct hfield with hnone | ⟨old, hold, hsame⟩
      · simp only [Entry.restrict, hnone] at hentry
        rw [restrict_stores_none hnone] at hrest
        exact .unknown hentry hrest
      · simp only [Entry.restrict, hold] at hentry
        rw [restrict_stores_some hold hsame hnumber (hsame.kind_value hkind) hformed hr] at hrest
        exact .values hentry hrest
  | @message newer nested r _ sub _ _ payload field hread hsub _ ihsub ih =>
      intro older holder hdistinct hr
      obtain ⟨hfield, hnumber, hkind⟩ := Entry.suits_of_read hread
      have hformed : (Value.message sub).WellFormed := hsub.wellFormed trivial
      have hentry := Entry.read_older holder hdistinct hread
      have hrest := ih holder hdistinct (hr.store hnumber hformed)
      rcases holder.field?_some hdistinct hfield with hnone | ⟨old, hold, hsame⟩
      · simp only [Entry.restrict, hnone] at hentry
        rw [restrict_store_none hnone] at hrest
        exact .unknown hentry hrest
      · obtain ⟨oldNested, holdKind, hnested⟩ := hsame.kind_message hkind
        have hdistinctNested := hdistinct.kind hfield
        rw [hkind] at hdistinctNested
        simp only [Entry.restrict, hold, holdKind] at hentry
        rw [restrict_store_some hold hsame hr, holdKind, Value.restrict] at hrest
        exact .message hentry (ihsub hnested hdistinctNested trivial) hrest

/-- A type with fields deleted from it, or from the types of messages in it, decodes what the type decodes: it takes
the same bytes for each entry, whether it reads the entry or passes over it, and the record is the same without what
it holds for the deleted fields. -/
theorem decode_older (holder : older.Older newer) (hdistinct : newer.Distinct) (bytes : Bytes) :
    (∀ entry rest, Entry.read newer bytes = .ok (entry, rest) →
        Entry.read older bytes = .ok (entry.restrict older, rest))
      ∧ ∀ r, decode newer bytes = .ok r → decode older bytes = .ok (r.restrict older) := by
  constructor
  · exact fun entry rest hread => Entry.read_older holder hdistinct hread
  · intro r hdecode
    exact decode_eq_ok_iff.2 ((decode_eq_ok_iff.1 hdecode).restrict holder hdistinct trivial)

/-- The type of paths before they had steps, and their points a `y`. -/
def outlineType : Message :=
  ⟨"path", [⟨1, "name", .implicit, .value (.scalar .string)⟩,
    ⟨7, "points", .repeated, .message ⟨"point", [⟨1, "x", .implicit, .value (.scalar .int64)⟩]⟩⟩]⟩

/-- A step, which is not packed, and a point with a `y`. -/
theorem outlineType_decodes_path :
    decode outlineType [0x20, 2, 0x3A, 7, 0x08, 5, 0x15, 0, 0, 0, 0]
      = .ok ⟨[(7, .list [.message ⟨[(1, .single (.int 5))]⟩])]⟩ := by
  have holder : outlineType.Older pathType :=
    .mk _ (.keep (.mk _ _ _ (.value _)) (.delete _ (.keep (.mk _ _ _ (.message (.mk _ (.keep (.mk _ _ _ (.value _))
      (.delete _ .nil))))) .nil)))
  have hdistinct : pathType.Distinct := by
    simp [pathType, Message.Distinct, Field.DistinctAll, Field.Distinct, FieldKind.Distinct]
  have hdecodes : Decodes pathType empty [0x20, 2, 0x3A, 7, 0x08, 5, 0x15, 0, 0, 0, 0]
      ⟨[(4, .list [.int 1]),
        (7, .list [.message ⟨[(1, .single (.int 5)), (2, .single (.float (Single.toDouble ⟨0⟩)))]⟩])]⟩ :=
    .values rfl (.message rfl (.values rfl (.values rfl .nil)) .nil)
  exact (decode_older holder hdistinct _).2 _ (decode_eq_ok_iff.2 hdecodes)

end Record

end SheetCompiler

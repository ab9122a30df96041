import SheetCompiler.Proofs.Record.Canonical
import SheetCompiler.Proofs.Outcome
import SheetCompiler.Wire.Decode

/-!
# Decoding step by step

A decoder takes one entry after another off the front of its bytes, and the bytes of a message in an entry are decoded
in the same way. `Entry.Reads` says what the reader of an entry has done when it succeeds, and `Record.Decodes` is a
run of the decoder as a relation between what has been decoded before and what has been decoded in the end, with a rule
for each kind of entry. What holds of whatever is decoded is proved by induction on it.
-/

namespace SheetCompiler

variable {type : Message} {bytes rest : Bytes}

/-! ### Entries -/

namespace Entry

theorem read_nil : read type [] = .error (.varint .truncated) := rfl

/-- What the words behind a tag are for a field: a list that is packed into one, or one with a value. -/
theorem readWord_eq_ok {field : Field} {t : ValueType} {form : WireType} {vs : List Value}
    (h : readWord field t form bytes = .ok (vs, rest)) :
    ((form = .lengthDelimited ∧ t.wireType ≠ .lengthDelimited) ∧ field.isRepeated = true
        ∧ ∃ packed, WireType.readDelimited bytes = .ok (packed, rest) ∧ readPacked t packed = .ok vs)
      ∨ form = t.wireType ∧ ∃ v, readValue t bytes = .ok (v, rest) ∧ vs = [v] := by
  rw [readWord] at h
  by_cases hpacked : form = .lengthDelimited ∧ t.wireType ≠ .lengthDelimited
  · rw [if_pos hpacked] at h
    by_cases hrepeated : field.isRepeated = true
    · rw [if_pos hrepeated] at h
      obtain ⟨⟨packed, after⟩, hread, h⟩ := bind_eq_ok.1 h
      obtain ⟨_, hvs, h⟩ := bind_eq_ok.1 h
      cases h
      exact .inl ⟨hpacked, hrepeated, packed, hread, hvs⟩
    · rw [if_neg hrepeated] at h
      cases h
  · rw [if_neg hpacked] at h
    by_cases hform : form ≠ t.wireType
    · rw [if_pos hform] at h
      cases h
    · rw [if_neg hform] at h
      obtain ⟨⟨v, after⟩, hread, h⟩ := bind_eq_ok.1 h
      cases h
      exact .inr ⟨Decidable.not_not.1 hform, v, hread, rfl⟩

/-- Whether the reader of a type takes an entry off the front of bytes and leaves the rest. -/
inductive Reads (type : Message) (bytes : Bytes) : Entry → Bytes → Prop
  | unknown {number : Nat} {form : WireType} {after rest : Bytes} {word : form.Word}
      (htag : readTag bytes = .ok ((number, form), after)) (hfield : type.field? number = none)
      (hread : form.read after = .ok (word, rest)) : Reads type bytes .unknown rest
  | values {field : Field} {t : ValueType} {form : WireType} {after rest : Bytes} {vs : List Value}
      (htag : readTag bytes = .ok ((field.number, form), after)) (hfield : type.field? field.number = some field)
      (hkind : field.kind = .value t) (hread : readWord field t form after = .ok (vs, rest)) :
      Reads type bytes (.values field vs) rest
  | message {field : Field} {nested : Message} {after rest payload : Bytes}
      (htag : readTag bytes = .ok ((field.number, .lengthDelimited), after))
      (hfield : type.field? field.number = some field) (hkind : field.kind = .message nested)
      (hread : WireType.readDelimited after = .ok (payload, rest)) :
      Reads type bytes (.message field nested payload) rest

theorem read_eq_ok_iff {entry : Entry} : read type bytes = .ok (entry, rest) ↔ Reads type bytes entry rest := by
  constructor
  · intro h
    obtain ⟨⟨⟨number, form⟩, after⟩, htag, hentry⟩ := bind_eq_ok.1 h
    cases hfield : type.field? number with
    | none =>
        simp only [hfield] at hentry
        obtain ⟨_, hread, hentry⟩ := bind_eq_ok.1 hentry
        cases hentry
        exact .unknown htag hfield hread
    | some field =>
        obtain rfl := Message.number_of_field? hfield
        simp only [hfield] at hentry
        cases hkind : field.kind with
        | message nested =>
            simp only [hkind] at hentry
            by_cases hform : form ≠ .lengthDelimited
            · rw [if_pos hform] at hentry
              cases hentry
            · rw [if_neg hform] at hentry
              obtain rfl := Decidable.not_not.1 hform
              obtain ⟨_, hread, hentry⟩ := bind_eq_ok.1 hentry
              cases hentry
              exact .message htag hfield hkind hread
        | value t =>
            simp only [hkind] at hentry
            obtain ⟨_, hread, hentry⟩ := bind_eq_ok.1 hentry
            cases hentry
            exact .values htag hfield hkind hread
  · rintro (⟨htag, hfield, hread⟩ | ⟨htag, hfield, hkind, hread⟩ | ⟨htag, hfield, hkind, hread⟩)
    · simp only [read, htag, hfield, hread, bind, Except.bind, pure, Except.pure]
    · simp only [read, htag, hfield, hkind, hread, bind, Except.bind, pure, Except.pure]
    · simp only [read, htag, hfield, hkind, hread, bind, Except.bind, pure, Except.pure, ne_eq, not_true_eq_false,
        if_false]

end Entry

/-! ### Records -/

namespace Record

theorem decodeInto_nil (type : Message) (r : Record) : decodeInto type r [] = .ok r := by
  rw [decodeInto]

/-- The step of a decoder from one entry to the next. -/
theorem decodeInto_eq {entry : Entry} (h : Entry.read type bytes = .ok (entry, rest)) (r : Record) :
    decodeInto type r bytes = match entry with
      | .unknown => decodeInto type r rest
      | .values field vs => decodeInto type (vs.foldl (·.store field ·) r) rest
      | .message field nested payload =>
          decode nested payload >>= fun sub => decodeInto type (r.store field (.message sub)) rest := by
  cases bytes with
  | nil =>
      rw [Entry.read_nil] at h
      cases h
  | cons b bytes =>
      rw [decodeInto]
      split
      · next heq =>
        rw [h] at heq
        cases heq
      · next heq =>
        rw [h] at heq
        cases heq
        rfl
      · next heq =>
        rw [h] at heq
        cases heq
        rfl
      · next field nested payload _ heq =>
        rw [h] at heq
        cases heq
        simp only [decode]
        cases decodeInto nested empty payload <;> rfl

theorem decodeInto_values {field : Field} {vs : List Value} (h : Entry.read type bytes = .ok (.values field vs, rest))
    (r : Record) : decodeInto type r bytes = decodeInto type (vs.foldl (·.store field ·) r) rest :=
  decodeInto_eq h r

theorem decodeInto_message {field : Field} {nested : Message} {payload : Bytes} {sub : Record}
    (h : Entry.read type bytes = .ok (.message field nested payload, rest)) (hsub : decode nested payload = .ok sub)
    (r : Record) : decodeInto type r bytes = decodeInto type (r.store field (.message sub)) rest := by
  rw [decodeInto_eq h]
  simp only [hsub]
  rfl

/-- Whether a decoder of a type that has decoded the first record goes on through the bytes to the second. -/
inductive Decodes : Message → Record → Bytes → Record → Prop
  | nil {type : Message} {r : Record} : Decodes type r [] r
  | unknown {type : Message} {r r' : Record} {bytes rest : Bytes}
      (hread : Entry.read type bytes = .ok (.unknown, rest)) (hrest : Decodes type r rest r') :
      Decodes type r bytes r'
  | values {type : Message} {r r' : Record} {bytes rest : Bytes} {field : Field} {vs : List Value}
      (hread : Entry.read type bytes = .ok (.values field vs, rest))
      (hrest : Decodes type (vs.foldl (·.store field ·) r) rest r') : Decodes type r bytes r'
  | message {type nested : Message} {r r' sub : Record} {bytes rest payload : Bytes} {field : Field}
      (hread : Entry.read type bytes = .ok (.message field nested payload, rest))
      (hsub : Decodes nested empty payload sub) (hrest : Decodes type (r.store field (.message sub)) rest r') :
      Decodes type r bytes r'

theorem decodeInto_of_decodes {r r' : Record} (h : Decodes type r bytes r') : decodeInto type r bytes = .ok r' := by
  induction h with
  | nil => exact decodeInto_nil _ _
  | unknown hread _ ih => exact (decodeInto_eq hread _).trans ih
  | values hread _ ih => exact (decodeInto_values hread _).trans ih
  | message hread _ _ ihsub ih => exact (decodeInto_message hread ihsub _).trans ih

theorem decodes_of_decodeInto {r r' : Record} (h : decodeInto type r bytes = .ok r') : Decodes type r bytes r' := by
  fun_induction decodeInto type r bytes generalizing r' with
  | case1 =>
      cases h
      exact .nil
  | case2 => cases h
  | case3 type r b bytes rest hread ih => exact .unknown hread (ih h)
  | case4 type r b bytes field vs rest hread ih => exact .values hread (ih h)
  | case5 => cases h
  | case6 type r b bytes field nested payload rest hread sub hsub ihsub ih => exact .message hread (ihsub hsub) (ih h)

theorem decode_eq_ok_iff {r : Record} : decode type bytes = .ok r ↔ Decodes type empty bytes r :=
  ⟨decodes_of_decodeInto, decodeInto_of_decodes⟩

end Record

end SheetCompiler

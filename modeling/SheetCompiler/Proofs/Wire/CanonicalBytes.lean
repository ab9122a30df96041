import SheetCompiler.Proofs.Wire.Lengths
import SheetCompiler.Proofs.Wire.Locality
import SheetCompiler.Proofs.Wire.RoundTrip

/-!
# The canonical bytes of what is decoded

Bytes that a decoder accepts can say the same in many ways: numbers with bytes to spare, lists in parts, fields twice
or in any order, entries that the type does not have. What is decoded of them is a record that the encoder accepts, so
it has bytes of its own, at most twice as many, and these are canonical: they are decoded as the record without its
defaults, and that record has the same bytes.
-/

namespace SheetCompiler

/-! ### The bytes of an entry -/

theorem WireType.payload_of_readDelimited {bytes payload rest : Bytes}
    (h : readDelimited bytes = .ok (payload, rest)) : ∃ length, bytes = length ++ (payload ++ rest) := by
  obtain ⟨⟨n, after⟩, hvarint, htake⟩ := bind_eq_ok.1 h
  obtain ⟨front, rfl, -⟩ := readVarint_front _ _ _ hvarint
  change take n after = _ at htake
  rw [take] at htake
  split at htake
  · cases htake
  · cases htake
    exact ⟨front, by rw [List.take_append_drop]⟩

namespace Entry

variable {type : Message} {bytes rest : Bytes}

/-- Whether bytes are those of an entry: they are read as it, whatever stands behind them, and if it holds a message,
the bytes of that message are the last of them. -/
def Spans (type : Message) (part : Bytes) (entry : Entry) : Prop :=
  (∀ behind, read type (part ++ behind) = .ok (entry, behind))
    ∧ ∀ field nested payload, entry = .message field nested payload → payload <:+ part

theorem payload_of_read {field : Field} {nested : Message} {payload : Bytes}
    (h : read type bytes = .ok (.message field nested payload, rest)) : ∃ head, bytes = head ++ (payload ++ rest) := by
  cases read_eq_ok_iff.1 h with
  | message htag _ _ hread =>
      obtain ⟨tag, rfl, -⟩ := readTag_front _ _ _ htag
      obtain ⟨length, rfl⟩ := WireType.payload_of_readDelimited hread
      exact ⟨tag ++ length, (List.append_assoc ..).symm⟩

/-- What is read is read of the bytes of one entry. -/
theorem spans_of_read {entry : Entry} (h : read type bytes = .ok (entry, rest)) :
    ∃ part, bytes = part ++ rest ∧ Spans type part entry := by
  obtain ⟨part, rfl, hpart⟩ := read_front type _ _ _ h
  refine ⟨part, rfl, hpart, ?_⟩
  rintro field nested payload rfl
  have halone := hpart []
  rw [List.append_nil] at halone
  obtain ⟨head, hhead⟩ := payload_of_read halone
  exact ⟨head, by rw [hhead, List.append_nil]⟩

end Entry

namespace Record

variable {type : Message} {r : Record} {bytes : Bytes}

/-- The bytes that a decoder goes through fall into those of entries. -/
theorem Decodes.parts {r' : Record} (h : Decodes type r bytes r') :
    ∃ parts : List Bytes, parts.flatten = bytes ∧ ∀ part ∈ parts, ∃ entry, Entry.Spans type part entry := by
  have hstep {type : Message} {bytes rest : Bytes} {entry : Entry} (hread : Entry.read type bytes = .ok (entry, rest)) :
      (∃ parts : List Bytes, parts.flatten = rest ∧ ∀ part ∈ parts, ∃ entry, Entry.Spans type part entry) →
        ∃ parts : List Bytes, parts.flatten = bytes ∧ ∀ part ∈ parts, ∃ entry, Entry.Spans type part entry := by
    rintro ⟨parts, rfl, hparts⟩
    obtain ⟨part, rfl, hpart⟩ := Entry.spans_of_read hread
    exact ⟨part :: parts, rfl, List.forall_mem_cons.2 ⟨⟨entry, hpart⟩, hparts⟩⟩
  induction h with
  | nil => exact ⟨[], rfl, fun _ hpart => absurd hpart List.not_mem_nil⟩
  | unknown hread _ ih => exact hstep hread ih
  | values hread _ ih => exact hstep hread ih
  | message hread _ _ _ ih => exact hstep hread ih

/-! ### Canonical bytes -/

/-- The bytes of what is decoded of bytes. -/
def canonicalBytes (type : Message) (bytes : Bytes) : Except SheetError Bytes := do
  let r ← (decode type bytes).mapError .decode
  (r.encode type).mapError .mismatch

theorem canonicalBytes_of_decode (h : decode type bytes = .ok r) :
    canonicalBytes type bytes = (r.encode type).mapError .mismatch := by
  rw [canonicalBytes, h]
  rfl

/-- What is decoded is written, and decoded again without its defaults, which have no bytes. -/
theorem encode_decoded (h : decode type bytes = .ok r) :
    ∃ canonical, r.encode type = .ok canonical ∧ (r.withoutDefaults type).encode type = .ok canonical
      ∧ (canonical.length < 2 ^ 64 → decode type canonical = .ok (r.withoutDefaults type)) := by
  obtain ⟨canonical, hencode, hdecode⟩ := encode_decodes (conforms_of_decode h) (wellFormed_of_decode h)
  obtain ⟨hreread, hnormalise⟩ := reread_of_settled (settled_of_decode h)
  have hsame := encode_prune hencode
  exact ⟨canonical, hencode, hnormalise ▸ hsame, hreread ▸ hdecode⟩

/-- Bytes are refused as no record, or they fall into entries and are decoded as a record that conforms to the type.
That record is written with at most twice the bytes, what is written is decoded as the record without its defaults, and
writing what is decoded of canonical bytes changes nothing. No bytes in memory are `2 ^ 63` or more, so the lengths that
are written in front of messages are ones of 64 bits. -/
theorem canonicalBytes_spec (type : Message) (bytes : Bytes) :
    (∃ fault, decode type bytes = .error fault ∧ canonicalBytes type bytes = .error (.decode fault))
      ∨ ∃ r canonical, decode type bytes = .ok r
          ∧ (∃ parts : List Bytes, parts.flatten = bytes ∧ ∀ part ∈ parts, ∃ entry, Entry.Spans type part entry)
          ∧ r.Conforms type ∧ r.Settled type ∧ r.WellFormed
          ∧ r.encode type = .ok canonical ∧ canonicalBytes type bytes = .ok canonical
          ∧ canonical.length ≤ 2 * bytes.length
          ∧ (bytes.length < 2 ^ 63 → decode type canonical = .ok (r.withoutDefaults type)
              ∧ canonicalBytes type canonical = .ok canonical) := by
  cases h : decode type bytes with
  | error fault => exact .inl ⟨fault, rfl, by rw [canonicalBytes, h]; rfl⟩
  | ok r =>
      right
      obtain ⟨canonical, hencode, hsame, hdecode⟩ := encode_decoded h
      have hdouble := length_encode_of_decode h hencode
      refine ⟨r, canonical, rfl, (decode_eq_ok_iff.1 h).parts, conforms_of_decode h, settled_of_decode h,
        wellFormed_of_decode h, hencode, ?_, hdouble, fun hlength => ?_⟩
      · rw [canonicalBytes_of_decode h, hencode]
        rfl
      · have hreread := hdecode (by omega)
        refine ⟨hreread, ?_⟩
        rw [canonicalBytes_of_decode hreread, hsame]
        rfl

/-- An entry that paths do not have, and a step that is not packed and has a byte to spare. -/
theorem path_canonicalBytes : canonicalBytes pathType [0x28, 0, 0x20, 0x82, 0] = .ok [0x22, 1, 2]
    ∧ canonicalBytes pathType [0x22, 1, 2] = .ok [0x22, 1, 2] := by
  have hdecodes : Decodes pathType empty [0x28, 0, 0x20, 0x82, 0] ⟨[(4, .list [.int 1])]⟩ :=
    .unknown rfl (.values rfl .nil)
  have hread := decode_eq_ok_iff.2 hdecodes
  have hwritten : (encode pathType ⟨[(4, .list [.int 1])]⟩).toOption = some [0x22, 1, 2] := by decide +kernel
  rcases canonicalBytes_spec pathType [0x28, 0, 0x20, 0x82, 0] with
    ⟨fault, hfault, -⟩ | ⟨r, canonical, hdecode, -, -, -, -, hencode, hbytes, -, hagain⟩
  · cases hread.symm.trans hfault
  · cases hread.symm.trans hdecode
    cases (toOption_eq_some.1 hwritten).symm.trans hencode
    exact ⟨hbytes, (hagain (by decide)).2⟩

end Record

end SheetCompiler

import SheetCompiler.Proofs.Record.Text
import SheetCompiler.Proofs.Wire.Decoded
import SheetCompiler.Proofs.Wire.RoundTrip
import SheetCompiler.Proofs.Wire.WordLengths

/-!
# The text format shows what the wire format keeps

The two formats go through the entries of a record apart from each other, and have the same to say: an entry of a
conforming record has bytes exactly if it has lines. What the wire format loses of such a record, its defaults, its
empty lists and the payloads of what is not a number, the text never shows. So the text of a record that is written and
read again is the text that it had before.
-/

namespace SheetCompiler

variable {enums : EnumTable}

/-! ### Fields without bytes are those without lines -/

theorem WireType.entry_ne_nil (form : WireType) (number : Nat) (word : form.Word) : form.entry number word ≠ [] := by
  intro hnil
  obtain ⟨htag, -⟩ := List.append_eq_nil_iff.1 hnil
  have := Varint.length_write_pos (number * 8 + form.number)
  rw [tag] at htag
  rw [htag] at this
  exact absurd this (Nat.lt_irrefl 0)

theorem Value.encodeMessage_ne_nil {type nested : Message} {field : Field} {v : Value} {bytes : Bytes}
    (h : v.encodeMessage type field nested = .ok bytes) : bytes ≠ [] := by
  cases v
  case message r =>
    obtain ⟨payload, -, h⟩ := bind_eq_ok.1 h
    cases h
    exact WireType.entry_ne_nil .lengthDelimited field.number payload
  all_goals cases h

theorem Message.entries_ne_nil {type : Message} {field : Field} {t : ValueType} {vs : List Value} {bytes : Bytes}
    (hne : vs ≠ []) (h : type.entries field t vs = .ok bytes) : bytes ≠ [] := by
  cases vs with
  | nil => exact absurd rfl hne
  | cons v vs =>
      obtain ⟨word, -, h⟩ := bind_eq_ok.1 h
      obtain ⟨more, -, h⟩ := bind_eq_ok.1 h
      cases h
      exact List.append_ne_nil_of_left_ne_nil (t.wireType.entry_ne_nil field.number word) more

theorem Value.encodeMessages_ne_nil {type nested : Message} {field : Field} {vs : List Value} {bytes : Bytes}
    (hne : vs ≠ []) (h : Value.encodeMessages type field nested vs = .ok bytes) : bytes ≠ [] := by
  cases vs with
  | nil => exact absurd rfl hne
  | cons v vs =>
      obtain ⟨first, hfirst, h⟩ := bind_eq_ok.1 h
      obtain ⟨more, -, h⟩ := bind_eq_ok.1 h
      cases h
      exact List.append_ne_nil_of_left_ne_nil (Value.encodeMessage_ne_nil hfirst) more

namespace Content

variable {type : Message} {field : Field}

/-- A field that has something in the canonical form has bytes. -/
theorem encode_ne_nil {bytes : Bytes} :
    ∀ {content : Content}, content.encode type field = .ok bytes → content.leavesNoTrace field = false → bytes ≠ []
  | .single v, h, hkept => by
      have homits : (field.label == .implicit && v.isDefault) = false := omits_of_not_leavesNoTrace hkept
      rw [encode] at h
      cases hkind : field.kind with
      | message nested =>
          rw [hkind] at h
          exact Value.encodeMessage_ne_nil h
      | value t =>
          simp only [hkind, Message.encodeSingle, homits, Bool.false_eq_true, if_false] at h
          obtain ⟨word, -, h⟩ := bind_eq_ok.1 h
          cases h
          exact t.wireType.entry_ne_nil field.number word
  | .list vs, h, hkept => by
      have hne : vs ≠ [] := List.isEmpty_eq_false_iff.1 (Bool.or_eq_false_iff.1 hkept).2
      rw [encode] at h
      cases hkind : field.kind with
      | message nested =>
          rw [hkind] at h
          exact Value.encodeMessages_ne_nil hne h
      | value t =>
          simp only [hkind, Message.encodeList, List.isEmpty_eq_false_iff.2 hne, Bool.false_eq_true, if_false] at h
          split at h
          · exact Message.entries_ne_nil hne h
          · obtain ⟨packed, -, h⟩ := bind_eq_ok.1 h
            cases h
            exact WireType.entry_ne_nil .lengthDelimited field.number packed

theorem encode_eq_nil_iff {content : Content} (hconforms : content.Conforms field) :
    content.encode type field = .ok [] ↔ content.leavesNoTrace field = true := by
  refine ⟨fun h => ?_, encode_of_leavesNoTrace hconforms⟩
  cases hleaves : content.leavesNoTrace field with
  | true => rfl
  | false => exact absurd rfl (encode_ne_nil h hleaves)

end Content

theorem Value.lines_ne_nil {field : Field} {depth : Nat} {lines : List String} :
    ∀ {v : Value}, v.lines field enums depth = .ok lines → lines ≠ []
  | .message r, h => by
      rw [Value.lines] at h
      split at h
      · obtain ⟨inner, -, h⟩ := bind_eq_ok.1 h
        cases h
        exact List.cons_ne_nil _ _
      · cases h
        exact List.cons_ne_nil _ _
  | .int _, h | .uint _, h | .float _, h | .bool _, h | .string _, h | .bytes _, h | .enum _, h => by
      cases h
      exact List.cons_ne_nil _ _

namespace Content

variable {type : Message} {field : Field} {depth : Nat}

/-- A field that has something in the canonical form has lines. -/
theorem lines_ne_nil {lines : List String} :
    ∀ {content : Content}, content.lines field enums depth = .ok lines → content.leavesNoTrace field = false →
      lines ≠ []
  | .single _, h, _ => Value.lines_ne_nil h
  | .list [], _, hkept => absurd hkept nofun
  | .list (v :: vs), h, _ => by
      obtain ⟨first, hfirst, h⟩ := bind_eq_ok.1 h
      obtain ⟨more, -, h⟩ := bind_eq_ok.1 h
      cases h
      exact List.append_ne_nil_of_left_ne_nil (Value.lines_ne_nil hfirst) more

theorem linesAll_singleton_eq_nil_iff {number : Nat} {content : Content} (hfield : type.field? number = some field) :
    linesAll type enums depth [(number, content)] = .ok [] ↔ content.leavesNoTrace field = true := by
  have hlast (lines : List String) : (linesAll type enums depth [] >>= fun more => .ok (lines ++ more))
      = Except.ok lines := congrArg Except.ok (List.append_nil lines)
  rw [linesAll_cons hfield]
  simp only [hlast]
  constructor
  · intro h
    obtain ⟨lines, hlines, h⟩ := bind_eq_ok.1 h
    cases h
    cases hleaves : content.leavesNoTrace field with
    | true => rfl
    | false =>
        rw [omits_of_not_leavesNoTrace hleaves] at hlines
        exact absurd rfl (lines_ne_nil hlines hleaves)
  · intro hleaves
    rw [lines_of_leavesNoTrace hleaves]
    rfl

theorem encodeAll_singleton {number : Nat} (hfield : type.field? number = some field) (content : Content) :
    encodeAll type [(number, content)] = content.encode type field := by
  simp only [encodeAll, hfield]
  cases content.encode type field with
  | error e => rfl
  | ok bytes => exact congrArg Except.ok (List.append_nil bytes)

end Content

namespace Record

variable {type : Message} {r : Record}

/-- The records in a record of a type: itself, and the messages that it holds at every depth, each with its type. -/
inductive Holds (type : Message) (r : Record) : Message → Record → Prop
  | self : Holds type r type r
  | inside {outer nested : Message} {part sub : Record} {number : Nat} {content : Content} {field : Field}
      (h : Holds type r outer part) (hentry : (number, content) ∈ part.entries)
      (hfield : outer.field? number = some field) (hkind : field.kind = .message nested)
      (hsub : .message sub ∈ content.values) : Holds type r nested sub

/-- The messages that a conforming record holds conform to their types. -/
theorem Holds.conforms {nested : Message} {part : Record} (h : Holds type r nested part) (hconforms : r.Conforms type) :
    part.Conforms nested := by
  induction h with
  | self => exact hconforms
  | @inside outer nested part sub number content field _ hentry hfield hkind hsub ih =>
      obtain ⟨field', hfield', hcontent⟩ := conforms_iff.1 ih _ hentry
      cases hfield.symm.trans hfield'
      cases content with
      | single v =>
          obtain ⟨-, hv⟩ := hcontent
          rw [hkind, ← List.mem_singleton.1 hsub] at hv
          exact hv
      | list vs =>
          have hv := Value.conformAll_iff.1 hcontent.2 _ hsub
          rw [hkind] at hv
          exact hv

/-- Of a conforming record, an entry that has no bytes has no lines, and the other way round. -/
theorem encode_singleton_eq_nil_iff (hconforms : r.Conforms type) {number : Nat} {content : Content}
    (hentry : (number, content) ∈ r.entries) (depth : Nat) :
    encode type ⟨[(number, content)]⟩ = .ok [] ↔ lines type enums depth ⟨[(number, content)]⟩ = .ok [] := by
  obtain ⟨field, hfield, hcontent⟩ := conforms_iff.1 hconforms _ hentry
  rw [encode, lines, Content.encodeAll_singleton hfield, Content.encode_eq_nil_iff hcontent,
    Content.linesAll_singleton_eq_nil_iff hfield]

/-! ### Written and read again -/

/-- A record that conforms to its type is written in both formats, and both leave out the same entries of it and of the
messages in it, those that its canonical form lacks. What is read of its bytes has its text, whatever enums are known.
The length of bytes in memory is one of 64 bits. -/
theorem text_of_decoded (hconforms : r.Conforms type) (hformed : r.WellFormed) :
    (∀ nested part, Holds type r nested part → ∀ entry ∈ part.entries, ∀ enums depth,
        encode nested ⟨[entry]⟩ = .ok [] ↔ lines nested enums depth ⟨[entry]⟩ = .ok [])
      ∧ ∃ bytes, r.encode type = .ok bytes ∧ (r.normalise type).encode type = .ok bytes
        ∧ ∀ enums, ∃ text, r.toText type enums = .ok text ∧ (r.normalise type).toText type enums = .ok text
          ∧ (bytes.length < 2 ^ 64 → ∃ r', decode type bytes = .ok r' ∧ r'.toText type enums = .ok text) := by
  obtain ⟨bytes, hbytes, hread⟩ := encode_spec hconforms hformed
  refine ⟨fun nested part hpart (number, content) hentry enums depth =>
    encode_singleton_eq_nil_iff (hpart.conforms hconforms) hentry depth, bytes, hbytes, encode_prune hbytes,
    fun enums => ?_⟩
  obtain ⟨text, htext⟩ := toText_succeeds enums hconforms
  refine ⟨text, htext, toText_normalise.trans htext, fun hlength => ?_⟩
  obtain ⟨r', hdecode, hquiet⟩ := hread hlength
  exact ⟨r', hdecode, (toText_of_quiet_eq hquiet).trans htext⟩

end Record

/-- A type with an enum in an optional field, a list of texts and messages that hold a single. -/
def signalType : Message :=
  ⟨"signal", [⟨1, "id", .implicit, .value (.scalar .int32)⟩, ⟨2, "paint", .optional, .value (.enum "Color")⟩,
    ⟨3, "marks", .repeated, .value (.scalar .string)⟩, ⟨5, "readings", .repeated, .message ⟨"reading",
      [⟨1, "level", .implicit, .value (.scalar .float)⟩, ⟨2, "unit", .implicit, .value (.scalar .string)⟩]⟩⟩]⟩

/-- Two defaults and a list that are left out, an enum of zero that is not, a level that is no number and loses its
payload when it is narrowed, and a reading without entries. -/
def signal : Record :=
  ⟨[(1, .single (.int 0)), (2, .single (.enum 0)), (3, .list []),
    (5, .list [.message ⟨[(1, .single (.float ⟨0x7FF0000000000001⟩)), (2, .single (.string ""))]⟩, .message ⟨[]⟩])]⟩

theorem signal_text_of_decoded :
    ∃ r', Record.decode signalType [16, 0, 42, 5, 13, 0, 0, 192, 127, 42, 0] = .ok r'
      ∧ r'.toText signalType ⟨[("Color", [("red", 0)])]⟩
        = .ok "paint: red\nreadings \x7b\n  level: nan\n\x7d\nreadings \x7b\n\x7d\n" := by
  have hconforms : signal.Conforms signalType := by decide +kernel
  have hformed : signal.WellFormed := by
    simp [signal, Record.WellFormed, Content.WellFormedAll, Content.WellFormed, Value.WellFormedAll, Value.WellFormed]
  have hencode : (signal.encode signalType).toOption = some [16, 0, 42, 5, 13, 0, 0, 192, 127, 42, 0] := by
    decide +kernel
  have htext : (signal.toText signalType ⟨[("Color", [("red", 0)])]⟩).toOption
      = some "paint: red\nreadings \x7b\n  level: nan\n\x7d\nreadings \x7b\n\x7d\n" := by decide +kernel
  obtain ⟨-, bytes, hbytes, -, htexts⟩ := Record.text_of_decoded hconforms hformed
  cases (toOption_eq_some.1 hencode).symm.trans hbytes
  obtain ⟨text, hown, -, hread⟩ := htexts ⟨[("Color", [("red", 0)])]⟩
  cases (toOption_eq_some.1 htext).symm.trans hown
  exact hread (by decide)

end SheetCompiler

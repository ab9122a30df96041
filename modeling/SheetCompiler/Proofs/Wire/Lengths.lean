import SheetCompiler.Proofs.Record.Entries
import SheetCompiler.Proofs.Record.Written
import SheetCompiler.Proofs.Wire.Decoded
import SheetCompiler.Proofs.Wire.WordLengths

/-!
# What is decoded is written with at most twice the bytes

Every entry that a decoder takes in makes the record longer in the wire format by at most twice its own bytes. For a
value it is the word that counts. A list that is packed has one tag and one length for all values, and the length of
two parts takes no more bytes than the lengths of both. What is set in a field takes the place of what was there.
-/

namespace SheetCompiler

namespace Message

variable {type : Message} {field : Field} {t : ValueType}

theorem word?_of_word {v : Value} {word : t.wireType.Word} (h : type.word field t v = .ok word) :
    v.word? t = some word := by
  rw [Message.word] at h
  split at h
  · next heq =>
    cases h
    exact heq
  · cases h

end Message

/-! ### Entries -/

namespace WireType

variable {bytes after rest payload : Bytes} {number : Nat} {form : WireType}

/-- A byte string of twice the length at most is written with twice the bytes at most. -/
theorem length_entry_of_readDelimited (htag : Entry.readTag bytes = .ok ((number, form), after))
    (h : readDelimited after = .ok (payload, rest)) {written : Bytes} (hwritten : written.length ≤ 2 * payload.length) :
    (WireType.lengthDelimited.entry number written).length + 2 * rest.length ≤ 2 * bytes.length := by
  have hfront := Entry.length_tag_of_readTag htag .lengthDelimited
  have hpayload := length_delimit_of_readDelimited h
  have hlength := Nat.le_trans (Varint.length_write_mono hwritten) (Varint.length_write_two_mul_le _)
  rw [delimit, List.length_append] at hpayload
  change (_ ++ (Varint.write written.length ++ written)).length + _ ≤ _
  rw [List.length_append, List.length_append]
  omega

theorem length_write_lt (hpacks : form ≠ .lengthDelimited) (word : form.Word) : (form.write word).length < 0x80 := by
  cases form with
  | varint =>
      have hten : (Varint.write (UInt64.toNat word)).length ≤ 10 :=
        (Varint.length_write_le_iff (by decide) _).2 (Nat.lt_trans (UInt64.toNat_lt word) (by decide))
      exact Nat.lt_of_le_of_lt hten (by decide)
  | fixed64 =>
      rw [write, length_littleEndian]
      decide
  | lengthDelimited => exact absurd rfl hpacks
  | fixed32 =>
      rw [write, length_littleEndian]
      decide

/-- A word that is packed has a byte for its length, for which the tag in front of it makes up. -/
theorem length_entry_packed (hpacks : form ≠ .lengthDelimited) (number : Nat) (word : form.Word) :
    (WireType.lengthDelimited.entry number (form.write word)).length
      ≤ (form.tag number).length + (form.entry number word).length := by
  have htag := length_tag_le .lengthDelimited form number
  have hpos : 0 < (form.tag number).length := Varint.length_write_pos _
  have hone : (Varint.write (form.write word).length).length ≤ 1 :=
    (Varint.length_write_le_iff Nat.one_pos _).2 (length_write_lt hpacks word)
  change (_ ++ (Varint.write (form.write word).length ++ form.write word)).length ≤ _
  rw [entry, List.length_append, List.length_append, List.length_append]
  omega

end WireType

namespace Entry

variable {type : Message} {field : Field} {t : ValueType} {bytes after rest : Bytes}

theorem length_write_of_readValue {v : Value} {word : t.wireType.Word} (h : readValue t bytes = .ok (v, rest))
    (hword : type.word field t v = .ok word) :
    (t.wireType.write word).length + 2 * rest.length ≤ 2 * bytes.length := by
  obtain ⟨found, hread, hfound⟩ := word_of_readValue h
  have hlength := WireType.length_write_of_read hread
  have hdouble := Value.length_write_word? hfound (Message.word?_of_word hword)
  omega

theorem length_words_of_readPacked {packed : Bytes} {vs : List Value} (h : readPacked t packed = .ok vs) :
    ∀ {words : Bytes}, type.words field t vs = .ok words → words.length ≤ 2 * packed.length := by
  fun_induction readPacked t packed generalizing vs with
  | case1 =>
      cases h
      intro _ hwords
      cases hwords
      exact Nat.zero_le _
  | case2 => cases h
  | case3 b bytes v rest hread ih =>
      obtain ⟨vs, hvs, h⟩ := bind_eq_ok.1 h
      cases h
      intro words hwords
      obtain ⟨word, hword, hwords⟩ := bind_eq_ok.1 hwords
      obtain ⟨more, hmore, hwords⟩ := bind_eq_ok.1 hwords
      cases hwords
      have hfirst := length_write_of_readValue hread hword
      have hothers := ih hvs hmore
      rw [List.length_append]
      omega

end Entry

/-! ### Fields -/

namespace Message

variable {type : Message} {field : Field} {t : ValueType}

theorem encodeList_packed (hpacks : t.wireType ≠ .lengthDelimited) {vs : List Value} (hvs : vs ≠ []) {words : Bytes}
    (h : type.words field t vs = .ok words) :
    type.encodeList field t vs = .ok (WireType.lengthDelimited.entry field.number words) := by
  rw [encodeList, if_neg (by simpa using hvs), if_neg hpacks, h]
  rfl

/-- Words that go on a packed list take no more bytes than they do in a list of their own. -/
theorem encodeList_append_packed (hpacks : t.wireType ≠ .lengthDelimited) {vs ws : List Value} {old words : Bytes}
    (h : type.encodeList field t vs = .ok old) (hwords : type.words field t ws = .ok words) :
    ∃ new, type.encodeList field t (vs ++ ws) = .ok new
      ∧ new.length ≤ old.length + (WireType.lengthDelimited.entry field.number words).length := by
  by_cases hws : ws = []
  · subst hws
    exact ⟨old, by rw [List.append_nil, h], Nat.le_add_right _ _⟩
  by_cases hvs : vs = []
  · subst hvs
    exact ⟨_, encodeList_packed hpacks hws hwords, Nat.le_add_left _ _⟩
  rw [encodeList, if_neg (by simpa using hvs), if_neg hpacks] at h
  obtain ⟨front, hfront, h⟩ := bind_eq_ok.1 h
  cases h
  refine ⟨_, encodeList_packed hpacks (List.append_ne_nil_of_left_ne_nil hvs ws) (words_append hfront hwords), ?_⟩
  have hlength := Varint.length_write_add_le front.length words.length
  simp only [WireType.entry, WireType.write, WireType.delimit, List.length_append]
  omega

theorem encodeList_append_entries (hpacks : t.wireType = .lengthDelimited) {vs ws : List Value} {old more : Bytes}
    (h : type.encodeList field t vs = .ok old) (hmore : type.entries field t ws = .ok more) :
    type.encodeList field t (vs ++ ws) = .ok (old ++ more) := by
  have hlist (vs : List Value) : type.encodeList field t vs = type.entries field t vs := by
    rw [encodeList]
    split
    · next hempty =>
      obtain rfl := List.isEmpty_iff.1 hempty
      rfl
    · rfl
  rw [hlist] at h ⊢
  exact entries_append h hmore

end Message

namespace Content

/-- Whether values that are stored in a field make what is written of it at most `most` bytes longer. -/
inductive Adds (type : Message) (field : Field) (most : Nat) : List Value → Prop
  | list {vs : List Value} (hrepeated : field.isRepeated = true) (h : ∀ {before : List Value} {old : Bytes},
      encode type field (.list before) = .ok old →
        ∃ new, encode type field (.list (before ++ vs)) = .ok new ∧ new.length ≤ old.length + most) :
      Adds type field most vs
  | single {v : Value} {new : Bytes} (hsingle : ¬field.isRepeated = true)
      (hnew : encode type field (.single v) = .ok new) (hlength : new.length ≤ most) : Adds type field most [v]

variable {type nested : Message} {field : Field} {t : ValueType}

theorem Adds.mono {most more : Nat} {vs : List Value} (h : Adds type field most vs) (hle : most ≤ more) :
    Adds type field more vs := by
  cases h with
  | list hrepeated h =>
      refine .list hrepeated fun hold => ?_
      obtain ⟨new, hnew, hlength⟩ := h hold
      exact ⟨new, hnew, by omega⟩
  | single hsingle hnew hlength => exact .single hsingle hnew (by omega)

theorem encode_list_value (hkind : field.kind = .value t) (vs : List Value) :
    encode type field (.list vs) = type.encodeList field t vs := by
  rw [encode]
  simp only [hkind]

theorem encode_list_message (hkind : field.kind = .message nested) (vs : List Value) :
    encode type field (.list vs) = Value.encodeMessages type field nested vs := by
  rw [encode]
  simp only [hkind]

theorem adds_packed (hkind : field.kind = .value t) (hrepeated : field.isRepeated = true)
    (hpacks : t.wireType ≠ .lengthDelimited) {vs : List Value} {words : Bytes}
    (h : type.words field t vs = .ok words) :
    Adds type field (WireType.lengthDelimited.entry field.number words).length vs := by
  refine .list hrepeated fun {before old} hold => ?_
  rw [encode_list_value hkind] at hold ⊢
  exact Message.encodeList_append_packed hpacks hold h

theorem adds_word (hkind : field.kind = .value t) {v : Value} {word : t.wireType.Word}
    (hword : type.word field t v = .ok word) :
    Adds type field ((t.wireType.tag field.number).length + (t.wireType.entry field.number word).length) [v] := by
  by_cases hrepeated : field.isRepeated = true
  · by_cases hpacks : t.wireType = .lengthDelimited
    · have hentries : type.entries field t [v] = .ok (t.wireType.entry field.number word ++ []) := by
        rw [Message.entries, hword]
        rfl
      refine .list hrepeated fun {before old} hold => ?_
      rw [encode_list_value hkind] at hold ⊢
      refine ⟨_, Message.encodeList_append_entries hpacks hold hentries, ?_⟩
      rw [List.append_nil, List.length_append]
      omega
    · have hwords : type.words field t [v] = .ok (t.wireType.write word ++ []) := by
        rw [Message.words, hword]
        rfl
      rw [List.append_nil] at hwords
      exact (adds_packed hkind hrepeated hpacks hwords).mono (WireType.length_entry_packed hpacks field.number word)
  · by_cases homits : (field.label == .implicit && v.isDefault) = true
    · have hnone : encode type field (.single v) = .ok [] := by
        rw [encode]
        simp only [hkind, Message.encodeSingle, homits, if_true]
      exact .single hrepeated hnone (Nat.zero_le _)
    · have hentry : encode type field (.single v) = .ok (t.wireType.entry field.number word) := by
        rw [encode]
        simp only [hkind, Message.encodeSingle, if_neg homits, hword]
        rfl
      exact .single hrepeated hentry (Nat.le_add_left _ _)

theorem adds_message (hkind : field.kind = .message nested) {r : Record} {payload : Bytes}
    (hpayload : r.encode nested = .ok payload) :
    Adds type field (WireType.lengthDelimited.entry field.number payload).length [.message r] := by
  have hmessage : Value.encodeMessage type field nested (.message r)
      = .ok (WireType.lengthDelimited.entry field.number payload) := by
    rw [Value.encodeMessage, hpayload]
    rfl
  by_cases hrepeated : field.isRepeated = true
  · have hmessages : Value.encodeMessages type field nested [.message r]
        = .ok (WireType.lengthDelimited.entry field.number payload ++ []) := by
      rw [Value.encodeMessages, hmessage]
      rfl
    refine .list hrepeated fun {before old} hold => ?_
    rw [encode_list_message hkind] at hold ⊢
    refine ⟨_, Value.encodeMessages_append hold hmessages, Nat.le_of_eq ?_⟩
    rw [List.append_nil, List.length_append]
  · refine .single hrepeated ?_ (Nat.le_refl _)
    rw [encode]
    simp only [hkind, hmessage]

end Content

namespace Entry

variable {type nested : Message} {field : Field} {bytes rest payload : Bytes}

/-- The values of an entry are written with at most twice its bytes. -/
theorem adds_of_read_values {vs : List Value} (h : read type bytes = .ok (.values field vs, rest)) :
    ∃ most, Content.Adds type field most vs ∧ most + 2 * rest.length ≤ 2 * bytes.length := by
  cases read_eq_ok_iff.1 h with
  | @values _ t form after _ _ htag _ hkind hread =>
      have hfits : ∀ v ∈ vs, v.Fits t := by
        intro v hv
        obtain ⟨word, hword⟩ := words_of_readWord hread v hv
        exact Value.fits_of_ofWord hword
      rcases readWord_eq_ok hread with ⟨⟨rfl, hpacks⟩, hrepeated, packed, hdelimited, hvs⟩ | ⟨rfl, v, hv, rfl⟩
      · obtain ⟨words, hwords⟩ := type.words_succeed field hfits
        exact ⟨_, Content.adds_packed hkind hrepeated hpacks hwords,
          WireType.length_entry_of_readDelimited htag hdelimited (length_words_of_readPacked hvs hwords)⟩
      · obtain ⟨word, hword⟩ := type.word_succeeds field (hfits v (List.mem_singleton_self v))
        refine ⟨_, Content.adds_word hkind hword, ?_⟩
        have hfront := length_tag_of_readTag htag t.wireType
        have hlength := length_write_of_readValue hv hword
        rw [WireType.entry, List.length_append]
        omega

/-- A message that is written with at most twice its bytes makes an entry of at most twice the bytes. -/
theorem adds_of_read_message (h : read type bytes = .ok (.message field nested payload, rest)) {sub : Record}
    {written : Bytes} (hsub : sub.encode nested = .ok written) (hlength : written.length ≤ 2 * payload.length) :
    ∃ most, Content.Adds type field most [.message sub] ∧ most + 2 * rest.length ≤ 2 * bytes.length := by
  cases read_eq_ok_iff.1 h with
  | message htag _ hkind hread =>
      exact ⟨_, Content.adds_message hkind hsub, WireType.length_entry_of_readDelimited htag hread hlength⟩

end Entry

/-! ### Records -/

namespace Content

variable {type : Message} {field : Field} {number : Nat}

/-- The bytes of what a record holds for a field, if it holds anything. -/
def encodeHeld (type : Message) (field : Field) : Option Content → Except Mismatch Bytes
  | none => .ok []
  | some content => encode type field content

/-- The bytes of what is put in a field take the place of those of what was there. -/
theorem encodeAll_insert (hfield : type.field? number = some field) {content : Content} {new : Bytes}
    (hnew : encode type field content = .ok new) : ∀ {least : Nat} {entries : List (Nat × Content)} {bytes : Bytes},
      WellFormedAll least entries → encodeAll type entries = .ok bytes →
        ∃ front old behind, bytes = front ++ (old ++ behind)
          ∧ encodeHeld type field (Record.find? number entries) = .ok old
          ∧ encodeAll type (Record.insert number content entries) = .ok (front ++ (new ++ behind))
  | _, [], _, _, h => by
      cases h
      refine ⟨[], [], [], rfl, rfl, ?_⟩
      simp only [Record.insert, encodeAll, hfield, hnew]
      rfl
  | _, (n, held) :: entries, bytes, ⟨hleast, hn, hheld, hentries⟩, h => by
      rw [Record.insert, Record.find?]
      by_cases hbefore : number < n
      · rw [if_pos hbefore, if_neg (by omega), hentries.find?_eq_none (by omega)]
        refine ⟨[], [], bytes, rfl, rfl, ?_⟩
        rw [encodeAll]
        simp only [hfield, hnew, h]
        rfl
      rw [if_neg hbefore]
      by_cases hsame : number = n
      · subst hsame
        rw [encodeAll] at h
        simp only [hfield] at h
        obtain ⟨old, hold, h⟩ := bind_eq_ok.1 h
        obtain ⟨behind, hbehind, h⟩ := bind_eq_ok.1 h
        cases h
        rw [if_pos rfl, if_pos rfl]
        refine ⟨[], old, behind, rfl, hold, ?_⟩
        simp only [encodeAll, hfield, hnew, hbehind]
        rfl
      · rw [encodeAll] at h
        cases hother : type.field? n with
        | none =>
            simp only [hother] at h
            cases h
        | some other =>
            simp only [hother] at h
            obtain ⟨first, hfirst, h⟩ := bind_eq_ok.1 h
            obtain ⟨rest, hrest, h⟩ := bind_eq_ok.1 h
            cases h
            obtain ⟨front, old, behind, rfl, hold, hput⟩ := encodeAll_insert hfield hnew hentries hrest
            rw [if_neg hsame, if_neg (Ne.symm hsame)]
            refine ⟨first ++ front, old, behind, (List.append_assoc ..).symm, hold, ?_⟩
            simp only [encodeAll, hother, hfirst, hput, List.append_assoc]
            rfl

end Content

namespace Record

variable {type : Message} {field : Field} {r : Record} {bytes new : Bytes}

theorem encode_put {content : Content} (hformed : r.WellFormed) (hfield : type.field? field.number = some field)
    (hnew : content.encode type field = .ok new) (h : r.encode type = .ok bytes) :
    ∃ front old behind, bytes = front ++ (old ++ behind)
      ∧ Content.encodeHeld type field (r.get? field.number) = .ok old
      ∧ (r.put field.number content).encode type = .ok (front ++ (new ++ behind)) := by
  cases r
  exact Content.encodeAll_insert hfield hnew hformed h

/-- A repeated field that holds nothing has the bytes of a list without values. -/
theorem encodeHeld_eq_encode_list (h : r.Conforms type) (hfield : type.field? field.number = some field)
    (hrepeated : field.label = .repeated) : Content.encodeHeld type field (r.get? field.number)
      = Content.encode type field (.list (r.list field.number)) := by
  rw [Record.list]
  cases hget : r.get? field.number with
  | none =>
      rw [Content.encodeHeld, Content.encode]
      cases field.kind <;> rfl
  | some content =>
      cases content with
      | list vs => rfl
      | single v =>
          obtain ⟨field', hfield', hcontent⟩ := conforms_iff.1 h _ (mem_of_find? hget)
          cases hfield.symm.trans hfield'
          exact absurd hrepeated hcontent.1

theorem foldl_append (hrepeated : field.isRepeated = true) {vs : List Value} (hvs : vs ≠ []) (r : Record) :
    vs.foldl (·.store field ·) r = r.put field.number (.list (r.list field.number ++ vs)) := by
  have hstore : (fun (r : Record) v => r.store field v) = fun r v => r.append field.number v :=
    funext fun _ => funext fun _ => if_pos hrepeated
  rw [hstore]
  exact foldl_append_eq_put hvs field.number r

/-- What is stored in a record makes it longer by no more than it adds to the field. -/
theorem encode_stores {most : Nat} {vs : List Value} (hconforms : r.Conforms type) (hformed : r.WellFormed)
    (hfield : type.field? field.number = some field) (hadds : Content.Adds type field most vs)
    (h : r.encode type = .ok bytes) :
    ∃ more, (vs.foldl (·.store field ·) r).encode type = .ok more ∧ more.length ≤ bytes.length + most := by
  cases hadds with
  | list hrepeated hadds =>
      by_cases hvs : vs = []
      · subst hvs
        exact ⟨bytes, h, Nat.le_add_right _ _⟩
      have hlabel : field.label = .repeated := by simpa [Field.isRepeated] using hrepeated
      obtain ⟨old, hold⟩ := Content.encode_succeeds type (hconforms.list hfield hlabel)
      obtain ⟨new, hnew, hlength⟩ := hadds hold
      obtain ⟨front, old', behind, rfl, hheld, hput⟩ := encode_put hformed hfield hnew h
      rw [encodeHeld_eq_encode_list hconforms hfield hlabel] at hheld
      cases hold.symm.trans hheld
      refine ⟨_, by rw [foldl_append hrepeated hvs, hput], ?_⟩
      simp only [List.length_append]
      omega
  | @single v new hsingle hnew hlength =>
      have hstore : r.store field v = r.put field.number (.single v) := if_neg hsingle
      obtain ⟨front, old, behind, rfl, -, hput⟩ := encode_put hformed hfield hnew h
      refine ⟨_, by rw [List.foldl_cons, List.foldl_nil, hstore, hput], ?_⟩
      simp only [List.length_append]
      omega

/-- Going through bytes, a decoder makes a record longer by at most twice as many. -/
theorem Decodes.length_encode {r' : Record} (h : Decodes type r bytes r') :
    r.Conforms type → r.WellFormed → ∀ {before : Bytes}, r.encode type = .ok before →
      ∃ after, r'.encode type = .ok after ∧ after.length ≤ before.length + 2 * bytes.length := by
  induction h with
  | nil => exact fun _ _ before h => ⟨before, h, Nat.le_add_right _ _⟩
  | unknown hread _ ih =>
      intro hconforms hformed before h
      obtain ⟨after, hafter, hlength⟩ := ih hconforms hformed h
      have hlt := (Entry.read_length_lt hread).1
      exact ⟨after, hafter, by omega⟩
  | @values _ _ _ _ _ _ vs hread _ ih =>
      intro hconforms hformed before h
      obtain ⟨hfield, hnumber, t, hkind, hvs⟩ := Entry.suits_of_read hread
      obtain ⟨most, hadds, hmost⟩ := Entry.adds_of_read_values hread
      have hfits : ∀ v ∈ vs, v.Fits t := by
        intro v hv
        obtain ⟨word, hword⟩ := hvs v hv
        exact Value.fits_of_ofWord hword
      obtain ⟨middle, hmiddle, hstored⟩ := encode_stores hconforms hformed hfield hadds h
      obtain ⟨after, hafter, hlength⟩ := ih
        (hconforms.stores hfield fun v hv => hkind ▸ Value.conforms_value.2 (hfits v hv))
        (hformed.stores hnumber fun v hv => Value.wellFormed_of_fits (hfits v hv)) hmiddle
      exact ⟨after, hafter, by omega⟩
  | @message _ nested _ _ sub _ _ _ _ hread hsub _ ihsub ih =>
      intro hconforms hformed before h
      obtain ⟨hfield, hnumber, hkind⟩ := Entry.suits_of_read hread
      obtain ⟨written, hwritten, hsublength⟩ := ihsub trivial trivial (rfl : empty.encode nested = .ok [])
      obtain ⟨most, hadds, hmost⟩ := Entry.adds_of_read_message hread hwritten (by simpa using hsublength)
      obtain ⟨middle, hmiddle, hstored⟩ := encode_stores hconforms hformed hfield hadds h
      have hsubconforms : sub.Conforms nested := conforms_of_decode (decode_eq_ok_iff.2 hsub)
      obtain ⟨after, hafter, hlength⟩ := ih (hconforms.store hfield (hkind ▸ hsubconforms))
        (hformed.store hnumber (hsub.wellFormed trivial)) hmiddle
      exact ⟨after, hafter, by omega⟩

/-- What is decoded of bytes is written with at most twice as many. -/
theorem length_encode_of_decode {r : Record} {canonical : Bytes} (h : decode type bytes = .ok r)
    (hencode : r.encode type = .ok canonical) : canonical.length ≤ 2 * bytes.length := by
  obtain ⟨written, hwritten, hlength⟩ := (decode_eq_ok_iff.1 h).length_encode trivial trivial
    (rfl : empty.encode type = .ok [])
  cases hencode.symm.trans hwritten
  rwa [List.length_nil, Nat.zero_add] at hlength

/-- A negative number of 32 bits in five bytes, alone in a list, is written with ten, and the bound is reached. -/
example : let type : Message := ⟨"offsets", [⟨1, "by", .repeated, .value (.scalar .int32)⟩]⟩
    (decode type [0x08, 255, 255, 255, 255, 15]).toOption.bind (fun r => (r.encode type).toOption)
      = some [0x0A, 10, 255, 255, 255, 255, 255, 255, 255, 255, 255, 1] := by
  decide +kernel

end Record

end SheetCompiler

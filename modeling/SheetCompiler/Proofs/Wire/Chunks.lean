import SheetCompiler.Proofs.Wire.Concatenation
import SheetCompiler.Proofs.Wire.RoundTrip

/-!
# Lists in chunks

A list of numbers need not stand in one place. It may come in chunks, each of them packed behind one tag or with a tag
for every value, and entries of other fields may stand between the chunks. A decoder puts the chunks together in their
order, and makes of the other entries what it makes of them alone.

The proof goes chunk by chunk. Bytes behind each other are decoded as joint records, so it is enough to know of each
chunk by itself which list it is decoded as, and that joining keeps the list apart from the other fields.
-/

namespace SheetCompiler

/-- A part of the bytes of a message: values of one field, packed or each with a tag, or something between them. -/
inductive Chunk where
  | packed (values : List Value)
  | tagged (values : List Value)
  | between (bytes : Bytes)

namespace Chunk

def values : Chunk → List Value
  | .packed vs | .tagged vs => vs
  | .between _ => []

def others : Chunk → Bytes
  | .between bytes => bytes
  | .packed _ | .tagged _ => []

/-- The bytes of a chunk, the values being those of a field of a type. -/
def write (type : Message) (field : Field) (t : ValueType) : Chunk → Except Mismatch Bytes
  | .packed vs => do return WireType.lengthDelimited.entry field.number (← type.words field t vs)
  | .tagged vs => type.entries field t vs
  | .between bytes => .ok bytes

def writeAll (type : Message) (field : Field) (t : ValueType) : List Chunk → Except Mismatch Bytes
  | [] => .ok []
  | chunk :: chunks => do
      let bytes ← chunk.write type field t
      return bytes ++ (← writeAll type field t chunks)

end Chunk

namespace Record

variable {type : Message} {r s r' s' : Record} {number : Nat} {vs ws : List Value}

/-- Whether bytes are complete entries of a message, none of them of the field with a number. -/
inductive Apart (type : Message) (number : Nat) : Bytes → Prop
  | nil : Apart type number []
  | unknown {bytes rest : Bytes} (hread : Entry.read type bytes = .ok (.unknown, rest))
      (hrest : Apart type number rest) : Apart type number bytes
  | values {bytes rest : Bytes} {other : Field} {vs : List Value}
      (hread : Entry.read type bytes = .ok (.values other vs, rest)) (hother : other.number ≠ number)
      (hrest : Apart type number rest) : Apart type number bytes
  | message {bytes rest payload : Bytes} {other : Field} {nested : Message} {sub : Record}
      (hread : Entry.read type bytes = .ok (.message other nested payload, rest)) (hother : other.number ≠ number)
      (hsub : decode nested payload = .ok sub) (hrest : Apart type number rest) : Apart type number bytes

theorem get?_store_of_ne {field : Field} (h : field.number ≠ number) (r : Record) (v : Value) :
    (r.store field v).get? number = r.get? number := by
  rw [store]
  split
  · exact (get?_put ..).trans (if_neg h.symm)
  · exact (get?_put ..).trans (if_neg h.symm)

theorem get?_stores_of_ne {field : Field} (h : field.number ≠ number) (r : Record) (vs : List Value) :
    (vs.foldl (·.store field ·) r).get? number = r.get? number := by
  induction vs generalizing r with
  | nil => rfl
  | cons v vs ih => exact (ih _).trans (get?_store_of_ne h r v)

/-- Entries of other fields are decoded, whatever was decoded before, and leave the field as it was. -/
theorem Apart.decodes {bytes : Bytes} (h : Apart type number bytes) :
    ∀ r : Record, ∃ r', Decodes type r bytes r' ∧ r'.get? number = r.get? number := by
  induction h with
  | nil => exact fun r => ⟨r, .nil, rfl⟩
  | unknown hread _ ih =>
      intro r
      obtain ⟨r', hr', hget⟩ := ih r
      exact ⟨r', .unknown hread hr', hget⟩
  | @values _ _ other vs hread hother _ ih =>
      intro r
      obtain ⟨r', hr', hget⟩ := ih (vs.foldl (·.store other ·) r)
      exact ⟨r', .values hread hr', hget.trans (get?_stores_of_ne hother r vs)⟩
  | @message _ _ _ other _ sub hread hother hsub _ ih =>
      intro r
      obtain ⟨r', hr', hget⟩ := ih (r.store other (.message sub))
      exact ⟨r', .message hread (decode_eq_ok_iff.1 hsub) hr', hget.trans (get?_store_of_ne hother r _)⟩

/-- Whether a record is another one with a list in a field that the other one lacks. -/
structure Adjoins (number : Nat) (s : Record) (vs : List Value) (r : Record) : Prop where
  here : r.get? number = Content.ofList vs
  lacks : s.get? number = none
  others : ∀ other ≠ number, r.get? other = s.get? other

theorem adjoins_extend (number : Nat) (vs : List Value) :
    Adjoins number empty vs (empty.extend number (Content.ofList vs)) := by
  refine ⟨(below_empty number).get?_extend _, rfl, ?_⟩
  intro other hother
  cases vs with
  | nil => rfl
  | cons v vs => exact if_neg hother.symm

theorem joined_congr (hr : r.get? number = r'.get? number) (hs : s.get? number = s'.get? number) :
    joined type r s number = joined type r' s' number := by
  simp only [joined, list_congr hr, list_congr hs, hr, hs]

/-- Joining puts the lists behind each other and keeps them apart from the other fields. -/
theorem Adjoins.joined {field : Field} {joint jointOthers : Record} (hfield : type.field? field.number = some field)
    (hrepeated : field.isRepeated = true) (h : Adjoins field.number s vs r) (h' : Adjoins field.number s' ws r')
    (hjoint : ∀ number, joint.get? number = Record.joined type r r' number)
    (hothers : ∀ number, jointOthers.get? number = Record.joined type s s' number) :
    Adjoins field.number jointOthers (vs ++ ws) joint := by
  have hlacks {s : Record} (h : s.get? field.number = none) : s.list field.number = [] := list_of_get? h
  constructor
  · rw [hjoint, joined_repeated hfield hrepeated, list_of_get? h.here, list_of_get? h'.here]
  · rw [hothers, joined_repeated hfield hrepeated, hlacks h.lacks, hlacks h'.lacks]
    rfl
  · intro other hother
    rw [hjoint, hothers]
    exact joined_congr (h.others other hother) (h'.others other hother)

end Record

/-! ### One chunk and several -/

namespace Chunk

variable {type : Message} {field : Field} {t : ValueType}

/-- Whether bytes are decoded, with the list for the field, and with what they have of other fields as by itself. -/
def Reads (type : Message) (number : Nat) (bytes others : Bytes) (vs : List Value) : Prop :=
  ∃ r s, Record.decode type bytes = .ok r ∧ Record.decode type others = .ok s ∧ Record.Adjoins number s vs r

theorem reads_of_lists {bytes : Bytes} {vs : List Value} (h : type.Lists field.number bytes vs) :
    Reads type field.number bytes [] vs := by
  have hread := h.gives .empty [] (Record.below_empty _)
  rw [List.append_nil, Record.decodeInto_nil] at hread
  exact ⟨_, _, hread, Record.decodeInto_nil _ _, Record.adjoins_extend _ _⟩

theorem reads_of_apart {bytes : Bytes} (h : Record.Apart type field.number bytes) :
    Reads type field.number bytes bytes [] := by
  obtain ⟨r, hr, hget⟩ := h.decodes .empty
  have hread := Record.decode_eq_ok_iff.2 hr
  exact ⟨r, r, hread, hread, hget, hget, fun _ _ => rfl⟩

theorem Reads.append {bytes more others moreOthers : Bytes} {vs ws : List Value}
    (hfield : type.field? field.number = some field) (hrepeated : field.isRepeated = true)
    (h : Reads type field.number bytes others vs) (hmore : Reads type field.number more moreOthers ws) :
    Reads type field.number (bytes ++ more) (others ++ moreOthers) (vs ++ ws) := by
  obtain ⟨r, s, hr, hs, hadjoins⟩ := h
  obtain ⟨r', s', hr', hs', hadjoins'⟩ := hmore
  obtain ⟨joint, hjoint, hget⟩ := Record.decode_append hr hr'
  obtain ⟨jointOthers, hjointOthers, hgetOthers⟩ := Record.decode_append hs hs'
  exact ⟨joint, jointOthers, hjoint, hjointOthers, hadjoins.joined hfield hrepeated hadjoins' hget hgetOthers⟩

theorem rereadAll_value (t : ValueType) (vs : List Value) : Value.rereadAll (.value t) vs = vs.map (·.narrow t) := by
  induction vs with
  | nil => rfl
  | cons v vs ih => rw [Value.rereadAll, Value.reread_value, ih, List.map_cons]

/-- Whether a chunk is one of a field: its values are ones that the field can hold, and what is between values is of
other fields. -/
structure Suits (type : Message) (number : Nat) (t : ValueType) (chunk : Chunk) : Prop where
  fits : ∀ v ∈ chunk.values, v.Fits t
  apart : Record.Apart type number chunk.others

variable (hfield : type.field? field.number = some field) (hnumber : field.number < 2 ^ 32)
  (hrepeated : field.label = .repeated) (hkind : field.kind = .value t) (hpacks : t.wireType ≠ .lengthDelimited)
include hfield hnumber hrepeated hkind hpacks

theorem write_spec {chunk : Chunk} (h : chunk.Suits type field.number t) :
    ∃ bytes, chunk.write type field t = .ok bytes ∧ (bytes.length < 2 ^ 64 →
      Reads type field.number bytes chunk.others (chunk.values.map (·.narrow t))) := by
  have hconform {vs : List Value} (hvs : ∀ v ∈ vs, v.Fits t) : Value.ConformAll (.value t) vs :=
    Value.conformAll_iff.2 fun v hv => Value.conforms_value.2 (hvs v hv)
  cases chunk with
  | packed vs =>
      have hfits : ∀ v ∈ vs, v.Fits t := h.fits
      obtain ⟨packed, hpacked, hread⟩ := Message.words_spec type field (hconform hfits)
      refine ⟨WireType.lengthDelimited.entry field.number packed, by rw [write, hpacked]; rfl, ?_⟩
      intro hlength
      have hvalues := hread (Nat.lt_of_le_of_lt (WireType.length_le_entry field.number packed) hlength)
      rw [rereadAll_value] at hvalues
      apply reads_of_lists
      exact Message.lists_of_read_values hrepeated
        (Entry.read_packed hfield hnumber hrepeated hkind hpacks hvalues hlength)
  | tagged vs =>
      obtain ⟨bytes, hbytes, hread⟩ := Message.entries_spec hfield hnumber hkind hrepeated (hconform h.fits)
      refine ⟨bytes, hbytes, fun hlength => reads_of_lists ?_⟩
      rw [← rereadAll_value]
      exact hread hlength
  | between bytes => exact ⟨bytes, rfl, fun _ => reads_of_apart h.apart⟩

theorem writeAll_spec {chunks : List Chunk} (h : ∀ chunk ∈ chunks, chunk.Suits type field.number t) :
    ∃ bytes, writeAll type field t chunks = .ok bytes ∧ (bytes.length < 2 ^ 64 →
      Reads type field.number bytes (chunks.flatMap others) ((chunks.flatMap values).map (·.narrow t))) := by
  induction chunks with
  | nil =>
      refine ⟨[], rfl, fun _ => ?_⟩
      exact reads_of_lists Message.Lists.nil
  | cons chunk chunks ih =>
      rw [List.forall_mem_cons] at h
      obtain ⟨bytes, hbytes, hread⟩ := write_spec hfield hnumber hrepeated hkind hpacks h.1
      obtain ⟨more, hmore, hreadMore⟩ := ih h.2
      refine ⟨bytes ++ more, by rw [writeAll, hbytes, hmore]; rfl, ?_⟩
      intro hlength
      rw [List.length_append] at hlength
      rw [List.flatMap_cons, List.flatMap_cons, List.map_append]
      exact (hread (by omega)).append hfield (by simp [Field.isRepeated, hrepeated]) (hreadMore (by omega))

end Chunk

/-- However a list of numbers is cut into chunks, packed or not, and whatever entries of other fields stand between
them, the bytes are decoded. The field holds the list, or nothing if it is empty, and every other field what it would
hold without the chunks. Only a not-a-number of a single may come back as another one. -/
theorem Record.decode_chunks {type : Message} {field : Field} {t : ValueType}
    (hfield : type.field? field.number = some field) (hnumber : field.number < 2 ^ 32)
    (hrepeated : field.label = .repeated) (hkind : field.kind = .value t) (hpacks : t.wireType ≠ .lengthDelimited)
    {chunks : List Chunk} {vs : List Value} (hvs : chunks.flatMap Chunk.values = vs) (hfits : ∀ v ∈ vs, v.Fits t)
    (hothers : ∀ chunk ∈ chunks, Apart type field.number chunk.others) :
    ∃ bytes, Chunk.writeAll type field t chunks = .ok bytes ∧ (bytes.length < 2 ^ 64 → ∃ r s,
      decode type bytes = .ok r ∧ decode type (chunks.flatMap Chunk.others) = .ok s
        ∧ (∃ found, r.get? field.number = Content.ofList found ∧ found.map Value.quiet = vs.map Value.quiet
          ∧ (t ≠ .scalar .float → found = vs))
        ∧ ∀ number ≠ field.number, r.get? number = s.get? number) := by
  subst hvs
  have hsuits : ∀ chunk ∈ chunks, chunk.Suits type field.number t := by
    intro chunk hchunk
    refine ⟨fun v hv => hfits v ?_, hothers chunk hchunk⟩
    exact List.mem_flatMap.2 ⟨chunk, hchunk, hv⟩
  obtain ⟨bytes, hbytes, hread⟩ := Chunk.writeAll_spec hfield hnumber hrepeated hkind hpacks hsuits
  refine ⟨bytes, hbytes, fun hlength => ?_⟩
  obtain ⟨r, s, hr, hs, hadjoins⟩ := hread hlength
  refine ⟨r, s, hr, hs, ⟨_, hadjoins.here, ?_, ?_⟩, hadjoins.others⟩
  · rw [List.map_map]
    exact List.map_congr_left fun v hv => Value.quiet_narrow (hfits v hv)
  · intro hfloat
    refine List.map_id'' (fun v => ?_) _
    cases t with
    | enum name => rfl
    | scalar kind =>
        cases kind
        case float => exact absurd rfl hfloat
        all_goals rfl

def stepsField : Field := ⟨4, "steps", .repeated, .value (.scalar .sint32)⟩

/-- Three steps of a path, with an entry that paths do not have and a point between them. -/
def cutSteps : List Chunk :=
  [.tagged [.int (-1)], .between [0x28, 0], .packed [], .between [0x3A, 0], .packed [.int 0, .int 1]]

theorem Record.cutSteps_decoded : ∃ r s,
    Chunk.writeAll pathType stepsField (.scalar .sint32) cutSteps
      = .ok [0x20, 1, 0x28, 0, 0x22, 0, 0x3A, 0, 0x22, 2, 0, 2]
    ∧ decode pathType [0x20, 1, 0x28, 0, 0x22, 0, 0x3A, 0, 0x22, 2, 0, 2] = .ok r
    ∧ decode pathType [0x28, 0, 0x3A, 0] = .ok s
    ∧ r.get? 4 = some (.list [.int (-1), .int 0, .int 1]) ∧ ∀ number ≠ 4, r.get? number = s.get? number := by
  have hstep (n : Int64) (h : -2 ^ 31 ≤ n.toInt ∧ n.toInt < 2 ^ 31) : (Value.int n).Fits (.scalar .sint32) := h
  have hunknown : Apart pathType 4 [0x28, 0] := .unknown rfl .nil
  have hpoint : Apart pathType 4 [0x3A, 0] := .message rfl (by decide) (decodeInto_nil _ _) .nil
  obtain ⟨bytes, hwrite, hread⟩ := @decode_chunks pathType stepsField (.scalar .sint32) rfl (by decide) rfl rfl
    (by decide) cutSteps [.int (-1), .int 0, .int 1] rfl
    (by simpa using ⟨hstep (-1) (by decide), hstep 0 (by decide), hstep 1 (by decide)⟩)
    (by simpa [cutSteps, Chunk.others] using ⟨.nil, hunknown, .nil, hpoint, .nil⟩)
  have hbytes : (Chunk.writeAll pathType stepsField (.scalar .sint32) cutSteps).toOption
      = some [0x20, 1, 0x28, 0, 0x22, 0, 0x3A, 0, 0x22, 2, 0, 2] := by decide +kernel
  cases (toOption_eq_some.1 hbytes).symm.trans hwrite
  obtain ⟨r, s, hr, hs, ⟨found, hfound, -, hsame⟩, hothers⟩ := hread (by decide)
  rw [hsame (by decide)] at hfound
  exact ⟨r, s, hwrite, hr, hs, hfound, hothers⟩

end SheetCompiler

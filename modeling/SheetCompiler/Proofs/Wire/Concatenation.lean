import SheetCompiler.Proofs.Record.Entries
import SheetCompiler.Proofs.Wire.Decoded
import SheetCompiler.Proofs.Wire.Locality

/-!
# Decoding bytes behind each other

Bytes that are decoded, put behind bytes that are decoded, are decoded. The lists of the first record go on with those
of the second, and a single value of the second, messages among them, takes the place of one in the first. For no entry
is read otherwise because of what stands behind it, so the decoder comes to the end of the first bytes with the first
record, and from there on it does to this record what it does to the empty one where it starts with the second bytes.
-/

namespace SheetCompiler.Record

variable {type : Message} {r s base : Record} {bytes more : Bytes} {number : Nat}

/-- What a field holds after one record has been decoded behind another. -/
def joined (type : Message) (r s : Record) (number : Nat) : Option Content :=
  match type.field? number with
  | none => none
  | some field =>
      if field.isRepeated then Content.ofList (r.list number ++ s.list number)
      else (s.get? number).or (r.get? number)

theorem joined_repeated {field : Field} (hfield : type.field? number = some field)
    (hrepeated : field.isRepeated = true) :
    joined type r s number = Content.ofList (r.list number ++ s.list number) := by
  rw [joined, hfield]
  exact if_pos hrepeated

theorem joined_single {field : Field} (hfield : type.field? number = some field)
    (hsingle : ¬field.isRepeated = true) : joined type r s number = (s.get? number).or (r.get? number) := by
  rw [joined, hfield]
  exact if_neg hsingle

theorem list_congr (h : r.get? number = s.get? number) : r.list number = s.list number := by
  rw [list, list, h]

/-- A decoded record is one with nothing decoded behind it: its lists are not empty, and all are in repeated fields. -/
theorem get?_eq_joined_empty (hconforms : r.Conforms type) (hsettled : r.Settled type) (number : Nat) :
    r.get? number = joined type r empty number := by
  cases hget : r.get? number with
  | none =>
      have hlist : r.list number = [] := list_of_get? hget
      rw [joined, hlist, hget]
      cases type.field? number with
      | none => rfl
      | some field => exact (ite_self _).symm
  | some content =>
      have hmem := mem_of_find? hget
      obtain ⟨field, hfield, hcontent⟩ := conforms_iff.1 hconforms _ hmem
      cases content with
      | single v =>
          rw [joined_single hfield (by simpa [Field.isRepeated] using hcontent.1), hget]
          rfl
      | list vs =>
          have hne : vs ≠ [] := (settled_iff.1 hsettled _ hmem field hfield).1
          have hlist : r.list number = vs := by rw [list, hget]
          rw [joined_repeated hfield (by simpa [Field.isRepeated] using hcontent.1), hlist]
          cases vs with
          | nil => exact absurd rfl hne
          | cons v vs => exact congrArg (some ∘ Content.list) (List.append_nil _).symm

/-- Storing a value keeps one record behind another. -/
theorem get?_store_joined {field : Field} (hfield : type.field? field.number = some field)
    (h : ∀ number, r.get? number = joined type base s number) (v : Value) (number : Nat) :
    (r.store field v).get? number = joined type base (s.store field v) number := by
  have hother (content content' : Content) (hne : number ≠ field.number) :
      (r.put field.number content).get? number = joined type base (s.put field.number content') number := by
    have hget : (s.put field.number content').get? number = s.get? number := by rw [get?_put, if_neg hne]
    rw [get?_put, if_neg hne, h number, joined, joined, hget, list_congr hget]
  rw [store, store]
  by_cases hrepeated : field.isRepeated = true
  · rw [if_pos hrepeated, if_pos hrepeated]
    by_cases hnumber : number = field.number
    · subst hnumber
      have hlist : r.list field.number = base.list field.number ++ s.list field.number :=
        list_of_get? ((h field.number).trans (joined_repeated hfield hrepeated))
      rw [joined_repeated hfield hrepeated, list_append, append, get?_put, if_pos rfl, hlist, List.append_assoc]
      cases base.list field.number <;> cases s.list field.number <;> rfl
    · exact hother _ _ hnumber
  · rw [if_neg hrepeated, if_neg hrepeated]
    by_cases hnumber : number = field.number
    · subst hnumber
      rw [joined_single hfield hrepeated, set, get?_put, if_pos rfl, set, get?_put, if_pos rfl]
      rfl
    · exact hother _ _ hnumber

theorem get?_stores_joined {field : Field} (hfield : type.field? field.number = some field) (vs : List Value) :
    ∀ {r s : Record}, (∀ number, r.get? number = joined type base s number) → ∀ number,
      (vs.foldl (·.store field ·) r).get? number = joined type base (vs.foldl (·.store field ·) s) number := by
  induction vs with
  | nil => exact fun h => h
  | cons v vs ih => exact fun h => ih (get?_store_joined hfield h v)

/-- What a decoder does to one record it does to that record behind another. -/
theorem Decodes.behind {s' : Record} (h : Decodes type s bytes s') (base : Record) :
    ∀ {r : Record}, (∀ number, r.get? number = joined type base s number) →
      ∃ r', Decodes type r bytes r' ∧ ∀ number, r'.get? number = joined type base s' number := by
  induction h generalizing base with
  | nil => exact fun h => ⟨_, .nil, h⟩
  | unknown hread _ ih =>
      intro r h
      obtain ⟨r', hr', hjoined⟩ := ih base h
      exact ⟨r', .unknown hread hr', hjoined⟩
  | values hread _ ih =>
      intro r h
      obtain ⟨hfield, -, -⟩ := Entry.suits_of_read hread
      obtain ⟨r', hr', hjoined⟩ := ih base (get?_stores_joined hfield _ h)
      exact ⟨r', .values hread hr', hjoined⟩
  | message hread hsub _ _ ih =>
      intro r h
      obtain ⟨hfield, -, -⟩ := Entry.suits_of_read hread
      obtain ⟨r', hr', hjoined⟩ := ih base (get?_store_joined hfield h _)
      exact ⟨r', .message hread hsub hr', hjoined⟩

theorem Decodes.append {r' r'' : Record} (h : Decodes type r bytes r') (hmore : Decodes type r' more r'') :
    Decodes type r (bytes ++ more) r'' := by
  induction h with
  | nil => exact hmore
  | unknown hread _ ih => exact .unknown ((Entry.read_front _).append hread more) (ih hmore)
  | values hread _ ih => exact .values ((Entry.read_front _).append hread more) (ih hmore)
  | message hread hsub _ _ ih => exact .message ((Entry.read_front _).append hread more) hsub (ih hmore)

/-- Bytes that are decoded one by one are decoded behind each other, and what has been decoded is joined. -/
theorem decode_append (hr : decode type bytes = .ok r) (hs : decode type more = .ok s) :
    ∃ joint, decode type (bytes ++ more) = .ok joint ∧ ∀ number, joint.get? number = joined type r s number := by
  have hstart := get?_eq_joined_empty (conforms_of_decode hr) (settled_of_decode hr)
  obtain ⟨joint, hjoint, hjoined⟩ := (decode_eq_ok_iff.1 hs).behind r hstart
  exact ⟨joint, decode_eq_ok_iff.2 ((decode_eq_ok_iff.1 hr).append hjoint), hjoined⟩

/-- A type with a list, and with a message in a field that is not repeated. -/
def routeType : Message :=
  ⟨"route", [⟨1, "stops", .repeated, .value (.scalar .int64)⟩, ⟨2, "goal", .optional, .message ⟨"place",
    [⟨1, "x", .optional, .value (.scalar .int64)⟩, ⟨2, "y", .optional, .value (.scalar .int64)⟩]⟩⟩]⟩

/-- The stops go on, and of the goals the second is left, without the `x` of the first. -/
theorem routes_decoded_behind :
    ∃ joint, decode routeType ([0x08, 1, 0x12, 2, 0x08, 1] ++ [0x08, 2, 0x12, 2, 0x10, 2]) = .ok joint
      ∧ joint.get? 1 = some (.list [.int 1, .int 2])
      ∧ joint.get? 2 = some (.single (.message ⟨[(2, .single (.int 2))]⟩)) := by
  have hfirst : Decodes routeType empty [0x08, 1, 0x12, 2, 0x08, 1]
      ⟨[(1, .list [.int 1]), (2, .single (.message ⟨[(1, .single (.int 1))]⟩))]⟩ :=
    .values rfl (.message rfl (.values rfl .nil) .nil)
  have hsecond : Decodes routeType empty [0x08, 2, 0x12, 2, 0x10, 2]
      ⟨[(1, .list [.int 2]), (2, .single (.message ⟨[(2, .single (.int 2))]⟩))]⟩ :=
    .values rfl (.message rfl (.values rfl .nil) .nil)
  obtain ⟨joint, hjoint, hjoined⟩ := decode_append (decode_eq_ok_iff.2 hfirst) (decode_eq_ok_iff.2 hsecond)
  exact ⟨joint, hjoint, hjoined 1, hjoined 2⟩

end SheetCompiler.Record

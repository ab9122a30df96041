import SheetCompiler.Proofs.Layout.Scopes
import SheetCompiler.Proofs.Text.Words

/-!
# Where enum types come from

Enums are looked for in two ways that know nothing of each other: by the words of the type cells, before anything is
read of them, and in the layout, after all of it is. Whatever enum type the layout names, some word of the type cell
that it comes from begins with the mark of enums. So a header without such words has a layout without enum types.
-/

namespace SheetCompiler

/-- Whether a word begins as the name of an enum type does. -/
def Text.IsMarked (word : String) : Prop := ValueType.enumMark.toList <+: word.toList

theorem ValueType.isMarked_of_read? {word name : String} (h : read? word = some (.enum name)) : Text.IsMarked word := by
  rw [read?] at h
  split at h
  · next hmark => exact List.isPrefixOf_iff_prefix.1 hmark
  · obtain ⟨kind, -, hkind⟩ := Option.map_eq_some_iff.1 h
    cases hkind

namespace Descriptor

/-! ### Marks of words -/

theorem dropMarks_suffix (s : List Char) : dropMarks s <:+ s := by
  induction s using dropMarks.induct with
  | case1 rest ih =>
      rw [dropMarks]
      exact ih.trans (List.suffix_append [']', '['] rest)
  | case2 s hs =>
      have hkept : dropMarks s = s := by
        rw [dropMarks]
        exact hs
      exact ⟨[], hkept⟩

/-- What stands in front of the marks of a repetition is where the word begins. -/
theorem isPrefix_element (word : String) : (element word).toList <+: word.toList := by
  have hreversed := List.reverse_prefix.2 (dropMarks_suffix word.toList.reverse)
  rw [List.reverse_reverse] at hreversed
  rwa [element, String.toList_ofList]

/-! ### Marks of type cells -/

def field? : Descriptor → Option ValueColumn
  | .value field _ | .inline field => some field
  | _ => none

variable {column : Nat} {heading : Heading} {token word name : String} {field : ValueColumn} {d : Descriptor}

theorem readField_type {type : ValueType} (h : readField column heading type = .ok field) : field.type = type := by
  obtain ⟨_, _, hfield⟩ := bind_eq_ok.1 h
  cases hfield
  rfl

theorem marked_of_readValue {optional : Bool}
    (h : (do return .value (← readField column heading (← readType column token word)) optional) = Except.ok d)
    (hfield : d.field? = some field) (htype : field.type = .enum name) : Text.IsMarked word := by
  obtain ⟨type, hread, h⟩ := bind_eq_ok.1 h
  obtain ⟨found, hfound, hd⟩ := bind_eq_ok.1 h
  cases hd
  cases hfield
  obtain rfl : type = .enum name := (readField_type hfound).symm.trans htype
  rw [readType] at hread
  split at hread
  · cases hread
  · split at hread
    · next hword =>
      cases hread
      exact ValueType.isMarked_of_read? hword
    · cases hread

theorem marked_of_readRepeated (h : readRepeated column heading word = .ok d) (hfield : d.field? = some field)
    (htype : field.type = .enum name) : Text.IsMarked word := by
  simp only [readRepeated] at h
  split at h
  · split at h
    · cases h
      cases hfield
    · cases h
  · split at h
    · next type hread =>
      obtain ⟨found, hfound, hd⟩ := bind_eq_ok.1 h
      cases hd
      cases hfield
      obtain rfl : type = .enum name := (readField_type hfound).symm.trans htype
      exact (ValueType.isMarked_of_read? hread).trans (isPrefix_element word)
    · cases h

theorem field?_of_readStruct {required : Bool} {size : String} (h : readStruct column heading required size = .ok d) :
    d.field? = none := by
  rw [readStruct] at h
  split at h
  · obtain ⟨typeName, _, h⟩ := bind_eq_ok.1 h
    obtain ⟨name, _, h⟩ := bind_eq_ok.1 h
    cases h
    rfl
  · cases h

/-- A column with values of an enum type has a word in its type cell that is marked. -/
theorem exists_marked (h : read column heading = .ok d) (hfield : d.field? = some field)
    (htype : field.type = .enum name) : ∃ word ∈ Text.words heading.type, Text.IsMarked word := by
  have hwords : Text.words heading.token = Text.words heading.type := Text.words_trim heading.type
  rw [read] at h
  simp only [hwords] at h
  split at h
  · cases h
    cases hfield
  · next word hwords =>
    rw [hwords]
    refine ⟨word, List.mem_singleton_self word, ?_⟩
    split at h
    · exact marked_of_readRepeated h hfield htype
    · exact marked_of_readValue h hfield htype
  · next word hwords =>
    rw [hwords]
    exact ⟨word, List.mem_cons_of_mem _ (List.mem_singleton_self word), marked_of_readValue h hfield htype⟩
  · next word hwords =>
    rw [hwords]
    exact ⟨word, List.mem_cons_of_mem _ (List.mem_singleton_self word), marked_of_readValue h hfield htype⟩
  · rw [field?_of_readStruct h] at hfield
    cases hfield
  · rw [field?_of_readStruct h] at hfield
    cases hfield
  · cases h

end Descriptor

/-! ### Marks of headers -/

theorem Header.mentionsEnums_iff {h : Header} :
    h.mentionsEnums = true ↔ ∃ heading ∈ h.columns, ∃ word ∈ Text.words heading.type, Text.IsMarked word := by
  simp only [mentionsEnums, List.any_eq_true, List.isPrefixOf_iff_prefix, Text.IsMarked]

/-- The column that a construct takes the values of its field from is read as one of that field. -/
theorem Node.Stands.descriptor_of_valueColumn? {h : Header} {first : Nat} {node : Node} {field : ValueColumn}
    (hstands : node.Stands h first) (hfield : node.valueColumn? = some field) :
    ∃ d, h.descriptor field.column = .ok d ∧ d.field? = some field := by
  cases node with
  | skip | struct | structs => cases hfield
  | value =>
      cases hfield
      obtain ⟨rfl, hvalue⟩ := hstands
      exact ⟨_, hvalue, rfl⟩
  | inline =>
      cases hfield
      obtain ⟨rfl, hinline⟩ := hstands
      exact ⟨_, hinline, rfl⟩
  | values =>
      cases hfield
      obtain ⟨-, -, -, hcolumn, hvalue, -⟩ := hstands
      exact ⟨_, hcolumn.symm ▸ hvalue, rfl⟩

namespace Layout

variable {h : Header} {l : Layout}

/-- Whatever enum type a layout names, in whatever scope, comes from a type cell with a word that is marked. -/
theorem marked_of_namesEnum (hlayout : ofHeader h = .ok l) {column : Nat} {name : String}
    (hnames : Node.NamesEnum l.nodes column name) :
    column < h.columnCount ∧ ∃ word ∈ Text.words (h.heading column).type, Text.IsMarked word := by
  obtain ⟨-, htile⟩ := tile_of_ofHeader hlayout
  refine ⟨((Node.enumsOf_ascend htile).2 _ (Node.mem_enumsOf_iff.2 hnames)).2, ?_⟩
  obtain ⟨scope, hscope, node, hnode, field, hfield, rfl, htype⟩ := hnames
  obtain ⟨first, last, hscope⟩ := hscope.tile htile
  obtain ⟨d, hd, hfield⟩ := (hscope.stands node hnode).2.descriptor_of_valueColumn? hfield
  exact Descriptor.exists_marked hd hfield htype

/-- A header without words that are marked has a layout without enum types. -/
theorem enums_eq_nil_of_mentionsEnums (hlayout : ofHeader h = .ok l) (hnone : h.mentionsEnums = false) :
    l.enums = [] := by
  apply List.eq_nil_iff_forall_not_mem.2
  rintro ⟨column, name⟩ hmem
  obtain ⟨hlt, hmarked⟩ := marked_of_namesEnum hlayout (Node.mem_enumsOf_iff.1 hmem)
  have hheading : h.heading column ∈ h.columns := Header.heading_eq_getElem hlt ▸ List.getElem_mem hlt
  rw [Header.mentionsEnums_iff.2 ⟨_, hheading, hmarked⟩] at hnone
  cases hnone

end Layout

end SheetCompiler

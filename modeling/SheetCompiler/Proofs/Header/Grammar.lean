import Mathlib.Data.List.TakeWhile
import SheetCompiler.Proofs.Layout.EnumMarks
import SheetCompiler.Proofs.Number.Alphabet

/-!
# The grammar of headings

What the type cell of a column may be, word by word, and what the name cell and the comment cell have to be beside it,
is said here by a relation that reads nothing. A heading is read as a descriptor exactly if it says that descriptor, and
otherwise the fault names its column.

One form goes beyond what headings are for. Behind the type of a list and behind the maximum of a repetition belongs
one mark, and any number of them is read like one.
-/

namespace SheetCompiler

theorem Text.continuesIdentifier_of_mem {text : String} (h : isIdentifier text = true) {c : Char}
    (hc : c ∈ text.toList) : continuesIdentifier c = true := by
  rw [isIdentifier] at h
  split at h
  · cases h
  · next first rest htext =>
    simp only [Bool.and_eq_true, List.all_eq_true] at h
    rcases List.mem_cons.1 (htext ▸ hc) with rfl | hc
    · exact Bool.or_eq_true_iff.2 (.inl h.1)
    · exact h.2 c hc

theorem Text.exists_head_of_isIdentifier {text : String} (h : isIdentifier text = true) :
    ∃ first rest, text.toList = first :: rest ∧ startsIdentifier first = true := by
  rw [isIdentifier] at h
  split at h
  · cases h
  · next first rest htext => exact ⟨first, rest, htext, (Bool.and_eq_true_iff.1 h).1⟩

theorem Text.slash_not_mem_of_isIdentifier {text : String} (h : isIdentifier text = true) : '/' ∉ text.toList :=
  fun hmem => absurd (continuesIdentifier_of_mem h hmem) (by decide)

/-! ### Words for types -/

theorem ScalarKind.ofName?_eq_some_iff {word : String} {kind : ScalarKind} :
    ofName? word = some kind ↔ word = kind.name := by
  constructor
  · intro h
    have hname := List.find?_some (p := fun kind : ScalarKind => kind.name == word) h
    exact (beq_iff_eq.1 hname).symm
  · rintro rfl
    cases kind <;> decide

namespace ValueType

/-- Whether the name of an enum type is an identifier. -/
def WellNamed : ValueType → Prop
  | .scalar _ => True
  | .enum name => Text.isIdentifier name = true

variable {type : ValueType} {word name : String}

theorem read?_marked (name : String) :
    read? (enumMark ++ name) = if Text.isIdentifier name then some (.enum name) else none := by
  have hmark : enumMark.toList.isPrefixOf (enumMark ++ name).toList = true := by
    rw [List.isPrefixOf_iff_prefix, String.toList_append]
    exact List.prefix_append _ _
  have hdrop : (enumMark ++ name).toList.drop enumMark.length = name.toList := by
    rw [String.toList_append]
    exact List.drop_left
  rw [read?, hmark, hdrop, String.ofList_toList]

theorem read?_of_not_isMarked (h : ¬Text.IsMarked word) : read? word = (ScalarKind.ofName? word).map .scalar := by
  rw [Text.IsMarked, ← List.isPrefixOf_iff_prefix, Bool.not_eq_true] at h
  rw [read?, h]

theorem not_isMarked_name (kind : ScalarKind) : ¬Text.IsMarked kind.name := by
  rw [Text.IsMarked, ← List.isPrefixOf_iff_prefix]
  cases kind <;> decide

/-- A word names a type if it is a keyword, or the mark of enums and an identifier. -/
theorem read?_eq_some_iff : read? word = some type ↔ word = type.word ∧ type.WellNamed := by
  constructor
  · intro h
    by_cases hmark : Text.IsMarked word
    · obtain ⟨name, hname⟩ := hmark
      obtain rfl : word = enumMark ++ String.ofList name := by
        rw [← String.toList_inj, String.toList_append, String.toList_ofList, hname]
      rw [read?_marked, Option.ite_none_right_eq_some] at h
      obtain ⟨hidentifier, henum⟩ := h
      cases henum
      exact ⟨rfl, hidentifier⟩
    · rw [read?_of_not_isMarked hmark] at h
      obtain ⟨kind, hkind, hscalar⟩ := Option.map_eq_some_iff.1 h
      cases hscalar
      exact ⟨ScalarKind.ofName?_eq_some_iff.1 hkind, trivial⟩
  · rintro ⟨rfl, hnamed⟩
    cases type with
    | scalar kind =>
        rw [word, read?_of_not_isMarked (not_isMarked_name kind), ScalarKind.ofName?_eq_some_iff.2 rfl]
        rfl
    | enum name => exact (read?_marked name).trans (if_pos hnamed)

/-- Words for types have no brackets, and no digit in front. -/
theorem bracket_not_mem_word (h : type.WellNamed) : ']' ∉ type.word.toList := by
  cases type with
  | scalar kind => cases kind <;> decide
  | enum name =>
      rw [word, String.toList_append, List.mem_append, not_or]
      exact ⟨by decide, fun hmem => absurd (Text.continuesIdentifier_of_mem h hmem) (by decide)⟩

theorem head?_word_any_isDigit (type : ValueType) : type.word.toList.head?.any Text.isDigit = false := by
  cases type with
  | scalar kind => cases kind <;> decide
  | enum name =>
      rw [word, String.toList_append]
      rfl

end ValueType

namespace Descriptor

/-! ### Marks of repetitions -/

/-- So many marks of a repetition one behind the other. -/
def marks (n : Nat) : String := String.ofList (List.replicate n ['[', ']']).flatten

variable {word : String}

theorem marks_succ (n : Nat) : marks (n + 1) = marks n ++ "[]" := by
  rw [marks, marks, List.replicate_succ', List.flatten_append, String.ofList_append]
  rfl

theorem isRepeated_append_mark (word : String) : isRepeated (word ++ "[]") = true := by
  rw [isRepeated, String.toList_append, List.reverse_append]
  rfl

theorem isRepeated_append_marks (word : String) (n : Nat) : isRepeated (word ++ marks (n + 1)) = true := by
  rw [marks_succ, ← String.append_assoc, isRepeated_append_mark]

theorem isRepeated_of_bracket_not_mem (h : ']' ∉ word.toList) : isRepeated word = false := by
  rw [isRepeated]
  split
  · next rest hreverse =>
    have hmem : ']' ∈ word.toList.reverse := hreverse ▸ List.mem_cons_self
    exact absurd (List.mem_reverse.1 hmem) h
  · rfl

theorem element_append_mark (word : String) : element (word ++ "[]") = element word := by
  rw [element, String.toList_append, List.reverse_append]
  rfl

theorem element_of_not_isRepeated (h : isRepeated word = false) : element word = word := by
  have hkept : dropMarks word.toList.reverse = word.toList.reverse := by
    rw [isRepeated] at h
    rw [dropMarks.eq_def]
    split at h
    · cases h
    · next hnot =>
      rfl
  rw [element, hkept, List.reverse_reverse, String.ofList_toList]

theorem element_append_marks (h : ']' ∉ word.toList) (n : Nat) : element (word ++ marks n) = word := by
  induction n with
  | zero =>
      have hnone : word ++ marks 0 = word := String.append_empty
      rw [hnone, element_of_not_isRepeated (isRepeated_of_bracket_not_mem h)]
  | succ n ih => rw [marks_succ, ← String.append_assoc, element_append_mark, ih]

/-- A word is what stands in front of its marks, and the marks. -/
theorem exists_marks (word : String) : ∃ n, word = element word ++ marks n := by
  have hreversed : ∀ s : List Char, ∃ n, s.reverse = (dropMarks s).reverse ++ (marks n).toList := by
    intro s
    induction s using dropMarks.induct with
    | case1 rest ih =>
        obtain ⟨n, hn⟩ := ih
        refine ⟨n + 1, ?_⟩
        rw [dropMarks, marks_succ, String.toList_append, ← List.append_assoc, ← hn, List.reverse_cons,
          List.reverse_cons, List.append_assoc]
        rfl
    | case2 s hs =>
        rw [dropMarks]
        · exact ⟨0, (List.append_nil _).symm⟩
        · exact hs
  obtain ⟨n, hn⟩ := hreversed word.toList.reverse
  rw [List.reverse_reverse] at hn
  refine ⟨n, ?_⟩
  rw [← String.toList_inj, String.toList_append, element, String.toList_ofList]
  exact hn

theorem exists_marks_of_isRepeated (h : isRepeated word = true) : ∃ n, word = element word ++ marks (n + 1) := by
  obtain ⟨front, rfl⟩ : ∃ front, word = front ++ "[]" := by
    rw [isRepeated] at h
    split at h
    · next rest hreverse =>
      refine ⟨String.ofList rest.reverse, ?_⟩
      rw [← String.toList_inj, String.toList_append, String.toList_ofList, ← List.reverse_reverse word.toList, hreverse,
        List.reverse_cons, List.reverse_cons, List.append_assoc]
      rfl
    · cases h
  obtain ⟨n, hn⟩ := exists_marks front
  exact ⟨n, by rw [element_append_mark, marks_succ, ← String.append_assoc, ← hn]⟩

/-! ### Names -/

/-- Whether a name cell gives a field this name and default. It is the name alone, or a default follows the first
equals sign. -/
inductive NameCell (cell : String) : String → Option String → Prop
  | alone (hname : Text.isIdentifier cell = true) : NameCell cell cell none
  | withDefault {name default : List Char} (hcell : cell.toList = name ++ '=' :: default) (hfirst : '=' ∉ name)
      (hname : Text.isIdentifier (Text.trim (String.ofList name)) = true) :
      NameCell cell (Text.trim (String.ofList name)) (some (Text.trim (String.ofList default)))

theorem readName_eq_ok_iff {column : Nat} {role : NameRole} {text name : String} :
    readName column role text = .ok name ↔ name = text ∧ Text.isIdentifier text = true := by
  rw [readName]
  split
  · next h => simp [h, eq_comm]
  · next h => simp [h]

theorem equals_not_mem_of_isIdentifier {text : String} (h : Text.isIdentifier text = true) : '=' ∉ text.toList :=
  fun hmem => absurd (Text.continuesIdentifier_of_mem h hmem) (by decide)

theorem readNameCell_of_not_mem {column : Nat} {cell : String} (h : '=' ∉ cell.toList) :
    readNameCell column cell = readName column .field cell >>= fun name => .ok (name, none) := by
  have hrest : cell.toList.dropWhile (· != '=') = [] := by
    rw [List.dropWhile_eq_nil_iff]
    exact fun c hc => bne_iff_ne.2 fun heq => h (heq ▸ hc)
  simp only [readNameCell, hrest]
  rfl

theorem readNameCell_of_eq_append {column : Nat} {cell : String} {name default : List Char}
    (hcell : cell.toList = name ++ '=' :: default) (hfirst : '=' ∉ name) :
    readNameCell column cell = readName column .field (Text.trim (String.ofList name)) >>= fun name =>
      .ok (name, some (Text.trim (String.ofList default))) := by
  have hname : ∀ c ∈ name, (c != '=') = true := fun c hc => bne_iff_ne.2 fun heq => hfirst (heq ▸ hc)
  have hfront : cell.toList.takeWhile (· != '=') = name := by
    rw [hcell, List.takeWhile_append_of_pos hname, List.takeWhile_cons_of_neg (by simp), List.append_nil]
  have hrest : cell.toList.dropWhile (· != '=') = '=' :: default := by
    rw [hcell, List.dropWhile_append_of_pos hname, List.dropWhile_cons_of_neg (by simp)]
  simp only [readNameCell, hfront, hrest]
  rfl

theorem readNameCell_eq_ok_iff {column : Nat} {cell name : String} {default? : Option String} :
    readNameCell column cell = .ok (name, default?) ↔ NameCell cell name default? := by
  constructor
  · intro h
    by_cases hmem : '=' ∈ cell.toList
    · obtain ⟨before, default, hcell, hfirst⟩ := List.eq_append_cons_of_mem hmem
      rw [readNameCell_of_eq_append hcell hfirst] at h
      obtain ⟨_, hread, hok⟩ := bind_eq_ok.1 h
      obtain ⟨rfl, hidentifier⟩ := readName_eq_ok_iff.1 hread
      obtain ⟨rfl, rfl⟩ := Prod.mk.inj (Except.ok.inj hok)
      exact .withDefault hcell hfirst hidentifier
    · rw [readNameCell_of_not_mem hmem] at h
      obtain ⟨_, hread, hok⟩ := bind_eq_ok.1 h
      obtain ⟨rfl, hidentifier⟩ := readName_eq_ok_iff.1 hread
      obtain ⟨rfl, rfl⟩ := Prod.mk.inj (Except.ok.inj hok)
      exact .alone hidentifier
  · intro h
    cases h with
    | alone hname =>
        rw [readNameCell_of_not_mem (equals_not_mem_of_isIdentifier hname), readName_eq_ok_iff.2 ⟨rfl, hname⟩]
        rfl
    | withDefault hcell hfirst hname =>
        rw [readNameCell_of_eq_append hcell hfirst, readName_eq_ok_iff.2 ⟨rfl, hname⟩]
        rfl

/-! ### Forms of type cells -/

theorem readType_eq_ok_iff {column : Nat} {token word : String} {type : ValueType} :
    readType column token word = .ok type ↔ word = type.word ∧ type.WellNamed := by
  rw [readType]
  constructor
  · intro h
    split at h
    · cases h
    · split at h
      · next hread =>
        cases h
        exact ValueType.read?_eq_some_iff.1 hread
      · cases h
  · rintro ⟨rfl, hnamed⟩
    rw [if_neg (by rw [isRepeated_of_bracket_not_mem (ValueType.bracket_not_mem_word hnamed)]; decide),
      ValueType.read?_eq_some_iff.2 ⟨rfl, hnamed⟩]

theorem readField_of_nameCell (column : Nat) {heading : Heading} (type : ValueType) {name : String}
    {default? : Option String} (h : NameCell (Text.trim heading.name) name default?) :
    readField column heading type = .ok ⟨column, name, type, default?, heading.comment⟩ := by
  rw [readField, readNameCell_eq_ok_iff.2 h]
  rfl

theorem readField_eq_ok_iff {column : Nat} {heading : Heading} {type : ValueType} {field : ValueColumn} :
    readField column heading type = .ok field ↔
      ∃ name default?, NameCell (Text.trim heading.name) name default?
        ∧ field = ⟨column, name, type, default?, heading.comment⟩ := by
  rw [readField, bind_eq_ok]
  constructor
  · rintro ⟨⟨name, default?⟩, hread, hfield⟩
    exact ⟨name, default?, readNameCell_eq_ok_iff.1 hread, (Except.ok.inj hfield).symm⟩
  · rintro ⟨name, default?, hname, rfl⟩
    exact bind_eq_ok.1 (readField_of_nameCell column type hname)

end Descriptor

open Descriptor in
/-- What the heading of a column says, where so many marks of a repetition stand behind the word in its type cell. -/
inductive Heading.Says (heading : Heading) (column : Nat) : Nat → Descriptor → Prop
  | skip (hcell : Text.words heading.type = []) :
      Says heading column 0 (.skip (Text.trim heading.name) heading.comment)
  | required {type : ValueType} {name : String} {default? : Option String}
      (hcell : Text.words heading.type = [type.word] ∨ Text.words heading.type = ["required", type.word])
      (htype : type.WellNamed) (hname : NameCell (Text.trim heading.name) name default?) :
      Says heading column 0 (.value ⟨column, name, type, default?, heading.comment⟩ false)
  | optional {type : ValueType} {name : String} {default? : Option String}
      (hcell : Text.words heading.type = ["optional", type.word])
      (htype : type.WellNamed) (hname : NameCell (Text.trim heading.name) name default?) :
      Says heading column 0 (.value ⟨column, name, type, default?, heading.comment⟩ true)
  | inline {n : Nat} {type : ValueType} {name : String} {default? : Option String}
      (hcell : Text.words heading.type = [type.word ++ marks (n + 1)])
      (htype : type.WellNamed) (hname : NameCell (Text.trim heading.name) name default?) :
      Says heading column (n + 1) (.inline ⟨column, name, type, default?, heading.comment⟩)
  | count {n max : Nat} {numeral : String} (hcell : Text.words heading.type = [numeral ++ marks (n + 1)])
      (hdigit : numeral.toList.head?.any Text.isDigit = true) (hmax : Whole.count? numeral = some max)
      (hpos : 0 < max) :
      Says heading column (n + 1) (.count max heading.comment)
  | struct {required : Bool} {size : String} {members : Nat}
      (hcell : Text.words heading.type = [if required then "required_struct" else "optional_struct", size])
      (hsize : Whole.count? size = some members) (hpos : 0 < members)
      (htypeName : Text.isIdentifier (Text.trim heading.name) = true)
      (hname : Text.isIdentifier (Text.trim heading.comment) = true) :
      Says heading column 0
        (.struct ⟨column, Text.trim heading.comment, Text.trim heading.name, required⟩ members)

namespace Descriptor

variable {column : Nat} {heading : Heading} {d : Descriptor}

/-! ### What is read is what the heading says -/

theorem says_of_readValue (optional : Bool) {token : String}
    (hcell : optional = false ∧ Text.words heading.type = [word]
      ∨ Text.words heading.type = [if optional then "optional" else "required", word])
    (h : (do return .value (← readField column heading (← readType column token word)) optional) = Except.ok d) :
    heading.Says column 0 d := by
  obtain ⟨type, hread, h⟩ := bind_eq_ok.1 h
  obtain ⟨field, hfield, hd⟩ := bind_eq_ok.1 h
  obtain ⟨rfl, htype⟩ := readType_eq_ok_iff.1 hread
  obtain ⟨name, default?, hname, rfl⟩ := readField_eq_ok_iff.1 hfield
  cases hd
  cases optional with
  | false => exact .required (hcell.imp_left And.right) htype hname
  | true =>
      rcases hcell with ⟨hrequired, -⟩ | hcell
      · cases hrequired
      · exact .optional hcell htype hname

theorem says_of_readRepeated (hword : isRepeated word = true) (hcell : Text.words heading.type = [word])
    (h : readRepeated column heading word = .ok d) : ∃ n, heading.Says column n d := by
  obtain ⟨n, hmarks⟩ := exists_marks_of_isRepeated hword
  rw [hmarks] at hcell
  refine ⟨n + 1, ?_⟩
  simp only [readRepeated] at h
  split at h
  · next hdigit =>
    split at h
    · next max hmax =>
      cases h
      exact .count hcell hdigit hmax (Nat.succ_pos max)
    · cases h
  · split at h
    · next type htype =>
      obtain ⟨field, hfield, hd⟩ := bind_eq_ok.1 h
      obtain ⟨name, default?, hname, rfl⟩ := readField_eq_ok_iff.1 hfield
      obtain ⟨helement, hnamed⟩ := ValueType.read?_eq_some_iff.1 htype
      cases hd
      rw [helement] at hcell
      exact .inline hcell hnamed hname
    · cases h

theorem says_of_readStruct (required : Bool) {size : String}
    (hcell : Text.words heading.type = [if required then "required_struct" else "optional_struct", size])
    (h : readStruct column heading required size = .ok d) : heading.Says column 0 d := by
  rw [readStruct] at h
  split at h
  · next members hsize =>
    obtain ⟨typeName, hreadType, h⟩ := bind_eq_ok.1 h
    obtain ⟨name, hreadName, hd⟩ := bind_eq_ok.1 h
    obtain ⟨htypeName, hidentifierType⟩ := readName_eq_ok_iff.1 hreadType
    obtain ⟨hname, hidentifier⟩ := readName_eq_ok_iff.1 hreadName
    rw [htypeName, hname] at hd
    rw [← Except.ok.inj hd]
    exact .struct hcell hsize (Nat.succ_pos members) hidentifierType hidentifier
  · cases h

theorem says_of_read (h : read column heading = .ok d) : ∃ n, heading.Says column n d := by
  have hwords : Text.words heading.token = Text.words heading.type := Text.words_trim heading.type
  rw [read] at h
  simp only [hwords] at h
  split at h
  · next hcell =>
    cases h
    exact ⟨0, .skip hcell⟩
  · next word hcell =>
    split at h
    · next hword => exact says_of_readRepeated hword hcell h
    · exact ⟨0, says_of_readValue false (.inl ⟨rfl, hcell⟩) h⟩
  · next word hcell => exact ⟨0, says_of_readValue false (.inr hcell) h⟩
  · next word hcell => exact ⟨0, says_of_readValue true (.inr hcell) h⟩
  · next size hcell => exact ⟨0, says_of_readStruct true hcell h⟩
  · next size hcell => exact ⟨0, says_of_readStruct false hcell h⟩
  · cases h

/-! ### What the heading says is what is read -/

theorem readType_word (column : Nat) (token : String) {type : ValueType} (htype : type.WellNamed) :
    readType column token type.word = .ok type :=
  readType_eq_ok_iff.2 ⟨rfl, htype⟩

theorem bracket_not_mem_of_count? {numeral : String} {max : Nat} (h : Whole.count? numeral = some max) :
    ']' ∉ numeral.toList :=
  fun hmem => absurd (Whole.alphabet_of_count? h ']' hmem (by decide)) (by decide)

theorem readRepeated_of_count {n max : Nat} {numeral : String} (hdigit : numeral.toList.head?.any Text.isDigit = true)
    (hmax : Whole.count? numeral = some max) (hpos : 0 < max) :
    readRepeated column heading (numeral ++ marks n) = .ok (.count max heading.comment) := by
  obtain ⟨max, rfl⟩ := Nat.exists_eq_succ_of_ne_zero (Nat.ne_of_gt hpos)
  simp only [readRepeated, element_append_marks (bracket_not_mem_of_count? hmax) n, hdigit, hmax]
  rfl

theorem readRepeated_of_type {n : Nat} {type : ValueType} {name : String} {default? : Option String}
    (htype : type.WellNamed) (hname : NameCell (Text.trim heading.name) name default?) :
    readRepeated column heading (type.word ++ marks n)
      = .ok (.inline ⟨column, name, type, default?, heading.comment⟩) := by
  simp only [readRepeated, element_append_marks (ValueType.bracket_not_mem_word htype) n,
    ValueType.head?_word_any_isDigit, ValueType.read?_eq_some_iff.2 ⟨rfl, htype⟩, readField_of_nameCell column _ hname]
  rfl

theorem readStruct_of_size {required : Bool} {size : String} {members : Nat} (hsize : Whole.count? size = some members)
    (hpos : 0 < members) (htypeName : Text.isIdentifier (Text.trim heading.name) = true)
    (hname : Text.isIdentifier (Text.trim heading.comment) = true) :
    readStruct column heading required size
      = .ok (.struct ⟨column, Text.trim heading.comment, Text.trim heading.name, required⟩ members) := by
  obtain ⟨members, rfl⟩ := Nat.exists_eq_succ_of_ne_zero (Nat.ne_of_gt hpos)
  simp only [readStruct, hsize, readName_eq_ok_iff.2 ⟨rfl, htypeName⟩, readName_eq_ok_iff.2 ⟨rfl, hname⟩]
  rfl

theorem read_of_says {n : Nat} (h : heading.Says column n d) : read column heading = .ok d := by
  have hwords : Text.words heading.token = Text.words heading.type := Text.words_trim heading.type
  rw [read]
  cases h with
  | skip hcell =>
      simp only [hwords, hcell]
      rfl
  | required hcell htype hname =>
      rcases hcell with hcell | hcell
      · have hplain := isRepeated_of_bracket_not_mem (ValueType.bracket_not_mem_word htype)
        simp only [hwords, hcell, hplain, readType_word column _ htype]
        simp only [bind, Except.bind, readField_of_nameCell column _ hname]
        rfl
      · simp only [hwords, hcell, readType_word column _ htype]
        simp only [bind, Except.bind, readField_of_nameCell column _ hname]
        rfl
  | optional hcell htype hname =>
      simp only [hwords, hcell, readType_word column _ htype]
      simp only [bind, Except.bind, readField_of_nameCell column _ hname]
      rfl
  | inline hcell htype hname =>
      simp only [hwords, hcell, isRepeated_append_marks, if_true]
      exact readRepeated_of_type htype hname
  | count hcell hdigit hmax hpos =>
      simp only [hwords, hcell, isRepeated_append_marks, if_true]
      exact readRepeated_of_count hdigit hmax hpos
  | @struct required _ _ hcell hsize hpos htypeName hname =>
      cases required
      · simp only [hwords, hcell]
        exact readStruct_of_size hsize hpos htypeName hname
      · simp only [hwords, hcell]
        exact readStruct_of_size hsize hpos htypeName hname

/-! ### Faults -/

section Faults

variable {fault : Malformed}

theorem column_of_readName {role : NameRole} {text : String} (h : readName column role text = .error fault) :
    fault.column = column := by
  rw [readName] at h
  split at h
  · cases h
  · cases h
    rfl

theorem column_of_readNameCell {cell : String} (h : readNameCell column cell = .error fault) :
    fault.column = column := by
  by_cases hmem : '=' ∈ cell.toList
  · obtain ⟨name, default, hcell, hfirst⟩ := List.eq_append_cons_of_mem hmem
    rw [readNameCell_of_eq_append hcell hfirst] at h
    rcases bind_eq_error.1 h with h | ⟨_, _, h⟩
    · exact column_of_readName h
    · cases h
  · rw [readNameCell_of_not_mem hmem] at h
    rcases bind_eq_error.1 h with h | ⟨_, _, h⟩
    · exact column_of_readName h
    · cases h

theorem column_of_readField {type : ValueType} (h : readField column heading type = .error fault) :
    fault.column = column := by
  rw [readField] at h
  rcases bind_eq_error.1 h with h | ⟨_, _, h⟩
  · exact column_of_readNameCell h
  · cases h

theorem column_of_readType {token word : String} (h : readType column token word = .error fault) :
    fault.column = column := by
  rw [readType] at h
  split at h
  · cases h
    rfl
  · split at h
    · cases h
    · cases h
      rfl

theorem column_of_readValue {token word : String} {optional : Bool}
    (h : (do return Descriptor.value (← readField column heading (← readType column token word)) optional)
      = Except.error fault) : fault.column = column := by
  rcases bind_eq_error.1 h with h | ⟨_, _, h⟩
  · exact column_of_readType h
  · rcases bind_eq_error.1 h with h | ⟨_, _, h⟩
    · exact column_of_readField h
    · cases h

theorem column_of_readRepeated {word : String} (h : readRepeated column heading word = .error fault) :
    fault.column = column := by
  simp only [readRepeated] at h
  split at h
  · split at h
    · cases h
    · cases h
      rfl
  · split at h
    · rcases bind_eq_error.1 h with h | ⟨_, _, h⟩
      · exact column_of_readField h
      · cases h
    · cases h
      rfl

theorem column_of_readStruct {required : Bool} {size : String}
    (h : readStruct column heading required size = .error fault) : fault.column = column := by
  rw [readStruct] at h
  split at h
  · rcases bind_eq_error.1 h with h | ⟨_, _, h⟩
    · exact column_of_readName h
    · rcases bind_eq_error.1 h with h | ⟨_, _, h⟩
      · exact column_of_readName h
      · cases h
  · cases h
    rfl

theorem column_of_read_error (h : read column heading = .error fault) : fault.column = column := by
  rw [read] at h
  split at h
  · cases h
  · split at h
    · exact column_of_readRepeated h
    · exact column_of_readValue h
  · exact column_of_readValue h
  · exact column_of_readValue h
  · exact column_of_readStruct h
  · exact column_of_readStruct h
  · cases h
    rfl

end Faults

end Descriptor

/-! ### One mark and several -/

/-- Whether the type cell is a word that ends in two marks of a repetition, if not more. -/
def Heading.DoublesMark (heading : Heading) : Prop :=
  ∃ word, Text.words heading.type = [word] ∧ "[][]".toList <:+ word.toList

namespace Descriptor

variable {word : String} {column : Nat} {heading : Heading} {d : Descriptor}

theorem doubled_suffix_iff (h : ']' ∉ word.toList) (n : Nat) :
    "[][]".toList <:+ (word ++ marks n).toList ↔ 1 < n := by
  match n with
  | 0 =>
      have hnone : word ++ marks 0 = word := String.append_empty
      rw [hnone]
      exact ⟨fun hsuffix => absurd (hsuffix.subset (by decide)) h, fun hlt => absurd hlt (Nat.not_lt_zero 1)⟩
  | 1 =>
      refine ⟨fun ⟨front, hfront⟩ => ?_, fun hlt => absurd hlt (Nat.lt_irrefl 1)⟩
      have hword : (front ++ "[]".toList) ++ "[]".toList = word.toList ++ "[]".toList := by
        rw [List.append_assoc]
        exact hfront.trans String.toList_append
      have hmem : ']' ∈ front ++ "[]".toList := List.mem_append_right front (by decide)
      exact absurd (List.append_cancel_right hword ▸ hmem) h
  | n + 2 =>
      refine ⟨fun _ => by omega, fun _ => ?_⟩
      rw [marks_succ, marks_succ, String.append_assoc, ← String.append_assoc, String.toList_append]
      exact List.suffix_append _ _

/-- The type cell tells whether there are several marks. -/
theorem doublesMark_iff {n : Nat} (h : heading.Says column n d) : heading.DoublesMark ↔ 1 < n := by
  have hsingle {word : String} (hcell : Text.words heading.type = [word]) :
      heading.DoublesMark ↔ "[][]".toList <:+ word.toList := by
    refine ⟨fun ⟨word', hcell', hsuffix⟩ => ?_, fun hsuffix => ⟨word, hcell, hsuffix⟩⟩
    rwa [List.singleton_inj.1 (hcell.symm.trans hcell')]
  have hseveral {word other : String} (hcell : Text.words heading.type = [word, other]) : ¬heading.DoublesMark :=
    fun ⟨_, hword, _⟩ => absurd (hcell.symm.trans hword) (by simp)
  cases h with
  | skip hcell => exact iff_of_false (fun ⟨_, hword, _⟩ => absurd (hcell.symm.trans hword) nofun) (by decide)
  | @required type _ _ hcell htype =>
      refine iff_of_false ?_ (by decide)
      rcases hcell with hcell | hcell
      · rw [hsingle hcell]
        exact fun hsuffix => ValueType.bracket_not_mem_word htype (hsuffix.subset (by decide))
      · exact hseveral hcell
  | optional hcell => exact iff_of_false (hseveral hcell) (by decide)
  | inline hcell htype => rw [hsingle hcell, doubled_suffix_iff (ValueType.bracket_not_mem_word htype)]
  | count hcell _ hmax => rw [hsingle hcell, doubled_suffix_iff (bracket_not_mem_of_count? hmax)]
  | struct hcell => exact iff_of_false (hseveral hcell) (by decide)

end Descriptor

/-- A column is read as what its heading says, for any number of marks, and a fault names the column. With at most one
mark this is the whole grammar, except of a column whose type cell has several marks and is read all the same. -/
theorem Header.descriptor_eq_ok_iff_says (h : Header) (column : Nat) :
    (∀ d, h.descriptor column = .ok d ↔ ∃ n, (h.heading column).Says column n d)
      ∧ (∀ fault, h.descriptor column = .error fault → fault.column = column)
      ∧ ((∀ d, h.descriptor column = .ok d ↔ ∃ n ≤ 1, (h.heading column).Says column n d)
        ↔ ¬((h.heading column).DoublesMark ∧ ∃ d, h.descriptor column = .ok d)) := by
  have hread (d : Descriptor) : h.descriptor column = .ok d ↔ ∃ n, (h.heading column).Says column n d :=
    ⟨Descriptor.says_of_read, fun ⟨_, hsays⟩ => Descriptor.read_of_says hsays⟩
  refine ⟨hread, fun _ => Descriptor.column_of_read_error, ?_, ?_⟩
  · rintro hexact ⟨hdoubled, d, hd⟩
    obtain ⟨n, hle, hsays⟩ := (hexact d).1 hd
    exact absurd ((Descriptor.doublesMark_iff hsays).1 hdoubled) (Nat.not_lt.2 hle)
  · intro hnot d
    rw [hread]
    constructor
    · rintro ⟨n, hsays⟩
      refine ⟨n, ?_, hsays⟩
      by_contra hlt
      exact hnot ⟨(Descriptor.doublesMark_iff hsays).2 (Nat.not_le.1 hlt), d, (hread d).2 ⟨n, hsays⟩⟩
    · rintro ⟨n, -, hsays⟩
      exact ⟨n, hsays⟩

/-- A list and a repetition, with two marks each. -/
def doubleMarks : Header := ⟨[⟨"", "int32[][]", "levels"⟩, ⟨"", "3[][]", ""⟩, ⟨"", "string", "tags"⟩]⟩

/-- Both are read as with one mark, although with at most one their headings say nothing. -/
theorem doubleMarks_read_as_single :
    doubleMarks.descriptor 0 = .ok (.inline ⟨0, "levels", .scalar .int32, none, ""⟩)
      ∧ doubleMarks.descriptor 1 = .ok (.count 3 "")
      ∧ ∀ column < 2, ¬∃ d, ∃ n ≤ 1, (doubleMarks.heading column).Says column n d := by
  have hdoubled : ∀ column < 2, (doubleMarks.heading column).DoublesMark
    | 0, _ => ⟨"int32[][]", by decide +kernel, by decide⟩
    | 1, _ => ⟨"3[][]", by decide +kernel, by decide⟩
  refine ⟨by decide +kernel, by decide +kernel, ?_⟩
  rintro column hlt ⟨d, n, hle, hsays⟩
  exact absurd ((Descriptor.doublesMark_iff hsays).1 (hdoubled column hlt)) (Nat.not_lt.2 hle)

end SheetCompiler

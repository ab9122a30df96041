import Mathlib.Data.Nat.Digits.Defs
import SheetCompiler.Proofs.EnumTable
import SheetCompiler.Proofs.EnumTable.Search
import SheetCompiler.Proofs.Header.Grammar
import SheetCompiler.Proofs.Number.Spelling
import SheetCompiler.Proofs.Text.Comments

/-!
# Enums that are printed

A source of enum blocks and messages, the messages nested to any depth, is printed with any blanks between its tokens.
Numbers are spelled in decimal or in hexadecimal digits. What is found in the printed text is every block with every one
of its members, in order, and nothing else.

The parts of a source carry what makes them well-formed: names are identifiers, gaps are blank, and numbers have a digit.
-/

namespace SheetCompiler

namespace EnumTable.Printed

open EnumTable.Source

/-! ### Sources -/

structure Gap where
  chars : List Char
  blank : ∀ c ∈ chars, Text.isSpace c = true

structure Space extends Gap where
  nonempty : chars ≠ []

structure Name where
  text : String
  identifier : Text.isIdentifier text = true

/-- A natural number with one or more digits, the most significant one first. Letters among the digits and the mark of
hexadecimal digits are in either case. -/
inductive Magnitude where
  | decimal (first : Fin 10) (others : List (Fin 10))
  | hexadecimal (capital : Bool) (first : Fin 16 × Bool) (others : List (Fin 16 × Bool))

namespace Magnitude

def value : Magnitude → Nat
  | decimal first others => Nat.ofDigits 10 ((first :: others).map fun digit => digit.val).reverse
  | hexadecimal _ first others => Nat.ofDigits 16 ((first :: others).map fun digit => digit.1.val).reverse

def decimalChar (digit : Fin 10) : Char := digit.val.digitChar

def hexadecimalChar (digit : Fin 16 × Bool) : Char :=
  if digit.2 then digit.1.val.digitChar.toUpper else digit.1.val.digitChar

def chars : Magnitude → List Char
  | decimal first others => (first :: others).map decimalChar
  | hexadecimal capital first others =>
      '0' :: (if capital then 'X' else 'x') :: (first :: others).map hexadecimalChar

end Magnitude

/-- An integer, with a minus or without. -/
structure Literal where
  negative : Bool
  magnitude : Magnitude

namespace Literal

def value (l : Literal) : Int := if l.negative then -l.magnitude.value else l.magnitude.value

def number? (l : Literal) : Option Int32 :=
  if -2 ^ 31 ≤ l.value ∧ l.value < 2 ^ 31 then some (Int32.ofInt l.value) else none

def chars (l : Literal) : List Char := if l.negative then '-' :: l.magnitude.chars else l.magnitude.chars

end Literal

structure Member where
  name : Name
  beforeEquals : Gap
  behindEquals : Gap
  literal : Literal
  beforeEnd : Gap
  behindEnd : Gap

namespace Member

/-- What a member looks like behind its number. -/
def ending (m : Member) : List Char := m.beforeEnd.chars ++ ';' :: m.behindEnd.chars

def chars (m : Member) : List Char :=
  m.name.text.toList ++ (m.beforeEquals.chars ++ '=' :: (m.behindEquals.chars ++ (m.literal.chars ++ m.ending)))

end Member

structure Block where
  behindEnum : Space
  name : Name
  beforeBrace : Gap
  behindBrace : Gap
  members : List Member

namespace Block

def body (b : Block) : List Char := b.behindBrace.chars ++ b.members.flatMap Member.chars

def chars (b : Block) : List Char :=
  enumWord ++ (b.behindEnum.chars ++ (b.name.text.toList ++ (b.beforeBrace.chars ++ '\x7b' :: (b.body ++ ['\x7d']))))

/-- The members with a number of 32 bits. -/
def fitting (b : Block) : List (String × Int32) :=
  b.members.filterMap fun m => m.literal.number?.map fun number => (m.name.text, number)

/-- Makes the enum known and adds its members to it. -/
def register (t : EnumTable) (b : Block) : EnumTable :=
  b.fitting.foldl (fun t (member, number) => t.insert b.name.text member number) (t.declare b.name.text)

end Block

/-- A message without what it holds. -/
structure Wrapper where
  behindMessage : Space
  name : Name
  beforeBrace : Gap
  behindBrace : Gap
  behind : Gap

def messageWord : List Char := "message".toList

def Wrapper.chars (w : Wrapper) (inside : List Char) : List Char :=
  messageWord ++ (w.behindMessage.chars ++ (w.name.text.toList ++ (w.beforeBrace.chars ++ '\x7b' ::
    (w.behindBrace.chars ++ (inside ++ '\x7d' :: w.behind.chars)))))

/-- A block, or a message with blocks and messages in it. -/
inductive Item where
  | block (block : Block) (behind : Gap)
  | message (wrapper : Wrapper) (items : List Item)

mutual

def Item.chars : Item → List Char
  | .block b behind => b.chars ++ behind.chars
  | .message wrapper items => wrapper.chars (Item.charsAll items)

def Item.charsAll : List Item → List Char
  | [] => []
  | item :: items => Item.chars item ++ Item.charsAll items

end

mutual

def Item.blocks : Item → List Block
  | .block b _ => [b]
  | .message _ items => Item.blocksAll items

def Item.blocksAll : List Item → List Block
  | [] => []
  | item :: items => Item.blocks item ++ Item.blocksAll items

end

/-- The source that begins with blanks and goes on with items. -/
def source (lead : Gap) (items : List Item) : String := String.ofList (lead.chars ++ Item.charsAll items)

/-- The members with a number of 32 bits that the blocks of a name have. -/
def membersOf (blocks : List Block) (name : String) : List (String × Int32) :=
  (blocks.filter (·.name.text == name)).flatMap Block.fitting

/-! ### Names and numbers -/

namespace Name

theorem word (n : Name) : ∀ c ∈ n.text.toList, Text.isWordChar c = true :=
  fun _ hc => Text.isWordChar_of_continuesIdentifier (Text.continuesIdentifier_of_mem n.identifier hc)

theorem exists_head (n : Name) :
    ∃ first rest, n.text.toList = first :: rest ∧ Text.startsIdentifier first = true :=
  Text.exists_head_of_isIdentifier n.identifier

theorem ne_nil (n : Name) : n.text.toList ≠ [] := by
  obtain ⟨first, rest, hfirst, -⟩ := n.exists_head
  rw [hfirst]
  exact List.cons_ne_nil first rest

theorem head_not_blank (n : Name) (s : List Char) : ∀ c ∈ (n.text.toList ++ s).head?, Text.isSpace c = false := by
  obtain ⟨first, rest, hfirst, hstarts⟩ := n.exists_head
  intro c hc
  rw [hfirst] at hc
  cases hc
  apply Text.isSpace_of_continuesIdentifier
  rw [Text.continuesIdentifier, hstarts, Bool.true_or]

end Name

namespace Magnitude

theorem decimalChar_spec (digit : Fin 10) :
    Text.isDigit (decimalChar digit) = true ∧ (decimalChar digit).toNat - '0'.toNat = digit.val := by
  revert digit
  decide

theorem hexadecimalChar_spec (digit : Fin 16 × Bool) :
    Hexadecimal.isDigit (hexadecimalChar digit) = true ∧ Hexadecimal.digitValue (hexadecimalChar digit) = digit.1.val := by
  obtain ⟨value, capital⟩ := digit
  cases capital <;> revert value <;> decide

/-- Reading digits one after the other gives the number that they spell. -/
theorem foldl_digits {α : Type} (base : Nat) (value : α → Nat) (digits : List α) :
    digits.foldl (fun n digit => base * n + value digit) 0 = Nat.ofDigits base (digits.map value).reverse := by
  rw [Nat.ofDigits_eq_foldr, List.foldr_reverse, List.foldl_map]
  simp only [Nat.cast_id, Nat.add_comm]

theorem ofDigits_decimal (digits : List (Fin 10)) :
    Numeral.ofDigits (digits.map decimalChar) = Nat.ofDigits 10 (digits.map fun digit => digit.val).reverse := by
  rw [Numeral.ofDigits, List.foldl_map, ← foldl_digits]
  simp only [(decimalChar_spec _).2]

theorem ofDigits_hexadecimal (digits : List (Fin 16 × Bool)) :
    Hexadecimal.ofDigits (digits.map hexadecimalChar) = Nat.ofDigits 16 (digits.map fun digit => digit.1.val).reverse := by
  rw [Hexadecimal.ofDigits, List.foldl_map, ← foldl_digits]
  simp only [(hexadecimalChar_spec _).2]

variable {s : List Char}

/-- Behind digits there is no mark of hexadecimal ones. -/
theorem takeMark_of_digits {mark : Char} (hmark : mark ∈ ['x', 'X']) {digits : List Char}
    (hdigits : ∀ c ∈ digits, Text.isDigit c = true) (hs : EndsWord s) : takeMark mark (digits ++ s) = none := by
  obtain ⟨hdigit, hword⟩ : Text.isDigit mark = false ∧ Text.isWordChar mark = true := by
    rcases List.mem_cons.1 hmark with rfl | hmark
    · decide
    · rw [List.mem_singleton.1 hmark]
      decide
  apply takeMark_of_ne
  rintro c hc rfl
  cases digits with
  | nil =>
      rw [hs c hc] at hword
      cases hword
  | cons digit digits =>
      cases hc
      rw [hdigits _ List.mem_cons_self] at hdigit
      cases hdigit

theorem takeHexadecimal_of_digits {digits : List Char} (hdigits : ∀ c ∈ digits, Text.isDigit c = true)
    (hne : digits ≠ []) (hs : EndsWord s) : takeHexadecimal (digits ++ s) = none := by
  cases digits with
  | nil => exact absurd rfl hne
  | cons digit digits =>
      have hrest := (List.forall_mem_cons.1 hdigits).2
      rw [List.cons_append, takeHexadecimal, takeMark]
      split
      · rw [Option.bind_some, takeMark_of_digits (by decide) hrest hs, takeMark_of_digits (by decide) hrest hs]
        rfl
      · rfl

theorem takeMagnitude_decimal {digits : List Char} (hdigits : ∀ c ∈ digits, Text.isDigit c = true) (hne : digits ≠ [])
    (hs : EndsWord s) : takeMagnitude (digits ++ s) = some (some (Numeral.ofDigits digits), s) := by
  have hall : ∀ c ∈ digits, Text.isDecimalDigit c = true := fun c hc => Text.isDecimalDigit_of_isDigit (hdigits c hc)
  obtain ⟨htake, hdrop⟩ := takeWhile_append_of_endsWord (fun _ => Text.isWordChar_of_isDecimalDigit) hall hs
  have hnatural : Numeral.natural? digits = some (Numeral.ofDigits digits) :=
    Numeral.natural?_digits (List.all_eq_true.2 hdigits) hne
  rw [takeMagnitude_eq, takeHexadecimal_of_digits hdigits hne hs, Option.none_or, takeDecimal, htake, hdrop, ← hnatural]
  cases digits with
  | nil => exact absurd rfl hne
  | cons digit digits => rfl

theorem takeMagnitude_hexadecimal {mark : Char} (hmark : mark ∈ ['x', 'X']) {digits : List Char}
    (hdigits : ∀ c ∈ digits, Hexadecimal.isDigit c = true) (hne : digits ≠ []) (hs : EndsWord s) :
    takeMagnitude ('0' :: mark :: (digits ++ s)) = some (some (Hexadecimal.ofDigits digits), s) := by
  obtain ⟨htake, hdrop⟩ := takeWhile_append_of_endsWord
    (fun _ h => Text.isWordChar_of_continuesIdentifier (Hexadecimal.continuesIdentifier_of_isDigit h)) hdigits hs
  have hread (s : List Char) : (takeMark 'x' (mark :: s)).or (takeMark 'X' (mark :: s)) = some s := by
    rcases List.mem_cons.1 hmark with rfl | hmark
    · rfl
    · rw [List.mem_singleton.1 hmark]
      rfl
  rw [takeMagnitude_eq, takeHexadecimal, takeMark_self, Option.bind_some, hread, Option.bind_some, takeHexDigits, htake, hdrop]
  cases digits with
  | nil => exact absurd rfl hne
  | cons digit digits => rfl

theorem takeMagnitude_chars (m : Magnitude) (hs : EndsWord s) : takeMagnitude (m.chars ++ s) = some (some m.value, s) := by
  cases m with
  | decimal first others =>
      have hdigits : ∀ c ∈ (first :: others).map decimalChar, Text.isDigit c = true := by
        intro c hc
        obtain ⟨digit, -, rfl⟩ := List.mem_map.1 hc
        exact (decimalChar_spec digit).1
      rw [chars, takeMagnitude_decimal hdigits (by simp) hs, ofDigits_decimal, value]
  | hexadecimal capital first others =>
      have hdigits : ∀ c ∈ (first :: others).map hexadecimalChar, Hexadecimal.isDigit c = true := by
        intro c hc
        obtain ⟨digit, -, rfl⟩ := List.mem_map.1 hc
        exact (hexadecimalChar_spec digit).1
      have hmark : (if capital then 'X' else 'x') ∈ ['x', 'X'] := by
        cases capital <;> decide
      rw [chars, List.cons_append, List.cons_append, takeMagnitude_hexadecimal hmark hdigits (by simp) hs,
        ofDigits_hexadecimal, value]

theorem exists_head (m : Magnitude) (s : List Char) :
    ∃ first rest, m.chars ++ s = first :: rest ∧ Text.isSpace first = false ∧ first ≠ '-' := by
  cases m with
  | decimal first others =>
      refine ⟨decimalChar first, _, rfl, ?_⟩
      revert first
      decide
  | hexadecimal capital first others => exact ⟨'0', _, rfl, by decide⟩

end Magnitude

/-! ### Members -/

namespace Literal

theorem number?_eq (l : Literal) : Source.number? l.negative l.magnitude.value = l.number? := by
  rw [Source.number?, number?, value]

/-- A literal in front of the end of a word is read to its end. -/
theorem takeNumber_chars (l : Literal) (gap : Gap) {s : List Char} (hs : EndsWord s) :
    takeNumber (gap.chars ++ (l.chars ++ s)) = some (l.number?, s) := by
  obtain ⟨first, rest, hfirst, hblank, hminus⟩ := l.magnitude.exists_head s
  have hread := l.magnitude.takeMagnitude_chars hs
  have hnumber := l.number?_eq
  cases hsign : l.negative with
  | true =>
      rw [hsign] at hnumber
      rw [chars, if_pos hsign, List.cons_append, takeNumber, trimStart_gap_cons gap.blank (by decide), takeMinus]
      dsimp only
      rw [hread, Option.map_some, Option.bind_some, hnumber]
  | false =>
      have hhead : ∀ c ∈ (l.magnitude.chars ++ s).head?, Text.isSpace c = false := by
        rw [hfirst]
        intro c hc
        cases hc
        exact hblank
      have hminus : takeMinus (l.magnitude.chars ++ s) = (false, l.magnitude.chars ++ s) := by
        rw [hfirst, takeMinus]
        exact fun rest heq => hminus (List.cons.inj heq).1
      rw [hsign] at hnumber
      rw [chars, if_neg (by simp [hsign]), takeNumber, trimStart_gap_append gap.blank hhead, hminus]
      dsimp only
      rw [hread, Option.map_some, Option.bind_some, hnumber]

end Literal

namespace Member

variable (m : Member)

theorem endsWord_ending (s : List Char) : EndsWord (m.ending ++ s) := by
  rw [ending, List.append_assoc]
  exact endsWord_gap_append m.beforeEnd.blank (endsWord_cons (by decide) _)

theorem takeMember_chars (s : List Char) :
    takeMember (m.chars ++ s) = some ((m.name.text, m.literal.number?), m.ending ++ s) := by
  obtain ⟨first, rest, hfirst, hstarts⟩ := m.name.exists_head
  rw [chars]
  simp only [List.append_assoc, List.cons_append]
  have hends : EndsWord (m.beforeEquals.chars ++ '=' :: (m.behindEquals.chars ++ (m.literal.chars ++ (m.ending ++ s)))) :=
    endsWord_gap_append m.beforeEquals.blank (endsWord_cons (by decide) _)
  have hhead (s : List Char) : (m.name.text.toList ++ s).head?.any Text.startsIdentifier = true := by
    rw [hfirst]
    exact hstarts
  rw [takeMember_eq, if_pos (hhead _), takeName_word_append m.name.word m.name.ne_nil hends, Option.bind_some]
  dsimp only
  rw [trimStart_gap_cons m.beforeEquals.blank (by decide), takeMark_self, Option.bind_some,
    m.literal.takeNumber_chars m.behindEquals (m.endsWord_ending s), Option.map_some, String.ofList_toList]

theorem search_ending (s : List Char) : search takeMember false false (m.ending ++ s) = search takeMember false true s := by
  rw [search_of_endsWord takeMember_of_not_word (m.endsWord_ending s), ending, List.append_assoc,
    search_gap takeMember_of_not_word m.beforeEnd.blank, List.cons_append,
    search_cons_of_not_word takeMember_of_not_word (by decide), search_gap takeMember_of_not_word m.behindEnd.blank]

theorem search_chars (s : List Char) :
    search takeMember false true (m.chars ++ s)
      = (m.name.text, m.literal.number?) :: search takeMember false true s := by
  obtain ⟨front, hfront, hne⟩ : ∃ front, m.chars = front ++ m.ending ∧ front ≠ [] := by
    refine ⟨m.name.text.toList ++ (m.beforeEquals.chars ++ '=' :: (m.behindEquals.chars ++ m.literal.chars)), ?_, ?_⟩
    · simp [chars]
    · simp [m.name.ne_nil]
  have htake := m.takeMember_chars s
  rw [hfront, List.append_assoc] at htake ⊢
  rw [search_of_some htake hne, m.search_ending]

end Member

/-! ### Characters that are not printed -/

/-- Whether a character is none of those that members are printed with. -/
structure Foreign (c : Char) : Prop where
  not_space : Text.isSpace c = false
  not_name : Text.continuesIdentifier c = false
  not_mark : c ∉ ['-', '=', ';']

section Foreign

variable {c : Char} (hc : Foreign c)
include hc

theorem Foreign.not_mem_gap (gap : Gap) : c ∉ gap.chars := by
  intro hmem
  have hspace := gap.blank c hmem
  rw [hc.not_space] at hspace
  cases hspace

theorem Foreign.not_mem_names {s : List Char} (hs : ∀ c ∈ s, Text.continuesIdentifier c = true) : c ∉ s := by
  intro hmem
  have hname := hs c hmem
  rw [hc.not_name] at hname
  cases hname

theorem Foreign.not_mem_name (name : Name) : c ∉ name.text.toList :=
  hc.not_mem_names fun _ hmem => Text.continuesIdentifier_of_mem name.identifier hmem

theorem Foreign.not_mem_magnitude (m : Magnitude) : c ∉ m.chars := by
  apply hc.not_mem_names
  cases m with
  | decimal first others =>
      intro c hmem
      obtain ⟨digit, -, rfl⟩ := List.mem_map.1 hmem
      rw [Text.continuesIdentifier, (Magnitude.decimalChar_spec digit).1, Bool.or_true]
  | hexadecimal capital first others =>
      intro c hmem
      rw [Magnitude.chars] at hmem
      rcases List.mem_cons.1 hmem with rfl | hmem
      · rfl
      rcases List.mem_cons.1 hmem with rfl | hmem
      · cases capital <;> rfl
      · obtain ⟨digit, -, rfl⟩ := List.mem_map.1 hmem
        exact Hexadecimal.continuesIdentifier_of_isDigit (Magnitude.hexadecimalChar_spec digit).1

theorem Foreign.not_mem_literal (l : Literal) : c ∉ l.chars := by
  have hminus : c ≠ '-' := fun heq => hc.not_mark (by simp [heq])
  rw [Literal.chars]
  split
  · exact List.not_mem_cons_of_ne_of_not_mem hminus (hc.not_mem_magnitude _)
  · exact hc.not_mem_magnitude _

theorem Foreign.not_mem_member (m : Member) : c ∉ m.chars := by
  have hequals : c ≠ '=' := fun heq => hc.not_mark (by simp [heq])
  have hend : c ≠ ';' := fun heq => hc.not_mark (by simp [heq])
  simp only [Member.chars, Member.ending, List.mem_append, List.mem_cons, not_or]
  exact ⟨hc.not_mem_name _, hc.not_mem_gap _, hequals, hc.not_mem_gap _, hc.not_mem_literal _, hc.not_mem_gap _, hend,
    hc.not_mem_gap _⟩

theorem Foreign.not_mem_body (b : Block) : c ∉ b.body := by
  rw [Block.body, List.mem_append, not_or]
  refine ⟨hc.not_mem_gap _, fun hmem => ?_⟩
  obtain ⟨m, -, hm⟩ := List.mem_flatMap.1 hmem
  exact hc.not_mem_member m hm

theorem Foreign.not_mem_block (b : Block) (hbraces : c ∉ ['\x7b', '\x7d']) : c ∉ b.chars := by
  simp only [List.mem_cons, List.not_mem_nil, or_false, not_or] at hbraces
  have henum : c ∉ enumWord := hc.not_mem_names (List.all_eq_true.1 (by decide))
  simp only [Block.chars, List.mem_append, List.mem_cons, List.not_mem_nil, or_false, not_or]
  exact ⟨henum, hc.not_mem_gap _, hc.not_mem_name _, hc.not_mem_gap _, hbraces.1,
    hc.not_mem_body _, hbraces.2⟩

theorem Foreign.not_mem_wrapper (w : Wrapper) (hbraces : c ∉ ['\x7b', '\x7d']) {inside : List Char} (h : c ∉ inside) :
    c ∉ w.chars inside := by
  have hmessage : c ∉ messageWord := hc.not_mem_names (List.all_eq_true.1 (by decide))
  simp only [List.mem_cons, List.not_mem_nil, or_false, not_or] at hbraces
  simp only [Wrapper.chars, List.mem_append, List.mem_cons, not_or]
  exact ⟨hmessage, hc.not_mem_gap _, hc.not_mem_name _, hc.not_mem_gap _, hbraces.1, hc.not_mem_gap _, h, hbraces.2,
    hc.not_mem_gap _⟩

end Foreign

mutual

theorem Foreign.not_mem_item {c : Char} (hc : Foreign c) (hbraces : c ∉ ['\x7b', '\x7d']) : ∀ item : Item, c ∉ item.chars
  | .block b behind => by
      rw [Item.chars, List.mem_append, not_or]
      exact ⟨hc.not_mem_block b hbraces, hc.not_mem_gap behind⟩
  | .message wrapper items => by
      rw [Item.chars]
      exact hc.not_mem_wrapper wrapper hbraces (hc.not_mem_items hbraces items)

theorem Foreign.not_mem_items {c : Char} (hc : Foreign c) (hbraces : c ∉ ['\x7b', '\x7d']) :
    ∀ items : List Item, c ∉ Item.charsAll items
  | [] => List.not_mem_nil
  | item :: items => by
      rw [Item.charsAll, List.mem_append, not_or]
      exact ⟨hc.not_mem_item hbraces item, hc.not_mem_items hbraces items⟩

end

/-! ### Blocks -/

theorem Space.exists_head (space : Space) : ∃ c rest, space.chars = c :: rest ∧ Text.isSpace c = true := by
  obtain ⟨c, rest, hchars⟩ := List.exists_cons_of_ne_nil space.nonempty
  exact ⟨c, rest, hchars, space.blank c (by simp [hchars])⟩

theorem Space.takeBlanks_append (space : Space) {s : List Char} (hs : ∀ c ∈ s.head?, Text.isSpace c = false) :
    takeBlanks (space.chars ++ s) = some s := by
  obtain ⟨c, rest, hchars, hblank⟩ := space.exists_head
  have hhead : (space.chars ++ s).head?.any Text.isSpace = true := by
    rw [hchars]
    exact hblank
  rw [takeBlanks, if_pos hhead, trimStart_gap_append space.blank hs]

namespace Block

variable (b : Block)

theorem takeBlock_chars (s : List Char) : takeBlock (b.chars ++ s) = some ((b.name.text, b.body), s) := by
  have hforeign : Foreign '\x7d' := ⟨by decide, by decide, by decide⟩
  simp only [chars, List.append_assoc, List.cons_append, List.nil_append]
  have hends : EndsWord (b.beforeBrace.chars ++ '\x7b' :: (b.body ++ '\x7d' :: s)) :=
    endsWord_gap_append b.beforeBrace.blank (endsWord_cons (by decide) _)
  have hname := takeName_word_append b.name.word b.name.ne_nil hends
  rw [takeBlock_eq, takeWord_append, Option.bind_some, b.behindEnum.takeBlanks_append (b.name.head_not_blank _),
    Option.bind_some, hname, Option.bind_some]
  dsimp only
  rw [trimStart_gap_cons b.beforeBrace.blank (by decide), takeMark_self, Option.bind_some,
    takeBody_append (hforeign.not_mem_body b), Option.map_some, String.ofList_toList]

theorem search_chars (s : List Char) :
    search takeBlock true true (b.chars ++ s) = (b.name.text, b.body) :: search takeBlock true true s :=
  search_of_some (b.takeBlock_chars s) (by simp [chars])

/-- Between the braces of a block all members are found. -/
theorem search_body : search takeMember false true b.body = b.members.map fun m => (m.name.text, m.literal.number?) := by
  rw [body, search_gap takeMember_of_not_word b.behindBrace.blank]
  induction b.members with
  | nil => rw [List.flatMap_nil, search_nil, List.map_nil]
  | cons m members ih => rw [List.flatMap_cons, m.search_chars, ih, List.map_cons]

theorem insertMembers_eq (t : EnumTable) : insertMembers t b.name.text b.body = b.register t := by
  rw [insertMembers, b.search_body, register, fitting, List.foldl_map, List.foldl_filterMap]
  congr
  funext t m
  cases m.literal.number? <;> rfl

end Block

/-! ### Messages -/

/-- In front of what a message holds nothing is found. -/
theorem Wrapper.search_chars (w : Wrapper) (inside s : List Char) :
    search takeBlock true true (w.chars inside ++ s)
      = search takeBlock true true (inside ++ '\x7d' :: (w.behind.chars ++ s)) := by
  have hmessage : ∀ c ∈ messageWord, Text.isWordChar c = true := List.all_eq_true.1 (by decide)
  have hspace (s : List Char) : EndsWord (w.behindMessage.chars ++ s) := by
    obtain ⟨c, gap, hgap, hblank⟩ := w.behindMessage.exists_head
    rw [hgap]
    exact endsWord_cons (Text.isWordChar_of_isSpace hblank) _
  have hbrace (s : List Char) : EndsWord ('\x7b' :: s) := endsWord_cons (by decide) s
  have hgap (s : List Char) : EndsWord (w.beforeBrace.chars ++ '\x7b' :: s) :=
    endsWord_gap_append w.beforeBrace.blank (hbrace s)
  have htrim (s : List Char) : EndsWord (Text.trimStart (w.beforeBrace.chars ++ '\x7b' :: s)) := by
    rw [trimStart_gap_cons w.beforeBrace.blank (by decide)]
    exact hbrace s
  simp only [chars, List.append_assoc, List.cons_append]
  rw [search_word takeBlock_of_not_word hmessage (hspace _) rfl,
    search_gap takeBlock_of_not_word w.behindMessage.blank,
    search_word takeBlock_of_not_word w.name.word (hgap _) (takeBlock_word_append w.name.word (hgap _) (htrim _)),
    search_gap takeBlock_of_not_word w.beforeBrace.blank, search_cons_of_not_word takeBlock_of_not_word (by decide),
    search_gap takeBlock_of_not_word w.behindBrace.blank]

mutual

/-- In the text of an item the blocks of the item are found. -/
theorem Item.search_chars : ∀ (item : Item) (s : List Char),
    search takeBlock true true (item.chars ++ s)
      = item.blocks.map (fun b => (b.name.text, b.body)) ++ search takeBlock true true s
  | .block b behind, s => by
      rw [Item.chars, List.append_assoc, b.search_chars, search_gap takeBlock_of_not_word behind.blank]
      rfl
  | .message wrapper items, s => by
      rw [Item.chars, wrapper.search_chars, Item.searchAll_chars items,
        search_cons_of_not_word takeBlock_of_not_word (by decide), search_gap takeBlock_of_not_word wrapper.behind.blank]
      rfl

theorem Item.searchAll_chars : ∀ (items : List Item) (s : List Char),
    search takeBlock true true (Item.charsAll items ++ s)
      = (Item.blocksAll items).map (fun b => (b.name.text, b.body)) ++ search takeBlock true true s
  | [], _ => rfl
  | item :: items, s => by
      rw [Item.charsAll, List.append_assoc, Item.search_chars item, Item.searchAll_chars items, Item.blocksAll,
        List.map_append, List.append_assoc]

end

/-! ### Tables -/

theorem dropLineComments_of_not_mem {s : List Char} (h : '/' ∉ s) : dropLineComments false s = s := by
  induction s with
  | nil => rfl
  | cons c s ih =>
      rw [List.mem_cons, not_or] at h
      by_cases hline : c = '\n'
      · rw [hline, dropLineComments, ih h.2]
      · rw [dropLineComments, if_neg Bool.false_ne_true, ih h.2]
        · exact hline
        · rintro rest rfl
          exact absurd rfl h.1

/-- The table of a printed source is that in which its blocks are registered one after the other. -/
theorem ofSource_eq_foldl (lead : Gap) (items : List Item) :
    ofSource (source lead items) = (Item.blocksAll items).foldl Block.register {} := by
  have hforeign : Foreign '/' := ⟨by decide, by decide, by decide⟩
  have hslash : '/' ∉ lead.chars ++ Item.charsAll items := by
    rw [List.mem_append, not_or]
    exact ⟨hforeign.not_mem_gap lead, hforeign.not_mem_items (by decide) items⟩
  have hblock : dropBlockComments (lead.chars ++ Item.charsAll items) = lead.chars ++ Item.charsAll items := by
    have happend := Text.dropBlockComments_append hslash []
    rwa [dropBlockComments, List.append_nil] at happend
  have hsearch := Item.searchAll_chars items []
  rw [List.append_nil, search_nil, List.append_nil] at hsearch
  rw [ofSource, source, String.toList_ofList, hblock, dropLineComments_of_not_mem hslash,
    search_gap takeBlock_of_not_word lead.blank, hsearch, List.foldl_map]
  simp only [Block.insertMembers_eq]

namespace Block

variable {t : EnumTable}

/-- Adding members to an enum that is known keeps the order of enums and puts them behind its members. -/
theorem insert_spec (name : String) (members : List (String × Int32)) (h : t.Ordered) {old : List (String × Int32)}
    (hold : t.members? name = some old) :
    (members.foldl (fun t (member, number) => t.insert name member number) t).Ordered
      ∧ ∀ other, (members.foldl (fun t (member, number) => t.insert name member number) t).members? other
        = if other = name then some (old ++ members) else t.members? other := by
  induction members generalizing t old with
  | nil =>
      refine ⟨h, fun other => ?_⟩
      rw [List.foldl_nil, List.append_nil]
      split
      · next hother => rw [hother, hold]
      · rfl
  | cons entry members ih =>
      obtain ⟨member, number⟩ := entry
      have hinsert : (t.insert name member number).members? name = some (old ++ [(member, number)]) := by
        rw [members?_insert h, if_pos rfl, hold, Option.getD_some]
      obtain ⟨hordered, hmembers⟩ := ih (h.insert name member number) hinsert
      refine ⟨hordered, fun other => ?_⟩
      rw [List.foldl_cons, hmembers other, members?_insert h]
      split
      · rw [List.append_assoc, List.singleton_append]
      · rfl

/-- A block that is registered makes its enum known with its members behind those that the enum had. -/
theorem register_spec (b : Block) (h : t.Ordered) :
    (b.register t).Ordered ∧ ∀ name, (b.register t).members? name
      = if name = b.name.text then some ((t.members? name).getD [] ++ b.fitting) else t.members? name := by
  have hdeclare : (t.declare b.name.text).members? b.name.text = some ((t.members? b.name.text).getD []) := by
    rw [members?_declare h, if_pos rfl]
  obtain ⟨hordered, hmembers⟩ := insert_spec b.name.text b.fitting (h.declare b.name.text) hdeclare
  refine ⟨hordered, fun name => ?_⟩
  rw [register, hmembers name, members?_declare h]
  split
  · next hname => rw [hname]
  · rfl

end Block

theorem membersOf_cons (b : Block) (blocks : List Block) (name : String) :
    membersOf (b :: blocks) name = (if b.name.text = name then b.fitting else []) ++ membersOf blocks name := by
  by_cases hname : b.name.text = name
  · simp [membersOf, hname]
  · simp [membersOf, hname, beq_eq_false_iff_ne.2 hname]

theorem membersOf_of_not_any {blocks : List Block} {name : String} (h : blocks.any (·.name.text == name) = false) :
    membersOf blocks name = [] := by
  have hnone : blocks.filter (·.name.text == name) = [] := by simpa using h
  rw [membersOf, hnone, List.flatMap_nil]

/-- The members of an enum are those that it had, and behind them those of the blocks of its name. -/
theorem members?_foldl (blocks : List Block) {t : EnumTable} (h : t.Ordered) (name : String) :
    (blocks.foldl Block.register t).members? name
      = if blocks.any (·.name.text == name) then some ((t.members? name).getD [] ++ membersOf blocks name)
        else t.members? name := by
  induction blocks generalizing t with
  | nil => rfl
  | cons b blocks ih =>
      obtain ⟨hordered, hmembers⟩ := b.register_spec h
      rw [List.foldl_cons, ih hordered, hmembers name, List.any_cons, membersOf_cons]
      by_cases hname : b.name.text = name
      · rw [if_pos hname.symm, if_pos hname, beq_iff_eq.2 hname, Bool.true_or, if_pos rfl, Option.getD_some,
          List.append_assoc]
        split
        · rfl
        · next hrest => rw [membersOf_of_not_any (Bool.not_eq_true _ ▸ hrest), List.append_nil]
      · rw [if_neg (Ne.symm hname), if_neg hname, beq_eq_false_iff_ne.2 hname, Bool.false_or, List.nil_append]

/-- The table of a printed source is that in which its blocks are registered one after the other. So an enum is known
if a block has its name, and a name or a number is looked up among the members of all blocks of that name, in order. -/
theorem ofSource_source (lead : Gap) (items : List Item) :
    ofSource (source lead items) = (Item.blocksAll items).foldl Block.register {}
      ∧ ∀ name, (ofSource (source lead items)).contains name = (Item.blocksAll items).any (·.name.text == name)
        ∧ (∀ member, (ofSource (source lead items)).number? name member
            = ((membersOf (Item.blocksAll items) name).find? (·.1 == member)).map (·.2))
        ∧ ∀ number, (ofSource (source lead items)).member? name number
            = ((membersOf (Item.blocksAll items) name).find? (·.2 == number)).map (·.1) := by
  have htable := ofSource_eq_foldl lead items
  refine ⟨htable, fun name => ?_⟩
  have hmembers := members?_foldl (Item.blocksAll items) ordered_empty name
  rw [← htable] at hmembers
  cases hany : (Item.blocksAll items).any (·.name.text == name) with
  | true =>
      rw [hany, if_pos rfl] at hmembers
      refine ⟨by rw [contains, hmembers, Option.isSome_some], fun member => number?_eq_find? hmembers member,
        fun number => member?_eq_find? hmembers number⟩
  | false =>
      have hunknown : (ofSource (source lead items)).members? name = none := by
        rw [hmembers, hany]
        rfl
      rw [membersOf_of_not_any hany]
      exact ⟨by rw [contains, hunknown, Option.isSome_none], fun member => by rw [number?, hunknown]; rfl,
        fun number => by rw [EnumTable.member?, hunknown]; rfl⟩

end EnumTable.Printed

end SheetCompiler

import Mathlib.Data.List.Basic
import SheetCompiler.Text.Escape

/-!
# Escapes undone

A reader of literals undoes the escapes of a text, up to its end or to a quote without a backslash. It knows nothing of
how the text was written. What was escaped it reads to the end and gets back: the UTF-8 bytes of a string, and a byte
string itself.

Escaping leaves no control character, and every quote in the escaped text is the escape of a quote.
-/

namespace SheetCompiler.Text

/-! ### Bytes of a text -/

namespace Utf8

theorem encode_ofList (s : List Char) : encode (String.ofList s) = s.flatMap String.utf8EncodeChar := by
  rw [encode, String.toUTF8_eq_toByteArray, String.toByteArray_ofList, List.utf8Encode]
  simp

theorem encode_eq_flatMap (s : String) : encode s = s.toList.flatMap String.utf8EncodeChar := by
  rw [← encode_ofList, String.ofList_toList]

theorem encodeChar_of_lt {c : Char} (h : c.toNat < 0x80) : String.utf8EncodeChar c = [UInt8.ofNat c.toNat] := by
  rw [String.utf8EncodeChar]
  exact if_pos (Nat.le_of_lt_succ h)

end Utf8

namespace Escape

/-! ### Reading literals -/

/-- The byte that a mark behind a backslash stands for. -/
def unmark? : Char → Option UInt8
  | 'n' => some 0x0A
  | 'r' => some 0x0D
  | 't' => some 0x09
  | '"' => some 0x22
  | '\'' => some 0x27
  | '\\' => some 0x5C
  | _ => none

def octalValue? (c : Char) : Option Nat := if '0' ≤ c ∧ c ≤ '7' then some (c.toNat - '0'.toNat) else none

/-- The byte that exactly three octal digits spell. -/
def octalByte? (first second third : Char) : Option UInt8 := do
  let n := 64 * (← octalValue? first) + 8 * (← octalValue? second) + (← octalValue? third)
  if n < 0x100 then some (UInt8.ofNat n) else none

/-- Puts bytes in front of those that are read. -/
def prepend (bytes : Bytes) (found : Option (Bytes × List Char)) : Option (Bytes × List Char) :=
  found.map fun (others, rest) => (bytes ++ others, rest)

/-- The bytes that the inside of a literal denotes, up to a quote that no backslash escapes, and the text from that
quote on. -/
def read? : List Char → Option (Bytes × List Char)
  | [] => some ([], [])
  | '"' :: rest => some ([], '"' :: rest)
  | ['\\'] => none
  | '\\' :: mark :: rest =>
      match unmark? mark with
      | some b => prepend [b] (read? rest)
      | none =>
          match rest with
          | second :: third :: rest => (octalByte? mark second third).bind fun b => prepend [b] (read? rest)
          | _ => none
  | c :: rest => prepend (String.utf8EncodeChar c) (read? rest)

/-- Whether a text denotes bytes inside a literal, whatever stands behind it. -/
def Denotes (text : List Char) (bytes : Bytes) : Prop := ∀ rest, read? (text ++ rest) = prepend bytes (read? rest)

namespace Denotes

variable {text more : List Char} {bytes others : Bytes}

theorem nil : Denotes [] [] := by
  intro rest
  simp [prepend]

theorem append (h : Denotes text bytes) (hmore : Denotes more others) : Denotes (text ++ more) (bytes ++ others) := by
  intro rest
  rw [List.append_assoc, h, hmore]
  simp [prepend, Function.comp_def]

theorem flatMap {α : Type} {write : α → List Char} {mean : α → Bytes} (h : ∀ a, Denotes (write a) (mean a))
    (as : List α) : Denotes (as.flatMap write) (as.flatMap mean) := by
  induction as with
  | nil => exact nil
  | cons a as ih => exact (h a).append ih

theorem read?_eq (h : Denotes text bytes) : read? text = some (bytes, []) := by
  have hread := h []
  rw [List.append_nil] at hread
  rw [hread]
  simp [read?, prepend]

theorem read?_quote (h : Denotes text bytes) (rest : List Char) :
    read? (text ++ '"' :: rest) = some (bytes, '"' :: rest) := by
  rw [h]
  simp [read?, prepend]

end Denotes

/-! ### The three kinds of characters -/

theorem denotes_mark {mark : Char} {b : UInt8} (h : unmark? mark = some b) : Denotes ['\\', mark] [b] := by
  intro rest
  simp only [List.cons_append, List.nil_append]
  rw [read?.eq_def]
  simp only [h]

theorem octalByte?_octal {n : Nat} (h : n < 0x100) :
    octalByte? (octalDigit (n / 64)) (octalDigit (n / 8)) (octalDigit n) = some (UInt8.ofNat n) := by
  have hall : ∀ n < 0x100,
      octalByte? (octalDigit (n / 64)) (octalDigit (n / 8)) (octalDigit n) = some (UInt8.ofNat n) := by decide +kernel
  exact hall n h

theorem unmark?_octalDigit (n : Nat) : unmark? (octalDigit n) = none := by
  have hall : ∀ n < 8, unmark? (octalDigit n) = none := by decide
  have hmod : octalDigit n = octalDigit (n % 8) := by simp [octalDigit]
  rw [hmod]
  exact hall _ (Nat.mod_lt n (by decide))

theorem denotes_octal {n : Nat} (h : n < 0x100) : Denotes (octal n) [UInt8.ofNat n] := by
  intro rest
  simp only [octal, List.cons_append, List.nil_append]
  rw [read?.eq_def]
  simp only [unmark?_octalDigit, octalByte?_octal h, Option.bind_some]

theorem denotes_plain {c : Char} (hquote : c ≠ '"') (hslash : c ≠ '\\') : Denotes [c] (String.utf8EncodeChar c) := by
  intro rest
  rw [List.singleton_append]
  rw [read?] <;> simp_all

/-! ### What is escaped -/

theorem ne_of_short?_eq_none {c : Char} (h : short? c = none) : c ≠ '"' ∧ c ≠ '\\' := by
  constructor <;> rintro rfl <;> cases h

theorem short?_spec {c mark : Char} (h : short? c = some mark) :
    c.toNat < 0x80 ∧ unmark? mark = some (UInt8.ofNat c.toNat) := by
  unfold short? at h
  split at h <;> cases h <;> exact ⟨by decide, by decide⟩

theorem denotes_char (c : Char) : Denotes (char c) (String.utf8EncodeChar c) := by
  rw [char]
  split
  · next mark hmark =>
    obtain ⟨hascii, hunmark⟩ := short?_spec hmark
    rw [Utf8.encodeChar_of_lt hascii]
    exact denotes_mark hunmark
  · next hshort =>
    split
    · next hcontrol =>
      simp only [Bool.or_eq_true, decide_eq_true_eq, beq_iff_eq] at hcontrol
      rw [Utf8.encodeChar_of_lt (by omega)]
      exact denotes_octal (by omega)
    · obtain ⟨hquote, hslash⟩ := ne_of_short?_eq_none hshort
      exact denotes_plain hquote hslash

theorem toNat_ofNat_byte (b : UInt8) : (Char.ofNat b.toNat).toNat = b.toNat := by
  have hvalid : b.toNat.isValidChar := .inl (by have := b.toNat_lt; omega)
  rw [Char.ofNat, dif_pos hvalid]
  rfl

theorem denotes_byte (b : UInt8) : Denotes (byte b) [b] := by
  have hbyte : UInt8.ofNat b.toNat = b := UInt8.ofNat_toNat
  simp only [byte]
  split
  · next mark hmark =>
    obtain ⟨-, hunmark⟩ := short?_spec hmark
    rw [toNat_ofNat_byte, hbyte] at hunmark
    exact denotes_mark hunmark
  · next hshort =>
    split
    · next hplain =>
      simp only [Bool.and_eq_true, decide_eq_true_eq] at hplain
      have hascii : (Char.ofNat b.toNat).toNat < 0x80 := by
        rw [toNat_ofNat_byte]
        omega
      obtain ⟨hquote, hslash⟩ := ne_of_short?_eq_none hshort
      have hdenotes := denotes_plain hquote hslash
      rwa [Utf8.encodeChar_of_lt hascii, toNat_ofNat_byte, hbyte] at hdenotes
    · have hdenotes := denotes_octal b.toNat_lt
      rwa [hbyte] at hdenotes

/-- The inside of a string literal denotes the bytes of the string. -/
theorem denotes_string (s : String) : Denotes (string s.toList) (Utf8.encode s) := by
  rw [Utf8.encode_eq_flatMap]
  exact Denotes.flatMap denotes_char s.toList

/-- The inside of a byte-string literal denotes the byte string. -/
theorem denotes_bytes (bs : Bytes) : Denotes (bytes bs) bs := by
  have hdenotes := Denotes.flatMap denotes_byte bs
  rwa [List.flatMap_singleton'] at hdenotes

/-! ### What escaped text is made of -/

theorem octalDigit_printable (n : Nat) : 0x30 ≤ (octalDigit n).toNat ∧ (octalDigit n).toNat ≤ 0x37 := by
  have hall : ∀ n < 8, 0x30 ≤ (octalDigit n).toNat ∧ (octalDigit n).toNat ≤ 0x37 := by decide
  have hmod : octalDigit n = octalDigit (n % 8) := by simp [octalDigit]
  rw [hmod]
  exact hall _ (Nat.mod_lt n (by decide))

theorem short?_printable {c mark : Char} (h : short? c = some mark) : 0x20 ≤ mark.toNat ∧ mark.toNat ≤ 0x7E := by
  unfold short? at h
  split at h <;> cases h <;> exact ⟨by decide, by decide⟩

theorem octal_printable {n : Nat} {c : Char} (h : c ∈ octal n) : 0x20 ≤ c.toNat ∧ c.toNat ≤ 0x7E := by
  have hslash : 0x20 ≤ '\\'.toNat ∧ '\\'.toNat ≤ 0x7E := by decide
  have hdigit (n : Nat) : 0x20 ≤ (octalDigit n).toNat ∧ (octalDigit n).toNat ≤ 0x7E := by
    have := octalDigit_printable n
    omega
  simp only [octal, List.mem_cons, List.not_mem_nil, or_false] at h
  rcases h with rfl | rfl | rfl | rfl
  · exact hslash
  · exact hdigit _
  · exact hdigit _
  · exact hdigit _

/-- Escaping leaves no control character in a string. -/
theorem mem_string {s : List Char} {c : Char} (h : c ∈ string s) : 0x20 ≤ c.toNat ∧ c.toNat ≠ 0x7F := by
  obtain ⟨source, -, hc⟩ := List.mem_flatMap.1 h
  rw [char] at hc
  split at hc
  · next mark hmark =>
    have hprintable : 0x20 ≤ c.toNat ∧ c.toNat ≤ 0x7E := by
      simp only [List.mem_cons, List.not_mem_nil, or_false] at hc
      rcases hc with rfl | rfl
      · decide
      · exact short?_printable hmark
    omega
  · split at hc
    · have := octal_printable hc
      omega
    · next hkept =>
      simp only [Bool.or_eq_true, decide_eq_true_eq, beq_iff_eq, not_or] at hkept
      cases List.mem_singleton.1 hc
      omega

/-- Escaped bytes are printable ASCII. -/
theorem mem_bytes {bs : Bytes} {c : Char} (h : c ∈ bytes bs) : 0x20 ≤ c.toNat ∧ c.toNat ≤ 0x7E := by
  obtain ⟨b, -, hc⟩ := List.mem_flatMap.1 h
  simp only [byte] at hc
  split at hc
  · next mark hmark =>
    simp only [List.mem_cons, List.not_mem_nil, or_false] at hc
    rcases hc with rfl | rfl
    · decide
    · exact short?_printable hmark
  · split at hc
    · next hplain =>
      simp only [Bool.and_eq_true, decide_eq_true_eq] at hplain
      cases List.mem_singleton.1 hc
      rw [toNat_ofNat_byte]
      exact hplain
    · exact octal_printable hc

/-! ### Quotes -/

section Quotes

variable {α : Type} {quote : α} {as : List α} {front back : List Char}

theorem eq_of_quote_mark {front more : List Char} (h : ['\\', '"'] = front ++ '"' :: more) : front = ['\\'] ∧ more = [] := by
  match front, h with
  | [], h => exact absurd (List.cons.inj h).1 (by decide)
  | [first], h =>
      obtain ⟨hfirst, hmore⟩ := List.cons.inj h
      exact ⟨by rw [← hfirst], (List.cons.inj hmore).2.symm⟩
  | first :: second :: front, h => simp at h

/-- Where one item alone is written with a quote, and that as a quote behind a backslash, every quote in what is
written is that of such an item. -/
theorem exists_quote_of_flatMap (write : α → List Char) (hquote : write quote = ['\\', '"'])
    (hothers : ∀ a, '"' ∈ write a → a = quote) (h : as.flatMap write = front ++ '"' :: back) :
    ∃ before behind, as = before ++ quote :: behind ∧ front = before.flatMap write ++ ['\\']
      ∧ back = behind.flatMap write := by
  induction as generalizing front with
  | nil => simp at h
  | cons a as ih =>
      rw [List.flatMap_cons, List.append_eq_append_iff] at h
      rcases h with ⟨more, rfl, hrest⟩ | ⟨more, ha, hrest⟩
      · obtain ⟨before, behind, rfl, rfl, rfl⟩ := ih hrest
        exact ⟨a :: before, behind, rfl, by simp, rfl⟩
      · cases more with
        | nil =>
            have hquoted : as.flatMap write = [] ++ '"' :: back := hrest.symm
            obtain ⟨before, behind, -, hfront, -⟩ := ih hquoted
            simp at hfront
        | cons c more =>
            obtain ⟨rfl, hback⟩ := List.cons.inj hrest
            obtain rfl := hothers a (by simp [ha])
            rw [hquote] at ha
            obtain ⟨rfl, rfl⟩ := eq_of_quote_mark ha
            exact ⟨[], as, rfl, rfl, hback⟩

end Quotes

theorem quote_not_mem_octal (n : Nat) : '"' ∉ octal n := by
  intro h
  have hdigit (n : Nat) : octalDigit n ≠ '"' := by
    intro hquote
    have := octalDigit_printable n
    rw [hquote] at this
    exact absurd this (by decide)
  simp [octal, (hdigit _).symm] at h

theorem eq_of_short?_quote {c : Char} (h : short? c = some '"') : c = '"' := by
  unfold short? at h
  split at h <;> first | rfl | cases h

/-- A quote in an escaped string is that of a quote, with its backslash. -/
theorem exists_quote_of_string {s front back : List Char} (h : string s = front ++ '"' :: back) :
    ∃ before behind, s = before ++ '"' :: behind ∧ front = string before ++ ['\\'] ∧ back = string behind := by
  apply exists_quote_of_flatMap char rfl _ h
  intro c hc
  rw [char] at hc
  split at hc
  · next mark hmark =>
    simp only [List.mem_cons, List.not_mem_nil, or_false] at hc
    rcases hc with hc | rfl
    · exact absurd hc (by decide)
    · exact eq_of_short?_quote hmark
  · split at hc
    · exact absurd hc (quote_not_mem_octal _)
    · exact (List.mem_singleton.1 hc).symm

/-- A quote in escaped bytes is that of the byte of a quote, with its backslash. -/
theorem exists_quote_of_bytes {bs : Bytes} {front back : List Char} (h : bytes bs = front ++ '"' :: back) :
    ∃ before behind, bs = before ++ 0x22 :: behind ∧ front = bytes before ++ ['\\'] ∧ back = bytes behind := by
  apply exists_quote_of_flatMap byte rfl _ h
  intro b hb
  have hbyte (hc : Char.ofNat b.toNat = '"') : b = 0x22 := by
    have hnat := congrArg Char.toNat hc
    rw [toNat_ofNat_byte] at hnat
    exact UInt8.toNat_inj.1 hnat
  simp only [byte] at hb
  split at hb
  · next mark hmark =>
    simp only [List.mem_cons, List.not_mem_nil, or_false] at hb
    rcases hb with hb | rfl
    · exact absurd hb (by decide)
    · exact hbyte (eq_of_short?_quote hmark)
  · split at hb
    · exact hbyte (List.mem_singleton.1 hb).symm
    · exact absurd hb (quote_not_mem_octal _)

/-! ### Literals -/

/-- Whether a text stands for bytes between the quotes of a literal: a reader gets the bytes and reads to the end, there
is no control character, and every quote stands behind a backslash that belongs to it. -/
structure StandsFor (text : List Char) (bytes : Bytes) : Prop where
  read : read? text = some (bytes, [])
  printable : ∀ c ∈ text, 0x20 ≤ c.toNat ∧ c.toNat ≠ 0x7F
  quoted : ∀ front back, text = front ++ '"' :: back →
    ∃ opening begun, front = opening ++ ['\\'] ∧ read? opening = some (begun, [])

theorem string_standsFor (s : String) : StandsFor (string s.toList) (Utf8.encode s) where
  read := (denotes_string s).read?_eq
  printable := fun _ => mem_string
  quoted := by
    intro front back h
    obtain ⟨before, -, -, hfront, -⟩ := exists_quote_of_string h
    have hread := (denotes_string (String.ofList before)).read?_eq
    rw [String.toList_ofList] at hread
    exact ⟨string before, _, hfront, hread⟩

theorem bytes_standsFor (bs : Bytes) : StandsFor (bytes bs) bs where
  read := (denotes_bytes bs).read?_eq
  printable := by
    intro c hc
    have := mem_bytes hc
    omega
  quoted := by
    intro front back h
    obtain ⟨before, -, -, hfront, -⟩ := exists_quote_of_bytes h
    exact ⟨bytes before, _, hfront, (denotes_bytes before).read?_eq⟩

end Escape

end SheetCompiler.Text

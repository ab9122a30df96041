import SheetCompiler.EnumTable.Source
import SheetCompiler.Proofs.Text.Words

/-!
# Searching a source

Whatever is searched for begins with a word, so a search passes over blanks and other characters that are no part of
words, and from one of them on it is as fresh as at the beginning. A word at which nothing is found is passed over as a
whole.
-/

namespace SheetCompiler

/-! ### Characters of words -/

namespace Text

variable {c : Char}

/-- The codes of the blanks outside ASCII, as ranges. -/
def blankRanges : List (Nat × Nat) :=
  [(0x85, 0x85), (0xA0, 0xA0), (0x1680, 0x1680), (0x2000, 0x200A), (0x2028, 0x2029), (0x202F, 0x202F),
    (0x205F, 0x205F), (0x3000, 0x3000)]

theorem wordRanges_apart : ∀ range ∈ wordRanges.toList, ∀ blank ∈ blankRanges,
    range.2 < blank.1 ∨ blank.2 < range.1 := by
  decide +kernel

theorem isWordChar_of_isSpace (h : isSpace c = true) : isWordChar c = false := by
  rw [isWordChar]
  split
  · rw [← Bool.not_eq_true]
    intro hname
    rw [isSpace_of_continuesIdentifier hname] at h
    cases h
  · next hascii =>
    have hblank : ∃ blank ∈ blankRanges, blank.1 ≤ c.toNat ∧ c.toNat ≤ blank.2 := by
      simp only [isSpace, Bool.or_eq_true, Bool.and_eq_true, decide_eq_true_eq, beq_iff_eq] at h
      simp only [blankRanges, List.mem_cons, List.not_mem_nil, or_false, exists_eq_or_imp, exists_eq_left]
      omega
    obtain ⟨blank, hblank, hlow, hhigh⟩ := hblank
    rw [← Array.any_toList, List.any_eq_false]
    intro range hrange
    have hapart := wordRanges_apart range hrange blank hblank
    simp only [Bool.and_eq_true, decide_eq_true_eq]
    omega

theorem isDecimalDigit_of_isDigit (h : isDigit c = true) : isDecimalDigit c = true := by
  have hrange := range_of_continuesIdentifier (c := c) (by rw [continuesIdentifier, h, Bool.or_true])
  rw [isDecimalDigit, if_pos (by omega), h]

theorem isWordChar_of_continuesIdentifier (h : continuesIdentifier c = true) : isWordChar c = true := by
  have hrange := range_of_continuesIdentifier h
  rw [isWordChar, if_pos (by omega), h]

theorem isWordChar_of_startsIdentifier (h : startsIdentifier c = true) : isWordChar c = true :=
  isWordChar_of_continuesIdentifier (by rw [continuesIdentifier, h, Bool.true_or])

theorem isWordChar_of_isDigit (h : isDigit c = true) : isWordChar c = true :=
  isWordChar_of_continuesIdentifier (by rw [continuesIdentifier, h, Bool.or_true])

/-- Whether each run of ten codes lies in one of the ranges. Both are taken in ascending order. -/
def runsWithin : List Nat → List (Nat × Nat) → Bool
  | firsts, [] => firsts.isEmpty
  | firsts, range :: ranges => runsWithin (firsts.dropWhile fun first => range.1 ≤ first && first + 9 ≤ range.2) ranges

theorem exists_range_of_runsWithin {ranges : List (Nat × Nat)} {first : Nat} : ∀ {firsts : List Nat},
    runsWithin firsts ranges = true → first ∈ firsts → ∃ range ∈ ranges, range.1 ≤ first ∧ first + 9 ≤ range.2 := by
  induction ranges with
  | nil =>
      intro firsts h hfirst
      rw [runsWithin, List.isEmpty_iff] at h
      rw [h] at hfirst
      cases hfirst
  | cons range ranges ih =>
      intro firsts h hfirst
      rw [runsWithin] at h
      rw [← List.takeWhile_append_dropWhile (p := fun first => range.1 ≤ first && first + 9 ≤ range.2) (l := firsts),
        List.mem_append] at hfirst
      rcases hfirst with hfirst | hfirst
      · have hrange := List.mem_takeWhile_imp hfirst
        simp only [Bool.and_eq_true, decide_eq_true_eq] at hrange
        exact ⟨range, List.mem_cons_self, hrange⟩
      · obtain ⟨range', hrange', hbounds⟩ := ih h hfirst
        exact ⟨range', List.mem_cons_of_mem _ hrange', hbounds⟩

theorem runsWithin_digitZeros : runsWithin digitZeros.toList wordRanges.toList = true := by decide +kernel

theorem isWordChar_of_isDecimalDigit (h : isDecimalDigit c = true) : isWordChar c = true := by
  rw [isDecimalDigit] at h
  split at h
  · exact isWordChar_of_isDigit h
  · next hascii =>
    rw [isWordChar, if_neg hascii]
    rw [← Array.any_toList, List.any_eq_true] at h ⊢
    obtain ⟨first, hfirst, hrun⟩ := h
    obtain ⟨range, hrange, hbounds⟩ := exists_range_of_runsWithin runsWithin_digitZeros hfirst
    refine ⟨range, hrange, ?_⟩
    simp only [Bool.and_eq_true, decide_eq_true_eq] at hrun ⊢
    omega

end Text

theorem Hexadecimal.continuesIdentifier_of_isDigit {c : Char} (h : Hexadecimal.isDigit c = true) :
    Text.continuesIdentifier c = true := by
  simp only [Hexadecimal.isDigit, Text.continuesIdentifier, Text.startsIdentifier, Text.isLetter, Bool.or_eq_true,
    Bool.and_eq_true, decide_eq_true_eq] at h ⊢
  rcases h with (hdigit | ⟨hlow, hhigh⟩) | ⟨hlow, hhigh⟩
  · exact .inr hdigit
  · exact .inl (.inl (.inl ⟨hlow, Char.le_trans hhigh (by decide)⟩))
  · exact .inl (.inl (.inr ⟨hlow, Char.le_trans hhigh (by decide)⟩))

namespace EnumTable.Source

open Text

variable {s rest gap word : List Char} {c : Char}

/-! ### Blanks and names at the front -/

/-- Whether a text is empty or begins with no word character. -/
def EndsWord (s : List Char) : Prop := ∀ c ∈ s.head?, isWordChar c = false

theorem endsWord_cons (h : isWordChar c = false) (s : List Char) : EndsWord (c :: s) := by
  intro next hnext
  cases hnext
  exact h

theorem endsWord_gap_append (hgap : ∀ c ∈ gap, isSpace c = true) (h : EndsWord s) : EndsWord (gap ++ s) := by
  cases gap with
  | nil => exact h
  | cons c gap => exact endsWord_cons (isWordChar_of_isSpace (hgap c List.mem_cons_self)) _

theorem trimStart_gap_append (hgap : ∀ c ∈ gap, isSpace c = true) (hs : ∀ c ∈ s.head?, isSpace c = false) :
    trimStart (gap ++ s) = s := by
  exact (takeWhile_dropWhile_append hgap hs).2

theorem trimStart_gap_cons (hgap : ∀ c ∈ gap, isSpace c = true) (hc : isSpace c = false) (s : List Char) :
    trimStart (gap ++ c :: s) = c :: s := by
  apply trimStart_gap_append hgap
  intro first hfirst
  cases hfirst
  exact hc

section TakeWhile

variable {p : Char → Bool} (hp : ∀ c, p c = true → isWordChar c = true)
include hp

theorem EndsWord.stops (h : EndsWord s) : ∀ c ∈ s.head?, p c = false := by
  intro c hc
  rw [← Bool.not_eq_true]
  intro hword
  have hnot := h c hc
  rw [hp c hword] at hnot
  cases hnot

theorem takeWhile_of_endsWord (h : EndsWord s) : s.takeWhile p = [] ∧ s.dropWhile p = s :=
  takeWhile_dropWhile_of_stop (h.stops hp)

theorem takeWhile_append_of_endsWord {front : List Char} (hfront : ∀ c ∈ front, p c = true) (hs : EndsWord s) :
    (front ++ s).takeWhile p = front ∧ (front ++ s).dropWhile p = s :=
  takeWhile_dropWhile_append hfront (hs.stops hp)

end TakeWhile

theorem takeWhile_word_append (hword : ∀ c ∈ word, isWordChar c = true) (hs : EndsWord s) :
    (word ++ s).takeWhile isWordChar = word ∧ (word ++ s).dropWhile isWordChar = s :=
  takeWhile_append_of_endsWord (fun _ => id) hword hs

theorem takeName_word_append (hword : ∀ c ∈ word, isWordChar c = true) (hne : word ≠ []) (hs : EndsWord s) :
    takeName (word ++ s) = some (word, s) := by
  obtain ⟨htake, hdrop⟩ := takeWhile_word_append hword hs
  rw [takeName, htake, hdrop]
  cases word with
  | nil => exact absurd rfl hne
  | cons c word => rfl

theorem takeName_of_endsWord (h : EndsWord s) : takeName s = none := by
  rw [takeName, (takeWhile_of_endsWord (fun _ => id) h).1]

/-! ### Members and blocks in parts -/

/-- What stands behind a mark at the front. -/
def takeMark (mark : Char) : List Char → Option (List Char)
  | [] => none
  | c :: rest => if c = mark then some rest else none

@[simp]
theorem takeMark_self (mark : Char) (s : List Char) : takeMark mark (mark :: s) = some s := if_pos rfl

theorem takeMark_of_ne {mark : Char} (h : ∀ c ∈ s.head?, c ≠ mark) : takeMark mark s = none := by
  cases s with
  | nil => rfl
  | cons c s => exact if_neg (h c rfl)

def takeDecimal (s : List Char) : Option (Option Nat × List Char) :=
  match s.takeWhile isDecimalDigit with
  | [] => none
  | digits => some (Numeral.natural? digits, s.dropWhile isDecimalDigit)

def takeHexDigits (s : List Char) : Option (Option Nat × List Char) :=
  match s.takeWhile Hexadecimal.isDigit with
  | [] => none
  | digits => some (some (Hexadecimal.ofDigits digits), s.dropWhile Hexadecimal.isDigit)

def takeHexadecimal (s : List Char) : Option (Option Nat × List Char) :=
  (takeMark '0' s).bind fun s => ((takeMark 'x' s).or (takeMark 'X' s)).bind takeHexDigits

theorem takeMagnitude_eq (s : List Char) : takeMagnitude s = (takeHexadecimal s).or (takeDecimal s) := by
  unfold takeMagnitude
  dsimp only
  split
  · next x rest =>
    rw [takeHexadecimal, takeMark_self, Option.bind_some]
    by_cases hmark : x = 'x' ∨ x = 'X'
    · have hread : (takeMark 'x' (x :: rest)).or (takeMark 'X' (x :: rest)) = some rest := by
        rcases hmark with rfl | rfl <;> rfl
      have hbool : (x == 'x' || x == 'X') = true := by simpa using hmark
      rw [hread, Option.bind_some, takeHexDigits, hbool]
      cases rest.takeWhile Hexadecimal.isDigit <;> rfl
    · obtain ⟨hlower, hupper⟩ := not_or.1 hmark
      have hbool : (x == 'x' || x == 'X') = false := by simpa using hmark
      rw [takeMark, takeMark, if_neg hlower, if_neg hupper, hbool]
      rfl
  · next hnone =>
    have hhex : takeHexadecimal s = none := by
      cases s with
      | nil => rfl
      | cons c s =>
          rw [takeHexadecimal, takeMark]
          split
          · next hzero =>
            cases s with
            | nil => rfl
            | cons x rest => exact (hnone x rest (by rw [hzero])).elim
          · rfl
    rw [hhex, Option.none_or]
    rfl

def takeMinus : List Char → Bool × List Char
  | '-' :: s => (true, s)
  | s => (false, s)

/-- What is read behind the sign of equality: a number, if it is one of 32 bits, and the rest. -/
def takeNumber (s : List Char) : Option (Option Int32 × List Char) :=
  let (negative, s) := takeMinus (trimStart s)
  (takeMagnitude s).map fun found => (found.1.bind (number? negative), found.2)

theorem takeMember_eq (s : List Char) :
    takeMember s = if s.head?.any startsIdentifier then
        (takeName s).bind fun (name, behind) => (takeMark '=' (trimStart behind)).bind fun s =>
          (takeNumber s).map fun (number, rest) => ((String.ofList name, number), rest)
      else none := by
  rw [takeMember]
  split
  · cases takeName s with
    | none => rfl
    | some found =>
        obtain ⟨name, behind⟩ := found
        simp only [Option.bind_eq_bind, Option.bind_some]
        split
        · next s hs =>
          rw [hs, takeMark_self, Option.bind_some, takeNumber, Option.map_map, Option.map_eq_bind]
          rfl
        · next hs =>
          cases htrim : trimStart behind with
          | nil => rfl
          | cons c s =>
              have hne : c ≠ '=' := by
                rintro rfl
                exact hs s htrim
              rw [takeMark, if_neg hne, Option.bind_none]
  · rfl

def enumWord : List Char := "enum".toList

theorem isWordChar_of_mem_enumWord : ∀ c ∈ enumWord, isWordChar c = true := List.all_eq_true.1 (by decide)

/-- What stands behind blanks at the front, of which there has to be one. -/
def takeBlanks (s : List Char) : Option (List Char) := if s.head?.any isSpace then some (trimStart s) else none

/-- What braces hold that are open at the front, and the rest. -/
def takeBody (s : List Char) : Option (List Char × List Char) :=
  match s.dropWhile (· != '\x7d') with
  | [] => none
  | _ :: rest => some (s.takeWhile (· != '\x7d'), rest)

theorem length_trimStart_le (s : List Char) : (trimStart s).length ≤ s.length := List.length_dropWhile_le _ s

theorem length_trimStart_eq_iff (s : List Char) : (trimStart s).length = s.length ↔ s.head?.any isSpace = false := by
  cases s with
  | nil => simp [trimStart]
  | cons c s =>
      have hle := length_trimStart_le s
      cases hc : isSpace c with
      | true => simp [trimStart, hc] at hle ⊢; omega
      | false => simp [trimStart, hc]

theorem takeBlock_eq (s : List Char) :
    takeBlock s = (takeWord enumWord s).bind fun s => (takeBlanks s).bind fun s => (takeName s).bind fun (name, behind) =>
      (takeMark '\x7b' (trimStart behind)).bind fun inside =>
        (takeBody inside).map fun (body, rest) => ((String.ofList name, body), rest) := by
  rw [takeBlock, enumWord]
  cases takeWord "enum".toList s with
  | none => rfl
  | some s =>
      simp only [Option.bind_eq_bind, Option.bind_some, length_trimStart_eq_iff, takeBlanks]
      cases s.head?.any isSpace with
      | false => rfl
      | true =>
          simp only [Bool.true_eq_false, if_false, if_true, Option.bind_some]
          cases takeName (trimStart s) with
          | none => rfl
          | some found =>
              obtain ⟨name, behind⟩ := found
              simp only [Option.bind_some]
              split
              · next inside hs =>
                rw [hs, takeMark_self, Option.bind_some, takeBody]
                cases inside.dropWhile (· != '\x7d') <;> rfl
              · next hs =>
                cases htrim : trimStart behind with
                | nil => rfl
                | cons c s =>
                    have hne : c ≠ '\x7b' := by
                      rintro rfl
                      exact hs s htrim
                    rw [takeMark, if_neg hne, Option.bind_none]

theorem takeWord_append (word s : List Char) : takeWord word (word ++ s) = some s := by
  rw [takeWord, if_pos (List.isPrefixOf_iff_prefix.2 (List.prefix_append word s)), List.drop_left]

theorem takeWord_cons (c : Char) (word s : List Char) : takeWord (c :: word) s = (takeMark c s).bind (takeWord word) := by
  cases s with
  | nil => rfl
  | cons d s =>
      rw [takeWord, takeMark]
      by_cases hd : d = c
      · rw [if_pos hd, hd, Option.bind_some, takeWord, List.isPrefixOf_cons_cons_self]
        rfl
      · have hprefix : (c :: word).isPrefixOf (d :: s) = false := by
          rw [List.isPrefixOf, beq_eq_false_iff_ne.2 (Ne.symm hd), Bool.false_and]
        rw [if_neg hd, hprefix]
        rfl

theorem takeBody_append {body : List Char} (h : '\x7d' ∉ body) (s : List Char) :
    takeBody (body ++ '\x7d' :: s) = some (body, s) := by
  have hbody : ∀ c ∈ body, (c != '\x7d') = true := by
    intro c hc
    rw [bne_iff_ne]
    rintro rfl
    exact h hc
  have hbrace : ∀ c ∈ ('\x7d' :: s).head?, (c != '\x7d') = false := by
    intro c hc
    cases hc
    rfl
  obtain ⟨htake, hdrop⟩ := takeWhile_dropWhile_append hbody hbrace
  rw [takeBody, htake, hdrop]

/-! ### Passing over -/

section Search

variable {α : Type} {take : List Char → Option (α × List Char)} {behind : Bool}

@[simp]
theorem search_nil (take : List Char → Option (α × List Char)) (behind fresh : Bool) : search take behind fresh [] = [] := by
  rw [search]

theorem search_cons_of_none {fresh : Bool} (h : fresh = true → take (c :: s) = none) :
    search take behind fresh (c :: s) = search take behind (!isWordChar c) s := by
  rw [search]
  cases fresh with
  | false => rfl
  | true => simp [h rfl]

theorem search_cons_of_some {found : α} {after : List Char} (h : take (c :: s) = some (found, after))
    (hlength : after.length ≤ s.length) :
    search take behind true (c :: s) = found :: search take behind behind after := by
  rw [search]
  simp [h, hlength]

/-- What is found is the first find of the search, and the rest is searched for more. -/
theorem search_of_some {front : List Char} {found : α} (h : take (front ++ s) = some (found, s)) (hne : front ≠ []) :
    search take behind true (front ++ s) = found :: search take behind behind s := by
  cases front with
  | nil => exact absurd rfl hne
  | cons c front =>
      exact search_cons_of_some h (by simp)

/-- What remains of a word is passed over. -/
theorem search_word_rest (hword : ∀ c ∈ word, isWordChar c = true) :
    search take behind false (word ++ s) = search take behind false s := by
  induction word with
  | nil => rfl
  | cons c word ih =>
      obtain ⟨hc, hword⟩ := List.forall_mem_cons.1 hword
      have hstep : search take behind false (c :: (word ++ s)) = search take behind (!isWordChar c) (word ++ s) :=
        search_cons_of_none nofun
      rw [List.cons_append, hstep, hc]
      exact ih hword

variable (htake : ∀ c s, isWordChar c = false → take (c :: s) = none)
include htake

theorem search_cons_of_not_word (h : isWordChar c = false) {fresh : Bool} :
    search take behind fresh (c :: s) = search take behind true s := by
  rw [search_cons_of_none fun _ => htake c s h, h]
  rfl

/-- Behind a word it makes no difference whether a search is fresh. -/
theorem search_of_endsWord (h : EndsWord s) : search take behind false s = search take behind true s := by
  cases s with
  | nil => rw [search_nil, search_nil]
  | cons c s => rw [search_cons_of_not_word htake (h c rfl), search_cons_of_not_word htake (h c rfl)]

theorem search_gap (hgap : ∀ c ∈ gap, isSpace c = true) :
    search take behind true (gap ++ s) = search take behind true s := by
  induction gap with
  | nil => rfl
  | cons c gap ih =>
      obtain ⟨hc, hgap⟩ := List.forall_mem_cons.1 hgap
      rw [List.cons_append, search_cons_of_not_word htake (isWordChar_of_isSpace hc), ih hgap]

/-- A word at which nothing is found is passed over. -/
theorem search_word (hword : ∀ c ∈ word, isWordChar c = true) (hs : EndsWord s) (hnone : take (word ++ s) = none) :
    search take behind true (word ++ s) = search take behind true s := by
  cases word with
  | nil => rfl
  | cons c word =>
      obtain ⟨hc, hword⟩ := List.forall_mem_cons.1 hword
      have hstep : search take behind true (c :: (word ++ s)) = search take behind (!isWordChar c) (word ++ s) :=
        search_cons_of_none fun _ => hnone
      rw [List.cons_append, hstep, hc, Bool.not_true, search_word_rest hword, search_of_endsWord htake hs]

end Search

/-! ### What is searched for begins with a word -/

theorem takeBlock_of_not_word (c : Char) (s : List Char) (h : isWordChar c = false) : takeBlock (c :: s) = none := by
  have hword : takeWord enumWord (c :: s) = none := by
    rw [takeWord, if_neg]
    intro hprefix
    obtain ⟨rest, hrest⟩ := List.isPrefixOf_iff_prefix.1 hprefix
    cases hrest
    exact absurd h (by decide)
  rw [takeBlock_eq, hword, Option.bind_none]

theorem takeMember_of_not_word (c : Char) (s : List Char) (h : isWordChar c = false) : takeMember (c :: s) = none := by
  rw [takeMember, if_neg]
  intro hstarts
  rw [isWordChar_of_startsIdentifier hstarts] at h
  cases h

/-- A word that is not followed by another one does not open a block. -/
theorem takeBlock_word_append (hword : ∀ c ∈ word, isWordChar c = true) (hs : EndsWord s)
    (hbehind : EndsWord (trimStart s)) : takeBlock (word ++ s) = none := by
  rw [takeBlock_eq]
  by_cases hprefix : enumWord.isPrefixOf (word ++ s) = true
  · obtain ⟨rest, hrest⟩ := List.isPrefixOf_iff_prefix.1 hprefix
    rw [← hrest, takeWord_append, Option.bind_some, takeBlanks]
    split
    · next hblank =>
      -- Blanks behind `enum` show that it is the whole word.
      have hends : EndsWord rest := fun c hc => isWordChar_of_isSpace (by rw [hc] at hblank; exact hblank)
      have hsame : rest = s := by
        rw [← (takeWhile_word_append isWordChar_of_mem_enumWord hends).2, hrest, (takeWhile_word_append hword hs).2]
      rw [hsame, Option.bind_some, takeName_of_endsWord hbehind, Option.bind_none]
    · rfl
  · rw [takeWord, if_neg hprefix, Option.bind_none]

end EnumTable.Source

end SheetCompiler

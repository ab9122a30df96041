import Mathlib.Data.List.Forall2
import SheetCompiler.EnumTable.Source
import SheetCompiler.Proofs.Text.Words

/-!
# Texts with comments

The tokens of a text are the words that are left of it without its block comments. A comment ends at the first mark
that closes one, wherever that comes from, and one that is never closed is none.

What a comment holds makes no difference as long as no such mark is in it, and blanks at the beginning of a line make
none anywhere. A text whose last line closes what is open has tokens of its own, whatever stands on the lines below.
-/

namespace SheetCompiler.Text

open EnumTable.Source

/-- The words that are left of a text without its block comments. -/
def tokens (text : List Char) : List (List Char) := runs (dropBlockComments text)

/-- Whether nothing in a text opens a comment. -/
def Unopened (text : List Char) : Prop := ¬['/', '*'] <:+: text

/-- Whether nothing in a text closes a comment. -/
def Unclosed (text : List Char) : Prop := ¬['*', '/'] <:+: text

instance (text : List Char) : Decidable (Unopened text) := inferInstanceAs (Decidable (¬_))

instance (text : List Char) : Decidable (Unclosed text) := inferInstanceAs (Decidable (¬_))

variable {s rest text : List Char} {c : Char}

/-! ### Reading on -/

theorem dropBlockComments_of_closed (h : closeComment s = some rest) :
    dropBlockComments ('/' :: '*' :: s) = ' ' :: dropBlockComments rest := by
  rw [dropBlockComments]
  split <;> simp_all

theorem dropBlockComments_of_open (h : closeComment s = none) :
    dropBlockComments ('/' :: '*' :: s) = '/' :: '*' :: s := by
  rw [dropBlockComments]
  split <;> simp_all

theorem dropBlockComments_cons (h : c = '/' → s.head? ≠ some '*') :
    dropBlockComments (c :: s) = c :: dropBlockComments s := by
  rw [dropBlockComments]
  rintro rest rfl rfl
  exact h rfl rfl

theorem closeComment_cons (h : c = '*' → s.head? ≠ some '/') : closeComment (c :: s) = closeComment s := by
  rw [closeComment]
  rintro rest rfl rfl
  exact h rfl rfl

theorem closeComment_blank (h : isSpace c = true) (s : List Char) : closeComment (c :: s) = closeComment s :=
  closeComment_cons fun hc => by cases hc; cases h

theorem dropBlockComments_blank (h : isSpace c = true) (s : List Char) :
    dropBlockComments (c :: s) = c :: dropBlockComments s :=
  dropBlockComments_cons fun hc => by cases hc; cases h

theorem dropBlockComments_append (h : '/' ∉ s) (rest : List Char) :
    dropBlockComments (s ++ rest) = s ++ dropBlockComments rest := by
  induction s with
  | nil => rfl
  | cons c s ih =>
      rw [List.mem_cons, not_or] at h
      rw [List.cons_append, dropBlockComments_cons fun hc => absurd hc.symm h.1, ih h.2, List.cons_append]

section Blanks

variable {blanks : List Char} (hblanks : ∀ c ∈ blanks, isSpace c = true)
include hblanks

theorem closeComment_blanks (s : List Char) : closeComment (blanks ++ s) = closeComment s := by
  induction blanks with
  | nil => rfl
  | cons c blanks ih =>
      obtain ⟨hc, hblanks⟩ := List.forall_mem_cons.1 hblanks
      rw [List.cons_append, closeComment_blank hc, ih hblanks]

theorem dropBlockComments_blanks (s : List Char) :
    dropBlockComments (blanks ++ s) = blanks ++ dropBlockComments s :=
  dropBlockComments_append (fun hmem => absurd (hblanks '/' hmem) (by decide)) s

end Blanks

theorem head?_of_line {s below : List Char} (h : (s ++ '\n' :: below).head? = some c) (hc : c ≠ '\n') :
    s.head? = some c := by
  cases s with
  | nil => exact absurd (Option.some.inj h).symm hc
  | cons next s => exact h

/-- A comment is closed on the line, or by what stands on the lines below. -/
theorem closeComment_line (s : List Char) :
    (∃ rest, rest.length < s.length ∧ ∀ below, closeComment (s ++ '\n' :: below) = some (rest ++ '\n' :: below))
      ∨ ∀ below, closeComment (s ++ '\n' :: below) = closeComment below := by
  induction s with
  | nil => exact .inr fun below => closeComment_blank (by decide) below
  | cons c s ih =>
      by_cases hclosed : c = '*' ∧ s.head? = some '/'
      · obtain ⟨rfl, hhead⟩ := hclosed
        obtain ⟨rest, rfl⟩ := List.head?_eq_some_iff.1 hhead
        exact .inl ⟨rest, by simp only [List.length_cons]; omega, fun below => rfl⟩
      · have hstep (below : List Char) : closeComment (c :: s ++ '\n' :: below) = closeComment (s ++ '\n' :: below) :=
          closeComment_cons fun hc hhead => hclosed ⟨hc, head?_of_line hhead (by decide)⟩
        rcases ih with ⟨rest, hlt, hrest⟩ | hopen
        · exact .inl ⟨rest, Nat.lt_succ_of_lt hlt, fun below => (hstep below).trans (hrest below)⟩
        · exact .inr fun below => (hstep below).trans (hopen below)

/-- A line that opens no comment is there as it stands. -/
theorem dropBlockComments_line (h : Unopened s) (below : List Char) :
    dropBlockComments (s ++ '\n' :: below) = s ++ '\n' :: dropBlockComments below := by
  induction s with
  | nil => exact dropBlockComments_blank (by decide) below
  | cons c s ih =>
      rw [List.cons_append, dropBlockComments_cons, ih fun hin => h (hin.trans (List.suffix_cons c s).isInfix)]
      · rfl
      · rintro rfl hhead
        obtain ⟨s, rfl⟩ := List.head?_eq_some_iff.1 (head?_of_line hhead (by decide))
        exact h ⟨[], s, rfl⟩

/-! ### Texts without marks -/

/-- Two characters that are next to each other in neither of two texts are not in both of them together, unless the one
ends with the first and the other begins with the second. -/
theorem not_infix_append {x y : Char} {t : List Char} (hs : ¬[x, y] <:+: s) (ht : ¬[x, y] <:+: t)
    (hapart : s.getLast? ≠ some x ∨ t.head? ≠ some y) : ¬[x, y] <:+: s ++ t := by
  induction s with
  | nil => exact ht
  | cons next s ih =>
      rw [List.infix_cons_iff, not_or] at hs
      rw [List.cons_append, List.infix_cons_iff, not_or]
      refine ⟨fun hprefix => ?_, ih hs.2 (hapart.imp_left fun hlast => ?_)⟩
      · obtain ⟨hnext, hprefix⟩ := List.cons_prefix_cons.1 hprefix
        cases s with
        | nil =>
            obtain ⟨rest, hrest⟩ := hprefix
            rw [List.nil_append] at hrest
            exact hapart.elim (fun hlast => hlast (congrArg some hnext.symm)) (fun hhead => hhead (hrest ▸ rfl))
        | cons other s =>
            have hother := (List.cons_prefix_cons.1 hprefix).1
            exact hs.1 ⟨s, by rw [hnext, hother]; rfl⟩
      · cases s with
        | nil => exact nofun
        | cons other s => exact hlast

theorem not_infix_append_cons {x y : Char} (hx : c ≠ x) (hy : c ≠ y) {t : List Char} (hs : ¬[x, y] <:+: s)
    (ht : ¬[x, y] <:+: t) : ¬[x, y] <:+: s ++ c :: t := by
  refine not_infix_append hs ?_ (.inr fun hhead => hy (Option.some.inj hhead))
  rw [List.infix_cons_iff, not_or]
  exact ⟨fun hprefix => hx (List.cons_prefix_cons.1 hprefix).1.symm, ht⟩

theorem Unclosed.append_cons (hs : Unclosed s) (hc : c ≠ '*' ∧ c ≠ '/') (ht : Unclosed text) :
    Unclosed (s ++ c :: text) :=
  not_infix_append_cons hc.1 hc.2 hs ht

theorem unopened_of_not_mem (h : '/' ∉ s) : Unopened s := fun hin => h (hin.subset List.mem_cons_self)

theorem unclosed_of_not_mem (h : '*' ∉ s) : Unclosed s := fun hin => h (hin.subset List.mem_cons_self)

/-- What is written around a text opens a comment only if the text does. -/
theorem unopened_around {front name back : String} (h : Unopened name.toList) (hfront : '/' ∉ front.toList)
    (hback : '/' ∉ back.toList) (hhead : back.toList.head? ≠ some '*') : Unopened (front ++ name ++ back).toList := by
  have hlast : front.toList.getLast? ≠ some '/' := fun hlast => hfront (List.mem_of_getLast? hlast)
  rw [String.toList_append, String.toList_append]
  exact not_infix_append (not_infix_append (unopened_of_not_mem hfront) h (.inl hlast)) (unopened_of_not_mem hback)
    (.inr hhead)

theorem Unclosed.mono (h : Unclosed text) (hin : s <:+: text) : Unclosed s := fun hmark => h (hmark.trans hin)

theorem unclosed_unlines {lines : List String} (h : ∀ line ∈ lines, Unclosed line.toList) :
    Unclosed (unlines lines).toList := by
  induction lines with
  | nil => decide +kernel
  | cons line lines ih =>
      obtain ⟨hline, hlines⟩ := List.forall_mem_cons.1 h
      rw [toList_unlines_cons]
      exact hline.append_cons (by decide) (ih hlines)

/-- What does not close a comment is in it up to the first mark behind. -/
theorem closeComment_of_unclosed (h : Unclosed s) (rest : List Char) :
    closeComment (s ++ '*' :: '/' :: rest) = some rest := by
  induction s with
  | nil => rfl
  | cons c s ih =>
      rw [List.cons_append, closeComment_cons, ih fun hin => h (hin.trans (List.suffix_cons c s).isInfix)]
      rintro rfl hhead
      cases s with
      | nil => cases hhead
      | cons next s =>
          cases hhead
          exact h ⟨[], s, rfl⟩

theorem infix_of_mem_split {cut : Char → Bool} {piece : List Char} (h : piece ∈ split cut text) : piece <:+: text := by
  have hpieces : ∀ text : List Char, ∃ first rest, split cut text = first :: rest ∧ first <+: text
      ∧ ∀ piece ∈ rest, piece <:+: text := by
    intro text
    induction text with
    | nil => exact ⟨[], [], rfl, List.nil_prefix, fun _ hmem => absurd hmem List.not_mem_nil⟩
    | cons c text ih =>
        obtain ⟨first, rest, hsplit, hfirst, hrest⟩ := ih
        have hbehind {piece : List Char} (hin : piece <:+: text) : piece <:+: c :: text :=
          hin.trans (List.suffix_cons c text).isInfix
        rw [split, hsplit]
        split
        · exact ⟨[], first :: rest, rfl, List.nil_prefix,
            List.forall_mem_cons.2 ⟨hbehind hfirst.isInfix, fun piece hmem => hbehind (hrest piece hmem)⟩⟩
        · exact ⟨c :: first, rest, rfl, List.cons_prefix_cons.2 ⟨rfl, hfirst⟩,
            fun piece hmem => hbehind (hrest piece hmem)⟩
  obtain ⟨first, rest, hsplit, hfirst, hrest⟩ := hpieces text
  rw [hsplit] at h
  rcases List.mem_cons.1 h with rfl | h
  · exact hfirst.isInfix
  · exact hrest piece h

theorem infix_of_mem_lines {l : List Char} (h : l ∈ lines text) : l <:+: text := by
  rw [lines] at h
  split at h
  · exact infix_of_mem_split (List.dropLast_subset _ h)
  · exact infix_of_mem_split h

theorem infix_trimEnd (text : List Char) : trimEnd text <:+: text := by
  rw [trimEnd, ← List.reverse_infix, List.reverse_reverse]
  exact (List.dropWhile_suffix _).isInfix

theorem infix_trimChars (text : List Char) : trimChars text <:+: text :=
  (infix_trimEnd _).trans (List.dropWhile_suffix _).isInfix

/-! ### Indentation -/

/-- Blanks at the beginning of a line do not matter, whether the line begins in a comment or not. -/
theorem runs_dropBlockComments_indented {blanks : List Char} (hblanks : ∀ c ∈ blanks, isSpace c = true)
    (s below : List Char) (front : List Char) :
    runs (front ++ dropBlockComments (s ++ '\n' :: (blanks ++ below)))
      = runs (front ++ dropBlockComments (s ++ '\n' :: below)) := by
  have hnewline : isSpace '\n' = true := by decide
  induction hlength : s.length using Nat.strongRecOn generalizing s front with
  | _ n ih =>
    cases s with
    | nil =>
        rw [List.nil_append, List.nil_append, dropBlockComments_blank hnewline, dropBlockComments_blank hnewline,
          runs_append_cons hnewline, runs_append_cons hnewline, dropBlockComments_blanks hblanks,
          runs_blank_append hblanks]
    | cons c s =>
        by_cases hopened : c = '/' ∧ s.head? = some '*'
        · obtain ⟨rfl, hhead⟩ := hopened
          obtain ⟨s, rfl⟩ := List.head?_eq_some_iff.1 hhead
          simp only [List.cons_append]
          rcases closeComment_line s with ⟨rest, hlt, hrest⟩ | hopen
          · rw [dropBlockComments_of_closed (hrest _), dropBlockComments_of_closed (hrest _)]
            have hrest := ih rest.length (by simp only [List.length_cons] at hlength; omega) rest (front ++ [' ']) rfl
            simpa using hrest
          · have hsame : closeComment (s ++ '\n' :: (blanks ++ below)) = closeComment (s ++ '\n' :: below) := by
              rw [hopen, hopen, closeComment_blanks hblanks]
            cases hclose : closeComment (s ++ '\n' :: below) with
            | some rest =>
                rw [dropBlockComments_of_closed (hsame.trans hclose), dropBlockComments_of_closed hclose]
            | none =>
                have hruns (below : List Char) : runs (front ++ '/' :: '*' :: (s ++ '\n' :: below))
                    = runs (front ++ '/' :: '*' :: s) ++ runs below := by
                  rw [← runs_append_cons hnewline, List.append_assoc]
                  rfl
                rw [dropBlockComments_of_open (hsame.trans hclose), dropBlockComments_of_open hclose, hruns, hruns,
                  runs_blank_append hblanks]
        · have hstep (below : List Char) :
              dropBlockComments (c :: s ++ '\n' :: below) = c :: dropBlockComments (s ++ '\n' :: below) :=
            dropBlockComments_cons fun hc hhead => hopened ⟨hc, head?_of_line hhead (by decide)⟩
          have hrest := ih s.length (by simp only [List.length_cons] at hlength; omega) s (front ++ [c]) rfl
          rw [hstep, hstep]
          simpa using hrest

/-- Whether a line is another one with blanks in front. -/
def Indents (line bare : String) : Prop :=
  ∃ blanks, (∀ c ∈ blanks, isSpace c = true) ∧ line.toList = blanks ++ bare.toList

theorem tokens_of_indents {lines bare : List String} (h : List.Forall₂ Indents lines bare) :
    tokens (unlines lines).toList = tokens (unlines bare).toList := by
  have hnewline : isSpace '\n' = true := by decide
  have hbehind (front : List Char) :
      tokens (front ++ '\n' :: (unlines lines).toList) = tokens (front ++ '\n' :: (unlines bare).toList) := by
    induction h generalizing front with
    | nil => rfl
    | @cons line bare lines bares hline _ ih =>
        obtain ⟨blanks, hblanks, hline⟩ := hline
        have hindented :=
          runs_dropBlockComments_indented hblanks front (bare.toList ++ '\n' :: (unlines lines).toList) []
        have hrest := ih (front ++ '\n' :: bare.toList)
        simp only [List.nil_append, List.append_assoc, List.cons_append] at hindented hrest
        rw [toList_unlines_cons, toList_unlines_cons, hline, List.append_assoc]
        exact hindented.trans hrest
  have hfront (text : List Char) : tokens ('\n' :: text) = tokens text := by
    rw [tokens, dropBlockComments_blank hnewline, runs_cons hnewline, tokens]
  rw [← hfront, ← hfront (unlines bare).toList]
  exact hbehind []

/-! ### Comments that end a line -/

/-- Whether a text ends in the mark that closes a comment, with a blank in front of it. -/
def Closes (text : List Char) : Prop := ∃ front blank, isSpace blank = true ∧ text = front ++ [blank, '*', '/']

theorem closes_of_blanks {blanks : List Char} (hblanks : ∀ c ∈ blanks, isSpace c = true) (front : List Char) :
    Closes (front ++ '\n' :: (blanks ++ ['*', '/'])) := by
  rcases List.eq_nil_or_concat blanks with rfl | ⟨others, last, rfl⟩
  · exact ⟨front, '\n', by decide, rfl⟩
  · exact ⟨front ++ '\n' :: others, last, hblanks last (by simp), by simp⟩

theorem closeComment_of_closes (h : Closes s) :
    ∃ rest, rest.length < s.length ∧ (rest = [] ∨ Closes rest)
      ∧ ∀ below, closeComment (s ++ below) = some (rest ++ below) := by
  obtain ⟨front, blank, hblank, rfl⟩ := h
  induction front with
  | nil => exact ⟨[], by simp, .inl rfl, fun below => closeComment_blank hblank _⟩
  | cons c front ih =>
      by_cases hclosed : c = '*' ∧ front.head? = some '/'
      · obtain ⟨rfl, hhead⟩ := hclosed
        obtain ⟨front, rfl⟩ := List.head?_eq_some_iff.1 hhead
        exact ⟨front ++ [blank, '*', '/'], by simp, .inr ⟨front, blank, hblank, rfl⟩, fun below => rfl⟩
      · obtain ⟨rest, hlt, hrest, hclose⟩ := ih
        refine ⟨rest, Nat.lt_succ_of_lt hlt, hrest, fun below => ?_⟩
        rw [← hclose below]
        refine closeComment_cons fun hc hhead => ?_
        cases front with
        | nil =>
            cases hhead
            cases hblank
        | cons next front => exact hclosed ⟨hc, hhead⟩

/-- What such a text opens is closed in it, so the lines below are read as if they stood alone. -/
theorem dropBlockComments_of_closes (h : Closes s) (below : List Char) :
    dropBlockComments (s ++ '\n' :: below) = dropBlockComments s ++ '\n' :: dropBlockComments below := by
  have hnewline : isSpace '\n' = true := by decide
  induction hlength : s.length using Nat.strongRecOn generalizing s with
  | _ n ih =>
    obtain ⟨front, blank, hblank, rfl⟩ := h
    cases front with
    | nil =>
        simp only [List.nil_append, List.cons_append]
        have hmark (below : List Char) (hbelow : below.head? ≠ some '*') :
            dropBlockComments (blank :: '*' :: '/' :: below) = blank :: '*' :: '/' :: dropBlockComments below := by
          rw [dropBlockComments_blank hblank, dropBlockComments_cons (by simp),
            dropBlockComments_cons fun _ => hbelow]
        rw [hmark _ (by simp), hmark _ (by simp), dropBlockComments_blank hnewline, dropBlockComments]
        rfl
    | cons c front =>
        by_cases hopened : c = '/' ∧ front.head? = some '*'
        · obtain ⟨rfl, hhead⟩ := hopened
          obtain ⟨front, rfl⟩ := List.head?_eq_some_iff.1 hhead
          obtain ⟨rest, hlt, hrest, hclose⟩ := closeComment_of_closes ⟨front, blank, hblank, rfl⟩
          have hend := hclose []
          simp only [List.append_nil] at hend
          simp only [List.cons_append, List.append_assoc] at hclose ⊢
          rw [dropBlockComments_of_closed (hclose _), dropBlockComments_of_closed hend]
          rcases hrest with rfl | hrest
          · rw [List.nil_append, dropBlockComments_blank hnewline, dropBlockComments]
            rfl
          · rw [ih rest.length _ hrest rfl]
            · rfl
            · simp only [List.length_cons, List.cons_append] at hlength
              omega
        · have hrest : Closes (front ++ [blank, '*', '/']) := ⟨front, blank, hblank, rfl⟩
          have hstep (more : List Char) : dropBlockComments (c :: (front ++ [blank, '*', '/']) ++ more)
              = c :: dropBlockComments (front ++ [blank, '*', '/'] ++ more) := by
            refine dropBlockComments_cons fun hc hhead => ?_
            cases front with
            | nil =>
                cases hhead
                cases hblank
            | cons next front => exact hopened ⟨hc, hhead⟩
          have halone := hstep []
          rw [List.append_nil, List.append_nil] at halone
          rw [List.cons_append, hstep, halone, ih _ _ hrest rfl]
          · rfl
          · simp only [← hlength, List.length_cons, List.cons_append]
            omega

/-! ### Lines that are read alone -/

/-- Whether lines have tokens of their own, whatever stands below them. -/
def Settled (lines : List String) : Prop :=
  ∀ below, tokens ((unlines lines).toList ++ below) = tokens (unlines lines).toList ++ tokens below

theorem tokens_unlines_nil : tokens (unlines []).toList = [] := by decide +kernel

theorem settled_nil : Settled [] := fun _ => by rw [tokens_unlines_nil]; rfl

variable {lines more : List String}

theorem Settled.tokens_append (h : Settled lines) (more : List String) :
    tokens (unlines (lines ++ more)).toList = tokens (unlines lines).toList ++ tokens (unlines more).toList := by
  rw [unlines_append, String.toList_append, h]

theorem Settled.append (h : Settled lines) (hmore : Settled more) : Settled (lines ++ more) := by
  intro below
  rw [h.tokens_append, unlines_append, String.toList_append, List.append_assoc, h, hmore, List.append_assoc]

theorem settled_of_unopened {line : String} (h : Unopened line.toList) : Settled [line] := by
  have hnewline : isSpace '\n' = true := by decide
  have htokens (below : List Char) : tokens (line.toList ++ '\n' :: below) = runs line.toList ++ tokens below := by
    rw [tokens, dropBlockComments_line h, runs_append_cons hnewline, tokens]
  intro below
  have hline : (unlines [line]).toList = line.toList ++ '\n' :: [] := toList_unlines_cons line []
  rw [hline, List.append_assoc, List.cons_append, List.nil_append, htokens, htokens]
  simp [tokens, dropBlockComments, runs, split]

theorem exists_unlines_cons (line : String) (lines : List String) :
    ∃ front, (unlines (line :: lines)).toList = front ++ ['\n'] := by
  induction lines generalizing line with
  | nil => exact ⟨line.toList, toList_unlines_cons line []⟩
  | cons next lines ih =>
      obtain ⟨front, hfront⟩ := ih next
      exact ⟨line.toList ++ '\n' :: front, by rw [toList_unlines_cons, hfront, List.append_assoc, List.cons_append]⟩

theorem settled_of_closes (h : ∃ text, Closes text ∧ (unlines lines).toList = text ++ ['\n']) : Settled lines := by
  have hnewline : isSpace '\n' = true := by decide
  obtain ⟨text, hcloses, hlines⟩ := h
  have htokens (below : List Char) : tokens (text ++ '\n' :: below) = tokens text ++ tokens below := by
    rw [tokens, dropBlockComments_of_closes hcloses, runs_append_cons hnewline, tokens, tokens]
  intro below
  rw [hlines, List.append_assoc, List.cons_append, List.nil_append, htokens, htokens]
  simp [tokens, dropBlockComments, runs, split]

/-- A comment with a last line of its own for the mark that closes it. -/
theorem settled_of_mark {first mark : String} {rest : List String} (h : Indents mark "*/") :
    Settled (first :: rest ++ [mark]) := by
  obtain ⟨blanks, hblanks, hmark⟩ := h
  obtain ⟨front, hfront⟩ := exists_unlines_cons first rest
  refine settled_of_closes ⟨_, closes_of_blanks hblanks front, ?_⟩
  rw [unlines_append, String.toList_append, hfront, toList_unlines_cons, hmark]
  simp only [List.append_assoc, List.cons_append, List.nil_append]
  rfl

end SheetCompiler.Text

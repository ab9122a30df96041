import Mathlib.Data.List.Induction
import SheetCompiler.Proofs.EnumTable.Blanks
import SheetCompiler.Proofs.Text.Comments

/-!
# Comments in a source

A reader of a source knows at each character whether it stands in a comment of either kind or in a string. The table is
not read so: block comments are taken out of the whole source first, and line comments of what is left. The first pass
takes every opening mark for one, also those in line comments and in strings.

Where no such mark stands in front of a place, nor in a comment that is put there, the comment makes no difference to
the table. Everything that the pass leaves open in front of the place reaches as far as the next closing mark.
-/

namespace SheetCompiler

namespace EnumTable.Source

open Text

variable {front back text s : List Char} {c : Char}

/-! ### Where a reader is -/

/-- What a reader of a source is in: code, behind a slash, a comment of either kind, or a string. -/
inductive Zone where
  | code
  | slash
  | line
  | block
  | star
  | string (quote : Char)
  | escaped (quote : Char)
  deriving DecidableEq, Repr

namespace Zone

def ofCode (c : Char) : Zone :=
  if c = '/' then slash else if c = '"' ∨ c = '\'' then string c else code

/-- Strings and line comments end with their line. -/
def step : Zone → Char → Zone
  | code, c => ofCode c
  | slash, c => if c = '/' then line else if c = '*' then block else ofCode c
  | line, c => if c = '\n' then code else line
  | block, c => if c = '*' then star else block
  | star, c => if c = '/' then code else if c = '*' then star else block
  | string quote, c =>
      if c = quote ∨ c = '\n' then code else if c = '\\' then escaped quote else string quote
  | escaped quote, c => if c = '\n' then code else string quote

def behind (text : List Char) : Zone := text.foldl step code

end Zone

/-! ### Where the pass over block comments is -/

/-- What the pass is in: outside of block comments, behind a slash there, or in one, and then perhaps behind a star. -/
inductive Pass where
  | outside
  | slash
  | inside
  | star
  deriving DecidableEq, Repr

namespace Pass

def step : Pass → Char → Pass
  | outside, c => if c = '/' then slash else outside
  | slash, c => if c = '*' then inside else if c = '/' then slash else outside
  | inside, c => if c = '*' then star else inside
  | star, c => if c = '/' then outside else if c = '*' then star else inside

def behind (text : List Char) : Pass := text.foldl step outside

theorem behind_append_singleton (text : List Char) (c : Char) : behind (text ++ [c]) = (behind text).step c := by
  rw [behind, List.foldl_append]
  rfl

/-- What the pass makes of a text, and of anything behind it, in a comment that is closed there or is not: it goes on
behind the comment, or has kept all of the text. `pending` is the star that the text ended with. -/
def Opened (pending s : List Char) : Prop :=
  ∃ written kept, kept.getLast? = s.getLast? ∧ ∀ rest, dropBlockComments (s ++ rest) =
    match closeComment (pending ++ rest) with
    | some after => written ++ ' ' :: dropBlockComments after
    | none => kept ++ rest

/-- What the pass makes of a text, and of anything behind it, by where it is: what it has written, and what of the text
it still has to go over. -/
def Resumes : Pass → List Char → Prop
  | outside, s => ∃ written, written.getLast? ≠ some '/' ∧ (written.getLast? = s.getLast? ∨ written.getLast? = some ' ')
      ∧ ∀ rest, dropBlockComments (s ++ rest) = written ++ dropBlockComments rest
  | slash, s => ∃ written, ∀ rest, dropBlockComments (s ++ rest) = written ++ dropBlockComments ('/' :: rest)
  | inside, s => Opened [] s
  | star, s => Opened ['*'] s

theorem append_cons_eq (s : List Char) (c : Char) (rest : List Char) : s ++ [c] ++ rest = s ++ c :: rest := by simp

theorem Opened.append_singleton {pending pending' : List Char} (h : Opened pending s)
    (hclose : ∀ rest, closeComment (pending ++ c :: rest) = closeComment (pending' ++ rest)) :
    Opened pending' (s ++ [c]) := by
  obtain ⟨written, kept, -, hwritten⟩ := h
  refine ⟨written, kept ++ [c], by rw [List.getLast?_concat, List.getLast?_concat], fun rest => ?_⟩
  rw [append_cons_eq, hwritten, hclose, append_cons_eq]

/-- A comment that is closed neither at the end of the text nor behind it is kept. -/
theorem Opened.dropBlockComments_append {pending back : List Char} (h : Opened pending s)
    (hpending : closeComment pending = none) (hback : closeComment (pending ++ back) = none) :
    dropBlockComments (s ++ back) = dropBlockComments s ++ back := by
  obtain ⟨written, kept, -, hkept⟩ := h
  have hs := hkept []
  rw [List.append_nil, List.append_nil, hpending] at hs
  dsimp only at hs
  rw [hkept, hback, hs, List.append_nil]

theorem resumes_step_outside (h : outside.Resumes s) (c : Char) : (outside.step c).Resumes (s ++ [c]) := by
  obtain ⟨written, -, -, hwritten⟩ := h
  rw [step]
  split
  · next hc =>
    refine ⟨written, fun rest => ?_⟩
    rw [append_cons_eq, hwritten, hc]
  · next hc =>
    have hlast : (written ++ [c]).getLast? = (s ++ [c]).getLast? := by
      rw [List.getLast?_concat, List.getLast?_concat]
    refine ⟨written ++ [c], by simpa using hc, .inl hlast, fun rest => ?_⟩
    rw [append_cons_eq, hwritten, dropBlockComments_cons fun heq => absurd heq hc, append_cons_eq]

/-- The star of a mark opens a comment. Whether it is closed is known only behind the text. -/
theorem opened_of_star {written : List Char}
    (h : ∀ rest, dropBlockComments (s ++ rest) = written ++ dropBlockComments ('/' :: rest)) :
    Opened [] (s ++ ['*']) := by
  refine ⟨written, written ++ ['/', '*'], by simp, fun rest => ?_⟩
  rw [append_cons_eq, h, List.nil_append]
  cases hclose : closeComment rest with
  | some after => rw [dropBlockComments_of_closed hclose]
  | none => rw [dropBlockComments_of_open hclose, List.append_assoc]; rfl

theorem resumes_step_slash (h : slash.Resumes s) (c : Char) : (slash.step c).Resumes (s ++ [c]) := by
  obtain ⟨written, hwritten⟩ := h
  rw [step]
  split
  · next hc =>
    rw [hc]
    exact opened_of_star hwritten
  · next hstar =>
    have hslash (rest : List Char) : dropBlockComments ('/' :: c :: rest) = '/' :: dropBlockComments (c :: rest) :=
      dropBlockComments_cons fun _ hhead => hstar (Option.some.inj hhead)
    split
    · next hc =>
      refine ⟨written ++ ['/'], fun rest => ?_⟩
      rw [append_cons_eq, hwritten, hslash, hc, append_cons_eq]
    · next hc =>
      refine ⟨written ++ ['/', c], by simpa using hc, .inl (by simp), fun rest => ?_⟩
      rw [append_cons_eq, hwritten, hslash, dropBlockComments_cons fun heq => absurd heq hc, List.append_assoc]
      rfl

theorem resumes_step_inside (h : inside.Resumes s) (c : Char) : (inside.step c).Resumes (s ++ [c]) := by
  rw [step]
  split
  · next hc =>
    apply Opened.append_singleton h
    exact fun rest => by rw [hc]; rfl
  · next hc =>
    apply Opened.append_singleton h
    exact fun rest => closeComment_cons fun heq => absurd heq hc

theorem resumes_step_star (h : star.Resumes s) (c : Char) : (star.step c).Resumes (s ++ [c]) := by
  rw [step]
  split
  · next hc =>
    obtain ⟨written, kept, -, hwritten⟩ := h
    refine ⟨written ++ [' '], by simp, .inr (by simp), fun rest => ?_⟩
    have hclose : closeComment (['*'] ++ c :: rest) = some rest := by rw [hc]; rfl
    rw [append_cons_eq, hwritten, hclose, append_cons_eq]
  · next hslash =>
    have hstar (rest : List Char) : closeComment ('*' :: c :: rest) = closeComment (c :: rest) :=
      closeComment_cons fun _ hhead => hslash (Option.some.inj hhead)
    split
    · next hc =>
      apply Opened.append_singleton h
      exact fun rest => (hstar rest).trans (by rw [hc]; rfl)
    · next hc =>
      apply Opened.append_singleton h
      exact fun rest => (hstar rest).trans (closeComment_cons fun heq => absurd heq hc)

theorem resumes_step {pass : Pass} (h : pass.Resumes s) (c : Char) : (pass.step c).Resumes (s ++ [c]) := by
  cases pass with
  | outside => exact resumes_step_outside h c
  | slash => exact resumes_step_slash h c
  | inside => exact resumes_step_inside h c
  | star => exact resumes_step_star h c

theorem resumes_behind (s : List Char) : (behind s).Resumes s := by
  induction s using List.reverseRecOn with
  | nil => exact ⟨[], nofun, .inl rfl, fun rest => rfl⟩
  | append_singleton s c ih =>
      rw [behind_append_singleton]
      exact resumes_step ih c

end Pass

/-! ### Where both are -/

namespace Zone

theorem behind_append_singleton (text : List Char) (c : Char) : behind (text ++ [c]) = (behind text).step c := by
  rw [behind, List.foldl_append]
  rfl

/-- Whether an opening mark opens a block comment here, or stands in one. -/
def Marks : Zone → Prop
  | code | block | star => True
  | slash | line | string _ | escaped _ => False

instance : DecidablePred Marks
  | code | block | star => isTrue trivial
  | slash | line | string _ | escaped _ => isFalse id

/-- Whether every opening mark in a text opens a block comment or stands in one. -/
def Marked (text : List Char) : Prop := ∀ pre rest, text = pre ++ '/' :: '*' :: rest → (behind pre).Marks

theorem marked_iff (text : List Char) :
    Marked text ↔ ∀ n < text.length, (text.drop n).take 2 = ['/', '*'] → (behind (text.take n)).Marks := by
  constructor
  · intro h n _ hmark
    have hsplit := List.take_append_drop 2 (text.drop n)
    rw [hmark] at hsplit
    apply h (text.take n) ((text.drop n).drop 2)
    show text = text.take n ++ (['/', '*'] ++ (text.drop n).drop 2)
    rw [hsplit, List.take_append_drop]
  · rintro h pre rest rfl
    have hmark := h pre.length (by simp)
    rw [List.drop_left, List.take_left] at hmark
    exact hmark rfl

instance (text : List Char) : Decidable (Marked text) := decidable_of_iff _ (marked_iff text).symm

/-- Where the pass may be, by where a reader is, if no mark misleads it. -/
def Meets : Zone → Pass → Prop
  | code, pass => pass = .outside
  | slash, pass => pass = .slash
  | block, pass => pass = .inside
  | star, pass => pass = .star
  | line, pass => pass = .outside ∨ pass = .slash
  | string quote, pass | escaped quote, pass => quote ≠ '/' ∧ (pass = .outside ∨ pass = .slash)

theorem meets_ofCode (c : Char) : (ofCode c).Meets (Pass.step .outside c) := by
  rw [ofCode, Pass.step]
  by_cases hslash : c = '/'
  · rw [if_pos hslash, if_pos hslash]
    exact rfl
  · rw [if_neg hslash, if_neg hslash]
    split_ifs
    · exact ⟨hslash, .inl rfl⟩
    · exact rfl

/-- In a comment or a string a character other than the star of a mark does not mislead the pass. -/
theorem outside_or_slash_step {pass : Pass} (h : pass = .outside ∨ pass = .slash) (hmark : pass = .slash → c ≠ '*') :
    (c ≠ '/' → pass.step c = .outside) ∧ (pass.step c = .outside ∨ pass.step c = .slash) := by
  rcases h with rfl | rfl
  · rw [Pass.step]
    split_ifs with hc
    · exact ⟨fun hne => absurd hc hne, .inr rfl⟩
    · exact ⟨fun _ => rfl, .inl rfl⟩
  · rw [Pass.step, if_neg (hmark rfl)]
    split_ifs with hc
    · exact ⟨fun hne => absurd hc hne, .inr rfl⟩
    · exact ⟨fun _ => rfl, .inl rfl⟩

theorem meets_step {zone : Zone} {pass : Pass} (h : zone.Meets pass)
    (hmark : pass = .slash → c = '*' → zone = .slash) : (zone.step c).Meets (pass.step c) := by
  cases zone with
  | code =>
      cases h
      exact meets_ofCode c
  | slash =>
      cases h
      rw [step, Pass.step]
      by_cases hslash : c = '/'
      · rw [if_pos hslash, if_neg (by rw [hslash]; decide), if_pos hslash]
        exact .inr rfl
      · rw [if_neg hslash]
        split_ifs with hstar
        · exact rfl
        · have houtside := meets_ofCode c
          rwa [Pass.step, if_neg hslash] at houtside
  | block =>
      cases h
      rw [step, Pass.step]
      split_ifs <;> exact rfl
  | star =>
      cases h
      rw [step, Pass.step]
      split_ifs <;> exact rfl
  | line =>
      obtain ⟨houtside, hstay⟩ := outside_or_slash_step h fun hpass hc => nomatch hmark hpass hc
      rw [step]
      split_ifs with hc
      · exact houtside (by rw [hc]; decide)
      · exact hstay
  | string quote =>
      obtain ⟨hquote, h⟩ := h
      obtain ⟨houtside, hstay⟩ := outside_or_slash_step h fun hpass hc => nomatch hmark hpass hc
      rw [step]
      split_ifs with hends
      · apply houtside
        rcases hends with rfl | rfl
        · exact hquote
        · decide
      · exact ⟨hquote, hstay⟩
      · exact ⟨hquote, hstay⟩
  | escaped quote =>
      obtain ⟨hquote, h⟩ := h
      obtain ⟨houtside, hstay⟩ := outside_or_slash_step h fun hpass hc => nomatch hmark hpass hc
      rw [step]
      split_ifs with hc
      · exact houtside (by rw [hc]; decide)
      · exact ⟨hquote, hstay⟩

/-- Behind a slash in front of a mark a reader is behind a slash, if the mark opens a comment, or in one. -/
theorem step_slash_of_marks {zone : Zone} (h : zone.Marks) :
    zone.step '/' = slash ∨ zone.step '/' = block ∨ zone.step '/' = code := by
  cases zone with
  | code => exact .inl rfl
  | block => exact .inr (.inl rfl)
  | star => exact .inr (.inr rfl)
  | slash | line | string _ | escaped _ => exact h.elim

theorem exists_append_slash_of_behind (text : List Char) (h : Pass.behind text = .slash) : ∃ pre, text = pre ++ ['/'] := by
  cases text using List.reverseRecOn with
  | nil => cases h
  | append_singleton pre c =>
      refine ⟨pre, ?_⟩
      rw [Pass.behind_append_singleton] at h
      have hc : c = '/' := by
        by_contra hc
        revert h
        cases Pass.behind pre <;> rw [Pass.step] <;> split_ifs <;> simp
      rw [hc]

/-- Where every mark opens a comment or stands in one, the pass is where the reader is. -/
theorem meets_behind (text : List Char) (h : Marked text) : (behind text).Meets (Pass.behind text) := by
  induction text using List.reverseRecOn with
  | nil => exact rfl
  | append_singleton text c ih =>
      have htext : Marked text := by
        rintro pre rest rfl
        exact h pre (rest ++ [c]) (by simp)
      have hmeets := ih htext
      rw [behind_append_singleton, Pass.behind_append_singleton]
      apply meets_step hmeets
      rintro hslash rfl
      obtain ⟨pre, rfl⟩ := exists_append_slash_of_behind text hslash
      have hmarks := h pre [] (by simp)
      rw [behind_append_singleton] at hmeets ⊢
      rw [hslash] at hmeets
      rcases step_slash_of_marks hmarks with hzone | hzone | hzone
      · exact hzone
      · rw [hzone] at hmeets
        cases hmeets
      · rw [hzone] at hmeets
        cases hmeets

end Zone

/-! ### The pass over line comments -/

theorem dropLineComments_cons (hline : c ≠ '\n') (hmarks : c = '/' → s.head? ≠ some '/') (inside : Bool) :
    dropLineComments inside (c :: s) = if inside then dropLineComments true s else c :: dropLineComments false s := by
  rw [dropLineComments]
  · exact hline
  · rintro rest rfl rfl
    exact hmarks rfl rfl

/-- In a line comment everything is taken out up to the end of the line. -/
theorem dropLineComments_true (s : List Char) :
    dropLineComments true s = dropLineComments false (s.dropWhile (· != '\n')) := by
  induction hn : s.length using Nat.strong_induction_on generalizing s with
  | _ n ih =>
  cases s with
  | nil => rfl
  | cons c s =>
      by_cases hline : c = '\n'
      · rw [hline]
        rfl
      have hdrop : (c :: s).dropWhile (· != '\n') = s.dropWhile (· != '\n') :=
        List.dropWhile_cons_of_pos (bne_iff_ne.2 hline)
      rw [hdrop]
      by_cases hmarks : c = '/' ∧ s.head? = some '/'
      · obtain ⟨rfl, hhead⟩ := hmarks
        obtain ⟨rest, rfl⟩ := List.head?_eq_some_iff.1 hhead
        rw [dropLineComments, ih rest.length (by rw [← hn, List.length_cons, List.length_cons]; omega) rest rfl]
        rfl
      · rw [dropLineComments_cons hline fun hc hhead => hmarks ⟨hc, hhead⟩]
        exact ih s.length (by rw [← hn]; exact Nat.lt_succ_self _) s rfl

theorem head?_dropLineComments_true (s : List Char) : ∀ c ∈ (dropLineComments true s).head?, c = '\n' := by
  rw [dropLineComments_true]
  cases hrest : s.dropWhile (· != '\n') with
  | nil => exact nofun
  | cons c rest =>
      have hc : c = '\n' := by
        have hhead := List.head?_dropWhile_not (· != '\n') s
        rw [hrest] at hhead
        simpa using hhead
      rw [hc, dropLineComments]
      intro first hfirst
      exact (Option.some.inj hfirst).symm

/-- What the pass over line comments makes of a text that ends in no slash, and of anything behind it: what it has
written, and whether it goes on in a line comment. -/
theorem exists_dropLineComments_append (inside : Bool) (h : s.getLast? ≠ some '/') :
    ∃ written after, (∀ rest, dropLineComments inside (s ++ rest) = written ++ dropLineComments after rest)
      ∧ (after = false → written.getLast? = s.getLast?) := by
  induction hn : s.length using Nat.strong_induction_on generalizing s inside with
  | _ n ih =>
  match s, h, hn with
  | [], _, _ => exact ⟨[], inside, fun rest => rfl, fun _ => rfl⟩
  | [c], h, _ =>
      have hslash : c ≠ '/' := fun hc => h (by rw [hc]; rfl)
      by_cases hline : c = '\n'
      · exact ⟨[c], false, fun rest => by rw [hline]; rfl, fun _ => rfl⟩
      have hcons (rest : List Char) := dropLineComments_cons (s := rest) hline (fun hc => absurd hc hslash) inside
      cases inside with
      | true => exact ⟨[], true, hcons, nofun⟩
      | false => exact ⟨[c], false, hcons, fun _ => rfl⟩
  | c :: next :: s, h, hn =>
      have hlast : (c :: next :: s).getLast? = (next :: s).getLast? := List.getLast?_cons_cons
      have hshorter : (next :: s).length < n := by rw [← hn]; exact Nat.lt_succ_self _
      rw [hlast] at h ⊢
      have htail := fun inside => ih (next :: s).length hshorter inside h rfl
      have hwritten {written : List Char} (hsame : written.getLast? = (next :: s).getLast?) :
          (c :: written).getLast? = (next :: s).getLast? := by
        have hsome := List.getLast?_eq_some_getLast (List.cons_ne_nil next s)
        rw [List.getLast?_cons, hsame, hsome]
        rfl
      by_cases hline : c = '\n'
      · obtain ⟨written, after, hrest, hsame⟩ := htail false
        refine ⟨c :: written, after, fun rest => ?_, fun hafter => hwritten (hsame hafter)⟩
        rw [hline, List.cons_append, dropLineComments]
        exact congrArg ('\n' :: ·) (hrest rest)
      by_cases hmarks : c = '/' ∧ next = '/'
      · obtain ⟨rfl, rfl⟩ := hmarks
        obtain ⟨last, s, rfl⟩ : ∃ last rest, s = last :: rest := by
          cases s with
          | nil => exact absurd rfl h
          | cons last rest => exact ⟨last, rest, rfl⟩
        rw [List.getLast?_cons_cons] at h ⊢
        have hlt : (last :: s).length < n := Nat.lt_of_succ_lt hshorter
        obtain ⟨written, after, hrest, hsame⟩ := ih (last :: s).length hlt true h rfl
        refine ⟨written, after, fun rest => ?_, hsame⟩
        rw [List.cons_append, List.cons_append, dropLineComments, hrest]
      · have hcons (rest : List Char) := dropLineComments_cons (s := next :: s ++ rest) hline
          (fun hc hhead => hmarks ⟨hc, Option.some.inj hhead⟩) inside
        obtain ⟨written, after, hrest, hsame⟩ := htail inside
        cases inside with
        | true => exact ⟨written, after, fun rest => (hcons rest).trans (hrest rest), hsame⟩
        | false =>
            refine ⟨c :: written, after, fun rest => (hcons rest).trans ?_, fun hafter => hwritten (hsame hafter)⟩
            rw [if_neg Bool.false_ne_true, hrest]
            rfl

/-! ### Comments that are put in -/

theorem mem_of_closeComment {rest : List Char} (h : closeComment s = some rest) (hc : c ∈ rest) : c ∈ s := by
  fun_induction closeComment s with
  | case1 => cases h
  | case2 =>
      cases h
      exact List.mem_cons_of_mem _ (List.mem_cons_of_mem _ hc)
  | case3 _ _ _ ih => exact List.mem_cons_of_mem _ (ih h)

/-- The pass over block comments brings no other character than blanks into a text. -/
theorem mem_of_dropBlockComments (h : c ∈ dropBlockComments s) : c ∈ s ∨ c = ' ' := by
  fun_induction dropBlockComments s with
  | case1 => cases h
  | case2 rest after hafter ih =>
      rcases List.mem_cons.1 h with rfl | h
      · exact .inr rfl
      · exact (ih h).imp_left fun hmem =>
          List.mem_cons_of_mem _ (List.mem_cons_of_mem _ (mem_of_closeComment hafter hmem))
  | case3 => exact .inl h
  | case4 c' rest _ ih =>
      rcases List.mem_cons.1 h with rfl | h
      · exact .inl List.mem_cons_self
      · exact (ih h).imp_left (List.mem_cons_of_mem _)

theorem closeComment_eq_none (h : Unclosed s) : closeComment s = none := by
  fun_induction closeComment s with
  | case1 => rfl
  | case2 rest => exact absurd ⟨[], rest, rfl⟩ h
  | case3 c s _ ih => exact ih (h.mono (List.suffix_cons c s).isInfix)

theorem dropBlockComments_of_unclosed (h : Unclosed s) : dropBlockComments s = s := by
  fun_induction dropBlockComments s with
  | case1 => rfl
  | case2 rest after hafter _ =>
      rw [closeComment_eq_none (h.mono ((List.suffix_cons '*' rest).trans (List.suffix_cons '/' _)).isInfix)] at hafter
      cases hafter
  | case3 => rfl
  | case4 c rest _ ih => rw [ih (h.mono (List.suffix_cons c rest).isInfix)]

/-- Whether a line ends here. -/
def EndsLine (back : List Char) : Prop :=
  back = [] ∨ (∃ below, back = '\n' :: below) ∨ ∃ below, back = '\r' :: '\n' :: below

/-- Whether a line comment of this text, at the end of a line between these texts, stays a line comment for the pass over
block comments: its text opens nothing that is closed behind it, or nothing at all is closed from there on. -/
inductive Contained (front text back : List Char) : Prop
  | apart (hfront : Pass.behind front = .outside) (hhead : text.head? ≠ some '*')
      (htext : Pass.behind text = .outside ∨ Pass.behind text = .slash ∨ Unclosed back)
  | unclosed (hfront : Pass.behind front = .outside) (hback : Unclosed (text.tail ++ back))
  | opened (hfront : Pass.behind front = .inside) (hlast : front.getLast? ≠ some '/') (hback : Unclosed (text ++ back))

theorem EndsLine.head?_ne (h : EndsLine back) : back.head? ≠ some '*' ∧ back.head? ≠ some '/' := by
  rcases h with rfl | ⟨below, rfl⟩ | ⟨below, rfl⟩ <;> simp

/-- The pass goes over a text and what is behind it one after the other if the text opens nothing that is closed behind
it. -/
theorem dropBlockComments_append_of_behind (hhead : back.head? ≠ some '*' ∧ back.head? ≠ some '/')
    (h : Pass.behind text = .outside ∨ Pass.behind text = .slash ∨ Unclosed back) :
    dropBlockComments (text ++ back) = dropBlockComments text ++ dropBlockComments back := by
  have hresumes := Pass.resumes_behind text
  cases hpass : Pass.behind text with
  | outside =>
      rw [hpass] at hresumes
      obtain ⟨left, -, -, hleft⟩ := hresumes
      have htext := hleft []
      rw [List.append_nil, dropBlockComments, List.append_nil] at htext
      rw [hleft, htext]
  | slash =>
      rw [hpass] at hresumes
      obtain ⟨left, hleft⟩ := hresumes
      have htext := hleft []
      rw [List.append_nil, dropBlockComments_cons fun _ => by simp, dropBlockComments] at htext
      rw [hleft, htext, dropBlockComments_cons fun _ => hhead.1, List.append_assoc]
      rfl
  | inside =>
      rw [hpass] at h hresumes
      have hback : Unclosed back := by simpa using h
      rw [hresumes.dropBlockComments_append rfl (closeComment_eq_none hback), dropBlockComments_of_unclosed hback]
  | star =>
      rw [hpass] at h hresumes
      have hback : Unclosed back := by simpa using h
      have hclose : closeComment ('*' :: back) = none :=
        (closeComment_cons fun _ => hhead.2).trans (closeComment_eq_none hback)
      rw [hresumes.dropBlockComments_append rfl hclose, dropBlockComments_of_unclosed hback]

/-- A line comment is left of the pass over block comments with a text of its own. -/
theorem exists_dropBlockComments_line (htext : '\n' ∉ text) (hback : EndsLine back)
    (h : (text.head? ≠ some '*' ∧ (Pass.behind text = .outside ∨ Pass.behind text = .slash ∨ Unclosed back))
      ∨ Unclosed (text.tail ++ back)) :
    ∃ left, '\n' ∉ left
      ∧ dropBlockComments ('/' :: '/' :: (text ++ back)) = '/' :: '/' :: (left ++ dropBlockComments back) := by
  have hslash (s : List Char) : dropBlockComments ('/' :: '/' :: s) = '/' :: dropBlockComments ('/' :: s) :=
    dropBlockComments_cons fun _ => by simp
  rcases h with ⟨hhead, hpass⟩ | hunclosed
  · refine ⟨dropBlockComments text, fun hmem => ?_, ?_⟩
    · rcases mem_of_dropBlockComments hmem with hmem | hmem
      · exact htext hmem
      · exact absurd hmem (by decide)
    · rw [hslash, dropBlockComments_cons, dropBlockComments_append_of_behind hback.head?_ne hpass]
      intro _
      cases text with
      | nil => exact hback.head?_ne.1
      | cons c text => exact hhead
  · refine ⟨text, htext, ?_⟩
    have hkept : dropBlockComments ('/' :: (text ++ back)) = '/' :: (text ++ back) := by
      cases text with
      | nil =>
          have hunclosed : Unclosed back := hunclosed
          rw [List.nil_append, dropBlockComments_cons fun _ => hback.head?_ne.1, dropBlockComments_of_unclosed hunclosed]
      | cons c text =>
          have hunclosed : Unclosed (text ++ back) := hunclosed
          rw [List.cons_append]
          by_cases hc : c = '*'
          · rw [hc, dropBlockComments_of_open (closeComment_eq_none hunclosed)]
          · have hmarks : Unclosed (['/', c] ++ (text ++ back)) := by
              apply not_infix_append _ hunclosed
              · left
                simpa using hc
              · apply unclosed_of_not_mem
                simpa using Ne.symm hc
            exact dropBlockComments_of_unclosed hmarks
    rw [hslash, hkept, dropBlockComments_of_unclosed (hunclosed.mono (List.suffix_append text.tail back).isInfix)]

/-- What both passes make of a text in front of which the first one is outside, and of anything behind it. -/
theorem exists_passes (hfront : Pass.behind front = .outside) :
    ∃ written inside, (∀ rest, dropLineComments false (dropBlockComments (front ++ rest))
        = written ++ dropLineComments inside (dropBlockComments rest))
      ∧ (inside = false → written.getLast? = front.getLast? ∨ written.getLast? = some ' ') := by
  have hresumes := Pass.resumes_behind front
  rw [hfront] at hresumes
  obtain ⟨first, hslash, hlast, hfirst⟩ := hresumes
  obtain ⟨written, inside, hwritten, hsame⟩ := exists_dropLineComments_append false hslash
  refine ⟨written, inside, fun rest => ?_, fun hinside => ?_⟩
  · rw [hfirst, hwritten]
  · rw [hsame hinside]
    exact hlast

/-- What both passes make of a text that the first one ends in a comment, and of anything behind it that does not close
the comment. -/
theorem exists_passes_of_inside (hfront : Pass.behind front = .inside) (hlast : front.getLast? ≠ some '/') :
    ∃ written inside, ∀ rest, closeComment rest = none →
      dropLineComments false (dropBlockComments (front ++ rest)) = written ++ dropLineComments inside rest := by
  have hresumes := Pass.resumes_behind front
  rw [hfront] at hresumes
  obtain ⟨closed, kept, hsame, hkept⟩ := hresumes
  obtain ⟨written, inside, hwritten, -⟩ := exists_dropLineComments_append false (s := kept) (by rwa [hsame])
  refine ⟨written, inside, fun rest hrest => ?_⟩
  have hwhole := hkept rest
  rw [List.nil_append, hrest] at hwhole
  rw [hwhole, hwritten]

/-- A word character in front of what both passes make of a text is the one in front of the text. -/
theorem head?_passes (hc : isWordChar c = true)
    (h : (dropLineComments false (dropBlockComments back)).head? = some c) : back.head? = some c := by
  have hkept {s : List Char} (h : (dropLineComments false s).head? = some c) : s.head? = some c := by
    cases s with
    | nil => cases h
    | cons d s =>
        by_cases hline : d = '\n'
        · rw [hline, dropLineComments] at h
          rw [hline]
          exact h
        by_cases hmarks : d = '/' ∧ s.head? = some '/'
        · obtain ⟨rfl, hhead⟩ := hmarks
          obtain ⟨rest, rfl⟩ := List.head?_eq_some_iff.1 hhead
          rw [dropLineComments] at h
          rw [head?_dropLineComments_true rest c h] at hc
          exact absurd hc (by decide)
        · rw [dropLineComments_cons hline fun hd hhead => hmarks ⟨hd, hhead⟩] at h
          exact h
  have hblock := hkept h
  cases back with
  | nil =>
      rw [dropBlockComments] at hblock
      cases hblock
  | cons d rest =>
      by_cases hmarks : d = '/' ∧ rest.head? = some '*'
      · obtain ⟨rfl, hhead⟩ := hmarks
        obtain ⟨rest, rfl⟩ := List.head?_eq_some_iff.1 hhead
        cases hclose : closeComment rest with
        | none =>
            rw [dropBlockComments_of_open hclose] at hblock
            exact hblock
        | some after =>
            rw [dropBlockComments_of_closed hclose] at hblock
            cases hblock
            exact absurd hc (by decide)
      · rw [dropBlockComments_cons fun hd hhead => hmarks ⟨hd, hhead⟩] at hblock
        exact hblock

/-- What stands apart in a source does so in what both passes make of it. -/
theorem apart_passes {before : Option Char} (hbefore : before = front.getLast? ∨ before = some ' ')
    (h : Apart front.getLast? back.head?) :
    Apart before (dropLineComments false (dropBlockComments back)).head? := by
  cases hhead : (dropLineComments false (dropBlockComments back)).head? with
  | none => exact apart_none before
  | some c =>
      by_cases hc : isWordChar c = true
      · rcases hbefore with rfl | rfl
        · rw [head?_passes hc hhead] at h
          exact h
        · exact ⟨fun hword => absurd hword.1 (by decide), fun hminus => absurd hminus.1 (by decide)⟩
      · cases before with
        | none => trivial
        | some d => exact ⟨fun hword => hc hword.2, fun hminus => hc (isWordChar_of_isDecimalDigit hminus.2)⟩

/-- A block comment that stands apart leaves a blank, or nothing in a line comment. -/
theorem ofSource_insert_block (hfront : Pass.behind front = .outside) (htext : Unclosed text)
    (hapart : Apart front.getLast? back.head?) :
    ofSource (String.ofList (front ++ '/' :: '*' :: (text ++ '*' :: '/' :: back)))
      = ofSource (String.ofList (front ++ back)) := by
  obtain ⟨written, inside, hwritten, hlast⟩ := exists_passes hfront
  have hcomment : dropBlockComments ('/' :: '*' :: (text ++ '*' :: '/' :: back)) = ' ' :: dropBlockComments back :=
    dropBlockComments_of_closed (closeComment_of_unclosed htext back)
  have hblank := dropLineComments_cons (s := dropBlockComments back) (c := ' ') (by decide) (fun h => absurd h (by decide))
    inside
  rw [ofSource_eq_ofText, ofSource_eq_ofText, String.toList_ofList, String.toList_ofList, hwritten, hwritten, hcomment,
    hblank]
  cases inside with
  | true => rfl
  | false =>
      have hspaced : Spaced none (written ++ dropLineComments false (dropBlockComments back))
          (written ++ ' ' :: dropLineComments false (dropBlockComments back)) := by
        apply spaced_append (by decide)
        rw [Option.or_none]
        exact apart_passes (hlast rfl) hapart
      exact (ofText_spaced hspaced).symm

theorem endsLine_dropBlockComments (h : EndsLine back) : EndsLine (dropBlockComments back) := by
  have hnewline (below : List Char) : dropBlockComments ('\n' :: below) = '\n' :: dropBlockComments below :=
    dropBlockComments_blank (by decide) below
  rcases h with rfl | ⟨below, rfl⟩ | ⟨below, rfl⟩
  · exact .inl (by rw [dropBlockComments])
  · exact .inr (.inl ⟨_, hnewline below⟩)
  · exact .inr (.inr ⟨_, by rw [dropBlockComments_blank (by decide), hnewline]⟩)

/-- A line comment at the end of a line makes no difference to a text from which the block comments are taken out. -/
theorem ofText_insert_line (written : List Char) (inside : Bool) (htext : '\n' ∉ text) (hback : EndsLine back) :
    ofText (written ++ dropLineComments inside ('/' :: '/' :: (text ++ back)))
      = ofText (written ++ dropLineComments inside back) := by
  have hall : ∀ c ∈ text, (c != '\n') = true := fun c hc => bne_iff_ne.2 fun heq => htext (heq ▸ hc)
  rw [dropLineComments, dropLineComments_true, List.dropWhile_append_of_pos hall]
  rcases hback with rfl | ⟨below, rfl⟩ | ⟨below, rfl⟩
  · rfl
  · rfl
  · cases inside with
    | true => rw [dropLineComments_true]
    | false =>
        -- The comment takes the carriage return in front of the line feed away with it.
        have hreturn : dropLineComments false ('\r' :: '\n' :: below)
            = '\r' :: dropLineComments false ('\n' :: below) :=
          dropLineComments_cons (by decide) (fun h => absurd h (by decide)) false
        rw [hreturn]
        have hspaced : Spaced none (written ++ dropLineComments false ('\n' :: below))
            (written ++ '\r' :: dropLineComments false ('\n' :: below)) := by
          apply spaced_append (by decide)
          rw [dropLineComments, List.head?_cons]
          cases written.getLast?.or none with
          | none => trivial
          | some c => exact ⟨fun hword => absurd hword.2 (by decide), fun hminus => absurd hminus.2 (by decide)⟩
        exact ofText_spaced hspaced

/-- A line comment at the end of a line leaves nothing, if it stays one. -/
theorem ofSource_insert_line (htext : '\n' ∉ text) (hback : EndsLine back) (h : Contained front text back) :
    ofSource (String.ofList (front ++ '/' :: '/' :: (text ++ back))) = ofSource (String.ofList (front ++ back)) := by
  rw [ofSource_eq_ofText, ofSource_eq_ofText, String.toList_ofList, String.toList_ofList]
  have houtside (hfront : Pass.behind front = .outside)
      (h : (text.head? ≠ some '*' ∧ (Pass.behind text = .outside ∨ Pass.behind text = .slash ∨ Unclosed back))
        ∨ Unclosed (text.tail ++ back)) :
      ofText (dropLineComments false (dropBlockComments (front ++ '/' :: '/' :: (text ++ back))))
        = ofText (dropLineComments false (dropBlockComments (front ++ back))) := by
    obtain ⟨written, inside, hwritten, -⟩ := exists_passes hfront
    obtain ⟨left, hleft, hcomment⟩ := exists_dropBlockComments_line htext hback h
    rw [hwritten, hwritten, hcomment]
    exact ofText_insert_line written inside hleft (endsLine_dropBlockComments hback)
  cases h with
  | apart hfront hhead htext => exact houtside hfront (.inl ⟨hhead, htext⟩)
  | unclosed hfront hunclosed => exact houtside hfront (.inr hunclosed)
  | opened hfront hlast hunclosed =>
      obtain ⟨written, inside, hwritten⟩ := exists_passes_of_inside hfront hlast
      have hmarks : Unclosed ('/' :: '/' :: (text ++ back)) :=
        not_infix_append (s := ['/', '/']) (unclosed_of_not_mem (by decide)) hunclosed (.inl (by decide))
      have hunclosed : Unclosed back := hunclosed.mono (List.suffix_append text back).isInfix
      rw [hwritten _ (closeComment_eq_none hmarks), hwritten _ (closeComment_eq_none hunclosed)]
      exact ofText_insert_line written inside htext hback

/-- At a place in code, with no opening mark in front of it but those that open a block comment or stand in one, the
pass is outside of block comments. A line comment at the end of a line that stays one for the pass makes no difference
to the table, nor does a block comment that stands apart where the pass is outside. -/
theorem ofSource_insert_comment (hplace : Zone.behind front = .code) :
    (Zone.Marked front → Pass.behind front = .outside)
      ∧ (∀ text back, '\n' ∉ text → EndsLine back → Contained front text back →
        ofSource (String.ofList (front ++ '/' :: '/' :: (text ++ back))) = ofSource (String.ofList (front ++ back)))
      ∧ (Pass.behind front = .outside → ∀ text back, Unclosed text → Apart front.getLast? back.head? →
        ofSource (String.ofList (front ++ '/' :: '*' :: (text ++ '*' :: '/' :: back)))
          = ofSource (String.ofList (front ++ back))) := by
  refine ⟨fun hmarked => ?_, fun text back htext hback hcontained => ?_, fun hfront text back htext hapart => ?_⟩
  · have hmeets := Zone.meets_behind front hmarked
    rw [hplace] at hmeets
    exact hmeets
  · exact ofSource_insert_line htext hback hcontained
  · exact ofSource_insert_block hfront htext hapart

end EnumTable.Source

open EnumTable EnumTable.Source

/-- A source in front of the end of a line, with a comment of each kind. -/
def paletteFront : List Char := "/* colours */ enum Color \x7b\n  RED = 1; // the first\n  GREEN = 2;".toList

def paletteBack : List Char := '\n' :: "  BLUE = 3;\n\x7d /* all */".toList

/-- Comments of both kinds that are put there make no difference, and the member behind them is found. -/
theorem palette_comments_ignored :
    Zone.behind paletteFront = .code ∧ Zone.Marked paletteFront
      ∧ ofSource (String.ofList (paletteFront ++ '/' :: '/' :: (" see /* the */ palette".toList ++ paletteBack)))
        = ofSource (String.ofList (paletteFront ++ paletteBack))
      ∧ ofSource (String.ofList (paletteFront ++ '/' :: '*' :: (" // enum E \x7b".toList ++ '*' :: '/' :: paletteBack)))
        = ofSource (String.ofList (paletteFront ++ paletteBack))
      ∧ (ofSource (String.ofList (paletteFront ++ paletteBack))).number? "Color" "BLUE" = some 3 := by
  have hplace : Zone.behind paletteFront = .code := by decide +kernel
  have hmarked : Zone.Marked paletteFront := by decide +kernel
  obtain ⟨houtside, hline, hblock⟩ := ofSource_insert_comment hplace
  have hends : EndsLine paletteBack := .inr (.inl ⟨_, rfl⟩)
  have hnewline : '\n' ∉ " see /* the */ palette".toList := by decide +kernel
  have hcontained : Contained paletteFront " see /* the */ palette".toList paletteBack :=
    .apart (houtside hmarked) (by decide +kernel) (.inl (by decide +kernel))
  have hunclosed : Text.Unclosed " // enum E \x7b".toList := by decide +kernel
  have hapart : Apart paletteFront.getLast? paletteBack.head? := by decide +kernel
  have hblue : (ofSource (String.ofList (paletteFront ++ paletteBack))).number? "Color" "BLUE" = some 3 := by
    decide +kernel
  exact ⟨hplace, hmarked, hline _ _ hnewline hends hcontained, hblock (houtside hmarked) _ _ hunclosed hapart,
    hblue⟩

/-- In a line comment an opening mark takes members behind it along, in a string it takes an enum in front of a later
comment along, and behind a minus a comment takes a member along. -/
theorem comments_remove_members :
    (Zone.behind "enum Color \x7b\n  RED = 1; ".toList = .code
        ∧ ofSource "enum Color \x7b\n  RED = 1; // see /* the palette\n  BLUE = 3;\n\x7d /* all */"
          ≠ ofSource "enum Color \x7b\n  RED = 1; \n  BLUE = 3;\n\x7d /* all */")
      ∧ (Zone.behind "option (mark) = \"/*\";\nenum E \x7b A = 2; \x7d\n".toList = .code
        ∧ ofSource "option (mark) = \"/*\";\nenum E \x7b A = 2; \x7d\n/* end */"
          ≠ ofSource "option (mark) = \"/*\";\nenum E \x7b A = 2; \x7d\n")
      ∧ Zone.behind "enum E \x7b A = -".toList = .code
        ∧ ofSource "enum E \x7b A = -/* c */2; \x7d" ≠ ofSource "enum E \x7b A = -2; \x7d" := by
  decide +kernel

end SheetCompiler

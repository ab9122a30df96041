import Mathlib.Data.List.Forall2
import SheetCompiler.Proofs.EnumTable.Search
import SheetCompiler.Proofs.Header.Grammar

/-!
# Blanks between tokens

A blank more in a source makes no difference to its table, wherever it stands apart: not inside of a word, and not
between a minus and a digit. Each step of reading is followed in both texts at once. What it reads is the same, and the
texts that are left differ by the same blank, or no longer.
-/

namespace SheetCompiler

namespace EnumTable.Source

open Text

/-! ### One blank more -/

/-- Whether a blank may stand between two characters: they are not both in words, and not a minus and a digit. -/
def Apart : Option Char → Option Char → Prop
  | some c, some d => ¬(isWordChar c = true ∧ isWordChar d = true) ∧ ¬(c = '-' ∧ isDecimalDigit d = true)
  | _, _ => True

instance : (before behind : Option Char) → Decidable (Apart before behind)
  | some _, some _ => inferInstanceAs (Decidable (_ ∧ _))
  | none, _ | some _, none => isTrue trivial

/-- Whether two texts behind a character are the same, or the second has one blank more that stands apart. -/
inductive Spaced : Option Char → List Char → List Char → Prop
  | refl (before : Option Char) (s : List Char) : Spaced before s s
  | here {before : Option Char} {blank : Char} {s : List Char} (hblank : isSpace blank = true)
      (hapart : Apart before s.head?) : Spaced before s (blank :: s)
  | there {before : Option Char} {s s' : List Char} (c : Char) (h : Spaced (some c) s s') :
      Spaced before (c :: s) (c :: s')

/-- Whether two texts are the same, or begin with the same character and the second has one blank more behind it. -/
inductive Aligned : List Char → List Char → Prop
  | refl (s : List Char) : Aligned s s
  | there {s s' : List Char} (c : Char) (h : Spaced (some c) s s') : Aligned (c :: s) (c :: s')

def OfWord (before : Option Char) : Prop := before.any isWordChar = true

/-- Whether two texts are what is left behind a word that both texts had. -/
def Onward (s s' : List Char) : Prop := ∃ before, OfWord before ∧ Spaced before s s'

variable {before : Option Char} {s s' : List Char} {c : Char}

/-- A blank stands apart between two texts if it does between the last character of the one and the first of the
other. -/
theorem spaced_append {blank : Char} (hblank : isSpace blank = true) (front : List Char)
    (h : Apart (front.getLast?.or before) s.head?) : Spaced before (front ++ s) (front ++ blank :: s) := by
  induction front generalizing before with
  | nil => exact .here hblank h
  | cons c front ih =>
      apply Spaced.there c (ih _)
      cases front with
      | nil => exact h
      | cons next front =>
          have hlast := List.getLast?_eq_some_getLast (List.cons_ne_nil next front)
          rw [List.getLast?_cons_cons, hlast] at h
          rw [hlast]
          exact h

theorem OfWord.endsWord (hword : OfWord before) (h : Apart before s.head?) : EndsWord s := by
  intro d hd
  obtain ⟨c, rfl, hc⟩ := (Option.any_eq_true _ _).1 hword
  rw [hd] at h
  rw [← Bool.not_eq_true]
  exact fun hd => h.1 ⟨hc, hd⟩

/-! ### Reading in both texts -/

section Rel

variable {α β γ δ : Type} {R : α → β → Prop} {T : γ → δ → Prop}

theorem rel_bind {x : Option α} {y : Option β} {f : α → Option γ} {g : β → Option δ} (h : Option.Rel R x y)
    (hfg : ∀ a b, R a b → Option.Rel T (f a) (g b)) : Option.Rel T (x.bind f) (y.bind g) := by
  cases h with
  | none => exact .none
  | some h => exact hfg _ _ h

theorem rel_map {x : Option α} {y : Option β} {f : α → γ} {g : β → δ} (h : Option.Rel R x y)
    (hfg : ∀ a b, R a b → T (f a) (g b)) : Option.Rel T (x.map f) (y.map g) := by
  cases h with
  | none => exact .none
  | some h => exact .some (hfg _ _ h)

theorem rel_or {x x' : Option α} {y y' : Option β} (h : Option.Rel R x y) (h' : Option.Rel R x' y') :
    Option.Rel R (x.or x') (y.or y') := by
  cases h with
  | none => exact h'
  | some h => exact .some h

theorem rel_imp {T : α → β → Prop} {x : Option α} {y : Option β} (h : Option.Rel R x y) (himp : ∀ a b, R a b → T a b) :
    Option.Rel T x y := by
  cases h with
  | none => exact .none
  | some h => exact .some (himp _ _ h)

theorem rel_refl {R : α → α → Prop} (hrefl : ∀ a, R a a) : ∀ x : Option α, Option.Rel R x x
  | none => .none
  | some a => .some (hrefl a)

end Rel

/-- Whether the same was read from two texts, up to the end of a word. -/
def SameFind {α : Type} (x y : α × List Char) : Prop := x.1 = y.1 ∧ Onward x.2 y.2

theorem trimStart_spaced (h : Spaced before s s') : Aligned (trimStart s) (trimStart s') := by
  induction h with
  | refl before s => exact .refl _
  | here hblank _ =>
      rw [trimStart, trimStart, List.dropWhile_cons_of_pos hblank]
      exact .refl _
  | @there before s s' c h ih =>
      by_cases hc : isSpace c = true
      · rw [trimStart, trimStart, List.dropWhile_cons_of_pos hc, List.dropWhile_cons_of_pos hc]
        exact ih
      · rw [trimStart, trimStart, List.dropWhile_cons_of_neg hc, List.dropWhile_cons_of_neg hc]
        exact .there c h

section TakeWhile

variable {p : Char → Bool} (hp : ∀ c, p c = true → isWordChar c = true)
include hp

theorem takeWhile_spaced (hword : OfWord before) (h : Spaced before s s') :
    s.takeWhile p = s'.takeWhile p ∧ Onward (s.dropWhile p) (s'.dropWhile p) := by
  induction h with
  | refl before s => exact ⟨rfl, before, hword, .refl _ _⟩
  | @here before blank s hblank hapart =>
      have hspace : EndsWord (blank :: s) := endsWord_cons (isWordChar_of_isSpace hblank) s
      obtain ⟨htake, hdrop⟩ := takeWhile_of_endsWord hp (hword.endsWord hapart)
      obtain ⟨htake', hdrop'⟩ := takeWhile_of_endsWord hp hspace
      rw [htake, hdrop, htake', hdrop']
      exact ⟨rfl, before, hword, .here hblank hapart⟩
  | @there before s s' c h ih =>
      by_cases hc : p c = true
      · obtain ⟨htake, hdrop⟩ := ih (hp c hc)
        rw [List.takeWhile_cons_of_pos hc, List.takeWhile_cons_of_pos hc, List.dropWhile_cons_of_pos hc,
          List.dropWhile_cons_of_pos hc, htake]
        exact ⟨rfl, hdrop⟩
      · rw [List.takeWhile_cons_of_neg hc, List.takeWhile_cons_of_neg hc, List.dropWhile_cons_of_neg hc,
          List.dropWhile_cons_of_neg hc]
        exact ⟨rfl, before, hword, .there c h⟩

end TakeWhile

/-- What is taken of a text that begins with the same character is the same, and something if the character is. -/
theorem takeWhile_aligned {p : Char → Bool} (hp : ∀ c, p c = true → isWordChar c = true) (h : Aligned s s') :
    s.takeWhile p = s'.takeWhile p ∧ (s.takeWhile p ≠ [] → Onward (s.dropWhile p) (s'.dropWhile p)) := by
  cases h with
  | refl =>
      refine ⟨rfl, fun hne => ?_⟩
      obtain ⟨c, rest, htake⟩ := List.exists_cons_of_ne_nil hne
      have hc : p c = true := List.mem_takeWhile_imp (by rw [htake]; exact List.mem_cons_self)
      exact ⟨some c, hp c hc, .refl _ _⟩
  | there c h =>
      by_cases hc : p c = true
      · have hword : OfWord (some c) := hp c hc
        obtain ⟨htake, hdrop⟩ := takeWhile_spaced hp hword h
        rw [List.takeWhile_cons_of_pos hc, List.takeWhile_cons_of_pos hc, List.dropWhile_cons_of_pos hc,
          List.dropWhile_cons_of_pos hc, htake]
        exact ⟨rfl, fun _ => hdrop⟩
      · rw [List.takeWhile_cons_of_neg hc, List.takeWhile_cons_of_neg hc]
        exact ⟨rfl, fun hne => absurd rfl hne⟩

theorem takeName_aligned (h : Aligned s s') : Option.Rel SameFind (takeName s) (takeName s') := by
  obtain ⟨htake, hdrop⟩ := takeWhile_aligned (fun _ => id) h
  rw [takeName, takeName, ← htake]
  cases hname : s.takeWhile isWordChar with
  | nil => exact .none
  | cons c name => exact .some ⟨rfl, hdrop (by rw [hname]; exact List.cons_ne_nil c name)⟩

theorem takeMark_aligned (mark : Char) (h : Aligned s s') :
    Option.Rel (Spaced (some mark)) (takeMark mark s) (takeMark mark s') := by
  cases h with
  | refl => exact rel_refl (Spaced.refl _) _
  | there c h =>
      rw [takeMark, takeMark]
      split
      · next hc => exact .some (hc ▸ h)
      · exact .none

/-- Within a word a mark that is a word character is found in both texts. -/
theorem takeMark_spaced {mark : Char} (hmark : isWordChar mark = true) (hword : OfWord before) (h : Spaced before s s') :
    Option.Rel Onward (takeMark mark s) (takeMark mark s') := by
  have hnone {s : List Char} (hs : EndsWord s) : takeMark mark s = none := by
    apply takeMark_of_ne
    rintro c hc rfl
    rw [hs c hc] at hmark
    cases hmark
  have haligned {s s' : List Char} (h : Aligned s s') : Option.Rel Onward (takeMark mark s) (takeMark mark s') :=
    rel_imp (takeMark_aligned mark h) fun _ _ h => ⟨some mark, hmark, h⟩
  cases h with
  | refl => exact haligned (.refl _)
  | there c h => exact haligned (.there c h)
  | here hblank hapart =>
      rw [hnone (hword.endsWord hapart), hnone (endsWord_cons (isWordChar_of_isSpace hblank) s)]
      exact .none

/-! ### Members -/

theorem takeMagnitude_of_not_digit (h : ∀ c ∈ s.head?, isDecimalDigit c = false) : takeMagnitude s = none := by
  have hzero : takeMark '0' s = none := by
    apply takeMark_of_ne
    rintro c hc rfl
    exact absurd (h '0' hc) (by decide)
  have hdigits : s.takeWhile isDecimalDigit = [] := by
    cases s with
    | nil => rfl
    | cons c s => exact List.takeWhile_cons_of_neg (by simp [h c rfl])
  rw [takeMagnitude_eq, takeHexadecimal, hzero, takeDecimal, hdigits]
  rfl

theorem takeHexDigits_spaced (hword : OfWord before) (h : Spaced before s s') :
    Option.Rel SameFind (takeHexDigits s) (takeHexDigits s') := by
  have hhex : ∀ c, Hexadecimal.isDigit c = true → isWordChar c = true :=
    fun c hc => isWordChar_of_continuesIdentifier (Hexadecimal.continuesIdentifier_of_isDigit hc)
  obtain ⟨htake, hdrop⟩ := takeWhile_spaced hhex hword h
  rw [takeHexDigits, takeHexDigits, ← htake]
  cases s.takeWhile Hexadecimal.isDigit with
  | nil => exact .none
  | cons digit digits => exact .some ⟨rfl, hdrop⟩

theorem takeDecimal_aligned (h : Aligned s s') : Option.Rel SameFind (takeDecimal s) (takeDecimal s') := by
  obtain ⟨htake, hdrop⟩ := takeWhile_aligned (fun _ => isWordChar_of_isDecimalDigit) h
  rw [takeDecimal, takeDecimal, ← htake]
  cases hdigits : s.takeWhile isDecimalDigit with
  | nil => exact .none
  | cons digit digits => exact .some ⟨rfl, hdrop (by rw [hdigits]; exact List.cons_ne_nil digit digits)⟩

theorem takeMagnitude_aligned (h : Aligned s s') : Option.Rel SameFind (takeMagnitude s) (takeMagnitude s') := by
  rw [takeMagnitude_eq, takeMagnitude_eq, takeHexadecimal, takeHexadecimal]
  apply rel_or _ (takeDecimal_aligned h)
  apply rel_bind (takeMark_aligned '0' h)
  intro s s' h
  have hzero : OfWord (some '0') := (by decide : isWordChar '0' = true)
  have hmark : Option.Rel Onward ((takeMark 'x' s).or (takeMark 'X' s)) ((takeMark 'x' s').or (takeMark 'X' s')) :=
    rel_or (takeMark_spaced (by decide) hzero h) (takeMark_spaced (by decide) hzero h)
  apply rel_bind hmark
  rintro s s' ⟨before, hword, h⟩
  exact takeHexDigits_spaced hword h

theorem takeNumber_spaced (h : Spaced before s s') : Option.Rel SameFind (takeNumber s) (takeNumber s') := by
  have hmagnitude {s s' : List Char} (negative : Bool) (h : Option.Rel SameFind (takeMagnitude s) (takeMagnitude s')) :
      Option.Rel SameFind ((takeMagnitude s).map fun found => (found.1.bind (number? negative), found.2))
        ((takeMagnitude s').map fun found => (found.1.bind (number? negative), found.2)) := by
    apply rel_map h
    rintro ⟨magnitude, rest⟩ ⟨magnitude', rest'⟩ ⟨hsame, hrest⟩
    cases hsame
    exact ⟨rfl, hrest⟩
  have htrim := trimStart_spaced h
  rw [takeNumber, takeNumber]
  generalize trimStart s = s at htrim
  generalize trimStart s' = s' at htrim
  cases htrim with
  | refl => exact hmagnitude _ (takeMagnitude_aligned (.refl _))
  | @there s s' c h =>
      by_cases hminus : c = '-'
      · rw [hminus] at h ⊢
        apply hmagnitude true
        cases h with
        | refl => exact takeMagnitude_aligned (.refl _)
        | there c h => exact takeMagnitude_aligned (.there c h)
        | @here _ blank _ hblank hapart =>
            have hdigit : ∀ c ∈ s.head?, isDecimalDigit c = false := by
              intro c hc
              rw [hc] at hapart
              rw [← Bool.not_eq_true]
              exact fun hdigit => hapart.2 ⟨rfl, hdigit⟩
            have hspace : ∀ c ∈ (blank :: s).head?, isDecimalDigit c = false := by
              intro c hc
              cases hc
              rw [← Bool.not_eq_true]
              intro hdigit
              have hword := isWordChar_of_isDecimalDigit hdigit
              rw [isWordChar_of_isSpace hblank] at hword
              cases hword
            show Option.Rel SameFind (takeMagnitude s) (takeMagnitude (blank :: s))
            rw [takeMagnitude_of_not_digit hdigit, takeMagnitude_of_not_digit hspace]
            exact .none
      · have hsign (s : List Char) : takeMinus (c :: s) = (false, c :: s) := by
          rw [takeMinus]
          exact fun rest heq => hminus (List.cons.inj heq).1
        rw [hsign, hsign]
        exact hmagnitude false (takeMagnitude_aligned (.there c h))

theorem takeMember_aligned (h : Aligned s s') : Option.Rel SameFind (takeMember s) (takeMember s') := by
  have hhead : s.head? = s'.head? := by cases h <;> rfl
  rw [takeMember_eq, takeMember_eq, hhead]
  split
  · apply rel_bind (takeName_aligned h)
    rintro ⟨name, behind⟩ ⟨name', behind'⟩ ⟨hname, _, _, hbehind⟩
    cases hname
    apply rel_bind (takeMark_aligned '=' (trimStart_spaced hbehind))
    intro s s' h
    apply rel_map (takeNumber_spaced h)
    rintro ⟨number, rest⟩ ⟨number', rest'⟩ ⟨hnumber, hrest⟩
    cases hnumber
    exact ⟨rfl, hrest⟩
  · exact .none

/-! ### Blocks -/

theorem takeWord_spaced (hword : OfWord before) (h : Spaced before s s') :
    ∀ {word : List Char}, (∀ c ∈ word, isWordChar c = true) → Option.Rel Onward (takeWord word s) (takeWord word s') := by
  intro word
  induction word generalizing before s s' with
  | nil => exact fun _ => .some ⟨before, hword, h⟩
  | cons c word ih =>
      intro hchars
      obtain ⟨hc, hchars⟩ := List.forall_mem_cons.1 hchars
      rw [takeWord_cons, takeWord_cons]
      apply rel_bind (takeMark_spaced hc hword h)
      rintro s s' ⟨before, hword, h⟩
      exact ih hword h hchars

theorem takeWord_aligned {word : List Char} (hword : ∀ c ∈ word, isWordChar c = true) (hne : word ≠ [])
    (h : Aligned s s') : Option.Rel Onward (takeWord word s) (takeWord word s') := by
  obtain ⟨c, word, rfl⟩ := List.exists_cons_of_ne_nil hne
  obtain ⟨hc, hword⟩ := List.forall_mem_cons.1 hword
  rw [takeWord_cons, takeWord_cons]
  apply rel_bind (takeMark_aligned c h)
  intro s s' h
  have hc : OfWord (some c) := hc
  exact takeWord_spaced hc h hword

theorem takeBlanks_spaced (hword : OfWord before) (h : Spaced before s s') :
    Option.Rel SameFind ((takeBlanks s).bind takeName) ((takeBlanks s').bind takeName) := by
  have htrim := trimStart_spaced h
  cases h with
  | refl =>
      apply rel_bind (rel_refl Aligned.refl _)
      exact fun _ _ => takeName_aligned
  | there c h =>
      rw [takeBlanks, takeBlanks, List.head?_cons, List.head?_cons]
      split
      · exact takeName_aligned htrim
      · exact .none
  | @here _ blank s hblank hapart =>
      have hblanks : takeBlanks (blank :: s) = some (trimStart (blank :: s)) := if_pos hblank
      have hname := takeName_aligned htrim
      rw [hblanks, takeBlanks]
      split
      · exact hname
      · next hhead =>
        -- Without blanks there is nothing, with one there is no name.
        have hsame : trimStart (blank :: s) = s := by
          have hfront : ∀ c ∈ [blank], isSpace c = true := List.forall_mem_singleton.2 hblank
          apply trimStart_gap_append hfront
          intro c hc
          rw [hc] at hhead
          exact Bool.not_eq_true _ ▸ hhead
        rw [hsame, Option.bind_some, takeName_of_endsWord (hword.endsWord hapart)]
        exact .none

/-- Whether the bodies that were read from two texts are the same but for the blank, as well as what is left. -/
def SameBody (before : Option Char) (x y : List Char × List Char) : Prop :=
  Spaced before x.1 y.1 ∧ ∃ before, Spaced before x.2 y.2

theorem takeBody_cons (c : Char) (s : List Char) :
    takeBody (c :: s) = if c = '\x7d' then some ([], s) else (takeBody s).map fun (body, rest) => (c :: body, rest) := by
  rw [takeBody]
  split_ifs with hc
  · rw [hc]
    rfl
  · have hne : (c != '\x7d') = true := bne_iff_ne.2 hc
    have hdrop : (c :: s).dropWhile (· != '\x7d') = s.dropWhile (· != '\x7d') := List.dropWhile_cons_of_pos hne
    have htake : (c :: s).takeWhile (· != '\x7d') = c :: s.takeWhile (· != '\x7d') := List.takeWhile_cons_of_pos hne
    rw [hdrop, htake, takeBody]
    cases s.dropWhile (· != '\x7d') <;> rfl

theorem head?_body {body rest : List Char} (h : takeBody s = some (body, rest)) : body = [] ∨ body.head? = s.head? := by
  cases s with
  | nil => cases h
  | cons c s =>
      rw [takeBody_cons] at h
      split at h
      · cases h
        exact .inl rfl
      · obtain ⟨found, -, hfound⟩ := Option.map_eq_some_iff.1 h
        cases hfound
        exact .inr rfl

theorem apart_none (before : Option Char) : Apart before none := by
  cases before <;> trivial

theorem takeBody_spaced (h : Spaced before s s') : Option.Rel (SameBody before) (takeBody s) (takeBody s') := by
  induction h with
  | refl before s => exact rel_refl (fun x => ⟨.refl before x.1, before, .refl before x.2⟩) _
  | @here before blank s hblank hapart =>
      have hbrace : blank ≠ '\x7d' := by
        rintro rfl
        exact absurd hblank (by decide)
      rw [takeBody_cons, if_neg hbrace]
      cases hbody : takeBody s with
      | none => exact .none
      | some found =>
          refine .some ⟨.here hblank ?_, before, .refl before found.2⟩
          rcases head?_body hbody with hnil | hhead
          · rw [hnil]
            exact apart_none before
          · rw [hhead]
            exact hapart
  | @there before s s' c h ih =>
      rw [takeBody_cons, takeBody_cons]
      split
      · exact .some ⟨.refl before [], some c, h⟩
      · apply rel_map ih
        rintro ⟨body, rest⟩ ⟨body', rest'⟩ ⟨hbody, hrest⟩
        exact ⟨.there c hbody, hrest⟩

def SameBlock (x y : String × List Char) : Prop := x.1 = y.1 ∧ ∃ before, Spaced before x.2 y.2

theorem takeBlock_aligned (h : Aligned s s') :
    Option.Rel (fun x y => SameBlock x.1 y.1 ∧ ∃ before, Spaced before x.2 y.2) (takeBlock s) (takeBlock s') := by
  rw [takeBlock_eq, takeBlock_eq]
  apply rel_bind (takeWord_aligned isWordChar_of_mem_enumWord (by decide) h)
  rintro s s' ⟨before, hword, h⟩
  rw [← Option.bind_assoc, ← Option.bind_assoc]
  apply rel_bind (takeBlanks_spaced hword h)
  rintro ⟨name, behind⟩ ⟨name', behind'⟩ ⟨hname, _, _, hbehind⟩
  cases hname
  apply rel_bind (takeMark_aligned '\x7b' (trimStart_spaced hbehind))
  intro s s' h
  apply rel_map (takeBody_spaced h)
  rintro ⟨body, rest⟩ ⟨body', rest'⟩ ⟨hbody, hrest⟩
  exact ⟨⟨rfl, _, hbody⟩, hrest⟩

/-! ### Searching both texts -/

/-- What a search finds in both texts is related if what is taken at one place is. Behind a find both searches are
fresh, or both texts were left behind a word. -/
theorem search_spaced {α : Type} {take : List Char → Option (α × List Char)} {behind : Bool} {R : α → α → Prop}
    (hrefl : ∀ a, R a a) (hstart : ∀ c s, isWordChar c = false → take (c :: s) = none)
    (hlength : ∀ {s found after}, take s = some (found, after) → after.length < s.length)
    (htake : ∀ {s s'}, Aligned s s' → Option.Rel (fun x y => R x.1 y.1
      ∧ ∃ before, (behind = false → OfWord before) ∧ Spaced before x.2 y.2) (take s) (take s'))
    {fresh : Bool} (hfresh : fresh = false → OfWord before) (h : Spaced before s s') :
    List.Forall₂ R (search take behind fresh s) (search take behind fresh s') := by
  induction hn : s.length using Nat.strong_induction_on generalizing before s s' fresh with
  | _ n ih =>
  cases h with
  | refl => exact List.forall₂_same.2 fun a _ => hrefl a
  | here hblank hapart =>
      have hsame : search take behind fresh s = search take behind true s := by
        cases fresh with
        | true => rfl
        | false => exact search_of_endsWord hstart ((hfresh rfl).endsWord hapart)
      rw [search_cons_of_not_word hstart (isWordChar_of_isSpace hblank), hsame]
      exact List.forall₂_same.2 fun a _ => hrefl a
  | @there _ s s' c h =>
      have hpass : (fresh = true → take (c :: s) = none) → (fresh = true → take (c :: s') = none) →
          List.Forall₂ R (search take behind fresh (c :: s)) (search take behind fresh (c :: s')) := by
        intro hnone hnone'
        rw [search_cons_of_none hnone, search_cons_of_none hnone']
        refine ih s.length (by rw [← hn]; exact Nat.lt_succ_self _) ?_ h rfl
        intro hword
        show isWordChar c = true
        simpa using hword
      cases fresh with
      | false => exact hpass nofun nofun
      | true =>
          have hrel := htake (.there c h)
          cases hx : take (c :: s) with
          | none =>
              cases hy : take (c :: s') with
              | none => exact hpass (fun _ => hx) (fun _ => hy)
              | some y =>
                  rw [hx, hy] at hrel
                  cases hrel
          | some x =>
              cases hy : take (c :: s') with
              | none =>
                  rw [hx, hy] at hrel
                  cases hrel
              | some y =>
                  rw [hx, hy] at hrel
                  cases hrel with
                  | some hrel =>
                      obtain ⟨hfound, before, hword, hafter⟩ := hrel
                      have hlt := hlength hx
                      rw [search_cons_of_some hx (Nat.le_of_lt_succ hlt),
                        search_cons_of_some hy (Nat.le_of_lt_succ (hlength hy))]
                      exact .cons hfound (ih x.2.length (hn ▸ hlt) hword hafter rfl)

/-! ### Finds use something up -/

theorem length_of_takeMark {mark : Char} {rest : List Char} (h : takeMark mark s = some rest) :
    rest.length < s.length := by
  cases s with
  | nil => cases h
  | cons c s =>
      rw [takeMark] at h
      split at h
      · cases h
        exact Nat.lt_succ_self _
      · cases h

theorem length_of_takeName {name rest : List Char} (h : takeName s = some (name, rest)) : rest.length ≤ s.length := by
  rw [takeName] at h
  split at h
  · cases h
  · cases h
    exact List.length_dropWhile_le _ s

theorem length_of_takeDecimal {found : Option Nat × List Char} (h : takeDecimal s = some found) :
    found.2.length ≤ s.length := by
  rw [takeDecimal] at h
  split at h
  · cases h
  · cases h
    exact List.length_dropWhile_le _ s

theorem length_of_takeHexDigits {found : Option Nat × List Char} (h : takeHexDigits s = some found) :
    found.2.length ≤ s.length := by
  rw [takeHexDigits] at h
  split at h
  · cases h
  · cases h
    exact List.length_dropWhile_le _ s

theorem length_of_takeMagnitude {found : Option Nat × List Char} (h : takeMagnitude s = some found) :
    found.2.length ≤ s.length := by
  rw [takeMagnitude_eq, Option.or_eq_some_iff] at h
  rcases h with hhex | ⟨-, hdecimal⟩
  · obtain ⟨s', hzero, hrest⟩ := Option.bind_eq_some_iff.1 hhex
    obtain ⟨digits, hmark, hdigits⟩ := Option.bind_eq_some_iff.1 hrest
    have hlt := length_of_takeMark hzero
    have hle := length_of_takeHexDigits hdigits
    have hmiddle : digits.length < s'.length := by
      rcases Option.or_eq_some_iff.1 hmark with hlower | ⟨-, hupper⟩
      · exact length_of_takeMark hlower
      · exact length_of_takeMark hupper
    omega
  · exact length_of_takeDecimal hdecimal

theorem length_of_takeNumber {found : Option Int32 × List Char} (h : takeNumber s = some found) :
    found.2.length ≤ s.length := by
  have hminus (s : List Char) : (takeMinus s).2.length ≤ s.length := by
    rw [takeMinus.eq_def]
    split
    · exact Nat.le_succ _
    · exact Nat.le_refl _
  obtain ⟨magnitude, hmagnitude, hfound⟩ := Option.map_eq_some_iff.1 h
  cases hfound
  exact ((length_of_takeMagnitude hmagnitude).trans (hminus _)).trans (length_trimStart_le s)

theorem length_of_takeMember {found : String × Option Int32} {after : List Char} (h : takeMember s = some (found, after)) :
    after.length < s.length := by
  rw [takeMember_eq] at h
  split at h
  · obtain ⟨name, hname, hrest⟩ := Option.bind_eq_some_iff.1 h
    obtain ⟨s', hmark, hrest⟩ := Option.bind_eq_some_iff.1 hrest
    obtain ⟨number, hnumber, hfound⟩ := Option.map_eq_some_iff.1 hrest
    cases hfound
    have hlt := length_of_takeMark hmark
    have hle := length_of_takeNumber hnumber
    have hname := length_of_takeName hname
    have htrim := length_trimStart_le name.2
    omega
  · cases h

theorem length_of_takeBody {found : List Char × List Char} (h : takeBody s = some found) : found.2.length ≤ s.length := by
  rw [takeBody] at h
  split at h
  · cases h
  · next c rest hdrop =>
    cases h
    have hle := List.length_dropWhile_le (· != '\x7d') s
    rw [hdrop, List.length_cons] at hle
    exact Nat.le_of_succ_le hle

theorem length_of_takeBlock {found : String × List Char} {after : List Char} (h : takeBlock s = some (found, after)) :
    after.length < s.length := by
  rw [takeBlock_eq] at h
  obtain ⟨s₁, hword, hrest⟩ := Option.bind_eq_some_iff.1 h
  obtain ⟨s₂, hblanks, hrest⟩ := Option.bind_eq_some_iff.1 hrest
  obtain ⟨name, hname, hrest⟩ := Option.bind_eq_some_iff.1 hrest
  obtain ⟨inside, hmark, hrest⟩ := Option.bind_eq_some_iff.1 hrest
  obtain ⟨body, hbody, hfound⟩ := Option.map_eq_some_iff.1 hrest
  cases hfound
  have hword : s₁.length ≤ s.length := by
    rw [takeWord] at hword
    split at hword
    · cases hword
      rw [List.length_drop]
      omega
    · cases hword
  have hblanks : s₂.length ≤ s₁.length := by
    rw [takeBlanks] at hblanks
    split at hblanks
    · cases hblanks
      exact length_trimStart_le s₁
    · cases hblanks
  have hname := length_of_takeName hname
  have hmark := length_of_takeMark hmark
  have htrim := length_trimStart_le name.2
  have hbody := length_of_takeBody hbody
  omega

/-! ### Tables -/

/-- A blank more in the body of an enum makes no difference to its members. -/
theorem insertMembers_spaced (t : EnumTable) (name : String) (h : Spaced before s s') :
    insertMembers t name s = insertMembers t name s' := by
  have hmembers : List.Forall₂ Eq (search takeMember false true s) (search takeMember false true s') := by
    have hfresh : true = false → OfWord before := nofun
    apply search_spaced (fun _ => rfl) takeMember_of_not_word length_of_takeMember _ hfresh h
    intro s s' h
    apply rel_imp (takeMember_aligned h)
    rintro x y ⟨hfound, before, hword, hafter⟩
    exact ⟨hfound, before, fun _ => hword, hafter⟩
  rw [List.forall₂_eq_eq_eq] at hmembers
  rw [insertMembers, insertMembers, hmembers]

/-- The table of a text without comments. -/
def ofText (text : List Char) : EnumTable :=
  (search takeBlock true true text).foldl (fun t (name, body) => insertMembers t name body) {}

theorem ofSource_eq_ofText (source : String) :
    ofSource source = ofText (dropLineComments false (dropBlockComments source.toList)) :=
  rfl

/-- A blank more in a text makes no difference to its table. -/
theorem ofText_spaced (h : Spaced before s s') : ofText s = ofText s' := by
  have hblocks : List.Forall₂ SameBlock (search takeBlock true true s) (search takeBlock true true s') := by
    have hfresh : true = false → OfWord before := nofun
    have hrefl (x : String × List Char) : SameBlock x x := ⟨rfl, none, .refl none x.2⟩
    apply search_spaced hrefl takeBlock_of_not_word length_of_takeBlock _ hfresh h
    intro s s' h
    apply rel_imp (takeBlock_aligned h)
    rintro x y ⟨hblock, before, hafter⟩
    exact ⟨hblock, before, nofun, hafter⟩
  have hfold : ∀ {blocks blocks' : List (String × List Char)}, List.Forall₂ SameBlock blocks blocks' →
      ∀ t : EnumTable, blocks.foldl (fun t (name, body) => insertMembers t name body) t
        = blocks'.foldl (fun t (name, body) => insertMembers t name body) t := by
    intro blocks blocks' hblocks
    induction hblocks with
    | nil => exact fun t => rfl
    | @cons x y _ _ hblock _ ih =>
        intro t
        obtain ⟨name, body⟩ := x
        obtain ⟨name', body'⟩ := y
        obtain ⟨hname, before, hbody⟩ := hblock
        cases hname
        have hmembers : insertMembers t name body = insertMembers t name body' := insertMembers_spaced t name hbody
        rw [List.foldl_cons, List.foldl_cons, ih]
        dsimp only
        rw [hmembers]
  exact hfold hblocks {}

end EnumTable.Source

end SheetCompiler

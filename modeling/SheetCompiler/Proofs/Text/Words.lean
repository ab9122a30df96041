import Mathlib.Data.List.TakeWhile
import SheetCompiler.Text.Blank
import SheetCompiler.TextFormat

/-!
# Words of a text

Splitting a text at some characters is what the library does. The words of a text are what is between its blanks, so
blanks in front of it and behind it make no difference: a text that is trimmed keeps its words.
-/

namespace SheetCompiler.Text

theorem split_eq_splitOnP (cut : Char → Bool) (text : List Char) : split cut text = text.splitOnP cut := by
  induction text with
  | nil => rfl
  | cons c rest ih =>
      rw [split, ih, List.splitOnP_cons_eq_if_modifyHead]
      split
      · rfl
      · cases hpieces : rest.splitOnP cut with
        | nil => exact absurd hpieces (List.splitOnP_ne_nil cut rest)
        | cons piece pieces => rfl

theorem not_cut_of_mem_split {cut : Char → Bool} {text : List Char} :
    ∀ {piece : List Char}, piece ∈ split cut text → ∀ c ∈ piece, cut c = false := by
  induction text with
  | nil =>
      intro piece hpiece
      cases List.mem_singleton.1 hpiece
      nofun
  | cons c rest ih =>
      intro piece hpiece
      rw [split] at hpiece
      split at hpiece
      · rcases List.mem_cons.1 hpiece with rfl | hpiece
        · nofun
        · exact ih hpiece
      · next hcut =>
        have hcut := Bool.not_eq_true _ ▸ hcut
        split at hpiece
        · cases List.mem_singleton.1 hpiece
          exact List.forall_mem_singleton.2 hcut
        · next first pieces hsplit =>
          rw [hsplit] at ih
          rcases List.mem_cons.1 hpiece with rfl | hpiece
          · exact List.forall_mem_cons.2 ⟨hcut, ih List.mem_cons_self⟩
          · exact ih (List.mem_cons_of_mem _ hpiece)

/-! ### What is taken off the front -/

section Front

variable {p : Char → Bool} {front text : List Char}

theorem takeWhile_dropWhile_of_stop (h : ∀ c ∈ text.head?, p c = false) :
    text.takeWhile p = [] ∧ text.dropWhile p = text := by
  cases text with
  | nil => exact ⟨rfl, rfl⟩
  | cons c text =>
      have hc : ¬p c = true := by simp [h c rfl]
      exact ⟨List.takeWhile_cons_of_neg hc, List.dropWhile_cons_of_neg hc⟩

/-- What is taken off goes as far as the first character that stops it. -/
theorem takeWhile_dropWhile_append (hfront : ∀ c ∈ front, p c = true) (h : ∀ c ∈ text.head?, p c = false) :
    (front ++ text).takeWhile p = front ∧ (front ++ text).dropWhile p = text := by
  obtain ⟨htake, hdrop⟩ := takeWhile_dropWhile_of_stop h
  rw [List.takeWhile_append_of_pos hfront, List.dropWhile_append_of_pos hfront, htake, hdrop, List.append_nil]
  exact ⟨rfl, rfl⟩

end Front

/-! ### Texts without blanks -/

theorem range_of_continuesIdentifier {c : Char} (h : continuesIdentifier c = true) : 48 ≤ c.toNat ∧ c.toNat ≤ 122 := by
  simp only [continuesIdentifier, startsIdentifier, isLetter, isDigit, Bool.or_eq_true, Bool.and_eq_true,
    decide_eq_true_eq, beq_iff_eq, Char.le_def, UInt32.le_iff_toNat_le] at h
  rcases h with ((⟨hlow, hhigh⟩ | ⟨hlow, hhigh⟩) | rfl) | ⟨hlow, hhigh⟩
  · exact ⟨Nat.le_trans (by decide) hlow, Nat.le_trans hhigh (by decide)⟩
  · exact ⟨Nat.le_trans (by decide) hlow, Nat.le_trans hhigh (by decide)⟩
  · decide
  · exact ⟨Nat.le_trans (by decide) hlow, Nat.le_trans hhigh (by decide)⟩

theorem isSpace_of_continuesIdentifier {c : Char} (h : continuesIdentifier c = true) : isSpace c = false := by
  have hrange := range_of_continuesIdentifier h
  rw [← Bool.not_eq_true]
  simp only [isSpace, Bool.or_eq_true, Bool.and_eq_true, decide_eq_true_eq, beq_iff_eq]
  omega

theorem trimChars_of_not_space {text : List Char} (h : ∀ c ∈ text, isSpace c = false) : trimChars text = text := by
  have hkept {text : List Char} (htext : ∀ c ∈ text, isSpace c = false) : text.dropWhile isSpace = text := by
    rw [List.dropWhile_eq_self_iff]
    intro hpos
    rw [htext _ (List.getElem_mem hpos)]
    decide
  rw [trimChars, trimStart, trimEnd, hkept h, hkept fun c hc => h c (List.mem_reverse.1 hc), List.reverse_reverse]

/-! ### Words -/

/-- What is left of the pieces between the blanks of a text without those that are empty. -/
def runs (text : List Char) : List (List Char) := (split isSpace text).filter (! ·.isEmpty)

theorem words_eq_runs (s : String) : words s = (runs s.toList).map String.ofList := rfl

theorem runs_append_cons {c : Char} (hc : isSpace c = true) (text more : List Char) :
    runs (text ++ c :: more) = runs text ++ runs more := by
  rw [runs, split_eq_splitOnP, List.splitOnP_append_cons text more hc, List.filter_append, ← split_eq_splitOnP,
    ← split_eq_splitOnP]
  rfl

theorem runs_cons {c : Char} (hc : isSpace c = true) (text : List Char) : runs (c :: text) = runs text :=
  runs_append_cons hc [] text

variable {blanks : List Char} (hblanks : ∀ c ∈ blanks, isSpace c = true)
include hblanks

theorem runs_of_blank : runs blanks = [] := by
  induction blanks with
  | nil => rfl
  | cons c blanks ih =>
      obtain ⟨hc, hblanks⟩ := List.forall_mem_cons.1 hblanks
      rw [runs_cons hc, ih hblanks]

theorem runs_append_blank (text : List Char) : runs (text ++ blanks) = runs text := by
  cases blanks with
  | nil => rw [List.append_nil]
  | cons c blanks =>
      obtain ⟨hc, hblanks⟩ := List.forall_mem_cons.1 hblanks
      rw [runs_append_cons hc, runs_of_blank hblanks, List.append_nil]

theorem runs_blank_append (text : List Char) : runs (blanks ++ text) = runs text := by
  induction blanks with
  | nil => rfl
  | cons c blanks ih =>
      obtain ⟨hc, hblanks⟩ := List.forall_mem_cons.1 hblanks
      rw [List.cons_append, runs_cons hc, ih hblanks]

omit hblanks

theorem runs_trimStart (text : List Char) : runs (trimStart text) = runs text := by
  have hfront : ∀ c ∈ text.takeWhile isSpace, isSpace c = true := List.all_eq_true.1 List.all_takeWhile
  have htext : text.takeWhile isSpace ++ trimStart text = text := List.takeWhile_append_dropWhile
  rw [← runs_blank_append hfront (trimStart text), htext]

theorem runs_trimEnd (text : List Char) : runs (trimEnd text) = runs text := by
  have hbehind : ∀ c ∈ (text.reverse.takeWhile isSpace).reverse, isSpace c = true := by
    intro c hc
    exact List.all_eq_true.1 List.all_takeWhile c (List.mem_reverse.1 hc)
  have htext : trimEnd text ++ (text.reverse.takeWhile isSpace).reverse = text := by
    rw [trimEnd, ← List.reverse_append, List.takeWhile_append_dropWhile, List.reverse_reverse]
  rw [← runs_append_blank hbehind (trimEnd text), htext]

theorem words_trim (s : String) : words (trim s) = words s := by
  rw [words_eq_runs, words_eq_runs, trim, String.toList_ofList, trimChars, runs_trimEnd, runs_trimStart]

/-! ### Lines that are joined -/

theorem unlines_append (lines more : List String) : unlines (lines ++ more) = unlines lines ++ unlines more := by
  rw [unlines, List.map_append, String.join_append]
  rfl

theorem toList_unlines_cons (line : String) (lines : List String) :
    (unlines (line :: lines)).toList = line.toList ++ '\n' :: (unlines lines).toList := by
  have hline : unlines [line] = line ++ "\n" := String.empty_append
  rw [← List.singleton_append, unlines_append, hline, String.toList_append, String.toList_append, List.append_assoc]
  rfl

theorem split_unlines {lines : List String} (h : ∀ line ∈ lines, '\n' ∉ line.toList) :
    split (· == '\n') (unlines lines).toList = lines.map String.toList ++ [[]] := by
  induction lines with
  | nil => rfl
  | cons line lines ih =>
      obtain ⟨hline, hlines⟩ := List.forall_mem_cons.1 h
      have hwhole : line.toList.splitOnP (· == '\n') = [line.toList] :=
        List.splitOnP_eq_singleton fun c hc => beq_eq_false_iff_ne.2 fun heq => hline (heq ▸ hc)
      rw [toList_unlines_cons, split_eq_splitOnP, List.splitOnP_append_cons _ _ rfl, hwhole, ← split_eq_splitOnP,
        ih hlines]
      rfl

/-- Lines that are joined are the lines of the text, if none of them is broken. -/
theorem lines_unlines {lines : List String} (h : ∀ line ∈ lines, '\n' ∉ line.toList) :
    Text.lines (unlines lines).toList = lines.map String.toList := by
  simp only [Text.lines, split_unlines h, List.getLast?_concat, if_true, List.dropLast_concat]

end SheetCompiler.Text

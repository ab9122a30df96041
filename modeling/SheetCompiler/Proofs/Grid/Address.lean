import Mathlib.Data.List.Lex
import Mathlib.Logic.Function.Basic
import SheetCompiler.Grid.Address
import SheetCompiler.Proofs.Number.Spelling
import SheetCompiler.Proofs.Text.Words

/-!
# Cells and their names

The name of a column is a numeral with the digits `A` to `Z`, which stand for 1 to 26. There is no digit for zero, so
every word of letters is a numeral and no number has two. That is why the columns and the words of letters belong to
each other one to one, and why shorter names come first. The number of the row begins where the letters end.
-/

namespace SheetCompiler.Address

/-! ### Letters -/

def IsLetter (c : Char) : Prop := 'A' ≤ c ∧ c ≤ 'Z'

instance (c : Char) : Decidable (IsLetter c) := inferInstanceAs (Decidable (_ ∧ _))

/-- What a letter stands for, from 1 to 26. -/
def digit (c : Char) : Nat := c.toNat - 'A'.toNat + 1

theorem isLetter_iff {c : Char} : IsLetter c ↔ 65 ≤ c.toNat ∧ c.toNat ≤ 90 := Iff.rfl

theorem toNat_letter (n : Nat) : (letter n).toNat = 65 + n % 26 := by
  have hletters : ∀ k < 26, (Char.ofNat ('A'.toNat + k)).toNat = 65 + k := by decide
  exact hletters _ (Nat.mod_lt _ (by decide))

theorem isLetter_letter (n : Nat) : IsLetter (letter n) := by
  rw [isLetter_iff, toNat_letter]
  omega

theorem digit_letter (n : Nat) : digit (letter n) = n % 26 + 1 := by
  rw [digit, toNat_letter]
  exact congrArg (· + 1) (Nat.add_sub_cancel_left _ _)

theorem one_le_digit (c : Char) : 1 ≤ digit c := Nat.succ_pos _

theorem digit_le {c : Char} (h : IsLetter c) : digit c ≤ 26 := by
  rw [isLetter_iff] at h
  change c.toNat - 65 + 1 ≤ 26
  omega

theorem letter_eq {c : Char} (h : IsLetter c) {n : Nat} (hn : n % 26 + 1 = digit c) : letter n = c := by
  rw [isLetter_iff] at h
  have hdigit : digit c = c.toNat - 65 + 1 := rfl
  apply Char.toNat_inj.1
  rw [toNat_letter]
  omega

/-! ### Words of letters -/

/-- The number that a word denotes, the most significant letter being the first. -/
def numeral (word : List Char) : Nat := word.foldl (fun n c => 26 * n + digit c) 0

/-- A word of one or more letters. -/
structure IsWord (word : List Char) : Prop where
  nonempty : word ≠ []
  letters : ∀ c ∈ word, IsLetter c

theorem isWord_replicate {c : Char} (h : IsLetter c) (n : Nat) : IsWord (List.replicate (n + 1) c) where
  nonempty := List.cons_ne_nil _ _
  letters _ hd := List.eq_of_mem_replicate hd ▸ h

theorem numeral_append_singleton (word : List Char) (c : Char) :
    numeral (word ++ [c]) = 26 * numeral word + digit c := List.foldl_append

theorem numeral_pos {word : List Char} (h : word ≠ []) : 1 ≤ numeral word := by
  rw [← List.dropLast_append_getLast h, numeral_append_singleton]
  exact Nat.le_add_left_of_le (one_le_digit _)

theorem columnChars_isWord (column : Nat) : IsWord (columnChars column) := by
  fun_induction columnChars column with
  | case1 column hsmall => exact ⟨List.cons_ne_nil _ _, List.forall_mem_singleton.2 (isLetter_letter _)⟩
  | case2 column hlarge ih =>
      refine ⟨List.concat_ne_nil _ _, fun c hc => ?_⟩
      rcases List.mem_append.1 hc with hfront | hlast
      · exact ih.letters c hfront
      · exact List.mem_singleton.1 hlast ▸ isLetter_letter _

/-- A column's letters denote its number counted from one. -/
theorem numeral_columnChars (column : Nat) : numeral (columnChars column) = column + 1 := by
  fun_induction columnChars column with
  | case1 column hsmall =>
      change 26 * 0 + digit (letter column) = _
      rw [digit_letter]
      omega
  | case2 column hlarge ih =>
      rw [numeral_append_singleton, ih, digit_letter]
      omega

/-- The column that a word denotes has that word for a name. -/
theorem columnChars_numeral {word : List Char} (h : IsWord word) : columnChars (numeral word - 1) = word := by
  obtain ⟨hne, hletters⟩ := h
  induction word using List.reverseRecOn with
  | nil => exact absurd rfl hne
  | append_singleton front c ih =>
      have hc : IsLetter c := hletters c (List.mem_append_right _ List.mem_cons_self)
      have hlow := one_le_digit c
      have hhigh := digit_le hc
      rw [numeral_append_singleton, columnChars]
      cases hfront : front with
      | nil =>
          have hzero : numeral [] = 0 := rfl
          rw [hzero, if_pos (by omega), letter_eq hc (by omega), List.nil_append]
      | cons first others =>
          have hfrontNe : front ≠ [] := hfront ▸ List.cons_ne_nil _ _
          have hpos := numeral_pos hfrontNe
          rw [← hfront, if_neg (by omega), letter_eq hc (by omega)]
          have hcarry : (26 * numeral front + digit c - 1) / 26 - 1 = numeral front - 1 := by omega
          rw [hcarry, ih hfrontNe fun d hd => hletters d (List.mem_append_left _ hd)]

/-! ### The order of names -/

/-- The number that the first word of `length` letters denotes, `A…A`. -/
def least : (length : Nat) → Nat
  | 0 => 0
  | length + 1 => 26 * least length + 1

theorem least_succ (length : Nat) : least (length + 1) = 26 ^ length + least length := by
  induction length with
  | zero => rfl
  | succ length ih =>
      have hleast : least (length + 2) = 26 * least (length + 1) + 1 := rfl
      have hlast : least (length + 1) = 26 * least length + 1 := rfl
      rw [hleast, Nat.pow_succ]
      omega

theorem least_mono {length length' : Nat} (h : length ≤ length') : least length ≤ least length' := by
  induction h with
  | refl => exact Nat.le_refl _
  | step _ ih => exact Nat.le_trans ih (least_succ _ ▸ Nat.le_add_left _ _)

/-- The words of a length denote the numbers from the first of them up to the first that is longer. -/
theorem numeral_bounds {word : List Char} (h : ∀ c ∈ word, IsLetter c) :
    least word.length ≤ numeral word ∧ numeral word < least (word.length + 1) := by
  induction word using List.reverseRecOn with
  | nil => exact ⟨Nat.le_refl _, Nat.one_pos⟩
  | append_singleton front c ih =>
      obtain ⟨hlow, hhigh⟩ := ih fun d hd => h d (List.mem_append_left _ hd)
      have hone := one_le_digit c
      have hlast := digit_le (h c (List.mem_append_right _ List.mem_cons_self))
      rw [numeral_append_singleton, List.length_append, List.length_singleton, least, least]
      omega

theorem numeral_lt_of_length_lt {v w : List Char} (hv : ∀ c ∈ v, IsLetter c) (hw : ∀ c ∈ w, IsLetter c)
    (h : v.length < w.length) : numeral v < numeral w :=
  calc numeral v < least (v.length + 1) := (numeral_bounds hv).2
    _ ≤ least w.length := least_mono h
    _ ≤ numeral w := (numeral_bounds hw).1

theorem numeral_cons (c : Char) (word : List Char) :
    numeral (c :: word) = digit c * 26 ^ word.length + numeral word := by
  induction word using List.reverseRecOn with
  | nil =>
      change 26 * 0 + digit c = digit c * 1 + 0
      omega
  | append_singleton front d ih =>
      rw [← List.cons_append, numeral_append_singleton, ih, numeral_append_singleton, List.length_append,
        List.length_singleton, Nat.pow_succ, ← Nat.mul_assoc]
      omega

/-- Among words of one length the first letter that differs decides. -/
theorem numeral_lt_of_lex {v w : List Char} (hv : ∀ c ∈ v, IsLetter c) (hw : ∀ c ∈ w, IsLetter c)
    (hlength : v.length = w.length) (h : List.Lex (· < ·) v w) : numeral v < numeral w := by
  induction h with
  | nil => cases hlength
  | @rel a v b w hab =>
      obtain ⟨ha, hv⟩ := List.forall_mem_cons.1 hv
      obtain ⟨hb, hw⟩ := List.forall_mem_cons.1 hw
      have hlength : v.length = w.length := Nat.succ.inj hlength
      have hdigits : digit a + 1 ≤ digit b := by
        rw [isLetter_iff] at ha hb
        have hlt : a.toNat < b.toNat := hab
        change a.toNat - 65 + 1 + 1 ≤ b.toNat - 65 + 1
        omega
      calc numeral (a :: v) = digit a * 26 ^ w.length + numeral v := hlength ▸ numeral_cons a v
        _ < digit a * 26 ^ w.length + least (w.length + 1) :=
          Nat.add_lt_add_left (hlength ▸ (numeral_bounds hv).2) _
        _ = (digit a + 1) * 26 ^ w.length + least w.length := by rw [least_succ, Nat.succ_mul, Nat.add_assoc]
        _ ≤ digit b * 26 ^ w.length + numeral w :=
          Nat.add_le_add (Nat.mul_le_mul_right _ hdigits) (numeral_bounds hw).1
        _ = numeral (b :: w) := (numeral_cons b w).symm
  | @cons a v w h ih =>
      have hlength : v.length = w.length := Nat.succ.inj hlength
      rw [numeral_cons, numeral_cons, hlength]
      exact Nat.add_lt_add_left (ih (List.forall_mem_cons.1 hv).2 (List.forall_mem_cons.1 hw).2 hlength) _

/-- Whether a name comes in front of another one: a shorter one does, and one of the same length by the alphabet. -/
def Precedes (v w : List Char) : Prop := v.length < w.length ∨ v.length = w.length ∧ List.Lex (· < ·) v w

theorem numeral_lt_of_precedes {v w : List Char} (hv : IsWord v) (hw : IsWord w) (h : Precedes v w) :
    numeral v < numeral w :=
  h.elim (numeral_lt_of_length_lt hv.letters hw.letters) fun ⟨hlength, hlex⟩ =>
    numeral_lt_of_lex hv.letters hw.letters hlength hlex

theorem precedes_or_eq_or_precedes (v w : List Char) : Precedes v w ∨ v = w ∨ Precedes w v := by
  rcases Nat.lt_trichotomy v.length w.length with hlt | heq | hgt
  · exact .inl (.inl hlt)
  · rcases trichotomous_of (List.Lex ((· < ·) : Char → Char → Prop)) v w with hlex | rfl | hlex
    · exact .inl (.inr ⟨heq, hlex⟩)
    · exact .inr (.inl rfl)
    · exact .inr (.inr (.inr ⟨heq.symm, hlex⟩))
  · exact .inr (.inr (.inl hgt))

theorem numeral_lt_iff {v w : List Char} (hv : IsWord v) (hw : IsWord w) :
    numeral v < numeral w ↔ Precedes v w := by
  refine ⟨fun hlt => ?_, numeral_lt_of_precedes hv hw⟩
  rcases precedes_or_eq_or_precedes v w with h | rfl | h
  · exact h
  · exact absurd hlt (Nat.lt_irrefl _)
  · exact absurd hlt (Nat.lt_asymm (numeral_lt_of_precedes hw hv h))

/-! ### The names of columns and cells -/

theorem toList_columnName (column : Nat) : (columnName column).toList = columnChars column := String.toList_ofList

theorem columnName_eq_iff {column : Nat} {word : String} (h : IsWord word.toList) :
    columnName column = word ↔ column = numeral word.toList - 1 := by
  rw [← String.toList_inj, toList_columnName]
  constructor
  · rintro hname
    rw [← hname, numeral_columnChars, Nat.add_sub_cancel]
  · rintro rfl
    exact columnChars_numeral h

theorem toList_cellName (row column : Nat) :
    (cellName row column).toList = columnChars column ++ Nat.toDigits 10 (row + 1) := by
  rw [cellName, String.toList_append, toList_columnName, Nat.toString_eq_repr, Nat.toList_repr]

theorem not_letter_of_mem_toDigits {n : Nat} {c : Char} (h : c ∈ Nat.toDigits 10 n) : ¬ 'A' ≤ c := by
  have hdigit : c.isDigit = true := Nat.isDigit_of_mem_toDigits (by decide) (by decide) h
  have hhigh : c ≤ '9' := (Char.isDigit_iff_toNat.1 hdigit).2
  exact fun hlow => absurd (Char.le_trans hlow hhigh) (by decide)

/-- The letters of a name end where its digits begin. -/
theorem cellName_injective2 : Function.Injective2 cellName := by
  intro row row' column column' h
  rw [← String.toList_inj, toList_cellName, toList_cellName] at h
  have hsplit (row column : Nat) :
      (columnChars column ++ Nat.toDigits 10 (row + 1)).takeWhile (fun c => decide ('A' ≤ c)) = columnChars column
        ∧ (columnChars column ++ Nat.toDigits 10 (row + 1)).dropWhile (fun c => decide ('A' ≤ c))
          = Nat.toDigits 10 (row + 1) :=
    Text.takeWhile_dropWhile_append (fun c hc => decide_eq_true ((columnChars_isWord column).letters c hc).1)
      fun c hc => decide_eq_false (not_letter_of_mem_toDigits (List.mem_of_mem_head? hc))
  have hletters : columnChars column = columnChars column' := by
    rw [← (hsplit row column).1, h, (hsplit row' column').1]
  have hdigits : Nat.toDigits 10 (row + 1) = Nat.toDigits 10 (row' + 1) := by
    rw [← (hsplit row column).2, h, (hsplit row' column').2]
  have hrow := congrArg Numeral.ofDigits hdigits
  have hcolumn := congrArg numeral hletters
  rw [Numeral.ofDigits_toDigits, Numeral.ofDigits_toDigits] at hrow
  rw [numeral_columnChars, numeral_columnChars] at hcolumn
  exact ⟨Nat.succ.inj hrow, Nat.succ.inj hcolumn⟩

/-- The letters of a column denote its number counted from one, every word of letters names exactly one column, names
come in the order of the columns, and different cells have different names. -/
theorem names_identify :
    (∀ column, IsWord (columnName column).toList ∧ numeral (columnName column).toList = column + 1)
      ∧ (∀ word : String, IsWord word.toList → ∃! column, columnName column = word)
      ∧ (∀ column column', column < column' ↔ Precedes (columnName column).toList (columnName column').toList)
      ∧ Function.Injective2 cellName := by
  refine ⟨fun column => ?_, fun word hword => ?_, fun column column' => ?_, cellName_injective2⟩
  · rw [toList_columnName]
    exact ⟨columnChars_isWord column, numeral_columnChars column⟩
  · exact ⟨numeral word.toList - 1, (columnName_eq_iff hword).2 rfl, fun _ => (columnName_eq_iff hword).1⟩
  · rw [toList_columnName, toList_columnName, ← numeral_lt_iff (columnChars_isWord _) (columnChars_isWord _),
      numeral_columnChars, numeral_columnChars, Nat.add_lt_add_iff_right]

/-- Where all letters are carried: the column behind `ZZ` is the one that `AAA` names, and it alone. -/
theorem carries_named :
    (∃! column, columnName column = "AAA") ∧ columnName 701 = "ZZ" ∧ columnName 702 = "AAA"
      ∧ Precedes "ZZ".toList "AAA".toList ∧ cellName 0 701 ≠ cellName 0 702 := by
  obtain ⟨-, hword, horder, hcell⟩ := names_identify
  have hzz : IsWord "ZZ".toList := isWord_replicate (by decide : IsLetter 'Z') 1
  have haaa : IsWord "AAA".toList := isWord_replicate (by decide : IsLetter 'A') 2
  have hlast : columnName 701 = "ZZ" := (columnName_eq_iff hzz).2 rfl
  have hbehind : columnName 702 = "AAA" := (columnName_eq_iff haaa).2 rfl
  have hprecedes := (horder 701 702).1 (by decide)
  rw [hlast, hbehind] at hprecedes
  exact ⟨hword "AAA" haaa, hlast, hbehind, hprecedes, fun h => absurd (hcell h).2 (by decide)⟩

end SheetCompiler.Address

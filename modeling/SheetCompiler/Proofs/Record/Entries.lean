import SheetCompiler.Record

/-!
# Filling a record from the left

Both the reading of a row and the decoder come to the fields of a record in ascending order. Such a record
grows at its end: while all its numbers are below the current one, setting a value appends an entry, and
adding to a list changes that last entry only.
-/

namespace SheetCompiler

/-- What a list holds for its field, nothing where it has no values. -/
def Content.ofList : List Value → Option Content
  | [] => none
  | v :: vs => some (.list (v :: vs))

namespace Record

/-- Whether all numbers of a record are below a number. -/
def Below (number : Nat) (r : Record) : Prop := ∀ entry ∈ r.entries, entry.1 < number

/-- The record with what it holds for one more field, behind all others. -/
def extend (r : Record) (number : Nat) (content : Option Content) : Record :=
  ⟨r.entries ++ (content.map (number, ·)).toList⟩

@[simp] theorem mk_entries (r : Record) : (⟨r.entries⟩ : Record) = r := by
  cases r
  rfl

@[simp] theorem extend_none (r : Record) (number : Nat) : r.extend number none = r := by
  rw [extend, Option.map_none, Option.toList_none, List.append_nil, mk_entries]

theorem below_empty (number : Nat) : Below number empty := fun _ h => absurd h List.not_mem_nil

theorem Below.extend {r : Record} {number : Nat} (h : r.Below number) (content : Option Content) :
    (r.extend number content).Below (number + 1) := by
  intro entry hentry
  rcases List.mem_append.1 hentry with hentry | hentry
  · exact Nat.lt_succ_of_lt (h entry hentry)
  · obtain ⟨c, -, rfl⟩ := Option.map_eq_some_iff.1 (Option.mem_toList.1 hentry)
    exact Nat.lt_succ_self number

theorem Below.mono {r : Record} {number bound : Nat} (h : r.Below number) (hle : number ≤ bound) :
    r.Below bound :=
  fun entry hentry => Nat.lt_of_lt_of_le (h entry hentry) hle

theorem find?_insert (number : Nat) (content : Content) (entries : List (Nat × Content)) (asked : Nat) :
    find? asked (insert number content entries) = if asked = number then some content else find? asked entries := by
  induction entries with
  | nil => simp only [insert, find?, eq_comm]
  | cons entry entries ih =>
      obtain ⟨n, old⟩ := entry
      rw [insert]
      by_cases hbefore : number < n
      · rw [if_pos hbefore, find?]
        simp only [eq_comm]
      rw [if_neg hbefore]
      by_cases hsame : number = n
      · subst hsame
        rw [if_pos rfl, find?, find?]
        by_cases hasked : asked = number
        · rw [if_pos hasked.symm, if_pos hasked]
        · rw [if_neg (Ne.symm hasked), if_neg hasked, if_neg (Ne.symm hasked)]
      · rw [if_neg hsame, find?, find?, ih]
        by_cases hasked : n = asked
        · rw [if_pos hasked, if_pos hasked, if_neg fun h => hsame (h.symm.trans hasked.symm)]
        · rw [if_neg hasked, if_neg hasked]

/-- What is put for a number is all that changes. -/
theorem get?_put (r : Record) (number : Nat) (content : Content) (asked : Nat) :
    (r.put number content).get? asked = if asked = number then some content else r.get? asked :=
  find?_insert number content r.entries asked

theorem insert_insert (number : Nat) (content content' : Content) (entries : List (Nat × Content)) :
    insert number content' (insert number content entries) = insert number content' entries := by
  have hfront (rest : List (Nat × Content)) :
      insert number content' ((number, content) :: rest) = (number, content') :: rest := by
    rw [insert, if_neg (Nat.lt_irrefl number), if_pos rfl]
  induction entries with
  | nil => exact hfront []
  | cons entry entries ih =>
      obtain ⟨n, old⟩ := entry
      by_cases hbefore : number < n
      · rw [insert, if_pos hbefore, hfront, insert, if_pos hbefore]
      by_cases hsame : number = n
      · rw [insert, if_neg hbefore, if_pos hsame, hfront, insert, if_neg hbefore, if_pos hsame]
      · rw [insert, if_neg hbefore, if_neg hsame, insert, if_neg hbefore, if_neg hsame, ih, insert, if_neg hbefore,
          if_neg hsame]

theorem put_put (r : Record) (number : Nat) (content content' : Content) :
    (r.put number content).put number content' = r.put number content' :=
  congrArg Record.mk (insert_insert number content content' r.entries)

theorem list_put (r : Record) (number : Nat) (vs : List Value) : (r.put number (.list vs)).list number = vs := by
  simp [list, get?_put]

theorem list_append (r : Record) (number : Nat) (v : Value) :
    (r.append number v).list number = r.list number ++ [v] :=
  list_put r number _

/-- Values that are added one after another are put behind those that the list has. -/
theorem foldl_append_eq_put {vs : List Value} (hvs : vs ≠ []) (number : Nat) : ∀ r : Record,
    vs.foldl (·.append number ·) r = r.put number (.list (r.list number ++ vs)) := by
  induction vs with
  | nil => exact absurd rfl hvs
  | cons v vs ih =>
      intro r
      rw [List.foldl_cons]
      by_cases hmore : vs = []
      · subst hmore
        rfl
      · rw [ih hmore, list_append, List.append_assoc, append, put_put]
        rfl

theorem find?_append_of_below {number : Nat} {entries : List (Nat × Content)}
    (h : ∀ entry ∈ entries, entry.1 < number) (rest : List (Nat × Content)) :
    find? number (entries ++ rest) = find? number rest := by
  induction entries with
  | nil => rfl
  | cons entry entries ih =>
      have hlt : entry.1 < number := h entry List.mem_cons_self
      rw [List.cons_append, find?, if_neg (Nat.ne_of_lt hlt)]
      exact ih fun e he => h e (List.mem_cons_of_mem _ he)

theorem insert_append_of_below {number : Nat} {entries : List (Nat × Content)}
    (h : ∀ entry ∈ entries, entry.1 < number) (content : Content) (rest : List (Nat × Content)) :
    insert number content (entries ++ rest) = entries ++ insert number content rest := by
  induction entries with
  | nil => rfl
  | cons entry entries ih =>
      have hlt : entry.1 < number := h entry List.mem_cons_self
      rw [List.cons_append, insert, if_neg (by omega), if_neg (by omega), List.cons_append,
        ih fun e he => h e (List.mem_cons_of_mem _ he)]

theorem Below.get?_extend {r : Record} {number : Nat} (h : r.Below number) (content : Option Content) :
    (r.extend number content).get? number = content := by
  rw [get?, Record.extend, find?_append_of_below h]
  cases content with
  | none => rfl
  | some content => exact if_pos rfl

theorem Below.put_extend {r : Record} {number : Nat} (h : r.Below number) (old : Option Content)
    (content : Content) : (r.extend number old).put number content = r.extend number (some content) := by
  rw [put, Record.extend, insert_append_of_below h]
  cases old with
  | none => rfl
  | some old =>
      change (⟨r.entries ++ insert number content [(number, old)]⟩ : Record) = _
      rw [insert, if_neg (Nat.lt_irrefl number), if_pos rfl]
      rfl

theorem Below.set_eq {r : Record} {number : Nat} (h : r.Below number) (v : Value) :
    r.set number v = r.extend number (some (.single v)) := by
  have := h.put_extend none (.single v)
  rwa [extend_none] at this

theorem list_of_get? {r : Record} {number : Nat} {vs : List Value} (h : r.get? number = Content.ofList vs) :
    r.list number = vs := by
  rw [list, h]
  cases vs <;> rfl

theorem Below.append_extend {r : Record} {number : Nat} (h : r.Below number) (vs : List Value) (v : Value) :
    (r.extend number (Content.ofList vs)).append number v = r.extend number (Content.ofList (vs ++ [v])) := by
  rw [append, list_of_get? (h.get?_extend _), h.put_extend]
  cases vs <;> rfl

theorem Below.clear_extend {r : Record} {number : Nat} (h : r.Below number) (content : Option Content) :
    (r.extend number content).clear number = r := by
  have hkeep : r.entries.filter (·.1 != number) = r.entries :=
    List.filter_eq_self.2 fun entry hentry => bne_iff_ne.2 (Nat.ne_of_lt (h entry hentry))
  have hdrop : (content.map (number, ·)).toList.filter (·.1 != number) = [] :=
    List.filter_eq_nil_iff.2 fun entry hentry => by
      obtain ⟨c, -, rfl⟩ := Option.map_eq_some_iff.1 (Option.mem_toList.1 hentry)
      simp
  rw [clear, Record.extend, List.filter_append, hkeep, hdrop, List.append_nil, mk_entries]

theorem Below.clear_eq {r : Record} {number : Nat} (h : r.Below number) : r.clear number = r := by
  have := h.clear_extend none
  rwa [extend_none] at this

/-- Dropping the only value of a list drops the list. -/
theorem Below.dropLast_extend {r : Record} {number : Nat} (h : r.Below number) (v : Value) :
    (r.extend number (Content.ofList [v])).dropLast number = r := by
  rw [dropLast, h.get?_extend]
  exact h.clear_extend _

theorem Below.message_eq {r : Record} {number : Nat} (h : r.Below number) : r.message number = empty := by
  have := h.get?_extend none
  rw [extend_none] at this
  rw [message, single?, this]

end Record

end SheetCompiler

import SheetCompiler.Proofs.Record.Entries
import SheetCompiler.Proofs.Wire.Decoded

/-!
# Records under edits

A record is filled by a handful of operations, two of which open a message inside it. What is done there is done in
place: a path leads from the record to the message, and every operation goes down that path again. It comes to the
same to run the operations on the message alone and to put what becomes of it in its place (`runAt_eq_change`), which
is how the walk over a row fills the messages of structs. So whatever was done to a message, a record that takes it
back holds what it held before, and the messages of a list are filled without regard to each other. A record that is
a map stays one under any edits (`WellFormed.run`).
-/

namespace SheetCompiler

namespace Record

/-- An operation on a record. One that opens a message comes with what is done there. -/
inductive Edit where
  | set (number : Nat) (value : Value)
  | append (number : Nat) (value : Value)
  /-- Adds an empty message to a list and edits it. -/
  | add (number : Nat) (edits : List Edit)
  /-- Edits the message that a field holds as its single value, an empty one if it holds none. -/
  | enter (number : Nat) (edits : List Edit)
  | dropLast (number : Nat)
  | clear (number : Nat)

/-- A step from a record to a value inside it. -/
inductive Step where
  /-- To the last value of a list. -/
  | last (number : Nat)
  /-- To the single value of a field. -/
  | only (number : Nat)

/-- Changes the message that a step leads to. A step that leads to none changes nothing. -/
def changeNext (f : Record → Record) (r : Record) : Step → Record
  | .last number =>
      match (r.list number).getLast? with
      | some (.message sub) => r.put number (.list ((r.list number).dropLast ++ [.message (f sub)]))
      | _ => r
  | .only number =>
      match r.single? number with
      | some (.message sub) => r.set number (.message (f sub))
      | _ => r

/-- Changes the message at the end of a path. -/
def change (f : Record → Record) (r : Record) : List Step → Record
  | [] => f r
  | step :: path => changeNext (change f · path) r step

mutual

/-- Runs an edit on the message at the end of a path, in place. -/
def runAt (path : List Step) (r : Record) : Edit → Record
  | .set number value => r.change (·.set number value) path
  | .append number value => r.change (·.append number value) path
  | .add number edits =>
      runAllAt (path ++ [.last number]) (r.change (·.append number (.message empty)) path) edits
  | .enter number edits =>
      runAllAt (path ++ [.only number]) (r.change (fun s => s.set number (.message (s.message number))) path) edits
  | .dropLast number => r.change (·.dropLast number) path
  | .clear number => r.change (·.clear number) path

/-- Runs edits on the message at the end of a path, one after another. -/
def runAllAt (path : List Step) (r : Record) : List Edit → Record
  | [] => r
  | edit :: edits => runAllAt path (runAt path r edit) edits

end

def run (r : Record) (edits : List Edit) : Record := runAllAt [] r edits

/-! ### Changes in place -/

theorem single?_set (r : Record) (number : Nat) (v : Value) : (r.set number v).single? number = some v := by
  simp [single?, set, get?_put]

theorem changeNext_append (f : Record → Record) (r : Record) (number : Nat) (sub : Record) :
    changeNext f (r.append number (.message sub)) (.last number) = r.append number (.message (f sub)) := by
  rw [append, changeNext, list_put, List.getLast?_concat, List.dropLast_concat]
  exact put_put r number _ _

theorem changeNext_set (f : Record → Record) (r : Record) (number : Nat) (sub : Record) :
    changeNext f (r.set number (.message sub)) (.only number) = r.set number (.message (f sub)) := by
  rw [changeNext, single?_set]
  exact put_put r number _ _

theorem changeNext_changeNext (f g : Record → Record) (r : Record) (step : Step) :
    changeNext g (changeNext f r step) step = changeNext (fun s => g (f s)) r step := by
  cases step with
  | last number =>
      cases hlast : (r.list number).getLast? with
      | none => simp [changeNext, hlast]
      | some v =>
          cases v with
          | message sub => simp [changeNext, hlast, list_put, put_put]
          | _ => simp [changeNext, hlast]
  | only number =>
      cases hsingle : r.single? number with
      | none => simp [changeNext, hsingle]
      | some v =>
          cases v with
          | message sub =>
              simp only [changeNext, hsingle, single?_set]
              exact put_put r number _ _
          | _ => simp [changeNext, hsingle]

theorem change_change (f g : Record → Record) (path : List Step) : ∀ r : Record,
    (r.change f path).change g path = r.change (fun s => g (f s)) path := by
  induction path with
  | nil => exact fun _ => rfl
  | cons step path ih =>
      intro r
      rw [change, change, changeNext_changeNext, change]
      simp only [ih]

/-- The message at the end of a longer path is inside that at the end of the shorter one. -/
theorem change_concat (f : Record → Record) (path : List Step) (step : Step) : ∀ r : Record,
    r.change f (path ++ [step]) = r.change (changeNext f · step) path := by
  induction path with
  | nil => exact fun _ => rfl
  | cons next path ih =>
      intro r
      rw [List.cons_append, change, change]
      simp only [ih]

/-- What is run behind a further step is a change of what the path leads to. -/
theorem runAllAt_concat {edits : List Edit}
    (h : edits ≠ [] → ∀ path r, runAllAt path r edits = r.change (runAllAt [] · edits) path)
    (start : Record → Record) (path : List Step) (step : Step) (r : Record) :
    runAllAt (path ++ [step]) (r.change start path) edits = r.change (fun s => runAllAt [step] (start s) edits) path := by
  by_cases hedits : edits = []
  · subst hedits
    rfl
  · rw [h hedits, change_concat, change_change]
    simp only [h hedits [step]]
    rfl

mutual

/-- An edit in place is a change of the message that the path leads to, by the same edit of that message alone. -/
theorem runAt_eq_change : ∀ (edit : Edit) (path : List Step) (r : Record),
    runAt path r edit = r.change (runAt [] · edit) path
  | .set .., _, _ | .append .., _, _ | .dropLast _, _, _ | .clear _, _, _ => rfl
  | .add number edits, path, r => runAllAt_concat (runAllAt_eq_change edits) _ path (.last number) r
  | .enter number edits, path, r => runAllAt_concat (runAllAt_eq_change edits) _ path (.only number) r

/-- So are edits, if there are any. A change by no edits would still put what the path leads to in its place again, which
is no change only of a record with its numbers in order. -/
theorem runAllAt_eq_change : ∀ edits : List Edit, edits ≠ [] → ∀ (path : List Step) (r : Record),
    runAllAt path r edits = r.change (runAllAt [] · edits) path
  | [], h, _, _ => absurd rfl h
  | edit :: edits, _, path, r => by
      by_cases hmore : edits = []
      · subst hmore
        exact runAt_eq_change edit path r
      · rw [runAllAt, runAt_eq_change edit, runAllAt_eq_change edits hmore, change_change]
        rfl

end

/-! ### Edits of a record -/

theorem run_cons (r : Record) (edit : Edit) (edits : List Edit) : r.run (edit :: edits) = (r.run [edit]).run edits := rfl

@[simp] theorem run_dropLast (r : Record) (number : Nat) : r.run [.dropLast number] = r.dropLast number := rfl

@[simp] theorem run_clear (r : Record) (number : Nat) : r.run [.clear number] = r.clear number := rfl

/-- What edits do behind a step is done to the message that the step leads to. -/
theorem runAllAt_next {edits : List Edit} {step : Step} {store : Record → Record}
    (hstore : ∀ (f : Record → Record) sub, changeNext f (store sub) step = store (f sub)) (sub : Record) :
    runAllAt [step] (store sub) edits = store (sub.run edits) := by
  cases edits with
  | nil => rfl
  | cons edit edits =>
      rw [runAllAt_eq_change _ (List.cons_ne_nil _ _)]
      exact hstore _ sub

/-- A message that is added ends the list as what its edits make of an empty one. -/
@[simp] theorem run_add (r : Record) (number : Nat) (edits : List Edit) :
    r.run [.add number edits] = r.append number (.message (empty.run edits)) :=
  runAllAt_next (fun f sub => changeNext_append f r number sub) empty

/-- A message that is opened is held as what its edits make of it. -/
@[simp] theorem run_enter (r : Record) (number : Nat) (edits : List Edit) :
    r.run [.enter number edits] = r.set number (.message ((r.message number).run edits)) :=
  runAllAt_next (fun f sub => changeNext_set f r number sub) (r.message number)

/-! ### Numbers in order -/

mutual

/-- Whether the numbers of an edit are ones of 32 bits, and its values records that are maps. -/
def Edit.WellFormed : Edit → Prop
  | .set number value | .append number value => number < 2 ^ 32 ∧ value.WellFormed
  | .add number edits | .enter number edits => number < 2 ^ 32 ∧ Edit.WellFormedAll edits
  | .dropLast _ | .clear _ => True

def Edit.WellFormedAll : List Edit → Prop
  | [] => True
  | edit :: edits => edit.WellFormed ∧ Edit.WellFormedAll edits

end

end Record

theorem Content.WellFormedAll.filter {keep : Nat × Content → Bool} :
    ∀ {least : Nat} {entries : List (Nat × Content)}, WellFormedAll least entries →
      WellFormedAll least (entries.filter keep)
  | _, [], _ => trivial
  | _, (number, content) :: rest, ⟨hleast, hnumber, hcontent, hrest⟩ => by
      rw [List.filter_cons]
      split
      · exact ⟨hleast, hnumber, hcontent, hrest.filter⟩
      · exact hrest.filter.mono (by omega)

theorem Content.WellFormedAll.lt_of_mem {number : Nat} {content : Content} :
    ∀ {least : Nat} {entries : List (Nat × Content)}, WellFormedAll least entries → (number, content) ∈ entries →
      number < 2 ^ 32
  | _, _ :: _, ⟨_, hfront, _, hrest⟩, hmem => by
      rcases List.mem_cons.1 hmem with rfl | hmem
      · exact hfront
      · exact hrest.lt_of_mem hmem

namespace Record

variable {r : Record}

theorem WellFormed.entries (h : r.WellFormed) : Content.WellFormedAll 0 r.entries := by
  cases r
  exact h

theorem WellFormed.clear (h : r.WellFormed) (number : Nat) : (r.clear number).WellFormed := h.entries.filter

theorem WellFormed.message (h : r.WellFormed) (number : Nat) : (r.message number).WellFormed := by
  rw [Record.message, single?]
  cases hget : r.get? number with
  | none => trivial
  | some content =>
      cases content with
      | list vs => trivial
      | single v =>
          cases v with
          | message sub => exact h.entries.of_mem (mem_of_find? hget)
          | _ => trivial

theorem WellFormed.dropLast (h : r.WellFormed) (number : Nat) : (r.dropLast number).WellFormed := by
  rw [Record.dropLast]
  cases hget : r.get? number with
  | none => exact h
  | some content =>
      cases content with
      | single v => exact h
      | list vs =>
          have hmem := mem_of_find? hget
          have hvs : Value.WellFormedAll vs := h.entries.of_mem hmem
          have hfront : Value.WellFormedAll vs.dropLast :=
            Value.wellFormedAll_iff.2 fun v hv => Value.wellFormedAll_iff.1 hvs v (vs.dropLast_subset hv)
          show Record.WellFormed (if vs.dropLast.isEmpty then r.clear number else r.put number (.list vs.dropLast))
          split
          · exact h.clear number
          · exact h.put (h.entries.lt_of_mem hmem) hfront

mutual

theorem WellFormed.run_edit : ∀ {edit : Edit} {r : Record}, r.WellFormed → edit.WellFormed → (r.run [edit]).WellFormed
  | .set _ _, _, h, ⟨hnumber, hvalue⟩ => h.put hnumber hvalue
  | .append _ _, _, h, ⟨hnumber, hvalue⟩ => h.append hnumber hvalue
  | .add number edits, r, h, ⟨hnumber, hedits⟩ => by
      rw [run_add]
      exact h.append hnumber (WellFormed.run (r := empty) trivial hedits)
  | .enter number edits, r, h, ⟨hnumber, hedits⟩ => by
      rw [run_enter]
      exact h.put hnumber (WellFormed.run (h.message number) hedits)
  | .dropLast number, _, h, _ => h.dropLast number
  | .clear number, _, h, _ => h.clear number

/-- Edits keep a record a map, at every depth. -/
theorem WellFormed.run : ∀ {edits : List Edit} {r : Record}, r.WellFormed → Edit.WellFormedAll edits →
    (r.run edits).WellFormed
  | [], _, h, _ => h
  | edit :: edits, r, h, ⟨hedit, hedits⟩ => by
      rw [run_cons]
      exact (h.run_edit hedit).run hedits

end

/-! ### Taking back -/

variable {r : Record} {number : Nat} {content : Content} {entries : List (Nat × Content)}

theorem filter_insert (number : Nat) (content : Content) (entries : List (Nat × Content)) :
    (insert number content entries).filter (·.1 != number) = entries.filter (·.1 != number) := by
  induction entries with
  | nil => simp [insert]
  | cons entry entries ih =>
      obtain ⟨n, old⟩ := entry
      rw [insert]
      by_cases hbefore : number < n
      · simp [hbefore]
      rw [if_neg hbefore]
      by_cases hsame : number = n
      · simp [hsame]
      · rw [if_neg hsame, List.filter_cons, List.filter_cons, ih]

/-- Clearing a field takes back what was put there, and what it held before. -/
theorem clear_put (r : Record) (number : Nat) (content : Content) :
    (r.put number content).clear number = r.clear number :=
  congrArg Record.mk (filter_insert number content r.entries)

theorem find?_eq_none_iff : find? number entries = none ↔ ∀ entry ∈ entries, entry.1 ≠ number := by
  induction entries with
  | nil => simp [find?]
  | cons entry entries ih =>
      obtain ⟨n, content⟩ := entry
      by_cases hn : n = number
      · simp [find?, hn]
      · simp [find?, hn, ih]

theorem clear_eq_self_iff : r.clear number = r ↔ r.get? number = none := by
  cases r
  simp [clear, get?, find?_eq_none_iff]

end Record

/-- In ascending entries a number has one place, and putting there what stands there changes nothing. -/
theorem Content.WellFormedAll.insert_eq_self {number : Nat} {content : Content} :
    ∀ {least : Nat} {entries : List (Nat × Content)}, WellFormedAll least entries →
      Record.find? number entries = some content → Record.insert number content entries = entries
  | _, [], _, h => nomatch h
  | _, (n, old) :: rest, ⟨_, _, _, hrest⟩, h => by
      rw [Record.find?] at h
      by_cases hsame : n = number
      · rw [if_pos hsame] at h
        cases h
        rw [Record.insert, if_neg (by omega), if_pos hsame.symm, hsame]
      · rw [if_neg hsame] at h
        have hbefore : ¬ number < n := by
          intro hlt
          rw [hrest.find?_eq_none (by omega)] at h
          cases h
        rw [Record.insert, if_neg hbefore, if_neg (Ne.symm hsame), hrest.insert_eq_self h]

namespace Record

variable {r : Record} {number : Nat}

theorem WellFormed.put_eq_self {content : Content} (h : r.WellFormed) (hget : r.get? number = some content) :
    r.put number content = r :=
  (congrArg Record.mk (h.entries.insert_eq_self hget)).trans (mk_entries r)

theorem get?_of_list_ne_nil (h : r.list number ≠ []) : r.get? number = some (.list (r.list number)) := by
  rw [list] at h ⊢
  split at h
  · assumption
  · exact absurd rfl h

/-- Dropping the value that was added last leaves the values before it, and no empty list. -/
theorem dropLast_append (r : Record) (number : Nat) (v : Value) : (r.append number v).dropLast number
    = if r.list number = [] then r.clear number else r.put number (.list (r.list number)) := by
  rw [append, dropLast, get?_put, if_pos rfl]
  simp [clear_put, put_put]

/-- A value that is added and dropped again leaves a record as it was, unless its field held a single value or an empty
list: either gave way to the list. -/
theorem dropLast_append_eq_self_iff (h : r.WellFormed) (v : Value) : (r.append number v).dropLast number = r
    ↔ r.get? number = none ∨ ∃ vs, vs ≠ [] ∧ r.get? number = some (.list vs) := by
  rw [dropLast_append]
  by_cases hlist : r.list number = []
  · rw [if_pos hlist, clear_eq_self_iff]
    refine ⟨.inl, ?_⟩
    rintro (hnone | ⟨vs, hvs, hget⟩)
    · exact hnone
    · rw [list, hget] at hlist
      exact absurd hlist hvs
  · have hget := get?_of_list_ne_nil hlist
    rw [if_neg hlist]
    exact ⟨fun _ => .inr ⟨_, hlist, hget⟩, fun _ => h.put_eq_self hget⟩

theorem clear_set_eq_self_iff (v : Value) : (r.set number v).clear number = r ↔ r.get? number = none := by
  rw [set, clear_put, clear_eq_self_iff]

/-! ### Messages that are added -/

theorem run_adds (number : Nat) (copies : List (List Edit)) : ∀ r : Record, r.run (copies.map (.add number))
    = (copies.map fun edits => .message (empty.run edits)).foldl (·.append number ·) r := by
  induction copies with
  | nil => exact fun _ => rfl
  | cons edits copies ih =>
      intro r
      rw [List.map_cons, run_cons, run_add, ih]
      rfl

/-- Values that are added one after another are what a list ends with, and nothing else changes. -/
theorem get?_foldl_append (hnone : r.get? number = none) (vs : List Value) (asked : Nat) :
    (vs.foldl (·.append number ·) r).get? asked = if asked = number then Content.ofList vs else r.get? asked := by
  cases vs with
  | nil =>
      split
      · next hasked => exact hasked ▸ hnone
      · rfl
  | cons v vs =>
      have hlist : r.list number = [] := list_of_get? hnone
      rw [foldl_append_eq_put (List.cons_ne_nil _ _), get?_put, hlist]
      rfl

/-- What was done to a message that is taken back leaves no trace: the record is the one before exactly if dropping or
clearing the field takes no more than that message. Messages that are added to a field which held nothing are the
list of that field, each as its own edits make it of an empty one, and no other field has changed. -/
theorem discarded_without_trace (h : r.WellFormed) (number : Nat) :
    (∀ edits, r.run [.add number edits, .dropLast number] = r
        ↔ r.get? number = none ∨ ∃ vs, vs ≠ [] ∧ r.get? number = some (.list vs))
      ∧ (∀ edits, r.run [.enter number edits, .clear number] = r ↔ r.get? number = none)
      ∧ ∀ copies : List (List Edit), r.get? number = none → ∀ asked,
          (r.run (copies.map (.add number))).get? asked
            = if asked = number then Content.ofList (copies.map fun edits => .message (empty.run edits))
              else r.get? asked := by
  refine ⟨fun edits => ?_, fun edits => ?_, fun copies hnone asked => ?_⟩
  · rw [run_cons, run_add, run_dropLast]
    exact dropLast_append_eq_self_iff h _
  · rw [run_cons, run_enter, run_clear]
    exact clear_set_eq_self_iff _
  · rw [run_adds]
    exact get?_foldl_append hnone _ asked

/-- A single value, and behind it a list of one message. -/
def parcel : Record := ⟨[(2, .single (.int 7)), (4, .list [.message ⟨[(1, .single (.int 1))]⟩])]⟩

/-- Edits that fill messages inside messages, and take some of them back. -/
def parcelEdits : List Edit :=
  [.set 1 (.int 5), .add 4 [.enter 3 [.append 1 (.string "x")], .clear 3, .add 9 []], .dropLast 4,
    .add 2 [.set 1 (.bool true)]]

/-- Behind the list and in a field of its own the message goes without a trace. In the field that holds a single value it
does not, since that value gave way to it. -/
theorem parcel_restored :
    parcel.WellFormed
      ∧ parcel.run [.add 4 parcelEdits, .dropLast 4] = parcel
      ∧ parcel.run [.add 3 parcelEdits, .dropLast 3] = parcel
      ∧ parcel.run [.add 2 parcelEdits, .dropLast 2] ≠ parcel
      ∧ parcel.run [.enter 3 parcelEdits, .clear 3] = parcel
      ∧ (parcel.run [.add 3 parcelEdits, .add 3 []]).get? 3
          = some (.list [.message ⟨[(1, .single (.int 5)), (2, .list [.message ⟨[(1, .single (.bool true))]⟩])]⟩,
              .message ⟨[]⟩])
      ∧ (parcel.run [.add 3 parcelEdits, .add 3 []]).get? 4 = parcel.get? 4 := by
  have hformed : parcel.WellFormed :=
    ⟨by decide, by decide, trivial, by decide, by decide, ⟨⟨by decide, by decide, trivial, trivial⟩, trivial⟩, trivial⟩
  refine ⟨hformed, ?_, ?_, ?_, ?_, ?_, ?_⟩
  · exact ((discarded_without_trace hformed 4).1 parcelEdits).2 (.inr ⟨_, List.cons_ne_nil _ _, rfl⟩)
  · exact ((discarded_without_trace hformed 3).1 parcelEdits).2 (.inl rfl)
  · intro hrestored
    rcases ((discarded_without_trace hformed 2).1 parcelEdits).1 hrestored with hnone | ⟨vs, -, hlist⟩
    · cases hnone
    · cases hlist
  · exact ((discarded_without_trace hformed 3).2.1 parcelEdits).2 rfl
  · exact (discarded_without_trace hformed 3).2.2 [parcelEdits, []] rfl 3
  · exact (discarded_without_trace hformed 3).2.2 [parcelEdits, []] rfl 4

end Record

end SheetCompiler

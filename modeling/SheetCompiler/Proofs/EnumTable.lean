import Mathlib.Data.String.Basic
import SheetCompiler.Conversion
import SheetCompiler.EnumTable.Source
import SheetCompiler.TextFormat

/-!
# Members and their numbers

Enums stand in the order of their names, so that declaring an enum or adding a member to it changes what is found under
its own name and nothing else.

A cell is converted by the first member of its name, and the number is written by the first member of that number. The
two are one and the same entry unless names are shared. What is written denotes the number again exactly if no member
in front of the one that is written has the same name, and it always does where no name stands for two numbers.
-/

namespace SheetCompiler

namespace EnumTable

variable {t : EnumTable} {name other : String} {number : Int32}

/-! ### Enums in order -/

/-- Whether enums stand in the order of their names, each of them once. -/
def Ordered (t : EnumTable) : Prop := t.enums.Pairwise (·.1 < ·.1)

theorem ordered_empty : Ordered {} := List.Pairwise.nil

section Modify

variable {change : List (String × Int32) → List (String × Int32)} {enums : List (String × List (String × Int32))}

theorem name_of_mem_modify {enum : String × List (String × Int32)} (h : enum ∈ modify name change enums) :
    enum.1 = name ∨ ∃ old ∈ enums, enum.1 = old.1 := by
  induction enums with
  | nil => simp_all [modify]
  | cons first rest ih =>
      rw [modify] at h
      split_ifs at h <;> simp only [List.mem_cons] at h ⊢ <;> grind

theorem pairwise_modify (h : enums.Pairwise (·.1 < ·.1)) : (modify name change enums).Pairwise (·.1 < ·.1) := by
  induction enums with
  | nil => simp [modify]
  | cons first rest ih =>
      obtain ⟨hfirst, hrest⟩ := List.pairwise_cons.1 h
      rw [modify]
      split_ifs with hlt heq
      · refine List.pairwise_cons.2 ⟨fun enum henum => ?_, h⟩
        rcases List.mem_cons.1 henum with rfl | henum
        · exact hlt
        · exact hlt.trans (hfirst enum henum)
      · exact List.pairwise_cons.2 ⟨hfirst, hrest⟩
      · refine List.pairwise_cons.2 ⟨fun enum henum => ?_, ih hrest⟩
        rcases name_of_mem_modify henum with hname | ⟨old, hold, hname⟩
        · rw [hname]
          exact lt_of_le_of_ne (not_lt.1 hlt) (Ne.symm heq)
        · rw [hname]
          exact hfirst old hold

theorem members?_cons (enum : String × List (String × Int32)) (name : String) :
    members? ⟨enum :: enums⟩ name = if enum.1 = name then some enum.2 else members? ⟨enums⟩ name := by
  rw [members?, members?, List.find?_cons]
  by_cases h : enum.1 = name
  · simp [h]
  · simp [h, beq_eq_false_iff_ne.2 h]

theorem members?_eq_none (h : ∀ enum ∈ enums, enum.1 ≠ name) : members? ⟨enums⟩ name = none := by
  simpa [members?] using h

/-- What is found under a name is what the change makes of what was found there, and under other names what was. -/
theorem members?_modify (h : enums.Pairwise (·.1 < ·.1)) (other : String) :
    members? ⟨modify name change enums⟩ other
      = if other = name then some (change ((members? ⟨enums⟩ name).getD [])) else members? ⟨enums⟩ other := by
  induction enums with
  | nil =>
      rw [modify, members?_cons]
      simp [members?, eq_comm]
  | cons first rest ih =>
      obtain ⟨hfirst, hrest⟩ := List.pairwise_cons.1 h
      rcases lt_trichotomy name first.1 with hlt | heq | hgt
      · have hnone : members? ⟨first :: rest⟩ name = none := by
          apply members?_eq_none
          intro enum henum
          rcases List.mem_cons.1 henum with rfl | henum
          · exact hlt.ne'
          · exact (hlt.trans (hfirst enum henum)).ne'
        rw [modify, if_pos hlt, members?_cons, hnone, Option.getD_none]
        simp only [eq_comm]
      · rw [modify, if_neg heq.not_lt, if_pos heq, members?_cons, members?_cons, members?_cons, if_pos heq.symm,
          ← heq, Option.getD_some]
        by_cases hother : other = name
        · rw [if_pos hother, if_pos hother.symm]
        · simp only [if_neg hother, if_neg (Ne.symm hother)]
      · rw [modify, if_neg hgt.not_gt, if_neg hgt.ne', members?_cons, members?_cons, members?_cons, ih hrest,
          if_neg hgt.ne]
        by_cases hother : other = name
        · simp only [if_pos hother, if_neg (ne_of_lt (hother ▸ hgt))]
        · simp only [if_neg hother]

end Modify

theorem Ordered.declare (h : t.Ordered) (name : String) : (t.declare name).Ordered := pairwise_modify h

theorem Ordered.insert (h : t.Ordered) (name member : String) (number : Int32) :
    (t.insert name member number).Ordered :=
  pairwise_modify h

theorem members?_declare (h : t.Ordered) (name other : String) :
    (t.declare name).members? other
      = if other = name then some ((t.members? name).getD []) else t.members? other :=
  members?_modify h other

theorem members?_insert (h : t.Ordered) (name member : String) (number : Int32) (other : String) :
    (t.insert name member number).members? other
      = if other = name then some ((t.members? name).getD [] ++ [(member, number)]) else t.members? other :=
  members?_modify h other

/-! ### Names that are written -/

/-- Whether no name of an enum stands for two numbers. -/
def Unambiguous (t : EnumTable) (name : String) : Prop :=
  ∀ members ∈ t.members? name, ∀ p ∈ members, ∀ q ∈ members, p.1 = q.1 → p.2 = q.2

instance (t : EnumTable) (name : String) : Decidable (t.Unambiguous name) :=
  inferInstanceAs (Decidable (∀ members ∈ t.members? name, ∀ p ∈ members, ∀ q ∈ members, p.1 = q.1 → p.2 = q.2))

theorem number?_eq_find? {members : List (String × Int32)} (h : t.members? name = some members) (member : String) :
    t.number? name member = (members.find? (·.1 == member)).map (·.2) := by
  rw [number?, h, Option.bind_some]

theorem member?_eq_find? {members : List (String × Int32)} (h : t.members? name = some members) (number : Int32) :
    t.member? name number = (members.find? (·.2 == number)).map (·.1) := by
  rw [member?, h, Option.bind_some]

/-- A number that some member has is written by the name of the first one that has it. -/
theorem exists_member?_of_number? {member : String} (h : t.number? name member = some number) :
    ∃ before first after, t.members? name = some (before ++ (first, number) :: after)
      ∧ (∀ p ∈ before, p.2 ≠ number) ∧ t.member? name number = some first := by
  obtain ⟨members, hmembers⟩ : ∃ members, t.members? name = some members := by
    cases hmembers : t.members? name with
    | none => simp [number?, hmembers] at h
    | some members => exact ⟨members, rfl⟩
  rw [number?_eq_find? hmembers, Option.map_eq_some_iff] at h
  obtain ⟨p, hp, rfl⟩ := h
  have hsome : (members.find? (·.2 == p.2)).isSome := by
    rw [List.find?_isSome]
    exact ⟨p, List.mem_of_find?_eq_some hp, by simp⟩
  obtain ⟨first, hfirst⟩ := Option.isSome_iff_exists.1 hsome
  obtain ⟨hnumber, before, after, rfl, hbefore⟩ := List.find?_eq_some_iff_append.1 hfirst
  have hnumber : first.2 = p.2 := by simpa using hnumber
  refine ⟨before, first.1, after, ?_, fun q hq => by simpa using hbefore q hq, ?_⟩
  · rw [hmembers, ← hnumber]
  · rw [member?_eq_find? hmembers, hfirst]
    rfl

/-- The name of an entry denotes its number exactly if no entry of another number in front of it has the same name. -/
theorem number?_eq_some_iff {before after : List (String × Int32)} {first : String}
    (hmembers : t.members? name = some (before ++ (first, number) :: after)) (hbefore : ∀ p ∈ before, p.2 ≠ number) :
    t.number? name first = some number ↔ ∀ p ∈ before, p.1 ≠ first := by
  rw [number?_eq_find? hmembers, List.find?_append]
  constructor
  · intro h p hp hname
    have hsome : (before.find? (·.1 == first)).isSome := by
      rw [List.find?_isSome]
      exact ⟨p, hp, by simp [hname]⟩
    obtain ⟨q, hq⟩ := Option.isSome_iff_exists.1 hsome
    rw [hq] at h
    exact hbefore q (List.mem_of_find?_eq_some hq) (Option.some.inj h)
  · intro h
    have hnone : before.find? (·.1 == first) = none := by simpa using h
    simp [hnone]

theorem number?_of_converted {default? : Option String} {text : String}
    (h : Conversion.convert (.enum name) default? t text = .ok (some (.enum number))) :
    ∃ member, t.number? name member = some number := by
  rw [Conversion.convert] at h
  split_ifs at h
  · cases h
  · obtain ⟨source, hsource, hvalue⟩ := Option.map_eq_some_iff.1 (Except.ok.inj h)
    cases hvalue
    exact ⟨_, hsource⟩

/-- The number that a cell of an enum is converted to is written by the name of the first member that has it. The name
denotes the number exactly if no member in front of that one has the same name, and it does where no name of the enum
stands for two numbers. -/
theorem text_of_converted {default? : Option String} {text : String}
    (h : Conversion.convert (.enum name) default? t text = .ok (some (.enum number))) :
    ∃ before member after, t.members? name = some (before ++ (member, number) :: after)
      ∧ TextFormat.value (.value (.enum name)) t (.enum number) = member
      ∧ (∀ p ∈ before, p.2 ≠ number)
      ∧ (t.number? name member = some number ↔ ∀ p ∈ before, p.1 ≠ member)
      ∧ (t.Unambiguous name → t.number? name member = some number) := by
  obtain ⟨source, hsource⟩ := number?_of_converted h
  obtain ⟨before, member, after, hmembers, hbefore, hmember⟩ := exists_member?_of_number? hsource
  have hiff := number?_eq_some_iff hmembers hbefore
  refine ⟨before, member, after, hmembers, ?_, hbefore, hiff, fun hnames => hiff.2 fun p hp hname => ?_⟩
  · simp only [TextFormat.value, hmember, Option.getD_some]
  · have hfound : (member, number) ∈ before ++ (member, number) :: after := by simp
    exact hbefore p hp (hnames _ hmembers p (List.mem_append_left _ hp) _ hfound hname)

end EnumTable

def colours : EnumTable :=
  (((({} : EnumTable).insert "Color" "NONE" 0).insert "Color" "RED" 1).insert "Shape" "RED" 7).insert "Color" "ROUGE" 1

/-- The second name is converted to the number that is written by the first, and this one denotes it. -/
theorem rouge_written_as_red :
    Conversion.convert (.enum "Color") (some "NONE") colours " ROUGE " = .ok (some (.enum 1))
      ∧ TextFormat.value (.value (.enum "Color")) colours (.enum 1) = "RED"
      ∧ colours.number? "Color" "RED" = some 1 := by
  have hcell : Conversion.convert (.enum "Color") (some "NONE") colours " ROUGE " = .ok (some (.enum 1)) := by rfl
  obtain ⟨before, member, after, hmembers, hwritten, -, -, hdenotes⟩ := EnumTable.text_of_converted hcell
  have hnames : colours.Unambiguous "Color" := by decide +kernel
  have hmember : member = "RED" := hwritten.symm.trans (by decide +kernel)
  subst hmember
  exact ⟨hcell, hwritten, hdenotes hnames⟩

/-- Three enums of one name, in which a name stands for two numbers. -/
def buildings : String :=
  "message Door { enum Kind { NONE = 0; OAK = 1; } }
message Wall { enum Kind { NONE = 0; BRICK = 1; OAK = 2; } }
message Roof { enum Kind { NONE = 0; SLATE = 2; } }"

/-- A cell of this enum is converted to two, and that is written by a name that denotes one. -/
theorem slate_written_as_oak :
    Conversion.convert (.enum "Kind") none (EnumTable.ofSource buildings) "SLATE" = .ok (some (.enum 2))
      ∧ TextFormat.value (.value (.enum "Kind")) (EnumTable.ofSource buildings) (.enum 2) = "OAK"
      ∧ (EnumTable.ofSource buildings).number? "Kind" "OAK" = some 1 := by
  have htable : EnumTable.ofSource buildings = ⟨[("Kind", [("NONE", 0), ("OAK", 1), ("NONE", 0), ("BRICK", 1),
      ("OAK", 2), ("NONE", 0), ("SLATE", 2)])]⟩ := by decide +kernel
  rw [htable]
  exact ⟨rfl, by decide, by decide⟩

end SheetCompiler

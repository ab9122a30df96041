import SheetCompiler.Proofs.Layout.Scopes
import SheetCompiler.Proofs.Rows.Refinement

/-!
# Errors name cells

An error in the cells of a row carries the name of a cell. A text that cannot be converted is named by the column
where the walk stands, so the cell is the right one in every copy of a repetition. A repetition of required structs
without an instance is named by the column of its count in the header, which all copies of it share: the cell is the
right one exactly in the first copies of the repetitions around it, and one with an instance in all others.
-/

namespace SheetCompiler

/-! ### Constructs in their copies -/

namespace Node

/-- Whether a construct lies among constructs, at any depth, in a copy that stands `shift` columns to the right of the
headings. -/
inductive Occurs : List Node → Nat → Node → Prop
  | here {nodes : List Node} {node : Node} (hnode : node ∈ nodes) : Occurs nodes 0 node
  | struct {nodes members : List Node} {head : StructColumn} {shift : Nat} {node : Node}
      (hstruct : .struct head members ∈ nodes) (h : Occurs members shift node) : Occurs nodes shift node
  | structs {nodes members : List Node} {count max copy : Nat} {head : StructColumn} {shift : Nat} {node : Node}
      (hstructs : .structs count max head members ∈ nodes) (hcopy : copy < max) (h : Occurs members shift node) :
      Occurs nodes (copy * (1 + spans members) + shift) node

namespace Occurs

variable {nodes more members : List Node} {node other : Node} {shift count max : Nat} {head : StructColumn}

theorem ne_nil (h : Occurs nodes shift node) : nodes ≠ [] := by
  cases h with
  | here hnode | struct hnode | structs hnode => exact List.ne_nil_of_mem hnode

theorem mono (h : Occurs nodes shift node) (hsubset : nodes ⊆ more) : Occurs more shift node := by
  cases h with
  | here hnode => exact .here (hsubset hnode)
  | struct hstruct h => exact .struct (hsubset hstruct) h
  | structs hstructs hcopy h => exact .structs (hsubset hstructs) hcopy h

/-- What occurs in some copy occurs in the first one. -/
theorem first (h : Occurs nodes shift node) : Occurs nodes 0 node := by
  induction h with
  | here hnode => exact .here hnode
  | struct hstruct _ ih => exact .struct hstruct ih
  | structs hstructs hcopy _ ih =>
      have hfirst := Occurs.structs hstructs (Nat.zero_lt_of_lt hcopy) ih
      rwa [Nat.zero_mul] at hfirst

theorem cons_iff : Occurs (node :: nodes) shift other ↔ Occurs [node] shift other ∨ Occurs nodes shift other := by
  constructor
  · intro h
    cases h with
    | here hnode =>
        rcases List.mem_cons.1 hnode with rfl | hnode
        · exact .inl (.here List.mem_cons_self)
        · exact .inr (.here hnode)
    | struct hstruct h =>
        rcases List.mem_cons.1 hstruct with rfl | hstruct
        · exact .inl (.struct List.mem_cons_self h)
        · exact .inr (.struct hstruct h)
    | structs hstructs hcopy h =>
        rcases List.mem_cons.1 hstructs with rfl | hstructs
        · exact .inl (.structs List.mem_cons_self hcopy h)
        · exact .inr (.structs hstructs hcopy h)
  · rintro (h | h)
    · exact h.mono (by simp)
    · exact h.mono (List.subset_cons_self node nodes)

theorem eq_of_leaf (hleaf : node.struct? = none) (h : Occurs [node] shift other) : other = node := by
  cases h with
  | here hother => exact List.mem_singleton.1 hother
  | struct hstruct => rw [← List.mem_singleton.1 hstruct] at hleaf; cases hleaf
  | structs hstructs => rw [← List.mem_singleton.1 hstructs] at hleaf; cases hleaf

theorem eq_or_of_struct (hstruct : node.struct? = some (head, members)) (h : Occurs [node] shift other) :
    other = node ∨ ∃ inner, Occurs members inner other := by
  cases h with
  | here hother => exact .inl (List.mem_singleton.1 hother)
  | struct hnode h =>
      rw [← List.mem_singleton.1 hnode] at hstruct
      cases hstruct
      exact .inr ⟨_, h⟩
  | structs hnode _ h =>
      rw [← List.mem_singleton.1 hnode] at hstruct
      cases hstruct
      exact .inr ⟨_, h⟩

end Occurs

end Node

namespace Row

open Node

variable {row : Source} {shift last : Nat} {nodes members : List Node}

/-! ### Counts -/

/-- Whether all repetitions of required structs among constructs have an instance, as far as the first copies of the
repetitions around them go. -/
def Source.Fills (row : Source) (shift : Nat) (nodes : List Node) : Prop :=
  ∀ count max head members, Occurs nodes 0 (.structs count max head members) → head.required = true →
    ¬row.AsksNone (count + shift)

theorem fills_nil : row.Fills shift [] := by
  intro count max head members h
  exact absurd rfl h.ne_nil

theorem Source.Fills.cons {node : Node} (hnode : row.Fills shift [node]) (hnodes : row.Fills shift nodes) :
    row.Fills shift (node :: nodes) := by
  intro count max head members h
  rcases Occurs.cons_iff.1 h with h | h
  · exact hnode count max head members h
  · exact hnodes count max head members h

theorem fills_leaf {node : Node} (hleaf : node.struct? = none) : row.Fills shift [node] := by
  intro count max head members h
  rw [← h.eq_of_leaf hleaf] at hleaf
  cases hleaf

theorem Source.Fills.struct {head : StructColumn} (h : row.Fills shift members) :
    row.Fills shift [.struct head members] := by
  intro count max head' members' hoccurs
  rcases hoccurs.eq_or_of_struct rfl with heq | ⟨_, hoccurs⟩
  · cases heq
  · exact h count max head' members' hoccurs.first

theorem Source.Fills.structs {count max : Nat} {head : StructColumn} (h : row.Fills shift members)
    (hcount : head.required = true → ¬row.AsksNone (count + shift)) :
    row.Fills shift [.structs count max head members] := by
  intro count' max' head' members' hoccurs
  rcases hoccurs.eq_or_of_struct rfl with heq | ⟨_, hoccurs⟩
  · cases heq
    exact hcount
  · exact h count' max' head' members' hoccurs.first

theorem readCount_eq_zero_iff {max : Nat} (hpos : 0 < max) {w : Walk} :
    readCount row max w = .ok 0 ↔ row.AsksNone w.column := by
  rw [← toOption_eq_some, toOption_readCount, Source.count?_eq_zero_iff hpos]

/-! ### Cells at fault -/

/-- How an error lies in the cells of constructs, which stand `shift` columns to the right of their headings and end
in front of the column `last` there. -/
inductive Blamed (row : Source) (shift last : Nat) (nodes : List Node) : SheetError → Prop
  | text {column : Nat} {fault : ConversionFault} (hlast : column < last + shift)
      (htext : fault.text = row.cell column ∨ fault.text ∈ row.tokens column) :
      Blamed row shift last nodes (.conversion (row.cellName column) fault)
  | default {inner : Nat} {field : ValueColumn} {optional : Bool} {fault : ConversionFault}
      (hoccurs : Occurs nodes inner (.value field optional)) (hlast : field.column + inner < last)
      (hblank : Text.isBlank (row.cell (field.column + (shift + inner))) = true)
      (hdefault : field.default? = some fault.text) :
      Blamed row shift last nodes (.conversion (row.cellName (field.column + (shift + inner))) fault)
  | count {inner count max : Nat} {head : StructColumn} {members : List Node}
      (hoccurs : Occurs nodes inner (.structs count max head members)) (hrequired : head.required = true)
      (hlast : count + inner < last) (hnone : row.AsksNone (count + (shift + inner)))
      (hfirst : row.AsksNone (count + shift) ↔ inner = 0) :
      Blamed row shift last nodes (.missingRepeat (row.cellName count) head.name)

namespace Blamed

variable {e : SheetError} {more : List Node} {bound : Nat}

theorem mono (h : Blamed row shift last nodes e) (hsubset : nodes ⊆ more) (hle : last ≤ bound) :
    Blamed row shift bound more e := by
  cases h with
  | text hlast htext => exact .text (by omega) htext
  | default hoccurs hlast hblank hdefault => exact .default (hoccurs.mono hsubset) (by omega) hblank hdefault
  | count hoccurs hrequired hlast hnone hfirst =>
      exact .count (hoccurs.mono hsubset) hrequired (by omega) hnone hfirst

theorem struct {head : StructColumn} (h : Blamed row shift last members e) (hle : last ≤ bound) :
    Blamed row shift bound [.struct head members] e := by
  have hmem : Node.struct head members ∈ [Node.struct head members] := List.mem_cons_self
  cases h with
  | text hlast htext => exact .text (by omega) htext
  | default hoccurs hlast hblank hdefault => exact .default (.struct hmem hoccurs) (by omega) hblank hdefault
  | count hoccurs hrequired hlast hnone hfirst =>
      exact .count (.struct hmem hoccurs) hrequired (by omega) hnone hfirst

/-- An error in a copy of a struct. In all copies but the first, the walk has come past the first one. -/
theorem structs {count max copy : Nat} {head : StructColumn}
    (h : Blamed row (shift + copy * (1 + spans members)) last members e) (hcopy : copy < max)
    (hpassed : 0 < copy → row.Fills shift members) (hle : last + copy * (1 + spans members) ≤ bound) :
    Blamed row shift bound [.structs count max head members] e := by
  have hmem : Node.structs count max head members ∈ [Node.structs count max head members] := List.mem_cons_self
  cases h with
  | text hlast htext => exact .text (by omega) htext
  | default hoccurs hlast hblank hdefault =>
      rw [Nat.add_assoc] at hblank ⊢
      exact .default (.structs hmem hcopy hoccurs) (by omega) hblank hdefault
  | @count inner _ _ _ _ hoccurs hrequired hlast hnone hfirst =>
      rw [Nat.add_assoc] at hnone
      refine .count (.structs hmem hcopy hoccurs) hrequired (by omega) hnone ?_
      rcases Nat.eq_zero_or_pos copy with rfl | hpos
      · simpa using hfirst
      · have hcolumns := Nat.le_mul_of_pos_left (1 + spans members) hpos
        constructor
        · intro hnone
          exact absurd hnone (hpassed hpos _ _ _ _ hoccurs.first hrequired)
        · omega

end Blamed

/-! ### Walks that fail -/

theorem isBlank_of_isBlank {type : ValueType} {text : String} (h : Conversion.isBlank type text = true) :
    Text.isBlank text = true := by
  cases type with
  | enum name => exact h
  | scalar kind =>
      cases kind
      case string =>
        rw [String.isEmpty_iff.1 h]
        rfl
      all_goals exact h

/-- A text that cannot be converted is the text of the cell, or the default of a blank one. -/
theorem text_of_convert {type : ValueType} {default? : Option String} {enums : EnumTable} {text : String}
    {fault : ConversionFault} (h : Conversion.convert type default? enums text = .error fault) :
    fault.text = text ∨ Text.isBlank text = true ∧ default? = some fault.text := by
  have htext : fault.text = Conversion.effective type default? text := by
    simp only [Conversion.convert] at h
    split at h
    · cases h
    · split at h
      · split at h <;> cases h
        rfl
      · cases h
  cases default? with
  | none => exact .inl htext
  | some default =>
      rw [Conversion.effective] at htext
      by_cases hblank : Conversion.isBlank type text = true
      · rw [if_pos hblank] at htext
        exact .inr ⟨isBlank_of_isBlank hblank, by rw [htext]⟩
      · rw [if_neg hblank] at htext
        exact .inl htext

theorem text_of_count {text : String} {fault : ConversionFault} (h : Conversion.count text = .error fault) :
    fault.text = text := by
  rw [Conversion.count] at h
  split at h
  · cases h
  · split at h <;> cases h
    rfl

section Cells

variable {w : Walk} {type : ValueType}

theorem convert_blames {column : Nat} {text : String} (hlast : column < last + shift)
    (htext : text = row.cell column ∨ text ∈ row.tokens column) :
    Ends (fun _ => True) (Blamed row shift last nodes) (convert row column type none text) := by
  rw [convert]
  cases hconvert : Conversion.convert type none row.enums text with
  | ok v => trivial
  | error fault =>
      rcases text_of_convert hconvert with heq | ⟨-, hnone⟩
      · exact .text hlast (heq ▸ htext)
      · cases hnone

theorem convert_value_blames {column : Nat} {field : ValueColumn} {optional : Bool} (hfirst : field.column = last)
    (hcolumn : column = last + shift) :
    Ends (fun _ => True) (Blamed row shift (last + 1) [.value field optional])
      (convert row column field.type field.default? (row.cell column)) := by
  rw [convert]
  cases hconvert : Conversion.convert field.type field.default? row.enums (row.cell column) with
  | ok v => trivial
  | error fault =>
      rcases text_of_convert hconvert with heq | ⟨hblank, hdefault⟩
      · exact .text (by omega) (.inl heq)
      · rw [show column = field.column + (shift + 0) by omega] at hblank ⊢
        exact .default (.here List.mem_cons_self) (by omega) hblank hdefault

theorem readCount_blames {max : Nat} (hlast : w.column < last + shift) :
    Ends (fun _ => True) (Blamed row shift last nodes) (readCount row max w) := by
  have hcount : Ends (fun _ => True) (Blamed row shift last nodes)
      ((Conversion.count (row.cell w.column)).mapError (.conversion (row.cellName w.column))) := by
    cases hcount : Conversion.count (row.cell w.column) with
    | ok count => trivial
    | error fault => exact .text hlast (.inl (text_of_count hcount))
  exact hcount.bind fun _ _ => trivial

/-- The texts joined in a cell are converted while the walk stands there. -/
theorem readInline_blames {number column : Nat} {tokens : List String} (hlast : column < last + shift)
    (htokens : tokens ⊆ row.tokens column) : ∀ {w : Walk}, w.column = column →
      Ends (fun _ => True) (Blamed row shift last nodes) (readInline row type number w tokens) := by
  induction tokens with
  | nil => exact fun _ => trivial
  | cons token tokens ih =>
      intro w hcolumn
      obtain ⟨htoken, htokens⟩ := List.cons_subset.1 htokens
      rw [readInline, hcolumn]
      refine (convert_blames hlast (.inr htoken)).bind fun v _ => ?_
      exact ih htokens ((w.append_passes number v).column.trans hcolumn)

theorem readCopies_blames {number count : Nat} (hlast : w.column + count ≤ last + shift) :
    Ends (fun _ => True) (Blamed row shift last nodes) (readCopies row type number count w) := by
  have hstep : ∀ i (s : Walk), i < count → s.column = w.column + i →
      Ends (fun s' => s'.column = w.column + (i + 1)) (Blamed row shift last nodes) (readCell row type number s) := by
    intro i s hi hs
    refine (convert_blames (by omega) (.inl rfl)).bind fun v _ => ?_
    change (s.append number v).column + 1 = w.column + (i + 1)
    rw [(s.append_passes number v).column, hs]
    omega
  have hcells := Ends.iterateM (fun i (s : Walk) => s.column = w.column + i) hstep rfl
  exact hcells.mono fun _ _ => trivial

end Cells

section Constructs

variable {type : Message} {w : Walk} {head : StructColumn}

/-- Whether a walk stands in front of a copy of a repetition, the first of which begins in the column `column`. If it
has come to a later one, it has found an instance of everything in the first one. -/
def Walk.AtCopy (row : Source) (shift column : Nat) (members : List Node) (copy : Nat) (w : Walk) : Prop :=
  w.column = column + copy * (1 + spans members) ∧ (0 < copy → row.Fills shift members)

theorem Walk.AtCopy.next {column copy : Nat} {w' : Walk} (h : w.AtCopy row shift column members copy)
    (hcolumn : w'.column = w.column + (1 + spans members))
    (hfills : row.Fills (shift + copy * (1 + spans members)) members) :
    w'.AtCopy row shift column members (copy + 1) := by
  refine ⟨by rw [hcolumn, h.1, Nat.succ_mul, Nat.add_assoc], fun _ => ?_⟩
  rcases Nat.eq_zero_or_pos copy with rfl | hlater
  · simpa using hfills
  · exact h.2 hlater

/-- What the walk over one copy of a repetition comes to, where it stands in front of it. -/
theorem readCopy_blames {nested : Message} {copy : Nat} (number : Nat)
    (hmembers : ∀ inner : Walk, inner.scopes.number = 1 → inner.column = w.column + 1 →
      Ends (fun w' => w'.column = inner.column + spans members ∧ row.Fills (shift + copy * (1 + spans members)) members)
        (Blamed row (shift + copy * (1 + spans members)) last members) (readAll row nested inner members)) :
    Ends (fun w' => w'.column = w.column + (1 + spans members)
        ∧ row.Fills (shift + copy * (1 + spans members)) members)
      (Blamed row (shift + copy * (1 + spans members)) last members) (readCopy row nested number members w) := by
  rw [readCopy]
  refine (hmembers (w.enter .empty) rfl rfl).bind ?_
  rintro inner ⟨hcolumn, hfills⟩
  refine ⟨?_, hfills⟩
  show inner.column = _
  rw [hcolumn, ← Nat.add_assoc]
  rfl

theorem read_structs_blames {count max first : Nat} (hfirst : count = first) (hpos : 0 < max)
    (hcolumn : w.column = first + shift)
    (hprovides : type.Provides w.scopes.number (.structs count max head members :: nodes))
    (hmembers : ∀ copy (inner : Walk), inner.scopes.number = 1 →
      inner.column = first + 2 + (shift + copy * (1 + spans members)) →
      Ends (fun w' => w'.column = inner.column + spans members ∧ row.Fills (shift + copy * (1 + spans members)) members)
        (Blamed row (shift + copy * (1 + spans members)) (first + 2 + spans members) members)
        (readAll row ⟨head.typeName, fields 1 members⟩ inner members)) :
    Ends (fun _ => row.Fills shift [.structs count max head members])
      (Blamed row shift (first + (max * (1 + spans members) + 1)) [.structs count max head members])
      (read row type w (.structs count max head members)) := by
  subst hfirst
  rw [read_structs]
  apply (readCount_blames (by omega)).bind_of_eq
  intro copies hcopies _
  have hnone : copies = 0 ↔ row.AsksNone (count + shift) := by
    rw [← hcolumn, ← readCount_eq_zero_iff hpos, hcopies, Except.ok.injEq]
  rw [boundMessage_eq (w := w.skip 1) hprovides rfl rfl]
  show Ends _ _ (if copies = 0 ∧ head.required = true then _ else _)
  by_cases hmissing : copies = 0 ∧ head.required = true
  · rw [if_pos hmissing]
    have hcount : row.AsksNone (count + shift) := hnone.1 hmissing.1
    exact .count (.here List.mem_cons_self) hmissing.2 (by omega) hcount (by simp [hcount])
  rw [if_neg hmissing]
  have hstep : ∀ i s, i < max → Walk.AtCopy row shift (count + 1 + shift) members i s →
      Ends (Walk.AtCopy row shift (count + 1 + shift) members (i + 1))
        (Blamed row shift (count + (max * (1 + spans members) + 1)) [.structs count max head members])
        (readCopy row ⟨head.typeName, fields 1 members⟩ w.scopes.number members s) := by
    intro i s hi hat
    have hs := hat.1
    have hcopy := readCopy_blames w.scopes.number fun inner hnumber (hinner : inner.column = s.column + 1) =>
      hmembers i inner hnumber (by omega)
    have hroom : (i + 1) * (1 + spans members) ≤ max * (1 + spans members) := Nat.mul_le_mul_right _ hi
    rw [Nat.succ_mul] at hroom
    exact (hcopy.mono_error fun e he => he.structs hi hat.2 (by omega)).mono fun s' hs' => hat.next hs'.1 hs'.2
  have hstart : (w.skip 1).number.AtCopy row shift (count + 1 + shift) members 0 := by
    refine ⟨?_, fun h => absurd h (Nat.lt_irrefl 0)⟩
    show w.column + 1 = _
    omega
  have hused : Nat.max copies 1 ≤ max := Nat.max_le.2 ⟨le_of_readCount hcopies, hpos⟩
  have hwalk := Ends.iterateM _ (fun i s hi => hstep i s (Nat.lt_of_lt_of_le hi hused)) hstart
  refine hwalk.bind ?_
  rintro w' ⟨-, hfilled⟩
  refine (hfilled (Nat.le_max_right copies 1)).structs fun hrequired hcount => ?_
  exact hmissing ⟨hnone.2 hcount, hrequired⟩

end Constructs

mutual

theorem read_blames {h : Header} (row : Source) {shift : Nat} :
    ∀ {first : Nat} {node : Node} {nodes : List Node} {type : Message} {w : Walk}, node.Stands h first →
      w.column = first + shift → type.Provides w.scopes.number (node :: nodes) →
      Ends (fun _ => row.Fills shift [node]) (Blamed row shift (first + node.span) [node]) (read row type w node)
  | _, .skip _, _, _, _, _, _, _ => fills_leaf rfl
  | first, .value field optional, _, type, w, ⟨hfirst, _⟩, hcolumn, hprovides => by
      rw [read, bound_eq hprovides rfl]
      exact (convert_value_blames hfirst hcolumn).bind fun _ _ => fills_leaf rfl
  | first, .inline field, _, type, w, ⟨hfirst, _⟩, hcolumn, hprovides => by
      rw [read, bound_eq hprovides rfl, splitInline_eq_tokens]
      exact (readInline_blames (by rw [span]; omega) (List.Subset.refl _) rfl).bind fun _ _ => fills_leaf rfl
  | first, .values count max field optional, _, type, w, ⟨hfirst, _⟩, hcolumn, hprovides => by
      rw [read]
      apply (readCount_blames (by rw [span]; omega)).bind_of_eq
      intro copies hcopies _
      have hle := le_of_readCount hcopies
      show Ends _ _ (bound type (w.skip 1) field.name >>= _)
      rw [bound_eq (w := w.skip 1) hprovides rfl]
      refine (readCopies_blames ?_).bind fun _ _ => fills_leaf rfl
      rw [Walk.column_skip, span]
      omega
  | first, .struct head members, _, type, w, ⟨hfirst, _, htile⟩, hcolumn, hprovides => by
      rw [read, boundMessage_eq hprovides rfl rfl]
      have hmembers : Ends (fun _ => row.Fills shift members) (Blamed row shift (first + 1 + spans members) members)
          (readAll row ⟨head.typeName, fields 1 members⟩
            (w.number.enter (w.record.message w.scopes.number)) members) :=
        readAll_blames row htile (by show w.column + 1 = _; omega) (.of_fields head.typeName members)
      refine (hmembers.mono_error fun e he => he.struct ?_).bind fun _ hfills => hfills.struct
      rw [span]
      omega
  | first, .structs count max head members, _, type, w, ⟨hfirst, hpos, _, _, _, htile, _⟩, hcolumn, hprovides => by
      rw [span]
      refine read_structs_blames hfirst hpos hcolumn hprovides fun copy inner hnumber hinner => ?_
      have hprovides : Message.Provides ⟨head.typeName, fields 1 members⟩ inner.scopes.number members := by
        rw [hnumber]
        exact .of_fields head.typeName members
      have hblames := readAll_blames row htile hinner hprovides
      refine (hblames.and (ends_readAll htile)).mono ?_
      rintro w' ⟨hfills, hpasses⟩
      exact ⟨hpasses.column, hfills⟩

/-- A walk over constructs fails in one of their cells, or comes to their end having found the instances that it
needs. -/
theorem readAll_blames {h : Header} (row : Source) {shift : Nat} :
    ∀ {first last : Nat} {nodes : List Node} {type : Message} {w : Walk}, Tile h first last nodes →
      w.column = first + shift → type.Provides w.scopes.number nodes →
      Ends (fun _ => row.Fills shift nodes) (Blamed row shift last nodes) (readAll row type w nodes)
  | _, _, [], _, _, _, _, _ => fills_nil
  | first, last, node :: nodes, type, w, ⟨hnode, htile⟩, hcolumn, hprovides => by
      have hlast : first + node.span ≤ last := by have := htile.last_eq; omega
      have hread : Ends (fun _ => row.Fills shift [node]) (Blamed row shift last (node :: nodes))
          (read row type w node) :=
        (read_blames row hnode hcolumn hprovides).mono_error fun e he => he.mono (by simp) hlast
      rw [readAll]
      have hpasses : Ends (fun w' => w.Passes w' node.span node.fieldCount)
          (Fault type w.scopes.number (node :: nodes)) (read row type w node) := ends_read hnode
      refine (hread.and hpasses).bind ?_
      rintro w' ⟨hfills, hpasses⟩
      have hprovides := hprovides.tail
      rw [← hpasses.number] at hprovides
      have hrest : Ends (fun _ => row.Fills shift nodes) (Blamed row shift last nodes) (readAll row type w' nodes) :=
        readAll_blames row htile (by rw [hpasses.column]; omega) hprovides
      refine (hrest.mono_error fun e he => ?_).mono fun _ hrest => hfills.cons hrest
      exact he.mono (List.subset_cons_self node nodes) (Nat.le_refl last)

end

theorem blamed_of_toRecord {h : Header} {l : Layout} {record : String} {row : Source} {e : SheetError}
    (hlayout : Layout.ofHeader h = .ok l) (herror : toRecord row l (l.type record) = .error e) :
    Blamed row 0 l.columnCount l.nodes e := by
  obtain ⟨hcount, htile⟩ := Layout.tile_of_ofHeader hlayout
  have hread : Ends (fun _ => row.Fills 0 l.nodes) (Blamed row 0 h.columnCount l.nodes)
      (readAll row (l.type record) {} l.nodes) := readAll_blames row htile rfl (.of_fields record l.nodes)
  have haligned := ends_toRecord hlayout row (l.type record)
  rw [herror] at haligned
  rw [hcount]
  rw [toRecord] at herror
  cases hwalk : readAll row (l.type record) {} l.nodes with
  | error e' =>
      rw [hwalk] at hread herror
      cases herror
      exact hread
  | ok w =>
      -- Behind the walk only the column is checked, and the walk never ends in a wrong one.
      simp only [hwalk, bind, Except.bind] at herror
      by_cases hcolumn : w.column = l.span
      · simp [hcolumn, pure, Except.pure] at herror
      · simp only [ne_eq, hcolumn, not_false_eq_true, if_true] at herror
        cases herror
        exact absurd rfl (haligned .encode l.span w.column)

/-- A row whose record cannot be read names a cell for it. The cell of a text that cannot be converted is the right
one. The cell named for a repetition of required structs without an instance is that of the count in the header:
it asks for no instance exactly if the repetition that lacks one stands in the columns of its headings, not in a
later copy of a repetition around it. -/
theorem error_names_cell {h : Header} {l : Layout} {record : String} {options : SchemaOptions} {schema : Schema}
    (hlayout : Layout.ofHeader h = .ok l) (hschema : Schema.ofHeader h record options = .ok schema) (row : Source)
    {e : SheetError} (herror : toRecord row l schema.type = .error e) :
    (∀ cell fault, e = .conversion cell fault → ∃ column < l.columnCount, cell = row.cellName column
      ∧ (fault.text = row.cell column ∨ fault.text ∈ row.tokens column
        ∨ Text.isBlank (row.cell column) = true ∧ ∃ shift field optional,
            Occurs l.nodes shift (.value field optional) ∧ column = field.column + shift
              ∧ field.default? = some fault.text))
    ∧ ∀ cell field, e = .missingRepeat cell field → ∃ shift count max head members,
        Occurs l.nodes shift (.structs count max head members) ∧ head.required = true ∧ head.name = field
          ∧ count + shift < l.columnCount ∧ row.AsksNone (count + shift)
          ∧ cell = row.cellName count ∧ (row.AsksNone count ↔ shift = 0) := by
  rw [Schema.type_of_ofHeader hlayout hschema] at herror
  cases blamed_of_toRecord hlayout herror with
  | @text column fault hlast htext =>
      refine ⟨?_, nofun⟩
      rintro _ _ ⟨⟩
      rcases htext with htext | htext
      · exact ⟨column, hlast, rfl, .inl htext⟩
      · exact ⟨column, hlast, rfl, .inr (.inl htext)⟩
  | @default inner field optional fault hoccurs hlast hblank hdefault =>
      rw [Nat.zero_add] at hblank ⊢
      refine ⟨?_, nofun⟩
      rintro _ _ ⟨⟩
      exact ⟨field.column + inner, hlast, rfl, .inr (.inr ⟨hblank, inner, field, optional, hoccurs, rfl, hdefault⟩)⟩
  | @count inner count max head members hoccurs hrequired hlast hnone hfirst =>
      rw [Nat.zero_add] at hnone
      refine ⟨nofun, ?_⟩
      rintro _ _ ⟨⟩
      exact ⟨inner, count, max, head, members, hoccurs, hrequired, rfl, hlast, hnone, rfl, hfirst⟩

end Row

/-- A header of two parts with one tag each. -/
def taggedParts : Header :=
  ⟨[⟨"", "int32", "id"⟩, ⟨"", "2[]", ""⟩, ⟨"parts", "optional_struct 1", "Part"⟩, ⟨"", "1[]", ""⟩,
    ⟨"tags", "required_struct 1", "Tag"⟩, ⟨"", "string", "t"⟩, {}, {}, {}, {}]⟩

/-- A row of two parts, with the counts of their tags. -/
def partsRow (count count' : String) : Row.Source :=
  ⟨3, ["1", "2", "", count, "", "x", "", count', "", "y"], ⟨[]⟩⟩

theorem partsRow_names_cells :
    ∃ l schema, Layout.ofHeader taggedParts = .ok l ∧ Schema.ofHeader taggedParts "Item" {} = .ok schema
      ∧ (∃ column < l.columnCount, "H4" = (partsRow "1" "two").cellName column
        ∧ ("two" = (partsRow "1" "two").cell column ∨ "two" ∈ (partsRow "1" "two").tokens column
          ∨ Text.isBlank ((partsRow "1" "two").cell column) = true ∧ ∃ shift field optional,
              Node.Occurs l.nodes shift (.value field optional) ∧ column = field.column + shift
                ∧ field.default? = some "two"))
      ∧ ∃ shift count max head members, Node.Occurs l.nodes shift (.structs count max head members)
        ∧ head.required = true ∧ head.name = "tags" ∧ count + shift < l.columnCount
        ∧ (partsRow "" "1").AsksNone (count + shift) ∧ "D4" = (partsRow "" "1").cellName count
        ∧ ((partsRow "" "1").AsksNone count ↔ shift = 0) := by
  have hread : ((Layout.ofHeader taggedParts).toOption.bind fun l =>
      (Schema.ofHeader taggedParts "Item" {}).toOption.map fun schema =>
        (error? (Row.toRecord (partsRow "1" "two") l schema.type),
          error? (Row.toRecord (partsRow "" "1") l schema.type)))
      = some (some (.conversion "H4" ⟨.repeatCount, "two", .notCount⟩), some (.missingRepeat "D4" "tags")) := by
    decide +kernel
  obtain ⟨l, hlayout, hread⟩ := Option.bind_eq_some_iff.1 hread
  obtain ⟨schema, hschema, herrors⟩ := Option.map_eq_some_iff.1 hread
  have hlayout := toOption_eq_some.1 hlayout
  have hschema := toOption_eq_some.1 hschema
  obtain ⟨hconversion, hmissing⟩ := Prod.mk.inj herrors
  obtain ⟨htext, -⟩ := Row.error_names_cell hlayout hschema (partsRow "1" "two") (error?_eq_some.1 hconversion)
  obtain ⟨-, hcount⟩ := Row.error_names_cell hlayout hschema (partsRow "" "1") (error?_eq_some.1 hmissing)
  exact ⟨l, schema, hlayout, hschema, htext _ _ rfl, hcount _ _ rfl⟩

/-- The second part lacks a tag, and the count of the first one is named for it, which asks for one. -/
theorem partsRow_names_count_of_first_part :
    ∃ l schema, Layout.ofHeader taggedParts = .ok l ∧ Schema.ofHeader taggedParts "Item" {} = .ok schema
      ∧ Row.toRecord (partsRow "1" "") l schema.type = .error (.missingRepeat "D4" "tags")
      ∧ ∀ column < l.columnCount, (partsRow "1" "").cellName column = "D4" → ¬(partsRow "1" "").AsksNone column := by
  have hread : ((Layout.ofHeader taggedParts).toOption.bind fun l =>
      (Schema.ofHeader taggedParts "Item" {}).toOption.map fun schema =>
        (l.columnCount, error? (Row.toRecord (partsRow "1" "") l schema.type)))
      = some (10, some (.missingRepeat "D4" "tags")) := by decide +kernel
  have hcells : ∀ column < 10, (partsRow "1" "").cellName column = "D4" → ¬(partsRow "1" "").AsksNone column := by
    decide +kernel
  obtain ⟨l, hlayout, hread⟩ := Option.bind_eq_some_iff.1 hread
  obtain ⟨schema, hschema, herror⟩ := Option.map_eq_some_iff.1 hread
  obtain ⟨hcount, herror⟩ := Prod.mk.inj herror
  exact ⟨l, schema, toOption_eq_some.1 hlayout, toOption_eq_some.1 hschema, error?_eq_some.1 herror, hcount ▸ hcells⟩

end SheetCompiler

import SheetCompiler.Proofs.Rows.Walk
import SheetCompiler.Proofs.Schema.Fields

/-!
# How a walk over a row fails

Whatever a row holds and whatever type it is read with, a walk that comes to the end of constructs has moved on by
their columns, has used up their numbers and has left the enclosing scopes alone. One that does not come to the end
fails in a cell, unless the type does not provide the fields of the constructs.
-/

namespace SheetCompiler

/-- Whether an error lies in the cells of a row: a text cannot be converted, or a repetition that needs an instance
has none. -/
def SheetError.InCells : SheetError → Prop
  | .conversion .. | .missingRepeat .. => True
  | _ => False

theorem SheetError.inCells_iff {e : SheetError} :
    e.InCells ↔ (∃ cell fault, e = .conversion cell fault) ∨ ∃ cell field, e = .missingRepeat cell field := by
  cases e <;> simp [InCells]

namespace Row

/-- How a walk over constructs can fail. -/
inductive Fault (type : Message) (number : Nat) (nodes : List Node) : SheetError → Prop
  | cell {e : SheetError} (h : e.InCells) : Fault type number nodes e
  | type {fault : Mismatch} (h : ¬type.Provides number nodes) : Fault type number nodes (.mismatch fault)

theorem Fault.imp {type type' : Message} {number number' : Nat} {nodes nodes' : List Node} {e : SheetError}
    (h : Fault type number nodes e) (hprovides : type'.Provides number' nodes' → type.Provides number nodes) :
    Fault type' number' nodes' e := by
  cases h with
  | cell h => exact .cell h
  | type h => exact .type fun h' => h (hprovides h')

/-- What a walk does besides filling its record. -/
structure Walk.Passes (w w' : Walk) (columns numbers : Nat) : Prop where
  column : w'.column = w.column + columns
  number : w'.scopes.number = w.scopes.number + numbers
  outer : w'.scopes.outer = w.scopes.outer

namespace Walk

variable {w w' w'' inner : Walk} {columns columns' numbers numbers' : Nat}

theorem Passes.trans (h : w.Passes w' columns numbers) (h' : w'.Passes w'' columns' numbers') :
    w.Passes w'' (columns + columns') (numbers + numbers') where
  column := by rw [h'.column, h.column, Nat.add_assoc]
  number := by rw [h'.number, h.number, Nat.add_assoc]
  outer := h'.outer.trans h.outer

theorem skip_passes (w : Walk) (columns : Nat) : w.Passes (w.skip columns) columns 0 := ⟨rfl, rfl, rfl⟩

theorem number_passes (w : Walk) : w.Passes w.number 0 1 := ⟨rfl, rfl, rfl⟩

theorem append_passes (w : Walk) (number : Nat) (v : Option Value) : w.Passes (w.append number v) 0 0 := by
  cases v <;> exact ⟨rfl, rfl, rfl⟩

theorem settle_passes (w : Walk) (count number : Nat) : w.Passes (w.settle count number) 0 0 := by
  rw [settle]
  split <;> exact ⟨rfl, rfl, rfl⟩

theorem leave_passes {sub : Record} (put : Record → Record → Record) (h : (w.enter sub).Passes inner columns numbers) :
    w.Passes (w.leave inner put) (1 + columns) 0 := by
  have hpop : inner.scopes.pop = w.scopes := Scopes.pop_eq h.outer
  refine ⟨?_, congrArg Scopes.number hpop, congrArg Scopes.outer hpop⟩
  change inner.column = _
  rw [h.column, ← Nat.add_assoc]
  rfl

end Walk

/-! ### Cells -/

variable {row : Source} {type : Message} {w : Walk}

theorem ends_convert (column : Nat) (t : ValueType) (default? : Option String) (text : String) :
    Ends (fun _ => True) SheetError.InCells (convert row column t default? text) :=
  Ends.mapError (fun _ _ => trivial) fun _ => trivial

/-- A repetition never reads more copies than it has. -/
theorem ends_readCount (row : Source) (max : Nat) (w : Walk) :
    Ends (fun count => count ≤ max) SheetError.InCells (readCount row max w) := by
  have hcount : Ends (fun _ => True) SheetError.InCells
      ((Conversion.count (row.cell w.column)).mapError (.conversion (row.cellName w.column))) :=
    Ends.mapError (fun _ _ => trivial) fun _ => trivial
  exact hcount.bind fun _ _ => Nat.min_le_right _ _

theorem le_of_readCount {count max : Nat} (h : readCount row max w = .ok count) : count ≤ max :=
  (h ▸ ends_readCount row max w : Ends (· ≤ max) SheetError.InCells (.ok count)).of_ok

theorem ends_readInline (t : ValueType) (number : Nat) (tokens : List String) :
    Ends (fun w' => w.Passes w' 0 0) SheetError.InCells (readInline row t number w tokens) := by
  induction tokens generalizing w with
  | nil => exact ⟨rfl, rfl, rfl⟩
  | cons token tokens ih =>
      refine (ends_convert w.column t none token).bind fun v _ => ?_
      exact ih.mono fun w' hw' => (w.append_passes number v).trans hw'

theorem ends_readCopies (t : ValueType) (number count : Nat) :
    Ends (fun w' => w.Passes w' count 0) SheetError.InCells (readCopies row t number count w) := by
  have hstep : ∀ i (s : Walk), w.Passes s i 0 →
      Ends (fun s' => w.Passes s' (i + 1) 0) SheetError.InCells (readCell row t number s) := by
    intro i s hs
    refine (ends_convert s.column t none _).bind fun v _ => ?_
    have hcell := hs.trans ((s.append_passes number v).trans (Walk.skip_passes _ 1))
    rwa [Nat.zero_add] at hcell
  have hstart : w.Passes w 0 0 := ⟨rfl, rfl, rfl⟩
  exact Ends.iterateM (fun i s => w.Passes s i 0) (fun i s _ => hstep i s) hstart

/-! ### Fields -/

section Fields

variable {node : Node} {nodes : List Node}

theorem bound_eq {field : Field} (h : type.Provides w.scopes.number (node :: nodes))
    (hfield : node.field? w.scopes.number = some field) : bound type w field.name = .ok field := by
  rw [bound, h.field?_eq hfield, Option.filter_some, if_pos (beq_self_eq_true field.name)]

theorem boundMessage_eq {nested : Message} {field : Field} (h : type.Provides w.scopes.number (node :: nodes))
    (hfield : node.field? w.scopes.number = some field) (hnested : field.message? = some nested) :
    boundMessage type w field.name = .ok nested := by
  rw [boundMessage, bound_eq h hfield]
  simp only [bind, Except.bind, hnested]

theorem ends_bound {label : Label} {name : String} {kind : FieldKind}
    (hfield : node.field? w.scopes.number = some ⟨w.scopes.number, name, label, kind⟩) :
    Ends (fun _ => True) (Fault type w.scopes.number (node :: nodes)) (bound type w name) := by
  by_cases hprovides : type.Provides w.scopes.number (node :: nodes)
  · have hbound : bound type w name = .ok ⟨w.scopes.number, name, label, kind⟩ := bound_eq hprovides hfield
    rw [hbound]
    trivial
  · rw [bound]
    split
    · trivial
    · exact .type hprovides

/-- The message type of a struct provides its members if the type around it provides the struct. -/
theorem ends_boundMessage {label : Label} {name typeName : String} {members : List Node}
    (hfield : node.field? w.scopes.number
      = some ⟨w.scopes.number, name, label, .message ⟨typeName, Node.fields 1 members⟩⟩) :
    Ends (fun nested => type.Provides w.scopes.number (node :: nodes) → nested.Provides 1 members)
      (Fault type w.scopes.number (node :: nodes)) (boundMessage type w name) := by
  by_cases hprovides : type.Provides w.scopes.number (node :: nodes)
  · have hbound : boundMessage type w name = .ok ⟨typeName, Node.fields 1 members⟩ :=
      boundMessage_eq hprovides hfield rfl
    rw [hbound]
    exact fun _ => .of_fields typeName members
  · refine (ends_bound hfield).bind fun found _ => ?_
    split
    · exact fun h => absurd h hprovides
    · exact .type hprovides

end Fields

/-! ### Constructs -/

/-- What the walk over the members of a struct comes to, whatever type it is held against. -/
def WalksMembers (row : Source) (members : List Node) : Prop :=
  ∀ (nested : Message) (w : Walk), w.scopes.number = 1 →
    Ends (fun w' => w.Passes w' (Node.spans members) (Node.fields 1 members).length) (Fault nested 1 members)
      (readAll row nested w members)

section Structs

variable {head : StructColumn} {members nodes : List Node} (hmembers : WalksMembers row members)
include hmembers

theorem ends_read_struct :
    Ends (fun w' => w.Passes w' (1 + Node.spans members) 1) (Fault type w.scopes.number (.struct head members :: nodes))
      (read row type w (.struct head members)) := by
  have hbound : Ends (fun nested => type.Provides w.scopes.number (.struct head members :: nodes) →
      nested.Provides 1 members) (Fault type w.scopes.number (.struct head members :: nodes))
      (boundMessage type w head.name) := ends_boundMessage rfl
  rw [read]
  refine hbound.bind fun nested hnested => ?_
  have hinner := (hmembers nested (w.number.enter (w.record.message w.scopes.number)) rfl).mono_error
    fun _ he => he.imp hnested
  refine hinner.bind fun inner hinner => ?_
  have hpasses (put : Record → Record → Record) := w.number_passes.trans (Walk.leave_passes put hinner)
  rw [Nat.zero_add] at hpasses
  exact hpasses _

theorem ends_readCopy (nested : Message) (number : Nat) (w : Walk) :
    Ends (fun w' => w.Passes w' (1 + Node.spans members) 0) (Fault nested 1 members)
      (readCopy row nested number members w) :=
  (hmembers nested (w.enter .empty) rfl).bind fun _ hinner => Walk.leave_passes _ hinner

/-- A repetition of structs ends behind all its copies, with those that are not used. -/
theorem ends_read_structs {count max : Nat} (hpos : 0 < max) :
    Ends (fun w' => w.Passes w' (max * (1 + Node.spans members) + 1) 1)
      (Fault type w.scopes.number (.structs count max head members :: nodes))
      (read row type w (.structs count max head members)) := by
  have hbound : Ends (fun nested => type.Provides w.scopes.number (.structs count max head members :: nodes) →
      nested.Provides 1 members) (Fault type w.scopes.number (.structs count max head members :: nodes))
      (boundMessage type (w.skip 1) head.name) := ends_boundMessage rfl
  rw [read_structs]
  refine ((ends_readCount row max w).mono_error fun _ => .cell).bind fun copies hcopies => ?_
  refine hbound.bind fun nested hnested => ?_
  split
  · exact .cell trivial
  · have hcopy : ∀ i (s : Walk), w.Passes s (1 + i * (1 + Node.spans members)) 1 →
        Ends (fun s' => w.Passes s' (1 + (i + 1) * (1 + Node.spans members)) 1)
          (Fault type w.scopes.number (.structs count max head members :: nodes))
          (readCopy row nested w.scopes.number members s) := by
      intro i s hs
      have hcopy := (ends_readCopy hmembers nested w.scopes.number s).mono_error fun _ he => he.imp hnested
      refine hcopy.mono fun s' hs' => ?_
      have hpasses := hs.trans hs'
      rwa [Nat.add_assoc, ← Nat.succ_mul] at hpasses
    have hstart : w.Passes (w.skip 1).number (1 + 0 * (1 + Node.spans members)) 1 := by
      rw [Nat.zero_mul]
      exact (w.skip_passes 1).trans (Walk.number_passes _)
    refine (Ends.iterateM _ (fun i s _ => hcopy i s) hstart).bind fun w' hw' => ?_
    have hused : Nat.max copies 1 ≤ max := Nat.max_le.2 ⟨hcopies, hpos⟩
    have hpasses := hw'.trans ((w'.settle_passes copies w.scopes.number).trans
      (Walk.skip_passes _ ((max - Nat.max copies 1) * (1 + Node.spans members))))
    -- The copies that are walked and those that are passed over are all of them.
    have hcolumns : 1 + Nat.max copies 1 * (1 + Node.spans members)
        + (0 + (max - Nat.max copies 1) * (1 + Node.spans members)) = max * (1 + Node.spans members) + 1 := by
      rw [Nat.zero_add, Nat.add_assoc, ← Nat.add_mul, Nat.add_sub_cancel' hused, Nat.add_comm]
    rwa [hcolumns] at hpasses

end Structs

open Node in
mutual

theorem ends_read {h : Header} {row : Source} {nodes : List Node} :
    ∀ {first : Nat} {node : Node} {type : Message} {w : Walk}, node.Stands h first →
      Ends (fun w' => w.Passes w' node.span node.fieldCount) (Fault type w.scopes.number (node :: nodes))
        (read row type w node)
  | _, .skip _, _, w, _ => w.skip_passes 1
  | _, .value field optional, type, w, _ => by
      have hbound : Ends (fun _ => True) (Fault type w.scopes.number (.value field optional :: nodes))
          (bound type w field.name) := ends_bound rfl
      refine hbound.bind fun _ _ => ?_
      refine ((ends_convert w.column field.type field.default? _).mono_error fun _ => .cell).bind fun v _ => ?_
      exact ⟨congrArg (· + 1) (w.column_set w.scopes.number v), rfl, rfl⟩
  | _, .inline field, type, w, _ => by
      have hbound : Ends (fun _ => True) (Fault type w.scopes.number (.inline field :: nodes))
          (bound type w field.name) := ends_bound rfl
      refine hbound.bind fun _ _ => ?_
      refine ((ends_readInline field.type w.scopes.number _).mono_error fun _ => .cell).bind fun w' hw' => ?_
      exact hw'.trans ((Walk.skip_passes _ 1).trans (Walk.number_passes _))
  | _, .values count max field optional, type, w, _ => by
      have hbound : Ends (fun _ => True) (Fault type w.scopes.number (.values count max field optional :: nodes))
          (bound type (w.skip 1) field.name) := ends_bound rfl
      refine ((ends_readCount row max w).mono_error fun _ => .cell).bind fun copies hcopies => ?_
      refine hbound.bind fun _ _ => ?_
      refine ((ends_readCopies field.type _ copies).mono_error fun _ => .cell).bind fun w' hw' => ?_
      have hpasses := ((w.skip_passes 1).trans hw').trans
        ((Walk.skip_passes _ (max - copies)).trans (Walk.number_passes _))
      rwa [show 1 + copies + (max - copies + 0) = max + 1 by omega] at hpasses
  | _, .struct _ members, _, _, ⟨_, _, htile⟩ =>
      ends_read_struct fun _ w hw => hw ▸ ends_readAll htile
  | _, .structs .., _, _, ⟨_, hpos, _, _, _, htile, _⟩ =>
      ends_read_structs (fun _ w hw => hw ▸ ends_readAll htile) hpos

/-- A walk over constructs side by side ends behind all of them. -/
theorem ends_readAll {h : Header} {row : Source} :
    ∀ {first last : Nat} {nodes : List Node} {type : Message} {w : Walk}, Tile h first last nodes →
      Ends (fun w' => w.Passes w' (spans nodes) (fields w.scopes.number nodes).length)
        (Fault type w.scopes.number nodes) (readAll row type w nodes)
  | _, _, [], _, _, _ => ⟨rfl, rfl, rfl⟩
  | _, _, node :: nodes, type, w, ⟨hnode, htile⟩ => by
      refine (ends_read hnode).bind fun w' hw' => ?_
      have hrest : Ends (fun w'' => w'.Passes w'' (spans nodes) (fields w'.scopes.number nodes).length)
          (Fault type w'.scopes.number nodes) (readAll row type w' nodes) := ends_readAll htile
      rw [hw'.number] at hrest
      refine (hrest.mono_error fun e he => he.imp Message.Provides.tail).mono fun w'' hw'' => ?_
      rw [fields, List.length_append, length_field?]
      exact hw'.trans hw''

end

/-- The walk over a whole row is aligned, so it fails in a cell or for the type it is held against. -/
theorem ends_toRecord_fault {h : Header} {l : Layout} (hlayout : Layout.ofHeader h = .ok l) (row : Source)
    (type : Message) : Ends (fun _ => True) (Fault type 1 l.nodes) (toRecord row l type) := by
  refine (ends_readAll (w := {}) (Layout.tile_of_ofHeader hlayout).2).bind fun w hw => ?_
  have haligned : w.column = l.span := by
    rw [hw.column, Layout.span]
    exact Nat.zero_add _
  simp only [haligned, ne_eq, not_true_eq_false, if_false]
  trivial

end Row

end SheetCompiler

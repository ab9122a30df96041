import SheetCompiler.Proofs.Layout.Tiling
import SheetCompiler.Schema

/-!
# The fields of a layout

Which fields a message has can be read off the constructs in it, without a column, a counter or a scope:
every construct that is not left out declares one field, and the fields are numbered from one on in the
order of the columns. `declareAll_spec` says that the schema pass comes to the same fields, that it ends
behind the columns of the constructs, and that it leaves the enclosing scopes alone.
-/

namespace SheetCompiler

namespace Node

/-- The number of fields that a construct declares in its message. -/
def fieldCount : Node → Nat
  | .skip _ => 0
  | _ => 1

mutual

/-- The field that a construct declares under a number. -/
def field? (number : Nat) : Node → Option Field
  | .skip _ => none
  | .value column optional =>
      some ⟨number, column.name, if optional then .optional else .implicit, .value column.type⟩
  | .inline column | .values _ _ column _ => some ⟨number, column.name, .repeated, .value column.type⟩
  | .struct head members =>
      some ⟨number, head.name, .implicit, .message ⟨head.typeName, fields 1 members⟩⟩
  | .structs _ _ head members =>
      some ⟨number, head.name, .repeated, .message ⟨head.typeName, fields 1 members⟩⟩

/-- The fields that constructs declare side by side, numbered from `number` on. -/
def fields (number : Nat) : List Node → List Field
  | [] => []
  | node :: nodes => (node.field? number).toList ++ fields (number + node.fieldCount) nodes

end

theorem length_field? (number : Nat) (node : Node) : (node.field? number).toList.length = node.fieldCount := by
  cases node <;> rfl

end Node

namespace Message

/-- Whether the fields of a type from a number on are those that constructs declare. -/
def Provides (type : Message) (number : Nat) (nodes : List Node) : Prop :=
  ∃ earlier, type.fields = earlier ++ Node.fields number nodes ∧ ∀ field ∈ earlier, field.number < number

end Message

theorem Node.number_of_field? {number : Nat} {node : Node} {field : Field} (h : node.field? number = some field) :
    field.number = number := by
  cases node <;> simp only [field?, Option.some.injEq, reduceCtorEq] at h <;> exact h ▸ rfl

namespace Message.Provides

variable {type : Message} {number : Nat} {node : Node} {nodes : List Node}

theorem of_fields (name : String) (nodes : List Node) : Provides ⟨name, Node.fields 1 nodes⟩ 1 nodes :=
  ⟨[], rfl, fun _ h => absurd h List.not_mem_nil⟩

theorem field?_eq {field : Field} (h : type.Provides number (node :: nodes))
    (hfield : node.field? number = some field) : type.field? number = some field := by
  obtain ⟨earlier, hfields, hearlier⟩ := h
  have hskipped : earlier.find? (·.number == number) = none :=
    List.find?_eq_none.2 fun f hf => by simpa using Nat.ne_of_lt (hearlier f hf)
  rw [Message.field?, hfields, List.find?_append, hskipped, Node.fields, hfield]
  simp [Node.number_of_field? hfield]

theorem tail (h : type.Provides number (node :: nodes)) : type.Provides (number + node.fieldCount) nodes := by
  obtain ⟨earlier, hfields, hearlier⟩ := h
  refine ⟨earlier ++ (node.field? number).toList, by rw [hfields, Node.fields, List.append_assoc], ?_⟩
  intro field hfield
  rcases List.mem_append.1 hfield with hfield | hfield
  · exact Nat.lt_of_lt_of_le (hearlier field hfield) (Nat.le_add_right _ _)
  · have hsome := Option.mem_toList.1 hfield
    have hcount : node.fieldCount = 1 := by
      cases node <;> first | rfl | cases hsome
    rw [Node.number_of_field? hsome, hcount]
    exact Nat.lt_succ_self _

end Message.Provides

/-- The message type of a record whose columns are laid out like this. -/
def Layout.type (l : Layout) (record : String) : Message := ⟨record, Node.fields 1 l.nodes⟩

namespace Scopes

/-- The scopes after fields have been given their numbers. -/
def advanceBy (s : Scopes) (numbers : Nat) : Scopes := { s with inner.next := s.inner.next + numbers }

theorem advanceBy_advanceBy (s : Scopes) (numbers more : Nat) :
    (s.advanceBy numbers).advanceBy more = s.advanceBy (numbers + more) := by
  rw [advanceBy, advanceBy, advanceBy, Nat.add_assoc]

/-- Leaving a message returns to the scopes that it was entered from. -/
theorem pop_eq {s t : Scopes} (h : s.outer = t.push.outer) : s.pop = t := by
  obtain ⟨inner, outer⟩ := s
  cases h
  rfl

theorem declare?_spec {s s' : Scopes} {type : Message} (h : s.declare? type = some s') :
    s'.number = s.number ∧ s'.outer = s.outer := by
  rw [declare?] at h
  split at h
  · cases h
  · cases h
    exact ⟨rfl, rfl⟩

end Scopes

namespace Schema

/-- What a walk does to a draft besides writing: it moves on by some columns, uses up some numbers of the
current scope, and leaves the enclosing scopes alone. -/
structure Draft.Passes (d d' : Draft) (columns numbers : Nat) : Prop where
  column : d'.column = d.column + columns
  number : d'.scopes.number = d.scopes.number + numbers
  outer : d'.scopes.outer = d.scopes.outer

namespace Draft

@[simp] theorem column_skip (d : Draft) (columns : Nat) : (d.skip columns).column = d.column + columns := rfl

@[simp] theorem column_enter (d : Draft) : d.enter.column = d.column + 1 := rfl

theorem skip_passes (d : Draft) (columns : Nat) : d.Passes (d.skip columns) columns 0 := ⟨rfl, rfl, rfl⟩

theorem field_passes (d : Draft) (depth : Nat) (column : ValueColumn) (label : Label) :
    d.Passes (d.field depth column label).1 0 1 :=
  ⟨rfl, rfl, rfl⟩

theorem Passes.trans {d d' d'' : Draft} {columns numbers columns' numbers' : Nat}
    (h : d.Passes d' columns numbers) (h' : d'.Passes d'' columns' numbers') :
    d.Passes d'' (columns + columns') (numbers + numbers') where
  column := by rw [h'.column, h.column, Nat.add_assoc]
  number := by rw [h'.number, h.number, Nat.add_assoc]
  outer := h'.outer.trans h.outer

/-- Leaving a struct declares the field that holds it, and goes on where the walk of its members ended. -/
theorem leave_spec {d inner d' : Draft} {depth columns numbers : Nat} {head : StructColumn} {label : Label}
    {fields : List Field} {field : Field} (hinner : d.enter.Passes inner columns numbers)
    (h : d.leave inner depth head label fields = .ok (d', field)) :
    field = ⟨d.scopes.number, head.name, label, .message ⟨head.typeName, fields⟩⟩
      ∧ d.Passes d' (1 + columns) 1 := by
  have hpop : inner.scopes.pop = d.scopes.advance := Scopes.pop_eq hinner.outer
  have hcolumn : inner.column = d.column + (1 + columns) := by
    rw [hinner.column, column_enter]
    omega
  simp only [leave, hpop] at h
  split at h
  · next scopes hdeclare =>
    obtain ⟨hnumber, houter⟩ := Scopes.declare?_spec hdeclare
    cases h
    exact ⟨rfl, hcolumn, hnumber, houter⟩
  · split at h
    · cases h
      exact ⟨rfl, hcolumn, rfl, rfl⟩
    · cases h

end Draft

open Node in
mutual

theorem declare_spec {h : Header} {first depth : Nat} {d d' : Draft} {field : Option Field} :
    ∀ {node : Node}, node.Stands h first → declare depth d node = .ok (d', field) →
      field = node.field? d.scopes.number ∧ d.Passes d' node.span node.fieldCount
  | .skip _, _, hdeclare => by
      cases hdeclare
      exact ⟨rfl, rfl, rfl, rfl⟩
  | .value column optional, _, hdeclare => by
      cases hdeclare
      exact ⟨rfl, (d.field_passes depth column _).trans (Draft.skip_passes _ 1)⟩
  | .inline column, _, hdeclare => by
      cases hdeclare
      exact ⟨rfl, (d.field_passes depth column _).trans (Draft.skip_passes _ 1)⟩
  | .values _ max column _, _, hdeclare => by
      cases hdeclare
      have hpasses := (d.skip_passes 1).trans
        (((d.skip 1).field_passes depth column .repeated).trans (Draft.skip_passes _ max))
      rw [show 1 + (0 + max) = max + 1 by omega] at hpasses
      exact ⟨rfl, hpasses⟩
  | .struct head members, ⟨_, _, htile⟩, hdeclare => by
      obtain ⟨⟨inner, fields⟩, hmembers, hdeclare⟩ := bind_eq_ok.1 hdeclare
      obtain ⟨⟨_, _⟩, hleave, hdeclare⟩ := bind_eq_ok.1 hdeclare
      cases hdeclare
      obtain ⟨rfl, hinner⟩ := declareAll_spec htile hmembers
      obtain ⟨rfl, hpasses⟩ := Draft.leave_spec hinner hleave
      exact ⟨rfl, hpasses⟩
  | .structs _ max head members, ⟨_, hpos, _, _, _, htile, _⟩, hdeclare => by
      obtain ⟨⟨inner, fields⟩, hmembers, hdeclare⟩ := bind_eq_ok.1 hdeclare
      obtain ⟨⟨d₁, _⟩, hleave, hdeclare⟩ := bind_eq_ok.1 hdeclare
      cases hdeclare
      obtain ⟨rfl, hinner⟩ := declareAll_spec htile hmembers
      obtain ⟨rfl, hpasses⟩ := Draft.leave_spec hinner hleave
      have hall := (d.skip_passes 1).trans
        (hpasses.trans (Draft.skip_passes _ ((max - 1) * (1 + spans members))))
      rw [first_add_others hpos, Nat.add_comm 1 (max * _)] at hall
      exact ⟨rfl, hall⟩

/-- The schema pass finds the fields that can be read off the constructs, ends behind their columns and
leaves the enclosing scopes alone. -/
theorem declareAll_spec {h : Header} {first last depth : Nat} {d d' : Draft} {declared : List Field} :
    ∀ {nodes : List Node}, Tile h first last nodes → declareAll depth d nodes = .ok (d', declared) →
      declared = fields d.scopes.number nodes ∧ d.Passes d' (spans nodes) declared.length
  | [], _, hdeclare => by
      cases hdeclare
      exact ⟨rfl, rfl, rfl, rfl⟩
  | node :: nodes, ⟨hnode, htile⟩, hdeclare => by
      obtain ⟨⟨d₁, field⟩, hdeclare₁, hdeclare⟩ := bind_eq_ok.1 hdeclare
      obtain ⟨⟨d₂, rest⟩, hdeclare₂, hdeclare⟩ := bind_eq_ok.1 hdeclare
      cases hdeclare
      obtain ⟨rfl, hpasses₁⟩ := declare_spec hnode hdeclare₁
      obtain ⟨rfl, hpasses₂⟩ := declareAll_spec htile hdeclare₂
      rw [List.length_append, length_field?]
      exact ⟨by rw [fields, hpasses₁.number], hpasses₁.trans hpasses₂⟩

end

/-- The schema of a sheet whose columns are laid out: it fails only where the pass over them does, and its
message type is the one that can be read off the layout. -/
theorem ofHeader_eq {h : Header} {l : Layout} (hlayout : Layout.ofHeader h = .ok l) (record : String)
    (options : SchemaOptions) :
    ofHeader h record options = match declareAll 1 {} l.nodes with
      | .error e => .error (.malformed e)
      | .ok (d, _) =>
          let fileName := fileNameOf record options.extension
          .ok ⟨fileName, Text.unlines (preamble options fileName l.usesEnums ++ block 0 record d.lines ++ [""]
            ++ arrayBlock record), l.type record, l.usesEnums⟩ := by
  rw [ofHeader, hlayout]
  cases hdeclare : declareAll 1 {} l.nodes with
  | error e =>
      change (declareAll 1 {} l.nodes).mapError SheetError.malformed >>= _ = _
      rw [hdeclare]
      rfl
  | ok r =>
      obtain ⟨d, declared⟩ := r
      obtain ⟨hfields, hpasses⟩ := declareAll_spec (Layout.tile_of_ofHeader hlayout).2 hdeclare
      change (declareAll 1 {} l.nodes).mapError SheetError.malformed >>= _ = _
      have haligned : d.column = l.span := by
        rw [hpasses.column, Layout.span]
        exact Nat.zero_add _
      rw [hdeclare]
      change (if d.column ≠ l.span then _ else _) = _
      rw [if_neg (not_not_intro haligned), hfields]
      rfl

theorem layout_of_ofHeader {h : Header} {record : String} {options : SchemaOptions} {schema : Schema}
    (hschema : ofHeader h record options = .ok schema) : ∃ l, Layout.ofHeader h = .ok l := by
  obtain ⟨l, hlayout, -⟩ := bind_eq_ok.1 hschema
  exact ⟨l, mapError_eq_ok.1 hlayout⟩

theorem type_of_ofHeader {h : Header} {l : Layout} {record : String} {options : SchemaOptions} {schema : Schema}
    (hlayout : Layout.ofHeader h = .ok l) (hschema : ofHeader h record options = .ok schema) :
    schema.type = l.type record := by
  rw [ofHeader_eq hlayout] at hschema
  split at hschema
  · cases hschema
  · cases hschema
    rfl

theorem fileName_of_ofHeader {h : Header} {record : String} {options : SchemaOptions} {schema : Schema}
    (hschema : ofHeader h record options = .ok schema) : schema.fileName = fileNameOf record options.extension := by
  obtain ⟨l, hlayout⟩ := layout_of_ofHeader hschema
  rw [ofHeader_eq hlayout] at hschema
  split at hschema
  · cases hschema
  · cases hschema
    rfl

end Schema

end SheetCompiler

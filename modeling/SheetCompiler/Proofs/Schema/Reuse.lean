import SheetCompiler.Proofs.Layout.Scopes

/-!
# Struct types that are used again

A message declares a struct type once, whatever the number of its structs of that type, so the structs of one
type name in a scope have to come out as the same type. That is all that the schema pass checks: it succeeds
exactly if it holds in every scope, and fails at a struct that another one in front of it, in its own scope,
contradicts. What a name stands for in one scope says nothing about any other.
-/

namespace SheetCompiler

/-- Whether types of one name are the same. -/
def Message.Uniform (types : List Message) : Prop :=
  ∀ type ∈ types, ∀ other ∈ types, type.name = other.name → type = other

/-- The message types inside a message type, at every depth. -/
inductive Message.Contains (type : Message) : Message → Prop
  | self : Contains type type
  | inside {outer inner : Message} {field : Field} (houter : Contains type outer) (hfield : field ∈ outer.fields)
      (hinner : field.message? = some inner) : Contains type inner

/-- The fault of a struct whose type name has been declared with other fields. -/
def StructColumn.conflict (head : StructColumn) : Malformed :=
  ⟨head.column, head.typeName, .conflictingStruct head.typeName⟩

namespace Node

def structType? (node : Node) : Option Message :=
  node.struct?.map fun (head, members) => ⟨head.typeName, fields 1 members⟩

/-- The message types of the structs in a scope, one for each of them. -/
def structTypes (nodes : List Node) : List Message := nodes.filterMap structType?

/-- Whether the structs of one type name have the same type, in every scope. -/
def Consistent (nodes : List Node) : Prop := ∀ scope, IsScope nodes scope → Message.Uniform (structTypes scope)

/-- Whether this struct, in some scope, has another type than one of its type name in front of it. -/
def Conflicts (nodes : List Node) (head : StructColumn) : Prop :=
  ∃ before node after members, IsScope nodes (before ++ node :: after) ∧ node.struct? = some (head, members)
    ∧ ∃ earlier ∈ structTypes before, earlier.name = head.typeName ∧ earlier ≠ ⟨head.typeName, fields 1 members⟩

/-- Whether a fault is that of a conflicting struct. -/
def Faults (nodes : List Node) (e : Malformed) : Prop := ∃ head, Conflicts nodes head ∧ e = head.conflict

theorem structType?_eq {node : Node} {head : StructColumn} {members : List Node}
    (hstruct : node.struct? = some (head, members)) : node.structType? = some ⟨head.typeName, fields 1 members⟩ := by
  rw [structType?, hstruct]
  rfl

theorem structTypes_append (nodes more : List Node) :
    structTypes (nodes ++ more) = structTypes nodes ++ structTypes more :=
  List.filterMap_append ..

theorem structTypes_singleton (node : Node) : structTypes [node] = node.structType?.toList := by
  cases hstruct : node.structType? <;> simp [structTypes, hstruct]

theorem consistent_iff {nodes : List Node} :
    Consistent nodes ↔ Message.Uniform (structTypes nodes)
      ∧ ∀ node ∈ nodes, ∀ head members, node.struct? = some (head, members) → Consistent members := by
  constructor
  · intro h
    refine ⟨h nodes .self, fun node hnode head members hstruct scope hscope => ?_⟩
    exact h scope ((IsScope.inside .self hnode hstruct).trans hscope)
  · rintro ⟨huniform, hinside⟩ scope hscope
    rcases isScope_iff.1 hscope with rfl | ⟨node, hnode, head, members, hstruct, hscope⟩
    · exact huniform
    · exact hinside node hnode head members hstruct scope hscope

theorem Conflicts.not_consistent {nodes : List Node} {head : StructColumn} (h : Conflicts nodes head) :
    ¬Consistent nodes := by
  obtain ⟨before, node, after, members, hscope, hstruct, earlier, hearlier, hname, hne⟩ := h
  intro hconsistent
  refine hne (hconsistent _ hscope earlier ?_ _ ?_ hname)
  · rw [structTypes_append]
    exact List.mem_append_left _ hearlier
  · exact List.mem_filterMap.2 ⟨node, List.mem_append_right _ List.mem_cons_self, structType?_eq hstruct⟩

theorem Conflicts.outer {nodes members : List Node} {head : StructColumn} (hscope : IsScope nodes members)
    (h : Conflicts members head) : Conflicts nodes head := by
  obtain ⟨before, node, after, inner, hinner, h⟩ := h
  exact ⟨before, node, after, inner, hscope.trans hinner, h⟩

theorem Faults.outer {nodes members : List Node} {e : Malformed} (hscope : IsScope nodes members)
    (h : Faults members e) : Faults nodes e := by
  obtain ⟨head, hconflicts, he⟩ := h
  exact ⟨head, hconflicts.outer hscope, he⟩

end Node

namespace Schema

open Node

namespace Draft

/-- What a draft knows of the constructs of its scope that have been walked: the type that each name was first
declared with, from which no later struct has differed. -/
structure Walked (d : Draft) (nodes : List Node) : Prop where
  declared : ∀ name, d.scopes.declared? name = (structTypes nodes).find? (·.name == name)
  uniform : Message.Uniform (structTypes nodes)
  inside : ∀ node ∈ nodes, ∀ head members, node.struct? = some (head, members) → Consistent members

variable {d d' : Draft} {before : List Node} {node : Node}

theorem Walked.consistent (h : d.Walked before) : Consistent before := consistent_iff.2 ⟨h.uniform, h.inside⟩

theorem walked_nil (h : d.scopes.inner.declared = []) : d.Walked [] where
  declared := by
    intro name
    rw [Scopes.declared?, h]
    rfl
  uniform := fun _ htype => absurd htype List.not_mem_nil
  inside := fun _ hnode => absurd hnode List.not_mem_nil

theorem Walked.congr (h : d.Walked before) (hdeclared : d'.scopes.inner.declared = d.scopes.inner.declared) :
    d'.Walked before where
  declared := by
    intro name
    rw [← h.declared, Scopes.declared?, Scopes.declared?, hdeclared]
  uniform := h.uniform
  inside := h.inside

theorem Walked.snoc (h : d.Walked before) (hnode : node.struct? = none) : d.Walked (before ++ [node]) := by
  have htypes : structTypes (before ++ [node]) = structTypes before := by
    rw [structTypes_append, structTypes_singleton, structType?, hnode]
    exact List.append_nil _
  refine ⟨htypes ▸ h.declared, htypes ▸ h.uniform, fun other hother head members hstruct => ?_⟩
  rcases List.mem_append.1 hother with hother | hother
  · exact h.inside other hother head members hstruct
  · rw [List.mem_singleton.1 hother, hnode] at hstruct
    cases hstruct

/-- A struct whose type agrees with those of its name in front of it. -/
theorem Walked.snoc_struct {head : StructColumn} {members : List Node} (h : d.Walked before)
    (hstruct : node.struct? = some (head, members)) (hmembers : Consistent members)
    (hagrees : ∀ type ∈ structTypes before,
      type.name = head.typeName → type = (⟨head.typeName, fields 1 members⟩ : Message))
    (hdeclared : ∀ name, d'.scopes.declared? name
      = (structTypes before ++ [(⟨head.typeName, fields 1 members⟩ : Message)]).find? (·.name == name)) :
    d'.Walked (before ++ [node]) := by
  have htypes : structTypes (before ++ [node])
      = structTypes before ++ [(⟨head.typeName, fields 1 members⟩ : Message)] := by
    rw [structTypes_append, structTypes_singleton, structType?_eq hstruct]
    rfl
  refine ⟨htypes ▸ hdeclared, ?_, fun other hother head' members' hstruct' => ?_⟩
  · rw [htypes]
    intro type htype other hother hname
    rcases List.mem_append.1 htype with htype | htype <;> rcases List.mem_append.1 hother with hother | hother
    · exact h.uniform type htype other hother hname
    · rw [List.mem_singleton.1 hother] at hname ⊢
      exact hagrees type htype hname
    · rw [List.mem_singleton.1 htype] at hname ⊢
      exact (hagrees other hother hname.symm).symm
    · rw [List.mem_singleton.1 htype, List.mem_singleton.1 hother]
  · rcases List.mem_append.1 hother with hother | hother
    · exact h.inside other hother head' members' hstruct'
    · rw [List.mem_singleton.1 hother, hstruct] at hstruct'
      cases hstruct'
      exact hmembers

/-- Leaving a struct, once it is clear which scopes the draft returns to. -/
theorem leave_eq {inner : Draft} {depth : Nat} {head : StructColumn} {label : Label} {fields : List Field}
    (hpop : inner.scopes.pop = d.scopes.advance) :
    d.leave inner depth head label fields =
      let type : Message := ⟨head.typeName, fields⟩
      let declaration := fieldLine depth label head.typeName head.name d.scopes.number
      let field : Field := ⟨d.scopes.number, head.name, label, .message type⟩
      match d.scopes.declared? head.typeName with
      | none => .ok (⟨inner.column, { d.scopes.advance with inner.declared := d.scopes.inner.declared ++ [type] },
          d.lines ++ ("" :: block depth head.typeName inner.lines ++ [""]) ++ [declaration]⟩, field)
      | some earlier =>
          if earlier = type then .ok (⟨inner.column, d.scopes.advance, d.lines ++ [declaration]⟩, field)
          else .error head.conflict := by
  have hdeclared (name : String) : d.scopes.advance.declared? name = d.scopes.declared? name := rfl
  simp only [leave, hpop, Scopes.declare?, hdeclared]
  cases hearlier : d.scopes.declared? head.typeName with
  | none => rfl
  | some earlier => simp only [Option.some.injEq, StructColumn.conflict]

theorem ends_leave {inner : Draft} {depth : Nat} {head : StructColumn} {label : Label} {members after : List Node}
    (hwalked : d.Walked before) (hstruct : node.struct? = some (head, members)) (hmembers : Consistent members)
    (hpop : inner.scopes.pop = d.scopes.advance) :
    Ends (fun r => r.1.Walked (before ++ [node])) (Faults (before ++ node :: after))
      (d.leave inner depth head label (fields 1 members)) := by
  have hfind := hwalked.declared head.typeName
  rw [leave_eq hpop]
  cases hearlier : d.scopes.declared? head.typeName with
  | none =>
      -- The name is new in this scope, so no struct in front has it.
      rw [hearlier, eq_comm, List.find?_eq_none] at hfind
      refine hwalked.snoc_struct hstruct hmembers (fun type htype hname => ?_) fun name => ?_
      · exact absurd (beq_iff_eq.2 hname) (hfind type htype)
      · rw [List.find?_append, ← hwalked.declared]
        exact List.find?_append
  | some earlier =>
      rw [hearlier, eq_comm] at hfind
      have hmem : earlier ∈ structTypes before := List.mem_of_find?_eq_some hfind
      have hname : earlier.name = head.typeName := by simpa using List.find?_some hfind
      -- The first struct of the name stands for all of them, since they agree so far.
      by_cases hsame : earlier = ⟨head.typeName, fields 1 members⟩
      · simp only [if_pos hsame]
        refine hwalked.snoc_struct hstruct hmembers (fun type htype hname' => ?_) fun name => ?_
        · exact hsame ▸ hwalked.uniform type htype earlier hmem (hname'.trans hname.symm)
        · change d.scopes.declared? name = _
          rw [hwalked.declared, List.find?_append]
          by_cases hother : head.typeName = name
          · rw [← hother, hfind, Option.some_or]
          · rw [List.find?_cons_of_neg (by simpa using hother), List.find?_nil, Option.or_none]
      · simp only [if_neg hsame]
        exact ⟨head, ⟨before, node, after, members, .self, hstruct, earlier, hmem, hname, hsame⟩, rfl⟩

end Draft

theorem ends_struct {h : Header} {first last depth : Nat} {d : Draft} {head : StructColumn} {label : Label}
    {before members after : List Node} {node : Node} (hwalked : d.Walked before)
    (hstruct : node.struct? = some (head, members)) (htile : Tile h first last members)
    (hmembers : Ends (fun r => r.1.Walked members) (Faults members) (declareAll (depth + 1) d.enter members)) :
    Ends (fun r => r.1.Walked (before ++ [node])) (Faults (before ++ node :: after))
      (declareAll (depth + 1) d.enter members >>= fun r => d.leave r.1 depth head label r.2) := by
  have hscope : IsScope (before ++ node :: after) members :=
    .inside .self (List.mem_append_right _ List.mem_cons_self) hstruct
  refine (hmembers.mono_error fun e he => Faults.outer hscope he).bind_of_eq fun r hr hgood => ?_
  obtain ⟨hfields, hpasses⟩ := declareAll_spec htile hr
  rw [hfields]
  exact Draft.ends_leave hwalked hstruct hgood.consistent (Scopes.pop_eq hpasses.outer)

mutual

theorem ends_declare {h : Header} {first depth : Nat} {d : Draft} {before after : List Node} :
    ∀ {node : Node}, node.Stands h first → d.Walked before →
      Ends (fun r => r.1.Walked (before ++ [node])) (Faults (before ++ node :: after)) (declare depth d node)
  | .skip _, _, hwalked | .value _ _, _, hwalked | .inline _, _, hwalked | .values _ _ _ _, _, hwalked =>
      (hwalked.snoc rfl).congr rfl
  | .struct head members, ⟨_, _, htile⟩, hwalked => by
      have hmembers : Ends (fun r => r.1.Walked members) (Faults members) (declareAll (depth + 1) d.enter members) :=
        ends_declareAll htile (Draft.walked_nil rfl)
      rw [declare, ← bind_assoc]
      exact (ends_struct hwalked rfl htile hmembers).bind fun r hr => hr
  | .structs _ max head members, ⟨_, _, _, _, _, htile, _⟩, hwalked => by
      have hmembers : Ends (fun r => r.1.Walked members) (Faults members)
          (declareAll (depth + 1) (d.skip 1).enter members) := ends_declareAll htile (Draft.walked_nil rfl)
      have hskipped : (d.skip 1).Walked before := hwalked.congr rfl
      rw [declare, ← bind_assoc]
      exact (ends_struct hskipped rfl htile hmembers).bind fun r hr => hr.congr rfl

/-- A walk that comes to the end of a scope has found its structs to agree, at every depth. -/
theorem ends_declareAll {h : Header} {first last depth : Nat} {d : Draft} {before : List Node} :
    ∀ {nodes : List Node}, Tile h first last nodes → d.Walked before →
      Ends (fun r => r.1.Walked (before ++ nodes)) (Faults (before ++ nodes)) (declareAll depth d nodes)
  | [], _, hwalked => by
      rw [List.append_nil]
      exact hwalked
  | node :: nodes, ⟨hnode, htile⟩, hwalked => by
      refine (ends_declare hnode hwalked).bind fun r hr => ?_
      have hrest : Ends (fun r' => r'.1.Walked (before ++ [node] ++ nodes)) (Faults (before ++ [node] ++ nodes))
          (declareAll depth r.1 nodes) := ends_declareAll htile hr
      rw [List.append_assoc] at hrest
      exact hrest.bind fun r' hr' => hr'

end

end Schema

/-! ### Messages and scopes -/

namespace Node

theorem message?_of_field? {node : Node} {number : Nat} :
    (node.field? number).toList.filterMap Field.message? = node.structType?.toList := by
  cases node <;> rfl

theorem filterMap_message?_fields (nodes : List Node) :
    ∀ number, (fields number nodes).filterMap Field.message? = structTypes nodes := by
  induction nodes with
  | nil => intro number; rfl
  | cons node nodes ih =>
      intro number
      rw [fields, List.filterMap_append, message?_of_field?, ih, ← structTypes_singleton, ← structTypes_append]
      rfl

/-- Every message inside that of constructs is the message of one of their scopes. -/
theorem exists_scope_of_contains {name : String} {nodes : List Node} {type : Message}
    (h : Message.Contains ⟨name, fields 1 nodes⟩ type) :
    ∃ scope, IsScope nodes scope ∧ type.fields = fields 1 scope := by
  induction h with
  | self => exact ⟨nodes, .self, rfl⟩
  | inside _ hfield hinner ih =>
      obtain ⟨scope, hscope, hfields⟩ := ih
      have hmem := List.mem_filterMap.2 ⟨_, hfields ▸ hfield, hinner⟩
      rw [filterMap_message?_fields] at hmem
      obtain ⟨node, hnode, htype⟩ := List.mem_filterMap.1 hmem
      obtain ⟨⟨head, members⟩, hstruct, rfl⟩ := Option.map_eq_some_iff.1 htype
      exact ⟨members, .inside hscope hnode hstruct, rfl⟩

end Node

theorem Schema.ends_ofHeader {h : Header} {l : Layout} (hlayout : Layout.ofHeader h = .ok l) (record : String)
    (options : SchemaOptions) :
    Ends (fun _ => Node.Consistent l.nodes)
      (fun e => ∃ head, Node.Conflicts l.nodes head ∧ e = .malformed head.conflict) (ofHeader h record options) := by
  have hends : Ends (fun r => r.1.Walked l.nodes) (Node.Faults l.nodes) (declareAll 1 {} l.nodes) :=
    ends_declareAll (Layout.tile_of_ofHeader hlayout).2 (Draft.walked_nil rfl)
  rw [ofHeader_eq hlayout]
  cases hdeclare : declareAll 1 {} l.nodes with
  | error fault =>
      rw [hdeclare] at hends
      obtain ⟨head, hconflicts, rfl⟩ := hends
      exact ⟨head, hconflicts, rfl⟩
  | ok r =>
      rw [hdeclare] at hends
      exact hends.of_ok.consistent

theorem Schema.uniform_of_contains {h : Header} {record : String} {options : SchemaOptions} {schema : Schema}
    (hschema : ofHeader h record options = .ok schema) {type : Message} (htype : schema.type.Contains type) :
    Message.Uniform (type.fields.filterMap Field.message?) := by
  obtain ⟨l, hlayout⟩ := layout_of_ofHeader hschema
  have hends := ends_ofHeader hlayout record options
  rw [hschema] at hends
  rw [type_of_ofHeader hlayout hschema] at htype
  obtain ⟨scope, hscope, hfields⟩ := Node.exists_scope_of_contains htype
  rw [hfields, Node.filterMap_message?_fields]
  exact hends.of_ok scope hscope

/-- A schema exists exactly if the structs of one type name agree in every scope of the layout. If there is none,
the fault is that of a struct which contradicts one in front of it in its scope; and in every message of a schema,
fields whose types have one name have the same type. -/
theorem Schema.ofHeader_isOk_iff_consistent {h : Header} {l : Layout} (hlayout : Layout.ofHeader h = .ok l)
    (record : String) (options : SchemaOptions) :
    ((∃ schema, ofHeader h record options = .ok schema) ↔ Node.Consistent l.nodes)
      ∧ (∀ e, ofHeader h record options = .error e → ∃ head, Node.Conflicts l.nodes head
          ∧ e = .malformed ⟨head.column, head.typeName, .conflictingStruct head.typeName⟩)
      ∧ ∀ schema, ofHeader h record options = .ok schema → ∀ type, schema.type.Contains type →
          Message.Uniform (type.fields.filterMap Field.message?) := by
  have hends := ends_ofHeader hlayout record options
  refine ⟨⟨fun ⟨schema, hschema⟩ => ?_, fun hconsistent => ?_⟩, fun e he => ?_,
    fun schema hschema type htype => uniform_of_contains hschema htype⟩
  · rw [hschema] at hends
    exact hends
  · cases hschema : ofHeader h record options with
    | ok schema => exact ⟨schema, rfl⟩
    | error e =>
        rw [hschema] at hends
        obtain ⟨head, hconflicts, -⟩ := hends
        exact absurd hconsistent hconflicts.not_consistent
  · rw [he] at hends
    exact hends

/-- A header of two addresses. In the second one, whose type is not declared again, the two places differ. -/
def crookedContacts : Header :=
  ⟨[⟨"home", "required_struct 2", "Address"⟩, ⟨"from", "required_struct 1", "Point"⟩, ⟨"", "double", "x"⟩,
    ⟨"to", "required_struct 1", "Point"⟩, ⟨"", "double", "x"⟩,
    ⟨"work", "required_struct 2", "Address"⟩, ⟨"from", "required_struct 1", "Point"⟩, ⟨"", "double", "x"⟩,
    ⟨"to", "required_struct 1", "Point"⟩, ⟨"", "float", "x"⟩]⟩

/-- The structs of the first header agree in every scope, though not across scopes. In the second header one does
not, three scopes deep, and is named by its column. -/
theorem contacts_consistent_crooked_not :
    (∃ l, Layout.ofHeader contacts = .ok l ∧ Node.Consistent l.nodes)
      ∧ ∃ l head, Layout.ofHeader crookedContacts = .ok l ∧ ¬Node.Consistent l.nodes
        ∧ Node.Conflicts l.nodes head ∧ head.column = 8 ∧ head.typeName = "Point" := by
  have hschema : Succeeds (Schema.ofHeader contacts "Contact" {}) := by decide +kernel
  have hcrooked : Succeeds (Layout.ofHeader crookedContacts) := by decide +kernel
  have hfault : error? (Schema.ofHeader crookedContacts "Contact" {})
      = some (.malformed ⟨8, "Point", .conflictingStruct "Point"⟩) := by decide +kernel
  obtain ⟨l, hlayout⟩ := contacts_laidOut
  obtain ⟨l', hcrooked⟩ := hcrooked
  obtain ⟨hiff, -, -⟩ := Schema.ofHeader_isOk_iff_consistent hlayout "Contact" {}
  obtain ⟨-, herror, -⟩ := Schema.ofHeader_isOk_iff_consistent hcrooked "Contact" {}
  obtain ⟨head, hconflicts, hhead⟩ := herror _ (error?_eq_some.1 hfault)
  simp only [SheetError.malformed.injEq, Malformed.mk.injEq] at hhead
  exact ⟨⟨l, hlayout, hiff.1 hschema⟩, l', head, hcrooked, hconflicts.not_consistent, hconflicts, hhead.1.symm,
    hhead.2.1.symm⟩

end SheetCompiler

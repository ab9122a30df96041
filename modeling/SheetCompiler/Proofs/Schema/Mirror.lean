import Mathlib.Data.List.Forall2
import SheetCompiler.Proofs.Layout.Scopes

/-!
# Message types mirror their scopes

The message type that the schema pass finds has the shape of the layout: a message for each scope, and in it a
field for each construct that is not left out, in the order of the columns. The fields of a message are numbered
from one without gaps, whatever structs lie between them, and a struct type that is used again is built from the
members of its own struct like any other.
-/

namespace SheetCompiler

namespace Node

def isSkip : Node → Bool
  | .skip _ => true
  | _ => false

end Node

mutual

/-- Whether a field is one that a construct declares, whatever its number. -/
inductive Field.Mirrors : Field → Node → Prop
  | required {number : Nat} {column : ValueColumn} :
      Field.Mirrors ⟨number, column.name, .implicit, .value column.type⟩ (.value column false)
  | optional {number : Nat} {column : ValueColumn} :
      Field.Mirrors ⟨number, column.name, .optional, .value column.type⟩ (.value column true)
  | inline {number : Nat} {column : ValueColumn} :
      Field.Mirrors ⟨number, column.name, .repeated, .value column.type⟩ (.inline column)
  | values {number count max : Nat} {column : ValueColumn} {optional : Bool} :
      Field.Mirrors ⟨number, column.name, .repeated, .value column.type⟩ (.values count max column optional)
  | struct {number : Nat} {head : StructColumn} {members : List Node} {type : Message}
      (name : type.name = head.typeName) (inside : Message.Mirrors type members) :
      Field.Mirrors ⟨number, head.name, .implicit, .message type⟩ (.struct head members)
  | structs {number count max : Nat} {head : StructColumn} {members : List Node} {type : Message}
      (name : type.name = head.typeName) (inside : Message.Mirrors type members) :
      Field.Mirrors ⟨number, head.name, .repeated, .message type⟩ (.structs count max head members)

/-- Whether a message type is that of a scope, at every depth. -/
inductive Message.Mirrors : Message → List Node → Prop
  | of_fields {type : Message} {nodes : List Node}
      (numbers : type.fields.map (·.number) = List.range' 1 type.fields.length)
      (fields : List.Forall₂ Field.Mirrors type.fields (nodes.filter fun node => !node.isSkip)) :
      Message.Mirrors type nodes

end

namespace Node

theorem numbers_fields (nodes : List Node) :
    ∀ number, (fields number nodes).map (·.number) = List.range' number (fields number nodes).length := by
  induction nodes with
  | nil => intro number; rfl
  | cons node nodes ih =>
      intro number
      rw [fields]
      cases hfield : node.field? number with
      | none =>
          have hcount : node.fieldCount = 0 := by rw [← length_field? number, hfield]; rfl
          rw [hcount]
          exact ih number
      | some field =>
          have hcount : node.fieldCount = 1 := by rw [← length_field? number, hfield]; rfl
          rw [hcount]
          simp only [Option.toList_some, List.singleton_append, List.map_cons, List.length_cons, List.range'_succ,
            number_of_field? hfield, ih]

mutual

theorem mirrors_of_field? {number : Nat} {field : Field} :
    ∀ {node : Node}, node.field? number = some field → field.Mirrors node
  | .skip _, h => nomatch h
  | .value column false, h => by
      cases h
      exact .required
  | .value column true, h => by
      cases h
      exact .optional
  | .inline column, h => by
      cases h
      exact .inline
  | .values count max column optional, h => by
      cases h
      exact .values
  | .struct head members, h => by
      cases h
      exact .struct rfl (.of_fields (numbers_fields members 1) (mirror_fields members 1))
  | .structs count max head members, h => by
      cases h
      exact .structs rfl (.of_fields (numbers_fields members 1) (mirror_fields members 1))

/-- Constructs that are not left out have a field each. -/
theorem mirror_fields : ∀ (nodes : List Node) (number : Nat),
    List.Forall₂ Field.Mirrors (fields number nodes) (nodes.filter fun node => !node.isSkip)
  | [], _ => .nil
  | node :: nodes, number => by
      have hrest := mirror_fields nodes (number + node.fieldCount)
      rw [fields]
      cases hfield : node.field? number with
      | none =>
          have hskip : node.isSkip = true := by cases node <;> first | rfl | cases hfield
          rwa [List.filter_cons_of_neg (by simp [hskip])]
      | some field =>
          have hkept : node.isSkip = false := by cases node <;> first | rfl | cases hfield
          rw [List.filter_cons_of_pos (by simp [hkept])]
          exact .cons (mirrors_of_field? hfield) hrest

end

end Node

/-- The message type of a schema has the name of the record and mirrors the layout of the sheet, the constructs of
which stand in the order of their columns in every scope. -/
theorem Schema.type_mirrors_layout {h : Header} {l : Layout} {record : String} {options : SchemaOptions}
    {schema : Schema} (hlayout : Layout.ofHeader h = .ok l) (hschema : ofHeader h record options = .ok schema) :
    schema.type.name = record ∧ schema.type.Mirrors l.nodes
      ∧ ∀ scope, Node.IsScope l.nodes scope → scope.Pairwise fun node other => node.column < other.column := by
  rw [type_of_ofHeader hlayout hschema]
  refine ⟨rfl, .of_fields (Node.numbers_fields l.nodes 1) (Node.mirror_fields l.nodes 1), fun scope hscope => ?_⟩
  obtain ⟨first, last, htile⟩ := hscope.tile (Layout.tile_of_ofHeader hlayout).2
  exact htile.columns_ascend

def contactType : Message :=
  let place : Message := ⟨"Point", [⟨1, "zone", .implicit, .value (.enum "Zone")⟩]⟩
  let address : Message :=
    ⟨"Address", [⟨1, "street", .implicit, .value (.scalar .string)⟩, ⟨2, "place", .implicit, .message place⟩]⟩
  let spot : Message := ⟨"Point", [⟨1, "x", .implicit, .value (.scalar .double)⟩]⟩
  ⟨"Contact", [⟨1, "id", .implicit, .value (.scalar .int32)⟩, ⟨2, "title", .optional, .value (.scalar .string)⟩,
    ⟨3, "home", .implicit, .message address⟩, ⟨4, "work", .implicit, .message address⟩,
    ⟨5, "spots", .repeated, .message spot⟩, ⟨6, "colors", .repeated, .value (.enum "Color")⟩]⟩

theorem contactType_mirrors_layout :
    ∃ l schema, Layout.ofHeader contacts = .ok l ∧ Schema.ofHeader contacts "Contact" {} = .ok schema
      ∧ schema.type = contactType ∧ contactType.Mirrors l.nodes := by
  have htype : (Schema.ofHeader contacts "Contact" {}).toOption.map (·.type) = some contactType := by decide +kernel
  obtain ⟨schema, hschema, htype⟩ := map_toOption_eq_some.1 htype
  obtain ⟨l, hlayout⟩ := contacts_laidOut
  obtain ⟨-, hmirrors, -⟩ := Schema.type_mirrors_layout hlayout hschema
  exact ⟨l, schema, hlayout, hschema, htype, htype ▸ hmirrors⟩

end SheetCompiler

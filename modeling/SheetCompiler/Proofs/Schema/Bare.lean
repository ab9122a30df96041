import SheetCompiler.Proofs.Header.Grammar
import SheetCompiler.Proofs.Layout.Completeness
import SheetCompiler.Proofs.Schema.Reuse

/-!
# Headers without remarks

A header remarks two things on a field: the text of its comment cell, and the default in its name cell. Without them it
has the same columns, of the same types and names, so there is a schema of it exactly where there was one before, and
the message type is the same.
-/

namespace SheetCompiler

/-- The column without what is remarked on it. -/
def ValueColumn.bare (column : ValueColumn) : ValueColumn := { column with default? := none, comment := "" }

def Descriptor.bare : Descriptor → Descriptor
  | .value field optional => .value field.bare optional
  | .inline field => .inline field.bare
  | d => d

/-- The heading without what it remarks on a field: without the text of its comment cell, and without the default in its
name cell. Other headings stay as they are. -/
def Heading.bare (heading : Heading) (column : Nat) : Heading :=
  match Descriptor.read column heading with
  | .ok (.value ..) | .ok (.inline _) =>
      { heading with comment := "", name := String.ofList ((Text.trim heading.name).toList.takeWhile (· != '=')) }
  | _ => heading

def Header.bare (h : Header) : Header := ⟨h.columns.mapIdx fun column heading => heading.bare column⟩

namespace Text

theorem trim_of_isIdentifier {s : String} (h : isIdentifier s = true) : trim s = s := by
  have hkept := trimChars_of_not_space fun c hc => isSpace_of_continuesIdentifier (continuesIdentifier_of_mem h hc)
  rw [trim, hkept, String.ofList_toList]

end Text

namespace Descriptor

variable {column : Nat} {heading : Heading} {d : Descriptor}

theorem NameCell.bare {cell name : String} {default? : Option String} (h : NameCell cell name default?) :
    NameCell (Text.trim (String.ofList (cell.toList.takeWhile (· != '=')))) name none := by
  cases h with
  | alone hname =>
      have hall : cell.toList.takeWhile (· != '=') = cell.toList := by
        rw [List.takeWhile_eq_self_iff]
        exact fun c hc => bne_iff_ne.2 fun heq => equals_not_mem_of_isIdentifier hname (heq ▸ hc)
      rw [hall, String.ofList_toList, Text.trim_of_isIdentifier hname]
      exact .alone hname
  | @withDefault name default hcell hfirst hname =>
      have hname' : ∀ c ∈ name, (c != '=') = true := fun c hc => bne_iff_ne.2 fun heq => hfirst (heq ▸ hc)
      rw [hcell, List.takeWhile_append_of_pos hname', List.takeWhile_cons_of_neg (by simp), List.append_nil]
      exact .alone hname

/-- The heading without remarks says the same without them. -/
theorem read_bare (h : read column heading = .ok d) : read column (heading.bare column) = .ok d.bare := by
  obtain ⟨n, hsays⟩ := says_of_read h
  cases hsays with
  | skip | count | struct => rw [Heading.bare, h]; exact h
  | required hcell htype hname =>
      rw [Heading.bare, h]
      exact read_of_says (.required hcell htype hname.bare)
  | optional hcell htype hname =>
      rw [Heading.bare, h]
      exact read_of_says (.optional hcell htype hname.bare)
  | inline hcell htype hname =>
      rw [Heading.bare, h]
      exact read_of_says (.inline hcell htype hname.bare)

end Descriptor

theorem Heading.bare_blank (column : Nat) : ({} : Heading).bare column = {} := by
  have hsays : ({} : Heading).Says column 0 (.skip (Text.trim "") "") := .skip (by decide +kernel)
  rw [bare, Descriptor.read_of_says hsays]

theorem Header.heading_bare (h : Header) (column : Nat) : h.bare.heading column = (h.heading column).bare column := by
  rw [heading, heading, List.getD_eq_getElem?_getD, List.getD_eq_getElem?_getD, bare, List.getElem?_mapIdx]
  cases h.columns[column]? with
  | some heading => rw [Option.map_some, Option.getD_some, Option.getD_some]
  | none => rw [Option.map_none, Option.getD_none, Heading.bare_blank]

theorem Header.descriptor_bare {h : Header} {column : Nat} {d : Descriptor} (hd : h.descriptor column = .ok d) :
    h.bare.descriptor column = .ok d.bare := by
  rw [descriptor, heading_bare]
  exact Descriptor.read_bare hd

theorem Header.columnCount_bare (h : Header) : h.bare.columnCount = h.columnCount := List.length_mapIdx

namespace Node

mutual

def bare : Node → Node
  | .skip column => .skip column
  | .value field optional => .value field.bare optional
  | .inline field => .inline field.bare
  | .values count max field optional => .values count max field.bare optional
  | .struct head members => .struct head (bareAll members)
  | .structs count max head members => .structs count max head (bareAll members)

def bareAll : List Node → List Node
  | [] => []
  | node :: nodes => bare node :: bareAll nodes

end

theorem bareAll_eq_map (nodes : List Node) : bareAll nodes = nodes.map bare := by
  induction nodes with
  | nil => rfl
  | cons node nodes ih => rw [bareAll, ih, List.map_cons]

mutual

theorem span_bare : ∀ node : Node, node.bare.span = node.span
  | .skip _ | .value .. | .inline _ | .values .. => rfl
  | .struct _ members | .structs _ _ _ members => by rw [bare, span, span, spans_bareAll members]

theorem spans_bareAll : ∀ nodes : List Node, spans (bareAll nodes) = spans nodes
  | [] => rfl
  | node :: nodes => by rw [bareAll, spans, spans, span_bare node, spans_bareAll nodes]

end

mutual

theorem field?_bare (number : Nat) : ∀ node : Node, node.bare.field? number = node.field? number
  | .skip _ | .value .. | .inline _ | .values .. => rfl
  | .struct _ members | .structs _ _ _ members => by rw [bare, field?, field?, fields_bareAll 1 members]

theorem fields_bareAll (number : Nat) : ∀ nodes : List Node, fields number (bareAll nodes) = fields number nodes
  | [] => rfl
  | node :: nodes => by
      have hcount : node.bare.fieldCount = node.fieldCount := by cases node <;> rfl
      rw [bareAll, fields, fields, field?_bare number node, hcount, fields_bareAll (number + node.fieldCount) nodes]

end

mutual

theorem enums_bare : ∀ node : Node, node.bare.enums = node.enums
  | .skip _ | .value .. | .inline _ | .values .. => rfl
  | .struct _ members | .structs _ _ _ members => by rw [bare, enums, enums, enumsOf_bareAll members]

theorem enumsOf_bareAll : ∀ nodes : List Node, enumsOf (bareAll nodes) = enumsOf nodes
  | [] => rfl
  | node :: nodes => by rw [bareAll, enumsOf, enumsOf, enums_bare node, enumsOf_bareAll nodes]

end

variable {h : Header}

mutual

theorem Stands.bare : ∀ {first : Nat} {node : Node}, node.Stands h first → node.bare.Stands h.bare first
  | _, .skip _, ⟨hcolumn, name, comment, hskip⟩ => ⟨hcolumn, name, comment, Header.descriptor_bare hskip⟩
  | _, .value .., ⟨hcolumn, hvalue⟩ => ⟨hcolumn, Header.descriptor_bare hvalue⟩
  | _, .inline _, ⟨hcolumn, hinline⟩ => ⟨hcolumn, Header.descriptor_bare hinline⟩
  | _, .values .., ⟨hcolumn, hpos, ⟨comment, hcount⟩, hfield, hvalue, hroom⟩ =>
      ⟨hcolumn, hpos, ⟨comment, Header.descriptor_bare hcount⟩, hfield, Header.descriptor_bare hvalue,
        h.columnCount_bare ▸ hroom⟩
  | _, .struct _ members, ⟨hcolumn, hstruct, htile⟩ => by
      refine ⟨hcolumn, ?_, ?_⟩
      · rw [bareAll_eq_map, List.length_map]
        exact Header.descriptor_bare hstruct
      · rw [spans_bareAll]
        exact htile.bareAll
  | _, .structs _ _ _ members, ⟨hcolumn, hpos, ⟨comment, hcount⟩, hhead, hstruct, htile, hroom⟩ => by
      refine ⟨hcolumn, hpos, ⟨comment, Header.descriptor_bare hcount⟩, hhead, ?_, ?_, ?_⟩
      · rw [bareAll_eq_map, List.length_map]
        exact Header.descriptor_bare hstruct
      · rw [spans_bareAll]
        exact htile.bareAll
      · rw [spans_bareAll, h.columnCount_bare]
        exact hroom

theorem Tile.bareAll : ∀ {first last : Nat} {nodes : List Node},
    Tile h first last nodes → Tile h.bare first last (bareAll nodes)
  | _, _, [], htile => htile
  | _, _, node :: _, ⟨hstands, htile⟩ => ⟨hstands.bare, node.span_bare ▸ htile.bareAll⟩

end

theorem structTypes_bareAll (nodes : List Node) : structTypes (bareAll nodes) = structTypes nodes := by
  rw [← filterMap_message?_fields _ 1, fields_bareAll, filterMap_message?_fields]

theorem IsScope.of_bareAll {nodes scope : List Node} (hscope : IsScope (bareAll nodes) scope) :
    ∃ full, IsScope nodes full ∧ scope = bareAll full := by
  induction hscope with
  | self => exact ⟨nodes, .self, rfl⟩
  | inside _ hnode hstruct ih =>
      obtain ⟨full, hfull, rfl⟩ := ih
      rw [bareAll_eq_map] at hnode
      obtain ⟨node, hmem, rfl⟩ := List.mem_map.1 hnode
      cases node with
      | skip | value | inline | values => cases hstruct
      | struct head full =>
          obtain ⟨-, rfl⟩ := Prod.mk.inj (Option.some.inj hstruct)
          have hfound : (Node.struct head full).struct? = some (head, full) := rfl
          exact ⟨full, .inside hfull hmem hfound, rfl⟩
      | structs count max head full =>
          obtain ⟨-, rfl⟩ := Prod.mk.inj (Option.some.inj hstruct)
          have hfound : (Node.structs count max head full).struct? = some (head, full) := rfl
          exact ⟨full, .inside hfull hmem hfound, rfl⟩

theorem Consistent.bareAll {nodes : List Node} (h : Consistent nodes) : Consistent (bareAll nodes) := by
  intro scope hscope
  obtain ⟨full, hfull, rfl⟩ := hscope.of_bareAll
  rw [structTypes_bareAll]
  exact h full hfull

end Node

def Layout.bare (l : Layout) : Layout := ⟨Node.bareAll l.nodes, l.columnCount⟩

theorem Layout.ofHeader_bare {h : Header} {l : Layout} (hlayout : ofHeader h = .ok l) :
    ofHeader h.bare = .ok l.bare := by
  obtain ⟨hcount, htile⟩ := ofHeader_eq_ok_iff.1 hlayout
  refine ofHeader_eq_ok_iff.2 ⟨hcount.trans h.columnCount_bare.symm, ?_⟩
  rw [h.columnCount_bare]
  exact htile.bareAll

namespace Schema

/-- The header without remarks has a schema if the header has one. -/
theorem exists_ofHeader_bare {h : Header} {l : Layout} {record : String} {options : SchemaOptions} {schema : Schema}
    (hlayout : Layout.ofHeader h = .ok l) (hschema : ofHeader h record options = .ok schema) :
    ∃ bare, ofHeader h.bare record options = .ok bare := by
  have hconsistent := ends_ofHeader hlayout record options
  rw [hschema] at hconsistent
  have hends := ends_ofHeader (Layout.ofHeader_bare hlayout) record options
  cases hbare : ofHeader h.bare record options with
  | ok bare => exact ⟨bare, rfl⟩
  | error e =>
      rw [hbare] at hends
      obtain ⟨head, hconflicts, -⟩ := hends
      exact absurd hconsistent.of_ok.bareAll hconflicts.not_consistent

end Schema

end SheetCompiler

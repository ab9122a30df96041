import SheetCompiler.Proofs.Layout.Scopes
import SheetCompiler.Proofs.Rows.Refinement

/-!
# Blank data

A struct that may be left out is left out of its record if its cells are empty, unless something inside it does not
go by the cells. A repetition of required structs needs an instance wherever it stands, so a blank one fails, even
in the first copy of a repetition that has no instances. A required struct is always there, so the structs around
it that are not repeated are not empty.
-/

namespace SheetCompiler

namespace Node

mutual

/-- Whether a construct needs an instance: it is a repetition of required structs, or has one inside, at any
depth. -/
def needsInstance : Node → Bool
  | .skip _ | .value .. | .inline _ | .values .. => false
  | .struct _ members => anyNeedsInstance members
  | .structs _ _ head members => head.required || anyNeedsInstance members

def anyNeedsInstance : List Node → Bool
  | [] => false
  | node :: nodes => needsInstance node || anyNeedsInstance nodes

end

mutual

/-- Whether a construct is in its record although its cells are empty: it is a required struct, or a struct that
has one inside with no repetition between them. -/
def staysWhenBlank : Node → Bool
  | .struct head members => head.required || anyStaysWhenBlank members
  | _ => false

def anyStaysWhenBlank : List Node → Bool
  | [] => false
  | node :: nodes => staysWhenBlank node || anyStaysWhenBlank nodes

end

mutual

/-- Whether a column of a construct, at any depth, has a default that is read in the place of a blank cell. -/
def hasDefault : Node → Bool
  | .value field _ => field.default?.isSome
  | .skip _ | .inline _ | .values .. => false
  | .struct _ members | .structs _ _ _ members => anyHasDefault members

def anyHasDefault : List Node → Bool
  | [] => false
  | node :: nodes => hasDefault node || anyHasDefault nodes

end

end Node

namespace Row

open Node

mutual

/-- Whether a row leaves a construct blank whose columns lie `shift` columns to the right of where its heading
stands: the cells that are read of it are empty, no default takes their place, and its counts ask for no copies. -/
def Source.leavesBlank (row : Source) (shift : Nat) : Node → Bool
  | .skip _ => true
  | .value field _ => (row.cell (field.column + shift)).isEmpty && field.default?.isNone
  | .inline field => (row.cell (field.column + shift)).isEmpty
  | .values count _ _ _ => decide (row.AsksNone (count + shift))
  | .struct _ members => leavesAllBlank row shift members
  | .structs count _ _ members => decide (row.AsksNone (count + shift)) && leavesAllBlank row shift members

def Source.leavesAllBlank (row : Source) (shift : Nat) : List Node → Bool
  | [] => true
  | node :: nodes => leavesBlank row shift node && leavesAllBlank row shift nodes

end

section Empty

variable {h : Header} {row : Source} {shift : Nat}

theorem asksNone_of_empty {column : Nat} (hcell : row.cell column = "") : row.AsksNone column :=
  .inl (by rw [hcell]; rfl)

theorem leavesBlank_of_members {node : Node} {head : StructColumn} {members : List Node}
    (hstruct : node.struct? = some (head, members)) (hmembers : row.leavesAllBlank shift members = true)
    (hcount : ∀ count max, node = .structs count max head members → row.AsksNone (count + shift)) :
    row.leavesBlank shift node = true := by
  cases node with
  | struct =>
      cases hstruct
      exact hmembers
  | structs count max =>
      cases hstruct
      rw [Source.leavesBlank, hmembers, Bool.and_true]
      exact decide_eq_true (hcount count max rfl)
  | _ => cases hstruct

mutual

theorem leavesBlank_of_empty : ∀ {first : Nat} {node : Node}, node.Stands h first → node.hasDefault = false →
    (∀ column, first ≤ column → column < first + node.span → row.cell (column + shift) = "") →
    row.leavesBlank shift node = true
  | _, .skip _, _, _, _ => rfl
  | first, .value field optional, hstands, hdefaults, hcells => by
      have hdefault : field.default? = none := Option.not_isSome_iff_eq_none.1 (Bool.eq_false_iff.1 hdefaults)
      have hcell := hcells first (Nat.le_refl first) (Nat.lt_add_of_pos_right (span_pos _))
      rw [Source.leavesBlank, hstands.1, hcell, hdefault]
      rfl
  | first, .inline field, hstands, _, hcells => by
      have hcell := hcells first (Nat.le_refl first) (Nat.lt_add_of_pos_right (span_pos _))
      rw [Source.leavesBlank, hstands.1, hcell]
      rfl
  | first, .values count max field optional, hstands, _, hcells => by
      have hcell := hcells first (Nat.le_refl first) (Nat.lt_add_of_pos_right (span_pos _))
      rw [Source.leavesBlank, hstands.1]
      exact decide_eq_true (asksNone_of_empty hcell)
  | first, .struct head members, hstands, hdefaults, hcells => by
      obtain ⟨_, _, htile, hbehind, hlast⟩ := hstands.tile_members_behind rfl
      have hmembers : row.leavesAllBlank shift members = true :=
        leavesAllBlank_of_empty htile hdefaults fun column hle hlt =>
          hcells column (by omega) (by omega)
      exact leavesBlank_of_members rfl hmembers nofun
  | first, .structs count max head members, hstands, hdefaults, hcells => by
      obtain ⟨_, _, htile, hbehind, hlast⟩ := hstands.tile_members_behind rfl
      have hmembers : row.leavesAllBlank shift members = true :=
        leavesAllBlank_of_empty htile hdefaults fun column hle hlt =>
          hcells column (by omega) (by omega)
      have hcell := hcells first (Nat.le_refl first) (Nat.lt_add_of_pos_right (span_pos _))
      refine leavesBlank_of_members rfl hmembers ?_
      rintro _ _ ⟨⟩
      rw [hstands.1]
      exact asksNone_of_empty hcell

/-- Constructs without defaults are left blank by a row whose cells there are empty. -/
theorem leavesAllBlank_of_empty : ∀ {first last : Nat} {nodes : List Node}, Tile h first last nodes →
    anyHasDefault nodes = false → (∀ column, first ≤ column → column < last → row.cell (column + shift) = "") →
    row.leavesAllBlank shift nodes = true
  | _, _, [], _, _, _ => rfl
  | first, last, node :: nodes, ⟨hnode, htile⟩, hdefaults, hcells => by
      have hlast := htile.last_eq
      rw [anyHasDefault, Bool.or_eq_false_iff] at hdefaults
      rw [Source.leavesAllBlank, Bool.and_eq_true]
      constructor
      · exact leavesBlank_of_empty hnode hdefaults.1 fun column hle hlt => hcells column hle (by omega)
      · exact leavesAllBlank_of_empty htile hdefaults.2 fun column hle hlt => hcells column (by omega) hlt

end

/-- A struct without defaults is left blank if the cells behind its first one are empty, and the count of copies, if
that is what the first one holds, asks for none. -/
theorem leavesBlank_of_empty_behind {first : Nat} {node : Node} {head : StructColumn} {members : List Node}
    (hstands : node.Stands h first) (hstruct : node.struct? = some (head, members))
    (hdefaults : anyHasDefault members = false)
    (hcells : ∀ column, first < column → column < first + node.span → row.cell (column + shift) = "")
    (hcount : ∀ count max, node = .structs count max head members → row.AsksNone (count + shift)) :
    row.leavesBlank shift node = true := by
  obtain ⟨_, _, htile, hbehind, hlast⟩ := hstands.tile_members_behind hstruct
  have hmembers : row.leavesAllBlank shift members = true :=
    leavesAllBlank_of_empty htile hdefaults fun column hle hlt => hcells column (by omega) (by omega)
  exact leavesBlank_of_members hstruct hmembers hcount

end Empty

section Cells

variable {row : Source}

theorem value?_empty (type : ValueType) : row.value? type none "" = some none := by
  cases type with
  | enum name => rfl
  | scalar kind => cases kind <;> rfl

theorem tokens_of_empty {column : Nat} (h : row.cell column = "") : row.tokens column = [] := by
  rw [Source.tokens, h]
  rfl

end Cells

/-! ### Reading blank constructs -/

/-- What a reading of blank constructs comes to: it is undefined where they need an instance, else it is nothing
unless one of them stays. -/
def Blanks {α : Type} (nothing : α → Bool) (needs stays : Bool) : Option α → Prop
  | none => needs = true
  | some a => needs = false ∧ nothing a = !stays

theorem Blanks.bind {α β : Type} {nothing : α → Bool} {nothing' : β → Bool} {needs needs' stays stays' : Bool}
    {x : Option α} {f : α → Option β} (h : Blanks nothing needs stays x)
    (hstep : ∀ a, nothing a = !stays → Blanks nothing' needs' stays' (f a)) :
    Blanks nothing' (needs || needs') stays' (x.bind f) := by
  cases x with
  | none =>
      show (needs || needs') = true
      rw [show needs = true from h, Bool.true_or]
  | some a =>
      obtain ⟨rfl, hnothing⟩ := h
      exact hstep a hnothing

mutual

theorem content?_blanks {h : Header} {row : Source} {shift : Nat} :
    ∀ {first : Nat} {node : Node}, node.Stands h first → row.leavesBlank shift node = true →
      Blanks Option.isNone node.needsInstance node.staysWhenBlank (content? row shift node)
  | _, .skip _, _, _ => ⟨rfl, rfl⟩
  | _, .value field optional, _, hblank => by
      simp only [Source.leavesBlank, Bool.and_eq_true, String.isEmpty_iff, Option.isNone_iff_eq_none] at hblank
      rw [content?, hblank.1, hblank.2, value?_empty]
      exact ⟨rfl, rfl⟩
  | _, .inline field, _, hblank => by
      simp only [Source.leavesBlank, String.isEmpty_iff] at hblank
      rw [content?, tokens_of_empty hblank]
      exact ⟨rfl, rfl⟩
  | _, .values count max field optional, ⟨_, hpos, _⟩, hblank => by
      simp only [Source.leavesBlank, decide_eq_true_eq] at hblank
      rw [content?, (Source.count?_eq_zero_iff hpos).2 hblank]
      exact ⟨rfl, rfl⟩
  | _, .struct head members, ⟨_, _, htile⟩, hblank => by
      rw [content?, needsInstance, staysWhenBlank, ← Bool.or_false (anyNeedsInstance members)]
      apply (entries?_blanks htile hblank).bind
      intro entries hentries
      refine ⟨rfl, ?_⟩
      rw [hentries]
      cases head.required <;> cases anyStaysWhenBlank members <;> rfl
  | _, .structs count max head members, ⟨_, hpos, _, _, _, htile, _⟩, hblank => by
      simp only [Source.leavesBlank, Bool.and_eq_true, decide_eq_true_eq] at hblank
      rw [content?, needsInstance, (Source.count?_eq_zero_iff hpos).2 hblank.1]
      cases hrequired : head.required with
      | true => rfl
      | false =>
          -- The first copy is read, so it can fail, but nothing of it is kept.
          rw [Bool.false_or, ← Bool.or_false (anyNeedsInstance members)]
          exact (entries?_blanks htile hblank.2).bind fun _ _ => ⟨rfl, rfl⟩

theorem entries?_blanks {h : Header} {row : Source} {shift : Nat} :
    ∀ {first last number : Nat} {nodes : List Node}, Tile h first last nodes → row.leavesAllBlank shift nodes = true →
      Blanks List.isEmpty (anyNeedsInstance nodes) (anyStaysWhenBlank nodes) (entries? row shift number nodes)
  | _, _, _, [], _, _ => ⟨rfl, rfl⟩
  | _, _, number, node :: nodes, ⟨hnode, htile⟩, hblank => by
      simp only [Source.leavesAllBlank, Bool.and_eq_true] at hblank
      rw [entries?, anyNeedsInstance, anyStaysWhenBlank]
      apply (content?_blanks hnode hblank.1).bind
      intro content hcontent
      rw [← Bool.or_false (anyNeedsInstance nodes)]
      apply (entries?_blanks htile hblank.2).bind
      intro entries hentries
      refine ⟨rfl, ?_⟩
      rw [Bool.not_or, ← hcontent, ← hentries]
      cases content <;> rfl

end

theorem read_blank_iff {h : Header} {first shift : Nat} {node : Node} {nodes : List Node} {type : Message}
    {row : Source} {w : Walk} (hstands : node.Stands h first) (hcolumn : w.column = first + shift)
    (hprovides : type.Provides w.scopes.number (node :: nodes)) (hrecord : w.record.Below w.scopes.number)
    (hblank : row.leavesBlank shift node = true) :
    (∃ w', read row type w node = .ok w' ∧ w'.record.get? w.scopes.number = none)
      ↔ node.needsInstance = false ∧ node.staysWhenBlank = false := by
  have hread := toOption_read row shift hstands hcolumn hprovides hrecord
  have hcontent := content?_blanks hstands hblank
  cases hsome : content? row shift node with
  | none =>
      rw [hsome] at hread hcontent
      constructor
      · rintro ⟨w', hw', -⟩
        rw [hw'] at hread
        cases hread
      · rintro ⟨hneeds, -⟩
        have hneeded : node.needsInstance = true := hcontent
        rw [hneeds] at hneeded
        cases hneeded
  | some content =>
      rw [hsome] at hread hcontent
      obtain ⟨hneeds, hstays⟩ := hcontent
      have hget : (w.behind node.span node.fieldCount content).record.get? w.scopes.number = content :=
        hrecord.get?_extend content
      have hread := toOption_eq_some.1 hread
      constructor
      · rintro ⟨w', hw', hnone⟩
        rw [hread] at hw'
        cases hw'
        rw [hget] at hnone
        rw [hnone] at hstays
        exact ⟨hneeds, by simpa using hstays.symm⟩
      · rintro ⟨-, hgone⟩
        refine ⟨_, hread, ?_⟩
        rw [hgone] at hstays
        rw [hget]
        exact Option.isNone_iff_eq_none.1 hstays

/-- A struct that may be left out, in whatever scope it lies, is blank if the cells behind its first one are empty, none
of its columns has a default, and its count, if it is repeated, is blank or zero. It is then read without an error and
without an entry in the record exactly if no repetition of required structs lies in it, at any depth, and, unless it is
repeated itself, no required struct that belongs to it directly or through structs that are not repeated. Nothing else
about its members matters. -/
theorem read_blank_optional_iff {h : Header} {l : Layout} (hlayout : Layout.ofHeader h = .ok l)
    {scope after members : List Node} {node : Node} {head : StructColumn} (hscope : IsScope l.nodes scope)
    (hnode : node ∈ scope) (hstruct : node.struct? = some (head, members)) (hoptional : head.required = false)
    {type : Message} {row : Source} {w : Walk} {shift : Nat} (hcolumn : w.column = node.column + shift)
    (hprovides : type.Provides w.scopes.number (node :: after)) (hrecord : w.record.Below w.scopes.number)
    (hcells : ∀ column, node.column < column → column < node.column + node.span → row.cell (column + shift) = "")
    (hcount : ∀ count max, node = .structs count max head members → row.AsksNone (count + shift))
    (hdefaults : anyHasDefault members = false) :
    (∃ w', read row type w node = .ok w' ∧ w'.record.get? w.scopes.number = none)
      ↔ anyNeedsInstance members = false ∧ (node = .struct head members → anyStaysWhenBlank members = false) := by
  obtain ⟨_, _, htile⟩ := hscope.tile (Layout.tile_of_ofHeader hlayout).2
  have hstands := (htile.stands node hnode).2
  have hblank := leavesBlank_of_empty_behind hstands hstruct hdefaults hcells hcount
  rw [read_blank_iff hstands hcolumn hprovides hrecord hblank]
  cases node <;> cases hstruct
  · simp [needsInstance, staysWhenBlank, hoptional]
  · simp [needsInstance, staysWhenBlank, hoptional]

end Row

/-- A header of a home that may be left out, with members of every kind but a repetition of required structs. The
doors of its rooms are required. -/
def homes : Header :=
  ⟨[⟨"home", "optional_struct 6", "Home"⟩, ⟨"", "string", "street"⟩, ⟨"", "enum-Zone", "zone"⟩,
    ⟨"", "int32[]", "levels"⟩, ⟨"", "2[]", ""⟩, ⟨"", "double", "areas"⟩, {}, ⟨"owner", "optional_struct 1", "Owner"⟩,
    ⟨"", "optional int32", "age"⟩, ⟨"", "2[]", ""⟩, ⟨"rooms", "optional_struct 1", "Room"⟩,
    ⟨"door", "required_struct 1", "Door"⟩, ⟨"", "int32", "width"⟩, {}, {}, {}, ⟨"", "int64", "id"⟩]⟩

/-- A row that has nothing but its number. -/
def homeless : Row.Source :=
  ⟨3, ["", "", "", "", "", "", "", "", "", "", "", "", "", "", "", "", "5"], ⟨[("Zone", [("north", 1)])]⟩⟩

theorem homeless_has_no_home :
    ∃ l node head members after, Layout.ofHeader homes = .ok l ∧ l.nodes = node :: after
      ∧ node.struct? = some (head, members) ∧ head.required = false
      ∧ ∃ w, Row.read homeless (l.type "Item") {} node = .ok w ∧ w.record.get? 1 = none := by
  have hfacts : ((Layout.ofHeader homes).toOption.bind fun l => l.nodes.head?.bind fun node => node.struct?.map fun s =>
      (s.1.required, node.column, node.span, Node.anyNeedsInstance s.2, Node.anyStaysWhenBlank s.2,
        Node.anyHasDefault s.2)) = some (false, 0, 16, false, false, false) := by decide +kernel
  obtain ⟨l, hlayout, hfacts⟩ := Option.bind_eq_some_iff.1 hfacts
  obtain ⟨node, hhead, hfacts⟩ := Option.bind_eq_some_iff.1 hfacts
  obtain ⟨⟨head, members⟩, hstruct, hfacts⟩ := Option.map_eq_some_iff.1 hfacts
  simp only [Prod.mk.injEq] at hfacts
  obtain ⟨hoptional, hcolumn, hspan, hneeds, hstays, hdefaults⟩ := hfacts
  have hlayout := toOption_eq_some.1 hlayout
  obtain ⟨after, hnodes⟩ : ∃ after, l.nodes = node :: after := List.head?_eq_some_iff.1 hhead
  have hprovides : (l.type "Item").Provides 1 (node :: after) := hnodes ▸ .of_fields "Item" l.nodes
  have hempty : ∀ column < 16, homeless.cell column = "" := by decide
  have hcells : ∀ column, node.column < column → column < node.column + node.span →
      homeless.cell (column + 0) = "" := by
    intro column _ hlt
    exact hempty column (by omega)
  have hcount : ∀ count max, node = .structs count max head members → homeless.AsksNone (count + 0) := by
    rintro count max rfl
    exact Row.asksNone_of_empty (hempty count (by have := hcolumn; rw [Node.column] at this; omega))
  have hiff := Row.read_blank_optional_iff (w := {}) hlayout .self (List.mem_of_mem_head? hhead) hstruct hoptional
    (by rw [hcolumn]) hprovides (Record.below_empty 1) hcells hcount hdefaults
  exact ⟨l, node, head, members, after, hlayout, hnodes, hstruct, hoptional, hiff.2 ⟨hneeds, fun _ => hstays⟩⟩

/-- A header of boxes that may be left out, with a repetition of required items inside. -/
def boxes : Header :=
  ⟨[⟨"", "int32", "id"⟩, ⟨"", "1[]", ""⟩, ⟨"boxes", "optional_struct 1", "Box"⟩, ⟨"", "1[]", ""⟩,
    ⟨"items", "required_struct 1", "Item"⟩, ⟨"", "string", "x"⟩]⟩

/-- A header of a box that may be left out, with a required lid. -/
def lids : Header :=
  ⟨[⟨"", "int32", "id"⟩, ⟨"box", "optional_struct 1", "Box"⟩, ⟨"lid", "required_struct 1", "Lid"⟩,
    ⟨"", "string", "x"⟩]⟩

/-- A row whose first cell is its only one. -/
def numberOnly : Row.Source := ⟨3, ["1"], ⟨[]⟩⟩

/-- No boxes are an error under the first header, and a blank box is an entry under the second. -/
theorem numberOnly_lacks_items_and_has_box :
    (∃ l schema node head members, Layout.ofHeader boxes = .ok l ∧ Schema.ofHeader boxes "Item" {} = .ok schema
      ∧ node ∈ l.nodes ∧ node.struct? = some (head, members) ∧ head.required = false
      ∧ node.column = 1 ∧ Node.anyHasDefault members = false
      ∧ Row.toRecord numberOnly l schema.type = .error (.missingRepeat "D4" "items"))
    ∧ (∃ l schema node head members r, Layout.ofHeader lids = .ok l ∧ Schema.ofHeader lids "Item" {} = .ok schema
      ∧ node ∈ l.nodes ∧ node.struct? = some (head, members) ∧ head.required = false
      ∧ node.column = 1 ∧ Node.anyHasDefault members = false
      ∧ Row.toRecord numberOnly l schema.type = .ok r ∧ (r.get? 2).isSome = true)
    ∧ ∀ column, 0 < column → numberOnly.cell column = "" := by
  refine ⟨?_, ?_, ?_⟩
  · have hfacts : ((Layout.ofHeader boxes).toOption.bind fun l =>
        (Schema.ofHeader boxes "Item" {}).toOption.bind fun schema =>
          l.nodes[1]?.bind fun node => node.struct?.map fun s =>
            (s.1.required, node.column, Node.anyHasDefault s.2, error? (Row.toRecord numberOnly l schema.type)))
              = some (false, 1, false, some (.missingRepeat "D4" "items")) := by decide +kernel
    obtain ⟨l, hlayout, hfacts⟩ := Option.bind_eq_some_iff.1 hfacts
    obtain ⟨schema, hschema, hfacts⟩ := Option.bind_eq_some_iff.1 hfacts
    obtain ⟨node, hnode, hfacts⟩ := Option.bind_eq_some_iff.1 hfacts
    obtain ⟨⟨head, members⟩, hstruct, hfacts⟩ := Option.map_eq_some_iff.1 hfacts
    simp only [Prod.mk.injEq, error?_eq_some] at hfacts
    exact ⟨l, schema, node, head, members, toOption_eq_some.1 hlayout, toOption_eq_some.1 hschema,
      List.mem_of_getElem? hnode, hstruct, hfacts⟩
  · have hfacts : ((Layout.ofHeader lids).toOption.bind fun l =>
        (Schema.ofHeader lids "Item" {}).toOption.bind fun schema =>
          l.nodes[1]?.bind fun node => node.struct?.map fun s =>
            (s.1.required, node.column, Node.anyHasDefault s.2,
              (Row.toRecord numberOnly l schema.type).toOption.map fun r => (r.get? 2).isSome))
                = some (false, 1, false, some true) := by decide +kernel
    obtain ⟨l, hlayout, hfacts⟩ := Option.bind_eq_some_iff.1 hfacts
    obtain ⟨schema, hschema, hfacts⟩ := Option.bind_eq_some_iff.1 hfacts
    obtain ⟨node, hnode, hfacts⟩ := Option.bind_eq_some_iff.1 hfacts
    obtain ⟨⟨head, members⟩, hstruct, hfacts⟩ := Option.map_eq_some_iff.1 hfacts
    simp only [Prod.mk.injEq, map_toOption_eq_some] at hfacts
    obtain ⟨hoptional, hcolumn, hdefaults, r, hr, hbox⟩ := hfacts
    exact ⟨l, schema, node, head, members, r, toOption_eq_some.1 hlayout, toOption_eq_some.1 hschema,
      List.mem_of_getElem? hnode, hstruct, hoptional, hcolumn, hdefaults, hr, hbox⟩
  · rintro (_ | column) hpos
    · exact absurd hpos (Nat.lt_irrefl 0)
    · rfl

end SheetCompiler

import SheetCompiler.Proofs.Schema.Fields

/-!
# The scopes of a layout

A struct opens a scope for its members, so the constructs of a layout fall into scopes: that of the record, and
inside each scope those of its structs, the repeated ones included. Statements about every message of a sheet
are statements about every scope. The columns of a scope ascend, and so do those of the enum types that a layout
names, of whatever scope they are.
-/

namespace SheetCompiler

namespace Node

/-- The struct that a construct holds, once or repeatedly: the column that opens it, and its members. -/
def struct? : Node → Option (StructColumn × List Node)
  | .struct head members | .structs _ _ head members => some (head, members)
  | _ => none

/-- The column of the field that a construct holds values for. Of a repetition it is the first copy. -/
def valueColumn? : Node → Option ValueColumn
  | .value field _ | .inline field | .values _ _ field _ => some field
  | _ => none

/-- The scopes of constructs side by side: their own, and those inside it. -/
inductive IsScope (nodes : List Node) : List Node → Prop
  | self : IsScope nodes nodes
  | inside {scope members : List Node} {node : Node} {head : StructColumn} (outer : IsScope nodes scope)
      (hnode : node ∈ scope) (hstruct : node.struct? = some (head, members)) : IsScope nodes members

theorem IsScope.trans {nodes inner scope : List Node} (h : IsScope nodes inner) (hscope : IsScope inner scope) :
    IsScope nodes scope := by
  induction hscope with
  | self => exact h
  | inside _ hnode hstruct ih => exact .inside ih hnode hstruct

/-- A scope is the outermost one or lies in a struct of it. -/
theorem isScope_iff {nodes scope : List Node} :
    IsScope nodes scope ↔
      scope = nodes ∨ ∃ node ∈ nodes, ∃ head members, node.struct? = some (head, members) ∧ IsScope members scope := by
  constructor
  · intro h
    induction h with
    | self => exact .inl rfl
    | inside _ hnode hstruct ih =>
        right
        rcases ih with rfl | ⟨outer, houter, head, members, houterStruct, hinner⟩
        · exact ⟨_, hnode, _, _, hstruct, .self⟩
        · exact ⟨outer, houter, head, members, houterStruct, .inside hinner hnode hstruct⟩
  · rintro (rfl | ⟨node, hnode, head, members, hstruct, hinner⟩)
    · exact .self
    · exact (IsScope.inside .self hnode hstruct).trans hinner

/-! ### Columns -/

/-- The members of a struct tile columns behind the one that opens it, and inside its span. -/
theorem Stands.tile_members_behind {h : Header} {first : Nat} {node : Node} {head : StructColumn}
    {members : List Node} (hstands : node.Stands h first) (hstruct : node.struct? = some (head, members)) :
    ∃ start last, Tile h start last members ∧ first < start ∧ last ≤ first + node.span := by
  cases node with
  | struct =>
      cases hstruct
      refine ⟨_, _, hstands.2.2, by omega, ?_⟩
      rw [span]
      omega
  | structs count max =>
      cases hstruct
      obtain ⟨-, hpos, -, -, -, htile, -⟩ := hstands
      have hcopy := Nat.le_mul_of_pos_left (1 + spans members) hpos
      refine ⟨_, _, htile, by omega, ?_⟩
      rw [span]
      omega
  | _ => cases hstruct

theorem Tile.stands {h : Header} {first last : Nat} {nodes : List Node} (htile : Tile h first last nodes) :
    ∀ node ∈ nodes, first ≤ node.column ∧ node.Stands h node.column := by
  induction nodes generalizing first with
  | nil => exact fun _ hnode => absurd hnode List.not_mem_nil
  | cons node nodes ih =>
      intro other hother
      obtain ⟨hstands, htile⟩ := htile
      rcases List.mem_cons.1 hother with rfl | hother
      · rw [hstands.column_eq]
        exact ⟨Nat.le_refl first, hstands⟩
      · obtain ⟨hle, hothers⟩ := ih htile other hother
        exact ⟨by omega, hothers⟩

theorem IsScope.tile {h : Header} {first last : Nat} {nodes scope : List Node} (htile : Tile h first last nodes)
    (hscope : IsScope nodes scope) : ∃ first last, Tile h first last scope := by
  induction hscope with
  | self => exact ⟨first, last, htile⟩
  | inside _ hnode hstruct ih =>
      obtain ⟨first, last, htile⟩ := ih
      obtain ⟨start, last, hmembers, -⟩ := (htile.stands _ hnode).2.tile_members_behind hstruct
      exact ⟨start, last, hmembers⟩

theorem Tile.columns_ascend {h : Header} {first last : Nat} {nodes : List Node} (htile : Tile h first last nodes) :
    nodes.Pairwise fun node other => node.column < other.column := by
  induction nodes generalizing first with
  | nil => exact .nil
  | cons node nodes ih =>
      obtain ⟨hstands, htile⟩ := htile
      refine .cons (fun other hother => ?_) (ih htile)
      have hle := (htile.stands other hother).1
      have hpos := node.span_pos
      rw [hstands.column_eq]
      omega

/-! ### Enum types -/

/-- Whether some scope has a column of this enum type. -/
def NamesEnum (nodes : List Node) (column : Nat) (name : String) : Prop :=
  ∃ scope, IsScope nodes scope ∧ ∃ node ∈ scope, ∃ field,
    node.valueColumn? = some field ∧ field.column = column ∧ field.type = .enum name

theorem mem_enumOf {field : ValueColumn} {column : Nat} {name : String} :
    (column, name) ∈ enumOf field ↔ field.column = column ∧ field.type = .enum name := by
  cases htype : field.type with
  | scalar kind => simp [enumOf, htype, ValueType.enumName?]
  | enum name' => simp [enumOf, htype, ValueType.enumName?, eq_comm]

theorem mem_enumsOf {nodes : List Node} {entry : Nat × String} :
    entry ∈ enumsOf nodes ↔ ∃ node ∈ nodes, entry ∈ enums node := by
  induction nodes with
  | nil => simp [enumsOf]
  | cons node nodes ih => simp [enumsOf, ih]

theorem enums_eq_of_struct? {node : Node} {head : StructColumn} {members : List Node}
    (hstruct : node.struct? = some (head, members)) : enums node = enumsOf members := by
  cases node <;> cases hstruct <;> rfl

theorem enums_eq_of_valueColumn? {node : Node} {field : ValueColumn} (hfield : node.valueColumn? = some field) :
    enums node = enumOf field := by
  cases node <;> cases hfield <;> rfl

theorem enumsOf_subset {nodes scope : List Node} (hscope : IsScope nodes scope) : enumsOf scope ⊆ enumsOf nodes := by
  induction hscope with
  | self => exact List.Subset.refl _
  | inside _ hnode hstruct ih =>
      intro entry hentry
      rw [← enums_eq_of_struct? hstruct] at hentry
      exact ih (mem_enumsOf.2 ⟨_, hnode, hentry⟩)

mutual

theorem namesEnum_of_mem_enums {column : Nat} {name : String} :
    ∀ {scope : List Node} {node : Node}, node ∈ scope → (column, name) ∈ enums node → NamesEnum scope column name
  | _, .skip _, _, h => absurd h List.not_mem_nil
  | scope, .value field _, hnode, h | scope, .inline field, hnode, h | scope, .values _ _ field _, hnode, h =>
      ⟨scope, .self, _, hnode, field, rfl, mem_enumOf.1 h⟩
  | _, .struct _ members, hnode, h | _, .structs _ _ _ members, hnode, h => by
      obtain ⟨scope, hscope, hnames⟩ := namesEnum_of_mem_enumsOf (List.Subset.refl members) h
      exact ⟨scope, (IsScope.inside .self hnode rfl).trans hscope, hnames⟩

theorem namesEnum_of_mem_enumsOf {column : Nat} {name : String} :
    ∀ {scope nodes : List Node}, nodes ⊆ scope → (column, name) ∈ enumsOf nodes → NamesEnum scope column name
  | _, [], _, h => absurd h List.not_mem_nil
  | _, _ :: _, hsubset, h => by
      obtain ⟨hnode, hnodes⟩ := List.cons_subset.1 hsubset
      rcases List.mem_append.1 h with h | h
      · exact namesEnum_of_mem_enums hnode h
      · exact namesEnum_of_mem_enumsOf hnodes h

end

/-- The enum types of a layout are those that its scopes name. -/
theorem mem_enumsOf_iff {nodes : List Node} {column : Nat} {name : String} :
    (column, name) ∈ enumsOf nodes ↔ NamesEnum nodes column name := by
  constructor
  · exact namesEnum_of_mem_enumsOf (List.Subset.refl nodes)
  · rintro ⟨scope, hscope, node, hnode, field, hfield, hnames⟩
    have hentry : (column, name) ∈ enums node := enums_eq_of_valueColumn? hfield ▸ mem_enumOf.2 hnames
    exact enumsOf_subset hscope (mem_enumsOf.2 ⟨node, hnode, hentry⟩)

/-- Whether entries stand in columns from `first` up to `last`, from left to right. -/
def Ascend (first last : Nat) (entries : List (Nat × String)) : Prop :=
  entries.Pairwise (fun entry other => entry.1 < other.1) ∧ ∀ entry ∈ entries, first ≤ entry.1 ∧ entry.1 < last

theorem Ascend.mono {first first' last last' : Nat} {entries : List (Nat × String)} (h : Ascend first last entries)
    (hfirst : first' ≤ first) (hlast : last ≤ last') : Ascend first' last' entries := by
  refine ⟨h.1, fun entry hentry => ?_⟩
  have := h.2 entry hentry
  omega

theorem Ascend.append {first middle last : Nat} {entries more : List (Nat × String)} (h : Ascend first middle entries)
    (hmore : Ascend middle last more) (hfirst : first ≤ middle) (hlast : middle ≤ last) :
    Ascend first last (entries ++ more) := by
  constructor
  · refine List.pairwise_append.2 ⟨h.1, hmore.1, fun entry hentry other hother => ?_⟩
    have := h.2 entry hentry
    have := hmore.2 other hother
    omega
  · intro entry hentry
    rcases List.mem_append.1 hentry with hentry | hentry
    · exact (h.mono (Nat.le_refl first) hlast).2 entry hentry
    · exact (hmore.mono hfirst (Nat.le_refl last)).2 entry hentry

/-- In ascending columns, the first entry with a property is the one in the least column. -/
theorem Ascend.find?_eq_some_iff {p : Nat × String → Bool} {first last : Nat} {entries : List (Nat × String)}
    (h : Ascend first last entries) {entry : Nat × String} :
    entries.find? p = some entry
      ↔ (entry ∈ entries ∧ p entry = true) ∧ ∀ other ∈ entries, p other = true → entry.1 ≤ other.1 := by
  obtain ⟨hascend, -⟩ := h
  induction entries with
  | nil => simp
  | cons front entries ih =>
      obtain ⟨hfront, hascend⟩ := List.pairwise_cons.1 hascend
      rw [List.find?_cons]
      cases hp : p front with
      | true =>
          constructor
          · rintro ⟨⟩
            refine ⟨⟨List.mem_cons_self, hp⟩, List.forall_mem_cons.2 ⟨fun _ => Nat.le_refl _, fun other hother _ => ?_⟩⟩
            exact Nat.le_of_lt (hfront other hother)
          · rintro ⟨⟨hmem, -⟩, hleast⟩
            rcases List.mem_cons.1 hmem with rfl | hmem
            · rfl
            · exact absurd (hfront entry hmem) (Nat.not_lt.2 (hleast front List.mem_cons_self hp))
      | false =>
          have hnot : ¬p front = true := by rw [hp]; exact Bool.false_ne_true
          rw [ih hascend, List.forall_mem_cons, List.mem_cons]
          constructor
          · rintro ⟨⟨hmem, hentry⟩, hleast⟩
            exact ⟨⟨.inr hmem, hentry⟩, fun h => absurd h hnot, hleast⟩
          · rintro ⟨⟨rfl | hmem, hentry⟩, -, hleast⟩
            · exact absurd hentry hnot
            · exact ⟨⟨hmem, hentry⟩, hleast⟩

theorem enumOf_ascend (field : ValueColumn) : Ascend field.column (field.column + 1) (enumOf field) := by
  cases htype : field.type with
  | scalar kind => simp [Ascend, enumOf, htype, ValueType.enumName?]
  | enum name => simp [Ascend, enumOf, htype, ValueType.enumName?]

mutual

theorem enums_ascend {h : Header} {first : Nat} :
    ∀ {node : Node}, node.Stands h first → Ascend first (first + node.span) (enums node)
  | .skip _, _ => ⟨.nil, fun _ hentry => absurd hentry List.not_mem_nil⟩
  | .value field _, ⟨hcolumn, _⟩ | .inline field, ⟨hcolumn, _⟩ => hcolumn ▸ enumOf_ascend field
  | .values _ max field _, ⟨_, hpos, _, hcolumn, _⟩ =>
      (hcolumn ▸ enumOf_ascend field).mono (Nat.le_succ first) (by rw [span]; omega)
  | .struct _ members, ⟨_, _, htile⟩ =>
      (enumsOf_ascend htile).mono (Nat.le_succ first) (by rw [span]; omega)
  | .structs _ max _ members, ⟨_, hpos, _, _, _, htile, _⟩ => by
      have hcopy := Nat.le_mul_of_pos_left (1 + spans members) hpos
      exact (enumsOf_ascend htile).mono (by omega) (by rw [span]; omega)

/-- The columns of enum types ascend, however deep they lie. -/
theorem enumsOf_ascend {h : Header} {first last : Nat} :
    ∀ {nodes : List Node}, Tile h first last nodes → Ascend first last (enumsOf nodes)
  | [], _ => ⟨.nil, fun _ hentry => absurd hentry List.not_mem_nil⟩
  | _ :: _, ⟨hnode, htile⟩ =>
      (enums_ascend hnode).append (enumsOf_ascend htile) (Nat.le_add_right _ _) (by have := htile.last_eq; omega)

end

end Node

/-- A header of six scopes: that of the record, those of two addresses with a place inside each, and that of
spots, which have the type name of the places and other fields. -/
def contacts : Header :=
  ⟨[⟨"number", "int32", "id"⟩, ⟨"", "", "notes"⟩, ⟨"how to\naddress them", "optional string", "title=none"⟩,
    ⟨"home", "required_struct 2", "Address"⟩, ⟨"", "string", "street"⟩, ⟨"place", "required_struct 1", "Point"⟩,
    ⟨"", "enum-Zone", "zone"⟩, ⟨"work", "optional_struct 2", "Address"⟩, ⟨"of work", "string", "street"⟩,
    ⟨"place", "required_struct 1", "Point"⟩, ⟨"", "enum-Zone", "zone"⟩, ⟨"", "2[]", ""⟩,
    ⟨"spots", "required_struct 1", "Point"⟩, ⟨"", "double", "x"⟩, {}, {}, ⟨"", "enum-Color[]", "colors"⟩]⟩

theorem contacts_laidOut : Succeeds (Layout.ofHeader contacts) := by decide +kernel

end SheetCompiler

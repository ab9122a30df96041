import SheetCompiler.Proofs.Schema.Fields

/-!
# Wider sheets

A sheet that has a layout keeps it when it grows to the right by columns without a type: every construct finds the
columns that it takes where it found them, and there are more behind them. What is added is left out. So the message
type, the enum types and the schema of the wider sheet are those of the narrower one.
-/

namespace SheetCompiler

/-! ### Columns without a type -/

theorem Text.trim_of_blank {s : String} (h : isBlank s = true) : trim s = "" := by
  have hstart : trimStart (s.toList ++ []) = trimStart [] := List.dropWhile_append_of_pos (List.all_eq_true.1 h)
  rw [List.append_nil] at hstart
  rw [trim, trimChars, hstart]
  rfl

theorem Heading.descriptor_read_of_blank {heading : Heading} (h : Text.isBlank heading.type = true) (index : Nat) :
    (heading.read index).descriptor = .ok (.skip (Text.trim heading.name) heading.comment) := by
  have htoken : heading.token = "" := Text.trim_of_blank h
  rw [Heading.read]
  simp only [Descriptor.read, htoken]
  rfl

namespace Node

/-! ### Reading with more columns to the right -/

/-- What has been taken off the front of columns, with more columns left. -/
def Taken.append {α : Type} {columns : List Column} (t : Taken α columns) (more : List Column) :
    Taken α (columns ++ more) :=
  ⟨t.value, t.rest ++ more, by
    rw [List.length_append, List.length_append]
    exact Nat.add_le_add_right t.length_le _⟩

/-- Whether reading a construct in front of the columns `right` comes to the same in front of these and more. -/
def ReadsInFront (right : List Column) : Prop :=
  ∀ {first : Column} {t : Taken Node right}, read first right = .ok t → ∀ more : List Column,
    read first (right ++ more) = .ok (t.append more)

theorem readMembers_append {bound : Nat} (hshorter : ∀ right : List Column, right.length < bound → ReadsInFront right)
    {size : Nat} {columns : List Column} {t : Taken (List Node) columns} (hbound : columns.length ≤ bound)
    (hread : readMembers size columns = .ok t) (more : List Column) :
    readMembers size (columns ++ more) = .ok (t.append more) := by
  induction size generalizing columns with
  | zero =>
      rw [readMembers] at hread
      cases hread
      rw [readMembers]
      rfl
  | succ size ih =>
      cases columns with
      | nil =>
          rw [readMembers] at hread
          cases hread
      | cons first right =>
          rw [readMembers] at hread
          split at hread
          · cases hread
          · next member hmember =>
            split at hread
            · cases hread
            · next members hmembers =>
              cases hread
              simp only [List.length_cons] at hbound
              have hfirst := hshorter right (by omega) hmember more
              have hle := member.length_le
              have hmembers' : readMembers size (member.append more).rest = .ok (members.append more) :=
                ih (by omega) hmembers
              change readMembers (size + 1) (first :: (right ++ more)) = _
              rw [readMembers]
              simp only [hfirst, hmembers']
              rfl

theorem read_append_struct {first : Column} {head : StructColumn} {size : Nat} {right : List Column}
    {t : Taken Node right} (hfirst : first.descriptor = .ok (.struct head size))
    (hmembers : ∀ {members : Taken (List Node) right}, readMembers size right = .ok members → ∀ more : List Column,
      readMembers size (right ++ more) = .ok (members.append more))
    (hread : read first right = .ok t) (more : List Column) : read first (right ++ more) = .ok (t.append more) := by
  rw [read, hfirst] at hread
  rw [read, hfirst]
  simp only at hread ⊢
  by_cases hshort : right.length < size
  · rw [if_pos hshort] at hread
    cases hread
  rw [if_neg hshort] at hread
  rw [if_neg (by rw [List.length_append]; omega)]
  cases hfound : readMembers size right with
  | error e =>
      rw [hfound] at hread
      cases e <;> cases hread
  | ok members =>
      rw [hfound] at hread
      cases hread
      rw [hmembers hfound more]
      rfl

theorem read_append_count {first next : Column} {max : Nat} {comment : String} {others : List Column}
    {t : Taken Node (next :: others)} (hfirst : first.descriptor = .ok (.count max comment))
    (hothers : ReadsInFront others) (hread : read first (next :: others) = .ok t) (more : List Column) :
    read first (next :: others ++ more) = .ok (t.append more) := by
  rw [read, hfirst] at hread
  rw [read, hfirst]
  simp only [List.cons_append] at hread ⊢
  cases helement : read next others with
  | error e =>
      rw [helement] at hread
      cases hread
  | ok element =>
      rw [helement] at hread
      rw [hothers helement more]
      simp only at hread ⊢
      cases hnode : element.value.repeated? first.index max with
      | none =>
          rw [hnode] at hread
          cases hread
      | some node =>
          have hnode' : (element.append more).value.repeated? first.index max = some node := hnode
          rw [hnode] at hread
          simp only [hnode'] at hread ⊢
          by_cases hfull : element.rest.length < (max - 1) * element.value.span
          · rw [if_pos hfull] at hread
            cases hread
          -- Where there is room for the other copies, there is room with more columns.
          have hroom : (max - 1) * element.value.span ≤ element.rest.length := Nat.le_of_not_lt hfull
          have hroom' : ¬(element.append more).rest.length < (max - 1) * (element.append more).value.span := by
            change ¬(element.rest ++ more).length < (max - 1) * element.value.span
            rw [List.length_append]
            omega
          rw [if_neg hfull] at hread
          cases hread
          rw [if_neg hroom']
          simp only [Taken.append, List.drop_append_of_le_length hroom]

theorem readsInFront (right : List Column) : ReadsInFront right := by
  -- A member is read from the columns that the members before it have left, which are fewer but no fixed part.
  induction hlength : right.length using Nat.strongRecOn generalizing right with
  | ind bound ih =>
  have hshorter : ∀ shorter : List Column, shorter.length < bound → ReadsInFront shorter :=
    fun shorter hlt => ih shorter.length hlt shorter rfl
  intro first t hread more
  cases hfirst : first.descriptor with
  | error e =>
      rw [read, hfirst] at hread
      cases hread
  | ok d =>
      cases d with
      | skip | value | inline =>
          rw [read, hfirst] at hread
          rw [read, hfirst]
          cases hread
          rfl
      | struct head size =>
          exact read_append_struct hfirst (readMembers_append hshorter (Nat.le_of_eq hlength)) hread more
      | count max comment =>
          cases right with
          | nil =>
              rw [read, hfirst] at hread
              cases hread
          | cons next others =>
              exact read_append_count hfirst (hshorter others (by rw [← hlength]; exact Nat.lt_succ_self _)) hread more

theorem readAll_append {columns : List Column} {nodes : List Node} (hread : readAll columns = .ok nodes)
    (more : List Column) : readAll (columns ++ more) = (readAll more).map (nodes ++ ·) := by
  induction hlength : columns.length using Nat.strongRecOn generalizing columns nodes with
  | ind length ih =>
  cases columns with
  | nil =>
      rw [readAll] at hread
      cases hread
      rw [List.nil_append]
      cases readAll more <;> rfl
  | cons first right =>
      rw [readAll] at hread
      cases hnode : read first right with
      | error e =>
          rw [hnode] at hread
          cases hread
      | ok node =>
          rw [hnode] at hread
          obtain ⟨nodes', hnodes, hcons⟩ := bind_eq_ok.1 hread
          cases hcons
          have hle := node.length_le
          simp only [List.length_cons] at hlength
          have hrest : readAll (node.append more).rest = (readAll more).map (nodes' ++ ·) :=
            ih node.rest.length (by omega) hnodes rfl
          rw [List.cons_append, readAll, readsInFront right hnode more]
          simp only [hrest]
          cases readAll more <;> rfl

/-! ### Columns that are left out -/

/-- Whether constructs are columns that are left out. -/
def AreSkips (nodes : List Node) : Prop := ∀ node ∈ nodes, ∃ column, node = .skip column

theorem readAll_skips {columns : List Column}
    (h : ∀ column ∈ columns, ∃ name comment, column.descriptor = .ok (.skip name comment)) :
    ∃ skips, AreSkips skips ∧ readAll columns = .ok skips := by
  induction columns with
  | nil => exact ⟨[], fun _ hnode => absurd hnode List.not_mem_nil, by rw [readAll]⟩
  | cons first right ih =>
      obtain ⟨⟨name, comment, hskip⟩, hright⟩ := List.forall_mem_cons.1 h
      obtain ⟨skips, hskips, hread⟩ := ih hright
      refine ⟨.skip first.index :: skips, List.forall_mem_cons.2 ⟨⟨first.index, rfl⟩, hskips⟩, ?_⟩
      rw [readAll, read, hskip]
      simp only [hread]
      rfl

variable {nodes skips : List Node}

theorem fields_append_skips (hskips : AreSkips skips) (number : Nat) :
    fields number (nodes ++ skips) = fields number nodes := by
  induction nodes generalizing number with
  | nil =>
      induction skips generalizing number with
      | nil => rfl
      | cons skip skips ih =>
          obtain ⟨⟨column, rfl⟩, hrest⟩ := List.forall_mem_cons.1 hskips
          exact ih hrest number
  | cons node nodes ih => rw [List.cons_append, fields, fields, ih]

theorem enumsOf_append_skips (hskips : AreSkips skips) : enumsOf (nodes ++ skips) = enumsOf nodes := by
  induction nodes with
  | nil =>
      induction skips with
      | nil => rfl
      | cons skip skips ih =>
          obtain ⟨⟨column, rfl⟩, hrest⟩ := List.forall_mem_cons.1 hskips
          exact ih hrest
  | cons node nodes ih => rw [List.cons_append, enumsOf, enumsOf, ih]

end Node

/-- Whether a header is left of columns without a type in another, and has all its other columns. -/
def Header.WidensTo (h h' : Header) : Prop :=
  ∃ more : List Heading, (∀ heading ∈ more, Text.isBlank heading.type = true) ∧ h'.columns = h.columns ++ more

/-- Whether a layout is left of columns that are left out in another, and has all its other constructs. -/
def Layout.WidensTo (l l' : Layout) : Prop := ∃ skips, Node.AreSkips skips ∧ l'.nodes = l.nodes ++ skips

variable {h h' : Header} {l l' : Layout}

/-- A wider sheet has the layout of the narrower one, with the columns that are left out behind it. -/
theorem Header.WidensTo.layout (hwidens : h.WidensTo h') (hlayout : Layout.ofHeader h = .ok l) :
    ∃ l', Layout.ofHeader h' = .ok l' ∧ l.WidensTo l' := by
  obtain ⟨more, hmore, hcolumns⟩ := hwidens
  obtain ⟨nodes, hnodes, hl⟩ := bind_eq_ok.1 hlayout
  cases hl
  have hread : h'.read = h.read ++ more.mapIdx fun index heading => heading.read (index + h.columns.length) := by
    rw [Header.read, hcolumns]
    exact List.mapIdx_append
  obtain ⟨skips, hskips, hbehind⟩ : ∃ skips, Node.AreSkips skips
      ∧ Node.readAll (more.mapIdx fun index heading => heading.read (index + h.columns.length)) = .ok skips := by
    refine Node.readAll_skips fun column hcolumn => ?_
    obtain ⟨index, hindex, rfl⟩ := List.mem_mapIdx.1 hcolumn
    exact ⟨_, _, Heading.descriptor_read_of_blank (hmore _ (List.getElem_mem hindex)) _⟩
  refine ⟨⟨nodes ++ skips, h'.columnCount⟩, ?_, skips, hskips, rfl⟩
  rw [Layout.ofHeader, hread, Node.readAll_append hnodes, hbehind]
  rfl

/-- The column of the id is the first one that has a type. -/
theorem Header.idColumn?_eq_some_iff {id : Nat} :
    h.idColumn? = some id ↔ id < h.columnCount ∧ Text.isBlank (h.heading id).type = false
      ∧ ∀ c < id, Text.isBlank (h.heading c).type = true := by
  rw [idColumn?, List.findIdx?_eq_some_iff_getElem]
  constructor
  · rintro ⟨hlt, htyped, hblank⟩
    refine ⟨hlt, by simpa [heading_eq_getElem hlt] using htyped, ?_⟩
    intro c hc
    simpa [heading_eq_getElem (Nat.lt_trans hc hlt)] using hblank c hc
  · rintro ⟨hlt, htyped, hblank⟩
    refine ⟨hlt, by simpa [heading_eq_getElem hlt] using htyped, ?_⟩
    intro c hc
    simpa [heading_eq_getElem (Nat.lt_trans hc hlt)] using hblank c hc

theorem Header.WidensTo.idColumn?_eq (hwidens : h.WidensTo h') : h'.idColumn? = h.idColumn? := by
  obtain ⟨more, hmore, hcolumns⟩ := hwidens
  have hnone : more.findIdx? (fun heading => !Text.isBlank heading.type) = none :=
    List.findIdx?_eq_none_iff.2 fun heading hheading => by rw [hmore heading hheading]; rfl
  rw [Header.idColumn?, hcolumns, List.findIdx?_append, hnone, Option.map_none, Option.or_none]
  rfl

theorem Layout.WidensTo.type_eq (hwidens : l.WidensTo l') (record : String) : l'.type record = l.type record := by
  obtain ⟨skips, hskips, hnodes⟩ := hwidens
  rw [Layout.type, hnodes, Node.fields_append_skips hskips]
  rfl

theorem Layout.WidensTo.enums_eq (hwidens : l.WidensTo l') : l'.enums = l.enums := by
  obtain ⟨skips, hskips, hnodes⟩ := hwidens
  rw [Layout.enums, hnodes, Node.enumsOf_append_skips hskips]
  rfl

namespace Schema

theorem Draft.skip_skip (d : Draft) (columns more : Nat) : (d.skip columns).skip more = d.skip (columns + more) :=
  congrArg (Draft.mk · d.scopes d.lines) (Nat.add_assoc ..)

theorem declareAll_append_skips {nodes skips : List Node} (hskips : Node.AreSkips skips) (depth : Nat) (d : Draft) :
    declareAll depth d (nodes ++ skips)
      = (declareAll depth d nodes).map fun declared => (declared.1.skip skips.length, declared.2) := by
  induction nodes generalizing d with
  | nil =>
      induction skips generalizing d with
      | nil => rfl
      | cons skip skips ih =>
          obtain ⟨⟨column, rfl⟩, hrest⟩ := List.forall_mem_cons.1 hskips
          change declareAll depth (d.skip 1) ([] ++ skips) >>= _ = _
          rw [ih hrest, List.length_cons, Nat.add_comm]
          change Except.ok ((d.skip 1).skip skips.length, []) = .ok (d.skip (1 + skips.length), [])
          rw [Draft.skip_skip]
  | cons node nodes ih =>
      rw [List.cons_append, declareAll, declareAll]
      cases declare depth d node with
      | error e => rfl
      | ok declared =>
          change declareAll depth declared.1 (nodes ++ skips) >>= _
            = Except.map _ (declareAll depth declared.1 nodes >>= _)
          rw [ih]
          cases declareAll depth declared.1 nodes <;> rfl

end Schema

theorem Header.WidensTo.schema {record : String} {options : SchemaOptions} {schema : Schema} (hwidens : h.WidensTo h')
    (hschema : Schema.ofHeader h record options = .ok schema) : Schema.ofHeader h' record options = .ok schema := by
  obtain ⟨l, hlayout⟩ := Schema.layout_of_ofHeader hschema
  obtain ⟨l', hlayout', hwider⟩ := hwidens.layout hlayout
  obtain ⟨skips, hskips, hnodes⟩ := id hwider
  rw [Schema.ofHeader_eq hlayout] at hschema
  rw [Schema.ofHeader_eq hlayout', hnodes, Schema.declareAll_append_skips hskips, hwider.type_eq, Layout.usesEnums,
    hwider.enums_eq]
  cases hdeclare : Schema.declareAll 1 {} l.nodes with
  | error e =>
      rw [hdeclare] at hschema
      cases hschema
  | ok declared =>
      rw [hdeclare] at hschema
      exact hschema

end SheetCompiler

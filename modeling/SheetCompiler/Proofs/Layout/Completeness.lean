import SheetCompiler.Proofs.Layout.Tiling

/-!
# Every tiling is read

Reading a header finds constructs that tile its columns, and there is nothing else that they have to be: whatever tiles
the columns of a header is the layout that is read. So the layout of a header is the one tiling of it, and depends on
what the headings of its constructs say and on how many columns there are.
-/

namespace SheetCompiler

theorem Header.drop_read_columnCount (h : Header) : h.read.drop h.columnCount = [] :=
  List.drop_eq_nil_of_le (Nat.le_of_eq h.length_read)

namespace Node

variable {h : Header} {column : Nat}

/-- Whether reading the columns from one of them on finds a construct there, and leaves those behind its span. -/
def Found (h : Header) (column : Nat) (node : Node) : Prop :=
  ∃ t : Taken Node (h.read.drop (column + 1)), read ((h.heading column).read column) (h.read.drop (column + 1)) = .ok t
    ∧ t.value = node ∧ t.rest = h.read.drop (column + node.span)

/-- Whether reading so many members from a column on finds these, and leaves the columns behind their spans. -/
def FoundAll (h : Header) (column : Nat) (nodes : List Node) : Prop :=
  ∃ t : Taken (List Node) (h.read.drop column), readMembers nodes.length (h.read.drop column) = .ok t
    ∧ t.value = nodes ∧ t.rest = h.read.drop (column + spans nodes)

theorem length_le_spans (nodes : List Node) : nodes.length ≤ spans nodes := by
  induction nodes with
  | nil => exact Nat.le_refl 0
  | cons node nodes ih =>
      have := node.span_pos
      rw [List.length_cons, spans]
      omega

theorem found_value {field : ValueColumn} {optional : Bool}
    (hvalue : h.descriptor column = .ok (.value field optional)) : Found h column (.value field optional) := by
  refine ⟨⟨.value field optional, _, Nat.le_refl _⟩, ?_, rfl, rfl⟩
  rw [read, Header.descriptor_read, hvalue]

theorem found_struct {head : StructColumn} {members : List Node}
    (hstruct : h.descriptor column = .ok (.struct head members.length)) (hmembers : FoundAll h (column + 1) members)
    (hfits : column + 1 + spans members ≤ h.columnCount) : Found h column (.struct head members) := by
  obtain ⟨t, hread, hvalue, hrest⟩ := hmembers
  have hroom : ¬(h.read.drop (column + 1)).length < members.length := by
    have := length_le_spans members
    rw [Header.length_drop_read]
    omega
  refine ⟨⟨.struct head t.value, t.rest, t.length_le⟩, ?_, by rw [hvalue], ?_⟩
  · rw [read, Header.descriptor_read, hstruct]
    simp only [if_neg hroom, hread]
  · rw [span, ← Nat.add_assoc]
    exact hrest

theorem found_repeated {element node : Node} {max : Nat} {comment : String}
    (hcount : h.descriptor column = .ok (.count max comment)) (helement : Found h (column + 1) element)
    (hnode : element.repeated? column max = some node) (hspan : node.span = max * element.span + 1)
    (hroom : column + 1 + max * element.span ≤ h.columnCount) : Found h column node := by
  obtain ⟨t, hread, rfl, hrest⟩ := helement
  have hcopies := first_add_others (Header.descriptor_at hcount) t.value.span
  have hpos := t.value.span_pos
  have hothers : ¬t.rest.length < (max - 1) * t.value.span := by
    rw [hrest, Header.length_drop_read]
    omega
  have hnext : h.read.drop (column + 1) = (h.heading (column + 1)).read (column + 1) :: h.read.drop (column + 1 + 1) :=
    Header.drop_read_of_lt (by omega)
  have hindex : ((h.heading column).read column).index = column := rfl
  rw [Found, hnext]
  refine ⟨⟨node, t.rest.drop ((max - 1) * t.value.span), ?_⟩, ?_, rfl, ?_⟩
  · have := t.length_le
    rw [List.length_drop, List.length_cons]
    omega
  · rw [read, Header.descriptor_read, hcount]
    simp only [hread, hindex, hnode, if_neg hothers]
  · have hend : column + 1 + t.value.span + (max - 1) * t.value.span = column + node.span := by omega
    change t.rest.drop ((max - 1) * t.value.span) = _
    rw [hrest, List.drop_drop, hend]

mutual

theorem found_of_stands :
    ∀ {column : Nat} {node : Node}, node.Stands h column → column + node.span ≤ h.columnCount → Found h column node
  | column, .skip _, ⟨hcolumn, name, comment, hskip⟩, _ => by
      refine ⟨⟨.skip column, _, Nat.le_refl _⟩, ?_, by rw [hcolumn], rfl⟩
      rw [read, Header.descriptor_read, hskip]
      rfl
  | _, .value .., ⟨_, hvalue⟩, _ => found_value hvalue
  | column, .inline field, ⟨_, hinline⟩, _ => by
      refine ⟨⟨.inline field, _, Nat.le_refl _⟩, ?_, rfl, rfl⟩
      rw [read, Header.descriptor_read, hinline]
  | column, .values count max field optional, ⟨hcolumn, _, ⟨comment, hcount⟩, _, hvalue, hroom⟩, _ =>
      found_repeated hcount (found_value hvalue) (by rw [hcolumn]; rfl) (by rw [span, span, Nat.mul_one])
        (by rw [span, Nat.mul_one]; exact hroom)
  | column, .struct head members, ⟨_, hstruct, htile⟩, hfits => by
      rw [span] at hfits
      exact found_struct hstruct (foundAll_of_tile htile (by omega)) (by omega)
  | column, .structs count max head members,
      ⟨hcolumn, hpos, ⟨comment, hcount⟩, _, hstruct, htile, hroom⟩, _ => by
      have hcopy := Nat.le_mul_of_pos_left (1 + spans members) hpos
      have helement := found_struct hstruct (foundAll_of_tile htile (by omega)) (by omega)
      exact found_repeated hcount helement (by rw [hcolumn]; rfl) rfl hroom

theorem foundAll_of_tile :
    ∀ {column last : Nat} {nodes : List Node}, Tile h column last nodes → last ≤ h.columnCount →
      FoundAll h column nodes
  | _, _, [], _, _ => ⟨⟨[], _, Nat.le_refl _⟩, by rw [List.length_nil, readMembers], rfl, rfl⟩
  | column, last, node :: nodes, ⟨hstands, htile⟩, hfits => by
      have hlast := htile.last_eq
      have hpos := node.span_pos
      obtain ⟨t, hread, hvalue, hrest⟩ := found_of_stands hstands (by omega)
      have hmembers := foundAll_of_tile htile hfits
      rw [FoundAll, ← hrest] at hmembers
      obtain ⟨ts, hreads, hvalues, hrests⟩ := hmembers
      have hlt : column < h.columnCount := by omega
      rw [FoundAll, Header.drop_read_of_lt hlt]
      refine ⟨⟨t.value :: ts.value, ts.rest, ?_⟩, ?_, by rw [hvalue, hvalues], ?_⟩
      · have := t.length_le
        have := ts.length_le
        rw [List.length_cons]
        omega
      · rw [List.length_cons, readMembers]
        simp only [hread, hreads]
      · rw [spans, ← Nat.add_assoc]
        exact hrests

end

/-- What tiles the columns from one of them on is what is read there. -/
theorem readAll_of_tile {nodes : List Node} (htile : Tile h column h.columnCount nodes) :
    readAll (h.read.drop column) = .ok nodes := by
  induction nodes generalizing column with
  | nil =>
      cases (show column = h.columnCount from htile)
      rw [h.drop_read_columnCount, readAll]
  | cons node nodes ih =>
      obtain ⟨hstands, htile⟩ := htile
      have hlast := htile.last_eq
      have hpos := node.span_pos
      have hlt : column < h.columnCount := by omega
      obtain ⟨t, hread, rfl, hrest⟩ := found_of_stands hstands (by omega)
      rw [Header.drop_read_of_lt hlt, readAll, hread]
      simp only [hrest, ih htile]
      rfl

end Node

/-- The layout of a header is the one way to tile its columns. -/
theorem Layout.ofHeader_eq_ok_iff {h : Header} {l : Layout} :
    ofHeader h = .ok l ↔ l.columnCount = h.columnCount ∧ Node.Tile h 0 h.columnCount l.nodes := by
  constructor
  · exact tile_of_ofHeader
  · rintro ⟨hcount, htile⟩
    have hread : Node.readAll h.read = .ok l.nodes := Node.readAll_of_tile htile
    rw [ofHeader, hread, ← hcount]
    rfl

end SheetCompiler

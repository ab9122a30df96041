import SheetCompiler.Proofs.Outcome

/-!
# Layouts tile the sheet

The constructs of a layout stand side by side: each begins in the column where the span of the one before
it ends, the members of a struct and the first copy of a repetition included, and the last one ends at
the edge of the sheet. Every construct is what the headings of its own columns say, so a struct has as
many members as its heading declares and a repetition as many copies as its count allows, all of them
inside the sheet.
-/

namespace SheetCompiler

def Header.descriptor (h : Header) (column : Nat) : Except Malformed Descriptor :=
  Descriptor.read column (h.heading column)

namespace Descriptor

/-- What holds of every descriptor that is read in a column: it knows the column, and the numbers in it
are positive. -/
def At (column : Nat) : Descriptor → Prop
  | .skip .. => True
  | .value field _ | .inline field => field.column = column
  | .count max _ => 0 < max
  | .struct head members => head.column = column ∧ 0 < members

theorem readField_column {column : Nat} {heading : Heading} {type : ValueType} {field : ValueColumn}
    (h : readField column heading type = .ok field) : field.column = column := by
  obtain ⟨_, _, hfield⟩ := bind_eq_ok.1 h
  cases hfield
  rfl

theorem readRepeated_at {column : Nat} {heading : Heading} {word : String} {d : Descriptor}
    (h : readRepeated column heading word = .ok d) : d.At column := by
  simp only [readRepeated] at h
  split at h
  · split at h
    · cases h
      exact Nat.succ_pos _
    · cases h
  · split at h
    · obtain ⟨field, hfield, hd⟩ := bind_eq_ok.1 h
      cases hd
      exact readField_column hfield
    · cases h

theorem readStruct_at {column : Nat} {heading : Heading} {required : Bool} {size : String} {d : Descriptor}
    (h : readStruct column heading required size = .ok d) : d.At column := by
  rw [readStruct] at h
  split at h
  · obtain ⟨typeName, _, h⟩ := bind_eq_ok.1 h
    obtain ⟨name, _, h⟩ := bind_eq_ok.1 h
    cases h
    exact ⟨rfl, Nat.succ_pos _⟩
  · cases h

theorem readValue_at {column : Nat} {heading : Heading} {token word : String} {optional : Bool}
    {d : Descriptor}
    (h : (do return .value (← readField column heading (← readType column token word)) optional) = Except.ok d) :
    d.At column := by
  obtain ⟨type, _, h⟩ := bind_eq_ok.1 h
  obtain ⟨field, hfield, hd⟩ := bind_eq_ok.1 h
  cases hd
  exact readField_column hfield

theorem read_at {column : Nat} {heading : Heading} {d : Descriptor} (h : read column heading = .ok d) :
    d.At column := by
  rw [read] at h
  split at h
  · cases h
    trivial
  · split at h
    · exact readRepeated_at h
    · exact readValue_at h
  · exact readValue_at h
  · exact readValue_at h
  · exact readStruct_at h
  · exact readStruct_at h
  · cases h

end Descriptor

theorem Header.descriptor_at {h : Header} {column : Nat} {d : Descriptor} (hd : h.descriptor column = .ok d) :
    d.At column :=
  Descriptor.read_at hd

theorem Header.heading_eq_getElem {h : Header} {column : Nat} (hlt : column < h.columns.length) :
    h.heading column = h.columns[column] := by
  rw [Header.heading, List.getD_eq_getElem?_getD, List.getElem?_eq_getElem hlt, Option.getD_some]

theorem Header.length_read (h : Header) : h.read.length = h.columns.length := List.length_mapIdx

theorem Header.descriptor_read (h : Header) (column : Nat) :
    ((h.heading column).read column).descriptor = h.descriptor column := by
  rw [Heading.read, descriptor]

theorem Header.drop_read_of_lt {h : Header} {column : Nat} (hlt : column < h.columnCount) :
    h.read.drop column = (h.heading column).read column :: h.read.drop (column + 1) := by
  have hread : column < h.read.length := h.length_read ▸ hlt
  rw [List.drop_eq_getElem_cons hread, heading_eq_getElem hlt]
  simp only [read, List.getElem_mapIdx]
  rfl

theorem Header.drop_read_eq_cons {h : Header} {column : Nat} {first : Column} {right : List Column}
    (hdrop : h.read.drop column = first :: right) :
    column < h.columnCount ∧ first.index = column ∧ first.descriptor = h.descriptor column
      ∧ h.read.drop (column + 1) = right := by
  have hlt : column < h.columnCount := by
    rcases Nat.lt_or_ge column h.columnCount with hlt | hge
    · exact hlt
    · rw [List.drop_eq_nil_of_le (h.length_read ▸ hge)] at hdrop
      cases hdrop
  rw [drop_read_of_lt hlt] at hdrop
  obtain ⟨rfl, hright⟩ := List.cons.inj hdrop
  exact ⟨hlt, rfl, h.descriptor_read column, hright⟩

theorem Header.length_drop_read (h : Header) (column : Nat) :
    (h.read.drop column).length = h.columnCount - column := by
  rw [List.length_drop, h.length_read, Header.columnCount]

namespace Node

mutual

/-- Whether a construct stands in the column `first`: it begins there, it is what the heading there says,
and what it holds tiles the columns behind that one. -/
def Stands (h : Header) (first : Nat) : Node → Prop
  | .skip column => column = first ∧ ∃ name comment, h.descriptor first = .ok (.skip name comment)
  | .value field optional => field.column = first ∧ h.descriptor first = .ok (.value field optional)
  | .inline field => field.column = first ∧ h.descriptor first = .ok (.inline field)
  | .values count max field optional =>
      count = first ∧ 0 < max ∧ (∃ comment, h.descriptor first = .ok (.count max comment))
        ∧ field.column = first + 1 ∧ h.descriptor (first + 1) = .ok (.value field optional)
        ∧ first + 1 + max ≤ h.columnCount
  | .struct head members =>
      head.column = first ∧ h.descriptor first = .ok (.struct head members.length)
        ∧ Tile h (first + 1) (first + 1 + spans members) members
  | .structs count max head members =>
      count = first ∧ 0 < max ∧ (∃ comment, h.descriptor first = .ok (.count max comment))
        ∧ head.column = first + 1 ∧ h.descriptor (first + 1) = .ok (.struct head members.length)
        ∧ Tile h (first + 2) (first + 2 + spans members) members
        ∧ first + 1 + max * (1 + spans members) ≤ h.columnCount

/-- Whether constructs tile the columns from `first` up to `last`: each stands where the span of the one
before it ends. -/
def Tile (h : Header) (first last : Nat) : List Node → Prop
  | [] => first = last
  | node :: nodes => node.Stands h first ∧ Tile h (first + node.span) last nodes

end

theorem span_pos (node : Node) : 0 < node.span := by
  cases node <;> simp only [span] <;> omega

theorem Stands.column_eq {h : Header} {first : Nat} {node : Node} (hstands : node.Stands h first) :
    node.column = first := by
  cases node <;> exact hstands.1

theorem Tile.last_eq {h : Header} {first last : Nat} {nodes : List Node} (htile : Tile h first last nodes) :
    last = first + spans nodes := by
  induction nodes generalizing first with
  | nil => exact htile.symm
  | cons node nodes ih =>
      rw [ih htile.2, spans]
      omega

/-! ### Reading a header tiles its columns -/

/-- Whether reading a construct in front of the columns `right` finds what stands there, and leaves the
columns behind its span. -/
def ReadsSoundly (h : Header) (right : List Column) : Prop :=
  ∀ {column : Nat} {first : Column} {t : Taken Node right},
    h.read.drop column = first :: right → read first right = .ok t →
      t.value.Stands h column ∧ t.rest = h.read.drop (column + t.value.span)
        ∧ column + t.value.span ≤ h.columnCount

/-- The first copy of a construct and the others together are all copies. -/
theorem first_add_others {max : Nat} (hpos : 0 < max) (span : Nat) : span + (max - 1) * span = max * span := by
  rw [Nat.add_comm, ← Nat.succ_mul, Nat.succ_eq_add_one, Nat.sub_add_cancel hpos]

theorem tile_of_readMembers {h : Header} {bound : Nat}
    (hsound : ∀ right : List Column, right.length < bound → ReadsSoundly h right) {size column : Nat}
    {columns : List Column} {t : Taken (List Node) columns} (hbound : columns.length ≤ bound)
    (hcolumns : h.read.drop column = columns) (hle : column ≤ h.columnCount)
    (hread : readMembers size columns = .ok t) :
    Tile h column (column + spans t.value) t.value ∧ t.value.length = size
      ∧ t.rest = h.read.drop (column + spans t.value) ∧ column + spans t.value ≤ h.columnCount := by
  induction size generalizing column columns with
  | zero =>
      rw [readMembers] at hread
      cases hread
      exact ⟨rfl, rfl, hcolumns.symm, hle⟩
  | succ size ih =>
      cases columns with
      | nil =>
          rw [readMembers] at hread
          cases hread
      | cons first right =>
          rw [readMembers] at hread
          split at hread
          · cases hread
          · next member hmember =>
            split at hread
            · cases hread
            · next members hmembers =>
              cases hread
              simp only [List.length_cons] at hbound
              obtain ⟨hstands, hrest, hfits⟩ := hsound right (by omega) hcolumns hmember
              have hshorter := member.length_le
              obtain ⟨htile, hsize, hrest', hfits'⟩ := ih (by omega) hrest.symm hfits hmembers
              have hspan : column + (member.value.span + spans members.value)
                  = column + member.value.span + spans members.value := by omega
              simp only [spans, hspan]
              exact ⟨⟨hstands, htile⟩, congrArg (· + 1) hsize, hrest', hfits'⟩

/-- The repetition of a construct stands in the column of its count if the construct stands in the next
one and there is room for the other copies behind it. -/
theorem stands_of_repeated? {h : Header} {column max : Nat} {comment : String} {element node : Node}
    (hcount : h.descriptor column = .ok (.count max comment)) (helement : element.Stands h (column + 1))
    (hnode : element.repeated? column max = some node)
    (hroom : column + 1 + max * element.span ≤ h.columnCount) :
    node.Stands h column ∧ node.span = max * element.span + 1 := by
  have hpos : 0 < max := Header.descriptor_at hcount
  cases element <;> simp only [repeated?, Option.some.injEq, reduceCtorEq] at hnode <;> subst hnode
  case value field optional =>
    obtain ⟨hfield, hvalue⟩ := helement
    rw [span, Nat.mul_one] at hroom ⊢
    exact ⟨⟨rfl, hpos, ⟨comment, hcount⟩, hfield, hvalue, hroom⟩, rfl⟩
  case struct head members =>
    obtain ⟨hhead, hstruct, htile⟩ := helement
    exact ⟨⟨rfl, hpos, ⟨comment, hcount⟩, hhead, hstruct, htile, hroom⟩, rfl⟩

/-- A repetition takes the columns of its first copy, which is read, and those of the others, which are not. -/
theorem stands_of_first_copy {h : Header} {column max : Nat} {comment : String} {element node : Node}
    (hcount : h.descriptor column = .ok (.count max comment)) (helement : element.Stands h (column + 1))
    (hnode : element.repeated? column max = some node)
    (hfits : column + 1 + element.span ≤ h.columnCount)
    (hroom : (max - 1) * element.span ≤ (h.read.drop (column + 1 + element.span)).length) :
    node.Stands h column
      ∧ (h.read.drop (column + 1 + element.span)).drop ((max - 1) * element.span) = h.read.drop (column + node.span)
      ∧ column + node.span ≤ h.columnCount := by
  have hcopies := first_add_others (Header.descriptor_at hcount) element.span
  rw [Header.length_drop_read] at hroom
  obtain ⟨hstands, hspan⟩ := stands_of_repeated? hcount helement hnode (by omega)
  have hend : column + 1 + element.span + (max - 1) * element.span = column + node.span := by omega
  refine ⟨hstands, ?_, by omega⟩
  rw [List.drop_drop, hend]

theorem readsSoundly (h : Header) (right : List Column) : ReadsSoundly h right := by
  -- A member is read from the columns that the members before it have left, which are fewer but no fixed part.
  induction hlength : right.length using Nat.strongRecOn generalizing right with
  | ind bound ih =>
  have hsound : ∀ shorter : List Column, shorter.length < bound → ReadsSoundly h shorter :=
    fun shorter hlt => ih shorter.length hlt shorter rfl
  intro column first t hcolumns hread
  obtain ⟨hlt, hindex, hdescriptor, hright⟩ := Header.drop_read_eq_cons hcolumns
  rw [read, hdescriptor, hindex] at hread
  split at hread
  · cases hread
  · next name comment hd =>
    cases hread
    exact ⟨⟨rfl, name, comment, hd⟩, hright.symm, hlt⟩
  · next hd =>
    cases hread
    exact ⟨⟨Header.descriptor_at hd, hd⟩, hright.symm, hlt⟩
  · next hd =>
    cases hread
    exact ⟨⟨Header.descriptor_at hd, hd⟩, hright.symm, hlt⟩
  · next head size hd =>
    split at hread
    · cases hread
    · split at hread
      · cases hread
      · cases hread
      · next members hmembers =>
        cases hread
        obtain ⟨htile, hsize, hrest, hfits⟩ :=
          tile_of_readMembers hsound (Nat.le_of_eq hlength) hright hlt hmembers
        have hspan : column + (1 + spans members.value) = column + 1 + spans members.value := by omega
        simp only [span, hspan]
        exact ⟨⟨(Header.descriptor_at hd).1, hsize ▸ hd, htile⟩, hrest, hfits⟩
  · next max comment hd =>
    split at hread
    · cases hread
    · next next others =>
      split at hread
      · cases hread
      · next element helement =>
        split at hread
        · cases hread
        · next node hnode =>
          split at hread
          · cases hread
          · next hroom =>
            cases hread
            simp only [List.length_cons] at hlength
            obtain ⟨hstands, hrest, hfits⟩ := hsound others (by omega) hright helement
            rw [hrest] at hroom
            simp only [hrest]
            exact stands_of_first_copy hd hstands hnode hfits (Nat.le_of_not_lt hroom)

theorem tile_of_readAll {h : Header} {column : Nat} {columns : List Column} {nodes : List Node}
    (hcolumns : h.read.drop column = columns) (hle : column ≤ h.columnCount)
    (hread : readAll columns = .ok nodes) : Tile h column h.columnCount nodes := by
  induction hlength : columns.length using Nat.strongRecOn generalizing column columns nodes with
  | ind length ih =>
  cases columns with
  | nil =>
      rw [readAll] at hread
      cases hread
      have := h.length_drop_read column
      rw [hcolumns, List.length_nil] at this
      change column = h.columnCount
      omega
  | cons first right =>
      rw [readAll] at hread
      split at hread
      · cases hread
      · next node hnode =>
        obtain ⟨nodes', hnodes, hcons⟩ := bind_eq_ok.1 hread
        cases hcons
        obtain ⟨hstands, hrest, hfits⟩ := readsSoundly h right hcolumns hnode
        have hshorter := node.length_le
        simp only [List.length_cons] at hlength
        exact ⟨hstands, ih node.rest.length (by omega) hrest.symm hfits hnodes rfl⟩

end Node

/-- The constructs of a layout tile all columns of its sheet. -/
theorem Layout.tile_of_ofHeader {h : Header} {l : Layout} (hlayout : Layout.ofHeader h = .ok l) :
    l.columnCount = h.columnCount ∧ Node.Tile h 0 h.columnCount l.nodes := by
  obtain ⟨nodes, hnodes, hl⟩ := bind_eq_ok.1 hlayout
  cases hl
  exact ⟨rfl, Node.tile_of_readAll rfl (Nat.zero_le _) hnodes⟩

theorem Layout.span_of_ofHeader {h : Header} {l : Layout} (hlayout : Layout.ofHeader h = .ok l) :
    l.span = l.columnCount := by
  obtain ⟨hcount, htile⟩ := Layout.tile_of_ofHeader hlayout
  have := htile.last_eq
  rw [Layout.span, hcount]
  omega

end SheetCompiler

import SheetCompiler.Proofs.Layout.Completeness
import SheetCompiler.Proofs.Layout.Widening

/-!
# Reserved columns

The first copy of a repetition has headings, and the columns of the others are reserved: nothing is read of what stands
above them. So the headings of reserved columns can be changed at will, and the layout of the sheet stays the same, with
the schema that is made of it and the column of the id, which is the first with a type.
-/

namespace SheetCompiler

/-- Whether a column belongs to a later copy than the first one of a repetition whose count stands in the column
`count`, where each of the `max` copies takes `span` columns. -/
def LaterCopy (count max span column : Nat) : Prop := count + 1 + span ≤ column ∧ column < count + 1 + max * span

instance (count max span column : Nat) : Decidable (LaterCopy count max span column) :=
  inferInstanceAs (Decidable (_ ∧ _))

namespace Node

mutual

/-- Whether a column is reserved for a later copy of the construct, or of one in it. -/
def Reserves (column : Nat) : Node → Prop
  | .skip _ | .value .. | .inline _ => False
  | .values count max _ _ => LaterCopy count max 1 column
  | .struct _ members => ReservesAny column members
  | .structs count max _ members => LaterCopy count max (1 + spans members) column ∨ ReservesAny column members

def ReservesAny (column : Nat) : List Node → Prop
  | [] => False
  | node :: nodes => Reserves column node ∨ ReservesAny column nodes

end

mutual

def decideReserves (column : Nat) : ∀ node : Node, Decidable (Reserves column node)
  | .skip _ | .value .. | .inline _ => inferInstanceAs (Decidable False)
  | .values count max _ _ => inferInstanceAs (Decidable (LaterCopy count max 1 column))
  | .struct _ members => decideReservesAny column members
  | .structs count max _ members =>
      have := decideReservesAny column members
      inferInstanceAs (Decidable (LaterCopy count max (1 + spans members) column ∨ ReservesAny column members))

def decideReservesAny (column : Nat) : ∀ nodes : List Node, Decidable (ReservesAny column nodes)
  | [] => inferInstanceAs (Decidable False)
  | node :: nodes =>
      have := decideReserves column node
      have := decideReservesAny column nodes
      inferInstanceAs (Decidable (Reserves column node ∨ ReservesAny column nodes))

end

instance (column : Nat) (node : Node) : Decidable (Reserves column node) := decideReserves column node

instance (column : Nat) (nodes : List Node) : Decidable (ReservesAny column nodes) := decideReservesAny column nodes

end Node

theorem Header.typed_of_descriptor {h : Header} {column : Nat} {d : Descriptor} (hd : h.descriptor column = .ok d)
    (hskip : ∀ name comment, d ≠ .skip name comment) : Text.isBlank (h.heading column).type = false := by
  cases hblank : Text.isBlank (h.heading column).type with
  | false => rfl
  | true =>
      have hskipped := Heading.descriptor_read_of_blank hblank column
      rw [Header.descriptor_read, hd] at hskipped
      exact absurd (Except.ok.inj hskipped) (hskip _ _)

namespace Node

variable {h h' : Header}

/-! ### Where reserved columns are -/

mutual

/-- The column where a construct begins is not reserved for it, nor is any that it does not take. -/
theorem Stands.range_of_reserves {column : Nat} :
    ∀ {first : Nat} {node : Node}, node.Stands h first → node.Reserves column →
      first < column ∧ column < first + node.span
  | _, .skip _, _, hreserves | _, .value .., _, hreserves | _, .inline _, _, hreserves => hreserves.elim
  | first, .values count max _ _, ⟨hcount, _⟩, hreserves => by
      rw [Reserves, LaterCopy] at hreserves
      rw [span]
      omega
  | first, .struct _ members, ⟨_, _, htile⟩, hreserves => by
      have := htile.range_of_reserves hreserves
      rw [span]
      omega
  | first, .structs count max _ members, ⟨hcount, hpos, _, _, _, htile, _⟩, hreserves => by
      have hcopy := Nat.le_mul_of_pos_left (1 + spans members) hpos
      rw [span]
      rcases hreserves with hlater | hmembers
      · rw [LaterCopy] at hlater
        omega
      · have := htile.range_of_reserves hmembers
        omega

theorem Tile.range_of_reserves {column : Nat} :
    ∀ {first last : Nat} {nodes : List Node}, Tile h first last nodes → ReservesAny column nodes →
      first < column ∧ column < last
  | first, last, node :: nodes, ⟨hstands, htile⟩, hreserves => by
      have hlast := htile.last_eq
      rcases hreserves with hnode | hnodes
      · have := hstands.range_of_reserves hnode
        omega
      · have := htile.range_of_reserves hnodes
        have := node.span_pos
        omega

end

theorem Stands.typed_of_reserves {first column : Nat} {node : Node} (hstands : node.Stands h first)
    (hreserves : node.Reserves column) : Text.isBlank (h.heading first).type = false := by
  cases node with
  | skip | value | inline => exact hreserves.elim
  | values =>
      obtain ⟨-, -, ⟨_, hcount⟩, -⟩ := hstands
      exact Header.typed_of_descriptor hcount nofun
  | struct =>
      obtain ⟨-, hstruct, -⟩ := hstands
      exact Header.typed_of_descriptor hstruct nofun
  | structs =>
      obtain ⟨-, -, ⟨_, hcount⟩, -⟩ := hstands
      exact Header.typed_of_descriptor hcount nofun

/-- A reserved column stands to the right of one that has a type and is not reserved. -/
theorem Tile.exists_typed {first last column : Nat} {nodes : List Node} (htile : Tile h first last nodes)
    (hreserves : ReservesAny column nodes) :
    ∃ typed, first ≤ typed ∧ typed < column ∧ ¬ReservesAny typed nodes
      ∧ Text.isBlank (h.heading typed).type = false := by
  induction nodes generalizing first with
  | nil => exact hreserves.elim
  | cons node nodes ih =>
      have hrange {column : Nat} (h : ReservesAny column (node :: nodes)) := htile.range_of_reserves h
      obtain ⟨hstands, htile⟩ := htile
      rcases hreserves with hnode | hnodes
      · exact ⟨first, Nat.le_refl first, (hstands.range_of_reserves hnode).1,
          fun hfirst => Nat.lt_irrefl first (hrange hfirst).1, hstands.typed_of_reserves hnode⟩
      · obtain ⟨typed, hle, hlt, hnot, htyped⟩ := ih htile hnodes
        refine ⟨typed, by omega, hlt, ?_, htyped⟩
        rintro (hnode | hnodes)
        · have := hstands.range_of_reserves hnode
          omega
        · exact hnot hnodes

/-! ### What stands above reserved columns -/

mutual

/-- A construct stands where it does by the headings of columns that are not reserved for it. -/
theorem Stands.of_descriptor_eq (hwidth : h'.columnCount = h.columnCount) :
    ∀ {first : Nat} {node : Node}, node.Stands h first →
      (∀ c, first ≤ c → c < first + node.span → ¬node.Reserves c → h'.descriptor c = h.descriptor c) →
      node.Stands h' first
  | first, .skip _, ⟨hcolumn, hheading⟩, hsame | first, .value .., ⟨hcolumn, hheading⟩, hsame
  | first, .inline _, ⟨hcolumn, hheading⟩, hsame => by
      refine ⟨hcolumn, ?_⟩
      rwa [hsame first (Nat.le_refl first) (Nat.lt_succ_self first) id]
  | first, .values count max _ _, ⟨hcolumn, hpos, hcount, hfield, hvalue, hroom⟩, hsame => by
      rw [span] at hsame
      have hsame (c : Nat) (hle : first ≤ c) (hlt : c < first + 2) : h'.descriptor c = h.descriptor c := by
        refine hsame c hle (by omega) fun hreserves => ?_
        rw [Reserves, LaterCopy] at hreserves
        omega
      refine ⟨hcolumn, hpos, ?_, hfield, ?_, hwidth ▸ hroom⟩
      · rwa [hsame first (Nat.le_refl first) (by omega)]
      · rwa [hsame (first + 1) (by omega) (by omega)]
  | first, .struct _ members, ⟨hcolumn, hstruct, htile⟩, hsame => by
      rw [span] at hsame
      refine ⟨hcolumn, ?_, ?_⟩
      · rwa [hsame first (Nat.le_refl first) (by omega) fun hreserves => ?_]
        have := htile.range_of_reserves hreserves
        omega
      · exact htile.of_descriptor_eq hwidth fun c hle hlt => hsame c (by omega) (by omega)
  | first, .structs count max _ members, ⟨hcolumn, hpos, hcount, hhead, hstruct, htile, hroom⟩, hsame => by
      have hcopy := Nat.le_mul_of_pos_left (1 + spans members) hpos
      rw [span] at hsame
      have hsame (c : Nat) (hle : first ≤ c) (hlt : c < first + 2 + spans members)
          (hnot : ¬ReservesAny c members) : h'.descriptor c = h.descriptor c := by
        refine hsame c hle (by omega) fun hreserves => ?_
        rcases hreserves with hlater | hmembers
        · rw [LaterCopy] at hlater
          omega
        · exact hnot hmembers
      have hfront (c : Nat) (hlt : c < first + 2) : ¬ReservesAny c members := fun hreserves => by
        have := htile.range_of_reserves hreserves
        omega
      refine ⟨hcolumn, hpos, ?_, hhead, ?_, ?_, hwidth ▸ hroom⟩
      · rwa [hsame first (Nat.le_refl first) (by omega) (hfront first (by omega))]
      · rwa [hsame (first + 1) (by omega) (by omega) (hfront (first + 1) (by omega))]
      · exact htile.of_descriptor_eq hwidth fun c hle hlt => hsame c (by omega) hlt

theorem Tile.of_descriptor_eq (hwidth : h'.columnCount = h.columnCount) :
    ∀ {first last : Nat} {nodes : List Node}, Tile h first last nodes →
      (∀ c, first ≤ c → c < last → ¬ReservesAny c nodes → h'.descriptor c = h.descriptor c) → Tile h' first last nodes
  | _, _, [], htile, _ => htile
  | first, last, node :: nodes, ⟨hstands, htile⟩, hsame => by
      have hlast := htile.last_eq
      have hpos := node.span_pos
      constructor
      · refine hstands.of_descriptor_eq hwidth fun c hle hlt hnot => hsame c hle (by omega) ?_
        rintro (hnode | hnodes)
        · exact hnot hnode
        · have := htile.range_of_reserves hnodes
          omega
      · refine htile.of_descriptor_eq hwidth fun c hle hlt hnot => hsame c (by omega) hlt ?_
        rintro (hnode | hnodes)
        · have := hstands.range_of_reserves hnode
          omega
        · exact hnot hnodes

end

end Node

/-- Whether a column is reserved for a later copy than the first one of some repetition in the layout. -/
def Layout.Reserves (l : Layout) (column : Nat) : Prop := Node.ReservesAny column l.nodes

instance (l : Layout) (column : Nat) : Decidable (l.Reserves column) :=
  inferInstanceAs (Decidable (Node.ReservesAny column l.nodes))

/-- Changing headings to the right of a column with a type does not change which column is the first with one. -/
theorem Header.idColumn?_eq_some_of {h h' : Header} {reserved : Nat → Prop} (hwidth : h'.columnCount = h.columnCount)
    (hsame : ∀ c < h.columnCount, ¬reserved c → h'.heading c = h.heading c)
    (hfront : ∀ c, reserved c → ∃ typed < c, Text.isBlank (h.heading typed).type = false) {id : Nat}
    (hid : h.idColumn? = some id) : h'.idColumn? = some id := by
  rw [idColumn?_eq_some_iff] at hid ⊢
  obtain ⟨hlt, htyped, hblank⟩ := hid
  have hnot : ∀ c ≤ id, ¬reserved c := by
    intro c hc hreserved
    obtain ⟨first, hfirst, htyped⟩ := hfront c hreserved
    rw [hblank first (Nat.lt_of_lt_of_le hfirst hc)] at htyped
    cases htyped
  have hheading (c : Nat) (hc : c ≤ id) : h'.heading c = h.heading c := hsame c (by omega) (hnot c hc)
  refine ⟨hwidth ▸ hlt, by rwa [hheading id (Nat.le_refl id)], ?_⟩
  intro c hc
  rw [hheading c (Nat.le_of_lt hc)]
  exact hblank c hc

section Headings

variable {h h' : Header} {l : Layout} (hlayout : Layout.ofHeader h = .ok l)
  (hwidth : h'.columnCount = h.columnCount)
  (hsame : ∀ c < h.columnCount, ¬l.Reserves c → h'.heading c = h.heading c)
include hlayout hwidth hsame

/-- A header that differs in the headings of reserved columns has the same layout. -/
theorem Layout.ofHeader_of_heading_eq : Layout.ofHeader h' = .ok l := by
  obtain ⟨hcount, htile⟩ := Layout.tile_of_ofHeader hlayout
  refine Layout.ofHeader_eq_ok_iff.2 ⟨hcount.trans hwidth.symm, ?_⟩
  rw [hwidth]
  apply htile.of_descriptor_eq hwidth
  intro c _ hlt hnot
  rw [Header.descriptor, Header.descriptor, hsame c hlt hnot]

/-- A header that differs in the headings of reserved columns has the id in the same column. -/
theorem Header.idColumn?_of_heading_eq : h'.idColumn? = h.idColumn? := by
  obtain ⟨-, htile⟩ := Layout.tile_of_ofHeader hlayout
  have hfront : ∀ c, l.Reserves c → ∃ typed < c, Text.isBlank (h.heading typed).type = false := by
    intro c hreserves
    obtain ⟨typed, -, hlt, -, htyped⟩ := htile.exists_typed hreserves
    exact ⟨typed, hlt, htyped⟩
  have hfront' : ∀ c, l.Reserves c → ∃ typed < c, Text.isBlank (h'.heading typed).type = false := by
    intro c hreserves
    obtain ⟨typed, -, hlt, hnot, htyped⟩ := htile.exists_typed hreserves
    have hrange := htile.range_of_reserves hreserves
    exact ⟨typed, hlt, by rwa [hsame typed (by omega) hnot]⟩
  have hsame' : ∀ c < h'.columnCount, ¬l.Reserves c → h.heading c = h'.heading c := by
    intro c hlt hnot
    exact (hsame c (hwidth ▸ hlt) hnot).symm
  apply Option.ext
  intro id
  exact ⟨Header.idColumn?_eq_some_of hwidth.symm hsame' hfront', Header.idColumn?_eq_some_of hwidth hsame hfront⟩

end Headings

end SheetCompiler

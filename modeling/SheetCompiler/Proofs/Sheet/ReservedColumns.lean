import SheetCompiler.Proofs.Layout.Reserved
import SheetCompiler.Proofs.Rows.Agreement
import SheetCompiler.Proofs.Sheet.Reading

/-!
# Sheets that differ above reserved columns

The header cells of the columns that a repetition reserves for its later copies are never read. Two sheets that differ
in nothing else have the same layout, the same schema or the same fault, and whatever type and enums they are read with,
the same data or the same error.
-/

namespace SheetCompiler

variable {g g' : Grid}

/-- Grids with as many rows whose cells are the same below the header have data rows that show the same cells. -/
theorem Grid.dataRows_show (hrows : g'.rowCount = g.rowCount)
    (hcells : ∀ r c, Header.height ≤ r → g'.cell r c = g.cell r c) :
    RowsShow (g'.rows.drop Header.height) (g.rows.drop Header.height) := by
  have hlength : (g'.rows.drop Header.height).length = (g.rows.drop Header.height).length := by
    rw [List.length_drop, List.length_drop]
    exact congrArg (· - Header.height) hrows
  refine List.forall₂_iff_get.2 ⟨hlength, ?_⟩
  intro i hi' hi c
  have hrow (g : Grid) (hi : i < (g.rows.drop Header.height).length) :
      (g.rows.drop Header.height).get ⟨i, hi⟩ = g.row (Header.height + i) := by
    have hlt : Header.height + i < g.rows.length := by
      rw [List.length_drop] at hi
      omega
    rw [row, List.getD_eq_getElem?_getD, List.getElem?_eq_getElem hlt, List.get_eq_getElem, List.getElem_drop,
      Option.getD_some]
  rw [hrow g' hi', hrow g hi]
  exact hcells (Header.height + i) c (Nat.le_add_right _ i)

/-- Header cells above columns that are reserved for later copies of a repetition change neither the layout of a sheet,
nor its schema, nor what is read of it, whether that succeeds or not. -/
theorem EncodedSheet.ofGrid_of_reserved {l : Layout} (hlayout : Layout.ofHeader (Header.ofGrid g) = .ok l)
    (hrows : g'.rowCount = g.rowCount) (hcolumns : g'.columnCount = g.columnCount)
    (hcells : ∀ r c, g'.cell r c ≠ g.cell r c → r < Header.height ∧ l.Reserves c) :
    Layout.ofHeader (Header.ofGrid g') = .ok l
      ∧ (∀ record options, Schema.ofHeader (Header.ofGrid g') record options
          = Schema.ofHeader (Header.ofGrid g) record options)
      ∧ ∀ type enums, ofGrid g' type enums = ofGrid g type enums := by
  have hwidth : (Header.ofGrid g').columnCount = (Header.ofGrid g).columnCount := by
    rw [Header.columnCount_ofGrid, Header.columnCount_ofGrid, hcolumns]
  have hsame : ∀ c < (Header.ofGrid g).columnCount, ¬l.Reserves c →
      (Header.ofGrid g').heading c = (Header.ofGrid g).heading c := by
    intro c hlt hnot
    rw [Header.columnCount_ofGrid] at hlt
    have hcell (r : Nat) : g'.cell r c = g.cell r c := by
      by_contra hne
      exact hnot (hcells r c hne).2
    rw [Header.heading_ofGrid hlt, Header.heading_ofGrid (hcolumns.symm ▸ hlt), hcell, hcell, hcell]
  have hlayout' := Layout.ofHeader_of_heading_eq hlayout hwidth hsame
  refine ⟨hlayout', ?_, ?_⟩
  · intro record options
    rw [Schema.ofHeader_eq hlayout', Schema.ofHeader_eq hlayout]
  · intro type enums
    have hdata := Grid.dataRows_show hrows fun r c hbelow => by
      by_contra hne
      exact absurd (hcells r c hne).1 (Nat.not_lt.2 hbelow)
    have hread : readData g' l type enums = readData g l type enums := by
      rw [readData, readData, Header.idColumn?_of_heading_eq hlayout hwidth hsame]
      cases (Header.ofGrid g).idColumn? with
      | none => rfl
      | some id => exact readRows_congr hdata (.inl rfl) type id Header.height
    rw [ofGrid_eq, ofGrid_eq, hlayout', hlayout]
    simp only [Except.mapError, bind, Except.bind, hread]

/-- Two stores with up to two aisles of up to two bins each. Only the first bin of the first aisle has a heading. -/
def stores : Grid :=
  ⟨[["", "", "aisle"], ["int32", "2[]", "required_struct 2", "2[]", "int32", "", "string"],
    ["id", "", "Aisle", "", "bin", "", "name"],
    ["1", "2", "", "2", "11", "12", "oils", "", "1", "21", "", "teas"], ["2", "1", "", "0", "", "", "nuts"]]⟩

/-- The same stores, with headings above the other bins and the other aisle that cannot be read, name an enum or open
other structs and repetitions. -/
def strayHeadedStores : Grid :=
  ⟨[["", "", "aisle", "", "", "old", "", "=", "x", "9 lives"],
    ["int32", "2[]", "required_struct 2", "2[]", "int32", "enum-Color", "string", "0[]", "optional",
      "required_struct 7", "9[]", "int31"],
    ["id", "", "Aisle", "", "bin", "", "name", "", "id", "Aisle", "id"],
    ["1", "2", "", "2", "11", "12", "oils", "", "1", "21", "", "teas"], ["2", "1", "", "0", "", "", "nuts"]]⟩

/-- The two sheets differ in header cells of reserved columns only. -/
theorem strayHeadedStores_differ {l : Layout}
    (hreserved : ∀ r < Header.height, ∀ c < 12, strayHeadedStores.cell r c ≠ stores.cell r c → l.Reserves c) (r c : Nat)
    (hne : strayHeadedStores.cell r c ≠ stores.cell r c) : r < Header.height ∧ l.Reserves c := by
  have hheader : r < Header.height := by
    by_contra hbelow
    obtain ⟨i, rfl⟩ := Nat.exists_eq_add_of_le' (Nat.le_of_not_lt hbelow)
    exact hne rfl
  have hshort : ∀ r < Header.height, (strayHeadedStores.row r).length ≤ 12 ∧ (stores.row r).length ≤ 12 := by decide
  obtain ⟨hstray, hstores⟩ := hshort r hheader
  refine ⟨hheader, hreserved r hheader c ?_ hne⟩
  by_contra hright
  apply hne
  rw [Grid.cell, Grid.cell, Grid.cellOf_of_length_le (by omega), Grid.cellOf_of_length_le (by omega)]

theorem strayHeadedStores_read_as_stores :
    ∃ schema s, Schema.ofHeader (Header.ofGrid strayHeadedStores) "Store" {} = .ok schema
      ∧ EncodedSheet.ofGrid strayHeadedStores schema.type {} = .ok s
      ∧ s.binary = [10, 25, 8, 1, 18, 10, 10, 2, 11, 12, 18, 4, 111, 105, 108, 115, 18, 9, 10, 1, 21, 18, 4, 116, 101,
        97, 115, 10, 10, 8, 2, 18, 6, 18, 4, 110, 117, 116, 115] := by
  have hreserved : ((Layout.ofHeader (Header.ofGrid stores)).toOption.map fun l => decide (∀ r < Header.height,
      ∀ c < 12, strayHeadedStores.cell r c ≠ stores.cell r c → l.Reserves c)) = some true := by decide +kernel
  have hwritten : ((Schema.ofHeader (Header.ofGrid stores) "Store" {}).toOption.bind fun schema =>
      (EncodedSheet.ofGrid stores schema.type {}).toOption.map fun s => s.binary)
        = some [10, 25, 8, 1, 18, 10, 10, 2, 11, 12, 18, 4, 111, 105, 108, 115, 18, 9, 10, 1, 21, 18, 4, 116, 101,
          97, 115, 10, 10, 8, 2, 18, 6, 18, 4, 110, 117, 116, 115] := by decide +kernel
  obtain ⟨l, hlayout, hreserved⟩ := map_toOption_eq_some.1 hreserved
  obtain ⟨schema, hschema, hwritten⟩ := Option.bind_eq_some_iff.1 hwritten
  obtain ⟨s, hs, hbinary⟩ := map_toOption_eq_some.1 hwritten
  obtain ⟨-, hschemas, hsheets⟩ := EncodedSheet.ofGrid_of_reserved hlayout (by decide) (by decide)
    (strayHeadedStores_differ (of_decide_eq_true hreserved))
  exact ⟨schema, s, (hschemas "Store" {}).trans (toOption_eq_some.1 hschema),
    (hsheets schema.type {}).trans hs, hbinary⟩

end SheetCompiler

import SheetCompiler.Proofs.Grid
import SheetCompiler.Proofs.Layout.Widening
import SheetCompiler.Proofs.Rows.Refinement
import SheetCompiler.Proofs.Sheet

/-!
# Where a row stands, and in how wide a sheet

The record of a data row depends on the cells that the layout covers. It makes no difference to the record in which row
of the sheet they stand, what else the row holds on the right, nor whether columns without a type are added there. And
a row that is blank in the column of the id is left out, whatever else it holds. So data rows are read as the same
records among others and in a wider sheet.
-/

namespace SheetCompiler

variable {h h' : Header} {l l' : Layout}

/-! ### Headers of wider grids -/

theorem Header.columnCount_ofGrid (g : Grid) : (ofGrid g).columnCount = g.columnCount := by
  rw [columnCount, ofGrid, List.length_map, List.length_range]

theorem Header.heading_ofGrid {g : Grid} {c : Nat} (hlt : c < g.columnCount) :
    (ofGrid g).heading c = ⟨g.cell 0 c, g.cell 1 c, g.cell 2 c⟩ := by
  have hcolumn : c < (ofGrid g).columns.length := Nat.lt_of_lt_of_eq hlt (columnCount_ofGrid g).symm
  rw [heading_eq_getElem hcolumn]
  simp only [ofGrid, List.getElem_map, List.getElem_range]
  rfl

/-- A grid that shows the same header cells, and none with a type behind them, has a header that is wider. -/
theorem Header.widensTo_of_cells {g g' : Grid} (hwidth : g.columnCount ≤ g'.columnCount)
    (hcells : ∀ r < height, ∀ c < g.columnCount, g'.cell r c = g.cell r c)
    (hblank : ∀ c, g.columnCount ≤ c → Text.isBlank (g'.cell 1 c) = true) : (ofGrid g).WidensTo (ofGrid g') := by
  obtain ⟨added, hadded⟩ := Nat.exists_eq_add_of_le hwidth
  let headingOf (c : Nat) : Heading := ⟨g'.cell 0 c, g'.cell 1 c, g'.cell 2 c⟩
  refine ⟨((List.range added).map (g.columnCount + ·)).map headingOf, ?_, ?_⟩
  · intro heading hheading
    obtain ⟨column, hcolumn, rfl⟩ := List.mem_map.1 hheading
    obtain ⟨i, -, rfl⟩ := List.mem_map.1 hcolumn
    exact hblank _ (Nat.le_add_right _ i)
  · have hsame : (List.range g.columnCount).map headingOf = (ofGrid g).columns := by
      apply List.map_congr_left
      intro c hc
      have hlt := List.mem_range.1 hc
      simp only [headingOf, hcells 0 (by decide) c hlt, hcells 1 (by decide) c hlt, hcells 2 (by decide) c hlt]
      rfl
    change (List.range g'.columnCount).map headingOf = _
    rw [hadded, List.range_add, List.map_append, hsame]

/-! ### Rows that agree on the columns of a sheet -/

theorem mapM_congr_left {α β : Type} {f g : α → Option β} {as : List α} (h : ∀ a ∈ as, f a = g a) :
    as.mapM f = as.mapM g := by
  induction as with
  | nil => rfl
  | cons a as ih =>
      obtain ⟨ha, has⟩ := List.forall_mem_cons.1 h
      rw [List.mapM_cons, List.mapM_cons, ha, ih has]

namespace Row

variable {row row' : Source} {width : Nat}

theorem Source.value?_congr (henums : row'.enums = row.enums) (type : ValueType) (default? : Option String)
    (text : String) : row'.value? type default? text = row.value? type default? text := by
  rw [value?, henums, value?]

theorem Source.values?_congr (henums : row'.enums = row.enums) (type : ValueType) (texts : List String) :
    row'.values? type texts = row.values? type texts :=
  congrArg (Option.map _) (mapM_congr_left fun text _ => value?_congr henums type none text)

theorem Source.count?_congr {column : Nat} (hcell : row'.cell column = row.cell column) (max : Nat) :
    row'.count? column max = row.count? column max := by
  rw [count?, count?, hcell]

theorem Source.texts_congr (hcells : ∀ c < width, row'.cell c = row.cell c) {column count : Nat}
    (h : column + count ≤ width) :
    (List.range count).map (fun i => row'.cell (column + i)) = (List.range count).map fun i => row.cell (column + i) := by
  apply List.map_congr_left
  intro i hi
  have := List.mem_range.1 hi
  exact hcells _ (by omega)

mutual

/-- What a construct contributes depends on the cells of the columns that it takes. -/
theorem content?_congr (henums : row'.enums = row.enums) (hcells : ∀ c < width, row'.cell c = row.cell c) :
    ∀ {shift first : Nat} {node : Node}, node.Stands h first → first + shift + node.span ≤ width →
      content? row' shift node = content? row shift node
  | _, _, .skip _, _, _ => rfl
  | shift, first, .value field _, ⟨hcolumn, _⟩, hwidth => by
      have hcell := hcells (field.column + shift) (by rw [hcolumn]; exact hwidth)
      simp only [content?, hcell, Source.value?_congr henums]
  | shift, first, .inline field, ⟨hcolumn, _⟩, hwidth => by
      have hcell := hcells (field.column + shift) (by rw [hcolumn]; exact hwidth)
      simp only [content?, Source.tokens, hcell, Source.values?_congr henums]
  | shift, first, .values count max field _, ⟨hcolumn, _⟩, hwidth => by
      subst hcolumn
      rw [Node.span] at hwidth
      simp only [content?, Source.count?_congr (hcells (count + shift) (by omega)) max]
      cases hcopies : row.count? (count + shift) max with
      | none => rfl
      | some copies =>
          have hle := Source.count?_le hcopies
          have hwithin : count + shift + 1 + copies ≤ width := by omega
          simp only [Option.bind_eq_bind, Option.bind_some, Source.texts_congr hcells hwithin, Source.values?_congr henums]
  | shift, first, .struct head members, ⟨_, _, htile⟩, hwidth => by
      rw [Node.span] at hwidth
      rw [content?, content?, entries?_congr henums hcells htile (by omega)]
  | shift, first, .structs count max head members, ⟨hcolumn, hpos, _, _, _, htile, _⟩, hwidth => by
      subst hcolumn
      rw [Node.span] at hwidth
      -- The columns of a copy lie within those of all copies.
      have hcopy (i : Nat) (hi : i < max) : entries? row' (shift + i * (1 + Node.spans members)) 1 members
          = entries? row (shift + i * (1 + Node.spans members)) 1 members := by
        have hend := Nat.mul_le_mul_right (1 + Node.spans members) (Nat.succ_le_of_lt hi)
        rw [Nat.succ_mul] at hend
        exact entries?_congr henums hcells htile (by omega)
      simp only [content?, Source.count?_congr (hcells (count + shift) (by omega)) max]
      cases hcopies : row.count? (count + shift) max with
      | none => rfl
      | some copies =>
          have hle := Source.count?_le hcopies
          cases copies with
          | zero =>
              have hfirst := hcopy 0 hpos
              rw [Nat.zero_mul, Nat.add_zero] at hfirst
              simp only [Option.bind_eq_bind, Option.bind_some, hfirst]
          | succ copies =>
              have hsubs := mapM_congr_left fun i hi => hcopy i (Nat.lt_of_lt_of_le (List.mem_range.1 hi) hle)
              simp only [Option.bind_eq_bind, Option.bind_some, hsubs]

theorem entries?_congr (henums : row'.enums = row.enums) (hcells : ∀ c < width, row'.cell c = row.cell c) :
    ∀ {shift first last number : Nat} {nodes : List Node}, Node.Tile h first last nodes → last + shift ≤ width →
      entries? row' shift number nodes = entries? row shift number nodes
  | _, _, _, _, [], _, _ => rfl
  | shift, first, last, number, node :: nodes, ⟨hstands, htile⟩, hwidth => by
      have hlast := htile.last_eq
      rw [entries?, entries?, content?_congr henums hcells hstands (by omega),
        entries?_congr henums hcells htile hwidth]

end

theorem entries?_append_skips {nodes skips : List Node} (hskips : Node.AreSkips skips) (row : Source)
    (shift number : Nat) : entries? row shift number (nodes ++ skips) = entries? row shift number nodes := by
  induction nodes generalizing number with
  | nil =>
      induction skips generalizing number with
      | nil => rfl
      | cons skip skips ih =>
          obtain ⟨⟨column, rfl⟩, hrest⟩ := List.forall_mem_cons.1 hskips
          change (entries? row shift number ([] ++ skips) >>= _) = _
          rw [ih hrest]
          rfl
  | cons node nodes ih => rw [List.cons_append, entries?, entries?, ih]

/-- A row is read as the same record in another place and in a wider sheet. -/
theorem toRecord_widened (hlayout : Layout.ofHeader h = .ok l) (hlayout' : Layout.ofHeader h' = .ok l')
    (hwidens : l.WidensTo l') {record : String} {r : Record} (hr : toRecord row l (l.type record) = .ok r)
    (henums : row'.enums = row.enums) (hcells : ∀ c < h.columnCount, row'.cell c = row.cell c) :
    toRecord row' l' (l.type record) = .ok r := by
  obtain ⟨skips, hskips, hnodes⟩ := id hwidens
  obtain ⟨-, htile⟩ := Layout.tile_of_ofHeader hlayout
  rw [← toOption_eq_some] at hr ⊢
  rw [toOption_toRecord hlayout, reference?] at hr
  rw [← hwidens.type_eq, toOption_toRecord hlayout', reference?, hnodes, entries?_append_skips hskips,
    entries?_congr henums hcells htile (Nat.le_refl _)]
  exact hr

end Row

/-! ### Data rows with others between them -/

/-- Whether rows are others that agree with them on so many columns, with so many rows added before, between and behind
them that are blank in the column of the id. -/
inductive Grid.Interleaves (width : Nat) (id? : Option Nat) : List (List String) → List (List String) → Nat → Prop
  | nil : Interleaves width id? [] [] 0
  | keep {cells cells' : List String} {rows rows' : List (List String)} {added : Nat}
      (hcells : ∀ c < width, cellOf cells' c = cellOf cells c) (h : Interleaves width id? rows rows' added) :
      Interleaves width id? (cells :: rows) (cells' :: rows') added
  | add {cells : List String} {rows rows' : List (List String)} {added : Nat}
      (hblank : ∀ id ∈ id?, Text.isBlank (cellOf cells id) = true) (h : Interleaves width id? rows rows' added) :
      Interleaves width id? rows (cells :: rows') (added + 1)

theorem Grid.Interleaves.refl (width : Nat) (id? : Option Nat) :
    ∀ rows : List (List String), Interleaves width id? rows rows 0
  | [] => .nil
  | _ :: rows => .keep (fun _ _ => rfl) (refl width id? rows)

namespace EncodedSheet

variable {type : Message} {enums : EnumTable} {id index skipped : Nat} {records : List Record}
  {rows rows' : List (List String)}

/-- Data rows are read as the same records among others in a wider sheet, and the others are left out. -/
theorem readRows_widened (hlayout : Layout.ofHeader h = .ok l) (hlayout' : Layout.ofHeader h' = .ok l')
    (hwidens : l.WidensTo l') (record : String) (hid : id < h.columnCount) {added : Nat}
    (hrows : Grid.Interleaves h.columnCount (some id) rows rows' added) (other : Nat)
    (hread : readRows l (l.type record) enums id index rows = .ok (records, skipped)) :
    readRows l' (l.type record) enums id other rows' = .ok (records, skipped + added) := by
  induction hrows generalizing index other records skipped with
  | nil => exact hread
  | @keep cells cells' _ _ _ hcells _ ih =>
      rw [readRows] at hread ⊢
      rw [hcells id hid]
      split at hread
      · next hblank =>
        obtain ⟨⟨records', skipped'⟩, hrest, hread⟩ := bind_eq_ok.1 hread
        cases hread
        rw [if_pos hblank, ih _ hrest, Nat.add_right_comm]
        rfl
      · next hkept =>
        obtain ⟨r, hr, hread⟩ := bind_eq_ok.1 hread
        obtain ⟨⟨records', skipped'⟩, hrest, hread⟩ := bind_eq_ok.1 hread
        cases hread
        have hr' : Row.toRecord ⟨other, cells', enums⟩ l' (l.type record) = .ok r :=
          Row.toRecord_widened hlayout hlayout' hwidens hr rfl hcells
        rw [if_neg hkept, hr', ih _ hrest]
        rfl
  | add hblank _ ih =>
      rw [readRows, if_pos (hblank id rfl), ih _ hread]
      rfl

theorem readRows_append {more : List (List String)} {records' : List Record} {skipped' : Nat}
    (h : readRows l type enums id index rows = .ok (records, skipped))
    (hmore : readRows l type enums id (index + rows.length) more = .ok (records', skipped')) :
    readRows l type enums id index (rows ++ more) = .ok (records ++ records', skipped + skipped') := by
  induction rows generalizing index records skipped with
  | nil =>
      cases h
      rw [Nat.zero_add]
      exact hmore
  | cons cells rows ih =>
      rw [List.length_cons, Nat.add_comm rows.length, ← Nat.add_assoc] at hmore
      rw [readRows] at h
      rw [List.cons_append, readRows]
      split at h
      · next hblank =>
        obtain ⟨⟨records'', skipped''⟩, hrest, h⟩ := bind_eq_ok.1 h
        cases h
        rw [if_pos hblank, ih hrest hmore, Nat.add_right_comm]
        rfl
      · next hkept =>
        obtain ⟨r, hr, h⟩ := bind_eq_ok.1 h
        obtain ⟨⟨records'', skipped''⟩, hrest, h⟩ := bind_eq_ok.1 h
        cases h
        rw [if_neg hkept, hr, ih hrest hmore]
        rfl

end EncodedSheet

end SheetCompiler

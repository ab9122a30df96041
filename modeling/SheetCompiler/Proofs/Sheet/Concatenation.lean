import SheetCompiler.Proofs.Sheet.Reading
import SheetCompiler.Proofs.Text.Words

/-!
# Sheets of the same header below each other

The data rows of a sheet decide how wide it is, but not what its columns are: columns past the header have no type. So
sheets with the same header rows have the same schema, whatever their data rows are, and so has the sheet that holds
the data rows of both. Its records are those of the first and then those of the second, and what is written of a list
of records, in either format, is what is written of the first records and then of the others.
-/

namespace SheetCompiler

/-! ### Headers of wider grids -/

namespace Header

/-- A grid with the same header rows that is wider has blank headings on the right. -/
theorem widensTo_ofGrid {top rows rows' : List (List String)} (htop : top.length = height)
    (hwidth : Grid.columnCount ⟨top ++ rows⟩ ≤ Grid.columnCount ⟨top ++ rows'⟩) :
    (ofGrid ⟨top ++ rows⟩).WidensTo (ofGrid ⟨top ++ rows'⟩) := by
  match top, htop with
  | [comments, types, names], _ =>
    have htypes : types.length ≤ Grid.columnCount ⟨[comments, types, names] ++ rows⟩ :=
      Grid.length_le_columnCount (List.mem_cons_of_mem _ List.mem_cons_self)
    apply widensTo_of_cells hwidth
    · intro r hr c _
      match r, hr with
      | 0, _ | 1, _ | 2, _ => rfl
    · intro c hc
      change Text.isBlank (Grid.cellOf types c) = true
      rw [Grid.cellOf_of_length_le (Nat.le_trans htypes hc)]
      rfl

end Header

/-! ### Lists of records that are written -/

namespace Record

variable {type : Message} {enums : EnumTable} {items others : List Record}

def itemsField (type : Message) : Field := ⟨1, Message.itemsName, .repeated, .message type⟩

theorem encode_wrap (type : Message) (items : List Record) : (wrap items).encode type.arrayOf
    = Value.encodeMessages type.arrayOf (itemsField type) type (items.map .message) := by
  cases items with
  | nil => rfl
  | cons item items =>
      change (Value.encodeMessages type.arrayOf (itemsField type) type ((item :: items).map .message) >>= fun bytes =>
        .ok (bytes ++ [])) = _
      simp only [List.append_nil]
      exact bind_pure _

theorem lines_wrap (type : Message) (enums : EnumTable) (items : List Record) : (wrap items).lines type.arrayOf enums 0
    = Value.linesAll (itemsField type) enums 0 (items.map .message) := by
  cases items with
  | nil => rfl
  | cons item items =>
      change (Value.linesAll (itemsField type) enums 0 ((item :: items).map .message) >>= fun lines =>
        .ok (lines ++ [])) = _
      simp only [List.append_nil]
      exact bind_pure _

theorem encode_wrap_append {bytes more : Bytes} (h : (wrap items).encode type.arrayOf = .ok bytes)
    (hmore : (wrap others).encode type.arrayOf = .ok more) :
    (wrap (items ++ others)).encode type.arrayOf = .ok (bytes ++ more) := by
  rw [encode_wrap] at h hmore ⊢
  rw [List.map_append]
  exact Value.encodeMessages_append h hmore

theorem toText_wrap_append {text more : String} (h : (wrap items).toText type.arrayOf enums = .ok text)
    (hmore : (wrap others).toText type.arrayOf enums = .ok more) :
    (wrap (items ++ others)).toText type.arrayOf enums = .ok (text ++ more) := by
  obtain ⟨lines, hlines, h⟩ := bind_eq_ok.1 h
  obtain ⟨others', hothers, hmore⟩ := bind_eq_ok.1 hmore
  cases h
  cases hmore
  rw [lines_wrap] at hlines hothers
  rw [toText, lines_wrap, List.map_append, Value.linesAll_append hlines hothers, ← Text.unlines_append]
  rfl

end Record

/-! ### Sheets -/

namespace EncodedSheet

variable {top rows more : List (List String)} {record : String} {options : SchemaOptions} {schema schema' : Schema}

/-- Of a sheet with the data rows of two others below each other, the data are those of the one and then of the other,
where all three are laid out in the same way but for columns that are left out. -/
theorem readData_append {l l' wide : Layout} {type : Message} {enums : EnumTable} {read read' : List Record × Nat}
    (htop : top.length = Header.height)
    (hfirst : (Header.ofGrid ⟨top ++ rows⟩).WidensTo (Header.ofGrid ⟨top ++ (rows ++ more)⟩))
    (hsecond : (Header.ofGrid ⟨top ++ more⟩).WidensTo (Header.ofGrid ⟨top ++ (rows ++ more)⟩))
    (hlayout : Layout.ofHeader (Header.ofGrid ⟨top ++ rows⟩) = .ok l)
    (hlayout' : Layout.ofHeader (Header.ofGrid ⟨top ++ more⟩) = .ok l')
    (hwide : Layout.ofHeader (Header.ofGrid ⟨top ++ (rows ++ more)⟩) = .ok wide)
    (hwidens : l.WidensTo wide) (hwidens' : l'.WidensTo wide) (htype : type = l.type record)
    (hdata : readData ⟨top ++ rows⟩ l type enums = .ok read)
    (hdata' : readData ⟨top ++ more⟩ l' type enums = .ok read') :
    readData ⟨top ++ (rows ++ more)⟩ wide type enums = .ok (read.1 ++ read'.1, read.2 + read'.2) := by
  have htype' : type = l'.type record := by rw [htype, ← hwidens.type_eq, hwidens'.type_eq]
  have hid : (Header.ofGrid ⟨top ++ more⟩).idColumn? = (Header.ofGrid ⟨top ++ rows⟩).idColumn? :=
    hsecond.idColumn?_eq.symm.trans hfirst.idColumn?_eq
  have hdrop (rows : List (List String)) : (top ++ rows).drop Header.height = rows := List.drop_left' htop
  rw [readData, hdrop] at hdata hdata'
  rw [readData, hdrop, hfirst.idColumn?_eq]
  rw [hid] at hdata'
  cases hfound : (Header.ofGrid ⟨top ++ rows⟩).idColumn? with
  | none =>
      rw [hfound] at hdata hdata'
      cases hdata
      cases hdata'
      rfl
  | some id =>
      have hfound' := hid.trans hfound
      rw [hfound] at hdata hdata'
      have hrows : readRows wide type enums id Header.height rows = .ok read := by
        rw [htype] at hdata ⊢
        have hlt := (Header.idColumn?_eq_some_iff.1 hfound).1
        exact readRows_widened hlayout hwide hwidens record hlt (.refl _ _ _) _ hdata
      have hmore : readRows wide type enums id (Header.height + rows.length) more = .ok read' := by
        rw [htype'] at hdata' ⊢
        have hlt := (Header.idColumn?_eq_some_iff.1 hfound').1
        exact readRows_widened hlayout' hwide hwidens' record hlt (.refl _ _ _) _ hdata'
      exact readRows_append hrows hmore

/-- Sheets of the same header rows have the same schema, and so has the sheet with the data rows of one below those of
the other. If both sheets are written, this sheet is, and it holds what they hold one behind the other. -/
theorem ofGrid_append (htop : top.length = Header.height)
    (hrows : Schema.ofHeader (Header.ofGrid ⟨top ++ rows⟩) record options = .ok schema)
    (hmore : Schema.ofHeader (Header.ofGrid ⟨top ++ more⟩) record options = .ok schema') :
    schema = schema' ∧ Schema.ofHeader (Header.ofGrid ⟨top ++ (rows ++ more)⟩) record options = .ok schema
      ∧ ∀ (enums : EnumTable) (s t : EncodedSheet), ofGrid ⟨top ++ rows⟩ schema.type enums = .ok s →
          ofGrid ⟨top ++ more⟩ schema.type enums = .ok t →
            ofGrid ⟨top ++ (rows ++ more)⟩ schema.type enums = .ok ⟨schema.type.arrayOf, s.records ++ t.records,
              s.binary ++ t.binary, s.text ++ t.text, s.rowsSkipped + t.rowsSkipped⟩ := by
  have hfirst : (Header.ofGrid ⟨top ++ rows⟩).WidensTo (Header.ofGrid ⟨top ++ (rows ++ more)⟩) := by
    refine Header.widensTo_ofGrid htop ?_
    simp only [Grid.columnCount_append]
    omega
  have hsecond : (Header.ofGrid ⟨top ++ more⟩).WidensTo (Header.ofGrid ⟨top ++ (rows ++ more)⟩) := by
    refine Header.widensTo_ofGrid htop ?_
    simp only [Grid.columnCount_append]
    omega
  have hschema := hfirst.schema hrows
  cases hschema.symm.trans (hsecond.schema hmore)
  refine ⟨rfl, hschema, fun enums s t hs ht => ?_⟩
  obtain ⟨l, hlayout, hcheck, hdata, -, hbinary, htext⟩ := ofGrid_eq_ok_iff.1 hs
  obtain ⟨l', hlayout', -, hdata', -, hbinary', htext'⟩ := ofGrid_eq_ok_iff.1 ht
  obtain ⟨wide, hwide, hwidens⟩ := hfirst.layout hlayout
  obtain ⟨_, hwide', hwidens'⟩ := hsecond.layout hlayout'
  cases hwide.symm.trans hwide'
  have hread := readData_append htop hfirst hsecond hlayout hlayout' hwide hwidens hwidens'
    (Schema.type_of_ofHeader hlayout hrows) hdata hdata'
  exact ofGrid_eq_ok_iff.2 ⟨wide, hwide, hwidens.enums_eq ▸ hcheck, hread, rfl,
    Record.encode_wrap_append hbinary hbinary', Record.toText_wrap_append htext htext'⟩

end EncodedSheet

/-- Header rows that are too narrow for the second copy of a tag. Data rows have to make room for it. -/
def treeTop : List (List String) := [[], ["int32", "2[]", "string"], ["id", "", "tag"]]

/-- A tree with both tags. -/
def oldTrees : List (List String) := [["1", "2", "oak", "elm"]]

/-- A row without an id, and a tree in a row that goes on past the last column with a type. -/
def newTrees : List (List String) := [["", "0"], ["2", "1", "ash", "", "unread"]]

theorem trees_written_below :
    ∃ schema s, Schema.ofHeader (Header.ofGrid ⟨treeTop ++ (oldTrees ++ newTrees)⟩) "Tree" {} = .ok schema
      ∧ EncodedSheet.ofGrid ⟨treeTop ++ (oldTrees ++ newTrees)⟩ schema.type {} = .ok s
      ∧ s.binary = [10, 12, 8, 1, 18, 3, 111, 97, 107, 18, 3, 101, 108, 109] ++ [10, 7, 8, 2, 18, 3, 97, 115, 104]
      ∧ s.rowsSkipped = 0 + 1 := by
  have hfirst : ((Schema.ofHeader (Header.ofGrid ⟨treeTop ++ oldTrees⟩) "Tree" {}).toOption.bind fun schema =>
      (EncodedSheet.ofGrid ⟨treeTop ++ oldTrees⟩ schema.type {}).toOption.map fun s => (s.binary, s.rowsSkipped))
        = some ([10, 12, 8, 1, 18, 3, 111, 97, 107, 18, 3, 101, 108, 109], 0) := by decide +kernel
  have hsecond : ((Schema.ofHeader (Header.ofGrid ⟨treeTop ++ newTrees⟩) "Tree" {}).toOption.bind fun schema =>
      (EncodedSheet.ofGrid ⟨treeTop ++ newTrees⟩ schema.type {}).toOption.map fun s => (s.binary, s.rowsSkipped))
        = some ([10, 7, 8, 2, 18, 3, 97, 115, 104], 1) := by decide +kernel
  obtain ⟨schema, hschema, hfirst⟩ := Option.bind_eq_some_iff.1 hfirst
  obtain ⟨s, hs, hold⟩ := Option.map_eq_some_iff.1 hfirst
  obtain ⟨schema', hschema', hsecond⟩ := Option.bind_eq_some_iff.1 hsecond
  obtain ⟨t, ht, hnew⟩ := Option.map_eq_some_iff.1 hsecond
  obtain ⟨rfl, hboth, hsheets⟩ :=
    EncodedSheet.ofGrid_append rfl (toOption_eq_some.1 hschema) (toOption_eq_some.1 hschema')
  obtain ⟨hbinary, hskipped⟩ := Prod.mk.inj hold
  obtain ⟨hbinary', hskipped'⟩ := Prod.mk.inj hnew
  refine ⟨schema, _, hboth, hsheets {} s t (toOption_eq_some.1 hs) (toOption_eq_some.1 ht), ?_, ?_⟩
  · rw [hbinary, hbinary']
  · rw [hskipped, hskipped']

end SheetCompiler

import SheetCompiler.Proofs.Sheet.Reading

/-!
# Sheets that grow

A sheet may get columns without a type on its right, with notes in them, and rows without an id among its data rows. The
schema of the sheet stays what it was, and so do its records and what is written of them: all that shows is that more
rows are left out.
-/

namespace SheetCompiler

/-- Whether a grid is another one with columns added on the right that have no type, whatever else they hold, and with
so many rows added from the first data row on that are blank in the column of the id, however wide they are. -/
structure Grid.GrowsTo (g g' : Grid) (added : Nat) : Prop where
  width_le : g.columnCount ≤ g'.columnCount
  header : ∀ r < Header.height, ∀ c < g.columnCount, g'.cell r c = g.cell r c
  untyped : ∀ c, g.columnCount ≤ c → Text.isBlank (g'.cell 1 c) = true
  rows : Interleaves g.columnCount (Header.ofGrid g).idColumn? (g.rows.drop Header.height)
    (g'.rows.drop Header.height) added

namespace EncodedSheet

variable {g g' : Grid} {added : Nat} {record : String} {options : SchemaOptions} {schema : Schema}

/-- A sheet that has grown has the schema that it had. It is written if it was before, with the same records and the
same data in both formats. The added rows count as left out if there is an id that they could have; without one, no row
is read. -/
theorem ofGrid_grown (hgrows : g.GrowsTo g' added)
    (hschema : Schema.ofHeader (Header.ofGrid g) record options = .ok schema) :
    Schema.ofHeader (Header.ofGrid g') record options = .ok schema
      ∧ ∀ (enums : EnumTable) (s : EncodedSheet), ofGrid g schema.type enums = .ok s →
          ofGrid g' schema.type enums = .ok { s with
            rowsSkipped := s.rowsSkipped + if (Header.ofGrid g).idColumn?.isSome then added else 0 } := by
  have hwider := Header.widensTo_of_cells hgrows.width_le hgrows.header hgrows.untyped
  refine ⟨hwider.schema hschema, ?_⟩
  intro enums s hs
  obtain ⟨l, hlayout, hcheck, hdata, htype, hbinary, htext⟩ := ofGrid_eq_ok_iff.1 hs
  obtain ⟨l', hlayout', hwidens⟩ := hwider.layout hlayout
  refine ofGrid_eq_ok_iff.2 ⟨l', hlayout', hwidens.enums_eq ▸ hcheck, ?_, htype, hbinary, htext⟩
  have hrows := hgrows.rows
  rw [readData] at hdata ⊢
  rw [hwider.idColumn?_eq]
  cases hid : (Header.ofGrid g).idColumn? with
  | none =>
      rw [hid] at hdata
      exact hdata
  | some id =>
      rw [hid] at hdata hrows
      rw [Schema.type_of_ofHeader hlayout hschema] at hdata ⊢
      rw [← Header.columnCount_ofGrid] at hrows
      have hlt := (Header.idColumn?_eq_some_iff.1 hid).1
      exact readRows_widened hlayout hlayout' hwidens record hlt hrows Header.height hdata

end EncodedSheet

/-- A sheet of boats with up to two berths, each of a length and a name. Only the first berth has headings, and the last
column is there because of a row that fills it. -/
def boats : Grid :=
  ⟨[["", "", "berth"], ["int32", "2[]", "optional_struct 2", "float", "string"], ["id", "", "Berth", "length", "name"],
    ["1", "2", "", "1.5", "fore", "", "2", "aft"], ["2", "1", "", "0.5", "aft"]]⟩

/-- The same boats with two columns of notes, one of them with a heading that cannot be a name, and three rows without
an id: an empty one above all boats, a wide one full of faults between them, and a short one below. -/
def notedBoats : Grid :=
  ⟨[["", "", "berth", "", "", "", "", "", "seen by"], ["int32", "2[]", "optional_struct 2", "float", "string"],
    ["id", "", "Berth", "length", "name", "", "", "", "9 lives", "="], [],
    ["1", "2", "", "1.5", "fore", "", "2", "aft", "the owner"],
    [" ", "many", "x", "y", "z", "1", "2", "3", "4", "5", "6"], ["2", "1", "", "0.5", "aft", "", "", "", "", "sold"],
    ["", "2[]"]]⟩

theorem boats_growsTo_notedBoats : boats.GrowsTo notedBoats 3 where
  width_le := by decide
  header := by decide
  untyped := by
    intro c hc
    have hshort : (notedBoats.row 1).length ≤ c := Nat.le_trans (by decide) hc
    rw [Grid.cell, Grid.cellOf_of_length_le hshort]
    rfl
  rows := .add (by decide) (.keep (by decide) (.add (by decide) (.keep (by decide) (.add (by decide) .nil))))

theorem notedBoats_written_as_boats :
    boats.GrowsTo notedBoats 3 ∧ ∃ schema s, Schema.ofHeader (Header.ofGrid notedBoats) "Boat" {} = .ok schema
      ∧ EncodedSheet.ofGrid notedBoats schema.type {} = .ok s
      ∧ s.binary = [10, 27, 8, 1, 18, 11, 13, 0, 0, 192, 63, 18, 4, 102, 111, 114, 101, 18, 10, 13, 0, 0, 0, 64, 18, 3,
        97, 102, 116, 10, 14, 8, 2, 18, 10, 13, 0, 0, 0, 63, 18, 3, 97, 102, 116]
      ∧ s.rowsSkipped = 0 + 3 := by
  have hwritten : ((Schema.ofHeader (Header.ofGrid boats) "Boat" {}).toOption.bind fun schema =>
      (EncodedSheet.ofGrid boats schema.type {}).toOption.map fun s => (s.binary, s.rowsSkipped))
        = some ([10, 27, 8, 1, 18, 11, 13, 0, 0, 192, 63, 18, 4, 102, 111, 114, 101, 18, 10, 13, 0, 0, 0, 64, 18, 3,
            97, 102, 116, 10, 14, 8, 2, 18, 10, 13, 0, 0, 0, 63, 18, 3, 97, 102, 116], 0) := by decide +kernel
  have hid : (Header.ofGrid boats).idColumn? = some 0 := by decide +kernel
  obtain ⟨schema, hschema, hwritten⟩ := Option.bind_eq_some_iff.1 hwritten
  obtain ⟨s, hs, hwritten⟩ := Option.map_eq_some_iff.1 hwritten
  obtain ⟨hbinary, hskipped⟩ := Prod.mk.inj hwritten
  obtain ⟨hsame, hsheets⟩ := EncodedSheet.ofGrid_grown boats_growsTo_notedBoats (toOption_eq_some.1 hschema)
  refine ⟨boats_growsTo_notedBoats, schema, _, hsame, hsheets {} s (toOption_eq_some.1 hs), hbinary, ?_⟩
  change s.rowsSkipped + _ = 0 + 3
  rw [hskipped, hid]
  rfl

end SheetCompiler

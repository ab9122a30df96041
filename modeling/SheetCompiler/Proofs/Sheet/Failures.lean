import SheetCompiler.Proofs.Layout.Scopes
import SheetCompiler.Proofs.Record.Written
import SheetCompiler.Proofs.Sheet

/-!
# How a sheet with a schema fails

The pass over the rows keeps numbers of its own and holds every field against the message type, and both formats
check the records against that type once more. With the type that the schema pass finds for the same header none of
these checks ever fails: what can be at fault is a cell of a data row, or the table of enum types, which is looked at
before any row.
-/

namespace SheetCompiler

/-! ### Rows -/

/-- With the type of its layout, a row is read as a record of that type unless a cell is at fault. -/
theorem Row.ends_toRecord_conforms {h : Header} {l : Layout} (hlayout : Layout.ofHeader h = .ok l) (record : String)
    (row : Source) : Ends (Record.Conforms (l.type record)) SheetError.InCells (toRecord row l (l.type record)) := by
  have hfault := ends_toRecord_fault hlayout row (l.type record)
  cases hread : toRecord row l (l.type record) with
  | ok r =>
      have hconforms := (contributed_of_toRecord hlayout hread).conforms
      cases r
      exact hconforms
  | error e =>
      rw [hread] at hfault
      cases hfault with
      | cell he => exact he
      | type hnot => exact absurd (Message.Provides.of_fields record l.nodes) hnot

namespace EncodedSheet

variable {h : Header} {l : Layout} {enums : EnumTable}

theorem ends_readRows (hlayout : Layout.ofHeader h = .ok l) (record : String) (id : Nat) (rows : List (List String)) :
    ∀ index, Ends (fun read => ∀ r ∈ read.1, r.Conforms (l.type record)) SheetError.InCells
      (readRows l (l.type record) enums id index rows) := by
  induction rows with
  | nil => exact fun _ _ hr => absurd hr List.not_mem_nil
  | cons cells rows ih =>
      intro index
      rw [readRows]
      split
      · exact (ih (index + 1)).bind fun _ hread => hread
      · refine (Row.ends_toRecord_conforms hlayout record _).bind fun r hr => ?_
        exact (ih (index + 1)).bind fun _ hread => List.forall_mem_cons.2 ⟨hr, hread⟩

/-! ### Enum types -/

theorem ends_checkEnums (enums : EnumTable) (entries : List (Nat × String)) :
    Ends (fun _ => True) (fun e => ∃ column name, e = .unknownEnum column name) (checkEnums enums entries) := by
  induction entries with
  | nil => trivial
  | cons entry entries ih =>
      rw [checkEnums]
      split
      · exact ih
      · exact ⟨_, _, rfl⟩

/-- The enum types are looked up from left to right, up to the first that is missing. -/
theorem checkEnums_eq_error {entries : List (Nat × String)} {column : Nat} {name : String} :
    checkEnums enums entries = .error (.unknownEnum column name)
      ↔ entries.find? (fun entry => !enums.contains entry.2) = some (column, name) := by
  induction entries with
  | nil => exact ⟨nofun, nofun⟩
  | cons entry entries ih =>
      rw [checkEnums, List.find?_cons]
      cases hknown : enums.contains entry.2 with
      | true => exact ih
      | false => simp [Prod.ext_iff]

end EncodedSheet

/-- Whether a column of the layout is of an enum type that the table does not know. -/
def Layout.LacksEnum (l : Layout) (enums : EnumTable) (column : Nat) (name : String) : Prop :=
  Node.NamesEnum l.nodes column name ∧ enums.contains name = false

theorem Layout.mem_enums_iff_lacksEnum (l : Layout) {enums : EnumTable} {column : Nat} {name : String} :
    ((column, name) ∈ l.enums ∧ (!enums.contains name) = true) ↔ l.LacksEnum enums column name := by
  rw [LacksEnum, Layout.enums, Node.mem_enumsOf_iff, Bool.not_eq_true']

namespace EncodedSheet

variable {h : Header} {l : Layout} {enums : EnumTable}

theorem exists_checkEnums_eq_error_iff :
    (∃ column name, checkEnums enums l.enums = .error (.unknownEnum column name))
      ↔ ∃ column name, l.LacksEnum enums column name := by
  have hfind : (l.enums.find? fun entry => !enums.contains entry.2).isSome
      ↔ ∃ entry, entry ∈ l.enums ∧ (!enums.contains entry.2) = true := List.find?_isSome
  rw [Option.isSome_iff_exists, Prod.exists, Prod.exists] at hfind
  simp only [checkEnums_eq_error, hfind, l.mem_enums_iff_lacksEnum]

/-- Of the enum types that the table does not know, the one in the leftmost column is reported. -/
theorem checkEnums_eq_error_iff_leftmost (hlayout : Layout.ofHeader h = .ok l) {column : Nat} {name : String} :
    checkEnums enums l.enums = .error (.unknownEnum column name)
      ↔ l.LacksEnum enums column name ∧ ∀ column' name', l.LacksEnum enums column' name' → column ≤ column' := by
  have hascend : Node.Ascend 0 h.columnCount l.enums := Node.enumsOf_ascend (Layout.tile_of_ofHeader hlayout).2
  rw [checkEnums_eq_error, hascend.find?_eq_some_iff, Prod.forall]
  simp only [← l.mem_enums_iff_lacksEnum, and_imp]

/-! ### Whole sheets -/

variable {g : Grid}

theorem ofGrid_eq_error {type : Message} {e : SheetError} (hlayout : Layout.ofHeader (Header.ofGrid g) = .ok l)
    (hcheck : checkEnums enums l.enums = .error e) : ofGrid g type enums = .error e := by
  rw [ofGrid_eq, hlayout]
  change checkEnums enums l.enums >>= _ = _
  rw [hcheck]
  rfl

theorem write_succeeds {type : Message} {read : List Record × Nat} (hread : ∀ r ∈ read.1, r.Conforms type)
    (enums : EnumTable) : Succeeds (write type enums read) := by
  obtain ⟨binary, hbinary⟩ := Record.encode_succeeds (Record.conforms_wrap_iff.2 hread)
  obtain ⟨text, htext⟩ := Record.toText_succeeds enums (Record.conforms_wrap_iff.2 hread)
  rw [write, hbinary, htext]
  exact ⟨_, rfl⟩

theorem ends_readData (hlayout : Layout.ofHeader h = .ok l) (record : String) (enums : EnumTable) :
    Ends (fun read => ∀ r ∈ read.1, r.Conforms (l.type record)) SheetError.InCells
      (readData g l (l.type record) enums) := by
  rw [readData]
  cases (Header.ofGrid g).idColumn? with
  | none => exact fun _ hr => absurd hr List.not_mem_nil
  | some id => exact ends_readRows hlayout record id _ Header.height

/-- A sheet is read and written unless a cell is at fault or the look-up of enum types fails. -/
theorem ends_ofGrid (hlayout : Layout.ofHeader (Header.ofGrid g) = .ok l) (record : String) (enums : EnumTable) :
    Ends (fun _ => True) (fun e => e.InCells ∨ checkEnums enums l.enums = .error e)
      (ofGrid g (l.type record) enums) := by
  cases hcheck : checkEnums enums l.enums with
  | error e =>
      rw [ofGrid_eq_error hlayout hcheck]
      exact .inr rfl
  | ok =>
      have hrows : Ends (fun _ => True) SheetError.InCells (ofGrid g (l.type record) enums) := by
        rw [ofGrid_eq, hlayout]
        change Ends _ _ (checkEnums enums l.enums >>= fun _ => _)
        rw [hcheck]
        exact (ends_readData hlayout record enums).bind fun _ hread => (write_succeeds hread enums).ends _
      exact hrows.mono_error fun _ => .inl

/-- With the type that the schema pass finds for its header, a sheet is read and written, or else fails in a cell or
for an enum type that the table does not know. It fails for one exactly if there is one, whatever its rows hold, and
then for the one in the leftmost column. -/
theorem fails_in_cells_or_for_leftmost_enum {record : String} {options : SchemaOptions} {schema : Schema}
    (hschema : Schema.ofHeader (Header.ofGrid g) record options = .ok schema) (enums : EnumTable) :
    (∀ e, ofGrid g schema.type enums = .error e →
        (∃ cell fault, e = .conversion cell fault) ∨ (∃ cell field, e = .missingRepeat cell field)
          ∨ ∃ column name, e = .unknownEnum column name)
      ∧ ∃ l, Layout.ofHeader (Header.ofGrid g) = .ok l
        ∧ ((∃ column name, ofGrid g schema.type enums = .error (.unknownEnum column name))
            ↔ ∃ column name, l.LacksEnum enums column name)
        ∧ ∀ column name, ofGrid g schema.type enums = .error (.unknownEnum column name)
            ↔ l.LacksEnum enums column name ∧ ∀ column' name', l.LacksEnum enums column' name' → column ≤ column' := by
  obtain ⟨l, hlayout⟩ := Schema.layout_of_ofHeader hschema
  rw [Schema.type_of_ofHeader hlayout hschema]
  have hends := ends_ofGrid hlayout record enums
  have hcheck : ∀ column name, ofGrid g (l.type record) enums = .error (.unknownEnum column name)
      ↔ checkEnums enums l.enums = .error (.unknownEnum column name) := by
    refine fun column name => ⟨fun he => ?_, ofGrid_eq_error hlayout⟩
    rw [he] at hends
    exact hends.resolve_left id
  refine ⟨fun e he => ?_, l, hlayout, ?_, fun column name => ?_⟩
  · rw [he] at hends
    rcases hends with hcell | hcheck
    · rcases SheetError.inCells_iff.1 hcell with hcell | hcell
      · exact .inl hcell
      · exact .inr (.inl hcell)
    · have hunknown := ends_checkEnums enums l.enums
      rw [hcheck] at hunknown
      exact .inr (.inr hunknown)
  · simp only [hcheck, exists_checkEnums_eq_error_iff]
  · exact (hcheck column name).trans (checkEnums_eq_error_iff_leftmost hlayout)

end EncodedSheet

/-- A sheet with two enum types and a row that cannot be read. -/
def signs : Grid :=
  ⟨[["", "", "", "spot"], ["int32", "enum-Color", "2[]", "required_struct 2", "enum-Zone", "enum-Color", "", "", ""],
    ["id", "paint", "", "Spot", "zone", "paint"], ["seven", "red", "1", "", "north", "blue"]]⟩

def colors : EnumTable := ⟨[("Color", [("red", 1), ("blue", 2)])]⟩

/-- The sheet fails for the type that is missing, before the row is looked at. -/
theorem signs_fail_for_leftmost_enum :
    ∃ schema l, Schema.ofHeader (Header.ofGrid signs) "Sign" {} = .ok schema
      ∧ Layout.ofHeader (Header.ofGrid signs) = .ok l
      ∧ EncodedSheet.ofGrid signs schema.type colors = .error (.unknownEnum 4 "Zone")
      ∧ l.LacksEnum colors 4 "Zone" ∧ ∀ column name, l.LacksEnum colors column name → 4 ≤ column := by
  have hfault : (Schema.ofHeader (Header.ofGrid signs) "Sign" {}).toOption.bind (fun schema =>
      error? (EncodedSheet.ofGrid signs schema.type colors)) = some (.unknownEnum 4 "Zone") := by decide +kernel
  obtain ⟨schema, hschema, hfault⟩ := Option.bind_eq_some_iff.1 hfault
  have hschema := toOption_eq_some.1 hschema
  have hfault := error?_eq_some.1 hfault
  obtain ⟨-, l, hlayout, -, hleftmost⟩ := EncodedSheet.fails_in_cells_or_for_leftmost_enum hschema colors
  obtain ⟨hlacks, hleast⟩ := (hleftmost 4 "Zone").1 hfault
  exact ⟨schema, l, hschema, hlayout, hfault, hlacks, hleast⟩

end SheetCompiler

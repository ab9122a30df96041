import SheetCompiler.Proofs.Rows.Conformance
import SheetCompiler.Proofs.Wire.RoundTrip

/-!
# Sheets survive the wire format

The bytes of a sheet are read back as its records, one to each data row that is not blank in the column
`id`, in the order of the rows. A record comes back without the defaults of its implicit fields and is
otherwise as it was; one that is empty then, or was so from the beginning, still has its place in the list.
-/

namespace SheetCompiler

/-! ### Data rows -/

/-- The data rows of a grid that are not left out. -/
def Grid.dataRows (g : Grid) (enums : EnumTable) : List Row.Source :=
  match (Header.ofGrid g).idColumn? with
  | none => []
  | some id =>
      ((g.rows.drop Header.height).mapIdx fun i cells => (⟨Header.height + i, cells, enums⟩ : Row.Source)).filter
        fun row => !Text.isBlank (row.cell id)

namespace EncodedSheet

variable {l : Layout} {type : Message} {enums : EnumTable}

/-- Reading rows makes a record of each that is not blank in the column `id`. -/
theorem records_of_readRows {id : Nat} {rows : List (List String)} :
    ∀ {index skipped : Nat} {records : List Record},
      readRows l type enums id index rows = .ok (records, skipped) →
      ((rows.mapIdx fun i cells => (⟨index + i, cells, enums⟩ : Row.Source)).filter
          fun row => !Text.isBlank (row.cell id)).map (Row.toRecord · l type)
        = records.map .ok := by
  induction rows with
  | nil =>
      intro index skipped records h
      cases h
      rfl
  | cons cells rows ih =>
      intro index skipped records h
      have hshift : (rows.mapIdx fun i cells => (⟨index + (i + 1), cells, enums⟩ : Row.Source))
          = rows.mapIdx fun i cells => ⟨index + 1 + i, cells, enums⟩ := by
        refine congrArg (List.mapIdx · rows) (funext fun i => ?_)
        rw [show index + (i + 1) = index + 1 + i by omega]
      rw [List.mapIdx_cons, hshift]
      rw [readRows] at h
      split at h
      · next hblank =>
        obtain ⟨⟨records', skipped'⟩, hrest, h⟩ := bind_eq_ok.1 h
        cases h
        rw [List.filter_cons_of_neg (by simpa [Row.Source.cell] using hblank)]
        exact ih hrest
      · next hkept =>
        obtain ⟨record, hrecord, h⟩ := bind_eq_ok.1 h
        obtain ⟨⟨records', skipped'⟩, hrest, h⟩ := bind_eq_ok.1 h
        cases h
        rw [List.filter_cons_of_pos (by simpa [Row.Source.cell] using hkept), List.map_cons, List.map_cons, ih hrest]
        exact congrArg (· :: _) hrecord

/-- The records of the data rows of a grid, and the number of rows that are left out. -/
def readData (g : Grid) (l : Layout) (type : Message) (enums : EnumTable) : Except SheetError (List Record × Nat) :=
  match (Header.ofGrid g).idColumn? with
  | some id => readRows l type enums id Header.height (g.rows.drop Header.height)
  | none => .ok ([], 0)

def write (type : Message) (enums : EnumTable) (read : List Record × Nat) : Except SheetError EncodedSheet :=
  ((Record.wrap read.1).encode type.arrayOf).mapError .mismatch >>= fun binary =>
    ((Record.wrap read.1).toText type.arrayOf enums).mapError .mismatch >>= fun text =>
      .ok ⟨type.arrayOf, read.1, binary, text, read.2⟩

theorem ofGrid_eq (g : Grid) (type : Message) (enums : EnumTable) :
    ofGrid g type enums = (Layout.ofHeader (Header.ofGrid g)).mapError .malformed >>= fun l =>
      checkEnums enums l.enums >>= fun _ => readData g l type enums >>= write type enums := by
  refine congrArg _ (funext fun l => congrArg _ (funext fun _ => ?_))
  rw [readData]
  cases (Header.ofGrid g).idColumn? <;> rfl

/-- What a sheet is that has been read and written: every step has succeeded, and it holds what they have come to. -/
theorem ofGrid_eq_ok_iff {g : Grid} {s : EncodedSheet} :
    ofGrid g type enums = .ok s ↔ ∃ l, Layout.ofHeader (Header.ofGrid g) = .ok l ∧ checkEnums enums l.enums = .ok ()
      ∧ readData g l type enums = .ok (s.records, s.rowsSkipped) ∧ s.type = type.arrayOf
      ∧ (Record.wrap s.records).encode type.arrayOf = .ok s.binary
      ∧ (Record.wrap s.records).toText type.arrayOf enums = .ok s.text := by
  rw [ofGrid_eq]
  constructor
  · intro h
    obtain ⟨l, hlayout, h⟩ := bind_eq_ok.1 h
    obtain ⟨_, hcheck, h⟩ := bind_eq_ok.1 h
    obtain ⟨_, hdata, h⟩ := bind_eq_ok.1 h
    obtain ⟨binary, hbinary, h⟩ := bind_eq_ok.1 h
    obtain ⟨text, htext, h⟩ := bind_eq_ok.1 h
    cases h
    exact ⟨l, mapError_eq_ok.1 hlayout, hcheck, hdata, rfl, mapError_eq_ok.1 hbinary, mapError_eq_ok.1 htext⟩
  · rintro ⟨l, hlayout, hcheck, hdata, htype, hbinary, htext⟩
    refine bind_eq_ok.2 ⟨l, mapError_eq_ok.2 hlayout, bind_eq_ok.2 ⟨(), hcheck, bind_eq_ok.2 ⟨_, hdata, ?_⟩⟩⟩
    refine bind_eq_ok.2 ⟨_, mapError_eq_ok.2 hbinary, bind_eq_ok.2 ⟨_, mapError_eq_ok.2 htext, ?_⟩⟩
    rw [← htype]

theorem dataRows_of_readData {g : Grid} {read : List Record × Nat} (h : readData g l type enums = .ok read) :
    (g.dataRows enums).map (Row.toRecord · l type) = read.1.map .ok := by
  rw [readData] at h
  rw [Grid.dataRows]
  cases hid : (Header.ofGrid g).idColumn? with
  | none =>
      rw [hid] at h
      cases h
      rfl
  | some id =>
      rw [hid] at h
      exact records_of_readRows h

/-- What a sheet consists of that has been read without an error. -/
theorem spec_of_ofGrid {g : Grid} {s : EncodedSheet} (h : ofGrid g type enums = .ok s) :
    ∃ l, Layout.ofHeader (Header.ofGrid g) = .ok l
      ∧ (g.dataRows enums).map (Row.toRecord · l type) = s.records.map .ok
      ∧ s.type = type.arrayOf ∧ (Record.wrap s.records).encode type.arrayOf = .ok s.binary := by
  obtain ⟨l, hlayout, -, hdata, htype, hbinary, -⟩ := ofGrid_eq_ok_iff.1 h
  exact ⟨l, hlayout, dataRows_of_readData hdata, htype, hbinary⟩

/-- A record that was read is that of a row. -/
theorem exists_toRecord_of_mem {rows : List Row.Source} {records : List Record}
    (hrows : rows.map (Row.toRecord · l type) = records.map .ok) {r : Record} (hr : r ∈ records) :
    ∃ row, Row.toRecord row l type = .ok r := by
  have hmem : Except.ok r ∈ records.map (Except.ok (ε := SheetError)) := List.mem_map_of_mem hr
  rw [← hrows] at hmem
  obtain ⟨row, -, hrow⟩ := List.mem_map.1 hmem
  exact ⟨row, hrow⟩

end EncodedSheet

/-! ### Lists of records -/

namespace Record

/-- Messages that are the same as others but for what is not a number. -/
theorem messages_of_quietAll {rs : List Record} :
    ∀ {vs : List Value}, Value.quietAll vs = Value.quietAll (rs.map .message) →
      ∃ items : List Record, vs = items.map .message ∧ items.map quiet = rs.map quiet := by
  induction rs with
  | nil =>
      intro vs h
      cases vs with
      | nil => exact ⟨[], rfl, rfl⟩
      | cons v vs => cases h
  | cons r rs ih =>
      intro vs h
      cases vs with
      | nil => cases h
      | cons v vs =>
          obtain ⟨hv, hvs⟩ := List.cons.inj h
          obtain ⟨items, rfl, hitems⟩ := ih hvs
          cases v <;> simp only [Value.quiet, reduceCtorEq, Value.message.injEq] at hv
          next item => exact ⟨item :: items, rfl, by rw [List.map_cons, List.map_cons, hv, hitems]⟩

/-- A record that is the same as a list of records but for what is not a number is such a list. -/
theorem wrap_of_quiet {rs : List Record} :
    ∀ {r : Record}, r.quiet = (wrap rs).quiet → ∃ items, r = wrap items ∧ items.map quiet = rs.map quiet
  | ⟨entries⟩, h => by
      cases rs with
      | nil =>
          cases entries with
          | nil => exact ⟨[], rfl, rfl⟩
          | cons entry entries => cases Record.mk.inj h
      | cons r rs =>
          have hentries : Content.quietAll entries
              = [(1, .list (Value.quietAll ((r :: rs).map .message)))] := Record.mk.inj h
          match entries, hentries with
          | _ :: _ :: _, hentries => cases (List.cons.inj hentries).2
          | (number, .list vs) :: [], hentries =>
              obtain ⟨hentry, -⟩ := List.cons.inj hentries
              obtain ⟨rfl, hlist⟩ := Prod.mk.inj hentry
              obtain ⟨items, rfl, hitems⟩ := messages_of_quietAll (Content.list.inj hlist)
              cases items with
              | nil => cases hitems
              | cons item items => exact ⟨item :: items, rfl, hitems⟩

variable {type : Message}

theorem sound_wrap {items : List Record} (hitems : ∀ r ∈ items, Content.SoundAll type 1 r.entries) :
    Content.SoundAll type.arrayOf 1 (wrap items).entries := by
  by_cases hempty : items = []
  · subst hempty
    exact ⟨trivial, trivial, fun _ => rfl⟩
  have hmessages : items.map Value.message = (items.map entries).map fun entries => .message ⟨entries⟩ := by
    simp only [List.map_map, Function.comp_def, mk_entries]
  have hlist : Content.Sound ⟨1, Message.itemsName, .repeated, .message type⟩ (.list (items.map .message)) :=
    hmessages ▸ Content.sound_messages rfl rfl (by simpa using hempty) (List.forall_mem_map.2 hitems)
  have hentries : (wrap items).entries = [(1, .list (items.map .message))] := by
    rw [wrap, if_neg (by simpa using hempty)]
    rfl
  rw [hentries]
  exact Content.sound_cons rfl (by decide) hlist ⟨trivial, trivial, fun _ => rfl⟩

theorem conforms_wrap_iff {items : List Record} :
    (wrap items).Conforms type.arrayOf ↔ ∀ r ∈ items, r.Conforms type := by
  have hmessages : Value.ConformAll (.message type) (items.map .message) ↔ ∀ r ∈ items, r.Conforms type := by
    rw [Value.conformAll_iff, List.forall_mem_map]
    exact Iff.rfl
  rw [← hmessages]
  cases items with
  | nil => exact Iff.rfl
  | cons item items =>
      constructor
      · rintro ⟨⟨field, hfield, -, hitems⟩, -⟩
        cases hfield
        exact hitems
      · exact fun hitems => ⟨⟨_, rfl, rfl, hitems⟩, trivial⟩

/-- Fields are left out of a list of records as they are of each record. -/
theorem prune_wrap {omit? : Field → Content → Bool} (hkept : ∀ field v vs, omit? field (.list (v :: vs)) = false)
    (items : List Record) : (wrap items).prune omit? type.arrayOf = wrap (items.map (·.prune omit? type)) := by
  cases items with
  | nil => rfl
  | cons item items =>
      have hpruned : Value.pruneAll omit? (.message type) ((item :: items).map .message)
          = ((item :: items).map (·.prune omit? type)).map .message := by
        rw [Value.pruneAll_eq_map, List.map_map, List.map_map]
        rfl
      show (⟨if omit? _ (.list ((item :: items).map .message)) then [] else
        [(1, .list (Value.pruneAll omit? (.message type) ((item :: items).map .message)))]⟩ : Record) = _
      rw [List.map_cons, hkept, ← List.map_cons, hpruned]
      rfl

end Record

theorem Row.sound_of_toRecord {h : Header} {l : Layout} (hlayout : Layout.ofHeader h = .ok l) {record : String}
    (hfit : (l.type record).NumbersFit) {row : Source} {r : Record}
    (hr : toRecord row l (l.type record) = .ok r) : Content.SoundAll (l.type record) 1 r.entries :=
  (contributed_of_toRecord hlayout hr).sound hfit

/-- The bytes of a sheet are read back as one record for each data row that is not left out, in order: the
record of the row, without the defaults of implicit fields at any depth and otherwise unchanged. Field numbers
are ones of 32 bits, and the length of bytes in memory is one of 64. -/
theorem EncodedSheet.decode_binary {g : Grid} {record : String} {options : SchemaOptions} {schema : Schema}
    {enums : EnumTable} {s : EncodedSheet} (hschema : Schema.ofHeader (Header.ofGrid g) record options = .ok schema)
    (hsheet : ofGrid g schema.type enums = .ok s) (hfit : schema.type.NumbersFit)
    (hlength : s.binary.length < 2 ^ 64) :
    (∃ l, Layout.ofHeader (Header.ofGrid g) = .ok l
        ∧ (g.dataRows enums).map (Row.toRecord · l schema.type) = s.records.map .ok)
      ∧ ∃ items, Record.decode s.type s.binary = .ok (.wrap items)
        ∧ items.map Record.quiet = s.records.map fun r => (r.withoutDefaults schema.type).quiet := by
  obtain ⟨l, hlayout, hrows, htype, hbinary⟩ := spec_of_ofGrid hsheet
  refine ⟨⟨l, hlayout, hrows⟩, ?_⟩
  have hrecord : schema.type = l.type record := Schema.type_of_ofHeader hlayout hschema
  rw [hrecord] at hrows hfit hbinary htype ⊢
  have hrecords (r : Record) (hr : r ∈ s.records) : Content.SoundAll (l.type record) 1 r.entries := by
    obtain ⟨row, hrow⟩ := exists_toRecord_of_mem hrows hr
    exact Row.sound_of_toRecord hlayout hfit hrow
  obtain ⟨hconforms, hformed, hcanonical⟩ := (Record.sound_wrap hrecords).record
  obtain ⟨bytes, hbytes, hread⟩ := Record.encode_spec hconforms hformed
  cases hbinary.symm.trans hbytes
  obtain ⟨decoded, hdecode, hquiet⟩ := hread hlength
  rw [hcanonical, Record.withoutDefaults, Record.prune_wrap fun _ _ _ => rfl] at hquiet
  obtain ⟨items, rfl, hitems⟩ := Record.wrap_of_quiet hquiet
  exact ⟨items, htype ▸ hdecode, by rw [hitems, List.map_map]; rfl⟩

/-- A sheet of three data rows. The first leaves a default behind in a message, the second is left out, and
nothing remains of the record of the third. -/
def orders : Grid :=
  ⟨[["", "", "", "parts"], ["int32", "float", "2[]", "optional_struct 2", "int32", "string", "", "", ""],
    ["id", "weight", "", "Part", "kind", "tag"], ["7", "0.5", "1", "", "0", "oak"], ["", "1"], ["0"]]⟩

theorem orders_decode_binary :
    ∃ schema s items, Schema.ofHeader (Header.ofGrid orders) "Order" {} = .ok schema
      ∧ EncodedSheet.ofGrid orders schema.type {} = .ok s
      ∧ s.binary = [10, 14, 8, 7, 21, 0, 0, 0, 63, 26, 5, 18, 3, 111, 97, 107, 10, 0]
      ∧ Record.decode s.type s.binary = .ok (.wrap items)
      ∧ items.map Record.quiet = s.records.map fun r => (r.withoutDefaults schema.type).quiet := by
  have hwritten : ((Schema.ofHeader (Header.ofGrid orders) "Order" {}).toOption.bind fun schema =>
      (EncodedSheet.ofGrid orders schema.type {}).toOption.map fun s => s.binary)
        = some [10, 14, 8, 7, 21, 0, 0, 0, 63, 26, 5, 18, 3, 111, 97, 107, 10, 0] := by decide +kernel
  obtain ⟨schema, hschema, hwritten⟩ := Option.bind_eq_some_iff.1 hwritten
  obtain ⟨s, hsheet, hbinary⟩ := Option.map_eq_some_iff.1 hwritten
  have hschema := toOption_eq_some.1 hschema
  have hsheet := toOption_eq_some.1 hsheet
  obtain ⟨l, hlayout, -⟩ := EncodedSheet.spec_of_ofGrid hsheet
  have hfit : schema.type.NumbersFit := by
    rw [Schema.type_of_ofHeader hlayout hschema]
    exact Layout.numbersFit_type hlayout (by decide) "Order"
  obtain ⟨-, items, hdecode, hitems⟩ :=
    EncodedSheet.decode_binary hschema hsheet hfit (by rw [hbinary]; decide)
  exact ⟨schema, s, items, hschema, hsheet, hbinary, hdecode, hitems⟩

end SheetCompiler

import SheetCompiler.Proofs.Rows.Acceptance
import SheetCompiler.Proofs.Sheet
import SheetCompiler.Proofs.Wire.Decoded

/-!
# Sheets written with types of other headers

A sheet can be written with a type that is not that of its header, say of a header it had before. Its records are
then the ones that the type of its own header would give it, but a field can ask for something else than they hold.
The encoder looks at a part of this only: it takes a list for a field that is not repeated, and numbers of 64 bits for
some fields of 32. Whether the bytes are read back as the records depends on nothing but whether the records, without
the defaults that are left out, conform to the type.
-/

namespace SheetCompiler

/-! ### Values that the encoder does not refuse -/

namespace Value

/-- The types that values are written in without a look at their range. -/
def unguarded : List ValueType := [.scalar .int32, .scalar .uint32, .scalar .sint32, .scalar .float]

/-- A value that is written fits its type, unless the type is one of the four that are not guarded. -/
theorem fits_of_isSome_word?_iff {t : ValueType} :
    (∀ v : Value, (v.word? t).isSome = true → v.Fits t) ↔ t ∉ unguarded := by
  constructor
  · intro hfits hmem
    simp only [unguarded, List.mem_cons, List.not_mem_nil, or_false] at hmem
    rcases hmem with rfl | rfl | rfl | rfl
    · exact absurd (hfits (.int (2 ^ 40)) rfl) (by decide)
    · exact absurd (hfits (.uint (2 ^ 40)) rfl) (by decide)
    · exact absurd (hfits (.int (2 ^ 40)) rfl) (by decide)
    · -- The double next to `0.1`.
      exact absurd (hfits (.float ⟨0x3FB999999999999A⟩) rfl) (by decide +kernel)
  · intro hguarded v hv
    cases t with
    | enum name => cases v <;> trivial
    | scalar kind =>
        cases kind
        case int32 | uint32 | sint32 | float => exact absurd (by simp [unguarded]) hguarded
        case fixed32 | sfixed32 =>
          cases v <;> first | cases hv | skip
          rw [word?] at hv
          split at hv
          · assumption
          · cases hv
        all_goals cases v <;> trivial

end Value

/-! ### Lists of records -/

namespace Record

variable {type : Message} {items : List Record} {bytes : Bytes}

theorem wellFormed_wrap (hitems : ∀ r ∈ items, r.WellFormed) : (wrap items).WellFormed := by
  cases items with
  | nil => trivial
  | cons item items =>
      have hmessages : Value.WellFormedAll ((item :: items).map .message) :=
        Value.wellFormedAll_iff.2 (List.forall_mem_map.2 hitems)
      exact ⟨Nat.zero_le 1, by decide, hmessages, trivial⟩

theorem normalise_wrap (items : List Record) :
    (wrap items).normalise type.arrayOf = wrap (items.map (·.normalise type)) :=
  prune_wrap (fun _ _ _ => rfl) items

/-- A list of records that is written is read back if the canonical forms of its records conform, whether or not they
do themselves. -/
theorem decode_wrap (hbytes : (wrap items).encode type.arrayOf = .ok bytes) (hformed : ∀ r ∈ items, r.WellFormed)
    (hconforms : ∀ r ∈ items, (r.normalise type).Conforms type) (hlength : bytes.length < 2 ^ 64) :
    ∃ found, decode type.arrayOf bytes = .ok (wrap found)
      ∧ found.map quiet = items.map fun r => (r.normalise type).quiet := by
  have hcanonical := encode_prune hbytes
  have hwrapFormed : ((wrap items).normalise type.arrayOf).WellFormed := (wellFormed_wrap hformed).prune
  have hwrapConforms : ((wrap items).normalise type.arrayOf).Conforms type.arrayOf := by
    rw [normalise_wrap]
    exact conforms_wrap_iff.2 (List.forall_mem_map.2 hconforms)
  obtain ⟨_, hencode, hread⟩ := encode_spec hwrapConforms hwrapFormed
  cases hcanonical.symm.trans hencode
  obtain ⟨decoded, hdecode, hquiet⟩ := hread hlength
  rw [normalise_normalise, normalise_wrap] at hquiet
  obtain ⟨found, rfl, hfound⟩ := wrap_of_quiet hquiet
  exact ⟨found, hdecode, by rw [hfound, List.map_map]; rfl⟩

end Record

/-! ### Sheets -/

namespace EncodedSheet

variable {g : Grid} {type : Message} {enums : EnumTable} {s : EncodedSheet}

/-- The records of a sheet are maps from numbers, and hold no empty lists. -/
theorem records_spec (hsheet : ofGrid g type enums = .ok s) (hfit : type.NumbersFit) :
    ∀ r ∈ s.records, r.WellFormed ∧ ∀ other, r.normalise other = r.withoutDefaults other := by
  intro r hr
  obtain ⟨l, hlayout, hrows, -⟩ := spec_of_ofGrid hsheet
  obtain ⟨row, hrow⟩ := exists_toRecord_of_mem hrows hr
  obtain ⟨hown, hownFit⟩ := Row.toRecord_accepted hlayout hrow "record"
  exact (Row.sound_of_toRecord hlayout (hownFit hfit) hown).record.2

/-- Bytes that are read back as the records of a sheet are those of records that conform. -/
theorem conforms_of_decode_binary (hsheet : ofGrid g type enums = .ok s) {items : List Record}
    (hdecode : Record.decode s.type s.binary = .ok (.wrap items))
    (hitems : items.map Record.quiet = s.records.map fun r => (r.withoutDefaults type).quiet) :
    ∀ r ∈ s.records, (r.withoutDefaults type).Conforms type := by
  intro r hr
  obtain ⟨-, -, -, htype, -⟩ := spec_of_ofGrid hsheet
  have hwrap := Record.conforms_of_decode hdecode
  rw [htype] at hwrap
  have hmem : (r.withoutDefaults type).quiet ∈ items.map Record.quiet := by
    rw [hitems]
    exact List.mem_map_of_mem hr
  obtain ⟨item, hitem, hquiet⟩ := List.mem_map.1 hmem
  have hconforms : item.Conforms type := Record.conforms_wrap_iff.1 hwrap item hitem
  rw [← Record.conforms_quiet, ← hquiet]
  exact Record.conforms_quiet.2 hconforms

/-- A sheet is written with any type that suits its header by numbers and names. Its bytes are read back as its
records, without the defaults of implicit fields, exactly if these conform to the type: if lists stand in the fields
that are repeated and only there, and no value is beyond the range of its field. Field numbers are ones of 32 bits, and
the length of bytes in memory is one of 64. -/
theorem decode_binary_iff_conforms (hsheet : ofGrid g type enums = .ok s) (hfit : type.NumbersFit)
    (hlength : s.binary.length < 2 ^ 64) :
    (∃ items, Record.decode s.type s.binary = .ok (.wrap items)
        ∧ items.map Record.quiet = s.records.map fun r => (r.withoutDefaults type).quiet)
      ↔ ∀ r ∈ s.records, (r.withoutDefaults type).Conforms type := by
  constructor
  · rintro ⟨items, hdecode, hitems⟩
    exact conforms_of_decode_binary hsheet hdecode hitems
  · intro hconforms
    obtain ⟨-, -, -, htype, hbinary⟩ := spec_of_ofGrid hsheet
    have hrecords := records_spec hsheet hfit
    have hcanonical (r : Record) (hr : r ∈ s.records) : r.normalise type = r.withoutDefaults type :=
      (hrecords r hr).2 type
    obtain ⟨items, hdecode, hitems⟩ := Record.decode_wrap hbinary (fun r hr => (hrecords r hr).1)
      (fun r hr => by rw [hcanonical r hr]; exact hconforms r hr) hlength
    refine ⟨items, htype ▸ hdecode, ?_⟩
    rw [hitems]
    exact List.map_congr_left fun r hr => by rw [hcanonical r hr]

end EncodedSheet

/-- A sheet of parcels, one of them without a weight and without marks. -/
def parcels : Grid :=
  ⟨[["", "", "", ""], ["int32", "int32", "float", "string[]"], ["id", "count", "weight", "marks"],
    ["7", "0", "0.5", "oak;ash"], ["-1"]]⟩

/-- A type for parcels of wider numbers, and with a text where the sheet counts. -/
def parcelType : Message :=
  ⟨"Parcel", [⟨1, "id", .implicit, .value (.scalar .sint64)⟩, ⟨2, "count", .implicit, .value (.scalar .string)⟩,
    ⟨3, "weight", .optional, .value (.scalar .double)⟩, ⟨4, "marks", .repeated, .value (.scalar .string)⟩]⟩

/-- A count of zero is left out, so nothing of the sheet is out of place. -/
theorem parcels_decode_binary :
    ∃ s items, EncodedSheet.ofGrid parcels parcelType {} = .ok s ∧ s.records.length = 2
      ∧ Record.decode s.type s.binary = .ok (.wrap items)
      ∧ items.map Record.quiet = s.records.map fun r => (r.withoutDefaults parcelType).quiet := by
  have hfacts : ((EncodedSheet.ofGrid parcels parcelType {}).toOption.map fun s =>
      (s.records.length, s.binary.length, decide (∀ r ∈ s.records, (r.withoutDefaults parcelType).Conforms parcelType)))
        = some (2, 27, true) := by decide +kernel
  obtain ⟨s, hsheet, hfacts⟩ := map_toOption_eq_some.1 hfacts
  simp only [Prod.mk.injEq, decide_eq_true_eq] at hfacts
  obtain ⟨hrecords, hlength, hconforms⟩ := hfacts
  have hfit : parcelType.NumbersFit :=
    ⟨⟨by decide, trivial⟩, ⟨by decide, trivial⟩, ⟨by decide, trivial⟩, ⟨by decide, trivial⟩, trivial⟩
  obtain ⟨items, hdecode, hitems⟩ :=
    (EncodedSheet.decode_binary_iff_conforms hsheet hfit (by rw [hlength]; decide)).2 hconforms
  exact ⟨s, items, hsheet, hrecords, hdecode, hitems⟩

/-- A sheet with a number beyond 32 bits. -/
def wideNumbers : Grid := ⟨[[""], ["int64"], ["id"], ["4294967297"]]⟩

/-- A type of 32 bits for it. -/
def narrowType : Message := ⟨"Item", [⟨1, "id", .implicit, .value (.scalar .int32)⟩]⟩

/-- A sheet with a list in a cell. -/
def shelves : Grid := ⟨[["", ""], ["int32", "int32[]"], ["id", "levels"], ["1", "2;3"]]⟩

/-- A type of single numbers for it. -/
def shelfType : Message :=
  ⟨"Shelf", [⟨1, "id", .implicit, .value (.scalar .int32)⟩, ⟨2, "levels", .implicit, .value (.scalar .int32)⟩]⟩

/-- The encoder refuses neither sheet. The number comes back as its lowest 32 bits, and the list not at all. -/
theorem wideNumbers_cut_and_shelves_unreadable :
    (∃ s, EncodedSheet.ofGrid wideNumbers narrowType {} = .ok s
        ∧ (∃ r, Record.decode s.type s.binary = .ok r ∧ r.agrees (.wrap [⟨[(1, .single (.int 1))]⟩]) = true)
        ∧ ¬∃ items, Record.decode s.type s.binary = .ok (.wrap items)
          ∧ items.map Record.quiet = s.records.map fun r => (r.withoutDefaults narrowType).quiet)
      ∧ ∃ s, EncodedSheet.ofGrid shelves shelfType {} = .ok s
        ∧ Record.decode s.type s.binary = .error (.packedSingular "levels") := by
  constructor
  · have hfacts : ((EncodedSheet.ofGrid wideNumbers narrowType {}).toOption.map fun s =>
        ((Record.decode s.type s.binary).toOption.map (·.agrees (.wrap [⟨[(1, .single (.int 1))]⟩])),
          decide (∀ r ∈ s.records, (r.withoutDefaults narrowType).Conforms narrowType)))
          = some (some true, false) := by decide +kernel
    obtain ⟨s, hsheet, hfacts⟩ := map_toOption_eq_some.1 hfacts
    simp only [Prod.mk.injEq, decide_eq_false_iff_not, map_toOption_eq_some] at hfacts
    obtain ⟨hcut, hnot⟩ := hfacts
    refine ⟨s, hsheet, hcut, ?_⟩
    rintro ⟨items, hdecode, hitems⟩
    exact hnot (EncodedSheet.conforms_of_decode_binary hsheet hdecode hitems)
  · have hfacts : ((EncodedSheet.ofGrid shelves shelfType {}).toOption.map fun s =>
        error? (Record.decode s.type s.binary)) = some (some (.packedSingular "levels")) := by decide +kernel
    obtain ⟨s, hsheet, hfault⟩ := map_toOption_eq_some.1 hfacts
    exact ⟨s, hsheet, error?_eq_some.1 hfault⟩

end SheetCompiler

import SheetCompiler.Proofs.Schema.Mirror
import SheetCompiler.Proofs.Schema.Reuse

/-!
# What the type names of a schema denote

The source of a schema refers to types by name. A keyword denotes its scalar type; another name denotes a message
that an enclosing message declares, the innermost one first, or one of the file; and a name that none of them has is
left for the imported enums. Since the structs of one type name agree in every message, the name of a message is
read back as that message, unless it is a keyword. The name of an enum, which the schema does not declare, can be
taken by a keyword and by every message around it.
-/

namespace SheetCompiler

namespace Message

/-- The message of this name that is declared in a message. -/
def declared? (m : Message) (name : String) : Option Message :=
  (m.fields.filterMap Field.message?).find? (·.name == name)

/-- The messages around a field of a record, from the one that the field belongs to outwards. -/
inductive Encloses (record : Message) : List Message → Prop
  | record : Encloses record [record]
  | inside {inner outer : Message} {around : List Message} {field : Field} (houter : Encloses record (outer :: around))
      (hfield : field ∈ outer.fields) (hinner : field.message? = some inner) :
      Encloses record (inner :: outer :: around)

theorem Encloses.contains {record own : Message} {around : List Message} (h : record.Encloses (own :: around)) :
    record.Contains own := by
  generalize hpath : own :: around = path at h
  induction h generalizing own around with
  | record =>
      cases hpath
      exact .self
  | inside _ hfield hinner ih =>
      cases hpath
      exact .inside (ih rfl) hfield hinner

/-- Where messages of one name are the same, a message is found under its name. -/
theorem Uniform.find?_eq {types : List Message} (h : Uniform types) {type : Message} (htype : type ∈ types) :
    types.find? (·.name == type.name) = some type := by
  cases hfind : types.find? (·.name == type.name) with
  | none =>
      have hmissing := List.find?_eq_none.1 hfind type htype
      simp at hmissing
  | some other =>
      have hname : other.name = type.name := by simpa using List.find?_some hfind
      rw [h other (List.mem_of_find?_eq_some hfind) type htype hname]

end Message

theorem ScalarKind.ofName?_name (kind : ScalarKind) : ofName? kind.name = some kind := by
  cases kind <;> decide

namespace FieldKind

/-- What a type name denotes in messages that lie in each other, the innermost first, in a file of these messages. -/
def denoted (file enclosing : List Message) (name : String) : FieldKind :=
  match ScalarKind.ofName? name with
  | some kind => .value (.scalar kind)
  | none =>
      match (enclosing.findSome? (·.declared? name)).or (file.find? (·.name == name)) with
      | some type => .message type
      | none => .value (.enum name)

/-- Whether nothing takes the name of a kind from it. -/
def Unshadowed (file enclosing : List Message) : FieldKind → Prop
  | .value (.scalar _) => True
  | .message type => ScalarKind.ofName? type.name = none
  | .value (.enum name) =>
      ScalarKind.ofName? name = none
        ∧ (∀ m ∈ enclosing, ∀ type ∈ m.fields.filterMap Field.message?, type.name ≠ name)
        ∧ ∀ type ∈ file, type.name ≠ name

variable {file around : List Message} {own type : Message} {name : String}

theorem denoted_of_keyword {kind : ScalarKind} {enclosing : List Message} (h : ScalarKind.ofName? name = some kind) :
    denoted file enclosing name = .value (.scalar kind) := by
  rw [denoted, h]

theorem denoted_message_iff (huniform : Message.Uniform (own.fields.filterMap Field.message?))
    (htype : type ∈ own.fields.filterMap Field.message?) :
    denoted file (own :: around) type.name = .message type ↔ ScalarKind.ofName? type.name = none := by
  cases hkeyword : ScalarKind.ofName? type.name with
  | some kind =>
      rw [denoted_of_keyword hkeyword]
      exact ⟨nofun, nofun⟩
  | none =>
      have hdeclared : own.declared? type.name = some type := huniform.find?_eq htype
      rw [denoted, hkeyword, List.findSome?_cons, hdeclared]
      exact ⟨fun _ => rfl, fun _ => rfl⟩

theorem denoted_enum_iff {enclosing : List Message} :
    denoted file enclosing name = .value (.enum name) ↔ Unshadowed file enclosing (.value (.enum name)) := by
  rw [Unshadowed]
  cases hkeyword : ScalarKind.ofName? name with
  | some kind =>
      rw [denoted_of_keyword hkeyword]
      exact ⟨nofun, nofun⟩
  | none =>
      have hnone : (∀ m ∈ enclosing, ∀ type ∈ m.fields.filterMap Field.message?, type.name ≠ name)
          ↔ enclosing.findSome? (·.declared? name) = none := by
        simp only [List.findSome?_eq_none_iff, Message.declared?, List.find?_eq_none, beq_iff_eq]
      have hfile : (∀ type ∈ file, type.name ≠ name) ↔ file.find? (·.name == name) = none := by
        simp only [List.find?_eq_none, beq_iff_eq, ne_eq]
      rw [denoted, hkeyword, hnone, hfile]
      cases enclosing.findSome? (·.declared? name) <;> cases file.find? (·.name == name) <;> simp

end FieldKind

/-- In a field of any message of a schema, the type name that the source has denotes what the field is bound to exactly
if nothing takes the name: always for a scalar, unless a keyword is its name for a message, and for an enum unless a
keyword, a message that is declared in one of those around the field, the record or the list of records has its name. -/
theorem Schema.typeName_denotes_iff {h : Header} {record : String} {options : SchemaOptions} {schema : Schema}
    (hschema : ofHeader h record options = .ok schema) {own : Message} {around : List Message}
    (hpath : schema.type.Encloses (own :: around)) {field : Field} (hfield : field ∈ own.fields) :
    FieldKind.denoted [schema.type, schema.type.arrayOf] (own :: around) field.kind.typeName = field.kind
      ↔ field.kind.Unshadowed [schema.type, schema.type.arrayOf] (own :: around) := by
  have huniform := uniform_of_contains hschema hpath.contains
  cases hkind : field.kind with
  | value type =>
      cases type with
      | scalar kind =>
          have hdenoted : FieldKind.denoted [schema.type, schema.type.arrayOf] (own :: around) kind.name
              = .value (.scalar kind) := FieldKind.denoted_of_keyword (ScalarKind.ofName?_name kind)
          exact ⟨fun _ => trivial, fun _ => hdenoted⟩
      | enum name => exact FieldKind.denoted_enum_iff
  | message type =>
      have hmessage : field.message? = some type := by rw [Field.message?, hkind]
      exact FieldKind.denoted_message_iff huniform (List.mem_filterMap.2 ⟨field, hfield, hmessage⟩)

/-- In the contacts, the places of an address and the spots have one type name, which denotes either by where it
stands. -/
theorem contacts_names_denote_their_types :
    ∃ schema address place spot, Schema.ofHeader contacts "Contact" {} = .ok schema ∧ schema.type = contactType
      ∧ contactType.declared? "Address" = some address ∧ address.declared? "Point" = some place
      ∧ contactType.declared? "Point" = some spot ∧ place ≠ spot
      ∧ FieldKind.denoted [schema.type, schema.type.arrayOf] [address, schema.type] "Point" = .message place
      ∧ FieldKind.denoted [schema.type, schema.type.arrayOf] [schema.type] "Point" = .message spot
      ∧ FieldKind.denoted [schema.type, schema.type.arrayOf] [place, address, schema.type] "Zone"
        = .value (.enum "Zone") := by
  let place : Message := ⟨"Point", [⟨1, "zone", .implicit, .value (.enum "Zone")⟩]⟩
  let address : Message :=
    ⟨"Address", [⟨1, "street", .implicit, .value (.scalar .string)⟩, ⟨2, "place", .implicit, .message place⟩]⟩
  let spot : Message := ⟨"Point", [⟨1, "x", .implicit, .value (.scalar .double)⟩]⟩
  have htype : (Schema.ofHeader contacts "Contact" {}).toOption.map (·.type) = some contactType := by decide +kernel
  obtain ⟨schema, hschema, htype⟩ := map_toOption_eq_some.1 htype
  have hhome : (⟨3, "home", .implicit, .message address⟩ : Field) ∈ schema.type.fields := by rw [htype]; decide +kernel
  have hspots : (⟨5, "spots", .repeated, .message spot⟩ : Field) ∈ schema.type.fields := by rw [htype]; decide +kernel
  have hplace : (⟨2, "place", .implicit, .message place⟩ : Field) ∈ address.fields := by decide +kernel
  have hzone : (⟨1, "zone", .implicit, .value (.enum "Zone")⟩ : Field) ∈ place.fields := by decide +kernel
  have hrecord : schema.type.Encloses [schema.type] := .record
  have haddress : schema.type.Encloses [address, schema.type] := .inside hrecord hhome rfl
  have hpoint : schema.type.Encloses [place, address, schema.type] := .inside haddress hplace rfl
  refine ⟨schema, address, place, spot, hschema, htype, by decide +kernel, by decide +kernel, by decide +kernel,
    by decide +kernel, ?_, ?_, ?_⟩
  · exact (Schema.typeName_denotes_iff hschema haddress hplace).2 (show ScalarKind.ofName? "Point" = none by decide)
  · exact (Schema.typeName_denotes_iff hschema hrecord hspots).2 (show ScalarKind.ofName? "Point" = none by decide)
  · refine (Schema.typeName_denotes_iff hschema hpoint hzone).2 ?_
    rw [htype]
    exact ⟨by decide, by decide, by decide⟩

/-- A header of a struct whose type has the name of a scalar. -/
def keywordStruct : Header := ⟨[⟨"home", "required_struct 1", "int32"⟩, ⟨"", "int64", "x"⟩]⟩

/-- A header of an enum type and of a struct type that takes its name. -/
def shadowedEnum : Header :=
  ⟨[⟨"", "enum-Color", "paint"⟩, ⟨"home", "required_struct 1", "Color"⟩, ⟨"", "int32", "red"⟩]⟩

/-- Both headers have a schema with a field whose type name denotes something else. -/
theorem keywordStruct_and_shadowedEnum_denote_others :
    (∃ schema field, Schema.ofHeader keywordStruct "Item" {} = .ok schema ∧ field ∈ schema.type.fields
      ∧ field.kind.typeName = "int32" ∧ field.message?.isSome = true
      ∧ FieldKind.denoted [schema.type, schema.type.arrayOf] [schema.type] "int32" = .value (.scalar .int32))
    ∧ ∃ schema field type, Schema.ofHeader shadowedEnum "Item" {} = .ok schema ∧ field ∈ schema.type.fields
      ∧ field.kind = .value (.enum "Color")
      ∧ FieldKind.denoted [schema.type, schema.type.arrayOf] [schema.type] "Color" = .message type := by
  constructor
  · let home : Field := ⟨1, "home", .implicit, .message ⟨"int32", [⟨1, "x", .implicit, .value (.scalar .int64)⟩]⟩⟩
    have htype : (Schema.ofHeader keywordStruct "Item" {}).toOption.map (·.type) = some ⟨"Item", [home]⟩ := by
      decide +kernel
    obtain ⟨schema, hschema, htype⟩ := map_toOption_eq_some.1 htype
    exact ⟨schema, home, hschema, by simp [htype], rfl, rfl, FieldKind.denoted_of_keyword (by decide)⟩
  · let paint : Field := ⟨1, "paint", .implicit, .value (.enum "Color")⟩
    let color : Message := ⟨"Color", [⟨1, "red", .implicit, .value (.scalar .int32)⟩]⟩
    have htype : (Schema.ofHeader shadowedEnum "Item" {}).toOption.map (·.type)
        = some ⟨"Item", [paint, ⟨2, "home", .implicit, .message color⟩]⟩ := by decide +kernel
    obtain ⟨schema, hschema, htype⟩ := map_toOption_eq_some.1 htype
    exact ⟨schema, paint, color, hschema, by simp [htype], rfl, by rw [htype]; decide +kernel⟩

end SheetCompiler

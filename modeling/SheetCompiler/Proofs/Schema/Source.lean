import SheetCompiler.Proofs.Schema.Reuse

/-!
# The source of a schema

The schema pass writes the source while it walks the layout, and keeps a scope for each message to know what has
been declared. The same source can be printed from the finished message type and what is said about its fields,
by a recursion without a state: every message is printed in front of the first field of its type, and a field of
that type further on, in the same message, is a line and nothing else.
-/

namespace SheetCompiler

/-- What is said about a field, and about the fields of the message that it holds. -/
structure Remark where
  text : String := ""
  inside : List Remark := []

namespace Node

mutual

def remark? : Node → Option Remark
  | .skip _ => none
  | .value column _ | .inline column | .values _ _ column _ => some { text := Schema.remark column }
  | .struct _ members | .structs _ _ _ members => some { inside := remarks members }

/-- What is said about the fields of constructs side by side. -/
def remarks : List Node → List Remark
  | [] => []
  | node :: nodes => (remark? node).toList ++ remarks nodes

end

end Node

/-! ### Printing a message type -/

/-- The declaration of a field, without the blanks in front of it. -/
def Field.declaration (field : Field) : String :=
  (match field.label with
    | .implicit => ""
    | .optional => "optional "
    | .repeated => "repeated ")
  ++ field.kind.typeName ++ " " ++ field.name ++ " = " ++ toString field.number ++ ";"

/-- Whether one of the fields holds a message of a type name. -/
def Field.anyHolds (fields : List Field) (name : String) : Bool :=
  fields.any fun field => field.message?.any (·.name == name)

mutual

/-- The lines of a field: what is said about it, or the message that it holds if no earlier field of its message
holds one of that name, and then its declaration. -/
def Field.print (depth : Nat) (earlier : List Field) (remark : Remark) : Field → List String
  | ⟨number, name, label, .value type⟩ =>
      Schema.commentLines depth remark.text
        ++ [Schema.line depth (Field.declaration ⟨number, name, label, .value type⟩)]
  | ⟨number, name, label, .message type⟩ =>
      (if Field.anyHolds earlier type.name then [] else "" :: Message.print depth remark.inside type ++ [""])
        ++ [Schema.line depth (Field.declaration ⟨number, name, label, .message type⟩)]

/-- The lines of fields one after another, behind earlier ones of the same message. -/
def Field.printAll (depth : Nat) (earlier : List Field) (remarks : List Remark) : List Field → List String
  | [] => []
  | field :: fields =>
      Field.print depth earlier (remarks.headD {}) field
        ++ Field.printAll depth (earlier ++ [field]) remarks.tail fields

/-- The lines of a message, its fields further in. -/
def Message.print (depth : Nat) (remarks : List Remark) : Message → List String
  | ⟨name, fields⟩ =>
      Schema.line depth ("message " ++ name ++ " \x7b") :: Field.printAll (depth + 1) [] remarks fields
        ++ [Schema.line depth "\x7d"]

end

/-- The lines of a whole source. -/
def Schema.print (options : SchemaOptions) (usesEnums : Bool) (remarks : List Remark) (type : Message) :
    List String :=
  ["/**", "* @file:   " ++ (type.name ++ "." ++ options.extension),
    "* @brief:  generated by sheetproto from the workbook sheet, do not edit", "*/", "",
    "syntax = \"proto3\";", "package " ++ options.package ++ ";"]
  ++ (if usesEnums then ["import \"" ++ options.enumImport ++ "\";"] else []) ++ [""]
  ++ type.print 0 remarks
  ++ ["", "message " ++ type.name ++ "_array \x7b", "   repeated " ++ type.name ++ " items = 1;", "\x7d"]

namespace Field

theorem printAll_append {remarks more : List Remark} {fields rest : List Field}
    (hlength : remarks.length = fields.length) (depth : Nat) (earlier : List Field) :
    printAll depth earlier (remarks ++ more) (fields ++ rest)
      = printAll depth earlier remarks fields ++ printAll depth (earlier ++ fields) more rest := by
  induction fields generalizing remarks earlier with
  | nil =>
      rw [List.length_eq_zero_iff.1 hlength, List.append_nil]
      rfl
  | cons field fields ih =>
      cases remarks with
      | nil => cases hlength
      | cons remark remarks =>
          simp only [List.cons_append, printAll, List.headD_cons, List.tail_cons, List.append_assoc,
            List.nil_append, ih (Nat.succ.inj hlength)]

theorem printAll_singleton (depth : Nat) (earlier : List Field) (remark : Remark) (field : Field) :
    printAll depth earlier [remark] [field] = field.print depth earlier remark := List.append_nil _

theorem anyHolds_eq (fields : List Field) (name : String) :
    anyHolds fields name = ((fields.filterMap Field.message?).find? (·.name == name)).isSome := by
  induction fields with
  | nil => rfl
  | cons field fields ih =>
      rw [anyHolds, List.any_cons, List.filterMap_cons]
      change (field.message?.any (·.name == name) || anyHolds fields name) = _
      rw [ih]
      cases field.message? with
      | none => rfl
      | some type =>
          rw [List.find?_cons]
          cases hname : type.name == name <;> simp [hname]

end Field

namespace Node

theorem length_remark? (node : Node) (number : Nat) :
    node.remark?.toList.length = (node.field? number).toList.length := by
  cases node <;> rfl

end Node

/-! ### What the pass writes -/

namespace Schema

open Node

namespace Draft

variable {d : Draft} {before : List Node} {earlier : List Field}

theorem lines_field (depth : Nat) (column : ValueColumn) (label : Label) :
    (d.field depth column label).1.lines
      = d.lines ++ Field.print depth earlier { text := Schema.remark column } (d.field depth column label).2 := by
  cases label <;> exact List.append_assoc ..

/-- The lines of a field that holds a message, which `inner` has written. -/
theorem lines_leave {inner : Draft} {depth : Nat} {head : StructColumn} {label : Label} {members : List Node}
    {r : Draft × Field} (hwalked : d.Walked before) (hearlier : earlier.filterMap Field.message? = structTypes before)
    (hpop : inner.scopes.pop = d.scopes.advance)
    (hinner : inner.lines = Field.printAll (depth + 1) [] (remarks members) (fields 1 members))
    (h : d.leave inner depth head label (fields 1 members) = .ok r) :
    r.1.lines = d.lines ++ Field.print depth earlier { inside := remarks members } r.2 := by
  have hholds : Field.anyHolds earlier head.typeName = (d.scopes.declared? head.typeName).isSome := by
    rw [Field.anyHolds_eq, hearlier, hwalked.declared]
  rw [leave_eq hpop] at h
  cases hdeclared : d.scopes.declared? head.typeName with
  | none =>
      rw [hdeclared] at h hholds
      cases h
      rw [hinner]
      cases label <;> simp [Field.print, Message.print, hholds, block, fieldLine, labelWord, Field.declaration,
        FieldKind.typeName]
  | some type =>
      rw [hdeclared] at h hholds
      simp only at h
      split at h
      · cases h
        cases label <;> simp [Field.print, hholds, fieldLine, labelWord, Field.declaration, FieldKind.typeName]
      · cases h

end Draft

theorem lines_struct {h : Header} {first last depth : Nat} {d : Draft} {head : StructColumn} {label : Label}
    {before members : List Node} {earlier : List Field} {r : Draft × Field} (hwalked : d.Walked before)
    (hearlier : earlier.filterMap Field.message? = structTypes before) (htile : Tile h first last members)
    (hmembers : ∀ r, declareAll (depth + 1) d.enter members = .ok r →
      r.1.lines = Field.printAll (depth + 1) [] (remarks members) (fields 1 members))
    (hdeclare : (declareAll (depth + 1) d.enter members >>= fun r => d.leave r.1 depth head label r.2) = .ok r) :
    r.1.lines = d.lines ++ Field.print depth earlier { inside := remarks members } r.2 := by
  obtain ⟨⟨inner, declared⟩, hinner, hleave⟩ := bind_eq_ok.1 hdeclare
  obtain ⟨rfl, hpasses⟩ := declareAll_spec htile hinner
  exact Draft.lines_leave hwalked hearlier (Scopes.pop_eq hpasses.outer) (hmembers _ hinner) hleave

mutual

theorem lines_declare {h : Header} {first depth : Nat} {d : Draft} {before : List Node} {earlier : List Field} :
    ∀ {node : Node} {r : Draft × Option Field}, node.Stands h first → d.Walked before →
      earlier.filterMap Field.message? = structTypes before → declare depth d node = .ok r →
      r.1.lines = d.lines ++ Field.printAll depth earlier node.remark?.toList r.2.toList
  | .skip _, _, _, _, _, hdeclare => by
      cases hdeclare
      exact (List.append_nil _).symm
  | .value column _, _, _, _, _, hdeclare | .inline column, _, _, _, _, hdeclare
  | .values _ _ column _, _, _, _, _, hdeclare => by
      cases hdeclare
      exact (Draft.lines_field depth column _).trans (congrArg _ (Field.printAll_singleton ..).symm)
  | .struct head members, _, ⟨_, _, htile⟩, hwalked, hearlier, hdeclare => by
      rw [declare, ← bind_assoc] at hdeclare
      obtain ⟨r, hstruct, hdeclare⟩ := bind_eq_ok.1 hdeclare
      cases hdeclare
      have hmembers : ∀ r, declareAll (depth + 1) d.enter members = .ok r →
          r.1.lines = Field.printAll (depth + 1) [] (remarks members) (fields 1 members) :=
        fun r hr => lines_declareAll htile (Draft.walked_nil (d := d.enter) rfl) rfl hr
      have hlines := lines_struct hwalked hearlier htile hmembers hstruct
      exact hlines.trans (congrArg _ (Field.printAll_singleton ..).symm)
  | .structs _ max head members, _, ⟨_, _, _, _, _, htile, _⟩, hwalked, hearlier, hdeclare => by
      rw [declare, ← bind_assoc] at hdeclare
      obtain ⟨r, hstruct, hdeclare⟩ := bind_eq_ok.1 hdeclare
      cases hdeclare
      have hmembers : ∀ r, declareAll (depth + 1) (d.skip 1).enter members = .ok r →
          r.1.lines = Field.printAll (depth + 1) [] (remarks members) (fields 1 members) :=
        fun r hr => lines_declareAll htile (Draft.walked_nil (d := (d.skip 1).enter) rfl) rfl hr
      have hskipped : (d.skip 1).Walked before := hwalked.congr rfl
      have hlines := lines_struct hskipped hearlier htile hmembers hstruct
      exact hlines.trans (congrArg _ (Field.printAll_singleton ..).symm)

/-- Walking the rest of a scope writes what its fields are printed as, behind those in front of them. -/
theorem lines_declareAll {h : Header} {first last depth : Nat} {d : Draft} {before : List Node}
    {earlier : List Field} :
    ∀ {nodes : List Node} {r : Draft × List Field}, Tile h first last nodes → d.Walked before →
      earlier.filterMap Field.message? = structTypes before → declareAll depth d nodes = .ok r →
      r.1.lines = d.lines ++ Field.printAll depth earlier (remarks nodes) (fields d.scopes.number nodes)
  | [], _, _, _, _, hdeclare => by
      cases hdeclare
      exact (List.append_nil _).symm
  | node :: nodes, _, ⟨hnode, htile⟩, hwalked, hearlier, hdeclare => by
      obtain ⟨⟨d₁, field⟩, hdeclare₁, hdeclare⟩ := bind_eq_ok.1 hdeclare
      obtain ⟨⟨d₂, rest⟩, hdeclare₂, hdeclare⟩ := bind_eq_ok.1 hdeclare
      cases hdeclare
      have hlines := lines_declare hnode hwalked hearlier hdeclare₁
      obtain ⟨rfl, hpasses⟩ := declare_spec hnode hdeclare₁
      have hwalked₁ : d₁.Walked (before ++ [node]) := by
        have hends : Ends (fun r => r.1.Walked (before ++ [node])) (Faults (before ++ node :: nodes))
            (declare depth d node) := ends_declare hnode hwalked
        rw [hdeclare₁] at hends
        exact hends.of_ok
      -- The scope of the draft and the fields in front tell the same of what has been declared.
      have hearlier₁ : (earlier ++ (node.field? d.scopes.number).toList).filterMap Field.message?
          = structTypes (before ++ [node]) := by
        rw [List.filterMap_append, hearlier, message?_of_field?, structTypes_append, structTypes_singleton]
      rw [lines_declareAll htile hwalked₁ hearlier₁ hdeclare₂, hlines, hpasses.number, fields, remarks,
        Field.printAll_append (node.length_remark? _), List.append_assoc]

end

theorem arrayBlock_eq (record : String) :
    arrayBlock record
      = ["message " ++ record ++ "_array \x7b", "   repeated " ++ record ++ " items = 1;", "\x7d"] := by
  have hline (text : String) : line 0 text = text := String.empty_append
  have hopening : "_array" ++ " \x7b" = "_array \x7b" := by decide
  have hfront : String.ofList (List.replicate (3 * 1) ' ') ++ "repeated " = "   repeated " := by decide
  have hback : " " ++ ("items" ++ (" = " ++ (toString 1 ++ ";"))) = " items = 1;" := by decide
  rw [arrayBlock, block, hline, hline, ← hopening, ← hfront, ← hback]
  simp only [fieldLine, line, labelWord, Message.arrayName, Message.itemsName, String.append_assoc, List.cons_append,
    List.nil_append]

theorem print_eq (options : SchemaOptions) (usesEnums : Bool) (remarks : List Remark) (record : String)
    (fields : List Field) :
    print options usesEnums remarks ⟨record, fields⟩
      = preamble options (fileNameOf record options.extension) usesEnums
        ++ block 0 record (Field.printAll 1 [] remarks fields) ++ [""] ++ arrayBlock record := by
  rw [arrayBlock_eq, print, Message.print]
  simp only [preamble, fileNameOf, block, List.append_assoc, List.cons_append, List.nil_append]

end Schema

/-- The source of a schema is its message type, printed. The file of the enum types is imported exactly if some
column is of one. -/
theorem Schema.text_eq_print {h : Header} {l : Layout} {record : String} {options : SchemaOptions} {schema : Schema}
    (hlayout : Layout.ofHeader h = .ok l) (hschema : ofHeader h record options = .ok schema) :
    schema.text = Text.unlines (print options schema.usesEnums (Node.remarks l.nodes) schema.type)
      ∧ (schema.usesEnums = true ↔ ∃ column name, Node.NamesEnum l.nodes column name) := by
  rw [ofHeader_eq hlayout] at hschema
  cases hdeclare : declareAll 1 {} l.nodes with
  | error e =>
      rw [hdeclare] at hschema
      cases hschema
  | ok r =>
      have hlines : r.1.lines = Field.printAll 1 [] (Node.remarks l.nodes) (Node.fields 1 l.nodes) :=
        lines_declareAll (Layout.tile_of_ofHeader hlayout).2 (Draft.walked_nil rfl) rfl hdeclare
      rw [hdeclare] at hschema
      cases hschema
      constructor
      · dsimp only
        rw [Layout.type, print_eq, hlines]
      · simp only [Layout.usesEnums, Layout.enums, Bool.not_eq_true', List.isEmpty_eq_false_iff_exists_mem, Prod.exists,
          Node.mem_enumsOf_iff]

/-- The source of the contacts. The address is printed in front of the first field of its type, the place inside it;
the second address is a line. The spots have another type of the name of the place, in another scope. -/
def contactLines : List String :=
  ["/**", "* @file:   Contact.schema", "* @brief:  generated by sheetproto from the workbook sheet, do not edit",
    "*/", "", "syntax = \"proto3\";", "package cfg;", "import \"enum.proto\";", "",
    "message Contact \x7b", "   /** number */", "   int32 id = 1;", "   /** how to",
    "      address them (default: none)", "   */", "   optional string title = 2;", "",
    "   message Address \x7b", "      string street = 1;", "", "      message Point \x7b",
    "         Zone zone = 1;", "      \x7d", "", "      Point place = 2;", "   \x7d", "",
    "   Address home = 3;", "   Address work = 4;", "", "   message Point \x7b", "      double x = 1;",
    "   \x7d", "", "   repeated Point spots = 5;", "   repeated Color colors = 6;", "\x7d", "",
    "message Contact_array \x7b", "   repeated Contact items = 1;", "\x7d"]

theorem contacts_printed :
    ∃ l schema, Layout.ofHeader contacts = .ok l ∧ Schema.ofHeader contacts "Contact" {} = .ok schema
      ∧ Text.unlines (Schema.print {} true (Node.remarks l.nodes) schema.type) = Text.unlines contactLines
      ∧ ∃ column name, Node.NamesEnum l.nodes column name := by
  have htext : (Schema.ofHeader contacts "Contact" {}).toOption.map (fun schema => (schema.text, schema.usesEnums))
      = some (Text.unlines contactLines, true) := by decide +kernel
  obtain ⟨schema, hschema, htext⟩ := map_toOption_eq_some.1 htext
  obtain ⟨l, hlayout⟩ := contacts_laidOut
  obtain ⟨htext, husesEnums⟩ := Prod.mk.inj htext
  obtain ⟨hprint, henums⟩ := Schema.text_eq_print hlayout hschema
  rw [husesEnums] at hprint henums
  exact ⟨l, schema, hlayout, hschema, hprint.symm.trans htext, henums.1 rfl⟩

end SheetCompiler

import SheetCompiler.Proofs.Schema.Bare
import SheetCompiler.Proofs.Schema.Source
import SheetCompiler.Proofs.Text.Comments

/-!
# Comments in the source of a schema

What a header remarks on a field is written into a comment above the declaration of the field, as it stands. So a
remark that closes the comment goes on as a part of the schema. The source has the same tokens as that of the header
without its remarks exactly if every remark that is written stays in its comment, and it does if nothing in it closes
one.
-/

namespace SheetCompiler

namespace Schema

open Text

/-- Whether a remark stays in the comment that is made of it, so that it leaves no token. -/
def Contained (remark : String) : Prop := tokens (unlines (commentLines 0 remark)).toList = []

instance (remark : String) : Decidable (Contained remark) := inferInstanceAs (Decidable (_ = _))

/-! ### The lines of a comment -/

theorem toList_line (depth : Nat) (text : String) :
    (line depth text).toList = List.replicate (3 * depth) ' ' ++ text.toList := by
  rw [line, String.toList_append, String.toList_ofList]

theorem isSpace_of_mem_replicate {n : Nat} : ∀ c ∈ List.replicate n ' ', isSpace c = true := by
  intro c hc
  rw [List.eq_of_mem_replicate hc]
  decide

theorem indents_line (depth : Nat) (text : String) : Indents (line depth text) text :=
  ⟨_, isSpace_of_mem_replicate, toList_line depth text⟩

theorem commentLines_eq (text : String) :
    (∀ depth, commentLines depth text = [])
      ∨ (∀ depth, commentLines depth text = [line depth ("/** " ++ text ++ " */")])
      ∨ ∃ first rest, first :: rest = (lines text.toList).map (fun l => String.ofList (trimEnd l))
        ∧ ∀ depth, commentLines depth text
          = line depth ("/** " ++ first) :: rest.map (line (depth + 1)) ++ [line depth "*/"] := by
  by_cases hempty : text.isEmpty = true
  · exact .inl fun depth => by rw [commentLines, if_pos hempty]
  · cases hlines : (lines text.toList).map fun l => String.ofList (trimEnd l) with
    | nil => exact .inr (.inl fun depth => by rw [commentLines, if_neg hempty, hlines])
    | cons first rest =>
        cases rest with
        | nil => exact .inr (.inl fun depth => by rw [commentLines, if_neg hempty, hlines])
        | cons second rest =>
            exact .inr (.inr ⟨first, second :: rest, rfl, fun depth => by rw [commentLines, if_neg hempty, hlines]⟩)

/-- How far in a comment stands does not change its tokens. -/
theorem tokens_commentLines (depth : Nat) (text : String) :
    tokens (unlines (commentLines depth text)).toList = tokens (unlines (commentLines 0 text)).toList := by
  rcases commentLines_eq text with h | h | ⟨first, rest, -, h⟩
  · rw [h, h]
  · have hindents (depth : Nat) :
        List.Forall₂ Indents [line depth ("/** " ++ text ++ " */")] ["/** " ++ text ++ " */"] :=
      .cons (indents_line depth _) .nil
    rw [h, h, tokens_of_indents (hindents depth), tokens_of_indents (hindents 0)]
  · have hindents (depth : Nat) :
        List.Forall₂ Indents (line depth ("/** " ++ first) :: rest.map (line (depth + 1)) ++ [line depth "*/"])
          ((("/** " ++ first) :: rest) ++ ["*/"]) := by
      refine List.rel_append ?_ (.cons (indents_line depth _) .nil)
      refine .cons (indents_line depth _) ?_
      rw [List.forall₂_map_left_iff, List.forall₂_same]
      exact fun text _ => indents_line (depth + 1) text
    rw [h, h, tokens_of_indents (hindents depth), tokens_of_indents (hindents 0)]

theorem settled_commentLines (depth : Nat) (text : String) : Settled (commentLines depth text) := by
  rcases commentLines_eq text with h | h | ⟨first, rest, -, h⟩
  · rw [h]
    exact settled_nil
  · rw [h]
    have hcloses : Closes (List.replicate (3 * depth) ' ' ++ "/** ".toList ++ text.toList ++ [' ', '*', '/']) :=
      ⟨_, ' ', by decide, rfl⟩
    refine settled_of_closes ⟨_, hcloses, ?_⟩
    rw [toList_unlines_cons, toList_line]
    simp only [String.toList_append, List.append_assoc]
    rfl
  · rw [h]
    exact settled_of_mark (indents_line depth _)

theorem tokens_comment {body : List Char} (h : Unclosed body) :
    tokens ('/' :: '*' :: (body ++ ['*', '/', '\n'])) = [] := by
  rw [tokens, dropBlockComments_of_closed (closeComment_of_unclosed h ['\n'])]
  decide +kernel

theorem unclosed_opening {text : List Char} (h : Unclosed text) : Unclosed ('*' :: ' ' :: text) :=
  Unclosed.append_cons (s := ['*']) (by decide) (by decide) h

theorem line_zero (text : String) : line 0 text = text := String.empty_append

/-- A remark in which nothing closes a comment stays in its own. -/
theorem contained_of_unclosed {text : String} (h : Unclosed text.toList) : Contained text := by
  rw [Contained]
  rcases commentLines_eq text with hlines | hlines | ⟨first, rest, hpieces, hlines⟩
  · rw [hlines, tokens_unlines_nil]
  · have hbody : Unclosed ('*' :: ' ' :: text.toList ++ [' ']) :=
      (unclosed_opening h).append_cons (c := ' ') (by decide) (unclosed_of_not_mem List.not_mem_nil)
    have htext : (unlines [line 0 ("/** " ++ text ++ " */")]).toList
        = '/' :: '*' :: ('*' :: ' ' :: text.toList ++ [' '] ++ ['*', '/', '\n']) := by
      rw [toList_unlines_cons, line_zero, String.toList_append, String.toList_append]
      simp only [List.append_assoc]
      rfl
    rw [hlines, htext, tokens_comment hbody]
  · have hpiece : ∀ l ∈ first :: rest, Unclosed l.toList := by
      intro l hl
      rw [hpieces] at hl
      obtain ⟨piece, hpiece, rfl⟩ := List.mem_map.1 hl
      rw [String.toList_ofList]
      exact Unclosed.mono h ((infix_trimEnd piece).trans (infix_of_mem_lines hpiece))
    obtain ⟨hfirst, hrest⟩ := List.forall_mem_cons.1 hpiece
    have hindented : ∀ l ∈ rest.map (line 1), Unclosed l.toList := by
      intro l hl
      obtain ⟨piece, hpiece, rfl⟩ := List.mem_map.1 hl
      rw [toList_line]
      exact Unclosed.append_cons (s := [' ', ' ']) (by decide) (by decide) (hrest piece hpiece)
    have hbody := unclosed_opening (hfirst.append_cons (c := '\n') (by decide) (unclosed_unlines hindented))
    have htext : (unlines (line 0 ("/** " ++ first) :: rest.map (line 1) ++ [line 0 "*/"])).toList
        = '/' :: '*' :: ('*' :: ' ' :: (first.toList ++ '\n' :: (unlines (rest.map (line 1))).toList)
          ++ ['*', '/', '\n']) := by
      rw [List.cons_append, toList_unlines_cons, unlines_append, String.toList_append, toList_unlines_cons, line_zero,
        line_zero, String.toList_append]
      simp only [List.append_assoc, List.cons_append]
      rfl
    rw [hlines, htext, tokens_comment hbody]

/-! ### Lines with remarks between them -/

/-- Whether lines are `bare` ones with these remarks written between them, as far as their tokens tell. -/
structure Annotates (remarks : List String) (lines bare : List String) : Prop where
  settled : Settled lines
  settled_bare : Settled bare
  length_le : (tokens (unlines bare).toList).length ≤ (tokens (unlines lines).toList).length
  /-- More tokens than those of the bare lines come of a remark that does not stay in its comment. -/
  contained : (tokens (unlines lines).toList).length = (tokens (unlines bare).toList).length →
    ∀ remark ∈ remarks, Contained remark
  same : (∀ remark ∈ remarks, Contained remark) → tokens (unlines lines).toList = tokens (unlines bare).toList

namespace Annotates

variable {remarks remarks' lines lines' bare bare' : List String}

theorem refl (h : Settled lines) : Annotates [] lines lines :=
  ⟨h, h, Nat.le_refl _, fun _ _ hremark => absurd hremark List.not_mem_nil, fun _ => rfl⟩

theorem comment (depth : Nat) (remark : String) : Annotates [remark] (commentLines depth remark) [] where
  settled := settled_commentLines depth remark
  settled_bare := settled_nil
  length_le := by
    rw [tokens_unlines_nil]
    exact Nat.zero_le _
  contained hlength := by
    rw [tokens_unlines_nil] at hlength
    rw [List.forall_mem_singleton, Contained, ← tokens_commentLines depth]
    exact List.eq_nil_of_length_eq_zero hlength
  same hcontained := by
    rw [tokens_commentLines, tokens_unlines_nil]
    exact hcontained remark List.mem_cons_self

theorem append (h : Annotates remarks lines bare) (h' : Annotates remarks' lines' bare') :
    Annotates (remarks ++ remarks') (lines ++ lines') (bare ++ bare') := by
  have hle := h.length_le
  have hle' := h'.length_le
  refine ⟨h.settled.append h'.settled, h.settled_bare.append h'.settled_bare, ?_, fun hlength => ?_, fun hremarks => ?_⟩
  · rw [h.settled.tokens_append, h.settled_bare.tokens_append, List.length_append, List.length_append]
    omega
  · rw [h.settled.tokens_append, h.settled_bare.tokens_append, List.length_append, List.length_append] at hlength
    rw [List.forall_mem_append]
    exact ⟨h.contained (by omega), h'.contained (by omega)⟩
  · obtain ⟨hremarks, hremarks'⟩ := List.forall_mem_append.1 hremarks
    rw [h.settled.tokens_append, h.settled_bare.tokens_append, h.same hremarks, h'.same hremarks']

theorem between {front back : List String} (h : Annotates remarks lines bare) (hfront : Settled front)
    (hback : Settled back) : Annotates remarks (front ++ lines ++ back) (front ++ bare ++ back) := by
  simpa using ((refl hfront).append h).append (refl hback)

theorem tokens_eq_iff (h : Annotates remarks lines bare) :
    tokens (unlines lines).toList = tokens (unlines bare).toList ↔ ∀ remark ∈ remarks, Contained remark :=
  ⟨fun heq => h.contained (congrArg List.length heq), h.same⟩

end Annotates

theorem settled_line (depth : Nat) {text : String} (h : Unopened text.toList) : Settled [line depth text] := by
  refine settled_of_unopened ?_
  rw [toList_line]
  induction 3 * depth with
  | zero => exact h
  | succ n ih => exact not_infix_append_cons (s := []) (by decide) (by decide) (by decide) ih

end Schema

/-! ### Declarations -/

theorem ValueType.slash_not_mem_schemaName {type : ValueType} (h : type.WellNamed) : '/' ∉ type.schemaName.toList := by
  cases type with
  | scalar kind => cases kind <;> decide
  | enum name => exact Text.slash_not_mem_of_isIdentifier h

theorem Field.unopened_declaration (field : Field) (hname : '/' ∉ field.name.toList)
    (htype : '/' ∉ field.kind.typeName.toList) : Text.Unopened field.declaration.toList := by
  have hnumber : '/' ∉ (toString field.number).toList := by
    intro hmem
    rw [Nat.toString_eq_repr, Nat.repr, String.toList_ofList] at hmem
    exact absurd (Nat.isDigit_of_mem_toDigits (by decide) (by decide) hmem) (by decide)
  apply Text.unopened_of_not_mem
  rw [declaration]
  simp only [String.toList_append, List.mem_append, not_or]
  refine ⟨⟨⟨⟨⟨⟨?_, htype⟩, by decide⟩, hname⟩, by decide⟩, hnumber⟩, by decide⟩
  cases field.label <;> decide

/-! ### Remarks that are written -/

namespace Node

mutual

/-- The remarks that the schema pass writes for a construct behind others of its scope. A struct whose type name one of
them has is a line and nothing else. -/
def written (earlier : List Node) : Node → List String
  | .skip _ => []
  | .value column _ | .inline column | .values _ _ column _ => [Schema.remark column]
  | .struct head members | .structs _ _ head members =>
      if ((structTypes earlier).find? (·.name == head.typeName)).isSome then [] else writtenAll [] members

def writtenAll (earlier : List Node) : List Node → List String
  | [] => []
  | node :: nodes => written earlier node ++ writtenAll (earlier ++ [node]) nodes

end

mutual

theorem exists_of_mem_written {remark : String} :
    ∀ {scope earlier : List Node} {node : Node}, node ∈ scope → remark ∈ node.written earlier →
      ∃ inner, IsScope scope inner ∧ ∃ node ∈ inner, ∃ field,
        node.valueColumn? = some field ∧ remark = Schema.remark field
  | _, _, .skip _, _, h => absurd h List.not_mem_nil
  | scope, _, .value field _, hnode, h | scope, _, .inline field, hnode, h | scope, _, .values _ _ field _, hnode, h =>
      ⟨scope, .self, _, hnode, field, rfl, List.mem_singleton.1 h⟩
  | _, _, .struct _ members, hnode, h | _, _, .structs _ _ _ members, hnode, h => by
      rw [written] at h
      split at h
      · cases h
      · obtain ⟨inner, hinner, hremark⟩ := exists_of_mem_writtenAll (List.Subset.refl members) h
        exact ⟨inner, (IsScope.inside .self hnode rfl).trans hinner, hremark⟩

/-- Every remark that is written is the one on a column of some scope. -/
theorem exists_of_mem_writtenAll {remark : String} :
    ∀ {scope earlier nodes : List Node}, nodes ⊆ scope → remark ∈ writtenAll earlier nodes →
      ∃ inner, IsScope scope inner ∧ ∃ node ∈ inner, ∃ field,
        node.valueColumn? = some field ∧ remark = Schema.remark field
  | _, _, [], _, h => absurd h List.not_mem_nil
  | _, _, _ :: _, hsubset, h => by
      obtain ⟨hnode, hnodes⟩ := List.cons_subset.1 hsubset
      rcases List.mem_append.1 h with h | h
      · exact exists_of_mem_written hnode h
      · exact exists_of_mem_writtenAll hnodes h

end

end Node

def Descriptor.WellNamed : Descriptor → Prop
  | .value field _ | .inline field => Text.isIdentifier field.name = true ∧ field.type.WellNamed
  | .struct head _ => Text.isIdentifier head.name = true ∧ Text.isIdentifier head.typeName = true
  | .skip .. | .count .. => True

theorem Descriptor.NameCell.isIdentifier {cell name : String} {default? : Option String}
    (h : NameCell cell name default?) : Text.isIdentifier name = true := by
  cases h <;> assumption

theorem Header.wellNamed_of_descriptor {h : Header} {column : Nat} {d : Descriptor}
    (hd : h.descriptor column = .ok d) : d.WellNamed := by
  obtain ⟨n, hsays⟩ := Descriptor.says_of_read hd
  cases hsays with
  | skip | count => trivial
  | required _ htype hname | optional _ htype hname | inline _ htype hname => exact ⟨hname.isIdentifier, htype⟩
  | struct _ _ _ htypeName hname => exact ⟨hname, htypeName⟩

namespace Schema

open Text Node

variable {h : Header}

theorem annotates_value {depth number : Nat} {column : ValueColumn} {label : Label} {earlier : List Field}
    (hname : isIdentifier column.name = true) (htype : column.type.WellNamed) :
    Annotates [remark column]
      (Field.printAll depth earlier [{ text := remark column }] [⟨number, column.name, label, .value column.type⟩])
      (Field.printAll depth earlier [{ text := remark column.bare }]
        [⟨number, column.name, label, .value column.type⟩]) := by
  have hdeclaration := Field.unopened_declaration ⟨number, column.name, label, .value column.type⟩
    (Text.slash_not_mem_of_isIdentifier hname) (ValueType.slash_not_mem_schemaName htype)
  rw [Field.printAll_singleton, Field.printAll_singleton]
  exact (Annotates.comment depth (remark column)).append (.refl (settled_line depth hdeclaration))

theorem annotates_struct {depth number : Nat} {head : StructColumn} {label : Label} {before members : List Node}
    {earlier : List Field} (hname : isIdentifier head.name = true) (htypeName : isIdentifier head.typeName = true)
    (hearlier : earlier.filterMap Field.message? = structTypes before)
    (hmembers : Annotates (writtenAll [] members) (Field.printAll (depth + 1) [] (remarks members) (fields 1 members))
      (Field.printAll (depth + 1) [] (remarks (bareAll members)) (fields 1 members))) :
    Annotates (if ((structTypes before).find? (·.name == head.typeName)).isSome then [] else writtenAll [] members)
      (Field.printAll depth earlier [{ inside := remarks members }]
        [⟨number, head.name, label, .message ⟨head.typeName, fields 1 members⟩⟩])
      (Field.printAll depth earlier [{ inside := remarks (bareAll members) }]
        [⟨number, head.name, label, .message ⟨head.typeName, fields 1 members⟩⟩]) := by
  have hplain := Text.slash_not_mem_of_isIdentifier htypeName
  have hdeclaration := Field.unopened_declaration
    ⟨number, head.name, label, .message ⟨head.typeName, fields 1 members⟩⟩
    (Text.slash_not_mem_of_isIdentifier hname) hplain
  have hopening : Unopened ("message " ++ head.typeName ++ " \x7b").toList :=
    unopened_around (unopened_of_not_mem hplain) (by decide) (by decide) (by decide)
  have hholds : Field.anyHolds earlier head.typeName
      = ((structTypes before).find? (·.name == head.typeName)).isSome := by
    rw [Field.anyHolds_eq, hearlier]
  rw [Field.printAll_singleton, Field.printAll_singleton, Field.print, Field.print, Message.print, Message.print,
    hholds]
  cases ((structTypes before).find? (·.name == head.typeName)).isSome with
  | true => exact .refl (settled_line depth hdeclaration)
  | false =>
      have hempty : Settled [""] := settled_of_unopened (by decide)
      have hclosing : Settled [line depth "\x7d"] := settled_line depth (by decide)
      have hfront := hempty.append (settled_line depth hopening)
      have hback := hclosing.append (hempty.append (settled_line depth hdeclaration))
      have hlines := hmembers.between hfront hback
      simpa using hlines

mutual

theorem annotates_print {first depth number : Nat} {before : List Node} {earlier : List Field} :
    ∀ {node : Node}, node.Stands h first → earlier.filterMap Field.message? = structTypes before →
      Annotates (node.written before)
        (Field.printAll depth earlier node.remark?.toList (node.field? number).toList)
        (Field.printAll depth earlier node.bare.remark?.toList (node.field? number).toList)
  | .skip _, _, _ => .refl settled_nil
  | .value _ _, ⟨_, hvalue⟩, _ => by
      obtain ⟨hname, htype⟩ := Header.wellNamed_of_descriptor hvalue
      exact annotates_value hname htype
  | .inline _, ⟨_, hinline⟩, _ => by
      obtain ⟨hname, htype⟩ := Header.wellNamed_of_descriptor hinline
      exact annotates_value hname htype
  | .values _ _ _ _, ⟨_, _, _, _, hvalue, _⟩, _ => by
      obtain ⟨hname, htype⟩ := Header.wellNamed_of_descriptor hvalue
      exact annotates_value hname htype
  | .struct _ _, ⟨_, hstruct, htile⟩, hearlier => by
      obtain ⟨hname, htypeName⟩ := Header.wellNamed_of_descriptor hstruct
      exact annotates_struct hname htypeName hearlier (annotates_printAll htile rfl)
  | .structs _ _ _ _, ⟨_, _, _, _, hstruct, htile, _⟩, hearlier => by
      obtain ⟨hname, htypeName⟩ := Header.wellNamed_of_descriptor hstruct
      exact annotates_struct hname htypeName hearlier (annotates_printAll htile rfl)

/-- The lines of fields are those that they have without remarks, and the remarks that are written. -/
theorem annotates_printAll {first last depth number : Nat} {before : List Node} {earlier : List Field} :
    ∀ {nodes : List Node}, Tile h first last nodes → earlier.filterMap Field.message? = structTypes before →
      Annotates (writtenAll before nodes) (Field.printAll depth earlier (remarks nodes) (fields number nodes))
        (Field.printAll depth earlier (remarks (bareAll nodes)) (fields number nodes))
  | [], _, _ => .refl settled_nil
  | node :: nodes, ⟨hnode, htile⟩, hearlier => by
      have hearlier₁ : (earlier ++ (node.field? number).toList).filterMap Field.message?
          = structTypes (before ++ [node]) := by
        rw [List.filterMap_append, hearlier, message?_of_field?, structTypes_append, structTypes_singleton]
      have hlength : node.bare.remark?.toList.length = (node.field? number).toList.length := by
        rw [node.bare.length_remark? number, field?_bare]
      rw [bareAll, remarks, remarks, fields, Field.printAll_append (node.length_remark? number),
        Field.printAll_append hlength]
      exact (annotates_print hnode hearlier).append (annotates_printAll htile hearlier₁)

end

theorem settled_preamble {options : SchemaOptions} (hpackage : Unopened options.package.toList)
    (himport : Unopened options.enumImport.toList) (fileName : String) (usesEnums : Bool) :
    Settled (preamble options fileName usesEnums) := by
  have hcomment : Settled ("/**" :: ["* @file:   " ++ fileName,
      "* @brief:  generated by sheetproto from the workbook sheet, do not edit"] ++ ["*/"]) :=
    settled_of_mark ⟨[], nofun, rfl⟩
  have hempty : Settled [""] := settled_of_unopened (by decide)
  have hproto : Settled ["syntax = \"proto3\";"] := settled_of_unopened (unopened_of_not_mem (by decide))
  have hpackage : Settled ["package " ++ options.package ++ ";"] :=
    settled_of_unopened (unopened_around hpackage (by decide) (by decide) (by decide))
  have himport : Settled (if usesEnums then ["import \"" ++ options.enumImport ++ "\";"] else []) := by
    cases usesEnums with
    | false => exact settled_nil
    | true => exact settled_of_unopened (unopened_around himport (by decide) (by decide) (by decide))
  have hfront := hcomment.append (hempty.append (hproto.append hpackage))
  have hlines := (hfront.append himport).append hempty
  simpa only [preamble, List.cons_append, List.nil_append, List.append_assoc] using hlines

theorem settled_arrayBlock {record : String} (hrecord : Unopened record.toList) : Settled (arrayBlock record) := by
  have hopening : Settled ["message " ++ record ++ "_array \x7b"] :=
    settled_of_unopened (unopened_around hrecord (by decide) (by decide) (by decide))
  have hitems : Settled ["   repeated " ++ record ++ " items = 1;"] :=
    settled_of_unopened (unopened_around hrecord (by decide) (by decide) (by decide))
  have hclosing : Settled ["\x7d"] := settled_of_unopened (by decide)
  rw [arrayBlock_eq]
  exact hopening.append (hitems.append hclosing)

theorem text_of_ofHeader {l : Layout} {record : String} {options : SchemaOptions} {schema : Schema}
    (hlayout : Layout.ofHeader h = .ok l) (hschema : ofHeader h record options = .ok schema) :
    schema.text = unlines (preamble options (fileNameOf record options.extension) l.usesEnums
      ++ block 0 record (Field.printAll 1 [] (remarks l.nodes) (fields 1 l.nodes)) ++ [""] ++ arrayBlock record) := by
  rw [ofHeader_eq hlayout] at hschema
  cases hdeclare : declareAll 1 {} l.nodes with
  | error e =>
      rw [hdeclare] at hschema
      cases hschema
  | ok r =>
      have hlines : r.1.lines = Field.printAll 1 [] (remarks l.nodes) (fields 1 l.nodes) :=
        lines_declareAll (Layout.tile_of_ofHeader hlayout).2 (Draft.walked_nil rfl) rfl hdeclare
      rw [hdeclare] at hschema
      cases hschema
      rw [hlines]

theorem unclosed_remark {field : ValueColumn} (hcomment : Unclosed field.comment.toList)
    (hdefault : ∀ default ∈ field.default?, Unclosed default.toList) : Unclosed (remark field).toList := by
  have htrimmed : Unclosed (trim field.comment).toList := by
    rw [trim, String.toList_ofList]
    exact Unclosed.mono hcomment (infix_trimChars _)
  rw [remark]
  cases hfield : field.default? with
  | none => exact htrimmed
  | some default =>
      have hdefault : Unclosed default.toList := hdefault default hfield
      simp only
      split
      · rw [String.toList_append]
        exact not_infix_append (unclosed_of_not_mem (by decide)) hdefault (.inl (by decide))
      · have hback := not_infix_append hdefault (unclosed_of_not_mem (s := ")".toList) (by decide)) (.inr (by decide))
        have hbehind := not_infix_append (unclosed_of_not_mem (s := " (default: ".toList) (by decide)) hback
          (.inl (by decide))
        simp only [String.toList_append, List.append_assoc]
        exact not_infix_append htrimmed hbehind (.inr (by simp))

variable {l : Layout} {record : String} {options : SchemaOptions} {schema bare : Schema}

theorem tokens_eq_iff_written (hlayout : Layout.ofHeader h = .ok l) (hschema : ofHeader h record options = .ok schema)
    (hbare : ofHeader h.bare record options = .ok bare)
    (hnames : ∀ name ∈ [record, options.package, options.enumImport], Unopened name.toList) :
    tokens schema.text.toList = tokens bare.text.toList ↔ ∀ remark ∈ writtenAll [] l.nodes, Contained remark := by
  obtain ⟨hrecord, hpackage, himport⟩ : Unopened record.toList ∧ Unopened options.package.toList
      ∧ Unopened options.enumImport.toList := by simpa using hnames
  have huses : l.bare.usesEnums = l.usesEnums := by
    rw [Layout.usesEnums, Layout.usesEnums, Layout.enums, Layout.enums, Layout.bare, enumsOf_bareAll]
  have hopening : Settled [line 0 ("message " ++ record ++ " \x7b")] :=
    settled_line 0 (unopened_around hrecord (by decide) (by decide) (by decide))
  have hclosing : Settled [line 0 "\x7d"] := settled_line 0 (by decide)
  have hempty : Settled [""] := settled_of_unopened (by decide)
  have hfront := (settled_preamble hpackage himport (fileNameOf record options.extension) l.usesEnums).append hopening
  have hback := hclosing.append (hempty.append (settled_arrayBlock hrecord))
  have hfields : Annotates (writtenAll [] l.nodes) (Field.printAll 1 [] (remarks l.nodes) (fields 1 l.nodes))
      (Field.printAll 1 [] (remarks (bareAll l.nodes)) (fields 1 l.nodes)) :=
    annotates_printAll (Layout.tile_of_ofHeader hlayout).2 rfl
  have hlines := (hfields.between hfront hback).tokens_eq_iff
  rw [text_of_ofHeader hlayout hschema, text_of_ofHeader (Layout.ofHeader_bare hlayout) hbare, huses, Layout.bare,
    fields_bareAll, block, block]
  simpa only [List.append_assoc, List.cons_append, List.nil_append] using hlines

/-- The header without remarks has a schema, with the same message type. The sources have the same tokens exactly if
every remark that is written stays in its comment, and they do if nothing in a comment cell or a default closes one. -/
theorem tokens_eq_iff_contained (hschema : ofHeader h record options = .ok schema)
    (hnames : ∀ name ∈ [record, options.package, options.enumImport], Unopened name.toList) :
    ∃ l bare, Layout.ofHeader h = .ok l ∧ ofHeader h.bare record options = .ok bare ∧ bare.type = schema.type
      ∧ (tokens schema.text.toList = tokens bare.text.toList ↔ ∀ remark ∈ writtenAll [] l.nodes, Contained remark)
      ∧ ((∀ column d field, h.descriptor column = .ok d → d.field? = some field →
            Unclosed field.comment.toList ∧ ∀ default ∈ field.default?, Unclosed default.toList) →
          tokens schema.text.toList = tokens bare.text.toList) := by
  obtain ⟨l, hlayout⟩ := layout_of_ofHeader hschema
  obtain ⟨bare, hbare⟩ := exists_ofHeader_bare hlayout hschema
  obtain ⟨-, htile⟩ := Layout.tile_of_ofHeader hlayout
  have htype : bare.type = schema.type := by
    rw [type_of_ofHeader (Layout.ofHeader_bare hlayout) hbare, type_of_ofHeader hlayout hschema, Layout.type,
      Layout.type, Layout.bare, fields_bareAll]
  have hiff := tokens_eq_iff_written hlayout hschema hbare hnames
  refine ⟨l, bare, hlayout, hbare, htype, hiff, fun hunclosed => hiff.2 fun remark hremark => ?_⟩
  obtain ⟨scope, hscope, node, hnode, field, hfield, rfl⟩ :=
    exists_of_mem_writtenAll (List.Subset.refl l.nodes) hremark
  obtain ⟨first, last, hscope⟩ := hscope.tile htile
  obtain ⟨d, hd, hfield⟩ := (hscope.stands node hnode).2.descriptor_of_valueColumn? hfield
  obtain ⟨hcomment, hdefault⟩ := hunclosed _ d field hd hfield
  exact contained_of_unclosed (unclosed_remark hcomment hdefault)

end Schema

/-- The source of the contacts has the tokens that it has without its comments and the default. Nothing is written of
what is remarked on the second address, whose type is that of the first. -/
theorem contacts_keep_their_remarks :
    ∃ l schema bare, Layout.ofHeader contacts = .ok l ∧ Schema.ofHeader contacts "Contact" {} = .ok schema
      ∧ Schema.ofHeader contacts.bare "Contact" {} = .ok bare
      ∧ Node.writtenAll [] l.nodes = ["number", "how to\naddress them (default: none)", "", "", "", ""]
      ∧ Text.tokens schema.text.toList = Text.tokens bare.text.toList := by
  have hschema : Succeeds (Schema.ofHeader contacts "Contact" {}) := by decide +kernel
  have hwritten : (Layout.ofHeader contacts).toOption.map (fun l => Node.writtenAll [] l.nodes)
      = some ["number", "how to\naddress them (default: none)", "", "", "", ""] := by decide +kernel
  have hnames : ∀ name ∈ ["Contact", ({} : SchemaOptions).package, ({} : SchemaOptions).enumImport],
      Text.Unopened name.toList := by decide +kernel
  obtain ⟨schema, hschema⟩ := hschema
  obtain ⟨l, hlayout, hwritten⟩ := map_toOption_eq_some.1 hwritten
  obtain ⟨l', bare, hlayout', hbare, -, hiff, -⟩ := Schema.tokens_eq_iff_contained hschema hnames
  cases hlayout.symm.trans hlayout'
  refine ⟨l, schema, bare, hlayout, hschema, hbare, hwritten, hiff.2 fun remark hremark => ?_⟩
  rw [hwritten] at hremark
  have hunclosed : ∀ remark ∈ ["number", "how to\naddress them (default: none)", "", "", "", ""],
      Text.Unclosed remark.toList := by decide +kernel
  exact Schema.contained_of_unclosed (hunclosed remark hremark)

/-- A comment that closes, goes on as the declaration of a field, and opens another comment. -/
def closingRemark : Header := ⟨[⟨"x */ int32 evil = 9; /* y", "int32", "id"⟩]⟩

/-- What stands behind the mark that closes the comment is a field of the schema. -/
theorem closingRemark_adds_field :
    ∃ schema bare, Schema.ofHeader closingRemark "Item" {} = .ok schema
      ∧ Schema.ofHeader closingRemark.bare "Item" {} = .ok bare
      ∧ Text.tokens (Text.unlines (Schema.commentLines 0 "x */ int32 evil = 9; /* y")).toList
        = ["int32".toList, "evil".toList, "=".toList, "9;".toList]
      ∧ Text.tokens schema.text.toList ≠ Text.tokens bare.text.toList := by
  have hschema : Succeeds (Schema.ofHeader closingRemark "Item" {}) := by decide +kernel
  have hbare : Succeeds (Schema.ofHeader closingRemark.bare "Item" {}) := by decide +kernel
  have hwritten : (Layout.ofHeader closingRemark).toOption.map (fun l => Node.writtenAll [] l.nodes)
      = some ["x */ int32 evil = 9; /* y"] := by decide +kernel
  have hnames : ∀ name ∈ ["Item", ({} : SchemaOptions).package, ({} : SchemaOptions).enumImport],
      Text.Unopened name.toList := by decide +kernel
  have htokens : Text.tokens (Text.unlines (Schema.commentLines 0 "x */ int32 evil = 9; /* y")).toList
      = ["int32".toList, "evil".toList, "=".toList, "9;".toList] := by
    have hlines : (Text.unlines (Schema.commentLines 0 "x */ int32 evil = 9; /* y")).toList
        = '/' :: '*' :: ("* x */ int32 evil = 9; /* y */\n".toList) := by decide +kernel
    have hfirst : EnumTable.Source.closeComment "* x */ int32 evil = 9; /* y */\n".toList
        = some (" int32 evil = 9; ".toList ++ '/' :: '*' :: " y */\n".toList) := by decide
    have hsecond : EnumTable.Source.closeComment " y */\n".toList = some ['\n'] := by decide
    rw [hlines, Text.tokens, Text.dropBlockComments_of_closed hfirst, Text.dropBlockComments_append (by decide),
      Text.dropBlockComments_of_closed hsecond, Text.dropBlockComments_blank (by decide),
      EnumTable.Source.dropBlockComments]
    decide +kernel
  obtain ⟨schema, hschema⟩ := hschema
  obtain ⟨bare, hbare⟩ := hbare
  obtain ⟨l, hlayout, hwritten⟩ := map_toOption_eq_some.1 hwritten
  refine ⟨schema, bare, hschema, hbare, htokens, ?_⟩
  rw [Ne, Schema.tokens_eq_iff_written hlayout hschema hbare hnames, hwritten, List.forall_mem_singleton,
    Schema.Contained, htokens]
  exact List.cons_ne_nil _ _

end SheetCompiler

import SheetCompiler.Proofs.Header.Grammar
import SheetCompiler.Proofs.Number.Written
import SheetCompiler.Proofs.Record.Text
import SheetCompiler.Proofs.Text.Escape
import SheetCompiler.Proofs.Text.Words

/-!
# The text of a record, line by line

A record has an outline: where a message opens and closes, the strings and the byte strings, and the other values with
the words that they are written with. Its text is one line to each part of the outline.

A reader takes one line at a time, and knows neither the record nor its type. If the names of the fields are
identifiers it finds in every line the part that is written there, so a string or a byte string stays between its quotes
and on its line, whatever its characters are.
-/

namespace SheetCompiler

/-! ### What lines say -/

/-- What a line of the text format says. -/
inductive Said where
  | opens (field : String)
  | closes
  | literal (field : String) (bytes : Bytes)
  | word (field : String) (text : String)
  deriving DecidableEq, Repr

namespace Said

/-- What the text behind the name of a field says. A literal has to end with the line. -/
def behind? (field : String) : List Char → Option Said
  | [' ', '\x7b'] => some (.opens field)
  | ':' :: ' ' :: '"' :: inside =>
      match Text.Escape.read? inside with
      | some (bytes, ['"']) => some (.literal field bytes)
      | _ => none
  | ':' :: ' ' :: text => some (.word field (String.ofList text))
  | _ => none

/-- What a line says, without the blanks in front of it. -/
def read? (text : List Char) : Option Said :=
  if text = ['\x7d'] then some .closes
  else
    let field := String.ofList (text.takeWhile Text.continuesIdentifier)
    if Text.isIdentifier field then behind? field (text.dropWhile Text.continuesIdentifier) else none

/-- The depth of a line, and what it says. -/
def readLine? (line : List Char) : Option (Nat × Said) :=
  (read? (line.dropWhile (· == ' '))).map ((line.takeWhile (· == ' ')).length / 2, ·)

end Said

/-- What a record has a line for. -/
inductive Part where
  | opens (field : String)
  | closes
  | string (field : String) (value : String)
  | bytes (field : String) (value : Bytes)
  | word (field : String) (text : String)

namespace Part

/-- The line without the blanks in front of it. -/
def text : Part → String
  | opens field => field ++ " \x7b"
  | closes => "\x7d"
  | string field value => field ++ ": " ++ ("\"" ++ String.ofList (Text.Escape.string value.toList) ++ "\"")
  | bytes field value => field ++ ": " ++ ("\"" ++ String.ofList (Text.Escape.bytes value) ++ "\"")
  | word field text => field ++ ": " ++ text

/-- What the line has to say. -/
def said : Part → Said
  | opens field => .opens field
  | closes => .closes
  | string field value => .literal field (Text.Utf8.encode value)
  | bytes field value => .literal field value
  | word field text => .word field text

/-- Whether the name of the field is an identifier. -/
def Named : Part → Prop
  | closes => True
  | opens field | string field _ | bytes field _ | word field _ => Text.isIdentifier field = true

/-- Whether a text is neither broken into lines nor taken for a literal. -/
def Plain (text : String) : Prop := ∀ c ∈ text.toList, c ≠ '\n' ∧ c ≠ '"'

instance (text : String) : Decidable (Plain text) :=
  decidable_of_iff (text.toList.all fun c => c != '\n' && c != '"') (by simp [Plain])

/-- Whether the part is no word, or a plain one. -/
def Contained : Part → Prop
  | word _ text => Plain text
  | opens _ | closes | string .. | bytes .. => True

end Part

/-! ### Outlines -/

mutual

/-- The outline of a record of a type, with the depth of each part. -/
def Record.outline (type : Message) (enums : EnumTable) (depth : Nat) : Record → List (Nat × Part)
  | ⟨entries⟩ => Content.outlineAll type enums depth entries

def Content.outlineAll (type : Message) (enums : EnumTable) (depth : Nat) : List (Nat × Content) → List (Nat × Part)
  | [] => []
  | (number, content) :: rest =>
      match type.field? number with
      | none => []
      | some field =>
          (if TextFormat.omits field content then [] else Content.outline field enums depth content)
            ++ Content.outlineAll type enums depth rest

def Content.outline (field : Field) (enums : EnumTable) (depth : Nat) : Content → List (Nat × Part)
  | .single v => Value.outline field enums depth v
  | .list vs => Value.outlineAll field enums depth vs

/-- The outline of a value: one part, or those of a message between two others. -/
def Value.outline (field : Field) (enums : EnumTable) (depth : Nat) : Value → List (Nat × Part)
  | .message r =>
      match field.kind with
      | .message nested =>
          (depth, .opens field.name) :: Record.outline nested enums (depth + 1) r ++ [(depth, .closes)]
      | kind => [(depth, .word field.name (TextFormat.value kind enums (.message r)))]
  | .string v => [(depth, .string field.name v)]
  | .bytes v => [(depth, .bytes field.name v)]
  | v => [(depth, .word field.name (TextFormat.value field.kind enums v))]

def Value.outlineAll (field : Field) (enums : EnumTable) (depth : Nat) : List Value → List (Nat × Part)
  | [] => []
  | v :: vs => Value.outline field enums depth v ++ Value.outlineAll field enums depth vs

end

namespace Part

def line (part : Nat × Part) : String := TextFormat.line part.1 part.2.text

end Part

variable {enums : EnumTable}

mutual

theorem Value.lines_eq_outline {field : Field} : ∀ (depth : Nat) {v : Value}, v.Conforms field.kind →
    v.lines field enums depth = .ok ((v.outline field enums depth).map Part.line)
  | depth, .message r, h => by
      cases hkind : field.kind with
      | value t =>
          rw [hkind, Value.conforms_value] at h
          exact absurd h (Value.not_fits_message t r)
      | message nested =>
          rw [hkind] at h
          have hinner : r.lines nested enums (depth + 1) = .ok ((r.outline nested enums (depth + 1)).map Part.line) :=
            Record.lines_eq_outline (depth + 1) h
          simp only [Value.lines, Value.outline, hkind, hinner, List.map_append, List.map_cons]
          rfl
  | _, .int _, _ | _, .uint _, _ | _, .float _, _ | _, .bool _, _ | _, .string _, _ | _, .bytes _, _
  | _, .enum _, _ => rfl

theorem Value.linesAll_eq_outline {field : Field} : ∀ (depth : Nat) {vs : List Value},
    Value.ConformAll field.kind vs →
      Value.linesAll field enums depth vs = .ok ((Value.outlineAll field enums depth vs).map Part.line)
  | _, [], _ => rfl
  | depth, v :: vs, ⟨hv, hvs⟩ => by
      rw [Value.linesAll, Value.lines_eq_outline depth hv, Value.linesAll_eq_outline depth hvs, Value.outlineAll,
        List.map_append]
      rfl

theorem Content.lines_eq_outline {field : Field} : ∀ (depth : Nat) {content : Content}, content.Conforms field →
    content.lines field enums depth = .ok ((content.outline field enums depth).map Part.line)
  | depth, .single _, ⟨_, h⟩ => Value.lines_eq_outline depth h
  | depth, .list _, ⟨_, h⟩ => Value.linesAll_eq_outline depth h

theorem Content.linesAll_eq_outline {type : Message} : ∀ (depth : Nat) {entries : List (Nat × Content)},
    Content.ConformAll type entries →
      Content.linesAll type enums depth entries = .ok ((Content.outlineAll type enums depth entries).map Part.line)
  | _, [], _ => rfl
  | depth, (number, content) :: entries, ⟨⟨field, hfield, hcontent⟩, hentries⟩ => by
      rw [Content.linesAll_cons hfield, Content.lines_eq_outline depth hcontent,
        Content.linesAll_eq_outline depth hentries]
      simp only [Content.outlineAll, hfield, List.map_append]
      split <;> rfl

/-- The lines of a record are those of its outline. -/
theorem Record.lines_eq_outline {type : Message} : ∀ (depth : Nat) {r : Record}, r.Conforms type →
    r.lines type enums depth = .ok ((r.outline type enums depth).map Part.line)
  | depth, ⟨_⟩, h => Content.linesAll_eq_outline depth h

end

/-! ### Reading the lines -/

namespace Said

/-- The name of a field is found in front of anything that does not go on with it. -/
theorem read?_field {field : String} (hfield : Text.isIdentifier field = true) {mark : Char}
    (hmark : Text.continuesIdentifier mark = false) (text : List Char) :
    read? (field.toList ++ mark :: text) = behind? field (mark :: text) := by
  have hbehind : ∀ c ∈ (mark :: text).head?, Text.continuesIdentifier c = false := by
    intro c hc
    cases hc
    exact hmark
  have hname : ∀ c ∈ field.toList, Text.continuesIdentifier c = true := fun _ => Text.continuesIdentifier_of_mem hfield
  obtain ⟨htake, hdrop⟩ := Text.takeWhile_dropWhile_append hname hbehind
  obtain ⟨first, rest, hfirst, hstarts⟩ := Text.exists_head_of_isIdentifier hfield
  have hbrace : field.toList ++ mark :: text ≠ ['\x7d'] := by
    intro h
    rw [hfirst] at h
    rw [(List.cons.inj h).1] at hstarts
    exact absurd hstarts (by decide)
  simp only [read?, if_neg hbrace, htake, hdrop, String.ofList_toList, hfield, if_true]

/-- A line is read without its blanks, and its depth is half their number. -/
theorem readLine?_line (depth : Nat) {text : String} (h : ∀ c ∈ text.toList.head?, c ≠ ' ') :
    readLine? (TextFormat.line depth text).toList = (read? text.toList).map (depth, ·) := by
  have hblanks : ∀ c ∈ List.replicate (2 * depth) ' ', (c == ' ') = true := by
    intro c hc
    rw [List.eq_of_mem_replicate hc]
    rfl
  obtain ⟨htake, hdrop⟩ := Text.takeWhile_dropWhile_append hblanks fun c hc => beq_eq_false_iff_ne.2 (h c hc)
  rw [readLine?, TextFormat.line, String.toList_append, String.toList_ofList, htake, hdrop, List.length_replicate,
    Nat.mul_div_cancel_left depth (by decide)]

theorem behind?_literal (field : String) {inside : List Char} {bytes : Bytes} (h : Text.Escape.Denotes inside bytes) :
    behind? field (':' :: ' ' :: '"' :: (inside ++ ['"'])) = some (.literal field bytes) := by
  simp only [behind?, h.read?_quote]

theorem behind?_word (field : String) {text : List Char} (h : ∀ c ∈ text.head?, c ≠ '"') :
    behind? field (':' :: ' ' :: text) = some (.word field (String.ofList text)) := by
  cases text with
  | nil => rfl
  | cons c text =>
      have hquote : c ≠ '"' := h c rfl
      rw [behind?]
      simp [hquote]

end Said

namespace Part

variable {part : Nat × Part}

theorem head_text {p : Part} (h : p.Named) : ∀ c ∈ p.text.toList.head?, c ≠ ' ' := by
  have hfield {field : String} (hfield : Text.isIdentifier field = true) (behind : String) :
      ∀ c ∈ (field ++ behind).toList.head?, c ≠ ' ' := by
    obtain ⟨first, rest, hfirst, hstarts⟩ := Text.exists_head_of_isIdentifier hfield
    rintro c hc rfl
    rw [String.toList_append, hfirst] at hc
    cases hc
    exact absurd hstarts (by decide)
  cases p with
  | closes =>
      intro c hc
      cases hc
      decide
  | opens field => exact hfield h _
  | string field value | bytes field value | word field written =>
      rw [text, String.append_assoc]
      exact hfield h _

/-- Of a part whose field is named by an identifier, the reader finds what it has to say. -/
theorem read?_text {p : Part} (hnamed : p.Named) (hcontained : p.Contained) : Said.read? p.text.toList = some p.said := by
  have hcolon : Text.continuesIdentifier ':' = false := by decide
  cases p with
  | closes => rfl
  | opens field =>
      rw [text, String.toList_append]
      exact Said.read?_field hnamed (by decide) _
  | string field value =>
      have hread := Said.read?_field hnamed hcolon (' ' :: '"' :: (Text.Escape.string value.toList ++ ['"']))
      rw [Said.behind?_literal field (Text.Escape.denotes_string value)] at hread
      simpa [text, said] using hread
  | bytes field value =>
      have hread := Said.read?_field hnamed hcolon (' ' :: '"' :: (Text.Escape.bytes value ++ ['"']))
      rw [Said.behind?_literal field (Text.Escape.denotes_bytes value)] at hread
      simpa [text, said] using hread
  | word field written =>
      have hread := Said.read?_field hnamed hcolon (' ' :: written.toList)
      have hquote : ∀ c ∈ written.toList.head?, c ≠ '"' :=
        fun c hc => (hcontained c (List.mem_of_mem_head? hc)).2
      rw [Said.behind?_word field hquote, String.ofList_toList] at hread
      simpa [text, said] using hread

theorem newline_not_mem_text {p : Part} (hnamed : p.Named) (hcontained : p.Contained) : '\n' ∉ p.text.toList := by
  have hfield {field : String} (hfield : Text.isIdentifier field = true) : '\n' ∉ field.toList :=
    fun hmem => absurd (Text.continuesIdentifier_of_mem hfield hmem) (by decide)
  have hinside {inside : List Char} {bytes : Bytes} (h : Text.Escape.StandsFor inside bytes) : '\n' ∉ inside :=
    fun hmem => absurd (h.printable _ hmem).1 (by decide)
  cases p with
  | closes => decide
  | opens field => simpa [text] using hfield hnamed
  | string field value => simpa [text] using ⟨hfield hnamed, hinside (Text.Escape.string_standsFor value)⟩
  | bytes field value => simpa [text] using ⟨hfield hnamed, hinside (Text.Escape.bytes_standsFor value)⟩
  | word field written => simpa [text] using ⟨hfield hnamed, fun hmem => (hcontained _ hmem).1 rfl⟩

theorem readLine?_line (hnamed : part.2.Named) (hcontained : part.2.Contained) :
    Said.readLine? (line part).toList = some (part.1, part.2.said) := by
  rw [line, Said.readLine?_line part.1 (head_text hnamed), read?_text hnamed hcontained]
  rfl

theorem newline_not_mem_line (hnamed : part.2.Named) (hcontained : part.2.Contained) :
    '\n' ∉ (line part).toList := by
  rw [line, TextFormat.line, String.toList_append, String.toList_ofList, List.mem_append, not_or]
  exact ⟨fun hmem => absurd (List.eq_of_mem_replicate hmem) (by decide), newline_not_mem_text hnamed hcontained⟩

end Part

/-! ### Parts of well-named types -/

mutual

def FieldKind.WellNamed : FieldKind → Prop
  | .value _ => True
  | .message type => Message.WellNamed type

def Field.WellNamed : Field → Prop
  | ⟨_, name, _, kind⟩ => Text.isIdentifier name = true ∧ FieldKind.WellNamed kind

def Field.WellNamedAll : List Field → Prop
  | [] => True
  | field :: fields => Field.WellNamed field ∧ Field.WellNamedAll fields

/-- Whether the names of the fields of a type are identifiers, at every depth. -/
def Message.WellNamed : Message → Prop
  | ⟨_, fields⟩ => Field.WellNamedAll fields

end

theorem Field.wellNamedAll_iff {fields : List Field} : WellNamedAll fields ↔ ∀ f ∈ fields, f.WellNamed := by
  induction fields with
  | nil => exact ⟨fun _ _ hf => absurd hf List.not_mem_nil, fun _ => trivial⟩
  | cons f fields ih => rw [WellNamedAll, List.forall_mem_cons, ih]

theorem Message.WellNamed.field {type : Message} (h : type.WellNamed) {number : Nat} {field : Field}
    (hfield : type.field? number = some field) : Text.isIdentifier field.name = true ∧ field.kind.WellNamed := by
  cases type with
  | mk name fields =>
      have hnamed := Field.wellNamedAll_iff.1 h field (List.mem_of_find?_eq_some hfield)
      cases field with
      | mk _ _ _ kind => exact hnamed

/-- Whether the names of the members of a table are plain. -/
def EnumTable.NamesPlain (enums : EnumTable) : Prop :=
  ∀ name number member, enums.member? name number = some member → Part.Plain member

namespace TextFormat

theorem plain_of_inAlphabet {text : String} (h : Numeral.InAlphabet text.toList) : Part.Plain text := by
  intro c hc
  constructor <;> rintro rfl <;> exact absurd (h _ hc) (by decide)

theorem plain_float (f : BinaryFormat) (negative : Bool) (magnitude : Nat) :
    Part.Plain (number.write f negative magnitude) :=
  plain_of_inAlphabet (number.inAlphabet_write (by decide) f negative magnitude)

theorem plain_int (n : Int) : Part.Plain (toString n) := plain_of_inAlphabet (Numeral.inAlphabet_toString_int n)

/-- What is written without quotes is plain. -/
theorem plain_value (hplain : enums.NamesPlain) (kind : FieldKind) : ∀ v : Value,
    v.string? = none → v.bytes? = none → Part.Plain (value kind enums v)
  | .int v, _, _ => plain_int v.toInt
  | .uint v, _, _ => plain_of_inAlphabet (Numeral.inAlphabet_toString_nat v.toNat)
  | .float v, _, _ => by
      simp only [value]
      split
      · exact plain_float _ _ _
      · exact plain_float _ _ _
  | .bool v, _, _ => by
      simp only [value]
      cases v <;> exact plain_of_inAlphabet (by decide)
  | .enum v, _, _ => by
      simp only [value]
      split
      · next name =>
        cases hmember : enums.member? name v with
        | none => exact plain_int v.toInt
        | some member => exact hplain name v member hmember
      · exact plain_int v.toInt
  | .message _, _, _ => (by decide : Part.Plain "\x7b \x7d")

end TextFormat

mutual

theorem Value.outline_spec {field : Field} (hfield : Text.isIdentifier field.name = true) (hkind : field.kind.WellNamed) :
    ∀ (depth : Nat) (v : Value), ∀ part ∈ v.outline field enums depth,
      part.2.Named ∧ (enums.NamesPlain → part.2.Contained)
  | depth, .message r, part, hpart => by
      cases hmessage : field.kind with
      | value t =>
          simp only [Value.outline, hmessage, List.mem_singleton] at hpart
          subst hpart
          exact ⟨hfield, fun hplain => TextFormat.plain_value hplain _ (.message r) rfl rfl⟩
      | message nested =>
          rw [hmessage] at hkind
          simp only [Value.outline, hmessage, List.cons_append, List.mem_cons, List.mem_append, List.not_mem_nil,
            or_false] at hpart
          rcases hpart with rfl | hinner | rfl
          · exact ⟨hfield, fun _ => trivial⟩
          · exact Record.outline_spec hkind (depth + 1) r part hinner
          · exact ⟨trivial, fun _ => trivial⟩
  | _, .string _, _, hpart | _, .bytes _, _, hpart => by
      cases List.mem_singleton.1 hpart
      exact ⟨hfield, fun _ => trivial⟩
  | _, .int _, _, hpart | _, .uint _, _, hpart | _, .float _, _, hpart | _, .bool _, _, hpart
  | _, .enum _, _, hpart => by
      cases List.mem_singleton.1 hpart
      exact ⟨hfield, fun hplain => TextFormat.plain_value hplain field.kind _ rfl rfl⟩

theorem Value.outlineAll_spec {field : Field} (hfield : Text.isIdentifier field.name = true)
    (hkind : field.kind.WellNamed) : ∀ (depth : Nat) (vs : List Value), ∀ part ∈ Value.outlineAll field enums depth vs,
      part.2.Named ∧ (enums.NamesPlain → part.2.Contained)
  | _, [], _, hpart => absurd hpart List.not_mem_nil
  | depth, v :: vs, part, hpart => by
      rw [Value.outlineAll] at hpart
      rcases List.mem_append.1 hpart with hpart | hpart
      · exact Value.outline_spec hfield hkind depth v part hpart
      · exact Value.outlineAll_spec hfield hkind depth vs part hpart

theorem Content.outline_spec {field : Field} (hfield : Text.isIdentifier field.name = true)
    (hkind : field.kind.WellNamed) : ∀ (depth : Nat) (content : Content), ∀ part ∈ content.outline field enums depth,
      part.2.Named ∧ (enums.NamesPlain → part.2.Contained)
  | depth, .single v => Value.outline_spec hfield hkind depth v
  | depth, .list vs => Value.outlineAll_spec hfield hkind depth vs

theorem Content.outlineAll_spec {type : Message} (htype : type.WellNamed) :
    ∀ (depth : Nat) (entries : List (Nat × Content)), ∀ part ∈ Content.outlineAll type enums depth entries,
      part.2.Named ∧ (enums.NamesPlain → part.2.Contained)
  | _, [], _, hpart => absurd hpart List.not_mem_nil
  | depth, (number, content) :: entries, part, hpart => by
      cases hfield : type.field? number with
      | none =>
          simp only [Content.outlineAll, hfield] at hpart
          cases hpart
      | some field =>
          simp only [Content.outlineAll, hfield] at hpart
          rcases List.mem_append.1 hpart with hpart | hpart
          · split at hpart
            · cases hpart
            · exact Content.outline_spec (htype.field hfield).1 (htype.field hfield).2 depth content part hpart
          · exact Content.outlineAll_spec htype depth entries part hpart

/-- The parts of a record are named by identifiers, and its words are plain if the names of members are. -/
theorem Record.outline_spec {type : Message} (htype : type.WellNamed) : ∀ (depth : Nat) (r : Record),
    ∀ part ∈ r.outline type enums depth, part.2.Named ∧ (enums.NamesPlain → part.2.Contained)
  | depth, ⟨entries⟩ => Content.outlineAll_spec htype depth entries

end

/-- Escaped strings and byte strings stand for what they are, the latter in printable ASCII. The text of a record is one
line to each part of its outline, and in every line whose word is plain, that of a string or a byte string among them, a
reader finds that part. If the names of members are plain, the lines of the text are these lines, and what the reader
finds is the outline. -/
theorem Record.toText_eq_outline {type : Message} {r : Record} (htype : type.WellNamed) (hr : r.Conforms type) :
    (∀ s : String, Text.Escape.StandsFor (Text.Escape.string s.toList) (Text.Utf8.encode s))
      ∧ (∀ bs : Bytes, Text.Escape.StandsFor (Text.Escape.bytes bs) bs
          ∧ ∀ c ∈ Text.Escape.bytes bs, 0x20 ≤ c.toNat ∧ c.toNat ≤ 0x7E)
      ∧ ∃ text, r.toText type enums = .ok text
        ∧ text = Text.unlines ((r.outline type enums 0).map Part.line)
        ∧ (∀ part ∈ r.outline type enums 0, part.2.Contained → '\n' ∉ (Part.line part).toList
            ∧ Said.readLine? (Part.line part).toList = some (part.1, part.2.said))
        ∧ (enums.NamesPlain → (Text.lines text.toList).map Said.readLine?
            = (r.outline type enums 0).map fun part => some (part.1, part.2.said)) := by
  refine ⟨Text.Escape.string_standsFor, fun bs => ⟨Text.Escape.bytes_standsFor bs, fun c => Text.Escape.mem_bytes⟩,
    _, ?_, rfl, ?_, ?_⟩
  · rw [Record.toText, Record.lines_eq_outline 0 hr]
    rfl
  · intro part hpart hcontained
    have hnamed := (Record.outline_spec htype 0 r part hpart).1
    exact ⟨Part.newline_not_mem_line hnamed hcontained, Part.readLine?_line hnamed hcontained⟩
  · intro hplain
    have hunbroken : ∀ line ∈ (r.outline type enums 0).map Part.line, '\n' ∉ line.toList := by
      intro line hline
      obtain ⟨part, hpart, rfl⟩ := List.mem_map.1 hline
      obtain ⟨hnamed, hcontained⟩ := Record.outline_spec htype 0 r part hpart
      exact Part.newline_not_mem_line hnamed (hcontained hplain)
    rw [Text.lines_unlines hunbroken, List.map_map, List.map_map]
    apply List.map_congr_left
    intro part hpart
    obtain ⟨hnamed, hcontained⟩ := Record.outline_spec htype 0 r part hpart
    exact Part.readLine?_line hnamed (hcontained hplain)

/-- A type with a string and a byte string. -/
def noteType : Message :=
  ⟨"Note", [⟨1, "title", .implicit, .value (.scalar .string)⟩, ⟨2, "raw", .optional, .value (.scalar .bytes)⟩]⟩

/-- A note whose cells try to close their quotes, to end their lines and to start other fields. -/
def hostileNote : Record :=
  ⟨[(1, .single (.string "1\" \x7d\nraw: \"2\\")), (2, .single (.bytes [0x22, 0x0A, 0x5C, 0xFF, 0x31]))]⟩

/-- The text of the note has a line for each of its two cells, and they are read back from it. -/
theorem hostileNote_read_back :
    noteType.WellNamed ∧ hostileNote.Conforms noteType
      ∧ ∃ text, hostileNote.toText noteType {} = .ok text
        ∧ (Text.lines text.toList).map Said.readLine?
          = [some (0, .literal "title" (Text.Utf8.encode "1\" \x7d\nraw: \"2\\")),
             some (0, .literal "raw" [0x22, 0x0A, 0x5C, 0xFF, 0x31])] := by
  have htype : noteType.WellNamed := ⟨⟨by decide, trivial⟩, ⟨by decide, trivial⟩, trivial⟩
  have hnote : hostileNote.Conforms noteType := ⟨⟨_, rfl, by decide, trivial⟩, ⟨_, rfl, by decide, trivial⟩, trivial⟩
  have hplain : EnumTable.NamesPlain {} := nofun
  obtain ⟨-, -, text, htext, -, -, hread⟩ := Record.toText_eq_outline htype hnote
  exact ⟨htype, hnote, text, htext, hread hplain⟩

end SheetCompiler

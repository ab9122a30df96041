import SheetCompiler.Proofs.Record.Canonical

/-!
# What the text of a record does not show

The text format leaves out the defaults of implicit fields, and an empty list has no lines. So a record and its
canonical form have the same text, or are refused for the same field. What is not a number is written with one word
whatever its payload is, so records that are the same but for such payloads have the same text as well.
-/

namespace SheetCompiler

variable {enums : EnumTable}

/-! ### Payloads do not show -/

namespace Double

theorem isNaN_quiet {d : Double} (h : d.isNaN = true) : d.quiet.isNaN = true := by
  rw [quiet, if_pos h]
  decide

theorem quiet_of_not_isNaN {d : Double} (h : ¬d.isNaN = true) : d.quiet = d := if_neg h

theorem bits_ne_zero_of_isNaN {d : Double} (h : d.isNaN = true) : d.bits ≠ 0 := by
  rintro hzero
  rw [isNaN, magnitude, hzero] at h
  exact absurd h (by decide)

end Double

theorem Value.isDefault_quiet : ∀ v : Value, v.quiet.isDefault = v.isDefault
  | .float d => by
      by_cases hnan : d.isNaN = true
      · have hbits : (d.bits == 0) = false := beq_eq_false_iff_ne.2 (Double.bits_ne_zero_of_isNaN hnan)
        have hquiet : (d.quiet.bits == 0) = false :=
          beq_eq_false_iff_ne.2 (Double.bits_ne_zero_of_isNaN (d.isNaN_quiet hnan))
        exact hquiet.trans hbits.symm
      · rw [quiet, Double.quiet_of_not_isNaN hnan]
  | .int _ | .uint _ | .bool _ | .string _ | .bytes _ | .enum _ | .message _ => rfl

namespace TextFormat

theorem double_of_nan {d : Double} (h : d.isNaN = true) : double d = number.nan := by
  rw [double, FloatStyle.writeDouble, FloatStyle.write, if_pos (of_decide_eq_true h)]

theorem single_of_nan {d : Double} (h : d.isNaN = true) : single d.toSingle = number.nan := by
  rw [single, FloatStyle.writeSingle, FloatStyle.write, Double.magnitude_toSingle,
    if_pos (BinaryFormat.infinity_lt_convert .double .single (of_decide_eq_true h))]

/-- What is not a number is written with a word of its own in either width. -/
theorem value_of_nan (kind : FieldKind) {d : Double} (h : d.isNaN = true) :
    value kind enums (.float d) = number.nan := by
  by_cases hsingle : kind = .value (.scalar .float)
  · rw [hsingle, value]
    exact single_of_nan h
  · have hdouble : value kind enums (.float d) = double d := by
      rw [value]
      exact hsingle
    rw [hdouble, double_of_nan h]

theorem value_quiet (kind : FieldKind) : ∀ v : Value, value kind enums v.quiet = value kind enums v
  | .float d => by
      by_cases hnan : d.isNaN = true
      · rw [Value.quiet, value_of_nan kind hnan, value_of_nan kind (d.isNaN_quiet hnan)]
      · rw [Value.quiet, Double.quiet_of_not_isNaN hnan]
  | .int _ | .uint _ | .bool _ | .string _ | .bytes _ | .enum _ | .message _ => rfl

theorem omits_quiet (field : Field) (content : Content) : omits field content.quiet = omits field content := by
  cases content with
  | single v => exact congrArg (field.label == .implicit && ·) v.isDefault_quiet
  | list vs => rfl

end TextFormat

mutual

theorem Value.lines_quiet {field : Field} :
    ∀ (depth : Nat) (v : Value), v.quiet.lines field enums depth = v.lines field enums depth
  | depth, .message r => by
      rw [Value.quiet, Value.lines, Value.lines]
      cases field.kind with
      | value t => rfl
      | message nested => simp only [Record.lines_quiet (depth + 1) r]
  | depth, .float d => by
      have hvalue : TextFormat.value field.kind enums (.float d.quiet) = TextFormat.value field.kind enums (.float d) :=
        TextFormat.value_quiet field.kind (.float d)
      rw [Value.quiet, Value.lines, Value.lines, hvalue] <;> exact nofun
  | _, .int _ | _, .uint _ | _, .bool _ | _, .string _ | _, .bytes _ | _, .enum _ => rfl

theorem Value.linesAll_quiet {field : Field} :
    ∀ (depth : Nat) (vs : List Value),
      Value.linesAll field enums depth (Value.quietAll vs) = Value.linesAll field enums depth vs
  | _, [] => rfl
  | depth, v :: vs => by
      rw [Value.quietAll, Value.linesAll, Value.linesAll, Value.lines_quiet depth v, Value.linesAll_quiet depth vs]

theorem Content.lines_quiet {field : Field} :
    ∀ (depth : Nat) (content : Content), content.quiet.lines field enums depth = content.lines field enums depth
  | depth, .single v => Value.lines_quiet depth v
  | depth, .list vs => Value.linesAll_quiet depth vs

theorem Content.linesAll_quiet {type : Message} :
    ∀ (depth : Nat) (entries : List (Nat × Content)),
      Content.linesAll type enums depth (Content.quietAll entries) = Content.linesAll type enums depth entries
  | _, [] => rfl
  | depth, (number, content) :: entries => by
      simp only [Content.quietAll, Content.linesAll, TextFormat.omits_quiet, Content.lines_quiet depth content,
        Content.linesAll_quiet depth entries]

/-- Records that are the same but for what is not a number have the same lines. -/
theorem Record.lines_quiet {type : Message} :
    ∀ (depth : Nat) (r : Record), r.quiet.lines type enums depth = r.lines type enums depth
  | depth, ⟨entries⟩ => Content.linesAll_quiet depth entries

end

/-! ### Canonical forms have the same text -/

/-- What has nothing in the wire format has no lines. -/
theorem Content.lines_of_leavesNoTrace {field : Field} {depth : Nat} :
    ∀ {content : Content}, content.leavesNoTrace field = true →
      (if TextFormat.omits field content then pure [] else content.lines field enums depth) = .ok []
  | .single v, h => by
      have homits : TextFormat.omits field (.single v) = true := (Bool.or_false _).symm.trans h
      rw [if_pos homits]
      rfl
  | .list vs, h => by
      obtain rfl : vs = [] := List.isEmpty_iff.1 h
      rfl

theorem Content.linesAll_cons {type : Message} {number : Nat} {field : Field} (hfield : type.field? number = some field)
    (depth : Nat) (content : Content) (entries : List (Nat × Content)) :
    Content.linesAll type enums depth ((number, content) :: entries)
      = (if TextFormat.omits field content then pure [] else content.lines field enums depth) >>= fun lines =>
          Content.linesAll type enums depth entries >>= fun more => .ok (lines ++ more) := by
  simp only [Content.linesAll, hfield]
  split <;> rfl

theorem Content.omits_of_not_leavesNoTrace {field : Field} {content : Content}
    (h : content.leavesNoTrace field = false) : TextFormat.omits field content = false :=
  (Bool.or_eq_false_iff.1 h).1

mutual

theorem Value.lines_prune {field : Field} : ∀ (depth : Nat) (v : Value),
    (v.prune Content.leavesNoTrace field.kind).lines field enums depth = v.lines field enums depth
  | depth, .message r => by
      cases hkind : field.kind with
      | value t => rfl
      | message nested =>
          have hinner : (r.prune Content.leavesNoTrace nested).lines nested enums (depth + 1)
              = r.lines nested enums (depth + 1) := Record.lines_normalise (depth + 1) r
          simp only [Value.prune, Value.lines, hkind, hinner]
  | _, .int _ | _, .uint _ | _, .float _ | _, .bool _ | _, .string _ | _, .bytes _ | _, .enum _ => by
      cases field.kind <;> rfl

theorem Value.linesAll_prune {field : Field} : ∀ (depth : Nat) (vs : List Value),
    Value.linesAll field enums depth (Value.pruneAll Content.leavesNoTrace field.kind vs)
      = Value.linesAll field enums depth vs
  | _, [] => rfl
  | depth, v :: vs => by
      rw [Value.pruneAll, Value.linesAll, Value.linesAll, Value.lines_prune depth v, Value.linesAll_prune depth vs]

theorem Content.lines_prune {field : Field} : ∀ (depth : Nat) (content : Content),
    (content.prune Content.leavesNoTrace field).lines field enums depth = content.lines field enums depth
  | depth, .single v => Value.lines_prune depth v
  | depth, .list vs => Value.linesAll_prune depth vs

theorem Content.linesAll_prune {type : Message} : ∀ (depth : Nat) (entries : List (Nat × Content)),
    Content.linesAll type enums depth (Content.pruneAll Content.leavesNoTrace type entries)
      = Content.linesAll type enums depth entries
  | _, [] => rfl
  | depth, (number, content) :: entries => by
      cases hfield : type.field? number with
      | none => simp only [Content.pruneAll, Content.linesAll, hfield]
      | some field =>
          have hrest : Content.linesAll type enums depth (Content.pruneAll Content.leavesNoTrace type entries)
              = Content.linesAll type enums depth entries := Content.linesAll_prune depth entries
          cases hleaves : content.leavesNoTrace field with
          | true =>
              rw [Content.linesAll_cons hfield, Content.lines_of_leavesNoTrace hleaves]
              simp only [Content.pruneAll, hfield, hleaves, if_true, hrest]
              exact (bind_pure _).symm
          | false =>
              have hpruned := (content.leavesNoTrace_prune field).trans hleaves
              simp only [Content.pruneAll, hfield, hleaves, Bool.false_eq_true, if_false,
                Content.linesAll_cons hfield, hrest, Content.omits_of_not_leavesNoTrace hleaves,
                Content.omits_of_not_leavesNoTrace hpruned, Content.lines_prune depth content]

/-- The canonical form of a record has the same lines, and is refused where the record is. -/
theorem Record.lines_normalise {type : Message} : ∀ (depth : Nat) (r : Record),
    (r.normalise type).lines type enums depth = r.lines type enums depth
  | depth, ⟨entries⟩ => Content.linesAll_prune depth entries

end

theorem Record.toText_normalise {type : Message} {r : Record} :
    (r.normalise type).toText type enums = r.toText type enums := by
  rw [toText, toText, lines_normalise]

/-- A record that is a canonical form, but for what is not a number, has the text of the record in that form. -/
theorem Record.toText_of_quiet_eq {type : Message} {r r' : Record} (h : r'.quiet = (r.normalise type).quiet) :
    r'.toText type enums = r.toText type enums := by
  rw [toText, toText, ← lines_quiet 0 r', h, lines_quiet, lines_normalise]

end SheetCompiler

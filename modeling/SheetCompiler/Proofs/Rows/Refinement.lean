import SheetCompiler.Proofs.Rows.Reference
import SheetCompiler.Proofs.Text.Words

/-!
# The walk over a row reads by position

A walk that stands where a construct begins, with the number of its field and nothing in the record from
that number on, finds what the position-based reading finds, puts it at the end of the record, and stands
where the next construct begins. Failure is compared as such: which error a walk ends with is not part of
the reading.
-/

namespace SheetCompiler

namespace Row

theorem toOption_convert (row : Source) (column : Nat) (type : ValueType) (default? : Option String)
    (text : String) : (convert row column type default? text).toOption = row.value? type default? text :=
  toOption_mapError ..

theorem splitInline_eq_tokens (row : Source) (column : Nat) :
    Conversion.splitInline (row.cell column) = row.tokens column := by
  have hempty : (fun piece : List Char => !piece.isEmpty) = fun piece => decide (piece ≠ []) :=
    funext fun piece => by cases piece <;> rfl
  rw [Conversion.splitInline, Source.tokens, hempty]
  by_cases hsemicolon : ';' ∈ (row.cell column).toList
  · rw [if_pos hsemicolon, if_pos (List.contains_iff_mem.2 hsemicolon), Text.split_eq_splitOnP, List.splitOn]
  · rw [if_neg hsemicolon, if_neg (mt List.contains_iff_mem.1 hsemicolon), Text.split_eq_splitOnP, List.splitOn]

theorem toOption_readCount (row : Source) (max : Nat) (w : Walk) :
    (readCount row max w).toOption = row.count? w.column max := by
  rw [readCount, toOption_bind, toOption_mapError, Conversion.count, Source.count?]
  split
  · exact congrArg some (Nat.zero_min max)
  · cases Whole.count? (row.cell w.column) <;> rfl

theorem Source.count?_le {row : Source} {column max count : Nat} (h : row.count? column max = some count) :
    count ≤ max := by
  rw [Source.count?] at h
  split at h
  · cases h
    exact Nat.zero_le max
  · obtain ⟨n, -, rfl⟩ := Option.map_eq_some_iff.1 h
    exact Nat.min_le_right n max

/-! ### Lists -/

/-- The walk with a list as the last field of its record. -/
def Walk.withList (w : Walk) (number : Nat) (vs : List Value) : Walk :=
  { w with record := w.record.extend number (Content.ofList vs) }

theorem Walk.withList_nil (w : Walk) (number : Nat) : w.withList number [] = w := by
  rw [withList, Content.ofList, Record.extend_none]

theorem Walk.append_withList {w : Walk} {number : Nat} (h : w.record.Below number) (vs : List Value)
    (v : Option Value) : (w.withList number vs).append number v = w.withList number (vs ++ v.toList) := by
  cases v with
  | none => rw [Option.toList_none, List.append_nil, append]
  | some v =>
      rw [append, withList, h.append_extend]
      rfl

theorem Walk.append_skip (w : Walk) (columns number : Nat) (v : Option Value) :
    (w.skip columns).append number v = (w.append number v).skip columns := by
  cases v <;> rfl

theorem values?_cons (row : Source) (type : ValueType) (text : String) (texts : List String) :
    row.values? type (text :: texts) = (row.value? type none text).bind fun v =>
      (row.values? type texts).map (v.toList ++ ·) := by
  rw [Source.values?, Source.values?, List.mapM_cons]
  cases row.value? type none text with
  | none => rfl
  | some v =>
      cases texts.mapM (row.value? type none) with
      | none => rfl
      | some vs => cases v <;> rfl

theorem toOption_readInline {w : Walk} {number : Nat} (h : w.record.Below number) (row : Source)
    (type : ValueType) (tokens : List String) : ∀ vs,
    (readInline row type number (w.withList number vs) tokens).toOption
      = (row.values? type tokens).map fun more => w.withList number (vs ++ more) := by
  induction tokens with
  | nil =>
      intro vs
      change some (w.withList number vs) = some (w.withList number (vs ++ []))
      rw [List.append_nil]
  | cons token tokens ih =>
      intro vs
      rw [readInline, toOption_bind, toOption_convert, values?_cons]
      cases row.value? type none token with
      | none => rfl
      | some v =>
          rw [Option.bind_some, Option.bind_some, Walk.append_withList h, ih, Option.map_map]
          simp only [Function.comp_def, List.append_assoc]

theorem toOption_readCopies {w : Walk} {number : Nat} (h : w.record.Below number) (row : Source)
    (type : ValueType) (count : Nat) :
    (readCopies row type number count w).toOption
      = (row.values? type ((List.range count).map fun i => row.cell (w.column + i))).map fun vs =>
          (w.withList number vs).skip count := by
  have hstep : ∀ i found, (readCell row type number ((w.withList number (found.filterMap id)).skip i)).toOption
      = (row.value? type none (row.cell (w.column + i))).map fun v =>
          (w.withList number ((found ++ [v]).filterMap id)).skip (i + 1) := by
    intro i found
    have happend (v : Option Value) : ((w.withList number (found.filterMap id)).skip i).append number v
        = (w.withList number ((found ++ [v]).filterMap id)).skip i := by
      rw [Walk.append_skip, Walk.append_withList h, List.filterMap_append]
      cases v <;> rfl
    rw [readCell, toOption_bind, toOption_convert]
    change Option.bind (row.value? type none (row.cell (w.column + i))) _ = _
    cases row.value? type none (row.cell (w.column + i)) with
    | none => rfl
    | some v => exact congrArg (fun w => some (Walk.skip w 1)) (happend v)
  have := toOption_iterateM (fun i (found : List (Option Value)) =>
    (w.withList number (found.filterMap id)).skip i) hstep count 0 []
  simp only [List.filterMap_nil, Walk.withList_nil, Nat.zero_add] at this
  rw [readCopies_eq, Source.values?, List.mapM_map, Option.map_map]
  exact this

/-! ### Constructs -/

/-- The walk behind a construct that has contributed to the record. -/
def Walk.behind (w : Walk) (columns numbers : Nat) (content : Option Content) : Walk :=
  ⟨w.column + columns, w.scopes.advanceBy numbers, w.record.extend w.scopes.number content⟩

theorem Walk.set_eq_behind {w : Walk} (h : w.record.Below w.scopes.number) (v : Option Value) :
    ({ (w.set w.scopes.number v).skip 1 with scopes := w.scopes.advance } : Walk)
      = w.behind 1 1 (v.map .single) := by
  cases v with
  | none =>
      rw [behind, Option.map_none, Record.extend_none]
      rfl
  | some v =>
      rw [behind, Option.map_some, ← h.set_eq]
      rfl

/-- The walk behind constructs side by side that have contributed entries to the record. -/
def Walk.behindAll (w : Walk) (nodes : List Node) (entries : List (Nat × Content)) : Walk :=
  ⟨w.column + Node.spans nodes, w.scopes.advanceBy (Node.fields w.scopes.number nodes).length,
    ⟨w.record.entries ++ entries⟩⟩

@[simp] theorem Walk.column_behind (w : Walk) (columns numbers : Nat) (content : Option Content) :
    (w.behind columns numbers content).column = w.column + columns := rfl

@[simp] theorem Walk.number_behind (w : Walk) (columns numbers : Nat) (content : Option Content) :
    (w.behind columns numbers content).scopes.number = w.scopes.number + numbers := rfl

theorem Walk.behindAll_nil (w : Walk) : w.behindAll [] [] = w := by
  rw [behindAll, List.append_nil, Record.mk_entries]
  rfl

theorem Walk.behindAll_cons (w : Walk) (node : Node) (nodes : List Node) (content : Option Content)
    (entries : List (Nat × Content)) :
    (w.behind node.span node.fieldCount content).behindAll nodes entries
      = w.behindAll (node :: nodes) ((content.map (w.scopes.number, ·)).toList ++ entries) := by
  rw [behindAll, behindAll, Node.fields, List.length_append, Node.length_field?, ← Scopes.advanceBy_advanceBy,
    Node.spans, ← Nat.add_assoc, ← List.append_assoc]
  rfl

/-- The walk in front of one of the copies of a struct. Its column is behind the count and the copies before. -/
def Walk.copies (w : Walk) (members : List Node) (i : Nat) (found : List (List (Nat × Content))) : Walk :=
  { w.number with
    column := w.column + 1 + i * (1 + Node.spans members)
    record := w.record.extend w.scopes.number (Content.ofList (found.map fun entries => .message ⟨entries⟩)) }

theorem Walk.copies_zero (w : Walk) (members : List Node) : w.copies members 0 [] = (w.skip 1).number := by
  rw [copies, List.map_nil, Content.ofList, Record.extend_none, Nat.zero_mul]
  rfl

/-- Leaving a copy of a struct adds its message to the list. -/
theorem Walk.leave_copy {w : Walk} (h : w.record.Below w.scopes.number) (members : List Node) (i : Nat)
    (found : List (List (Nat × Content))) (entries : List (Nat × Content)) :
    (w.copies members i found).leave (((w.copies members i found).enter .empty).behindAll members entries)
        (fun record sub => record.append w.scopes.number (.message sub))
      = w.copies members (i + 1) (found ++ [entries]) := by
  have hcolumn : w.column + 1 + i * (1 + Node.spans members) + 1 + Node.spans members
      = w.column + 1 + (i + 1) * (1 + Node.spans members) := by
    rw [Nat.succ_mul]
    omega
  have hlist := h.append_extend (found.map fun entries => .message ⟨entries⟩) (.message ⟨entries⟩)
  rw [copies, copies, List.map_append, ← hcolumn]
  exact congrArg (fun record => (⟨_, w.scopes.advance, record⟩ : Walk)) hlist

/-- The message of a first copy that was walked only to keep its columns checked is dropped. -/
theorem Walk.settle_first {w : Walk} (h : w.record.Below w.scopes.number) {max : Nat} (hpos : 0 < max)
    (members : List Node) (entries : List (Nat × Content)) :
    (((w.copies members (0 + 1) ([] ++ [entries])).settle 0 w.scopes.number).skip
        ((max - 1) * (1 + Node.spans members)))
      = w.behind (max * (1 + Node.spans members) + 1) 1 none := by
  have hend : w.column + 1 + (0 + 1) * (1 + Node.spans members) + (max - 1) * (1 + Node.spans members)
      = w.column + (max * (1 + Node.spans members) + 1) := by
    have := Node.first_add_others hpos (1 + Node.spans members)
    omega
  rw [behind, Record.extend_none, ← hend]
  exact congrArg (fun record => (⟨_, w.scopes.advance, record⟩ : Walk)) (h.dropLast_extend (.message ⟨entries⟩))

/-- Behind the copies that are used come those that are not. -/
theorem Walk.settle_copies {w : Walk} {max count : Nat} (hle : count + 1 ≤ max) (members : List Node)
    (subs : List (List (Nat × Content))) :
    (((w.copies members (count + 1) subs).settle (count + 1) w.scopes.number).skip
        ((max - (count + 1)) * (1 + Node.spans members)))
      = w.behind (max * (1 + Node.spans members) + 1) 1
          (Content.ofList (subs.map fun entries => .message ⟨entries⟩)) := by
  have hend : w.column + 1 + (count + 1) * (1 + Node.spans members)
        + (max - (count + 1)) * (1 + Node.spans members)
      = w.column + (max * (1 + Node.spans members) + 1) := by
    rw [Nat.add_assoc (w.column + 1), ← Nat.add_mul, Nat.add_sub_cancel' hle]
    omega
  rw [behind, ← hend]
  rfl

/-- Leaving a struct puts its message at the end of the record, unless it may be left out and is empty. -/
theorem Walk.leave_struct {w : Walk} (h : w.record.Below w.scopes.number) (required : Bool)
    (members : List Node) (entries : List (Nat × Content)) :
    w.number.leave ((w.number.enter .empty).behindAll members entries) (fun record sub =>
        if !required && sub.isEmpty then record.clear w.scopes.number
        else record.set w.scopes.number (.message sub))
      = w.behind (1 + Node.spans members) 1
          (if !required && entries.isEmpty then none else some (.single (.message ⟨entries⟩))) := by
  rw [behind, ← Nat.add_assoc]
  change (⟨w.column + 1 + Node.spans members, w.scopes.advance,
    if !required && entries.isEmpty then w.record.clear w.scopes.number
    else w.record.set w.scopes.number (.message ⟨entries⟩)⟩ : Walk) = _
  split
  · rw [h.clear_eq, Record.extend_none]
    rfl
  · rw [h.set_eq]
    rfl

theorem below_behind {row : Source} {shift : Nat} {node : Node} {content : Option Content} {w : Walk}
    (h : w.record.Below w.scopes.number) (hcontent : content? row shift node = some content) (columns : Nat) :
    (w.behind columns node.fieldCount content).record.Below
      (w.behind columns node.fieldCount content).scopes.number := by
  cases node
  case skip =>
    cases hcontent
    rw [Walk.behind, Record.extend_none]
    exact h
  all_goals exact h.extend content

/-! ### One construct

What reading a construct comes to, for each kind, where the members of a struct are known to be read by
position. Only the induction over the constructs says so. -/

section Constructs

variable {row : Source} {shift : Nat} {nodes : List Node} {type : Message} {w : Walk}

theorem toOption_read_value {field : ValueColumn} {optional : Bool} (hcolumn : field.column + shift = w.column)
    (hprovides : type.Provides w.scopes.number (.value field optional :: nodes))
    (hbelow : w.record.Below w.scopes.number) :
    (read row type w (.value field optional)).toOption
      = (content? row shift (.value field optional)).map (w.behind 1 1) := by
  rw [read, bound_eq hprovides rfl, content?, hcolumn]
  change Except.toOption (convert row w.column field.type field.default? _ >>= _)
    = Option.map _ (Option.bind (row.value? field.type field.default? _) _)
  rw [toOption_bind, toOption_convert]
  cases row.value? field.type field.default? (row.cell w.column) with
  | none => rfl
  | some v => exact congrArg some (Walk.set_eq_behind hbelow v)

theorem toOption_read_inline {field : ValueColumn} (hcolumn : field.column + shift = w.column)
    (hprovides : type.Provides w.scopes.number (.inline field :: nodes))
    (hbelow : w.record.Below w.scopes.number) :
    (read row type w (.inline field)).toOption = (content? row shift (.inline field)).map (w.behind 1 1) := by
  have hlist := toOption_readInline hbelow row field.type (row.tokens w.column) []
  rw [Walk.withList_nil] at hlist
  rw [read, bound_eq hprovides rfl, content?, hcolumn, splitInline_eq_tokens]
  change Except.toOption (readInline row field.type w.scopes.number w (row.tokens w.column) >>= _)
    = Option.map _ (Option.bind (row.values? field.type (row.tokens w.column)) _)
  rw [toOption_bind, hlist]
  cases row.values? field.type (row.tokens w.column) with
  | none => rfl
  | some vs => rfl

theorem toOption_read_values {count max : Nat} {field : ValueColumn} {optional : Bool}
    (hcolumn : count + shift = w.column)
    (hprovides : type.Provides w.scopes.number (.values count max field optional :: nodes))
    (hbelow : w.record.Below w.scopes.number) :
    (read row type w (.values count max field optional)).toOption
      = (content? row shift (.values count max field optional)).map (w.behind (max + 1) 1) := by
  rw [read, content?, hcolumn, toOption_bind, toOption_readCount]
  cases hcount : row.count? w.column max with
  | none => rfl
  | some copies =>
      have hlist := toOption_readCopies (w := w.skip 1) hbelow row field.type copies
      have hle := Source.count?_le hcount
      change Except.toOption (bound type (w.skip 1) field.name >>= _)
        = Option.map _ (Option.bind (row.values? field.type _) _)
      rw [bound_eq (w := w.skip 1) hprovides rfl]
      change Except.toOption (readCopies row field.type w.scopes.number copies (w.skip 1) >>= _) = _
      rw [toOption_bind, hlist, Walk.column_skip]
      cases row.values? field.type ((List.range copies).map fun i => row.cell (w.column + 1 + i)) with
      | none => rfl
      | some vs =>
          have hend : w.column + 1 + copies + (max - copies) = w.column + (max + 1) := by omega
          exact congrArg (fun column => some (⟨column, w.scopes.advance,
            w.record.extend w.scopes.number (Content.ofList vs)⟩ : Walk)) hend

variable {head : StructColumn} {members : List Node}

theorem toOption_read_struct
    (hprovides : type.Provides w.scopes.number (.struct head members :: nodes))
    (hbelow : w.record.Below w.scopes.number)
    (hmembers : (readAll row ⟨head.typeName, Node.fields 1 members⟩ (w.number.enter .empty) members).toOption
      = (entries? row shift 1 members).map ((w.number.enter .empty).behindAll members)) :
    (read row type w (.struct head members)).toOption
      = (content? row shift (.struct head members)).map (w.behind (1 + Node.spans members) 1) := by
  rw [read, boundMessage_eq hprovides rfl rfl, content?]
  change Except.toOption (readAll row ⟨head.typeName, Node.fields 1 members⟩
      (w.number.enter (w.record.message w.scopes.number)) members >>= _)
    = Option.map _ (Option.bind (entries? row shift 1 members) _)
  rw [hbelow.message_eq, toOption_bind, hmembers]
  cases entries? row shift 1 members with
  | none => rfl
  | some entries => exact congrArg some (Walk.leave_struct hbelow head.required members entries)

theorem toOption_readCopy (hbelow : w.record.Below w.scopes.number) (nested : Message) (i : Nat)
    (found : List (List (Nat × Content)))
    (hmembers : (readAll row nested ((w.copies members i found).enter .empty) members).toOption
      = (entries? row shift 1 members).map (((w.copies members i found).enter .empty).behindAll members)) :
    (readCopy row nested w.scopes.number members (w.copies members i found)).toOption
      = (entries? row shift 1 members).map fun entries => w.copies members (i + 1) (found ++ [entries]) := by
  rw [readCopy, toOption_bind, hmembers]
  cases entries? row shift 1 members with
  | none => rfl
  | some entries => exact congrArg some (Walk.leave_copy hbelow members i found entries)

theorem toOption_read_structs {count max : Nat} (hcolumn : count + shift = w.column) (hpos : 0 < max)
    (hprovides : type.Provides w.scopes.number (.structs count max head members :: nodes))
    (hbelow : w.record.Below w.scopes.number)
    (hcopy : ∀ i found, (readCopy row ⟨head.typeName, Node.fields 1 members⟩ w.scopes.number members
        (w.copies members i found)).toOption
      = (entries? row (shift + i * (1 + Node.spans members)) 1 members).map fun entries =>
          w.copies members (i + 1) (found ++ [entries])) :
    (read row type w (.structs count max head members)).toOption
      = (content? row shift (.structs count max head members)).map
          (w.behind (max * (1 + Node.spans members) + 1) 1) := by
  have hcopies := toOption_iterateM (w.copies members) hcopy
  rw [read_structs, content?, hcolumn, toOption_bind, toOption_readCount]
  cases hcount : row.count? w.column max with
  | none => rfl
  | some copies =>
      have hle := Source.count?_le hcount
      change Except.toOption (boundMessage type (w.skip 1) head.name >>= _) = _
      rw [boundMessage_eq (w := w.skip 1) hprovides rfl rfl]
      change Except.toOption (if copies = 0 ∧ head.required = true then _ else _) = _
      cases copies with
      | zero =>
          cases hrequired : head.required with
          | true => rfl
          | false =>
              -- The first copy is walked although none is used, so both sides fail with it.
              rw [if_neg (by simp), toOption_bind, ← Walk.copies_zero w members, hcopies (Nat.max 0 1) 0 []]
              change Option.bind (Option.map _ (Option.bind (entries? row _ 1 members) _)) _
                = Option.map _ (Option.bind (entries? row shift 1 members) _)
              rw [Nat.zero_mul, Nat.add_zero]
              cases entries? row shift 1 members with
              | none => rfl
              | some entries => exact congrArg some (Walk.settle_first hbelow hpos members entries)
      | succ copies =>
          rw [if_neg (by simp), toOption_bind, ← Walk.copies_zero w members,
            hcopies (Nat.max (copies + 1) 1) 0 [],
            show Nat.max (copies + 1) 1 = copies + 1 from Nat.max_eq_left (Nat.succ_pos copies)]
          simp only [Nat.zero_add, List.nil_append]
          change _ = Option.map _ (Option.bind (List.mapM _ _) _)
          cases (List.range (copies + 1)).mapM fun i =>
              entries? row (shift + i * (1 + Node.spans members)) 1 members with
          | none => rfl
          | some subs => exact congrArg some (Walk.settle_copies hle members subs)

end Constructs

/-! ### All constructs -/

open Node in
mutual

theorem toOption_read {h : Header} (row : Source) (shift : Nat) :
    ∀ {first : Nat} {node : Node} {nodes : List Node} {type : Message} {w : Walk}, node.Stands h first →
      w.column = first + shift → type.Provides w.scopes.number (node :: nodes) →
      w.record.Below w.scopes.number →
      (read row type w node).toOption
        = (content? row shift node).map (w.behind node.span node.fieldCount)
  | _, .skip _, _, _, w, _, _, _, _ => by
      rw [read, content?, Option.map_some, Walk.behind, Record.extend_none]
      rfl
  | _, .value .., _, _, _, ⟨hfirst, _⟩, hcolumn, hprovides, hbelow =>
      toOption_read_value (by rw [hfirst, hcolumn]) hprovides hbelow
  | _, .inline _, _, _, _, ⟨hfirst, _⟩, hcolumn, hprovides, hbelow =>
      toOption_read_inline (by rw [hfirst, hcolumn]) hprovides hbelow
  | _, .values .., _, _, _, ⟨hfirst, _⟩, hcolumn, hprovides, hbelow =>
      toOption_read_values (by rw [hfirst, hcolumn]) hprovides hbelow
  | first, .struct head members, _, _, w, ⟨_, _, htile⟩, hcolumn, hprovides, hbelow => by
      have hmembers := toOption_readAll row shift (w := w.number.enter .empty) htile
        (by change w.column + 1 = _; omega) (Message.Provides.of_fields head.typeName members)
        (Record.below_empty 1)
      exact toOption_read_struct hprovides hbelow hmembers
  | first, .structs _ max head members, _, _, w, ⟨hfirst, hpos, _, _, _, htile, _⟩, hcolumn, hprovides,
      hbelow => by
      have hcopy (i : Nat) (found : List (List (Nat × Content))) :=
        toOption_readCopy hbelow ⟨head.typeName, fields 1 members⟩ i found
          (toOption_readAll row (shift + i * (1 + spans members))
            (w := (w.copies members i found).enter .empty) htile
            (by change w.column + 1 + i * (1 + spans members) + 1 = _; omega)
            (Message.Provides.of_fields head.typeName members) (Record.below_empty 1))
      exact toOption_read_structs (by rw [hfirst, hcolumn]) hpos hprovides hbelow hcopy

/-- The walk over constructs side by side finds what they contribute by position, and ends behind them. What it
needs to begin with, the column and the number of the first and nothing in the record from that number on, holds
behind each of them for the next. -/
theorem toOption_readAll {h : Header} (row : Source) (shift : Nat) :
    ∀ {first last : Nat} {nodes : List Node} {type : Message} {w : Walk}, Tile h first last nodes →
      w.column = first + shift → type.Provides w.scopes.number nodes → w.record.Below w.scopes.number →
      (readAll row type w nodes).toOption = (entries? row shift w.scopes.number nodes).map (w.behindAll nodes)
  | _, _, [], _, w, _, _, _, _ => by
      rw [readAll, entries?, Option.map_some, Walk.behindAll_nil]
      rfl
  | first, _, node :: nodes, type, w, ⟨hnode, htile⟩, hcolumn, hprovides, hbelow => by
      rw [readAll, toOption_bind, toOption_read row shift hnode hcolumn hprovides hbelow, entries?]
      cases hcontent : content? row shift node with
      | none => rfl
      | some content =>
          have hbelow' := below_behind hbelow hcontent node.span
          have hcolumn' : (w.behind node.span node.fieldCount content).column = first + node.span + shift := by
            rw [Walk.column_behind, hcolumn]
            omega
          change (readAll row type (w.behind node.span node.fieldCount content) nodes).toOption = _
          rw [toOption_readAll row shift htile hcolumn' hprovides.tail hbelow', Walk.number_behind]
          change _ = Option.map (w.behindAll (node :: nodes))
            (Option.bind (entries? row shift (w.scopes.number + node.fieldCount) nodes) _)
          cases entries? row shift (w.scopes.number + node.fieldCount) nodes with
          | none => rfl
          | some entries => exact congrArg some (w.behindAll_cons node nodes content entries)

end

theorem toOption_toRecord {h : Header} {l : Layout} (hlayout : Layout.ofHeader h = .ok l) (row : Source)
    (record : String) : (toRecord row l (l.type record)).toOption = reference? row l := by
  have htile := (Layout.tile_of_ofHeader hlayout).2
  have hwalk := toOption_readAll row 0 (w := {}) htile rfl
    (Message.Provides.of_fields record l.nodes) (Record.below_empty 1)
  rw [toRecord, toOption_bind, reference?]
  change Option.bind (readAll row (l.type record) {} l.nodes).toOption _ = Option.map _ (entries? row 0 1 l.nodes)
  rw [Layout.type, hwalk]
  change Option.bind (Option.map _ (entries? row 0 1 l.nodes)) _ = _
  cases entries? row 0 1 l.nodes with
  | none => rfl
  | some entries =>
      have haligned : ((({} : Walk).behindAll l.nodes entries).column) = l.span := Nat.zero_add _
      change Except.toOption (if (({} : Walk).behindAll l.nodes entries).column ≠ l.span then _ else _) = _
      rw [if_neg (not_not_intro haligned)]
      rfl

end Row

/-- Walking a row with the type that the schema pass found makes the record that the row has by position, and
fails where it has none. -/
theorem Row.toRecord_eq_ok_iff {h : Header} {l : Layout} {record : String} {options : SchemaOptions}
    {schema : Schema} (hlayout : Layout.ofHeader h = .ok l) (hschema : Schema.ofHeader h record options = .ok schema)
    (row : Source) (r : Record) :
    toRecord row l schema.type = .ok r ↔ reference? row l = some r := by
  rw [Schema.type_of_ofHeader hlayout hschema, ← toOption_toRecord hlayout row record, toOption_eq_some]

/-- A row of two parts, the first with one tag and the second with none, so that the columns of its tags are
passed over. -/
def twoParts : Row.Source := ⟨6, ["7", "9", "", "5", "1", "oak", "", "", "6", "0", "", "elm"], ⟨[]⟩⟩

def twoPartsRecord : Record :=
  ⟨[(1, .single (.int 7)),
    (2, .list [.message ⟨[(1, .single (.int 5)), (2, .list [.string "oak"])]⟩,
      .message ⟨[(1, .single (.int 6))]⟩])]⟩

theorem twoParts_read_by_position :
    ∃ l schema r, Layout.ofHeader nestedRepetitions = .ok l
      ∧ Schema.ofHeader nestedRepetitions "Item" {} = .ok schema
      ∧ Row.toRecord twoParts l schema.type = .ok r ∧ r.agrees twoPartsRecord = true := by
  have hread : ((Layout.ofHeader nestedRepetitions).toOption.bind fun l =>
      (Row.reference? twoParts l).map fun r => r.agrees twoPartsRecord) = some true := by decide +kernel
  have hschema : (Schema.ofHeader nestedRepetitions "Item" {}).toOption.isSome = true := by decide +kernel
  obtain ⟨l, hlayout, hread⟩ := Option.bind_eq_some_iff.1 hread
  obtain ⟨r, hr, hagrees⟩ := Option.map_eq_some_iff.1 hread
  obtain ⟨schema, hschema⟩ := Option.isSome_iff_exists.1 hschema
  have hlayout := toOption_eq_some.1 hlayout
  have hschema := toOption_eq_some.1 hschema
  exact ⟨l, schema, r, hlayout, hschema, (Row.toRecord_eq_ok_iff hlayout hschema twoParts r).2 hr, hagrees⟩

end SheetCompiler

import SheetCompiler.Proofs.Rows.Faults

/-!
# Both passes stay aligned

The schema pass and the reading of a row each keep a column of their own, and move it construct by
construct. Since the constructs of a layout tile the sheet, both end exactly behind the last column, so
the error of a walk that ends elsewhere never arises. The arithmetic on columns is exact as well: no span
inside a layout exceeds the number of columns, and no repetition reads more copies than it has.
-/

namespace SheetCompiler

namespace Node

/-! ### Spans in bounded arithmetic -/

/-- A result of arithmetic that ends at `limit`. -/
def fit? (limit n : Nat) : Option Nat := if n ≤ limit then some n else none

theorem fit?_eq_some {limit n : Nat} (h : n ≤ limit) : fit? limit n = some n := if_pos h

mutual

/-- The span of a construct in arithmetic that ends at `limit`, none where an intermediate result, at any
depth, exceeds it. -/
def boundedSpan? (limit : Nat) : Node → Option Nat
  | .skip _ | .value .. | .inline _ => some 1
  | .values _ max .. => do fit? limit ((← fit? limit (max * 1)) + 1)
  | .struct _ members => boundedSpans? limit 1 members
  | .structs _ max _ members => do
      let element ← boundedSpans? limit 1 members
      fit? limit ((← fit? limit (max * element)) + 1)

/-- `total` and the spans of constructs, added up one after another. -/
def boundedSpans? (limit total : Nat) : List Node → Option Nat
  | [] => some total
  | node :: nodes => do
      let span ← boundedSpan? limit node
      boundedSpans? limit (← fit? limit (total + span)) nodes

end

mutual

/-- How many copies each repetition inside a construct has. -/
def maxima : Node → List Nat
  | .skip _ | .value .. | .inline _ => []
  | .values _ max .. => [max]
  | .struct _ members => maximaOf members
  | .structs _ max _ members => max :: maximaOf members

def maximaOf : List Node → List Nat
  | [] => []
  | node :: nodes => maxima node ++ maximaOf nodes

end

mutual

theorem boundedSpan?_eq {h : Header} {limit first : Nat} :
    ∀ {node : Node}, node.Stands h first → node.span ≤ limit → boundedSpan? limit node = some node.span
  | .skip _, _, _ | .value .., _, _ | .inline _, _, _ => rfl
  | .values _ max _ _, _, hlimit => by
      rw [span] at hlimit
      simp only [boundedSpan?, span, Nat.mul_one, fit?_eq_some (Nat.le_of_succ_le hlimit), bind, Option.bind,
        fit?_eq_some hlimit]
  | .struct _ members, ⟨_, _, htile⟩, hlimit => by
      rw [boundedSpan?, boundedSpans?_eq htile hlimit, span]
  | .structs _ max _ members, ⟨_, hpos, _, _, _, htile, _⟩, hlimit => by
      rw [span] at hlimit
      have hcopies : max * (1 + spans members) ≤ limit := Nat.le_of_succ_le hlimit
      have helement : 1 + spans members ≤ limit := Nat.le_trans (Nat.le_mul_of_pos_left _ hpos) hcopies
      simp only [boundedSpan?, boundedSpans?_eq htile helement, fit?_eq_some hcopies, bind, Option.bind,
        fit?_eq_some hlimit, span]

/-- Spans that fit within a limit are computed within it. -/
theorem boundedSpans?_eq {h : Header} {limit total first last : Nat} :
    ∀ {nodes : List Node}, Tile h first last nodes → total + spans nodes ≤ limit →
      boundedSpans? limit total nodes = some (total + spans nodes)
  | [], _, _ => rfl
  | node :: nodes, ⟨hnode, htile⟩, hlimit => by
      rw [spans, ← Nat.add_assoc] at hlimit
      have hspan : node.span ≤ limit := by omega
      have htotal : total + node.span ≤ limit := by omega
      simp only [boundedSpans?, boundedSpan?_eq hnode hspan, fit?_eq_some htotal, bind, Option.bind, spans,
        ← Nat.add_assoc]
      exact boundedSpans?_eq htile hlimit

end

mutual

theorem maxima_pos {h : Header} {first max : Nat} :
    ∀ {node : Node}, node.Stands h first → max ∈ maxima node → 0 < max
  | .skip _, _, hmax | .value .., _, hmax | .inline _, _, hmax => absurd hmax List.not_mem_nil
  | .values _ _ _ _, ⟨_, hpos, _⟩, hmax => List.mem_singleton.1 hmax ▸ hpos
  | .struct _ _, ⟨_, _, htile⟩, hmax => maximaOf_pos htile hmax
  | .structs _ _ _ _, ⟨_, hpos, _, _, _, htile, _⟩, hmax => by
      rcases List.mem_cons.1 hmax with rfl | hmax
      · exact hpos
      · exact maximaOf_pos htile hmax

theorem maximaOf_pos {h : Header} {first last max : Nat} :
    ∀ {nodes : List Node}, Tile h first last nodes → max ∈ maximaOf nodes → 0 < max
  | [], _, hmax => absurd hmax List.not_mem_nil
  | _ :: _, ⟨hnode, htile⟩, hmax => by
      rcases List.mem_append.1 hmax with hmax | hmax
      · exact maxima_pos hnode hmax
      · exact maximaOf_pos htile hmax

end

end Node

/-! ### Reading a row -/

/-- Whether an error is anything but that a walk ended in the wrong column. -/
def SheetError.KeepsAlignment (e : SheetError) : Prop :=
  ∀ pass expected consumed, e ≠ .alignment pass expected consumed

theorem Row.ends_toRecord {h : Header} {l : Layout} (hlayout : Layout.ofHeader h = .ok l) (row : Source)
    (type : Message) : Ends (fun _ => True) SheetError.KeepsAlignment (toRecord row l type) := by
  refine (ends_toRecord_fault hlayout row type).mono_error fun e he => ?_
  cases he with
  | cell h =>
      rintro pass expected consumed rfl
      exact h
  | type => exact nofun

/-- The constructs of a layout tile all columns of its sheet, from left to right and at every depth; spans
are exact in any arithmetic that can count the columns, and a repetition, which has at least one copy, never
walks more copies than it has. So no pass over the sheet ends in a wrong column, whatever row is read with
whatever type. -/
theorem Layout.tiles_and_stays_aligned {h : Header} {l : Layout} (hlayout : Layout.ofHeader h = .ok l) :
    l.columnCount = h.columnCount ∧ Node.Tile h 0 l.columnCount l.nodes ∧ l.span = l.columnCount
      ∧ (∀ limit, l.columnCount ≤ limit → Node.boundedSpans? limit 0 l.nodes = some l.span)
      ∧ (∀ max ∈ Node.maximaOf l.nodes, 1 ≤ max ∧ ∀ (row : Row.Source) (w : Row.Walk) (count : Nat),
          Row.readCount row max w = .ok count → Nat.max count 1 ≤ max)
      ∧ (∀ record options pass expected consumed,
          Schema.ofHeader h record options ≠ .error (.alignment pass expected consumed))
      ∧ ∀ (row : Row.Source) (type : Message) pass expected consumed,
          Row.toRecord row l type ≠ .error (.alignment pass expected consumed) := by
  obtain ⟨hcount, htile⟩ := Layout.tile_of_ofHeader hlayout
  have hspan := Layout.span_of_ofHeader hlayout
  refine ⟨hcount, hcount ▸ htile, hspan, fun limit hlimit => ?_, fun max hmax => ?_, ?_, ?_⟩
  · rw [← hspan, ← Nat.zero_add l.span] at hlimit
    rw [Node.boundedSpans?_eq htile hlimit, Nat.zero_add, Layout.span]
  · have hpos := Node.maximaOf_pos htile hmax
    exact ⟨hpos, fun row w count hread => Nat.max_le.2 ⟨Row.le_of_readCount hread, hpos⟩⟩
  · intro record options pass expected consumed
    rw [Schema.ofHeader_eq hlayout]
    split <;> (intro heq; cases heq)
  · intro row type pass expected consumed heq
    have := Row.ends_toRecord hlayout row type
    rw [heq] at this
    exact this pass expected consumed rfl

/-- A header with two copies of a struct, each with two copies of a text. -/
def nestedRepetitions : Header :=
  ⟨[⟨"", "int32", "id"⟩, ⟨"", "2[]", ""⟩, ⟨"parts", "optional_struct 2", "Part"⟩, ⟨"", "int32", "kind"⟩,
    ⟨"", "2[]", ""⟩, ⟨"", "string", "tag"⟩, {}, {}, {}, {}, {}, {}]⟩

theorem nestedRepetitions_stay_aligned :
    ∃ l, Layout.ofHeader nestedRepetitions = .ok l ∧ Node.maximaOf l.nodes = [2, 2] ∧ l.span = 12
      ∧ Node.boundedSpans? 12 0 l.nodes = some 12
      ∧ ∀ (row : Row.Source) (type : Message) pass expected consumed,
          Row.toRecord row l type ≠ .error (.alignment pass expected consumed) := by
  have hmaxima : (Layout.ofHeader nestedRepetitions).toOption.map (fun l => Node.maximaOf l.nodes)
      = some [2, 2] := by decide +kernel
  cases hlayout : Layout.ofHeader nestedRepetitions with
  | error e =>
      rw [hlayout] at hmaxima
      cases hmaxima
  | ok l =>
      rw [hlayout] at hmaxima
      obtain ⟨hcount, -, hspan, hbounded, -, -, haligned⟩ := Layout.tiles_and_stays_aligned hlayout
      have hcount : l.columnCount = 12 := hcount
      rw [hcount] at hspan
      exact ⟨l, rfl, Option.some.inj hmaxima, hspan, hspan ▸ hbounded 12 (Nat.le_of_eq hcount), haligned⟩

end SheetCompiler

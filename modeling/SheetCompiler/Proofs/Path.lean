import SheetCompiler.Path
import SheetCompiler.Proofs.Text.Words

/-!
# The steps of a path

A path below another takes the steps of the upper one and then its own, whether or not the upper one ends in a slash,
and it is absolute exactly if the upper one is. A name without a slash is one step. The paths above another one are
those of its first segments.
-/

namespace SheetCompiler.Path

variable {upper lower name path segment : String} {before after : List String}

/-! ### Behind a slash -/

theorem segments_append_slash (upper lower : String) :
    segments (upper ++ "/" ++ lower) = segments upper ++ segments lower := by
  have hlist : (upper ++ "/" ++ lower).toList = upper.toList ++ '/' :: lower.toList := by simp
  rw [segments, hlist, Text.split_eq_splitOnP, List.splitOnP_append_cons _ _ rfl, List.map_append,
    ← Text.split_eq_splitOnP, ← Text.split_eq_splitOnP]
  rfl

theorem steps_append_slash (upper lower : String) : steps (upper ++ "/" ++ lower) = steps upper ++ steps lower := by
  rw [steps, segments_append_slash, List.filter_append]
  rfl

theorem exists_append_slash (h : endsInSlash upper = true) : ∃ front : String, upper = front ++ "/" := by
  rw [endsInSlash, beq_iff_eq, List.getLast?_eq_some_iff] at h
  obtain ⟨front, h⟩ := h
  exact ⟨String.ofList front, by rw [← String.toList_inj, h]; simp⟩

/-- Behind a path that ends in a slash there is nothing to be put between. -/
theorem steps_append_of_endsInSlash (h : endsInSlash upper = true) (lower : String) :
    steps (upper ++ lower) = steps upper ++ steps lower := by
  obtain ⟨front, rfl⟩ := exists_append_slash h
  have hfront : steps (front ++ "/") = steps front := by
    have hempty := steps_append_slash front ""
    rwa [String.append_empty, show steps "" = [] from rfl, List.append_nil] at hempty
  rw [steps_append_slash, hfront]

/-! ### Below another path -/

theorem steps_join (h : isAbsolute lower = false) (upper : String) :
    steps (join upper lower) = steps upper ++ steps lower := by
  rw [join, if_neg (by rw [h]; decide)]
  split
  · next hupper =>
    rcases Bool.or_eq_true_iff.1 hupper with hempty | hslash
    · rw [String.isEmpty_iff] at hempty
      rw [hempty, String.empty_append]
      rfl
    · exact steps_append_of_endsInSlash hslash lower
  · exact steps_append_slash upper lower

theorem isAbsolute_append (h : upper ≠ "") (lower : String) : isAbsolute (upper ++ lower) = isAbsolute upper := by
  rw [isAbsolute, isAbsolute, String.toList_append]
  cases hupper : upper.toList with
  | nil => exact absurd (String.toList_eq_nil_iff.1 hupper) h
  | cons c rest => rfl

theorem isAbsolute_join (h : isAbsolute lower = false) (upper : String) :
    isAbsolute (join upper lower) = isAbsolute upper := by
  rw [join, if_neg (by rw [h]; decide)]
  by_cases hupper : upper = ""
  · rw [hupper, if_pos (by decide), String.empty_append, h]
    rfl
  · split
    · exact isAbsolute_append hupper lower
    · rw [String.append_assoc]
      exact isAbsolute_append hupper _

/-! ### Names -/

theorem isAbsolute_of_slash_not_mem (h : '/' ∉ name.toList) : isAbsolute name = false := by
  rw [isAbsolute, beq_eq_false_iff_ne]
  exact fun hhead => h (List.mem_of_head? hhead)

theorem steps_of_slash_not_mem (h : '/' ∉ name.toList) (hname : name ≠ "") : steps name = [name] := by
  have hpieces : name.toList.splitOnP (· == '/') = [name.toList] :=
    List.splitOnP_eq_singleton fun c hc => beq_eq_false_iff_ne.2 fun heq => h (heq ▸ hc)
  rw [steps, segments, Text.split_eq_splitOnP, hpieces, List.map_singleton, String.ofList_toList]
  exact List.filter_cons_of_pos (bne_iff_ne.2 hname)

/-! ### The first segments -/

def stepsOf (segments : List String) : List String := segments.filter (· != "")

theorem stepsOf_append_of_eq (h : segment = "") (before : List String) :
    stepsOf (before ++ [segment]) = stepsOf before := by
  rw [h, stepsOf, List.filter_append]
  exact List.append_nil _

theorem stepsOf_append_of_ne (h : segment ≠ "") (before : List String) :
    stepsOf (before ++ [segment]) = stepsOf before ++ [segment] := by
  have hsegment : stepsOf [segment] = [segment] := List.filter_cons_of_pos (bne_iff_ne.2 h)
  rw [stepsOf, List.filter_append, ← stepsOf, ← stepsOf, hsegment]

/-- The paths that end with each of the parts among some segments, the longest first. -/
def prefixesOf (segments : List String) : List String :=
  (segments.zipIdx.filter fun (segment, i) => isPart segment i).reverse.map fun (_, i) =>
    "/".intercalate (segments.take (i + 1))

theorem prefixesOf_append (before : List String) (segment : String) :
    prefixesOf (before ++ [segment])
      = (if isPart segment before.length then ["/".intercalate (before ++ [segment])] else []) ++ prefixesOf before := by
  have hbefore : ∀ entry ∈ (before.zipIdx.filter fun (segment, i) => isPart segment i).reverse,
      "/".intercalate ((before ++ [segment]).take (entry.2 + 1)) = "/".intercalate (before.take (entry.2 + 1)) := by
    intro entry hentry
    have hlt := List.snd_lt_of_mem_zipIdx (List.mem_filter.1 (List.mem_reverse.1 hentry)).1
    rw [List.take_append_of_le_length (by omega)]
  rw [prefixesOf, List.zipIdx_append, List.filter_append, List.reverse_append, List.map_append,
    List.map_congr_left hbefore, prefixesOf]
  congr 1
  rw [Nat.zero_add, List.zipIdx_singleton, List.filter_cons, List.filter_nil]
  dsimp only
  split
  · rw [List.reverse_singleton, List.map_singleton, List.take_of_length_le (by simp)]
  · rfl

theorem prefixesOf_append_of_isPart (h : isPart segment before.length = true) :
    prefixesOf (before ++ [segment]) = "/".intercalate (before ++ [segment]) :: prefixesOf before := by
  rw [prefixesOf_append, if_pos h]
  rfl

theorem prefixesOf_append_of_not_isPart (h : ¬ isPart segment before.length = true) :
    prefixesOf (before ++ [segment]) = prefixesOf before := by
  rw [prefixesOf_append, if_neg h]
  rfl

theorem eq_dot_of_not_isPart {i : Nat} (hempty : segment ≠ "") (h : ¬ isPart segment i = true) : segment = "." := by
  rw [isPart, bne_iff_ne.2 hempty, Bool.true_and, Bool.or_eq_true, not_or, bne_iff_ne] at h
  exact Decidable.not_not.1 h.1

theorem tail_ancestors (path : String) : (ancestors path).tail = (prefixesOf (segments path)).tail := by
  change (ancestors path).tail = (prefixes path).tail
  rw [ancestors]
  cases prefixes path <;> rfl

/-- Whether a path ends with a part. -/
def EndsInPart (path : String) : Prop :=
  ∃ before segment, segments path = before ++ [segment] ∧ isPart segment before.length = true

theorem intercalate_segments (path : String) : "/".intercalate (segments path) = path := by
  have hid : String.toList ∘ String.ofList = id := funext fun _ => String.toList_ofList
  rw [← String.toList_inj, String.toList_intercalate, segments, List.map_map, Text.split_eq_splitOnP, hid, List.map_id]
  exact List.intercalate_splitOn '/'

theorem segments_intercalate (h : segments path = before ++ after) (hbefore : before ≠ []) :
    segments ("/".intercalate before) = before := by
  have hslash : ∀ piece ∈ before.map String.toList, '/' ∉ piece := by
    intro piece hpiece hmem
    obtain ⟨segment, hsegment, rfl⟩ := List.mem_map.1 hpiece
    have hsegment : segment ∈ segments path := h ▸ List.mem_append_left _ hsegment
    obtain ⟨between, hbetween, rfl⟩ := List.mem_map.1 hsegment
    rw [String.toList_ofList] at hmem
    exact absurd (Text.not_cut_of_mem_split hbetween _ hmem) (by decide)
  have hpieces := List.splitOn_intercalate '/' hslash (by simpa using hbefore)
  rw [segments, String.toList_intercalate, Text.split_eq_splitOnP]
  exact (congrArg (List.map String.ofList) hpieces).trans (by simp [Function.comp_def])

theorem exists_append_of_segments (h : segments path = before ++ after) (hbefore : before ≠ []) :
    ∃ rest, path = "/".intercalate before ++ rest := by
  cases after with
  | nil => exact ⟨"", by rw [String.append_empty, ← intercalate_segments path, h, List.append_nil]⟩
  | cons segment after =>
      refine ⟨"/" ++ "/".intercalate (segment :: after), ?_⟩
      rw [← intercalate_segments path, h, String.intercalate_append_of_ne_nil hbefore (by simp), String.append_assoc]

theorem exists_prefixesOf_of_endsInPart (h : EndsInPart path) :
    ∃ above, prefixesOf (segments path) = path :: above := by
  obtain ⟨before, segment, hsegments, hpart⟩ := h
  exact ⟨prefixesOf before, by rw [hsegments, prefixesOf_append_of_isPart hpart, ← hsegments, intercalate_segments]⟩

theorem ancestors_of_endsInPart (h : EndsInPart path) : ancestors path = prefixesOf (segments path) := by
  obtain ⟨above, habove⟩ := exists_prefixesOf_of_endsInPart h
  rw [habove, ancestors, show prefixes path = path :: above from habove]

end SheetCompiler.Path

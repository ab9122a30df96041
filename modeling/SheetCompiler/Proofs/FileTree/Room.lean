import Mathlib.Data.List.Induction
import SheetCompiler.Proofs.FileTree.Access

/-!
# Room for files

A file that was written once can be written again in every tree that holds nothing but what a later tree holds as well
(`Within`). There is room for it then: where its directories are missing they can be made, and what lies in their places
or in its own is never something else.
-/

namespace SheetCompiler

namespace FileTree

variable {t t' t'' u room : FileTree} {l m : Location} {path name segment : String} {content c : Bytes}
  {before after names : List String}

/-- Whether the directories and the files of a tree are directories and files of another one too, whatever they hold. -/
structure Within (t room : FileTree) : Prop extends KeepsDirectories t room where
  file : ∀ l, (t.file? l).isSome → (room.file? l).isSome

namespace Within

theorem refl (t : FileTree) : t.Within t := ⟨.refl t, fun _ h => h⟩

theorem trans (h : t.Within t') (h' : t'.Within t'') : t.Within t'' :=
  ⟨h.toKeepsDirectories.trans h'.toKeepsDirectories, fun l hl => h'.file l (h.file l hl)⟩

/-- Where there is room for a directory, there is one or nothing. -/
theorem node?_eq (h : u.Within room) (hl : room.node? l = some .directory) :
    u.node? l = none ∨ u.node? l = some .directory := by
  cases hnode : u.node? l with
  | none => exact .inl rfl
  | some node =>
      cases node with
      | directory => exact .inr rfl
      | file content =>
          have hfile := h.file l (by rw [file?, hnode]; rfl)
          rw [file?, hl] at hfile
          cases hfile

theorem start_eq (h : u.Within room) (path : String) : u.start path = room.start path := by
  rw [start, start, h.workingDirectory]

theorem ne_directory (h : u.Within room) (hl : room.node? l ≠ some .directory) : u.node? l ≠ some .directory :=
  fun hdirectory => hl (h.directory l hdirectory)

theorem put_directory (h : u.Within room) (hnil : l ≠ []) (hl : room.node? l = some .directory) :
    (u.put l .directory).Within room where
  workingDirectory := h.workingDirectory
  directory m hm := by
    rw [node?_put hnil] at hm
    split at hm
    · next heq => rw [heq, hl]
    · exact h.directory m hm
  file m hm := by
    rw [file?_put hnil] at hm
    split at hm
    · cases hm
    · exact h.file m hm

theorem put_file (h : u.Within room) (hl : (room.file? l).isSome) (hnil : l ≠ []) (content : Bytes) :
    (u.put l (.file content)).Within room where
  workingDirectory := h.workingDirectory
  directory m hm := by
    rw [node?_put hnil] at hm
    split at hm
    · cases hm
    · exact h.directory m hm
  file m hm := by
    rw [file?_put hnil] at hm
    split at hm
    · next heq => rwa [heq]
    · exact h.file m hm

/-- A way that is open where there is room for it is open or has an end. -/
theorem foldlM_step_eq (h : u.Within room) :
    ∀ {l : Location}, names.foldlM room.step l = .ok m →
      names.foldlM u.step l = .ok m ∨ names.foldlM u.step l = .error .notFound := by
  induction names with
  | nil => exact fun hl => .inl hl
  | cons name names ih =>
      intro l hl
      obtain ⟨next, hnext, hl⟩ := bind_eq_ok.1 hl
      rcases h.node?_eq (step_eq_ok hnext).1 with hnone | hdirectory
      · refine .inr ?_
        rw [List.foldlM_cons, step, hnone]
        rfl
      · rw [List.foldlM_cons, step_of_directory hnext hdirectory]
        exact ih hl

end Within

theorem Updates.within {change : Location → Option Bytes} (h : Updates change t t') : t.Within t' :=
  ⟨h.keepsDirectories, fun l hl => by
    rw [h.file]
    cases change l with
    | none => exact hl
    | some content => rfl⟩

theorem foldlM_append_singleton :
    (names ++ [name]).foldlM t.step l = .ok m ↔ ∃ next, names.foldlM t.step l = .ok next ∧ t.step next name = .ok m := by
  rw [List.foldlM_append, bind_eq_ok]
  refine exists_congr fun next => and_congr_right fun _ => ?_
  rw [List.foldlM_cons, bind_eq_ok]
  exact ⟨fun ⟨_, hstep, hend⟩ => by cases hend; exact hstep, fun hstep => ⟨m, hstep, rfl⟩⟩

/-! ### Making directories -/

theorem ensureDirectory_of_notFound (h : u.locate path = .error .notFound) :
    u.ensureDirectory path = (.error .notFound, u) := by
  have hmake : u.makeDirectory path = .error .notFound := by
    rw [makeDirectory, h]
    rfl
  rw [ensureDirectory, hmake, isDirectory, h]
  rfl

theorem exists_ensureDirectory (hu : u.Within room) (hl : u.locate path = .ok l)
    (hdirectory : room.node? l = some .directory) :
    ∃ u', u.ensureDirectory path = (.ok (), u') ∧ u'.Within room ∧ u'.locate path = .ok l
      ∧ u'.node? l = some .directory := by
  have hlater := (Updates.of_ensureDirectory u path).locate hl
  rcases hu.node?_eq hdirectory with hnone | hthere
  · have hnil : l ≠ [] := ne_nil_of_node? (by rw [hnone]; nofun)
    have hmake : u.makeDirectory path = .ok (u.put l .directory) := by
      rw [makeDirectory, hl]
      change (if (u.node? l).isSome then _ else _) = _
      rw [hnone]
      rfl
    have hmade : u.ensureDirectory path = (.ok (), u.put l .directory) := by rw [ensureDirectory, hmake]
    rw [hmade] at hlater
    exact ⟨_, hmade, hu.put_directory hnil hdirectory, hlater, by rw [node?_put hnil, if_pos rfl]⟩
  · have hmake : u.makeDirectory path = .error .alreadyExists := by
      rw [makeDirectory, hl]
      change (if (u.node? l).isSome then _ else _) = _
      rw [hthere]
      rfl
    have his : u.isDirectory path = true := by
      rw [isDirectory, hl]
      exact beq_iff_eq.2 hthere
    exact ⟨u, by rw [ensureDirectory, hmake]; dsimp only; rw [if_pos his], hu, hl, hthere⟩

theorem ensureDirectories_cons_of_ok {above : List String} (h : u.ensureDirectory path = (.ok (), t')) :
    u.ensureDirectories (path :: above) = (.ok (), t') := by
  rw [ensureDirectories, h]

theorem ensureDirectories_cons_of_notFound {above : List String} (h : u.ensureDirectory path = (.error .notFound, t))
    (habove : u.ensureDirectories above = (.ok (), t')) :
    u.ensureDirectories (path :: above) = t'.ensureDirectory path := by
  rw [ensureDirectories, h]
  dsimp only
  rw [habove]

theorem isDirectory_iff : t.isDirectory path = true ↔ ∃ l, t.locate path = .ok l ∧ t.node? l = some .directory := by
  rw [isDirectory]
  cases t.locate path with
  | error e => exact ⟨nofun, nofun⟩
  | ok l => exact ⟨fun h => ⟨l, rfl, beq_iff_eq.1 h⟩, fun ⟨_, hl, h⟩ => by cases hl; exact beq_iff_eq.2 h⟩

theorem isDirectory_of_makeDirectory (h : t.makeDirectory path = .ok t') : t'.isDirectory path = true := by
  have hupdates := Updates.of_makeDirectory h
  obtain ⟨l, hl, hnode, rfl⟩ := makeDirectory_eq_ok h
  have hnil : l ≠ [] := ne_nil_of_node? (by rw [hnode]; nofun)
  exact isDirectory_iff.2 ⟨l, hupdates.locate hl, by rw [node?_put hnil, if_pos rfl]⟩

theorem isDirectory_of_ensureDirectory (h : t.ensureDirectory path = (.ok (), t')) : t'.isDirectory path = true := by
  rw [ensureDirectory] at h
  cases hmake : t.makeDirectory path with
  | ok made =>
      rw [hmake] at h
      cases h
      exact isDirectory_of_makeDirectory hmake
  | error e =>
      rw [hmake] at h
      dsimp only at h
      by_cases his : t.isDirectory path = true
      · rw [if_pos his] at h
        cases h
        exact his
      · rw [if_neg his] at h
        cases h

theorem isDirectory_of_ensureDirectories {above : List String}
    (h : t.ensureDirectories (path :: above) = (.ok (), t')) : t'.isDirectory path = true := by
  rw [ensureDirectories] at h
  split at h
  · split at h
    · exact isDirectory_of_ensureDirectory h
    · next hfailed => exact absurd h (hfailed t')
  · exact isDirectory_of_ensureDirectory h

/-! ### The first segments of a path -/

/-- Whether a path is one that can lead somewhere. -/
def Leads (path : String) : Prop :=
  path.toList.contains (Char.ofNat 0) = false ∧ path.isEmpty = false ∧ path.utf8ByteSize ≤ maxPath

theorem locate_of_leads (h : Leads path) (t : FileTree) :
    t.locate path = (Path.steps path).foldlM t.step (t.start path) := by
  obtain ⟨hnul, hempty, hlong⟩ := h
  rw [locate, if_neg (by rw [hnul]; decide), if_neg (by rw [hempty]; decide), if_neg (Nat.not_lt.2 hlong)]

theorem leads_of_locate (h : t.locate path = .ok l) : Leads path := (locate_eq_ok_iff.1 h).1

/-- A path that ends with one of the segments leads where the steps so far lead. -/
theorem locate_intercalate (h : Leads path) (hsegments : Path.segments path = before ++ segment :: after)
    (hsegment : segment ≠ "") (t : FileTree) :
    t.locate ("/".intercalate (before ++ [segment]))
      = (Path.stepsOf (before ++ [segment])).foldlM t.step (t.start path) := by
  have hprefix : Path.segments path = (before ++ [segment]) ++ after := by rw [hsegments]; simp
  have hne : before ++ [segment] ≠ [] := by simp
  have hown := Path.segments_intercalate hprefix hne
  obtain ⟨rest, hrest⟩ := Path.exists_append_of_segments hprefix hne
  generalize "/".intercalate (before ++ [segment]) = front at hown hrest
  have hfront : front ≠ "" := by
    rintro rfl
    have hempty : Path.stepsOf (before ++ [segment]) = [] := by rw [← hown]; decide
    rw [Path.stepsOf_append_of_ne hsegment] at hempty
    simp at hempty
  subst hrest
  obtain ⟨hnul, -, hlong⟩ := h
  have hleads : Leads front := by
    refine ⟨?_, ?_, ?_⟩
    · rw [String.toList_append, List.contains_eq_mem, decide_eq_false_iff_not, List.mem_append, not_or] at hnul
      rw [List.contains_eq_mem, decide_eq_false_iff_not]
      exact hnul.1
    · rw [← Bool.not_eq_true, String.isEmpty_iff]
      exact hfront
    · rw [String.utf8ByteSize_append] at hlong
      omega
  rw [locate_of_leads hleads, Path.steps, hown, start, start, Path.isAbsolute_append hfront]
  rfl

theorem step_eq_self (h : t.step l name = .ok m) (hname : name = ".") : m = l := by
  rw [(step_eq_ok h).2, hname]
  rfl

/-- The directories that the first segments of a path lead through can be made where there is room for them. -/
theorem exists_ensureDirectories (hleads : Leads path) (hu : u.Within room)
    (hstart : u.node? (u.start path) = some .directory) :
    ∀ {before after : List String} {l : Location}, Path.segments path = before ++ after →
      (Path.stepsOf before).foldlM room.step (u.start path) = .ok l → room.node? l = some .directory →
      ∃ u', u.ensureDirectories (Path.prefixesOf before) = (.ok (), u') ∧ u'.Within room
        ∧ (Path.stepsOf before).foldlM u'.step (u.start path) = .ok l ∧ u'.node? l = some .directory := by
  intro before
  induction before using List.reverseRecOn with
  | nil =>
      intro after l _ hl _
      cases hl
      exact ⟨u, rfl, hu, rfl, hstart⟩
  | append_singleton before segment ih =>
      intro after l hsegments hl hdirectory
      rw [List.append_assoc, List.singleton_append] at hsegments
      by_cases hempty : segment = ""
      · rw [Path.stepsOf_append_of_eq hempty] at hl ⊢
        rw [Path.prefixesOf_append_of_not_isPart (by rw [hempty]; simp [Path.isPart])]
        exact ih hsegments hl hdirectory
      have hlocate {v : FileTree} (hv : v.Within room) :
          v.locate ("/".intercalate (before ++ [segment]))
            = (Path.stepsOf before ++ [segment]).foldlM v.step (u.start path) := by
        rw [locate_intercalate hleads hsegments hempty, Path.stepsOf_append_of_ne hempty, hv.start_eq, ← hu.start_eq]
      rw [Path.stepsOf_append_of_ne hempty] at hl ⊢
      obtain ⟨m, hm, hlast⟩ := foldlM_append_singleton.1 hl
      have hmiddle := (step_eq_ok hlast).1
      by_cases hpart : Path.isPart segment before.length = true
      · rw [Path.prefixesOf_append_of_isPart hpart]
        rcases hu.foldlM_step_eq hl with hopen | hclosed
        · obtain ⟨u', hmade, hroom, hway, hthere⟩ :=
            exists_ensureDirectory hu ((hlocate hu).trans hopen) hdirectory
          exact ⟨u', ensureDirectories_cons_of_ok hmade, hroom, (hlocate hroom).symm.trans hway, hthere⟩
        -- The directories above are missing, so they are made first.
        · obtain ⟨u₁, habove, hroom₁, hway₁, hthere₁⟩ := ih hsegments hm hmiddle
          have hopen := (hlocate hroom₁).trans
            (foldlM_append_singleton.2 ⟨m, hway₁, step_of_directory hlast hthere₁⟩)
          obtain ⟨u', hmade, hroom, hway, hthere⟩ := exists_ensureDirectory hroom₁ hopen hdirectory
          have hmissing := ensureDirectory_of_notFound ((hlocate hu).trans hclosed)
          exact ⟨u', (ensureDirectories_cons_of_notFound hmissing habove).trans hmade, hroom,
            (hlocate hroom).symm.trans hway, hthere⟩
      · rw [Path.prefixesOf_append_of_not_isPart hpart]
        obtain ⟨u', hmade, hroom, hway, hthere⟩ := ih hsegments hm hmiddle
        have hself := step_eq_self hlast (Path.eq_dot_of_not_isPart hempty hpart)
        exact ⟨u', hmade, hroom, foldlM_append_singleton.2 ⟨m, hway, step_of_directory hlast hthere⟩,
          by rw [hself]; exact hthere⟩

/-- The way to a file can be opened where there is room for it. -/
theorem exists_openWay (hleads : Leads path) (hu : u.Within room) (hstart : u.node? (u.start path) = some .directory) :
    ∀ {before after : List String} {l : Location}, Path.segments path = before ++ after →
      (Path.stepsOf before).foldlM room.step (u.start path) = .ok l → room.node? l ≠ some .directory →
      ∃ u', u.ensureDirectories (Path.prefixesOf before).tail = (.ok (), u') ∧ u'.Within room
        ∧ (Path.stepsOf before).foldlM u'.step (u.start path) = .ok l := by
  intro before
  induction before using List.reverseRecOn with
  | nil => exact fun _ hl _ => ⟨u, rfl, hu, hl⟩
  | append_singleton before segment ih =>
      intro after l hsegments hl hfile
      rw [List.append_assoc, List.singleton_append] at hsegments
      by_cases hempty : segment = ""
      · rw [Path.stepsOf_append_of_eq hempty] at hl ⊢
        rw [Path.prefixesOf_append_of_not_isPart (by rw [hempty]; simp [Path.isPart])]
        exact ih hsegments hl hfile
      rw [Path.stepsOf_append_of_ne hempty] at hl ⊢
      obtain ⟨m, hm, hlast⟩ := foldlM_append_singleton.1 hl
      have hmiddle := (step_eq_ok hlast).1
      have hpart : Path.isPart segment before.length = true := by
        refine Decidable.byContradiction fun hpart => hfile ?_
        rw [step_eq_self hlast (Path.eq_dot_of_not_isPart hempty hpart)]
        exact hmiddle
      obtain ⟨u', hmade, hroom, hway, hthere⟩ := exists_ensureDirectories hleads hu hstart hsegments hm hmiddle
      refine ⟨u', ?_, hroom, foldlM_append_singleton.2 ⟨m, hway, step_of_directory hlast hthere⟩⟩
      rw [Path.prefixesOf_append_of_isPart hpart]
      exact hmade

/-! ### Writing files -/

def HasWorkingDirectory (t : FileTree) : Prop := t.node? t.workingDirectory = some .directory

theorem HasWorkingDirectory.of_keepsDirectories (h : t.HasWorkingDirectory) (h' : KeepsDirectories t t') :
    t'.HasWorkingDirectory := by
  rw [HasWorkingDirectory, h'.workingDirectory]
  exact h'.directory _ h

theorem HasWorkingDirectory.node?_start (h : t.HasWorkingDirectory) (path : String) :
    t.node? (t.start path) = some .directory := by
  rw [start]
  split
  · rfl
  · exact h

end FileTree

open FileTree in
/-- A file that can be read where there is room for it can be written. -/
theorem FileM.exists_writeWithParents {u room : FileTree} {path : String} (hread : Succeeds (room.read path))
    (hu : u.Within room) (hstart : u.HasWorkingDirectory) (content : Bytes) :
    ∃ u', writeWithParents path content u = (.ok (), u') ∧ u'.Within room := by
  obtain ⟨old, hread⟩ := hread
  obtain ⟨l, hl, hfile, hslash⟩ := read_eq_ok_iff.1 hread
  have hleads := leads_of_locate hl
  have hdirectory : room.node? l ≠ some .directory := fun hno => by
    rw [file?, hno] at hfile
    cases hfile
  have hsome : (room.file? l).isSome := by rw [hfile]; rfl
  rw [locate_of_leads hleads, ← hu.start_eq] at hl
  obtain ⟨u₁, hmade, hroom, hway⟩ := exists_openWay hleads hu (hstart.node?_start path)
    (List.append_nil _).symm hl hdirectory
  have hlocate : u₁.locate path = .ok l := by
    rw [locate_of_leads hleads, hroom.start_eq, ← hu.start_eq]
    exact hway
  have hwrite : u₁.write path content = .ok (u₁.put l (.file content)) := by
    rw [FileTree.write, hlocate]
    change (if (u₁.node? l == some .directory || Path.endsInSlash path) = true then _ else _) = _
    rw [hslash, Bool.or_false, if_neg fun hno => hroom.ne_directory hdirectory (beq_iff_eq.1 hno)]
    rfl
  have hcreate : createParent path u = (.ok (), u₁) := by
    rw [createParent, Path.tail_ancestors]
    exact hmade
  refine ⟨_, (bind_of_ok hcreate).trans ?_, hroom.put_file hsome (ne_nil_of_node? hdirectory) content⟩
  rw [FileM.write, hwrite]

open FileTree in
/-- A directory that is there where there is room for it can be made. -/
theorem FileM.exists_createDirectory {u room : FileTree} {path : String} (hpath : Path.EndsInPart path)
    (hroom : room.isDirectory path = true) (hu : u.Within room) (hstart : u.HasWorkingDirectory) :
    ∃ u', createDirectory path u = (.ok (), u') ∧ u'.Within room := by
  obtain ⟨l, hl, hdirectory⟩ := isDirectory_iff.1 hroom
  have hleads := leads_of_locate hl
  rw [locate_of_leads hleads, ← hu.start_eq] at hl
  obtain ⟨u', hmade, hwithin, -⟩ := exists_ensureDirectories hleads hu (hstart.node?_start path)
    (List.append_nil _).symm hl hdirectory
  refine ⟨u', ?_, hwithin⟩
  rw [createDirectory, Path.ancestors_of_endsInPart hpath]
  exact hmade

end SheetCompiler

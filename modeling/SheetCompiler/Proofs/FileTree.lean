import SheetCompiler.FileTree
import SheetCompiler.Proofs.Outcome
import SheetCompiler.Proofs.Path

/-!
# What file operations change

No operation takes a directory away or moves the place where relative paths begin. A path that leads somewhere
therefore leads there for good, and where it leads can be told from its steps alone (`place`). Making directories
changes no file, and writing a file changes what is read at those paths only that lead to the same place (`Updates`).
Of files that are written one after another, the last at a place is what is read there (`Writes`).
-/

namespace SheetCompiler

def FileNode.content? : FileNode → Option Bytes
  | .directory => none
  | .file content => some content

namespace FileTree

variable {t t' t'' : FileTree} {w l m : Location} {node : FileNode} {path p name : String} {content c : Bytes}

/-! ### Nodes -/

theorem lookup_insert (l : Location) (node : FileNode) (nodes : List (Location × FileNode)) (m : Location) :
    (insert l node nodes).lookup m = if m = l then some node else nodes.lookup m := by
  have hcons : ∀ (k : Location) (old : FileNode) (rest : List (Location × FileNode)),
      ((k, old) :: rest).lookup m = if m = k then some old else rest.lookup m := by
    intro k old rest
    by_cases h : m = k
    · rw [h, List.lookup_cons_self, if_pos rfl]
    · rw [List.lookup_cons, beq_eq_false_iff_ne.2 h, if_neg h]
  induction nodes with
  | nil => exact hcons l node []
  | cons entry rest ih =>
      obtain ⟨k, old⟩ := entry
      rw [insert]
      by_cases hk : k = l
      · rw [if_pos hk, hcons, hcons, hk]
        split <;> rfl
      · rw [if_neg hk, hcons, hcons, ih]
        by_cases hm : m = k
        · rw [if_pos hm, if_neg (hm ▸ hk), if_pos hm]
        · rw [if_neg hm, if_neg hm]

theorem node?_put (hl : l ≠ []) (m : Location) :
    (t.put l node).node? m = if m = l then some node else t.node? m := by
  cases m with
  | nil => exact (if_neg fun h => hl h.symm).symm
  | cons name names => exact lookup_insert l node t.nodes (name :: names)

def file? (t : FileTree) (l : Location) : Option Bytes := (t.node? l).bind FileNode.content?

theorem file?_put (hl : l ≠ []) (m : Location) :
    (t.put l node).file? m = if m = l then node.content? else t.file? m := by
  rw [file?, node?_put hl]
  split <;> rfl

/-! ### Where paths lead -/

/-- Where a step leads from a directory. -/
def advance (l : Location) (name : String) : Location :=
  if name == "." then l else if name == ".." then l.dropLast else l ++ [name]

/-- Where a path leads if all that it passes through are directories. -/
def place (w : Location) (path : String) : Location :=
  (Path.steps path).foldl advance (if Path.isAbsolute path then [] else w)

theorem place_join (hslash : '/' ∉ name.toList) (hname : name ∉ ["", ".", ".."]) (w : Location) (directory : String) :
    place w (Path.join directory name) = place w directory ++ [name] := by
  simp only [List.mem_cons, List.not_mem_nil, or_false, not_or] at hname
  obtain ⟨hempty, hdot, hup⟩ := hname
  have hrelative := Path.isAbsolute_of_slash_not_mem hslash
  rw [place, Path.steps_join hrelative, Path.isAbsolute_join hrelative, Path.steps_of_slash_not_mem hslash hempty,
    List.foldl_append, List.foldl_cons, List.foldl_nil, advance, if_neg (by simpa using hdot),
    if_neg (by simpa using hup)]
  rfl

theorem step_eq_ok (h : t.step l name = .ok m) : t.node? l = some .directory ∧ m = advance l name := by
  rw [step] at h
  split at h
  · cases h
  · cases h
  · next hdir =>
    refine ⟨hdir, ?_⟩
    rw [advance]
    by_cases hdot : (name == ".") = true
    · rw [if_pos hdot] at h ⊢
      cases h
      rfl
    · rw [if_neg hdot] at h ⊢
      by_cases hup : (name == "..") = true
      · rw [if_pos hup] at h ⊢
        cases h
        rfl
      · rw [if_neg hup] at h ⊢
        split at h
        · cases h
        · cases h
          rfl

theorem place_of_foldlM_step {names : List String} : ∀ {l : Location}, names.foldlM t.step l = .ok m →
    m = names.foldl advance l := by
  induction names with
  | nil => exact fun h => by cases h; rfl
  | cons name names ih =>
      intro l h
      obtain ⟨next, hnext, h⟩ := bind_eq_ok.1 h
      rw [ih h, (step_eq_ok hnext).2, List.foldl_cons]

theorem locate_eq_ok_iff : t.locate path = .ok l ↔
    (path.toList.contains (Char.ofNat 0) = false ∧ path.isEmpty = false ∧ path.utf8ByteSize ≤ maxPath)
      ∧ (Path.steps path).foldlM t.step (t.start path) = .ok l := by
  rw [locate]
  split
  · next hnul => exact ⟨nofun, fun ⟨⟨hno, _⟩, _⟩ => absurd hnul (by rw [hno]; decide)⟩
  split
  · next hempty => exact ⟨nofun, fun ⟨⟨_, hno, _⟩, _⟩ => absurd hempty (by rw [hno]; decide)⟩
  split
  · next hlong => exact ⟨nofun, fun ⟨⟨_, _, hno⟩, _⟩ => absurd hlong (Nat.not_lt.2 hno)⟩
  · next hnul hempty hlong =>
    exact (and_iff_right ⟨Bool.not_eq_true _ ▸ hnul, Bool.not_eq_true _ ▸ hempty, Nat.not_lt.1 hlong⟩).symm

theorem eq_place (h : t.locate path = .ok l) : l = place t.workingDirectory path :=
  place_of_foldlM_step (locate_eq_ok_iff.1 h).2

theorem read_eq_ok_iff : t.read path = .ok c ↔
    ∃ l, t.locate path = .ok l ∧ t.file? l = some c ∧ Path.endsInSlash path = false := by
  rw [read, bind_eq_ok]
  refine exists_congr fun l => and_congr_right fun _ => ?_
  rw [file?]
  cases t.node? l with
  | none => exact ⟨nofun, nofun⟩
  | some node =>
      cases node with
      | directory => exact ⟨nofun, nofun⟩
      | file content => cases hslash : Path.endsInSlash path <;> simp [FileNode.content?]

theorem write_eq_ok (h : t.write path content = .ok t') :
    ∃ l, t.locate path = .ok l ∧ t.node? l ≠ some .directory ∧ Path.endsInSlash path = false
      ∧ t' = t.put l (.file content) := by
  obtain ⟨l, hl, h⟩ := bind_eq_ok.1 h
  by_cases hno : (t.node? l == some .directory || Path.endsInSlash path) = true
  · rw [if_pos hno] at h
    cases h
  · rw [if_neg hno] at h
    rw [Bool.or_eq_true, beq_iff_eq, not_or, Bool.not_eq_true] at hno
    cases h
    exact ⟨l, hl, hno.1, hno.2, rfl⟩

theorem makeDirectory_eq_ok (h : t.makeDirectory path = .ok t') :
    ∃ l, t.locate path = .ok l ∧ t.node? l = none ∧ t' = t.put l .directory := by
  obtain ⟨l, hl, h⟩ := bind_eq_ok.1 h
  cases hnode : t.node? l with
  | some node =>
      rw [hnode] at h
      cases h
  | none =>
      rw [hnode] at h
      cases h
      exact ⟨l, hl, hnode, rfl⟩

theorem step_of_directory (h : t.step l name = .ok m) (hdir : t'.node? l = some .directory) :
    t'.step l name = .ok m := by
  rw [FileTree.step, (step_eq_ok h).1] at h
  rw [FileTree.step, hdir]
  exact h

/-! ### Trees that grow -/

/-- Whether all directories of a tree are still there in another one, and relative paths begin where they did. -/
structure KeepsDirectories (t t' : FileTree) : Prop where
  workingDirectory : t'.workingDirectory = t.workingDirectory
  directory : ∀ l, t.node? l = some .directory → t'.node? l = some .directory

namespace KeepsDirectories

theorem refl (t : FileTree) : KeepsDirectories t t := ⟨rfl, fun _ h => h⟩

theorem trans (h : KeepsDirectories t t') (h' : KeepsDirectories t' t'') : KeepsDirectories t t'' :=
  ⟨h'.workingDirectory.trans h.workingDirectory, fun l hl => h'.directory l (h.directory l hl)⟩

theorem foldlM_step (h : KeepsDirectories t t') {names : List String} :
    ∀ {l : Location}, names.foldlM t.step l = .ok m → names.foldlM t'.step l = .ok m := by
  induction names with
  | nil => exact fun hl => hl
  | cons name names ih =>
      intro l hl
      obtain ⟨next, hnext, hl⟩ := bind_eq_ok.1 hl
      exact bind_eq_ok.2 ⟨next, step_of_directory hnext (h.directory l (step_eq_ok hnext).1), ih hl⟩

theorem locate (h : KeepsDirectories t t') (hl : t.locate path = .ok l) : t'.locate path = .ok l := by
  obtain ⟨hpath, hl⟩ := locate_eq_ok_iff.1 hl
  refine locate_eq_ok_iff.2 ⟨hpath, ?_⟩
  rw [start, h.workingDirectory]
  exact h.foldlM_step hl

end KeepsDirectories

/-! ### What changes -/

/-- Whether a tree has come of another one by making directories and by giving contents to files, those that
`change` has. -/
structure Updates (change : Location → Option Bytes) (t t' : FileTree) : Prop where
  workingDirectory : t'.workingDirectory = t.workingDirectory
  directory : ∀ l, t.node? l = some .directory → t'.node? l = some .directory
  file : ∀ l, t'.file? l = (change l).or (t.file? l)

namespace Updates

variable {change change' : Location → Option Bytes}

theorem refl (t : FileTree) : Updates (fun _ => none) t t := ⟨rfl, fun _ h => h, fun _ => rfl⟩

theorem trans (h : Updates change t t') (h' : Updates change' t' t'') :
    Updates (fun l => (change' l).or (change l)) t t'' where
  workingDirectory := h'.workingDirectory.trans h.workingDirectory
  directory l hl := h'.directory l (h.directory l hl)
  file l := by rw [h'.file, h.file, Option.or_assoc]

theorem keepsDirectories (h : Updates change t t') : KeepsDirectories t t' := ⟨h.workingDirectory, h.directory⟩

theorem locate (h : Updates change t t') (hl : t.locate path = .ok l) : t'.locate path = .ok l :=
  h.keepsDirectories.locate hl

theorem read (h : Updates change t t') (hread : t.read path = .ok c) :
    t'.read path = .ok ((change (place t.workingDirectory path)).getD c) := by
  obtain ⟨l, hl, hc, hslash⟩ := read_eq_ok_iff.1 hread
  refine read_eq_ok_iff.2 ⟨l, h.locate hl, ?_, hslash⟩
  rw [h.file, hc, eq_place hl]
  cases change (place t.workingDirectory path) <;> rfl

end Updates

def only (l : Location) (content : Bytes) : Location → Option Bytes :=
  fun m => if m = l then some content else none

theorem ne_nil_of_node? (h : t.node? l ≠ some .directory) : l ≠ [] := fun hl => h (hl ▸ rfl)

theorem Updates.of_put (h : t.node? l ≠ some .directory) (content : Bytes) :
    Updates (only l content) t (t.put l (.file content)) where
  workingDirectory := rfl
  directory m hm := by
    have hne : m ≠ l := fun hml => h (hml ▸ hm)
    rw [node?_put (ne_nil_of_node? h), if_neg hne]
    exact hm
  file m := by
    rw [file?_put (ne_nil_of_node? h), only]
    split <;> rfl

theorem Updates.of_write (h : t.write path content = .ok t') :
    Updates (only (place t.workingDirectory path) content) t t' := by
  obtain ⟨l, hl, hdir, -, rfl⟩ := write_eq_ok h
  rw [← eq_place hl]
  exact of_put hdir content

theorem read_of_write (h : t.write path content = .ok t') : t'.read path = .ok content := by
  have hupdates := Updates.of_write h
  obtain ⟨l, hl, -, hslash, -⟩ := write_eq_ok h
  refine read_eq_ok_iff.2 ⟨l, hupdates.locate hl, ?_, hslash⟩
  rw [hupdates.file, ← eq_place hl, only, if_pos rfl, Option.some_or]

theorem Updates.of_makeDirectory (h : t.makeDirectory path = .ok t') : Updates (fun _ => none) t t' := by
  obtain ⟨l, -, hnode, rfl⟩ := makeDirectory_eq_ok h
  have hnil : l ≠ [] := ne_nil_of_node? (by rw [hnode]; nofun)
  refine ⟨rfl, fun m hm => ?_, fun m => ?_⟩
  · rw [node?_put hnil]
    split
    · rfl
    · exact hm
  · rw [file?_put hnil]
    split
    · next hm => rw [hm, file?, hnode]; rfl
    · rfl

theorem Updates.of_ensureDirectory (t : FileTree) (path : String) :
    Updates (fun _ => none) t (t.ensureDirectory path).2 := by
  rw [ensureDirectory]
  split
  · next h => exact of_makeDirectory h
  · exact refl t

theorem Updates.of_ensureDirectories (paths : List String) :
    ∀ t : FileTree, Updates (fun _ => none) t (t.ensureDirectories paths).2 := by
  induction paths with
  | nil => exact refl
  | cons path above ih =>
      intro t
      rw [ensureDirectories]
      split
      · next habove =>
        have hupdates := ih t
        split
        · next t' hdone =>
          rw [hdone] at hupdates
          exact hupdates.trans (of_ensureDirectory t' path)
        · exact hupdates
      · exact of_ensureDirectory t path

/-! ### Files that are written one after another -/

/-- What the last of some files leaves at a location, where one of them belongs there. -/
def leftAt (w : Location) : List (String × Bytes) → Location → Option Bytes
  | [], _ => none
  | (path, content) :: files, l => (leftAt w files l).or (only (place w path) content l)

theorem leftAt_append (files more : List (String × Bytes)) (l : Location) :
    leftAt w (files ++ more) l = (leftAt w more l).or (leftAt w files l) := by
  induction files with
  | nil => exact (Option.or_none).symm
  | cons file files ih => rw [List.cons_append, leftAt, ih, leftAt, Option.or_assoc]

theorem leftAt_eq_none {files : List (String × Bytes)} (h : ∀ file ∈ files, place w file.1 ≠ l) :
    leftAt w files l = none := by
  induction files with
  | nil => rfl
  | cons file files ih =>
      obtain ⟨hfile, hfiles⟩ := List.forall_mem_cons.1 h
      rw [leftAt, ih hfiles, only, if_neg hfile.symm, Option.none_or]

theorem exists_leftAt {files : List (String × Bytes)} (h : (path, content) ∈ files) :
    ∃ left, leftAt w files (place w path) = some left := by
  induction files with
  | nil => cases h
  | cons file files ih =>
      rw [leftAt]
      rcases List.mem_cons.1 h with rfl | h
      · cases leftAt w files (place w path) with
        | some left => exact ⟨left, rfl⟩
        | none => exact ⟨content, if_pos rfl⟩
      · obtain ⟨left, hleft⟩ := ih h
        exact ⟨left, by rw [hleft, Option.some_or]⟩

/-- Whether files are written one after another on the way from one tree to another, and nothing else happens to those
at the paths that are `Known`. -/
structure Writes (Known : String → Prop) (files : List (String × Bytes)) (t t' : FileTree) : Prop where
  workingDirectory : t'.workingDirectory = t.workingDirectory
  read : ∀ path content, Known path → t.read path = .ok content ∨ (path, content) ∈ files →
    t'.read path = .ok ((leftAt t.workingDirectory files (place t.workingDirectory path)).getD content)

namespace Writes

variable {Known : String → Prop} {files more : List (String × Bytes)}

theorem refl (t : FileTree) : Writes Known [] t t :=
  ⟨rfl, fun _ _ _ h => h.elim id nofun⟩

theorem trans (h : Writes Known files t t') (h' : Writes Known more t' t'') :
    Writes Known (files ++ more) t t'' where
  workingDirectory := h'.workingDirectory.trans h.workingDirectory
  read path content hknown hor := by
    have hlater := h'.read path
    rw [h.workingDirectory] at hlater
    rw [leftAt_append]
    have hthrough (hor : t.read path = .ok content ∨ (path, content) ∈ files) :
        t''.read path = .ok (((leftAt t.workingDirectory more (place t.workingDirectory path)).or
          (leftAt t.workingDirectory files (place t.workingDirectory path))).getD content) := by
      rw [hlater _ hknown (.inl (h.read path content hknown hor)), Option.getD_or]
    rcases hor with hread | hmem
    · exact hthrough (.inl hread)
    · rcases List.mem_append.1 hmem with hmem | hmem
      · exact hthrough (.inr hmem)
      · obtain ⟨left, hleft⟩ := exists_leftAt hmem
        rw [hlater content hknown (.inr hmem), hleft]
        rfl

theorem of_updates (h : Updates (only (place t.workingDirectory path) content) t t')
    (hread : t'.read path = .ok content) : Writes Known [(path, content)] t t' where
  workingDirectory := h.workingDirectory
  read p c _ hor := by
    rcases hor with hp | hmem
    · exact h.read hp
    · cases List.mem_singleton.1 hmem
      rw [hread, leftAt, only, if_pos rfl]
      rfl

/-- What is written can be read, so its path leads to its place. -/
theorem locate (h : Writes Known files t t') (hmem : (path, content) ∈ files) (hknown : Known path) :
    t'.locate path = .ok (place t.workingDirectory path) := by
  obtain ⟨l, hl, -⟩ := read_eq_ok_iff.1 (h.read path content hknown (.inr hmem))
  rw [hl, eq_place hl, h.workingDirectory]

/-- The last file at a place is what is read there. -/
theorem read_of_last {before after : List (String × Bytes)}
    (h : Writes Known (before ++ (path, content) :: after) t t') (hknown : Known path)
    (hlast : ∀ file ∈ after, place t.workingDirectory file.1 ≠ place t.workingDirectory path) :
    t'.read path = .ok content := by
  have hmem : (path, content) ∈ before ++ (path, content) :: after := List.mem_append_right _ List.mem_cons_self
  rw [h.read path content hknown (.inr hmem), leftAt_append, leftAt, leftAt_eq_none hlast, only, if_pos rfl]
  rfl

end Writes

end FileTree

namespace FileM

open FileTree

variable {ε ε' α β : Type} {t t' t'' : FileTree} {path : String} {content : Bytes}

theorem bind_eq_ok {x : FileM ε α} {f : α → FileM ε β} {b : β} :
    (x >>= f) t = (.ok b, t'') ↔ ∃ a t', x t = (.ok a, t') ∧ f a t' = (.ok b, t'') := by
  have hbind : (x >>= f) t = (ExceptT.bindCont f (x t).1 : StateM FileTree (Except ε β)) (x t).2 := rfl
  rw [hbind]
  obtain ⟨outcome, t'⟩ := x t
  cases outcome with
  | error e => exact ⟨fun h => (by cases h), fun ⟨_, _, h, _⟩ => by cases h⟩
  | ok a => exact ⟨fun h => ⟨a, t', rfl, h⟩, fun ⟨_, _, h, hb⟩ => by cases h; exact hb⟩

theorem bind_eq_error {x : FileM ε α} {f : α → FileM ε β} {e : ε} :
    (x >>= f) t = (.error e, t'') ↔ x t = (.error e, t'') ∨ ∃ a t', x t = (.ok a, t') ∧ f a t' = (.error e, t'') := by
  have hbind : (x >>= f) t = (ExceptT.bindCont f (x t).1 : StateM FileTree (Except ε β)) (x t).2 := rfl
  rw [hbind]
  obtain ⟨outcome, t'⟩ := x t
  cases outcome with
  | error e' => exact ⟨fun h => by cases h; exact .inl rfl, fun h => by
      rcases h with h | ⟨_, _, h, _⟩ <;> cases h
      rfl⟩
  | ok a => exact ⟨fun h => .inr ⟨a, t', rfl, h⟩, fun h => by
      rcases h with h | ⟨_, _, h, hb⟩ <;> cases h
      exact hb⟩

theorem bind_of_ok {x : FileM ε α} {f : α → FileM ε β} {a : α} (h : x t = (.ok a, t')) : (x >>= f) t = f a t' := by
  change (ExceptT.bindCont f (x t).1 : StateM FileTree (Except ε β)) (x t).2 = _
  rw [h]
  rfl

theorem bind_of_error {x : FileM ε α} {f : α → FileM ε β} {e : ε} (h : x t = (.error e, t')) :
    (x >>= f) t = (.error e, t') := by
  change (ExceptT.bindCont f (x t).1 : StateM FileTree (Except ε β)) (x t).2 = _
  rw [h]
  rfl

theorem eq_ok_of_fst {x : FileM ε α} {a : α} (h : (x t).1 = .ok a) : x t = (.ok a, (x t).2) :=
  Prod.ext h rfl

theorem mapError_eq_ok {x : FileM ε α} {f : ε → ε'} {a : α} :
    x.mapError f t = (.ok a, t') ↔ x t = (.ok a, t') := by
  rw [mapError]
  obtain ⟨outcome, t'⟩ := x t
  rw [Prod.mk.injEq, Prod.mk.injEq, SheetCompiler.mapError_eq_ok]

theorem mapError_of_ok {x : FileM ε α} {a : α} (h : x t = (.ok a, t')) (f : ε → ε') :
    x.mapError f t = (.ok a, t') :=
  mapError_eq_ok.2 h

theorem mapError_of_error {x : FileM ε α} {e : ε} (h : x t = (.error e, t')) (f : ε → ε') :
    x.mapError f t = (.error (f e), t') := by
  rw [mapError, h]
  rfl

theorem mapError_eq_error {x : FileM ε α} {f : ε → ε'} {e' : ε'} :
    x.mapError f t = (.error e', t') ↔ ∃ e, e' = f e ∧ x t = (.error e, t') := by
  rw [mapError]
  rcases x t with ⟨e | a, t₁⟩
  · constructor
    · intro h
      cases h
      exact ⟨e, rfl, rfl⟩
    · rintro ⟨_, rfl, h⟩
      cases h
      rfl
  · constructor
    · intro h
      cases h
    · rintro ⟨_, -, h⟩
      cases h

theorem exists_error_of_mapError {x : FileM ε α} {f : ε → ε'} {e' : ε'} (h : (x t).1.mapError f = .error e') :
    ∃ e t', f e = e' ∧ x t = (.error e, t') := by
  obtain ⟨e, rfl, hran⟩ := mapError_eq_error.1 (Prod.ext h rfl : x.mapError f t = (.error e', (x t).2))
  exact ⟨e, _, rfl, hran⟩

theorem get_bind (f : FileTree → FileM ε α) (t : FileTree) : ((get : FileM ε FileTree) >>= f) t = f t t := rfl

theorem ofExcept_eq_ok {x : Except ε α} {a : α} :
    (ofExcept x : FileM ε α) t = (.ok a, t') ↔ x = .ok a ∧ t = t' := by
  rw [ofExcept, Prod.mk.injEq]

theorem pure_eq_ok {a b : α} : (pure a : FileM ε α) t = (.ok b, t') ↔ a = b ∧ t = t' := by
  change ((Except.ok a, t) : Except ε α × FileTree) = _ ↔ _
  rw [Prod.mk.injEq, Except.ok.injEq]

theorem updates_createParent (h : createParent path t = (.ok (), t')) : Updates (fun _ => none) t t' := by
  have hupdates := Updates.of_ensureDirectories (Path.ancestors path).tail t
  rwa [show t.ensureDirectories (Path.ancestors path).tail = (.ok (), t') from h] at hupdates

theorem write_eq_ok (h : write path content t = (.ok (), t')) : t.write path content = .ok t' := by
  rw [write] at h
  cases hwrite : t.write path content with
  | error e =>
      rw [hwrite] at h
      cases h
  | ok t₁ =>
      rw [hwrite] at h
      cases h
      rfl

/-- The file has its content afterwards, and no other file has changed. -/
theorem writeWithParents_eq_ok (h : writeWithParents path content t = (.ok (), t')) :
    Updates (only (place t.workingDirectory path) content) t t' ∧ t'.read path = .ok content := by
  obtain ⟨_, t₁, hparent, hwrite⟩ := bind_eq_ok.1 h
  have hmade := updates_createParent hparent
  have hwritten := Updates.of_write (write_eq_ok hwrite)
  rw [hmade.workingDirectory] at hwritten
  have hboth := hmade.trans hwritten
  simp only [Option.or_none] at hboth
  exact ⟨hboth, read_of_write (write_eq_ok hwrite)⟩

end FileM

end SheetCompiler

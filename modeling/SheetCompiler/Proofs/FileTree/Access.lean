import SheetCompiler.Proofs.FileTree

/-!
# What a path gives access to

A path gives access to what lies at its place only where all directories on the way are there. Where they are, or where
nothing lies at the place, what is read by the path depends on the file at its place alone, as if files were a map from
paths to contents (`Clear`).
-/

namespace SheetCompiler.FileTree

variable {t t' : FileTree} {l : Location} {path name : String} {content c : Bytes}

/-- Whether the way that a path takes is open, or no file lies at its end. -/
def Clear (t : FileTree) (path : String) : Prop :=
  Succeeds (t.locate path) ∨ t.file? (place t.workingDirectory path) = none

theorem read_eq_ok_of_locate (h : t.locate path = .ok l) :
    t.read path = .ok c ↔ t.file? l = some c ∧ Path.endsInSlash path = false := by
  rw [read_eq_ok_iff]
  refine ⟨fun ⟨m, hm, hfile⟩ => ?_, fun hfile => ⟨l, h, hfile⟩⟩
  cases h.symm.trans hm
  exact hfile

theorem file?_of_read (h : t.read path = .ok c) : t.file? (place t.workingDirectory path) = some c := by
  obtain ⟨l, hl, hfile, -⟩ := read_eq_ok_iff.1 h
  rwa [← eq_place hl]

/-- The same is read by a path in trees that have the same file at its place, unless the way is open in one of them
only. -/
theorem read_congr (hdirectory : t'.workingDirectory = t.workingDirectory)
    (hfile : t'.file? (place t.workingDirectory path) = t.file? (place t.workingDirectory path))
    (hopen : Succeeds (t.locate path) ∧ Succeeds (t'.locate path) ∨ t.file? (place t.workingDirectory path) = none) :
    t'.read path = .ok c ↔ t.read path = .ok c := by
  rcases hopen with ⟨⟨l, hl⟩, l', hl'⟩ | hnone
  · rw [read_eq_ok_of_locate hl, read_eq_ok_of_locate hl', eq_place hl, eq_place hl', hdirectory, hfile]
  · constructor
    · intro hread
      have hsome := file?_of_read hread
      rw [hdirectory, hfile, hnone] at hsome
      cases hsome
    · intro hread
      have hsome := file?_of_read hread
      rw [hnone] at hsome
      cases hsome

/-! ### Errors

No operation but reading a text finds that a file is no text.
-/

/-- Whether an outcome is no complaint about a text. -/
def IsFileOutcome {α : Type} (x : Except FileError α) : Prop := Ends (fun _ => True) (· ≠ .notUtf8) x

theorem isFileOutcome_step (t : FileTree) (l : Location) (name : String) : IsFileOutcome (t.step l name) := by
  rw [IsFileOutcome, step]
  split
  · exact FileError.noConfusion
  · exact FileError.noConfusion
  · split
    · trivial
    split
    · trivial
    split
    · exact FileError.noConfusion
    · trivial

theorem isFileOutcome_foldlM (t : FileTree) (names : List String) : ∀ l, IsFileOutcome (names.foldlM t.step l) := by
  induction names with
  | nil => exact fun _ => trivial
  | cons name names ih => exact fun l => (isFileOutcome_step t l name).bind fun m _ => ih m

theorem isFileOutcome_locate (t : FileTree) (path : String) : IsFileOutcome (t.locate path) := by
  rw [locate]
  split
  · exact FileError.noConfusion
  split
  · exact FileError.noConfusion
  split
  · exact FileError.noConfusion
  · exact isFileOutcome_foldlM t _ _

theorem isFileOutcome_write (t : FileTree) (path : String) (content : Bytes) : IsFileOutcome (t.write path content) := by
  refine (isFileOutcome_locate t path).bind fun l _ => ?_
  split
  · exact FileError.noConfusion
  · trivial

theorem isFileOutcome_makeDirectory (t : FileTree) (path : String) : IsFileOutcome (t.makeDirectory path) := by
  refine (isFileOutcome_locate t path).bind fun l _ => ?_
  split
  · exact FileError.noConfusion
  · trivial

theorem isFileOutcome_ensureDirectory (t : FileTree) (path : String) : IsFileOutcome (t.ensureDirectory path).1 := by
  have hmade := isFileOutcome_makeDirectory t path
  rw [ensureDirectory]
  cases houtcome : t.makeDirectory path with
  | ok t' => trivial
  | error e =>
      rw [houtcome] at hmade
      dsimp only
      split
      · trivial
      · exact hmade

theorem isFileOutcome_ensureDirectories (paths : List String) :
    ∀ t : FileTree, IsFileOutcome (t.ensureDirectories paths).1 := by
  induction paths with
  | nil => exact fun _ => trivial
  | cons path above ih =>
      intro t
      rw [ensureDirectories]
      split
      · split
        · exact isFileOutcome_ensureDirectory _ path
        · exact ih t
      · exact isFileOutcome_ensureDirectory t path

end SheetCompiler.FileTree

namespace SheetCompiler.FileM

open FileTree

theorem isFileOutcome_writeWithParents (path : String) (content : Bytes) (t : FileTree) :
    IsFileOutcome (writeWithParents path content t).1 := by
  have hparent := isFileOutcome_ensureDirectories (Path.ancestors path).tail t
  cases hmade : createParent path t with
  | mk outcome t' =>
      rw [show t.ensureDirectories (Path.ancestors path).tail = (outcome, t') from hmade] at hparent
      cases outcome with
      | error e =>
          rw [writeWithParents, bind_of_error hmade]
          exact hparent
      | ok _ =>
          have hwrite := isFileOutcome_write t' path content
          rw [writeWithParents, bind_of_ok hmade, write]
          cases houtcome : t'.write path content with
          | ok t'' => trivial
          | error e =>
              rw [houtcome] at hwrite
              exact hwrite

end SheetCompiler.FileM

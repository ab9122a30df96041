import SheetCompiler.Proofs.FileTree

/-!
# What computations leave alone

A computation on files is followed through its errors as well as through its results: whether it keeps the file at a
location is asked whatever comes of it (`Keeps`), and a chain keeps what its steps keep.
-/

namespace SheetCompiler.FileM

open FileTree

variable {ε ε' α β : Type} {w l : Location} {path : String}

/-- Whether a computation leaves the file at a location as it is, whatever comes of it, where relative paths begin at
`w`. -/
def Keeps (w l : Location) (x : FileM ε α) : Prop :=
  ∀ t, t.workingDirectory = w → (x t).2.workingDirectory = w ∧ (x t).2.file? l = t.file? l

theorem keeps_of_updates {x : FileM ε α} (h : ∀ t, Updates (fun _ => none) t (x t).2) : Keeps w l x :=
  fun t ht => ⟨(h t).workingDirectory.trans ht, (h t).file l⟩

namespace Keeps

theorem pure (a : α) : Keeps w l (Pure.pure a : FileM ε α) := keeps_of_updates .refl

theorem ofExcept (x : Except ε α) : Keeps w l (ofExcept x : FileM ε α) := keeps_of_updates .refl

theorem bind {x : FileM ε α} {f : α → FileM ε β} (hx : Keeps w l x) (hf : ∀ a, Keeps w l (f a)) :
    Keeps w l (x >>= f) := by
  intro t ht
  obtain ⟨hdirectory, hfile⟩ := hx t ht
  cases hran : x t with
  | mk outcome t' =>
      rw [hran] at hdirectory hfile
      cases outcome with
      | error e =>
          rw [bind_of_error hran]
          exact ⟨hdirectory, hfile⟩
      | ok a =>
          rw [bind_of_ok hran]
          exact ⟨(hf a t' hdirectory).1, (hf a t' hdirectory).2.trans hfile⟩

theorem mapError {x : FileM ε α} (hx : Keeps w l x) (f : ε → ε') : Keeps w l (x.mapError f) := hx

theorem write (h : place w path ≠ l) (content : Bytes) : Keeps w l (write path content) := by
  rintro t rfl
  rw [FileM.write]
  cases hwrite : t.write path content with
  | error e => exact ⟨rfl, rfl⟩
  | ok t' =>
      have hupdates := Updates.of_write hwrite
      refine ⟨hupdates.workingDirectory, ?_⟩
      rw [hupdates.file, only, if_neg h.symm, Option.none_or]

theorem writeWithParents (h : place w path ≠ l) (content : Bytes) : Keeps w l (writeWithParents path content) :=
  .bind (keeps_of_updates (Updates.of_ensureDirectories _)) fun _ => .write h content

end Keeps

end SheetCompiler.FileM

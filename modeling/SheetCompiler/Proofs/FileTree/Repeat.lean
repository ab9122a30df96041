import SheetCompiler.Proofs.FileTree.Room

/-!
# What can be done again

A computation that has succeeded with the files of one tree succeeds with those of another one too, and makes the same
of it, as long as there is room for what it has made and the files that it goes by are the same (`Alongside`). A chain
can be done again if its steps can (`Repeatable`).
-/

namespace SheetCompiler

namespace FileTree

variable {At At' : Location → Prop} {room t t' u u' : FileTree} {path : String} {c : Bytes}

/-- Whether two trees with room in a third one have the same files, except at some locations. -/
structure Alongside (At : Location → Prop) (room t u : FileTree) : Prop where
  left : t.Within room
  right : u.Within room
  file : ∀ l, ¬ At l → u.file? l = t.file? l
  start : u.HasWorkingDirectory

namespace Alongside

theorem workingDirectory (h : Alongside At room t u) : u.workingDirectory = t.workingDirectory :=
  h.right.workingDirectory.symm.trans h.left.workingDirectory

theorem mono (h : Alongside At room t u) (hAt : ∀ l, At l → At' l) : Alongside At' room t u :=
  ⟨h.left, h.right, fun l hl => h.file l fun hno => hl (hAt l hno), h.start⟩

theorem updates {change : Location → Option Bytes} (h : Alongside At room t u) (ht : Updates change t t')
    (hu : Updates change u u') (hleft : t'.Within room) (hright : u'.Within room) : Alongside At room t' u' where
  left := hleft
  right := hright
  file l hl := by rw [ht.file, hu.file, h.file l hl]
  start := h.start.of_keepsDirectories hu.keepsDirectories

/-- The same is read in both trees at a place where they agree, unless the way is open in one of them only. -/
theorem read (h : Alongside At room t u) (hplace : ¬ At (place t.workingDirectory path))
    (hopen : Succeeds (t.locate path) ∧ Succeeds (u.locate path) ∨ t.file? (place t.workingDirectory path) = none) :
    u.read path = .ok c ↔ t.read path = .ok c :=
  read_congr h.workingDirectory (h.file _ hplace) hopen

end Alongside

theorem Within.succeeds_read (h : t.Within room) (hread : t.read path = .ok c) : Succeeds (room.read path) := by
  obtain ⟨l, hl, hfile, hslash⟩ := read_eq_ok_iff.1 hread
  obtain ⟨content, hcontent⟩ := Option.isSome_iff_exists.1 (h.file l (by rw [hfile]; rfl))
  exact ⟨content, read_eq_ok_iff.2 ⟨l, h.locate hl, hcontent, hslash⟩⟩

end FileTree

namespace FileM

open FileTree

variable {ε ε' α β : Type} {w : Location} {At Changes : Location → Prop} {path : String}

theorem updates_createDirectory {t t' : FileTree} {outcome : Unit} (h : createDirectory path t = (.ok outcome, t')) :
    Updates (fun _ => none) t t' := by
  have hupdates := Updates.of_ensureDirectories (Path.ancestors path) t
  rwa [show t.ensureDirectories (Path.ancestors path) = (.ok outcome, t') from h] at hupdates

/-- Whether what a computation has done once, where relative paths begin at `w`, it does again with the same files. Those
at some locations may be others, and it changes no files but those at some locations itself. -/
structure Repeatable (w : Location) (At Changes : Location → Prop) (x : FileM ε α) : Prop where
  within : ∀ {a : α} {t t' : FileTree}, x t = (.ok a, t') → t.Within t'
  file : ∀ {a : α} {t t' : FileTree}, x t = (.ok a, t') → t.workingDirectory = w →
    ∀ l, ¬ Changes l → t'.file? l = t.file? l
  again : ∀ {a : α} {t t' u room : FileTree}, x t = (.ok a, t') → t'.Within room → Alongside At room t u →
    ∃ u', x u = (.ok a, u') ∧ Alongside At room t' u'

namespace Repeatable

theorem pure (a : α) : Repeatable w At Changes (Pure.pure a : FileM ε α) where
  within h := by
    obtain ⟨-, rfl⟩ := pure_eq_ok.1 h
    exact .refl _
  file h _ l _ := by rw [(pure_eq_ok.1 h).2]
  again h _ halong := by
    obtain ⟨rfl, rfl⟩ := pure_eq_ok.1 h
    exact ⟨_, rfl, halong⟩

theorem ofExcept (x : Except ε α) : Repeatable w At Changes (ofExcept x : FileM ε α) where
  within h := by
    obtain ⟨-, rfl⟩ := ofExcept_eq_ok.1 h
    exact .refl _
  file h _ l _ := by rw [(ofExcept_eq_ok.1 h).2]
  again h _ halong := by
    obtain ⟨hx, rfl⟩ := ofExcept_eq_ok.1 h
    exact ⟨_, ofExcept_eq_ok.2 ⟨hx, rfl⟩, halong⟩

theorem bind {x : FileM ε α} {f : α → FileM ε β} (hx : Repeatable w At Changes x)
    (hf : ∀ a, Repeatable w At Changes (f a)) : Repeatable w At Changes (x >>= f) where
  within h := by
    obtain ⟨a, t₁, hfirst, hrest⟩ := bind_eq_ok.1 h
    exact (hx.within hfirst).trans ((hf a).within hrest)
  file h hw l hl := by
    obtain ⟨a, t₁, hfirst, hrest⟩ := bind_eq_ok.1 h
    rw [(hf a).file hrest ((hx.within hfirst).workingDirectory.trans hw) l hl, hx.file hfirst hw l hl]
  again h hroom halong := by
    obtain ⟨a, t₁, hfirst, hrest⟩ := bind_eq_ok.1 h
    obtain ⟨u₁, hfirst', halong₁⟩ := hx.again hfirst (((hf a).within hrest).trans hroom) halong
    obtain ⟨u', hrest', halong'⟩ := (hf a).again hrest hroom halong₁
    exact ⟨u', (bind_of_ok hfirst').trans hrest', halong'⟩

theorem mapError {x : FileM ε α} (hx : Repeatable w At Changes x) (f : ε → ε') :
    Repeatable w At Changes (x.mapError f) where
  within h := hx.within (mapError_eq_ok.1 h)
  file h := hx.file (mapError_eq_ok.1 h)
  again h hroom halong := by
    obtain ⟨u', hran, halong'⟩ := hx.again (mapError_eq_ok.1 h) hroom halong
    exact ⟨u', mapError_eq_ok.2 hran, halong'⟩

theorem writeWithParents (h : Changes (place w path)) (content : Bytes) :
    Repeatable w At Changes (writeWithParents path content) where
  within h := (writeWithParents_eq_ok h).1.within
  file {_ t t'} hran hw l hl := by
    have hne : l ≠ place w path := by
      rintro rfl
      exact hl h
    rw [(writeWithParents_eq_ok hran).1.file, hw, only, if_neg hne, Option.none_or]
  again {_ t t' u room} hran hroom halong := by
    obtain ⟨hupdates, hread⟩ := writeWithParents_eq_ok hran
    obtain ⟨u', hagain, hright⟩ :=
      exists_writeWithParents (hroom.succeeds_read hread) halong.right halong.start content
    have hupdates' := (writeWithParents_eq_ok hagain).1
    rw [halong.workingDirectory] at hupdates'
    exact ⟨u', hagain, halong.updates hupdates hupdates' hroom hright⟩

theorem createDirectory (h : Path.EndsInPart path) : Repeatable w At Changes (createDirectory path) where
  within hran := (updates_createDirectory hran).within
  file hran _ l _ := (updates_createDirectory hran).file l
  again {_ t t' u room} hran hroom halong := by
    have hupdates := updates_createDirectory hran
    have hpath : t'.isDirectory path = true := by
      rw [FileM.createDirectory, Path.ancestors_of_endsInPart h] at hran
      obtain ⟨above, habove⟩ := Path.exists_prefixesOf_of_endsInPart h
      rw [habove] at hran
      exact isDirectory_of_ensureDirectories hran
    obtain ⟨l, hl, hdirectory⟩ := isDirectory_iff.1 hpath
    have hthere := isDirectory_iff.2 ⟨l, hroom.locate hl, hroom.directory l hdirectory⟩
    obtain ⟨u', hagain, hright⟩ := exists_createDirectory h hthere halong.right halong.start
    exact ⟨u', hagain, halong.updates hupdates (updates_createDirectory hagain) hroom hright⟩

end Repeatable

end FileM

end SheetCompiler

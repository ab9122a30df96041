import SheetCompiler.Proofs.FileTree.Frame
import SheetCompiler.Proofs.FileTree.Repeat
import SheetCompiler.SchemaCompiler

/-!
# What compilers leave alone

What is known of a schema compiler is what it leaves alone, and whether it accepts the same schema again among other files
(`Steady`). The compilers that the settings ask for make directories themselves and leave every file as it is, if the
programs that they start do.
-/

namespace SheetCompiler

open FileTree

namespace FileM

variable {ε ε' α β : Type}

/-- Whether a computation makes directories at most, whatever comes of it. -/
def OnlyMakesDirectories (x : FileM ε α) : Prop := ∀ t, Updates (fun _ => none) t (x t).2

namespace OnlyMakesDirectories

theorem pure (a : α) : OnlyMakesDirectories (Pure.pure a : FileM ε α) := .refl

theorem throw (e : ε) : OnlyMakesDirectories (MonadExcept.throw e : FileM ε α) := .refl

theorem silent (event : Event) : OnlyMakesDirectories (RunLog.silent.tell event : FileM ε Unit) := .refl

theorem bind {x : FileM ε α} {f : α → FileM ε β} (hx : OnlyMakesDirectories x)
    (hf : ∀ a, OnlyMakesDirectories (f a)) : OnlyMakesDirectories (x >>= f) := by
  intro t
  have hfirst := hx t
  cases hran : x t with
  | mk outcome t' =>
      rw [hran] at hfirst
      cases outcome with
      | error e =>
          rw [bind_of_error hran]
          exact hfirst
      | ok a =>
          rw [bind_of_ok hran]
          exact hfirst.trans (hf a t')

theorem mapError {x : FileM ε α} (hx : OnlyMakesDirectories x) (f : ε → ε') :
    OnlyMakesDirectories (x.mapError f) :=
  hx

end OnlyMakesDirectories

end FileM

theorem RunLog.tell_bind {ε α : Type} (log : RunLog) (event : Event) (f : Unit → FileM ε α) (t : FileTree) :
    (log.tell event >>= f) t = f () (log event t) := rfl

/-- Whether programs leave the files as they are, whatever comes of them. -/
def Programs.ChangeNothing (programs : Programs) : Prop :=
  ∀ tree name arguments, (programs tree name arguments).2 = tree

theorem Programs.known_changeNothing : known.ChangeNothing := fun _ _ _ => rfl

namespace SchemaCompiler

open FileM

variable {Known : String → Prop}

/-- Whether a compiler that accepts a schema leaves the files at the paths that are `Known` as they are, and the place
where relative paths begin. -/
def Spares (compiler : SchemaCompiler) (Known : String → Prop) : Prop :=
  ∀ schema t t', compiler schema t = (.ok (), t') → t'.workingDirectory = t.workingDirectory
    ∧ ∀ path content, Known path → t.read path = .ok content → t'.read path = .ok content

theorem Spares.writes {compiler : SchemaCompiler} {path : String} {t t' : FileTree} (h : compiler.Spares Known)
    (hrun : compiler path t = (.ok (), t')) : Writes Known [] t t' := by
  obtain ⟨hdirectory, hread⟩ := h path t t' hrun
  exact ⟨hdirectory, fun path content hknown hor => hread path content hknown (hor.elim id nofun)⟩

theorem spares_of_onlyMakesDirectories {compiler : SchemaCompiler}
    (h : ∀ schema, OnlyMakesDirectories (compiler schema)) : compiler.Spares Known :=
  fun schema t t' hrun => by
    have hupdates := h schema t
    rw [hrun] at hupdates
    exact ⟨hupdates.workingDirectory, fun _ _ _ hread => hupdates.read hread⟩

/-- Whether a compiler writes no files, whatever it says of a schema. -/
def WritesNoFiles (compiler : SchemaCompiler) : Prop :=
  ∀ schema t, (compiler schema t).2.workingDirectory = t.workingDirectory
    ∧ ∀ l, (compiler schema t).2.file? l = t.file? l

theorem WritesNoFiles.keeps {compiler : SchemaCompiler} (h : compiler.WritesNoFiles) {w l : Location}
    (schema : String) : Keeps w l (compiler schema) :=
  fun t ht => ⟨(h schema t).1.trans ht, (h schema t).2 l⟩

theorem writesNoFiles_of_onlyMakesDirectories {compiler : SchemaCompiler}
    (h : ∀ schema, OnlyMakesDirectories (compiler schema)) : compiler.WritesNoFiles :=
  fun schema t => ⟨(h schema t).workingDirectory, (h schema t).file⟩

/-- Whether a compiler takes no directory away and leaves the files at some locations as they are, whatever it says of a
schema. -/
structure LeavesAlone (compiler : SchemaCompiler) (At : Location → Prop) : Prop where
  keepsDirectories : ∀ schema t, KeepsDirectories t (compiler schema t).2
  file : ∀ schema t l, At l → (compiler schema t).2.file? l = t.file? l

theorem LeavesAlone.keeps {compiler : SchemaCompiler} {At : Location → Prop} {w l : Location}
    (h : compiler.LeavesAlone At) (hl : At l) (schema : String) : Keeps w l (compiler schema) :=
  fun t ht => ⟨(h.keepsDirectories schema t).workingDirectory.trans ht, h.file schema t l hl⟩

theorem leavesAlone_of_onlyMakesDirectories {compiler : SchemaCompiler}
    (h : ∀ schema, OnlyMakesDirectories (compiler schema)) (At : Location → Prop) : compiler.LeavesAlone At :=
  ⟨fun schema t => (h schema t).keepsDirectories, fun schema t l _ => (h schema t).file l⟩

/-- Whether a compiler that accepts a schema takes nothing away and changes files of its `Own` only, and accepts the same
schema again where other files have been `Written`, as long as there is room for what it makes. -/
structure Steady (compiler : SchemaCompiler) (Own Written : Location → Prop) : Prop where
  within : ∀ {schema : String} {t t' : FileTree}, compiler schema t = (.ok (), t') → t.Within t'
  file : ∀ {schema : String} {t t' : FileTree}, compiler schema t = (.ok (), t') →
    ∀ l, ¬ Own l → t'.file? l = t.file? l
  again : ∀ {schema : String} {content : Bytes} {t t' u room : FileTree}, compiler schema t = (.ok (), t') →
    t'.Within room → Alongside (fun l => Own l ∨ Written l) room t u →
    t.read schema = .ok content → u.read schema = .ok content →
    ∃ u', compiler schema u = (.ok (), u') ∧ u'.Within room

theorem steady_none (Own Written : Location → Prop) : none.Steady Own Written where
  within h := by
    cases h
    exact .refl _
  file h _ _ := by
    cases h
    rfl
  again h _ halong _ _ := by
    cases h
    exact ⟨_, rfl, halong.right⟩

theorem prepare_onlyMakesDirectories (path : String) : OnlyMakesDirectories (prepare path) :=
  .mapError (Updates.of_ensureDirectories (Path.ancestors path)) _

theorem targetArguments_onlyMakesDirectories (s : Settings) (targets : List Target) :
    OnlyMakesDirectories (targetArguments s targets) := by
  induction targets with
  | nil => exact .pure []
  | cons target targets ih => exact .bind (prepare_onlyMakesDirectories _) fun _ => .bind ih fun _ => .pure _

theorem arguments_onlyMakesDirectories (s : Settings) (schema : String) :
    OnlyMakesDirectories (arguments s schema) := by
  have hdescriptor : OnlyMakesDirectories (descriptorArgument s schema) := by
    rw [descriptorArgument]
    split
    · exact .bind (prepare_onlyMakesDirectories _) fun _ => .pure _
    · exact .pure []
  exact .bind (targetArguments_onlyMakesDirectories s s.targets) fun _ => .bind hdescriptor fun _ => .pure _

variable {programs : Programs}

theorem start_onlyMakesDirectories (h : programs.ChangeNothing) (name : String) (arguments : List String) :
    OnlyMakesDirectories (start programs name arguments) := by
  rw [start]
  split
  · exact .pure _
  · intro t
    change Updates (fun _ => Option.none) t (programs t name arguments).2
    rw [h]
    exact .refl t

theorem external_onlyMakesDirectories (s : Settings) (h : programs.ChangeNothing) (schema : String) :
    OnlyMakesDirectories (external s programs schema) := by
  refine .bind (arguments_onlyMakesDirectories s schema) fun arguments => .bind (.silent _) fun _ =>
    .bind (start_onlyMakesDirectories h _ _) fun outcome => ?_
  split
  · exact .silent _
  · exact .throw _
  · exact .throw _
  · exact .throw _

theorem ofSettings_onlyMakesDirectories (s : Settings) (h : programs.ChangeNothing) (schema : String) :
    OnlyMakesDirectories (ofSettings s programs schema) := by
  rw [ofSettings]
  split
  · exact external_onlyMakesDirectories s h schema
  · exact .pure ()

/-! ### Steady compilers -/

section Steady

variable {s : Settings} {schema : String} {t t' : FileTree} {w : Location}
  {Own Written At Changes : Location → Prop}

/-- Whether the directories that an external compiler is told to write into can be made again. -/
def DirectoriesEndInParts (s : Settings) : Prop :=
  ∀ name ∈ "desc" :: s.targets.map (·.directory), Path.EndsInPart (Path.join s.outputDirectory name)

theorem repeatable_targetArguments {targets : List Target}
    (h : ∀ target ∈ targets, Path.EndsInPart (Path.join s.outputDirectory target.directory)) :
    Repeatable w At Changes (targetArguments s targets) := by
  induction targets with
  | nil => exact .pure []
  | cons target targets ih =>
      obtain ⟨hfirst, hrest⟩ := List.forall_mem_cons.1 h
      exact .bind (.mapError (.createDirectory hfirst) _) fun _ => .bind (ih hrest) fun _ => .pure _

theorem repeatable_arguments (h : DirectoriesEndInParts s) (schema : String) :
    Repeatable w At Changes (arguments s schema) := by
  obtain ⟨hdescriptors, htargets⟩ := List.forall_mem_cons.1 h
  have hdescriptor : Repeatable w At Changes (descriptorArgument s schema) := by
    rw [descriptorArgument]
    split
    · exact .bind (.mapError (.createDirectory hdescriptors) _) fun _ => .pure _
    · exact .pure []
  exact .bind (repeatable_targetArguments fun target htarget => htargets _ (List.mem_map_of_mem htarget))
    fun _ => .bind hdescriptor fun _ => .pure _

theorem external_eq_ok : external s programs schema t = (.ok (), t') ↔
    ∃ written between errors, arguments s schema t = (.ok written, between)
      ∧ start programs s.compiler written between = (.ok (.exited 0 errors), t') := by
  rw [external, Logged.external, FileM.bind_eq_ok]
  refine exists_congr fun written => ?_
  constructor
  · rintro ⟨between, hwritten, h⟩
    rw [RunLog.tell_bind] at h
    obtain ⟨outcome, t₂, hstart, h⟩ := FileM.bind_eq_ok.1 h
    cases outcome with
    | notStarted reason => cases h
    | killed signal errors => cases h
    | exited status errors =>
        cases status with
        | zero =>
            cases h
            exact ⟨between, errors, hwritten, hstart⟩
        | succ status => cases h
  · rintro ⟨between, errors, hwritten, hstart⟩
    refine ⟨between, hwritten, ?_⟩
    rw [RunLog.tell_bind]
    exact bind_of_ok hstart

/-- Whether the program of an external compiler neither changes the files nor looks at them. -/
def Blind (s : Settings) (programs : Programs) : Prop :=
  ∃ outcome : List String → ProgramOutcome,
    ∀ tree arguments, programs tree s.compiler arguments = (outcome arguments, tree)

theorem Blind.start (h : Blind s programs) (arguments : List String) :
    ∃ outcome, ∀ t, start programs s.compiler arguments t = (.ok outcome, t) := by
  obtain ⟨outcome, hprograms⟩ := h
  by_cases hnul : (s.compiler :: arguments).any (·.toList.contains (Char.ofNat 0)) = true
  · refine ⟨.notStarted "nul byte found in provided data", fun t => ?_⟩
    rw [SchemaCompiler.start, if_pos hnul]
    rfl
  · refine ⟨outcome arguments, fun t => ?_⟩
    rw [SchemaCompiler.start, if_neg hnul, hprograms]

/-- Where the program is blind, all that happens to the files is that directories are made for it. -/
theorem external_arguments (hprogram : Blind s programs) (h : external s programs schema t = (.ok (), t')) :
    ∃ written errors, arguments s schema t = (.ok written, t')
      ∧ ∀ u, start programs s.compiler written u = (.ok (.exited 0 errors), u) := by
  obtain ⟨written, between, errors, harguments, hstart⟩ := external_eq_ok.1 h
  obtain ⟨outcome, hblind⟩ := hprogram.start written
  cases (hblind between).symm.trans hstart
  exact ⟨written, errors, harguments, hblind⟩

/-- An external compiler is steady if its program is blind. -/
theorem steady_external (hdirectories : DirectoriesEndInParts s) (hprogram : Blind s programs) :
    (external s programs).Steady Own Written where
  within {schema t t'} h := by
    obtain ⟨written, errors, harguments, -⟩ := external_arguments hprogram h
    have hrepeatable : Repeatable t.workingDirectory Own Own (arguments s schema) := repeatable_arguments hdirectories _
    exact hrepeatable.within harguments
  file {schema t _} h l hl := by
    obtain ⟨written, errors, harguments, -⟩ := external_arguments hprogram h
    have hrepeatable : Repeatable t.workingDirectory Own Own (arguments s schema) := repeatable_arguments hdirectories _
    exact hrepeatable.file harguments rfl l hl
  again {schema _ t _ _ _} h hroom halong _ _ := by
    obtain ⟨written, errors, harguments, hstart⟩ := external_arguments hprogram h
    have hrepeatable : Repeatable t.workingDirectory (fun l => Own l ∨ Written l) Own (arguments s schema) :=
      repeatable_arguments hdirectories _
    obtain ⟨u', hagain, halong'⟩ := hrepeatable.again harguments hroom halong
    exact ⟨u', external_eq_ok.2 ⟨written, u', errors, hagain, hstart u'⟩, halong'.right⟩

theorem steady_ofSettings (h : s.compile = true → DirectoriesEndInParts s ∧ Blind s programs) :
    (ofSettings s programs).Steady Own Written := by
  rw [ofSettings]
  split
  · next hcompile => exact steady_external (h hcompile).1 (h hcompile).2
  · exact steady_none Own Written

end Steady

/-- The compilers that settings ask for write none of the files that a run writes, nor any others, if the programs that
they start do not. -/
theorem spares_ofSettings (s : Settings) (h : programs.ChangeNothing) : (ofSettings s programs).Spares Known :=
  spares_of_onlyMakesDirectories (ofSettings_onlyMakesDirectories s h)

theorem writesNoFiles_refusing (reason : String) : (refusing reason).WritesNoFiles :=
  writesNoFiles_of_onlyMakesDirectories fun _ => .throw _

end SchemaCompiler

end SheetCompiler

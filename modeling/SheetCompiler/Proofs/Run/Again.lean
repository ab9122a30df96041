import SheetCompiler.Proofs.Run.Phases

/-!
# A sheet once more

A sheet that has succeeded succeeds again with the same report wherever there is room for its files, if the schema
compiler is steady and the enum definitions are the same. Its files are then the same, too.
-/

namespace SheetCompiler.Run

open FileTree

variable {s : Settings} {compiler : SchemaCompiler} {header : Header} {grid : Grid} {type : Message}
  {sheet name path : String} {report report' : SheetReport} {schema : Schema} {data : EncodedSheet} {w : Location}
  {Own Written At Changes : Location → Prop} {t t' u room between : FileTree}

/-! ### The steps of a sheet -/

theorem repeatable_write (h : Changes (place w path)) (content : Bytes) :
    FileM.Repeatable w At Changes (write path content) :=
  .mapError (.writeWithParents h content) _

theorem repeatable_writeRecords (hbinary : Changes (place w (s.binaryPath report.record)))
    (htext : Changes (place w (s.textPath report.record))) (data : EncodedSheet) :
    FileM.Repeatable w At Changes (writeRecords s report data) :=
  .bind (repeatable_write hbinary _) fun _ => .bind (repeatable_write htext _) fun _ => .pure _

/-- Publishing a schema can be done again with a steady compiler: when it comes to it, the schema has been written. -/
theorem repeatable_publish (hcompiler : compiler.Steady Own Written) (hAt : ∀ l, At l → Own l ∨ Written l)
    (hOwnAt : ∀ l, Own l → At l) (hOwn : ∀ l, Own l → Changes l) (h : Changes (place w (s.schemaPath name)))
    (schema : Schema) : FileM.Repeatable w At Changes (publish s compiler name schema) where
  within hran := by
    obtain ⟨-, written, hwrite, hcompile⟩ := publish_eq_ok.1 hran
    exact (updates_of_write hwrite).within.trans (hcompiler.within hcompile)
  file hran hw l hl := by
    obtain ⟨-, written, hwrite, hcompile⟩ := publish_eq_ok.1 hran
    have hrepeatable : FileM.Repeatable w At Changes
        (write (s.schemaPath name) (Text.Utf8.encode schema.text)) := repeatable_write h _
    rw [hcompiler.file hcompile l fun hno => hl (hOwn l hno), hrepeatable.file hwrite hw l hl]
  again hran hroom halong := by
    obtain ⟨rfl, written, hwrite, hcompile⟩ := publish_eq_ok.1 hran
    obtain ⟨u₁, hagain, halong₁⟩ := (repeatable_write h _).again hwrite ((hcompiler.within hcompile).trans hroom) halong
    have hread := (FileM.writeWithParents_eq_ok (FileM.mapError_eq_ok.1 hwrite)).2
    have hread' := (FileM.writeWithParents_eq_ok (FileM.mapError_eq_ok.1 hagain)).2
    obtain ⟨u₂, hcompile', hright⟩ := hcompiler.again hcompile hroom (halong₁.mono hAt) hread hread'
    refine ⟨u₂, publish_eq_ok.2 ⟨rfl, u₁, hagain, hcompile'⟩, hroom, hright, fun l hl => ?_, ?_⟩
    · have hnot : ¬ Own l := fun hno => hl (hOwnAt l hno)
      rw [hcompiler.file hcompile' l hnot, hcompiler.file hcompile l hnot, halong₁.file l hl]
    · exact halong₁.start.of_keepsDirectories (hcompiler.within hcompile').toKeepsDirectories

theorem repeatable_schemaPhase (hcompiler : compiler.Steady Own Written) (hAt : ∀ l, At l → Own l ∨ Written l)
    (hOwnAt : ∀ l, Own l → At l) (hOwn : ∀ l, Own l → Changes l) (h : Changes (place w (s.schemaPath name))) :
    FileM.Repeatable w At Changes (schemaPhase s compiler header name) := by
  cases hschema : Schema.ofHeader header name s.schemaOptions with
  | error e =>
      have heq : schemaPhase s compiler header name = .ofExcept (.error (.sheet e)) :=
        funext (schemaPhase_of_error hschema compiler)
      rw [heq]
      exact .ofExcept _
  | ok schema =>
      have heq : schemaPhase s compiler header name = publish s compiler name schema :=
        funext (schemaPhase_of_ok hschema compiler)
      rw [heq]
      exact repeatable_publish hcompiler hAt hOwnAt hOwn h schema

theorem repeatable_schemaStep (hcompiler : compiler.Steady Own Written) (hAt : ∀ l, At l → Own l ∨ Written l)
    (hOwnAt : ∀ l, Own l → At l) (hOwn : ∀ l, Own l → Changes l)
    (h : s.mode.runsSchema = true → Changes (place w (s.schemaPath name))) :
    FileM.Repeatable w At Changes (schemaStep s compiler header sheet name) := by
  rw [schemaStep]
  split
  · next hmode =>
    exact .bind (.mapError (repeatable_schemaPhase hcompiler hAt hOwnAt hOwn (h hmode)) _) fun _ => .pure _
  · exact .bind (.ofExcept _) fun _ => .pure _

/-- Behind the schema phase, the way to the schema is open. -/
theorem locate_of_schemaStep {made : SheetReport × Message} (hcompiler : compiler.Steady Own Written)
    (hmode : s.mode.runsSchema = true) (h : schemaStep s compiler header sheet name t = (.ok made, between)) :
    Succeeds (between.locate (s.schemaPath name)) := by
  obtain ⟨report, type⟩ := made
  obtain ⟨_, -, -, -, hbetween⟩ := schemaStep_eq_ok h
  rw [Between, if_pos hmode] at hbetween
  obtain ⟨_, hphase⟩ := hbetween
  obtain ⟨schema, -, -, -, written, hwrite, hcompile⟩ := schemaPhase_eq_ok hphase
  have hread := (FileM.writeWithParents_eq_ok (FileM.mapError_eq_ok.1 hwrite)).2
  obtain ⟨l, hl, -⟩ := read_eq_ok_iff.1 hread
  exact ⟨l, (hcompiler.within hcompile).locate hl⟩

/-! ### The sheet as a whole -/

theorem encoded_of_mentionsEnums (h : (Header.ofGrid grid).mentionsEnums = false) (s : Settings) (type : Message)
    (t u : FileTree) : encoded s grid type u = encoded s grid type t := by
  rw [encoded, encoded, enumTable_of_mentionsEnums h, enumTable_of_mentionsEnums h]

/-- Whether a sheet goes by the same enum definitions with the files of two trees: they are not where the trees differ, and
either the way to them is open in both, or there are none unless the schema of the sheet itself becomes them. -/
def SameEnums (s : Settings) (name : String) (At : Location → Prop) (t u : FileTree) : Prop :=
  ¬ At (place t.workingDirectory s.enumPath)
    ∧ (Succeeds (t.locate s.enumPath) ∧ Succeeds (u.locate s.enumPath)
      ∨ t.file? (place t.workingDirectory s.enumPath) = none
        ∧ (place t.workingDirectory (s.schemaPath name) = place t.workingDirectory s.enumPath →
          s.schemaPath name = s.enumPath))

theorem encoded_alongside {made : SheetReport × Message} {between' : FileTree}
    (hcompiler : compiler.Steady Own Written) (hOwnAt : ∀ l, Own l → At l)
    (henums : (Header.ofGrid grid).mentionsEnums = true → SameEnums s name At t u)
    (hstep : schemaStep s compiler (Header.ofGrid grid) sheet name t = (.ok made, between))
    (hstep' : schemaStep s compiler (Header.ofGrid grid) sheet name u = (.ok made, between'))
    (halong : Alongside At room between between') (type : Message) :
    encoded s grid type between' = encoded s grid type between := by
  cases hmentions : (Header.ofGrid grid).mentionsEnums with
  | false => exact encoded_of_mentionsEnums hmentions s type between between'
  | true =>
      obtain ⟨hplace, hopen⟩ := henums hmentions
      have hrepeatable : FileM.Repeatable t.workingDirectory (fun l => Own l ∨ Written l)
          (fun l => Own l ∨ s.mode.runsSchema = true ∧ l = place t.workingDirectory (s.schemaPath name))
          (schemaStep s compiler (Header.ofGrid grid) sheet name) :=
        repeatable_schemaStep hcompiler (fun _ h => h) (fun _ => .inl) (fun _ => .inl) fun hmode => .inr ⟨hmode, rfl⟩
      have hwithin := hrepeatable.within hstep
      have hwithin' := hrepeatable.within hstep'
      rw [← hwithin.workingDirectory] at hplace
      refine encoded_congr (fun c => halong.read hplace ?_) grid type
      rcases hopen with ⟨⟨l, hl⟩, l', hl'⟩ | ⟨hnone, hpath⟩
      · exact .inl ⟨⟨l, hwithin.locate hl⟩, l', hwithin'.locate hl'⟩
      by_cases hschema : s.mode.runsSchema = true
          ∧ place t.workingDirectory s.enumPath = place t.workingDirectory (s.schemaPath name)
      · rw [← hpath hschema.2.symm]
        exact .inl ⟨locate_of_schemaStep hcompiler hschema.1 hstep, locate_of_schemaStep hcompiler hschema.1 hstep'⟩
      · have hnot : ¬ Own (place t.workingDirectory s.enumPath) := fun hno =>
          hplace (hOwnAt _ (by rw [hwithin.workingDirectory]; exact hno))
        rw [hwithin.workingDirectory, hrepeatable.file hstep rfl _ fun h => h.elim hnot hschema, hnone]
        exact .inr rfl

/-- A sheet that has succeeded succeeds again, with the same report. -/
theorem record_again (hcompiler : compiler.Steady Own Written) (hAt : ∀ l, At l → Own l ∨ Written l)
    (hOwnAt : ∀ l, Own l → At l)
    (henums : s.mode.runsData = true → (Header.ofGrid grid).mentionsEnums = true → SameEnums s name At t u)
    (hran : record s compiler sheet name grid t = (.ok report, t')) (hroom : t'.Within room)
    (halong : Alongside At room t u) :
    ∃ u', record s compiler sheet name grid u = (.ok report, u') ∧ Alongside At room t' u' := by
  rw [record_eq] at hran
  obtain ⟨made, between, hstep, hdata⟩ := FileM.bind_eq_ok.1 hran
  have hschema : FileM.Repeatable t.workingDirectory At (fun _ => True)
      (schemaStep s compiler (Header.ofGrid grid) sheet name) :=
    repeatable_schemaStep hcompiler hAt hOwnAt (fun _ _ => trivial) fun _ => trivial
  rcases dataStep_cases hdata with ⟨hmode, rfl, rfl⟩ | ⟨hmode, data, hencoded, hwrite⟩
  · obtain ⟨u', hstep', halong'⟩ := hschema.again hstep hroom halong
    refine ⟨u', ?_, halong'⟩
    rw [record_eq, FileM.bind_of_ok hstep', dataStep_of_unrun hmode]
  · have hrecords : FileM.Repeatable t.workingDirectory At (fun _ => True) (writeRecords s made.1 data) :=
      repeatable_writeRecords trivial trivial data
    obtain ⟨between', hstep', halong'⟩ := hschema.again hstep ((hrecords.within hwrite).trans hroom) halong
    have hsame := encoded_alongside hcompiler hOwnAt (henums hmode) hstep hstep' halong' made.2
    obtain ⟨u', hwrite', hend⟩ := hrecords.again hwrite hroom halong'
    refine ⟨u', ?_, hend⟩
    rw [record_eq, FileM.bind_of_ok hstep', dataStep_of_ok hmode (hsame.trans hencoded)]
    exact FileM.mapError_of_ok hwrite' _

/-- The paths that a sheet writes to for its record. -/
def artifacts (s : Settings) (record : String) : List String :=
  (if s.mode.runsSchema then [s.schemaPath record] else [])
    ++ if s.mode.runsData then [s.binaryPath record, s.textPath record] else []

def artifactPlaces (s : Settings) (w : Location) (record : String) : List Location :=
  (artifacts s record).map (place w)

theorem mem_artifactPlaces {l : Location} : l ∈ artifactPlaces s w name ↔
    s.mode.runsSchema = true ∧ l = place w (s.schemaPath name)
      ∨ s.mode.runsData = true ∧ (l = place w (s.binaryPath name) ∨ l = place w (s.textPath name)) := by
  rw [artifactPlaces, artifacts]
  cases s.mode.runsSchema <;> cases s.mode.runsData <;> simp

/-- A sheet that succeeds takes nothing away, and changes no files but its own and those of the compiler. -/
theorem record_grows (hcompiler : compiler.Steady Own Written)
    (hran : record s compiler sheet name grid t = (.ok report, t')) :
    t.Within t' ∧ ∀ l ∉ artifactPlaces s t.workingDirectory name, ¬ Own l → t'.file? l = t.file? l := by
  rw [record_eq] at hran
  obtain ⟨⟨made, type⟩, between, hstep, hdata⟩ := FileM.bind_eq_ok.1 hran
  obtain ⟨_, -, -, hreport, -⟩ := schemaStep_eq_ok hstep
  have hrecord : made.record = name := by rw [hreport]
  have hschema : FileM.Repeatable t.workingDirectory Own
      (fun l => Own l ∨ l ∈ artifactPlaces s t.workingDirectory name)
      (schemaStep s compiler (Header.ofGrid grid) sheet name) :=
    repeatable_schemaStep hcompiler (fun _ => .inl) (fun _ h => h) (fun _ => .inl) fun hmode =>
      .inr (mem_artifactPlaces.2 (.inl ⟨hmode, rfl⟩))
  have hwithin := hschema.within hstep
  have hfile (l : Location) (hl : l ∉ artifactPlaces s t.workingDirectory name) (hown : ¬ Own l) :
      between.file? l = t.file? l := hschema.file hstep rfl l fun h => h.elim hown hl
  rcases dataStep_cases hdata with ⟨hmode, rfl, rfl⟩ | ⟨hmode, data, -, hwrite⟩
  · exact ⟨hwithin, hfile⟩
  · have hrecords : FileM.Repeatable t.workingDirectory Own
        (fun l => l ∈ artifactPlaces s t.workingDirectory name) (writeRecords s made data) := by
      refine repeatable_writeRecords ?_ ?_ data <;> rw [hrecord]
      · exact mem_artifactPlaces.2 (.inr ⟨hmode, .inl rfl⟩)
      · exact mem_artifactPlaces.2 (.inr ⟨hmode, .inr rfl⟩)
    refine ⟨hwithin.trans (hrecords.within hwrite), fun l hl hown => ?_⟩
    rw [hrecords.file hwrite hwithin.workingDirectory l hl, hfile l hl hown]

end SheetCompiler.Run

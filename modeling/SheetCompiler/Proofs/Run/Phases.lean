import SheetCompiler.Proofs.FileTree.Access
import SheetCompiler.Proofs.Schema.Fields
import SheetCompiler.Proofs.SchemaCompiler
import SheetCompiler.Run

/-!
# What the phases do

A schema phase that succeeds has written the schema of the header, and a data phase that succeeds has written the
records of the grid, encoded with the enum table that it found. With a schema compiler that spares them, these files are
all that has happened (`Writes`). A sheet goes through one step for its schema and one for its data (`record_eq`), which
the mode turns into phases or passes over.
-/

namespace SheetCompiler

open FileTree

namespace Run

variable {s : Settings} {compiler : SchemaCompiler} {Known : String → Prop} {header : Header} {grid : Grid}
  {type : Message} {sheet name path : String} {content : Bytes} {report report' : SheetReport} {t t' : FileTree}

theorem updates_of_write (h : write path content t = (.ok (), t')) :
    Updates (only (place t.workingDirectory path) content) t t' :=
  (FileM.writeWithParents_eq_ok (FileM.mapError_eq_ok.1 h)).1

theorem writes_of_write (h : write path content t = (.ok (), t')) : Writes Known [(path, content)] t t' := by
  obtain ⟨hupdates, hread⟩ := FileM.writeWithParents_eq_ok (FileM.mapError_eq_ok.1 h)
  exact .of_updates hupdates hread

/-- The file of a schema, if the mode has schemas written. -/
def schemaFiles (s : Settings) (name : String) (schema : Schema) : List (String × Bytes) :=
  if s.mode.runsSchema then [(s.schemaPath name, Text.Utf8.encode schema.text)] else []

def dataFiles (s : Settings) (name : String) (data : EncodedSheet) : List (String × Bytes) :=
  [(s.binaryPath name, data.binary), (s.textPath name, Text.Utf8.encode data.text)]

/-- Writes a schema and has it compiled: its path and the message type of the record. -/
def publish (s : Settings) (compiler : SchemaCompiler) (name : String) (schema : Schema) :
    FileM PhaseError (String × Message) := do
  write (s.schemaPath name) (Text.Utf8.encode schema.text)
  (compiler (s.schemaPath name)).mapError .compile
  return (s.schemaPath name, schema.type)

theorem publish_eq_ok {schema : Schema} {made : String × Message} :
    publish s compiler name schema t = (.ok made, t') ↔ made = (s.schemaPath name, schema.type)
      ∧ ∃ written, write (s.schemaPath name) (Text.Utf8.encode schema.text) t = (.ok (), written)
        ∧ compiler (s.schemaPath name) written = (.ok (), t') := by
  constructor
  · intro h
    obtain ⟨_, written, hwrite, h⟩ := FileM.bind_eq_ok.1 h
    obtain ⟨_, compiled, hcompile, h⟩ := FileM.bind_eq_ok.1 h
    obtain ⟨rfl, rfl⟩ := FileM.pure_eq_ok.1 h
    exact ⟨rfl, written, hwrite, FileM.mapError_eq_ok.1 hcompile⟩
  · rintro ⟨rfl, written, hwrite, hcompile⟩
    rw [publish, FileM.bind_of_ok hwrite, FileM.bind_of_ok (FileM.mapError_of_ok hcompile _)]
    rfl

theorem schemaPhase_eq (s : Settings) (compiler : SchemaCompiler) (header : Header) (name : String) :
    schemaPhase s compiler header name = (do
      let schema ← .ofExcept ((Schema.ofHeader header name s.schemaOptions).mapError .sheet)
      let path := Path.join s.schemaDirectory schema.fileName
      write path (Text.Utf8.encode schema.text)
      (compiler path).mapError .compile
      return (path, schema.type)) := rfl

theorem schemaPhase_of_ok {schema : Schema} (h : Schema.ofHeader header name s.schemaOptions = .ok schema)
    (compiler : SchemaCompiler) (t : FileTree) :
    schemaPhase s compiler header name t = publish s compiler name schema t := by
  have hpath : Path.join s.schemaDirectory schema.fileName = s.schemaPath name := by
    rw [Schema.fileName_of_ofHeader h]
    rfl
  rw [schemaPhase_eq, FileM.bind_of_ok (FileM.ofExcept_eq_ok.2 ⟨mapError_eq_ok.2 h, rfl⟩), hpath]
  rfl

theorem schemaPhase_of_error {e : SheetError} (h : Schema.ofHeader header name s.schemaOptions = .error e)
    (compiler : SchemaCompiler) (t : FileTree) :
    schemaPhase s compiler header name t = (.error (.sheet e), t) := by
  rw [schemaPhase_eq, h]
  rfl

theorem schemaPhase_eq_ok (h : schemaPhase s compiler header name t = (.ok (path, type), t')) :
    ∃ schema, Schema.ofHeader header name s.schemaOptions = .ok schema ∧ path = s.schemaPath name
      ∧ type = schema.type ∧ ∃ written,
        write (s.schemaPath name) (Text.Utf8.encode schema.text) t = (.ok (), written)
          ∧ compiler (s.schemaPath name) written = (.ok (), t') := by
  cases hschema : Schema.ofHeader header name s.schemaOptions with
  | error e =>
      rw [schemaPhase_of_error hschema] at h
      cases h
  | ok schema =>
      rw [schemaPhase_of_ok hschema] at h
      obtain ⟨hmade, hran⟩ := publish_eq_ok.1 h
      cases hmade
      exact ⟨schema, rfl, rfl, rfl, hran⟩

theorem writes_of_publish (hspares : compiler.Spares Known) {schema : Schema} {made : String × Message}
    (h : publish s compiler name schema t = (.ok made, t')) :
    Writes Known [(s.schemaPath name, Text.Utf8.encode schema.text)] t t' := by
  obtain ⟨-, written, hwrite, hcompile⟩ := publish_eq_ok.1 h
  exact (writes_of_write hwrite).trans (hspares.writes hcompile)

theorem enumTable_eq (s : Settings) (header : Header) (t : FileTree) :
    enumTable s header t = (if header.mentionsEnums && t.isFile s.enumPath then
      ((t.readText s.enumPath).mapError (.file s.enumPath)).map EnumTable.ofSource else .ok {}, t) := by
  rw [enumTable, FileM.get_bind]
  split
  · cases t.readText s.enumPath <;> rfl
  · rfl

/-- The enum table depends on what is read by the path of the enum definitions alone. -/
theorem enumTable_congr (h : ∀ content, t'.read s.enumPath = .ok content ↔ t.read s.enumPath = .ok content)
    (header : Header) : (enumTable s header t').1 = (enumTable s header t).1 := by
  have hfile : t'.isFile s.enumPath = t.isFile s.enumPath
      ∧ (t.isFile s.enumPath → t'.readText s.enumPath = t.readText s.enumPath) := by
    rw [isFile, isFile, readText, readText]
    cases hread : t.read s.enumPath with
    | ok content => exact ⟨by rw [(h content).2 hread], fun _ => by rw [(h content).2 hread]⟩
    | error e =>
        refine ⟨?_, nofun⟩
        cases hread' : t'.read s.enumPath with
        | ok content => exact absurd ((h content).1 hread') (by rw [hread]; nofun)
        | error e' => rfl
  rw [enumTable_eq, enumTable_eq, hfile.1]
  dsimp only
  split
  · next hmode => rw [hfile.2 (Bool.and_eq_true_iff.1 hmode).2]
  · rfl

theorem enumTable_of_mentionsEnums (h : header.mentionsEnums = false) (s : Settings) (t : FileTree) :
    enumTable s header t = (.ok {}, t) := by
  rw [enumTable_eq, h, Bool.false_and, if_neg (by decide)]

/-- Whether the records of a grid are encoded with the enum table that the files hold. -/
def Encodes (s : Settings) (grid : Grid) (type : Message) (t : FileTree) (data : EncodedSheet) : Prop :=
  ∃ enums, enumTable s (Header.ofGrid grid) t = (.ok enums, t) ∧ EncodedSheet.ofGrid grid type enums = .ok data

/-- The records of a grid, encoded with the enum table that the files hold. -/
def encoded (s : Settings) (grid : Grid) (type : Message) (t : FileTree) : Except PhaseError EncodedSheet := do
  let enums ← (enumTable s (Header.ofGrid grid) t).1
  (EncodedSheet.ofGrid grid type enums).mapError .sheet

theorem encodes_iff {data : EncodedSheet} : Encodes s grid type t data ↔ encoded s grid type t = .ok data := by
  rw [Encodes, encoded, bind_eq_ok]
  refine exists_congr fun enums => ?_
  rw [mapError_eq_ok, enumTable_eq, Prod.mk.injEq, and_iff_left rfl]

theorem encoded_congr (h : ∀ content, t'.read s.enumPath = .ok content ↔ t.read s.enumPath = .ok content)
    (grid : Grid) (type : Message) : encoded s grid type t' = encoded s grid type t := by
  rw [encoded, encoded, enumTable_congr h]

/-- A report with the records added to it that are written. -/
def withRecords (s : Settings) (report : SheetReport) (data : EncodedSheet) : SheetReport :=
  { report with
    binary? := some (s.binaryPath report.record)
    text? := some (s.textPath report.record)
    rowsEncoded := data.rowsEncoded
    rowsSkipped := data.rowsSkipped }

def writeRecords (s : Settings) (report : SheetReport) (data : EncodedSheet) : FileM PhaseError SheetReport := do
  write (s.binaryPath report.record) data.binary
  write (s.textPath report.record) (Text.Utf8.encode data.text)
  return withRecords s report data

theorem dataPhase_eq (s : Settings) (header : Header) (grid : Grid) (type : Message) (report : SheetReport) :
    dataPhase s header grid type report = (do
      let enums ← enumTable s header
      let data ← .ofExcept ((EncodedSheet.ofGrid grid type enums).mapError .sheet)
      writeRecords s report data) := rfl

theorem dataPhase_apply (s : Settings) (grid : Grid) (type : Message) (report : SheetReport) (t : FileTree) :
    dataPhase s (Header.ofGrid grid) grid type report t
      = match encoded s grid type t with
        | .ok data => writeRecords s report data t
        | .error e => (.error e, t) := by
  have htable : enumTable s (Header.ofGrid grid) t = ((enumTable s (Header.ofGrid grid) t).1, t) := by
    rw [enumTable_eq]
  rw [dataPhase_eq, encoded]
  cases hfound : (enumTable s (Header.ofGrid grid) t).1 with
  | error e =>
      rw [FileM.bind_of_error (htable.trans (by rw [hfound]))]
      rfl
  | ok enums =>
      rw [FileM.bind_of_ok (htable.trans (by rw [hfound]))]
      change _ = match (EncodedSheet.ofGrid grid type enums).mapError PhaseError.sheet with
        | .ok data => writeRecords s report data t
        | .error e => (.error e, t)
      cases hdata : (EncodedSheet.ofGrid grid type enums).mapError PhaseError.sheet with
      | error e => exact FileM.bind_of_error rfl
      | ok data => exact FileM.bind_of_ok rfl

theorem dataPhase_of_error {e : PhaseError} (h : encoded s grid type t = .error e) (report : SheetReport) :
    dataPhase s (Header.ofGrid grid) grid type report t = (.error e, t) := by
  rw [dataPhase_apply, h]

theorem dataPhase_of_ok {data : EncodedSheet} (h : encoded s grid type t = .ok data) (report : SheetReport) :
    dataPhase s (Header.ofGrid grid) grid type report t = writeRecords s report data t := by
  rw [dataPhase_apply, h]

theorem writeRecords_eq_ok {data : EncodedSheet} (h : writeRecords s report data t = (.ok report', t')) :
    report' = withRecords s report data
      ∧ Updates (leftAt t.workingDirectory (dataFiles s report.record data)) t t' := by
  obtain ⟨_, t₁, hbinary, h⟩ := FileM.bind_eq_ok.1 h
  obtain ⟨_, t₂, htext, h⟩ := FileM.bind_eq_ok.1 h
  obtain ⟨rfl, rfl⟩ := FileM.pure_eq_ok.1 h
  have hfirst := updates_of_write hbinary
  have hsecond := updates_of_write htext
  rw [hfirst.workingDirectory] at hsecond
  exact ⟨rfl, hfirst.trans hsecond⟩

theorem writes_of_writeRecords {data : EncodedSheet} (h : writeRecords s report data t = (.ok report', t')) :
    Writes Known (dataFiles s report.record data) t t' := by
  obtain ⟨_, t₁, hbinary, h⟩ := FileM.bind_eq_ok.1 h
  obtain ⟨_, t₂, htext, h⟩ := FileM.bind_eq_ok.1 h
  obtain ⟨-, rfl⟩ := FileM.pure_eq_ok.1 h
  exact (writes_of_write hbinary).trans (writes_of_write htext)

/-! ### Both phases

The report and the message type go from what is done about the schema to what is done about the data.
-/

def schemaStep (s : Settings) (compiler : SchemaCompiler) (header : Header) (sheet name : String) :
    FileM SheetFailure (SheetReport × Message) :=
  if s.mode.runsSchema then do
    let (path, type) ← (schemaPhase s compiler header name).mapError (.mk .schema)
    return (⟨sheet, name, some path, none, none, 0, 0⟩, type)
  else do
    let schema ← .ofExcept ((Schema.ofHeader header name s.schemaOptions).mapError fun e => ⟨.data, .sheet e⟩)
    return (⟨sheet, name, none, none, none, 0, 0⟩, schema.type)

def dataStep (s : Settings) (grid : Grid) (report : SheetReport) (type : Message) :
    FileM SheetFailure SheetReport :=
  if s.mode.runsData then (dataPhase s (Header.ofGrid grid) grid type report).mapError (.mk .data)
  else return report

theorem record_eq (s : Settings) (compiler : SchemaCompiler) (sheet name : String) (grid : Grid) :
    record s compiler sheet name grid
      = schemaStep s compiler (Header.ofGrid grid) sheet name >>= fun made => dataStep s grid made.1 made.2 := by
  rw [record, Logged.record, schemaStep]
  split <;> (simp only [bind_assoc, pure_bind]; rfl)

theorem sheet_of_none (h : recordOfSheet? sheet = none) (s : Settings) (compiler : SchemaCompiler) (grid : Grid)
    (t : FileTree) : Run.sheet s compiler sheet grid t = (.ok none, t) := by
  rw [Run.sheet, Logged.sheet, h]
  rfl

theorem Logged.sheet_of_some (h : recordOfSheet? sheet = some name) (log : RunLog) (s : Settings)
    (compiler : SchemaCompiler) (grid : Grid) (t : FileTree) : Logged.sheet log s compiler sheet grid t
      = ((Logged.record log s compiler sheet name grid t).1.map some,
          (Logged.record log s compiler sheet name grid t).2) := by
  rw [Logged.sheet, h]
  cases hran : Logged.record log s compiler sheet name grid t with
  | mk outcome t' =>
      cases outcome with
      | error failure => exact FileM.bind_of_error hran
      | ok report => exact FileM.bind_of_ok hran

theorem sheet_of_some (h : recordOfSheet? sheet = some name) (s : Settings) (compiler : SchemaCompiler) (grid : Grid)
    (t : FileTree) : Run.sheet s compiler sheet grid t
      = ((record s compiler sheet name grid t).1.map some, (record s compiler sheet name grid t).2) :=
  Logged.sheet_of_some h .silent s compiler grid t

theorem sheet_eq_ok {made : Option SheetReport} (hname : recordOfSheet? sheet = some name) :
    Run.sheet s compiler sheet grid t = (.ok made, t')
      ↔ ∃ report, made = some report ∧ record s compiler sheet name grid t = (.ok report, t') := by
  rw [sheet_of_some hname]
  cases hran : record s compiler sheet name grid t with
  | mk outcome t₁ =>
      cases outcome with
      | error failure =>
          constructor
          · intro h
            cases (Prod.mk.inj h).1
          · rintro ⟨report, -, h⟩
            cases (Prod.mk.inj h).1
      | ok report =>
          constructor
          · intro h
            cases h
            exact ⟨report, rfl, rfl⟩
          · rintro ⟨_, rfl, h⟩
            cases h
            rfl

theorem sheet_eq_some (hname : recordOfSheet? sheet = some name) :
    Run.sheet s compiler sheet grid t = (.ok (some report), t')
      ↔ record s compiler sheet name grid t = (.ok report, t') := by
  rw [sheet_eq_ok hname]
  constructor
  · rintro ⟨_, heq, h⟩
    cases heq
    exact h
  · exact fun h => ⟨report, rfl, h⟩

theorem sheet_eq_error {failure : SheetFailure} (hname : recordOfSheet? sheet = some name) :
    Run.sheet s compiler sheet grid t = (.error failure, t')
      ↔ record s compiler sheet name grid t = (.error failure, t') := by
  rw [sheet_of_some hname]
  cases hran : record s compiler sheet name grid t with
  | mk outcome t₁ =>
      cases outcome with
      | error other =>
          constructor
          · intro h
            cases h
            rfl
          · intro h
            cases h
            rfl
      | ok report =>
          constructor
          · intro h
            cases (Prod.mk.inj h).1
          · intro h
            cases (Prod.mk.inj h).1

/-- Whether these are the files between the phases of a sheet, where `t` has those in front of them. -/
def Between (s : Settings) (compiler : SchemaCompiler) (header : Header) (name : String) (t t' : FileTree) : Prop :=
  if s.mode.runsSchema then ∃ made, schemaPhase s compiler header name t = (.ok made, t') else t' = t

theorem schemaStep_eq_ok (h : schemaStep s compiler header sheet name t = (.ok (report, type), t')) :
    ∃ schema, Schema.ofHeader header name s.schemaOptions = .ok schema ∧ type = schema.type
      ∧ report = ⟨sheet, name, if s.mode.runsSchema then some (s.schemaPath name) else none, none, none, 0, 0⟩
      ∧ Between s compiler header name t t' := by
  rw [schemaStep] at h
  split at h
  · next hmode =>
    obtain ⟨⟨path, type'⟩, t₁, hphase, h⟩ := FileM.bind_eq_ok.1 h
    have hphase := FileM.mapError_eq_ok.1 hphase
    obtain ⟨schema, hschema, rfl, rfl, -⟩ := schemaPhase_eq_ok hphase
    obtain ⟨hresult, rfl⟩ := FileM.pure_eq_ok.1 h
    cases hresult
    refine ⟨schema, hschema, rfl, by rw [if_pos hmode], ?_⟩
    rw [Between, if_pos hmode]
    exact ⟨_, hphase⟩
  · next hmode =>
    obtain ⟨schema, t₁, hmade, h⟩ := FileM.bind_eq_ok.1 h
    obtain ⟨hok, rfl⟩ := FileM.ofExcept_eq_ok.1 hmade
    obtain ⟨hresult, rfl⟩ := FileM.pure_eq_ok.1 h
    cases hresult
    exact ⟨schema, mapError_eq_ok.1 hok, rfl, by rw [if_neg hmode], by rw [Between, if_neg hmode]⟩

theorem Between.writes (hspares : compiler.Spares Known) {schema : Schema}
    (hschema : Schema.ofHeader header name s.schemaOptions = .ok schema) (h : Between s compiler header name t t') :
    Writes Known (schemaFiles s name schema) t t' := by
  rw [Between] at h
  rw [schemaFiles]
  split at h
  · next hmode =>
    obtain ⟨made, hmade⟩ := h
    rw [schemaPhase_of_ok hschema] at hmade
    rw [if_pos hmode]
    exact writes_of_publish hspares hmade
  · next hmode =>
    rw [if_neg hmode, h]
    exact .refl t

theorem dataStep_of_unrun (hmode : s.mode.runsData = false) (grid : Grid) (report : SheetReport) (type : Message)
    (t : FileTree) : dataStep s grid report type t = (.ok report, t) := by
  rw [dataStep, if_neg (by rw [hmode]; decide)]
  rfl

theorem dataStep_of_error {e : PhaseError} (hmode : s.mode.runsData = true) (h : encoded s grid type t = .error e) :
    dataStep s grid report type t = (.error ⟨.data, e⟩, t) := by
  rw [dataStep, if_pos hmode]
  exact FileM.mapError_of_error (dataPhase_of_error h report) _

theorem dataStep_of_ok {data : EncodedSheet} (hmode : s.mode.runsData = true) (h : encoded s grid type t = .ok data) :
    dataStep s grid report type t = (writeRecords s report data).mapError (.mk .data) t := by
  rw [dataStep, if_pos hmode, FileM.mapError, FileM.mapError, dataPhase_of_ok h]

theorem dataStep_cases (h : dataStep s grid report type t = (.ok report', t')) :
    s.mode.runsData = false ∧ report' = report ∧ t' = t
      ∨ s.mode.runsData = true ∧ ∃ data, encoded s grid type t = .ok data
        ∧ writeRecords s report data t = (.ok report', t') := by
  cases hmode : s.mode.runsData with
  | false =>
      cases (dataStep_of_unrun hmode grid report type t).symm.trans h
      exact .inl ⟨rfl, rfl, rfl⟩
  | true =>
      cases hdata : encoded s grid type t with
      | error e => cases (dataStep_of_error hmode hdata).symm.trans h
      | ok data => exact .inr ⟨rfl, data, rfl, FileM.mapError_eq_ok.1 ((dataStep_of_ok hmode hdata).symm.trans h)⟩

theorem dataStep_eq_ok (Known : String → Prop) (h : dataStep s grid report type t = (.ok report', t')) :
    (s.mode.runsData = true → ∃ data, Encodes s grid type t data
        ∧ report' = withRecords s report data
        ∧ Writes Known (dataFiles s report.record data) t t')
      ∧ (s.mode.runsData = false → report' = report ∧ t' = t) := by
  rcases dataStep_cases h with ⟨hmode, rfl, rfl⟩ | ⟨hmode, data, hdata, hwrite⟩ <;> rw [hmode]
  · exact ⟨nofun, fun _ => ⟨rfl, rfl⟩⟩
  · exact ⟨fun _ => ⟨data, encodes_iff.2 hdata, (writeRecords_eq_ok hwrite).1, writes_of_writeRecords hwrite⟩, nofun⟩

end Run

end SheetCompiler

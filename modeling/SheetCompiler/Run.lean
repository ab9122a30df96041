import SheetCompiler.EnumTable.Source
import SheetCompiler.Rows
import SheetCompiler.SchemaCompiler
import SheetCompiler.Workbook

/-!
# Runs

A run takes the sheets of a workbook in order. A sheet whose name is a record's name, a dash and
anything without a dash goes through the schema phase, which writes and compiles its schema, and the
data phase, which writes its records in both formats; other sheets are passed over. The first sheet
that fails ends the run. A run has a log, which may change files at each point where it is told
something, or none.
-/

namespace SheetCompiler

/-- The record that a sheet of this name holds. -/
def recordOfSheet? (sheet : String) : Option String :=
  match Text.split (· == '-') sheet.toList with
  | [record, _] =>
      let record := Text.trim (String.ofList record)
      if Text.isIdentifier record then some record else none
  | _ => none

inductive Phase where
  | schema
  | data
  deriving DecidableEq, Repr

namespace Phase

def name : Phase → String
  | .schema => "schema"
  | .data => "data"

/-- The exit code of a run that fails in the phase. -/
def exitCode : Phase → Int
  | .schema => -3
  | .data => -4

end Phase

inductive PhaseError where
  | sheet (error : SheetError)
  | compile (error : CompileError)
  | grid (error : GridError)
  | file (path : String) (error : FileError)
  deriving DecidableEq, Repr

def PhaseError.message : PhaseError → String
  | .sheet error => error.message
  | .compile error => error.message
  | .grid error => error.message
  | .file path error => s!"failed to access {path}: {error.message}"

structure SheetFailure where
  phase : Phase
  cause : PhaseError
  deriving DecidableEq, Repr

def SheetFailure.message (f : SheetFailure) : String := s!"{f.phase.name} phase failed: {f.cause.message}"

/-- What has been done for a sheet. -/
structure SheetReport where
  sheet : String
  record : String
  /-- The schema, where the schema phase ran. -/
  schema? : Option String := none
  /-- The records in the wire format, where the data phase ran. -/
  binary? : Option String := none
  /-- The records in the text format, where the data phase ran. -/
  text? : Option String := none
  rowsEncoded : Nat := 0
  rowsSkipped : Nat := 0
  deriving DecidableEq, Repr

/-- What has been done for the sheets of a run. -/
structure Summary where
  sheets : List SheetReport := []
  /-- The sheets that hold no record. -/
  skipped : List String := []
  deriving DecidableEq, Repr

inductive RunError where
  | workbook (path : String) (error : GridError)
  | log (path : String) (error : FileError)
  | sheet (name : String) (failure : SheetFailure) (completed : Summary)
  deriving DecidableEq, Repr

def RunError.message : RunError → String
  | .workbook path error => s!"failed to open workbook {path}: {error.message}"
  | .log path error => s!"failed to set up run log under {path}: {error.message}"
  | .sheet name failure _ => s!"sheet `{name}`: {failure.message}"

namespace Run

def write (path : String) (content : Bytes) : FileM PhaseError Unit :=
  (FileM.writeWithParents path content).mapError (.file path)

/-- The enum table for a sheet: that of the enum definitions if its header mentions enums and the file
is there, an empty one otherwise. -/
def enumTable (s : Settings) (header : Header) : FileM PhaseError EnumTable := do
  let tree ← get
  if header.mentionsEnums && tree.isFile s.enumPath then
    let source ← .ofExcept ((tree.readText s.enumPath).mapError (.file s.enumPath))
    return .ofSource source
  else return {}

/-! ### Runs with a log -/

namespace Logged

variable (log : RunLog) (s : Settings) (compiler : SchemaCompiler)

def buildSchema (header : Header) (record : String) : FileM SheetError Schema := do
  log.tell (.schemaBuilt record header)
  .ofExcept (Schema.ofHeader header record s.schemaOptions)

/-- Writes the schema of a sheet and has it compiled: its path and the message type of the record. -/
def schemaPhase (header : Header) (record : String) : FileM PhaseError (String × Message) := do
  let schema ← (buildSchema log s header record).mapError .sheet
  let path := Path.join s.schemaDirectory schema.fileName
  write path (Text.Utf8.encode schema.text)
  log.tell (.schemaWritten path)
  (compiler path).mapError .compile
  return (path, schema.type)

def dataPhase (header : Header) (grid : Grid) (type : Message) (report : SheetReport) :
    FileM PhaseError SheetReport := do
  let enums ← enumTable s header
  log.tell (.encoded s.enumPath enums grid type)
  let data ← .ofExcept ((EncodedSheet.ofGrid grid type enums).mapError .sheet)
  let binary := s.binaryPath report.record
  write binary data.binary
  let text := s.textPath report.record
  write text (Text.Utf8.encode data.text)
  log.tell (.recordsWritten binary text data.binary.length)
  return { report with
    binary? := some binary
    text? := some text
    rowsEncoded := data.rowsEncoded
    rowsSkipped := data.rowsSkipped }

def record (sheet record : String) (grid : Grid) : FileM SheetFailure SheetReport := do
  let header := Header.ofGrid grid
  let report : SheetReport := { sheet, record }
  let (report, type) ←
    if s.mode.runsSchema then do
      let (path, type) ← (schemaPhase log s compiler header record).mapError (.mk .schema)
      pure ({ report with schema? := some path }, type)
    else do
      let schema ← (buildSchema log s header record).mapError fun e => ⟨.data, .sheet e⟩
      pure (report, schema.type)
  if s.mode.runsData then (dataPhase log s header grid type report).mapError (.mk .data)
  else return report

/-- Runs the phases for a sheet; no report where it holds no record. -/
def sheet (name : String) (grid : Grid) : FileM SheetFailure (Option SheetReport) :=
  match recordOfSheet? name with
  | none => pure none
  | some r => do return some (← record log s compiler name r grid)

/-- Runs the phases for a sheet that has yet to be read. A sheet that cannot be read fails in the first
phase of the mode. -/
def readAndRun (source : SheetSource) (name : String) : FileM SheetFailure (Option SheetReport) := do
  match recordOfSheet? name with
  | none => do
      log.tell (.skipped name)
      return none
  | some _ =>
      match source.read (← get) name with
      | .ok grid => do
          log.tell (.loaded name grid)
          sheet log s compiler name grid
      | .error e => throw ⟨if s.mode.runsSchema then .schema else .data, .grid e⟩

/-- Runs sheets one after another, `done` being what was done before. -/
def sheets (source : SheetSource) (done : Summary) : List String → FileM RunError Summary
  | [] => pure done
  | name :: names => do
      match ← (readAndRun log s compiler source name).mapError (.sheet name · done) with
      | some report => sheets source { done with sheets := done.sheets ++ [report] } names
      | none => sheets source { done with skipped := done.skipped ++ [name] } names

def all (source : SheetSource) : FileM RunError Summary := sheets log s compiler source {} source.names

/-- Starts the log of a run, with a file of its own. -/
def start : FileM RunError Unit :=
  let begin : FileM FileError Unit := do
    FileM.createDirectory s.logDirectory
    FileM.write s.logPath []
    log.tell (.opened s.logPath)
  begin.mapError (.log s.logDirectory)

/-- What the log is told at the end of a run. -/
def ending : Except RunError Summary → Event
  | .ok summary => .finished summary.sheets.length summary.skipped.length
  | .error e => .stopped e.message

/-- Opens a workbook and runs its sheets, with a log that is started for them. -/
def path (openWorkbook : WorkbookOpener) (p : String) : FileM RunError Summary := do
  start log s
  log.tell (.started p s.mode)
  let source ← .ofExcept ((openWorkbook (← get) p).mapError (.workbook p))
  fun tree =>
    let (result, tree) := all log s compiler source tree
    (result, log (ending result) tree)

end Logged

/-! ### Runs without a log -/

section

variable (s : Settings) (compiler : SchemaCompiler)

def schemaPhase (header : Header) (record : String) : FileM PhaseError (String × Message) :=
  Logged.schemaPhase .silent s compiler header record

def dataPhase (header : Header) (grid : Grid) (type : Message) (report : SheetReport) :
    FileM PhaseError SheetReport :=
  Logged.dataPhase .silent s header grid type report

def record (sheet record : String) (grid : Grid) : FileM SheetFailure SheetReport :=
  Logged.record .silent s compiler sheet record grid

def sheet (name : String) (grid : Grid) : FileM SheetFailure (Option SheetReport) :=
  Logged.sheet .silent s compiler name grid

def readAndRun (source : SheetSource) (name : String) : FileM SheetFailure (Option SheetReport) :=
  Logged.readAndRun .silent s compiler source name

def sheets (source : SheetSource) (done : Summary) (names : List String) : FileM RunError Summary :=
  Logged.sheets .silent s compiler source done names

def all (source : SheetSource) : FileM RunError Summary := Logged.all .silent s compiler source

def workbook (w : Workbook) : FileM RunError Summary := all s compiler w.source

/-- Opens a workbook and runs its sheets. The file of a log is made all the same. -/
def path (openWorkbook : WorkbookOpener) (p : String) : FileM RunError Summary :=
  Logged.path .silent s compiler openWorkbook p

end

end Run

end SheetCompiler

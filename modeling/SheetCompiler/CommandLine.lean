import SheetCompiler.Run
import SheetCompiler.Settings.Document

/-!
# The command line

The arguments of the program are read left to right into an invocation, which overrides the settings
that it names or finds and runs one workbook. What is printed and the exit code say for each sheet
which phases were completed and which one failed.
-/

namespace SheetCompiler.CommandLine

/-- The options that take a value. -/
inductive Valued where
  | config
  | output
  | schemaDir
  | mode
  | compiler
  deriving DecidableEq, Repr

namespace Valued

def name : Valued → String
  | .config => "config"
  | .output => "output"
  | .schemaDir => "schema-dir"
  | .mode => "mode"
  | .compiler => "protoc"

def all : List Valued := [.config, .output, .schemaDir, .mode, .compiler]

def ofName? (name : String) : Option Valued := all.find? (·.name == name)

end Valued

/-- The options that take none. -/
inductive Flag where
  | noCompile
  | verbose
  | quiet
  | help
  | version
  deriving DecidableEq, Repr

namespace Flag

def ofName? : String → Option Flag
  | "no-compile" => some .noCompile
  | "verbose" => some .verbose
  | "quiet" => some .quiet
  | "help" => some .help
  | "version" => some .version
  | _ => none

def ofLetter? : Char → Option Flag
  | 'v' => some .verbose
  | 'q' => some .quiet
  | 'h' => some .help
  | 'V' => some .version
  | _ => none

end Flag

inductive UsageError where
  | unexpected (argument : String)
  | missingValue (option : String)
  | emptyValue (option : String)
  | invalidValue (option value : String)
  | repeated (option : String)
  | conflict
  | missingWorkbook
  deriving DecidableEq, Repr

def UsageError.message : UsageError → String
  | .unexpected argument => s!"unexpected argument '{argument}' found"
  | .missingValue option => s!"a value is required for '{option}' but none was supplied"
  | .emptyValue option => s!"a value is required for '{option}' but none was supplied"
  | .invalidValue option value => s!"invalid value '{value}' for '{option}'"
  | .repeated option => s!"the argument '{option}' cannot be used multiple times"
  | .conflict => "the argument '--verbose...' cannot be used with '--quiet'"
  | .missingWorkbook => "the following required arguments were not provided: <WORKBOOK>"

/-- What the arguments have said so far. -/
structure Invocation where
  workbook? : Option String := none
  config? : Option String := none
  output? : Option String := none
  schemaDir? : Option String := none
  mode? : Option Mode := none
  compiler? : Option String := none
  noCompile : Bool := false
  verbosity : Nat := 0
  quiet : Bool := false
  deriving DecidableEq, Repr

inductive Request where
  | help
  | version
  | compile (workbook : String) (invocation : Invocation)
  deriving DecidableEq, Repr

/-- A path that may be given once and is not empty. -/
def path (option : String) (given? : Option String) (value : String) : Except UsageError (Option String) :=
  if given?.isSome then .error (.repeated option)
  else if value.isEmpty then .error (.emptyValue option)
  else .ok (some value)

namespace Invocation

def take (i : Invocation) (option : Valued) (value : String) : Except UsageError Invocation :=
  let name := "--" ++ option.name
  match option with
  | .config => (path name i.config? value).map fun v => { i with config? := v }
  | .output => (path name i.output? value).map fun v => { i with output? := v }
  | .schemaDir => (path name i.schemaDir? value).map fun v => { i with schemaDir? := v }
  | .compiler => (path name i.compiler? value).map fun v => { i with compiler? := v }
  | .mode =>
      if i.mode?.isSome then .error (.repeated name)
      else match Mode.ofName? value with
        | some mode => .ok { i with mode? := some mode }
        | none => .error (.invalidValue name value)

def takeWorkbook (i : Invocation) (argument : String) : Except UsageError Invocation :=
  if i.workbook?.isSome then .error (.unexpected argument)
  else (path "<WORKBOOK>" none argument).map fun v => { i with workbook? := v }

/-- Takes a flag. Help and the version are answers by themselves, whatever follows them. -/
def takeFlag (i : Invocation) : Flag → Except UsageError (Request ⊕ Invocation)
  | .help => .ok (.inl .help)
  | .version => .ok (.inl .version)
  | .verbose => .ok (.inr { i with verbosity := i.verbosity + 1 })
  | .noCompile =>
      if i.noCompile then .error (.repeated "--no-compile") else .ok (.inr { i with noCompile := true })
  | .quiet => if i.quiet then .error (.repeated "--quiet") else .ok (.inr { i with quiet := true })

def takeLetters (i : Invocation) : List Char → Except UsageError (Request ⊕ Invocation)
  | [] => .ok (.inr i)
  | c :: letters =>
      match Flag.ofLetter? c with
      | none => .error (.unexpected (.ofList ['-', c]))
      | some flag => do
          match ← i.takeFlag flag with
          | .inl request => return .inl request
          | .inr next => next.takeLetters letters

def finish (i : Invocation) : Except UsageError Request :=
  match i.workbook? with
  | none => .error .missingWorkbook
  | some workbook =>
      if i.quiet && i.verbosity != 0 then .error .conflict else .ok (.compile workbook i)

end Invocation

/-- Whether an argument is read as an option. A lone dash is not. -/
def isOption (argument : String) : Bool :=
  match argument.toList with
  | '-' :: _ :: _ => true
  | _ => false

def splitLong (name : List Char) : String × Option String :=
  match name.dropWhile (· != '=') with
  | [] => (.ofList name, none)
  | _ :: value => (.ofList (name.takeWhile (· != '=')), some (.ofList value))

/-- Reads arguments. Behind two dashes there are no more options. -/
def readArguments (i : Invocation) : List String → Except UsageError Request
  | [] => i.finish
  | argument :: rest =>
      match argument.toList with
      | ['-', '-'] => do (← rest.foldlM Invocation.takeWorkbook i).finish
      | '-' :: '-' :: long =>
          let (name, attached?) := splitLong long
          match Valued.ofName? name, Flag.ofName? name, attached?, rest with
          | some option, _, some value, rest => do readArguments (← i.take option value) rest
          | some option, _, none, value :: rest => do
              if isOption value then .error (.missingValue argument)
              readArguments (← i.take option value) rest
          | some _, _, none, [] => .error (.missingValue argument)
          | none, some flag, none, rest => do
              match ← i.takeFlag flag with
              | .inl request => return request
              | .inr next => readArguments next rest
          | none, _, _, _ => .error (.unexpected argument)
      | '-' :: c :: letters => do
          match ← i.takeLetters (c :: letters) with
          | .inl request => return request
          | .inr next => readArguments next rest
      | _ => do readArguments (← i.takeWorkbook argument) rest

def Request.ofArguments (arguments : List String) : Except UsageError Request := readArguments {} arguments

/-- The settings under the options of an invocation. -/
def Invocation.override (i : Invocation) (s : Settings) : Settings :=
  { s with
    outputDirectory := i.output?.getD s.outputDirectory
    schemaDirectory := i.schemaDir?.getD s.schemaDirectory
    mode := i.mode?.getD s.mode
    compile := s.compile && !i.noCompile
    compiler := i.compiler?.getD s.compiler
    logLevel :=
      if i.quiet then "error"
      else match i.verbosity with
        | 0 => s.logLevel
        | 1 => "debug"
        | _ => "trace" }

/-- What the program answers: the lines that it prints, those about errors, and its exit code. -/
structure Outcome where
  output : List String := []
  errors : List String := []
  exitCode : Int := 0
  deriving DecidableEq, Repr

/-- The exit code of a program that got to no sheet. -/
def usageExitCode : Int := -1

def Outcome.error (message : String) : Outcome := { errors := ["error: " ++ message], exitCode := usageExitCode }

def schemaDone (sheet : String) : String := s!"[{sheet}] Interpreter Success!!!"

def schemaFailed (sheet : String) : String := s!"[{sheet}] Interpreter Failed!!!"

def dataDone (sheet : String) (rows : Nat) : String := s!"[{sheet}] Parse Success!!! ({rows} rows)"

def dataFailed (sheet : String) : String := s!"[{sheet}] Parse Failed!!!"

def reportLines (r : SheetReport) : List String :=
  (if r.schema?.isSome then [schemaDone r.sheet] else []) ++
    (if r.binary?.isSome then [dataDone r.sheet r.rowsEncoded] else [])

/-- The lines for a sheet that failed. The data phase comes after the schema phase where both run. -/
def failureLines (mode : Mode) (sheet : String) : Phase → List String
  | .schema => [schemaFailed sheet]
  | .data => (if mode.runsSchema then [schemaDone sheet] else []) ++ [dataFailed sheet]

def Outcome.ofRun (mode : Mode) (workbook : String) : Except RunError Summary → Outcome
  | .ok summary => { output := summary.sheets.flatMap reportLines }
  | .error (.sheet sheet failure completed) =>
      { output := completed.sheets.flatMap reportLines ++ failureLines mode sheet failure.phase
        errors := ["error: " ++ failure.cause.message]
        exitCode := failure.phase.exitCode }
  | .error (.workbook path error) =>
      .error s!"compiling {workbook}: {(RunError.workbook path error).message}: {error.message}"
  | .error (.log path error) =>
      .error s!"compiling {workbook}: {(RunError.log path error).message}: {error.message}"

def versionLine : String := "sheetproto 0.2.0"

def helpLines : List String := [
  "Compile workbook sheets into protobuf schemas and binary records",
  "",
  "Usage: sheetproto [OPTIONS] <WORKBOOK>",
  "",
  "Arguments:",
  "  <WORKBOOK>  Workbook to compile (.xlsx, .xlsm, .xls, .ods)",
  "",
  "Options:",
  "      --config <CONFIG>          YAML config file. Defaults to ./sheetproto.yaml when present",
  "      --output <OUTPUT>          Root directory for binary, text and generated code output",
  "      --schema-dir <SCHEMA_DIR>  Directory for generated schema sources",
  "      --mode <MODE>              [possible values: all, schema, data]",
  "      --no-compile               Write schemas without running the schema compiler",
  "      --protoc <PROTOC>          Path to the protoc executable",
  "  -v, --verbose...               More log output on stderr (-v debug, -vv trace)",
  "  -q, --quiet                    Only log errors on stderr",
  "  -h, --help                     Print help",
  "  -V, --version                  Print version"]

/-- The file that the settings of an invocation come from, if it is there. -/
def Invocation.settingsFile (i : Invocation) : String := i.config?.getD Settings.defaultFile

/-- The places that a run for some records reads, writes or makes. -/
def places (s : Settings) (records : List String) : List String :=
  s.enumPath :: s.logPath :: Path.join s.outputDirectory "desc" ::
    s.targets.map (fun t => Path.join s.outputDirectory t.directory) ++
    records.flatMap fun r => [s.schemaPath r, s.binaryPath r, s.textPath r]

def compile (log : RunLog) (programs : Programs) (openWorkbook : WorkbookOpener)
    (workbook : String) (i : Invocation) : StateM FileTree Outcome := fun tree =>
  match Settings.discover tree i.config? with
  | .error e => (.error s!"loading configuration: {e.message}: {e.cause}", tree)
  | .ok found =>
      let s := i.override found
      let compiler := SchemaCompiler.Logged.ofSettings log s programs
      let (result, tree) := Run.Logged.path log s compiler openWorkbook workbook tree
      (.ofRun s.mode workbook result, tree)

/-- The program, from its arguments to its answer, with a log and with the programs that it can start. -/
def runLogged (log : RunLog) (programs : Programs) (openWorkbook : WorkbookOpener)
    (arguments : List String) : StateM FileTree Outcome :=
  match Request.ofArguments arguments with
  | .error e => pure (.error e.message)
  | .ok .help => pure { output := helpLines }
  | .ok .version => pure { output := [versionLine] }
  | .ok (.compile workbook i) => compile log programs openWorkbook workbook i

/-- The program with a log whose file is left empty. -/
def run (programs : Programs) (openWorkbook : WorkbookOpener) (arguments : List String) : StateM FileTree Outcome :=
  runLogged .silent programs openWorkbook arguments

end SheetCompiler.CommandLine

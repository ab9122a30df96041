import SheetCompiler.Log

/-!
# Schema compilers

A written schema can be handed to a compiler, which accepts it or fails. The external one is a program
that is started once for each schema; the directories that it is told to write into are made first, and
what it does to the files is its own affair.
-/

namespace SheetCompiler

inductive CompileError where
  | failed (schema reason : String)
  | directory (path : String) (error : FileError)
  deriving DecidableEq, Repr

def CompileError.message : CompileError → String
  | .failed schema reason => s!"schema compiler failed on {schema}: {reason}"
  | .directory path error => s!"failed to prepare {path}: {error.message}"

/-- Something that compiles the schema at a path. -/
abbrev SchemaCompiler := String → FileM CompileError Unit

/-- What comes of starting a program. -/
inductive ProgramOutcome where
  | notStarted (reason : String)
  /-- It ended with a status, and had written this about errors. -/
  | exited (status : Nat) (errors : String)
  /-- A signal ended it, and it had written this about errors. -/
  | killed (signal errors : String)
  deriving DecidableEq, Repr

/-- What comes of starting programs, by their names and arguments, and the files that they leave, where the
files are as in a tree. -/
abbrev Programs := FileTree → String → List String → ProgramOutcome × FileTree

namespace Programs

/-- What is known of a program without starting it: `true` succeeds and `false` fails. No file of a tree is
a program, and no directory, which is what dots alone name wherever programs are looked for. Any other
program counts as missing. -/
def knownOutcome (tree : FileTree) (name : String) : ProgramOutcome :=
  if ["true", "/bin/true", "/usr/bin/true"].contains name then .exited 0 ""
  else if ["false", "/bin/false", "/usr/bin/false"].contains name then .exited 1 ""
  else if name.toList.contains '/' then
    match tree.read name with
    | .ok _ | .error .isDirectory => .notStarted FileError.permissionDenied.message
    | .error e => .notStarted e.message
  else if [".", ".."].contains name then .notStarted FileError.permissionDenied.message
  else .notStarted (if FileTree.maxName < name.utf8ByteSize then FileError.nameTooLong else .notFound).message

/-- The programs whose outcome is known, whatever their arguments. They change no files. -/
def known : Programs := fun tree name _ => (knownOutcome tree name, tree)

end Programs

namespace SchemaCompiler

/-- Accepts every schema. -/
def none : SchemaCompiler := fun _ => pure ()

/-- Refuses every schema for the same reason. -/
def refusing (reason : String) : SchemaCompiler := fun schema => throw (.failed schema reason)

/-- Makes a directory for the compiler to write into. -/
def prepare (path : String) : FileM CompileError Unit :=
  (FileM.createDirectory path).mapError (.directory path)

/-- The arguments that ask for the output of each target, whose directories are made on the way. -/
def targetArguments (s : Settings) : List Target → FileM CompileError (List String)
  | [] => pure []
  | target :: targets => do
      let directory := Path.join s.outputDirectory target.directory
      prepare directory
      return s!"--{target.language}_out={directory}" :: (← targetArguments s targets)

/-- The argument that asks for a descriptor set, whose directory is made. -/
def descriptorArgument (s : Settings) (schema : String) : FileM CompileError (List String) :=
  if s.descriptorSet then do
    let directory := Path.join s.outputDirectory "desc"
    prepare directory
    let file := Path.join directory ((Path.stem? schema).getD "" ++ ".pb")
    return [s!"--descriptor_set_out={file}"]
  else pure []

def arguments (s : Settings) (schema : String) : FileM CompileError (List String) := do
  let targets ← targetArguments s s.targets
  let descriptor ← descriptorArgument s schema
  return s!"-I={s.schemaDirectory}" :: targets ++ descriptor ++ [schema]

/-- Starts a program, to which no name or argument with a NUL character can be passed. -/
def start (programs : Programs) (name : String) (arguments : List String) : FileM CompileError ProgramOutcome :=
  if (name :: arguments).any (·.toList.contains (Char.ofNat 0)) then
    pure (.notStarted "nul byte found in provided data")
  else fun tree =>
    let (outcome, tree) := programs tree name arguments
    (.ok outcome, tree)

namespace Logged

def none (log : RunLog) : SchemaCompiler := fun schema => log.tell (.compilationDisabled schema)

def external (log : RunLog) (s : Settings) (programs : Programs) : SchemaCompiler := fun schema => do
  let arguments ← arguments s schema
  log.tell (.compilerStarted s.compiler arguments)
  match ← start programs s.compiler arguments with
  | .exited 0 _ => log.tell (.compiled schema)
  | .exited status errors => throw (.failed schema s!"{Text.trim errors} (exit status: {status})")
  | .killed signal errors => throw (.failed schema s!"{Text.trim errors} (signal: {signal})")
  | .notStarted reason => throw (.failed schema s!"could not run {s.compiler}: {reason}")

def ofSettings (log : RunLog) (s : Settings) (programs : Programs) : SchemaCompiler :=
  if s.compile then external log s programs else none log

end Logged

def external (s : Settings) (programs : Programs) : SchemaCompiler := Logged.external .silent s programs

def ofSettings (s : Settings) (programs : Programs) : SchemaCompiler :=
  if s.compile then external s programs else none

end SchemaCompiler

end SheetCompiler

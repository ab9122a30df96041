import SheetCompiler.Path
import SheetCompiler.Schema

/-!
# Settings

What a run is told besides its workbook: where its files go, what the schemas say, which phases run
and how the schemas are compiled. Every path that a run writes is made here from the settings and the
name of a record.
-/

namespace SheetCompiler

/-- Which phases run for each sheet. -/
inductive Mode where
  | all
  | schema
  | data
  deriving DecidableEq, Repr

namespace Mode

def name : Mode → String
  | .all => "all"
  | .schema => "schema"
  | .data => "data"

def ofName? : String → Option Mode
  | "all" => some .all
  | "schema" => some .schema
  | "data" => some .data
  | _ => none

def runsSchema : Mode → Bool
  | .all | .schema => true
  | .data => false

def runsData : Mode → Bool
  | .all | .data => true
  | .schema => false

end Mode

/-- A language that schemas are compiled to, and the directory under the output directory for it. -/
structure Target where
  language : String
  directory : String
  deriving DecidableEq, Repr

structure Settings where
  outputDirectory : String := "build_out"
  /-- Where schemas are written, and where the schema compiler looks for imports. -/
  schemaDirectory : String := "protocol"
  package : String := "cfg"
  /-- The enum definitions, below the directory of the schemas. -/
  enumImport : String := "enum.proto"
  schemaExtension : String := "schema"
  mode : Mode := .all
  /-- Whether schemas are compiled once they are written. -/
  compile : Bool := true
  compiler : String := "protoc"
  targets : List Target := [⟨"cpp", "cpp"⟩, ⟨"python", "py"⟩]
  /-- Whether the schema compiler also writes descriptor sets. -/
  descriptorSet : Bool := true
  logLevel : String := "info"
  deriving DecidableEq, Repr

namespace Settings

def schemaOptions (s : Settings) : SchemaOptions := ⟨s.package, s.enumImport, s.schemaExtension⟩

def schemaPath (s : Settings) (record : String) : String :=
  Path.join s.schemaDirectory (Schema.fileNameOf record s.schemaExtension)

def enumPath (s : Settings) : String := Path.join s.schemaDirectory s.enumImport

/-- The records in the wire format. -/
def binaryPath (s : Settings) (record : String) : String :=
  Path.join (Path.join s.outputDirectory "bin") (record ++ ".bin")

def logDirectory (s : Settings) : String := Path.join s.outputDirectory "log"

/-- The records in the text format. -/
def textPath (s : Settings) (record : String) : String := Path.join s.logDirectory (record ++ ".txt")

def logPath (s : Settings) : String := Path.join s.logDirectory "sheetproto.log"

end Settings

end SheetCompiler

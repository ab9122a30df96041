import SheetCompiler.FileTree
import SheetCompiler.Settings
import SheetCompiler.Yaml.Document

/-!
# Settings documents

Settings can be written down as a YAML mapping. What it does not mention keeps its default; what it
mentions has to be a setting, to be mentioned once, and to have a value of the right shape.
-/

namespace SheetCompiler

inductive SettingsFault where
  | yaml (fault : Yaml.Fault)
  | notMapping
  | keyNotText
  | unknownKey (key : String)
  | repeatedKey (key : String)
  | missingKey (key : String)
  | wrongValue (key expected : String)
  deriving DecidableEq, Repr

def SettingsFault.message : SettingsFault → String
  | .yaml fault => fault.message
  | .notMapping => "expected a mapping"
  | .keyNotText => "expected a text as a key"
  | .unknownKey key => s!"unknown field `{key}`"
  | .repeatedKey key => s!"duplicate field `{key}`"
  | .missingKey key => s!"missing field `{key}`"
  | .wrongValue key expected => s!"{key}: expected {expected}"

inductive SettingsError where
  | unreadable (path : String) (error : FileError)
  | invalid (path : String) (fault : SettingsFault)
  deriving DecidableEq, Repr

def SettingsError.message : SettingsError → String
  | .unreadable path error => s!"failed to read config {path}: {error.message}"
  | .invalid path fault => s!"invalid config {path}: {fault.message}"

def SettingsError.cause : SettingsError → String
  | .unreadable _ error => error.message
  | .invalid _ fault => fault.message

namespace Yaml.Node

/-- A scalar of any kind, as it is spelled. -/
def text (key : String) : Node → Except SettingsFault String
  | .scalar _ _ text => .ok text
  | _ => .error (.wrongValue key "a text")

/-- Whether a scalar is a word and no text: a plain one, or a block whose tag says so. -/
def isWord (tag : String) (style : ScalarStyle) (tag? : Option String) : Bool :=
  style == .plain || (style == .literal && tag? == some tag)

def truth (key : String) : Node → Except SettingsFault Bool
  | .scalar style tag? text =>
      if !isWord "tag:yaml.org,2002:bool" style tag? then .error (.wrongValue key "a boolean")
      else if ["true", "True", "TRUE"].contains text then .ok true
      else if ["false", "False", "FALSE"].contains text then .ok false
      else .error (.wrongValue key "a boolean")
  | _ => .error (.wrongValue key "a boolean")

/-- The name in a tag of one's own, which begins with an exclamation mark. -/
def ownTag? (tag : String) : Option String :=
  match tag.toList with
  | ['!'] => some "!"
  | '!' :: name => some (.ofList name)
  | _ => none

/-- A choice among names: a scalar, or a tag in front of nothing. -/
def choice (key : String) : Node → Except SettingsFault String
  | .scalar style tag? text =>
      match tag?.bind ownTag? with
      | none => .ok text
      | some name =>
          if style == .plain && ["", "~", "null", "Null", "NULL"].contains text then .ok name
          else .error (.wrongValue key "nothing behind its tag")
  | _ => .error (.wrongValue key "a name")

/-- The entries of a mapping, none if nothing is written. -/
def entries? : Node → Option (List (Node × Node))
  | .mapping _ entries => some entries
  | .scalar .plain _ "" => some []
  | _ => none

def items? : Node → Option (List Node)
  | .sequence _ items => some items
  | .scalar .plain _ "" => some []
  | _ => none

end Yaml.Node

/-- Goes through the entries of a mapping: `apply` takes the value of a key, and answers none if it has
no use for the key. The keys that were of use are in `used` and must not come again. -/
def applyEntries {α : Type} (apply : α → String → Yaml.Node → Option (Except SettingsFault α))
    (unknown : String → Except SettingsFault Unit) :
    α → List String → List (Yaml.Node × Yaml.Node) → Except SettingsFault α
  | a, _, [] => .ok a
  | a, used, (.scalar _ _ key, value) :: entries =>
      match apply a key value with
      | some next =>
          if used.contains key then .error (.repeatedKey key)
          else do applyEntries apply unknown (← next) (key :: used) entries
      | none => do
          unknown key
          applyEntries apply unknown a used entries
  | _, _, _ :: _ => .error .keyNotText

namespace Target

/-- What is known of a target while it is read. -/
structure Parts where
  language? : Option String := none
  directory? : Option String := none

def Parts.apply (t : Parts) (key : String) (value : Yaml.Node) : Option (Except SettingsFault Parts) :=
  match key with
  | "language" => some ((value.text key).map fun v => { t with language? := some v })
  | "dir" => some ((value.text key).map fun v => { t with directory? := some v })
  | _ => none

/-- A target has to have both of its keys; others are passed over. -/
def ofYaml (node : Yaml.Node) : Except SettingsFault Target := do
  let some entries := node.entries? | .error (.wrongValue "targets" "mappings")
  let t ← applyEntries Parts.apply (fun _ => .ok ()) {} [] entries
  let some language := t.language? | .error (.missingKey "language")
  let some directory := t.directory? | .error (.missingKey "dir")
  return ⟨language, directory⟩

end Target

namespace Settings

def modeOfYaml (key : String) (node : Yaml.Node) : Except SettingsFault Mode := do
  match Mode.ofName? (← node.choice key) with
  | some mode => .ok mode
  | none => .error (.wrongValue key "all, schema or data")

def targetsOfYaml (key : String) (node : Yaml.Node) : Except SettingsFault (List Target) :=
  match node.items? with
  | some items => items.mapM Target.ofYaml
  | none => .error (.wrongValue key "a sequence")

def apply (s : Settings) (key : String) (value : Yaml.Node) : Option (Except SettingsFault Settings) :=
  match key with
  | "output_dir" => some ((value.text key).map fun v => { s with outputDirectory := v })
  | "schema_dir" => some ((value.text key).map fun v => { s with schemaDirectory := v })
  | "package" => some ((value.text key).map fun v => { s with package := v })
  | "enum_import" => some ((value.text key).map fun v => { s with enumImport := v })
  | "schema_extension" => some ((value.text key).map fun v => { s with schemaExtension := v })
  | "mode" => some ((modeOfYaml key value).map fun v => { s with mode := v })
  | "compile" => some ((value.truth key).map fun v => { s with compile := v })
  | "protoc" => some ((value.text key).map fun v => { s with compiler := v })
  | "targets" => some ((targetsOfYaml key value).map fun v => { s with targets := v })
  | "descriptor_set" => some ((value.truth key).map fun v => { s with descriptorSet := v })
  | "log_level" => some ((value.text key).map fun v => { s with logLevel := v })
  | _ => none

/-- The settings of a text. A text without a document leaves everything at its default. -/
def ofYaml (text : String) : Except SettingsFault Settings := do
  let document? ← (Yaml.read text).mapError .yaml
  let some entries := (document?.getD .nothing).entries? | .error .notMapping
  applyEntries apply (fun key => .error (.unknownKey key)) {} [] entries

def load (tree : FileTree) (path : String) : Except SettingsError Settings := do
  let text ← (tree.readText path).mapError (.unreadable path)
  (ofYaml text).mapError (.invalid path)

/-- The file that is looked for if none is named. -/
def defaultFile : String := "sheetproto.yaml"

/-- The settings of the file that is named, or of the default file if it is there. -/
def discover (tree : FileTree) : Option String → Except SettingsError Settings
  | some path => load tree path
  | none => if tree.isFile defaultFile then load tree defaultFile else .ok {}

end Settings

end SheetCompiler

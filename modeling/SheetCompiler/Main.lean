import SheetCompiler.CommandLine
import SheetCompiler.Spreadsheet.File

/-!
# The program

The thin layer between the command line and the disk. What a run can look at is read into a file tree,
the run is computed on it, and what differs afterwards is written back. Programs cannot be started from
here, so only the schema compilers whose outcome is known count as present, and the log is left empty.
-/

namespace SheetCompiler.Disk

def name (location : Location) : String := "/" ++ "/".intercalate location

/-- What is at a location, in a directory that is there. -/
def node? (location : Location) : IO (Option FileNode) := do
  try
    return some (.file (← IO.FS.readBinFile (name location)).data.toList)
  catch
    | .inappropriateType .. => return some .directory
    | _ => return none

/-- Reads what the parts of a path lead through into a tree. -/
def loadAlong (tree : FileTree) (location : Location) : List String → IO FileTree
  | [] => pure tree
  | part :: parts => do
      if part == ".." then loadAlong tree location.dropLast parts
      else
        let next := location ++ [part]
        match tree.node? next with
        | some _ => loadAlong tree next parts
        | none =>
            match ← node? next with
            | some .directory => loadAlong (tree.put next .directory) next parts
            | some file => return tree.put next file
            | none => loadAlong tree next parts

def load (tree : FileTree) (paths : List String) : IO FileTree :=
  paths.foldlM (fun tree path => loadAlong tree (tree.start path) (Path.parts path)) tree

/-- The tree of the working directory, nothing but the way to it being known. -/
def working : IO FileTree := do
  let location := Path.parts (← IO.currentDir).toString
  let upTo (n : Nat) : Location × FileNode := (location.take (n + 1), .directory)
  return ⟨location, (List.range location.length).map upTo⟩

/-- Writes the nodes of a tree that were not in another one. -/
def save (before after : FileTree) : IO Unit :=
  after.nodes.forM fun (location, node) => do
    if before.node? location != some node then
      match node with
      | .directory => IO.FS.createDirAll (name location)
      | .file content => IO.FS.writeBinFile (name location) ⟨content.toArray⟩

/-- Everything that an invocation can look at. -/
def gather (workbook : String) (i : CommandLine.Invocation) : IO FileTree := do
  let tree ← load (← working) [i.settingsFile, workbook]
  match Settings.discover tree i.config? with
  | .error _ => return tree
  | .ok found =>
      let records := match Spreadsheet.openWorkbook Spreadsheet.decode tree workbook with
        | .ok source => source.names.filterMap recordOfSheet?
        | .error _ => []
      load tree (CommandLine.places (i.override found) records)

/-- Runs the program on the disk: its answer is printed, and its exit code returned. -/
def run (arguments : List String) : IO UInt32 := do
  let before ← match CommandLine.Request.ofArguments arguments with
    | .ok (.compile workbook i) => gather workbook i
    | _ => working
  let (outcome, after) := CommandLine.run Programs.known (Spreadsheet.openWorkbook Spreadsheet.decode) arguments before
  let saved ← (save before after).toBaseIO
  outcome.output.forM IO.println
  outcome.errors.forM IO.eprintln
  match saved with
  | .ok () => return UInt32.ofNat (outcome.exitCode % 256).toNat
  | .error e => do
      IO.eprintln s!"error: {e}"
      return UInt32.ofNat (CommandLine.usageExitCode % 256).toNat

end SheetCompiler.Disk

def main (arguments : List String) : IO UInt32 := SheetCompiler.Disk.run arguments

import SheetCompiler.Path
import SheetCompiler.Text.Utf8

/-!
# File trees

The files that a run reads and writes, as a value: for each location, a directory or a file with its
content. Every operation goes through the tree the way a file system would, so a file in the place of
a directory, a missing directory or a directory in the place of a file is found where it matters, and
what was done before an error stays done.
-/

namespace SheetCompiler

inductive FileError where
  | notFound
  | alreadyExists
  | notDirectory
  | isDirectory
  | nameTooLong
  | permissionDenied
  | nulByte
  | notUtf8
  deriving DecidableEq, Repr

def FileError.message : FileError → String
  | .notFound => "No such file or directory (os error 2)"
  | .alreadyExists => "File exists (os error 17)"
  | .notDirectory => "Not a directory (os error 20)"
  | .isDirectory => "Is a directory (os error 21)"
  | .nameTooLong => "File name too long (os error 36)"
  | .permissionDenied => "Permission denied (os error 13)"
  | .nulByte => "file name contained an unexpected NUL byte"
  | .notUtf8 => "stream did not contain valid UTF-8"

/-- The names that lead from the root to a place. -/
abbrev Location := List String

inductive FileNode where
  | directory
  | file (content : Bytes)
  deriving DecidableEq, Repr

/-- Directories and files by their locations. The root is a directory without being listed. -/
structure FileTree where
  /-- Where relative paths begin. -/
  workingDirectory : Location
  nodes : List (Location × FileNode)
  deriving DecidableEq, Repr

namespace FileTree

/-- A tree that holds nothing but the working directory. -/
def empty : FileTree := ⟨["work"], [(["work"], .directory)]⟩

def node? (t : FileTree) (location : Location) : Option FileNode :=
  if location.isEmpty then some .directory else t.nodes.lookup location

/-- Puts a node at a location among others, in the place of the first that is there. -/
def insert (location : Location) (node : FileNode) : List (Location × FileNode) → List (Location × FileNode)
  | [] => [(location, node)]
  | (l, old) :: rest => if l = location then (l, node) :: rest else (l, old) :: insert location node rest

/-- Puts a node at a location, in the place of what is there. -/
def put (t : FileTree) (location : Location) (node : FileNode) : FileTree :=
  { t with nodes := insert location node t.nodes }

/-- The most bytes that a name may have. -/
def maxName : Nat := 255

/-- The most bytes that a path may have. -/
def maxPath : Nat := 4095

/-- Takes a step from a location, which has to be a directory. -/
def step (t : FileTree) (location : Location) (name : String) : Except FileError Location :=
  match t.node? location with
  | none => .error .notFound
  | some (.file _) => .error .notDirectory
  | some .directory =>
      if name == "." then .ok location
      else if name == ".." then .ok location.dropLast
      else if maxName < name.utf8ByteSize then .error .nameTooLong
      else .ok (location ++ [name])

def start (t : FileTree) (path : String) : Location :=
  if Path.isAbsolute path then [] else t.workingDirectory

/-- The location that a path leads to, whether or not something is there. -/
def locate (t : FileTree) (path : String) : Except FileError Location :=
  if path.toList.contains (Char.ofNat 0) then .error .nulByte
  else if path.isEmpty then .error .notFound
  else if maxPath < path.utf8ByteSize then .error .nameTooLong
  else (Path.steps path).foldlM t.step (t.start path)

def read (t : FileTree) (path : String) : Except FileError Bytes := do
  match t.node? (← t.locate path) with
  | none => .error .notFound
  | some .directory => .error .isDirectory
  | some (.file content) => if Path.endsInSlash path then .error .notDirectory else .ok content

def readText (t : FileTree) (path : String) : Except FileError String := do
  match Text.Utf8.decode (← t.read path) with
  | .ok text => .ok text
  | .error _ => .error .notUtf8

def isFile (t : FileTree) (path : String) : Bool := (t.read path).isOk

def isDirectory (t : FileTree) (path : String) : Bool :=
  match t.locate path with
  | .ok location => t.node? location == some .directory
  | .error _ => false

/-- Writes the file at a path, whose directory has to be there. -/
def write (t : FileTree) (path : String) (content : Bytes) : Except FileError FileTree := do
  let location ← t.locate path
  if t.node? location == some .directory || Path.endsInSlash path then .error .isDirectory
  return t.put location (.file content)

/-- Makes the directory at a path, where nothing must be yet. -/
def makeDirectory (t : FileTree) (path : String) : Except FileError FileTree := do
  let location ← t.locate path
  if (t.node? location).isSome then .error .alreadyExists
  return t.put location .directory

/-- Makes the directory at a path, unless it is there. -/
def ensureDirectory (t : FileTree) (path : String) : Except FileError Unit × FileTree :=
  match t.makeDirectory path with
  | .ok t => (.ok (), t)
  | .error e => (if t.isDirectory path then .ok () else .error e, t)

/-- Makes the first of some directories, each of which lies in the next. Those further on are made only
where they are missing, and the answer has the tree as far as it got. -/
def ensureDirectories (t : FileTree) : List String → Except FileError Unit × FileTree
  | [] => (.ok (), t)
  | path :: above =>
      match t.ensureDirectory path with
      | (.error .notFound, _) =>
          match t.ensureDirectories above with
          | (.ok (), t) => t.ensureDirectory path
          | failure => failure
      | outcome => outcome

end FileTree

/-- A computation on a file tree. An error leaves the tree as far as it was changed. -/
abbrev FileM (ε : Type) := ExceptT ε (StateM FileTree)

namespace FileM

/-- Makes a directory, and those above it, where they are missing. -/
def createDirectory (path : String) : FileM FileError Unit := fun t => t.ensureDirectories (Path.ancestors path)

def write (path : String) (content : Bytes) : FileM FileError Unit := fun t =>
  match t.write path content with
  | .ok t => (.ok (), t)
  | .error e => (.error e, t)

/-- Makes the directory above a path where it is missing. -/
def createParent (path : String) : FileM FileError Unit := fun t =>
  t.ensureDirectories (Path.ancestors path).tail

/-- Writes a file, and makes its directory where it is missing. -/
def writeWithParents (path : String) (content : Bytes) : FileM FileError Unit := do
  createParent path
  write path content

def ofExcept {ε α : Type} (outcome : Except ε α) : FileM ε α := fun t => (outcome, t)

def mapError {ε ε' α : Type} (f : ε → ε') (action : FileM ε α) : FileM ε' α := fun t =>
  let (outcome, t) := action t
  (outcome.mapError f, t)

end FileM

end SheetCompiler

import SheetCompiler.Text.Blank

/-!
# Paths

Paths are texts whose parts stand between slashes. As a name, an empty part or a single dot means
nothing. As a way through directories, a single dot is a step like any other: it leads nowhere, but only
from a directory. Two dots lead to the directory above, which only the file tree can say.
-/

namespace SheetCompiler.Path

def isAbsolute (path : String) : Bool := path.toList.head? == some '/'

/-- What stands between the slashes. -/
def segments (path : String) : List String := (Text.split (· == '/') path.toList).map String.ofList

/-- The steps that the path takes from where it begins. -/
def steps (path : String) : List String := (segments path).filter (· != "")

/-- Whether the path ends in a slash, so that only a directory can be meant. -/
def endsInSlash (path : String) : Bool := path.toList.getLast? == some '/'

/-- The parts that name something, or that lead upwards. -/
def parts (path : String) : List String := (steps path).filter (· != ".")

/-- One path below another. An absolute path below is the answer by itself, and nothing is put between
if the upper path is empty or ends in a slash. -/
def join (upper lower : String) : String :=
  if isAbsolute lower then lower
  else if upper.isEmpty || endsInSlash upper then upper ++ lower
  else upper ++ "/" ++ lower

/-- Whether the segment at an index is a part of the path. A single dot is one where a relative path
begins with it. -/
def isPart (segment : String) (index : Nat) : Bool := segment != "" && (segment != "." || index == 0)

/-- The paths that end with each of the parts, the longest first. -/
def prefixes (path : String) : List String :=
  let segments := segments path
  (segments.zipIdx.filter fun (segment, i) => isPart segment i).reverse.map fun (_, i) =>
    "/".intercalate (segments.take (i + 1))

/-- The path and the directories that it lies in, the nearest first, those left out that are always
there: the root, and the place where relative paths begin. -/
def ancestors (path : String) : List String :=
  match prefixes path with
  | [] => []
  | _ :: above => path :: above

/-- The last part, if it is a name. -/
def fileName? (path : String) : Option String := (parts path).getLast?.filter (· != "..")

/-- The text up to its last dot, and what follows the dot. A dot at the very front counts as part of
the name. -/
def splitExtension (name : String) : String × Option String :=
  let after := (name.toList.reverse.takeWhile (· != '.')).reverse
  match (name.toList.reverse.dropWhile (· != '.')).reverse with
  | [] | ['.'] => (name, none)
  | before => (String.ofList before.dropLast, some (String.ofList after))

def stem? (path : String) : Option String := (fileName? path).map fun name => (splitExtension name).1

/-- What stands behind the last dot of the file name. -/
def extension? (path : String) : Option String := (fileName? path).bind fun name => (splitExtension name).2

end SheetCompiler.Path

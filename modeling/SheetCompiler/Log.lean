import SheetCompiler.EnumTable
import SheetCompiler.FileTree
import SheetCompiler.Message
import SheetCompiler.Settings

/-!
# The log of a run

A run tells its log what it comes to, and the log writes lines about it into its file. What it writes is left open, for
lines have the time in them and the file may be one that the run reads or writes for itself: a log is anything that
changes files when it is told something.
-/

namespace SheetCompiler

/-- What a log is told between one access of a run to the files and the next, with all that its lines are made of. -/
inductive Event where
  /-- The file of the log has been made. -/
  | opened (path : String)
  | started (workbook : String) (mode : Mode)
  /-- A sheet that holds no record has been passed over. -/
  | skipped (sheet : String)
  | loaded (sheet : String) (grid : Grid)
  /-- A schema has been made from a header, or could not be. -/
  | schemaBuilt (record : String) (header : Header)
  | schemaWritten (path : String)
  | compilationDisabled (schema : String)
  | compilerStarted (program : String) (arguments : List String)
  | compiled (schema : String)
  /-- A grid has been encoded with the enum definitions at a path, or could not be. -/
  | encoded (enumPath : String) (enums : EnumTable) (grid : Grid) (type : Message)
  | recordsWritten (binary text : String) (bytes : Nat)
  | finished (sheets skipped : Nat)
  | stopped (error : String)

/-- What is done to the files when something is told. -/
abbrev RunLog := Event → FileTree → FileTree

namespace RunLog

/-- Writes nothing. -/
def silent : RunLog := fun _ tree => tree

def tell {ε : Type} (log : RunLog) (event : Event) : FileM ε Unit := fun tree => (.ok (), log event tree)

end RunLog

end SheetCompiler

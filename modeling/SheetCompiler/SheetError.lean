import SheetCompiler.Conversion
import SheetCompiler.Header
import SheetCompiler.Wire.Word

/-!
# Errors of a sheet

Everything that can go wrong between the cells of one sheet and its artifacts, and how each error is
worded. Cells and columns are named as spreadsheets name them.
-/

namespace SheetCompiler

/-- The two walks over a layout. -/
inductive Pass where
  | schema
  | encode
  deriving DecidableEq, Repr

def Pass.name : Pass → String
  | .schema => "schema"
  | .encode => "encode"

inductive SheetError where
  | malformed (fault : Malformed)
  /-- A repetition of a required struct whose count is zero. -/
  | missingRepeat (cell field : String)
  | conversion (cell : String) (fault : ConversionFault)
  /-- A walk that ends in another column than its layout does. -/
  | alignment (pass : Pass) (expected consumed : Nat)
  | mismatch (fault : Mismatch)
  | unknownEnum (column : Nat) (name : String)
  | decode (fault : DecodeFault)
  deriving DecidableEq, Repr

def SheetError.message : SheetError → String
  | .malformed fault => fault.message
  | .missingRepeat cell field =>
      s!"required repetition of `{field}` has no instances (count cell {cell})"
  | .conversion cell fault => fault.message cell
  | .alignment pass expected consumed =>
      s!"column alignment diverged in {pass.name} pass: layout spans {expected} columns, consumed {consumed}"
  | .mismatch fault => fault.text
  | .unknownEnum column name =>
      s!"column {Address.columnName column} references unknown enum type `{name}`"
  | .decode fault => s!"malformed record bytes: {fault.message}"

end SheetCompiler

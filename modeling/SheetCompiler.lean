import SheetCompiler.EnumTable.Source
import SheetCompiler.Main
import SheetCompiler.Proofs.Schema.Mirror
import SheetCompiler.Proofs.Schema.Reuse
import SheetCompiler.Proofs.Schema.Source
import SheetCompiler.Proofs.Sheet
import SheetCompiler.Proofs.Sheet.Failures
import SheetCompiler.Proofs.Rows.Blame
import SheetCompiler.Proofs.Rows.BlankData
import SheetCompiler.Proofs.Schema.Names
import SheetCompiler.Proofs.Wire.Decoded
import SheetCompiler.Proofs.Rows.Acceptance
import SheetCompiler.Proofs.Sheet.StaleTypes
import SheetCompiler.Proofs.Wire.CanonicalBytes
import SheetCompiler.Proofs.Record.Restriction
import SheetCompiler.Proofs.Wire.OlderTypes
import SheetCompiler.Proofs.Wire.Concatenation
import SheetCompiler.Proofs.Layout.Widening
import SheetCompiler.Proofs.Sheet.Reading
import SheetCompiler.Proofs.Sheet.Concatenation
import SheetCompiler.Proofs.Wire.WordLengths
import SheetCompiler.Proofs.Wire.Lengths
import SheetCompiler.Proofs.Wire.SameText
import SheetCompiler.Proofs.Sheet.Growth
import SheetCompiler.Proofs.Layout.Completeness
import SheetCompiler.Proofs.Layout.Reserved
import SheetCompiler.Proofs.Rows.Agreement
import SheetCompiler.Proofs.Sheet.ReservedColumns
import SheetCompiler.Proofs.Layout.EnumMarks
import SheetCompiler.Proofs.Record.WithoutEnums
import SheetCompiler.Proofs.Sheet.EnumTables
import SheetCompiler.Proofs.Number.Alphabet
import SheetCompiler.Proofs.Header.Grammar
import SheetCompiler.Proofs.Schema.Comments
import SheetCompiler.Proofs.Rows.Defaults
import SheetCompiler.Proofs.Run.Artifacts
import SheetCompiler.Proofs.Run.Order
import SheetCompiler.Proofs.CommandLine.Report
import SheetCompiler.Proofs.Wire.Chunks
import SheetCompiler.Proofs.Conversion.Decimals
import SheetCompiler.Proofs.EnumTable
import SheetCompiler.Proofs.Record.Outline
import SheetCompiler.Proofs.EnumTable.Printed
import SheetCompiler.Proofs.EnumTable.Comments
import SheetCompiler.Proofs.Grid.Edits
import SheetCompiler.Proofs.Grid.Address
import SheetCompiler.Proofs.Wire.Varint.Reader
import SheetCompiler.Proofs.Wire.Zigzag
import SheetCompiler.Proofs.Record.Edits

import SheetCompiler.Layout
import SheetCompiler.Scopes
import SheetCompiler.SheetError
import SheetCompiler.TextFormat

/-!
# Schemas

The schema pass walks the layout of a sheet once, from left to right. It numbers the fields of every
message, finds the message type of the record, and writes the source text of the schema: the message
of the record with the messages of its structs nested in it, and the message that holds a list of
records. A struct type that is used again in the same message is not written again, and has to come
out the same.
-/

namespace SheetCompiler

/-- What a schema is given besides its sheet. -/
structure SchemaOptions where
  package : String := "cfg"
  /-- The file that is imported where some column has an enum type. -/
  enumImport : String := "enum.proto"
  /-- The file extension of the schema. -/
  extension : String := "schema"
  deriving DecidableEq, Repr

structure Schema where
  fileName : String
  text : String
  /-- The message type of the record. -/
  type : Message
  usesEnums : Bool

namespace Schema

/-- The name of the file that holds the schema of a record. -/
def fileNameOf (record extension : String) : String := record ++ "." ++ extension

/-- A line of the source, three blanks further in for every message around it. -/
def line (depth : Nat) (text : String) : String :=
  String.ofList (List.replicate (3 * depth) ' ') ++ text

/-- What is said about a field above its declaration. -/
def remark (field : ValueColumn) : String :=
  let comment := Text.trim field.comment
  match field.default? with
  | none => comment
  | some default =>
      if comment.isEmpty then "default: " ++ default else comment ++ " (default: " ++ default ++ ")"

/-- A block comment. If the text has several lines, each keeps its own. -/
def commentLines (depth : Nat) (text : String) : List String :=
  if text.isEmpty then []
  else match (Text.lines text.toList).map fun l => String.ofList (Text.trimEnd l) with
    | first :: second :: rest =>
        line depth ("/** " ++ first) :: (second :: rest).map (line (depth + 1)) ++ [line depth "*/"]
    | _ => [line depth ("/** " ++ text ++ " */")]

def labelWord : Label → String
  | .implicit => ""
  | .optional => "optional "
  | .repeated => "repeated "

def fieldLine (depth : Nat) (label : Label) (typeName name : String) (number : Nat) : String :=
  line depth (labelWord label ++ typeName ++ " " ++ name ++ " = " ++ toString number ++ ";")

def block (depth : Nat) (name : String) (inner : List String) : List String :=
  line depth ("message " ++ name ++ " \x7b") :: inner ++ [line depth "\x7d"]

/-- How far the pass has come: the column it stands in, the scopes around it, and the lines that it
has written in the current message. -/
structure Draft where
  column : Nat := 0
  scopes : Scopes := {}
  lines : List String := []

namespace Draft

def skip (d : Draft) (columns : Nat) : Draft := { d with column := d.column + columns }

/-- Declares a field that holds values. -/
def field (d : Draft) (depth : Nat) (column : ValueColumn) (label : Label) : Draft × Field :=
  let number := d.scopes.number
  ({ d with
      scopes := d.scopes.advance
      lines := d.lines ++ commentLines depth (remark column)
        ++ [fieldLine depth label column.type.schemaName column.name number] },
    ⟨number, column.name, label, .value column.type⟩)

/-- Enters the message of a struct, past the column that opens it. -/
def enter (d : Draft) : Draft := ⟨d.column + 1, d.scopes.advance.push, []⟩

/-- Leaves the message of a struct, which `inner` has walked, and declares the field that holds it.
The block of the message is written only where its type is new in the current scope. -/
def leave (d inner : Draft) (depth : Nat) (head : StructColumn) (label : Label) (fields : List Field) :
    Except Malformed (Draft × Field) :=
  let number := d.scopes.number
  let type : Message := ⟨head.typeName, fields⟩
  let scopes := inner.scopes.pop
  let declaration := fieldLine depth label head.typeName head.name number
  let field : Field := ⟨number, head.name, label, .message type⟩
  match scopes.declare? type with
  | some scopes =>
      let lines := "" :: block depth head.typeName inner.lines ++ [""]
      .ok (⟨inner.column, scopes, d.lines ++ lines ++ [declaration]⟩, field)
  | none =>
      if scopes.declared? head.typeName = some type then
        .ok (⟨inner.column, scopes, d.lines ++ [declaration]⟩, field)
      else .error ⟨head.column, head.typeName, .conflictingStruct head.typeName⟩

end Draft

mutual

/-- Walks a construct: what has been written after it, and the field that it declares. -/
def declare (depth : Nat) (d : Draft) : Node → Except Malformed (Draft × Option Field)
  | .skip _ => .ok (d.skip 1, none)
  | .value column optional =>
      let (d, field) := d.field depth column (if optional then .optional else .implicit)
      .ok (d.skip 1, some field)
  | .inline column =>
      let (d, field) := d.field depth column .repeated
      .ok (d.skip 1, some field)
  | .values _ max column _ =>
      let (d, field) := (d.skip 1).field depth column .repeated
      .ok (d.skip max, some field)
  | .struct head members => do
      let (inner, fields) ← declareAll (depth + 1) d.enter members
      let (d, field) ← d.leave inner depth head .implicit fields
      return (d, some field)
  | .structs _ max head members => do
      let (inner, fields) ← declareAll (depth + 1) (d.skip 1).enter members
      let (d, field) ← (d.skip 1).leave inner depth head .repeated fields
      return (d.skip ((max - 1) * (1 + Node.spans members)), some field)

/-- Walks constructs side by side: what has been written after them, and the fields they declare. -/
def declareAll (depth : Nat) (d : Draft) : List Node → Except Malformed (Draft × List Field)
  | [] => .ok (d, [])
  | node :: nodes => do
      let (d, field) ← declare depth d node
      let (d, fields) ← declareAll depth d nodes
      return (d, field.toList ++ fields)

end

/-- What stands above the first message. -/
def preamble (options : SchemaOptions) (fileName : String) (usesEnums : Bool) : List String :=
  ["/**", "* @file:   " ++ fileName,
    "* @brief:  generated by sheetproto from the workbook sheet, do not edit", "*/", "",
    "syntax = \"proto3\";", "package " ++ options.package ++ ";"]
  ++ (if usesEnums then ["import \"" ++ options.enumImport ++ "\";"] else []) ++ [""]

def arrayBlock (record : String) : List String :=
  block 0 (Message.arrayName record) [fieldLine 1 .repeated record Message.itemsName 1]

/-- The schema of the sheet with this header, for records of this name. -/
def ofHeader (h : Header) (record : String) (options : SchemaOptions) : Except SheetError Schema := do
  let layout ← (Layout.ofHeader h).mapError .malformed
  let (d, fields) ← (declareAll 1 {} layout.nodes).mapError .malformed
  if d.column ≠ layout.span then
    throw (.alignment .schema layout.span d.column)
  let fileName := fileNameOf record options.extension
  let lines := preamble options fileName layout.usesEnums ++ block 0 record d.lines ++ [""]
    ++ arrayBlock record
  return ⟨fileName, Text.unlines lines, ⟨record, fields⟩, layout.usesEnums⟩

end Schema

end SheetCompiler

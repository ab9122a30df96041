/-!
# Identifiers

Names that are written into a schema (fields, struct types, enum types, records) are ASCII
identifiers: a letter or an underscore, then letters, digits and underscores.
-/

namespace SheetCompiler.Text

def isLetter (c : Char) : Bool := ('a' ≤ c && c ≤ 'z') || ('A' ≤ c && c ≤ 'Z')

def isDigit (c : Char) : Bool := '0' ≤ c && c ≤ '9'

def startsIdentifier (c : Char) : Bool := isLetter c || c == '_'

def continuesIdentifier (c : Char) : Bool := startsIdentifier c || isDigit c

def isIdentifier (s : String) : Bool :=
  match s.toList with
  | [] => false
  | c :: rest => startsIdentifier c && rest.all continuesIdentifier

end SheetCompiler.Text

import SheetCompiler.EnumTable
import SheetCompiler.Number.Hexadecimal
import SheetCompiler.Number.Numeral
import SheetCompiler.Text.Blank
import SheetCompiler.Text.Word

/-!
# Enum definitions

An enum table is read off the source of a schema: every block `enum Name { ... }`, wherever it
stands, and in it every `MEMBER = number`. Comments are taken out first, block comments before line
comments. What is neither a block nor a member is passed over, so a source need not be well-formed.
-/

namespace SheetCompiler

namespace EnumTable

namespace Source

open Text

/-- What stands behind the end of a block comment. -/
def closeComment : List Char → Option (List Char)
  | [] => none
  | '*' :: '/' :: rest => some rest
  | _ :: rest => closeComment rest

theorem closeComment_length_lt {s rest : List Char} (h : closeComment s = some rest) :
    rest.length < s.length := by
  fun_induction closeComment s with
  | case1 => cases h
  | case2 => cases h; simp only [List.length_cons]; omega
  | case3 c s _ ih =>
      have := ih h
      simp only [List.length_cons]
      omega

/-- Puts a blank in the place of each block comment. One that is never closed is none. -/
def dropBlockComments : List Char → List Char
  | [] => []
  | '/' :: '*' :: rest =>
      match _h : closeComment rest with
      | some after => ' ' :: dropBlockComments after
      | none => '/' :: '*' :: rest
  | c :: rest => c :: dropBlockComments rest
termination_by s => s.length
decreasing_by
  · have := closeComment_length_lt _h
    simp only [List.length_cons]
    omega
  · simp

/-- Takes out the line comments, up to the ends of their lines; `inside` tells whether the text begins
within one. -/
def dropLineComments (inside : Bool) : List Char → List Char
  | [] => []
  | '\n' :: rest => '\n' :: dropLineComments false rest
  | '/' :: '/' :: rest => dropLineComments true rest
  | c :: rest => if inside then dropLineComments true rest else c :: dropLineComments false rest

/-- What stands behind a word at the front. -/
def takeWord (word : List Char) (s : List Char) : Option (List Char) :=
  if word.isPrefixOf s then some (s.drop word.length) else none

/-- One or more word characters at the front, and the rest. -/
def takeName (s : List Char) : Option (List Char × List Char) :=
  match s.takeWhile isWordChar with
  | [] => none
  | name => some (name, s.dropWhile isWordChar)

/-- An enum block at the front: its name, what its braces hold, and the rest. -/
def takeBlock (s : List Char) : Option ((String × List Char) × List Char) := do
  let s ← takeWord "enum".toList s
  if (trimStart s).length = s.length then none
  else
    let (name, s) ← takeName (trimStart s)
    match trimStart s with
    | '\x7b' :: s =>
        match s.dropWhile (· != '\x7d') with
        | [] => none
        | _ :: rest => some ((String.ofList name, s.takeWhile (· != '\x7d')), rest)
    | _ => none

/-- An unsigned number at the front, hexadecimal behind `0x`. Decimal digits of other scripts belong to
the number and make it unreadable. -/
def takeMagnitude (s : List Char) : Option (Option Nat × List Char) :=
  let decimal : Option (Option Nat × List Char) :=
    match s.takeWhile isDecimalDigit with
    | [] => none
    | digits => some (Numeral.natural? digits, s.dropWhile isDecimalDigit)
  match s with
  | '0' :: x :: rest =>
      match x == 'x' || x == 'X', rest.takeWhile Hexadecimal.isDigit with
      | true, digit :: digits =>
          some (some (Hexadecimal.ofDigits (digit :: digits)), rest.dropWhile Hexadecimal.isDigit)
      | _, _ => decimal
  | _ => decimal

def number? (negative : Bool) (magnitude : Nat) : Option Int32 :=
  let n : Int := if negative then -magnitude else magnitude
  if -2 ^ 31 ≤ n ∧ n < 2 ^ 31 then some (Int32.ofInt n) else none

/-- A member at the front: its name, its number if that is one of 32 bits, and the rest. -/
def takeMember (s : List Char) : Option ((String × Option Int32) × List Char) :=
  if (s.head?.any startsIdentifier) then do
    let (name, s) ← takeName s
    match trimStart s with
    | '=' :: s =>
        let (negative, s) := match trimStart s with
          | '-' :: s => (true, s)
          | s => (false, s)
        let (magnitude, rest) ← takeMagnitude s
        some ((String.ofList name, magnitude.bind (number? negative)), rest)
    | _ => none
  else none

/-- Everything that `take` finds, left to right and without overlap. It looks only where a word may
begin, which `fresh` says of the front and `behind` of what is left behind a find. A find that uses
nothing up is the last one. -/
def search {α : Type} (take : List Char → Option (α × List Char)) (behind : Bool) (fresh : Bool)
    (s : List Char) : List α :=
  match s with
  | [] => []
  | c :: rest =>
      match if fresh then take (c :: rest) else none with
      | some (found, after) =>
          if after.length ≤ rest.length then found :: search take behind behind after else [found]
      | none => search take behind (!isWordChar c) rest
termination_by s.length

/-- The table with the members that the braces of an enum hold. A member whose number is out of range
is left out. -/
def insertMembers (t : EnumTable) (name : String) (body : List Char) : EnumTable :=
  (search takeMember false true body).foldl (fun t (member, number) =>
    match number with
    | some number => t.insert name member number
    | none => t) (t.declare name)

end Source

def ofSource (source : String) : EnumTable :=
  let text := Source.dropLineComments false (Source.dropBlockComments source.toList)
  (Source.search Source.takeBlock true true text).foldl
    (fun t (name, body) => Source.insertMembers t name body) {}

end EnumTable

end SheetCompiler

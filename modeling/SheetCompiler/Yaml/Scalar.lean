import SheetCompiler.Number.Hexadecimal
import SheetCompiler.Text.Blank
import SheetCompiler.Yaml.Cursor

/-!
# YAML scalars

The spellings of a scalar. Three can stand inside a line: plain, in single quotes and in double quotes.
Each may go on over several lines, which are folded: a single line break comes to a blank, and of several
the first is dropped. The other two are blocks of indented lines, which are kept or folded.
-/

namespace SheetCompiler.Yaml.Scalar

/-- What blanks and line breaks between two words come to. -/
def fold (gap : List Char) : List Char :=
  match gap.filter isBreak with
  | [] => gap
  | ['\n'] => [' ']
  | '\n' :: breaks => breaks
  | breaks => breaks

/-- The column behind a gap that has a line break: the length of its last line. -/
def columnBehind (gap : List Char) : Nat := (gap.reverse.takeWhile isBlank).length

/-- Whether a gap ends at a mark between documents, given what follows it. -/
def meetsMark (gap rest : List Char) : Bool :=
  gap.getLast?.any isBreak && (['-', '.'].any fun mark => rest.take 3 == [mark, mark, mark]) &&
    endsToken (rest.drop 3)

theorem length_dropWhile_lt (p : Char → Bool) (c : Char) (rest : List Char) :
    (rest.dropWhile p).length < (c :: rest).length :=
  Nat.lt_succ_of_le (List.dropWhile_suffix p).length_le

/-- Characters that set off the items of a flow collection. -/
def isFlowMark (c : Char) : Bool := c == ',' || c == '[' || c == ']' || c == '\x7b' || c == '\x7d'

/-- Characters that no plain scalar begins with. -/
def reserved : List Char :=
  ['-', '?', ':', ',', '[', ']', '\x7b', '\x7d', '#', '&', '*', '!', '|', '>', '\'', '"', '%', '@', '\x60']

/-- Whether a plain scalar begins here. -/
def beginsPlain (flow : Bool) : List Char → Bool
  | [] => false
  | c :: rest =>
      !isGap c && (!reserved.contains c || (!endsToken rest && (c == '-' || (!flow && (c == '?' || c == ':')))))

/-- Whether a gap in a plain scalar has a tab left of the column where the scalar may go on. -/
def hasEarlyTab (depth : Nat) (gap : List Char) : Bool :=
  ((Text.split isBreak gap).drop 1).any fun line => (line.take depth).contains '\t'

/-- Reads on in a plain scalar, which ends at a colon that a blank follows, inside flow collections at
their marks, and behind a gap also at a comment, at a mark between documents and, outside flow
collections, left of `depth`. The characters so far are in `done`, the last one first. The answer has
the text, what is still to be read, which begins behind the gap that ended the scalar, and whether there
is a line break in that gap. -/
def plain (flow : Bool) (depth : Nat) (done : List Char) :
    List Char → Except Problem (List Char × List Char × Bool)
  | [] => .ok (done.reverse, [], false)
  | c :: rest =>
      if isGap c then
        let gap := c :: rest.takeWhile isGap
        let next := rest.dropWhile isGap
        let broken := gap.any isBreak
        if hasEarlyTab depth gap then .error .tab
        else if meetsMark gap next || next.head? == some '#' || (next.head? == some ':' && endsToken (next.drop 1))
            || next.isEmpty || (broken && !flow && columnBehind gap < depth) || (flow && next.head?.any isFlowMark) then
          .ok (done.reverse, next, broken)
        else plain flow depth ((fold gap).reverse ++ done) next
      else if c == ':' && endsToken rest then .ok (done.reverse, c :: rest, false)
      else if flow && isFlowMark c then .ok (done.reverse, c :: rest, false)
      else if flow && c == ':' && rest.head?.any (fun c => isFlowMark c || c == '?') then .error .unexpected
      else plain flow depth (c :: done) rest
termination_by s => s.length
decreasing_by
  · exact length_dropWhile_lt isGap c rest
  · exact Nat.lt_succ_self _

/-- Reads on between single quotes, where a quote is written twice. -/
def single (done : List Char) : List Char → Except Problem (List Char × List Char)
  | [] => .error .unclosedQuote
  | '\'' :: '\'' :: rest => single ('\'' :: done) rest
  | '\'' :: rest => .ok (done.reverse, rest)
  | c :: rest =>
      if isGap c then
        let gap := c :: rest.takeWhile isGap
        let next := rest.dropWhile isGap
        if meetsMark gap next then .error .documentMark
        else single ((fold gap).reverse ++ done) next
      else single (c :: done) rest
termination_by s => s.length
decreasing_by
  · simp only [List.length_cons]; omega
  · exact length_dropWhile_lt isGap c rest
  · exact Nat.lt_succ_self _

/-- What a letter behind a backslash stands for. -/
def escape? : Char → Option Char
  | '0' => some '\x00'
  | 'a' => some '\x07'
  | 'b' => some '\x08'
  | 't' | '\t' => some '\t'
  | 'n' => some '\n'
  | 'v' => some '\x0b'
  | 'f' => some '\x0c'
  | 'r' => some '\r'
  | 'e' => some '\x1b'
  | ' ' => some ' '
  | '"' => some '"'
  | '/' => some '/'
  | '\\' => some '\\'
  | 'N' => some (Char.ofNat 0x85)
  | '_' => some (Char.ofNat 0xA0)
  | 'L' => some (Char.ofNat 0x2028)
  | 'P' => some (Char.ofNat 0x2029)
  | _ => none

/-- How many hexadecimal digits follow a letter behind a backslash. -/
def escapeDigits? : Char → Option Nat
  | 'x' => some 2
  | 'u' => some 4
  | 'U' => some 8
  | _ => none

/-- Reads on between double quotes. A line break behind a backslash joins its lines. -/
def double (done : List Char) : List Char → Except Problem (List Char × List Char)
  | [] => .error .unclosedQuote
  | '"' :: rest => .ok (done.reverse, rest)
  | '\\' :: c :: rest =>
      if isBreak c then
        let gap := c :: rest.takeWhile isGap
        let next := rest.dropWhile isGap
        if meetsMark gap next then .error .documentMark
        else double (((gap.drop 1).filter isBreak).reverse ++ done) next
      else match escape? c, escapeDigits? c with
        | some x, _ => double (x :: done) rest
        | none, some digits =>
            match Hexadecimal.character? digits (rest.take digits) with
            | some x => double (x :: done) (rest.drop digits)
            | none => .error .unknownEscape
        | none, none => .error .unknownEscape
  | c :: rest =>
      if isGap c then
        let gap := c :: rest.takeWhile isGap
        let next := rest.dropWhile isGap
        if meetsMark gap next then .error .documentMark
        else double ((fold gap).reverse ++ done) next
      else double (c :: done) rest
termination_by s => s.length
decreasing_by
  · exact Nat.lt_succ_of_lt (length_dropWhile_lt isGap c rest)
  · simp only [List.length_cons]; omega
  · simp only [List.length_cons, List.length_drop]; omega
  · exact length_dropWhile_lt isGap c rest
  · exact Nat.lt_succ_self _

/-! ### Blocks -/

/-- What becomes of the line breaks at the end of a block. -/
inductive Chomping where
  /-- None is kept. -/
  | strip
  /-- That of the last line is kept. -/
  | clip
  /-- All are kept. -/
  | keep
  deriving DecidableEq, Repr

/-- What the front line of a block says. -/
structure BlockHeader where
  chomping : Chomping := .clip
  /-- How much deeper than what is around it the block is, if that is not to be seen from its lines. -/
  indentation? : Option Nat := none
  deriving DecidableEq, Repr

/-- Reads the sign and the digit on the front line of a block, which come in either order. -/
def blockHeader (h : BlockHeader) (signed counted : Bool) : List Char → Except Problem (BlockHeader × List Char)
  | c :: rest =>
      if !signed && c == '+' then blockHeader { h with chomping := .keep } true counted rest
      else if !signed && c == '-' then blockHeader { h with chomping := .strip } true counted rest
      else if !counted && c == '0' then .error .blockHeader
      else if !counted && Text.isDigit c then
        blockHeader { h with indentation? := some (c.toNat - '0'.toNat) } signed true rest
      else .ok (h, c :: rest)
  | [] => .ok (h, [])

/-- Takes the rest of a front line, which may hold a comment. -/
def finishHeader (s : List Char) : Except Problem (List Char) :=
  let s := s.dropWhile isBlank
  let s := if s.head? == some '#' then s.dropWhile (! isBreak ·) else s
  match s with
  | [] => .ok []
  | c :: rest => if isBreak c then .ok rest else .error .blockHeader

/-- The indentation at the front of a line, up to a bound if there is one. -/
def indentation (bound? : Option Nat) (s : List Char) : Nat :=
  let blanks := (s.takeWhile (· == ' ')).length
  (bound?.map (min blanks)).getD blanks

theorem length_drop_tail_lt {s rest : List Char} {c : Char} {n : Nat} (h : s.drop n = c :: rest) :
    rest.length < s.length := by
  have := congrArg List.length h
  simp only [List.length_drop, List.length_cons] at this
  omega

/-- Takes lines without content off the front. The answer has their line breaks, the widest indentation
that was seen, that of the line behind them, and this line without it. -/
def emptyLines (bound? : Option Nat) (breaks : List Char) (widest : Nat) (s : List Char) :
    Except Problem (List Char × Nat × Nat × List Char) :=
  let n := indentation bound? s
  match _h : s.drop n with
  | [] => .ok (breaks, max widest n, n, [])
  | c :: rest =>
      if c == '\t' && bound?.all (n < ·) then .error .tab
      else if isBreak c then emptyLines bound? (breaks ++ [c]) (max widest n) rest
      else .ok (breaks, max widest n, n, c :: rest)
termination_by s.length
decreasing_by exact length_drop_tail_lt _h

/-- What stands for the line break between two lines of a block and the line breaks that follow it. A
folded block joins lines that do not begin with a blank. -/
def joinLines (folded : Bool) (lead breaks : List Char) : List Char :=
  if folded && lead == ['\n'] then (if breaks.isEmpty then [' '] else breaks) else lead ++ breaks

/-- Reads the lines of a block, `s` being the first of them, `lead` the break of the line before and
`breaks` those that follow it; `indented` says that the line before began with a blank. The answer has
the text, the breaks at its end, and what is still to be read. The bound is the number of characters. -/
def blockLines (folded : Bool) (depth : Nat) :
    Nat → (done lead breaks : List Char) → (indented : Bool) → (column : Nat) → (s : List Char) →
      Except Problem (List Char × List Char × List Char × List Char)
  | 0, done, lead, breaks, _, _, s => .ok (done, lead, breaks, s)
  | bound + 1, done, lead, breaks, indented, column, s =>
      if column != depth || s.isEmpty then .ok (done, lead, breaks, s)
      else do
        let blank := s.head?.any isBlank
        let line := joinLines (folded && !indented && !blank) lead breaks ++ s.takeWhile (! isBreak ·)
        let rest := s.dropWhile (! isBreak ·)
        let (breaks, _, column, next) ← emptyLines (some depth) [] 0 (rest.drop 1)
        blockLines folded depth bound (done ++ line) (rest.take 1) breaks blank column next

/-- Reads a block behind its bar or angle bracket, `depth` being the least depth of its lines if the front
line does not say more. -/
def block (folded : Bool) (depth : Nat) (s : List Char) : Except Problem (List Char × List Char) := do
  let (header, s) ← blockHeader {} false false s
  let s ← finishHeader s
  let given? := header.indentation?.map ((depth - 1) + ·)
  let (breaks, widest, column, s) ← emptyLines given? [] 0 s
  let (text, lead, breaks, rest) ← blockLines folded (given?.getD (max widest (max depth 1))) (s.length + 1)
    [] [] breaks false column s
  let tail := match header.chomping with
    | .strip => []
    | .clip => lead
    | .keep => lead ++ breaks
  return (text ++ tail, rest)

end SheetCompiler.Yaml.Scalar

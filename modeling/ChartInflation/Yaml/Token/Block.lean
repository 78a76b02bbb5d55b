import ChartInflation.Yaml.Token.Flow

/-!
# Block scalars

A literal or folded scalar: a header, then lines indented alike.  The line breaks after a content
line are held back until it is known whether another content line follows; how many of the last
ones belong to the scalar is for its header to say.
-/

set_option autoImplicit false

namespace ChartInflation.Yaml

inductive Chomping where
  /-- The last line keeps its break; empty lines after it are dropped. -/
  | clip
  | strip
  | keep
deriving DecidableEq, Repr

structure BlockHeader where
  chomping : Chomping
  /-- The indentation that the header gives, zero if it is left to the first content line. -/
  increment : Nat
  mark : Mark
  rest : List Char
deriving Repr

def chomping? : List Char → Option Chomping
  | '+' :: _ => some .keep
  | '-' :: _ => some .strip
  | _ => none

/-- The digit of an indentation, if one stands here.  Zero is no indentation. -/
def increment? : List Char → Except Fault (Option Nat)
  | c :: _ =>
    if c = '0' then .error .token
    else if '1' ≤ c ∧ c ≤ '9' then .ok (some (c.toNat - 48))
    else .ok none
  | [] => .ok none

/-- The marks of a header, in either order, and how many characters they take. -/
def blockMarks (text : List Char) : Except Fault (Chomping × Nat × Nat) :=
  match chomping? text with
  | some chomping => do
    match ← increment? (text.drop 1) with
    | some n => return (chomping, n, 2)
    | none => return (chomping, 0, 1)
  | none => do
    match ← increment? text with
    | none => return (.clip, 0, 0)
    | some n =>
      match chomping? (text.drop 1) with
      | some chomping => return (chomping, n, 2)
      | none => return (.clip, n, 1)

def skipLine (mark : Mark) : List Char → Mark × List Char
  | [] => (mark, [])
  | c :: rest => if isBreak c then (mark, c :: rest) else skipLine mark.next rest

def skipGaps (mark : Mark) : List Char → Mark × List Char
  | [] => (mark, [])
  | c :: rest => if isGap c then skipGaps mark.next rest else (mark, c :: rest)

def skipBreak (mark : Mark) : List Char → Mark × List Char
  | '\r' :: '\n' :: rest => (mark.newLine 2, rest)
  | c :: rest => if isBreak c then (mark.newLine 1, rest) else (mark, c :: rest)
  | [] => (mark, [])

/-- The rest of a line that may hold nothing but a comment: the place and the text behind its
break. -/
def endOfLine (mark : Mark) (text : List Char) : Except Fault (Mark × List Char) :=
  let (mark, text) := skipGaps mark text
  let (mark, text) :=
    match text with
    | '#' :: _ => skipLine mark text
    | _ => (mark, text)
  if atBreak text then .ok (skipBreak mark text) else .error .token

def blockHeader (mark : Mark) (text : List Char) : Except Fault BlockHeader := do
  let (chomping, increment, width) ← blockMarks text
  let mark := ⟨mark.index + width, mark.line, mark.column + width⟩
  let (mark, rest) ← endOfLine mark (text.drop width)
  return ⟨chomping, increment, mark, rest⟩

structure BlockScalar where
  /-- Whether single line breaks between words become spaces. -/
  folded : Bool
  /-- The least indentation that the first content line may have. -/
  least : Nat
  /-- The column of the content, zero as long as it is unknown. -/
  indent : Nat
  /-- The widest line of spaces met before the column was known. -/
  widest : Nat
  /-- The content, last character first. -/
  read : List Char
  /-- The break of the last content line. -/
  ending : List Char
  /-- The breaks of the empty lines after it, last one first. -/
  empty : List Char
  /-- Whether the last content line begins with a space or a tab. -/
  spaced : Bool
deriving Repr

namespace BlockScalar

def isIndentation (b : BlockScalar) (column : Nat) : Bool :=
  b.indent == 0 || column < b.indent

def settled (b : BlockScalar) : BlockScalar :=
  if b.indent = 0 then { b with indent := max (max b.widest b.least) 1 } else b

/-- Begins a content line, whose first character is or is not a space or a tab.  The break between
two content lines is folded if neither is so indented. -/
def beginLine (b : BlockScalar) (spaced : Bool) : BlockScalar :=
  let joint :=
    if b.folded && b.ending == ['\n'] && !b.spaced && !spaced then
      if b.empty.isEmpty then [' '] else []
    else b.ending
  { b with read := b.empty ++ joint ++ b.read, ending := [], empty := [], spaced := spaced }

def text (b : BlockScalar) (chomping : Chomping) : List Char :=
  match chomping with
  | .strip => b.read.reverse
  | .clip => (b.ending ++ b.read).reverse
  | .keep => (b.empty ++ b.ending ++ b.read).reverse

end BlockScalar

mutual

def blockIndentation (mark : Mark) (b : BlockScalar) :
    List Char → Except Fault (BlockScalar × Mark × List Char)
  | [] => .ok (b.settled, mark, [])
  | '\r' :: '\n' :: rest =>
    blockIndentation (mark.newLine 2)
      { b with empty := '\n' :: b.empty, widest := max b.widest mark.column } rest
  | c :: rest =>
    if c == ' ' && b.isIndentation mark.column then blockIndentation mark.next b rest
    else if c == '\t' && b.isIndentation mark.column then .error .token
    else
      let b := { b with widest := max b.widest mark.column }
      if isBreak c then
        blockIndentation (mark.newLine 1) { b with empty := breakText c :: b.empty } rest
      else
        let b := b.settled
        if mark.column = b.indent then
          let b := b.beginLine (isGap c)
          blockContent mark.next { b with read := c :: b.read } rest
        else .ok (b, mark, c :: rest)

def blockContent (mark : Mark) (b : BlockScalar) :
    List Char → Except Fault (BlockScalar × Mark × List Char)
  | [] => .ok (b, mark, [])
  | '\r' :: '\n' :: rest => blockIndentation (mark.newLine 2) { b with ending := ['\n'] } rest
  | c :: rest =>
    if isBreak c then
      blockIndentation (mark.newLine 1) { b with ending := [breakText c] } rest
    else blockContent mark.next { b with read := c :: b.read } rest

end

/-- Reads a block scalar from behind its indicator, below a block at column `parent`. -/
def blockScalar (folded : Bool) (parent : Int) (mark : Mark) (text : List Char) :
    Except Fault Lexeme := do
  let header ← blockHeader mark text
  let indent := if header.increment = 0 then 0 else (max parent 0).toNat + header.increment
  let start : BlockScalar := ⟨folded, (parent + 1).toNat, indent, 0, [], [], [], false⟩
  let (b, mark, rest) ← blockIndentation header.mark start header.rest
  return ⟨b.text header.chomping, mark, rest, true⟩

end ChartInflation.Yaml

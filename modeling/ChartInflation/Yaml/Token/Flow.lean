import ChartInflation.Yaml.Character
import ChartInflation.Yaml.Fault

/-!
# Plain and quoted scalars

A scalar that may run over several lines is read character by character.  Spaces, tabs and line
breaks are held back as a `Gap` until a further character shows that they are inside the scalar;
a gap with line breaks is folded.
-/

set_option autoImplicit false

namespace ChartInflation.Yaml

inductive Gap where
  | none
  /-- Spaces and tabs on one line, the last one first. -/
  | spaces (held : List Char)
  /-- Line breaks, the last one first after the one that ended the line, and no blanks. -/
  | lines (first : List Char) (more : List Char)
deriving DecidableEq, Repr

namespace Gap

/-- The text of a gap.  One line feed becomes a space and a longer run of breaks loses its first
line feed. -/
def text : Gap → List Char
  | .none => []
  | .spaces held => held.reverse
  | .lines ['\n'] [] => [' ']
  | .lines ['\n'] more => more.reverse
  | .lines first more => first ++ more.reverse

/-- A space or a tab.  Those around line breaks are dropped. -/
def addSpace (c : Char) : Gap → Gap
  | .none => .spaces [c]
  | .spaces held => .spaces (c :: held)
  | .lines first more => .lines first more

def addBreak (c : Char) : Gap → Gap
  | .lines first more => .lines first (breakText c :: more)
  | _ => .lines [breakText c] []

def isLines : Gap → Bool
  | .lines _ _ => true
  | _ => false

end Gap

structure Lexeme where
  text : List Char
  mark : Mark
  rest : List Char
  /-- Whether the scalar ended after a line break, so that a simple key may follow. -/
  afterBreak : Bool
deriving Repr

structure PlainContext where
  inFlow : Bool
  /-- In a block, the least column of its further lines. -/
  indent : Int
deriving Repr

/-- Reads a plain scalar.  `held` is the blank part before the next character and `read` the
scalar so far, last character first. -/
def plainScalar (context : PlainContext) (mark : Mark) (held : Gap) (read : List Char) :
    List Char → Except Fault Lexeme
  | [] => .ok ⟨read.reverse, mark, [], held.isLines⟩
  | '\r' :: '\n' :: rest => plainScalar context (mark.newLine 2) (held.addBreak '\r') read rest
  | c :: rest =>
    if isBreak c then plainScalar context (mark.newLine 1) (held.addBreak c) read rest
    else if isGap c then
      if held.isLines && (mark.column : Int) < context.indent && c == '\t' then .error .token
      else plainScalar context mark.next (held.addSpace c) read rest
    else
      let stop : Except Fault Lexeme := .ok ⟨read.reverse, mark, c :: rest, held.isLines⟩
      if held.isLines && !context.inFlow && (mark.column : Int) < context.indent then stop
      else if c == '#' && held != .none then stop
      else if c == ':' && context.inFlow &&
          (match rest with | d :: _ => isFlowIndicator d || d == '?' | [] => false) then
        .error .token
      else if (c == ':' && atSpacing rest) || (context.inFlow && isFlowIndicator c) then stop
      else plainScalar context mark.next .none (c :: (held.text.reverse ++ read)) rest

def singleQuotedScalar (mark : Mark) (held : Gap) (read : List Char) :
    List Char → Except Fault Lexeme
  | [] => .error .token
  | '\r' :: '\n' :: rest => singleQuotedScalar (mark.newLine 2) (held.addBreak '\r') read rest
  | '\'' :: '\'' :: rest =>
    singleQuotedScalar mark.next.next .none ('\'' :: (held.text.reverse ++ read)) rest
  | c :: rest =>
    if isBreak c then singleQuotedScalar (mark.newLine 1) (held.addBreak c) read rest
    else if isGap c then singleQuotedScalar mark.next (held.addSpace c) read rest
    else if c = '\'' then .ok ⟨(held.text.reverse ++ read).reverse, mark.next, rest, false⟩
    else singleQuotedScalar mark.next .none (c :: (held.text.reverse ++ read)) rest

def simpleEscape? : Char → Option Char
  | '0' => some '\x00'
  | 'a' => some '\x07'
  | 'b' => some '\x08'
  | 't' => some '\t'
  | '\t' => some '\t'
  | 'n' => some '\n'
  | 'v' => some '\x0B'
  | 'f' => some '\x0C'
  | 'r' => some '\r'
  | 'e' => some '\x1B'
  | ' ' => some ' '
  | '"' => some '"'
  | '/' => some '/'
  | '\\' => some '\\'
  | 'N' => some '\u0085'
  | '_' => some '\u00A0'
  | 'L' => some '\u2028'
  | 'P' => some '\u2029'
  | _ => none

def escapeLength? : Char → Option Nat
  | 'x' => some 2
  | 'u' => some 4
  | 'U' => some 8
  | _ => none

def characterOf? (code : Nat) : Option Char :=
  if (0xD800 ≤ code ∧ code ≤ 0xDFFF) ∨ code > 0x10FFFF then none else some (Char.ofNat code)

inductive Escape where
  | none
  /-- Behind a backslash. -/
  | begun
  /-- Before `left + 1` further digits of a code point. -/
  | digits (left : Nat) (code : Nat)
deriving DecidableEq, Repr

/-- Reads a double-quoted scalar from behind its opening quote.  An escaped line break is dropped
together with the blanks after it. -/
def doubleQuotedScalar (mark : Mark) (held : Gap) (read : List Char) :
    Escape → List Char → Except Fault Lexeme
  | _, [] => .error .token
  | .digits left code, c :: rest =>
    match hexDigit? c, left with
    | Option.none, _ => .error .token
    | some d, left + 1 => doubleQuotedScalar mark.next held read (.digits left (code * 16 + d)) rest
    | some d, 0 =>
      match characterOf? (code * 16 + d) with
      | Option.none => .error .token
      | some x => doubleQuotedScalar mark.next held (x :: read) .none rest
  | .begun, '\r' :: '\n' :: rest =>
    doubleQuotedScalar (mark.newLine 2) (.lines [] []) read .none rest
  | .begun, c :: rest =>
    if isBreak c then doubleQuotedScalar (mark.newLine 1) (.lines [] []) read .none rest
    else match simpleEscape? c, escapeLength? c with
      | some x, _ => doubleQuotedScalar mark.next held (x :: read) .none rest
      | Option.none, some n => doubleQuotedScalar mark.next held read (.digits (n - 1) 0) rest
      | Option.none, Option.none => .error .token
  | .none, '\r' :: '\n' :: rest =>
    doubleQuotedScalar (mark.newLine 2) (held.addBreak '\r') read .none rest
  | .none, c :: rest =>
    if isBreak c then doubleQuotedScalar (mark.newLine 1) (held.addBreak c) read .none rest
    else if isGap c then doubleQuotedScalar mark.next (held.addSpace c) read .none rest
    else
      let read := held.text.reverse ++ read
      if c = '"' then .ok ⟨read.reverse, mark.next, rest, false⟩
      else if c = '\\' then doubleQuotedScalar mark.next .none read .begun rest
      else doubleQuotedScalar mark.next .none (c :: read) .none rest

end ChartInflation.Yaml

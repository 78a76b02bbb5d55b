/-!
# Characters of documents

The classes of characters that the lexical rules of documents speak of.
-/

set_option autoImplicit false

namespace ChartInflation.Yaml

def isAllowed (c : Char) : Bool :=
  c == '\t' || c == '\n' || c == '\r' || (' ' ≤ c && c ≤ '~') || c == '\u0085' ||
  ('\u00A0' ≤ c && c ≤ '\uFFFD') || '\uFFFF' < c

def isBreak (c : Char) : Bool :=
  c == '\r' || c == '\n' || c == '\u0085' || c == '\u2028' || c == '\u2029'

def isGap (c : Char) : Bool :=
  c == ' ' || c == '\t'

/-- A character of names: of anchors, handles and directives. -/
def isWord (c : Char) : Bool :=
  ('0' ≤ c && c ≤ '9') || ('A' ≤ c && c ≤ 'Z') || ('a' ≤ c && c ≤ 'z') || c == '_' || c == '-'

def isFlowIndicator (c : Char) : Bool :=
  c == ',' || c == '[' || c == ']' || c == '{' || c == '}'

/-- A character of a tag's text, the percent sign of escapes apart. -/
def isTagCharacter (c : Char) : Bool :=
  isWord c || ";/?:@&=+$.!~*'()".toList.contains c

def atSpacing : List Char → Bool
  | [] => true
  | c :: _ => isGap c || isBreak c

def atBreak : List Char → Bool
  | [] => true
  | c :: _ => isBreak c

def hexDigit? (c : Char) : Option Nat :=
  if '0' ≤ c ∧ c ≤ '9' then some (c.toNat - 48)
  else if 'a' ≤ c ∧ c ≤ 'f' then some (c.toNat - 87)
  else if 'A' ≤ c ∧ c ≤ 'F' then some (c.toNat - 55)
  else none

/-- A place in a text.  Columns and lines begin at zero. -/
structure Mark where
  index : Nat
  line : Nat
  /-- The number of characters before it on its line. -/
  column : Nat
deriving DecidableEq, Repr

namespace Mark

def next (m : Mark) : Mark :=
  ⟨m.index + 1, m.line, m.column + 1⟩

def newLine (m : Mark) (width : Nat) : Mark :=
  ⟨m.index + width, m.line + 1, 0⟩

end Mark

/-- What a line break contributes to a text: the two separators of Unicode stand for themselves,
all other breaks for a line feed. -/
def breakText (c : Char) : Char :=
  if c = '\u2028' ∨ c = '\u2029' then c else '\n'

end ChartInflation.Yaml

import ChartInflation.Yaml.Token.Property

/-!
# Cutting a text into tokens

A text without document markers becomes a list of tokens.  Two things are decided late.  A node may
turn out to be a simple key only at the colon behind it: until then it is a *candidate*, and the
token `key` is put in front of it afterwards.  And a block collection ends where a line is indented
less: the open columns are a stack, and each one that is left yields a `blockEnd`.
-/

set_option autoImplicit false

namespace ChartInflation.Yaml

/-- A token that may turn out to begin a simple key. -/
structure Candidate where
  /-- It stands where only a key may stand. -/
  required : Bool
  position : Nat
  mark : Mark
deriving Repr

structure Lexer where
  mark : Mark
  rest : List Char
  /-- The tokens so far, the last one first. -/
  tokens : List Token
  candidate : Option Candidate
  /-- The candidates of the collections around the innermost one, outermost last.  There is one
  for each open flow collection. -/
  outer : List (Option Candidate)
  keyAllowed : Bool
  /-- The column of the innermost block collection, -1 outside of all. -/
  indent : Int
  indents : List Int
deriving Repr

/-- Skips blanks, comments and line breaks.  A line break lets a simple key begin in a block, and
only where none may begin, or in a flow collection, does a tab separate tokens.  One byte order
mark is skipped at the start of a line, where it takes up the first column. -/
def skipSpacing (inFlow : Bool) (comment keyAllowed : Bool) (mark : Mark) :
    List Char → Bool × Mark × List Char
  | [] => (keyAllowed, mark, [])
  | '\r' :: '\n' :: rest =>
    skipSpacing inFlow false (keyAllowed || !inFlow) (mark.newLine 2) rest
  | c :: rest =>
    if isBreak c then skipSpacing inFlow false (keyAllowed || !inFlow) (mark.newLine 1) rest
    else if comment then skipSpacing inFlow true keyAllowed mark.next rest
    else if c == '#' then skipSpacing inFlow true keyAllowed mark.next rest
    else if c == ' ' || (c == '\t' && (inFlow || !keyAllowed)) ||
        (c == '\uFEFF' && mark.column == 0) then
      skipSpacing inFlow false keyAllowed mark.next rest
    else (keyAllowed, mark, c :: rest)

namespace Lexer

def start (mark : Mark) (keyAllowed : Bool) (text : List Char) : Lexer :=
  ⟨mark, text, [], none, [], keyAllowed, -1, []⟩

def inFlow (s : Lexer) : Bool :=
  !s.outer.isEmpty

def push (s : Lexer) (t : Token) : Lexer :=
  { s with tokens := t :: s.tokens }

def insertAt (s : Lexer) (position : Nat) (ts : List Token) : Lexer :=
  let later := s.tokens.length - position
  { s with tokens := s.tokens.take later ++ ts.reverse ++ s.tokens.drop later }

def pass (s : Lexer) (width : Nat) : Lexer :=
  { s with
    mark := ⟨s.mark.index + width, s.mark.line, s.mark.column + width⟩
    rest := s.rest.drop width }

def moveTo (s : Lexer) (mark : Mark) (rest : List Char) : Lexer :=
  { s with mark := mark, rest := rest }

/-- Gives the candidate up, which a required one does not allow. -/
def dropCandidate (s : Lexer) : Except Fault Lexer :=
  match s.candidate with
  | some c => if c.required then .error .missingColon else .ok { s with candidate := none }
  | none => .ok s

def saveCandidate (s : Lexer) : Except Fault Lexer :=
  if s.keyAllowed then do
    let s ← s.dropCandidate
    let required := !s.inFlow && s.indent == (s.mark.column : Int)
    return { s with candidate := some ⟨required, s.tokens.length, s.mark⟩ }
  else .ok s

/-- The candidate, as long as a colon here makes it a key: it must be on the same line and at most
1024 characters away. -/
def liveCandidate (s : Lexer) : Except Fault (Option Candidate) :=
  match s.candidate with
  | none => .ok none
  | some c =>
    if c.mark.line < s.mark.line ∨ c.mark.index + 1024 < s.mark.index then
      if c.required then .error .missingColon else .ok none
    else .ok (some c)

def unwind (column : Int) (indent : Int) : List Int → Nat × Int × List Int
  | [] => (0, indent, [])
  | i :: rest =>
    if indent > column then
      let (n, indent, indents) := unwind column i rest
      (n + 1, indent, indents)
    else (0, indent, i :: rest)

def closeBlocks (s : Lexer) (column : Int) : Lexer :=
  if s.inFlow then s
  else
    let (n, indent, indents) := unwind column s.indent s.indents
    { s with
      tokens := List.replicate n .blockEnd ++ s.tokens
      indent := indent
      indents := indents }

/-- Opens a block collection at a column that lies behind the innermost one, at a position among
the tokens. -/
def openBlock (s : Lexer) (column : Nat) (position : Nat) (t : Token) : Lexer :=
  if s.inFlow ∨ s.indent ≥ (column : Int) then s
  else { s.insertAt position [t] with indent := column, indents := s.indent :: s.indents }

def finish (s : Lexer) : Except Fault (List Token) := do
  let s ← (s.closeBlocks (-1)).dropCandidate
  return s.tokens.reverse

/-- Reads a directive, which closes all blocks. -/
def directiveToken (s : Lexer) : Except Fault Lexer := do
  let s ← (s.closeBlocks (-1)).dropCandidate
  let d ← directive s.mark.next (s.rest.drop 1)
  return { (s.push (.directive d.item)).moveTo d.mark d.rest with keyAllowed := false }

def openFlow (s : Lexer) (t : Token) : Except Fault Lexer := do
  let s ← s.saveCandidate
  return { (s.push t).pass 1 with
    outer := s.candidate :: s.outer, candidate := none, keyAllowed := true }

def closeFlow (s : Lexer) (t : Token) : Except Fault Lexer := do
  let s ← s.dropCandidate
  let s := { (s.push t).pass 1 with keyAllowed := false }
  match s.outer with
  | c :: outer => return { s with candidate := c, outer := outer }
  | [] => return s

def flowEntryToken (s : Lexer) : Except Fault Lexer := do
  let s ← s.dropCandidate
  return { (s.push .flowEntry).pass 1 with keyAllowed := true }

def blockEntryToken (s : Lexer) : Except Fault Lexer := do
  if !s.inFlow && !s.keyAllowed then throw .token
  let s := s.openBlock s.mark.column s.tokens.length .blockSequenceStart
  let s ← s.dropCandidate
  return { (s.push .blockEntry).pass 1 with keyAllowed := true }

def keyToken (s : Lexer) : Except Fault Lexer := do
  if !s.inFlow && !s.keyAllowed then throw .token
  let s := s.openBlock s.mark.column s.tokens.length .blockMappingStart
  let s ← s.dropCandidate
  return { (s.push .key).pass 1 with keyAllowed := !s.inFlow }

/-- The colon of a value, which makes a live candidate a key. -/
def valueToken (s : Lexer) : Except Fault Lexer := do
  match ← s.liveCandidate with
  | some c =>
    let s := s.insertAt c.position [.key]
    let s := s.openBlock c.mark.column c.position .blockMappingStart
    return { (s.push .value).pass 1 with candidate := none, keyAllowed := false }
  | none =>
    if !s.inFlow && !s.keyAllowed then throw .token
    let s := s.openBlock s.mark.column s.tokens.length .blockMappingStart
    return { (s.push .value).pass 1 with candidate := none, keyAllowed := !s.inFlow }

def anchorToken (s : Lexer) (make : String → Token) : Except Fault Lexer := do
  let s ← s.saveCandidate
  let name ← anchorName s.mark.next (s.rest.drop 1)
  return { (s.push (make name.item)).moveTo name.mark name.rest with keyAllowed := false }

def tagToken (s : Lexer) : Except Fault Lexer := do
  let s ← s.saveCandidate
  let tag ← tagProperty s.inFlow s.mark.next (s.rest.drop 1)
  return { (s.push (.tag tag.item.1 tag.item.2)).moveTo tag.mark tag.rest with
    keyAllowed := false }

def blockScalarToken (s : Lexer) (style : Style) : Except Fault Lexer := do
  let s ← s.dropCandidate
  let scalar ← blockScalar (style == .folded) s.indent s.mark.next (s.rest.drop 1)
  return { (s.push (.scalar style (String.ofList scalar.text))).moveTo scalar.mark scalar.rest with
    keyAllowed := true }

def flowScalarToken (s : Lexer) (style : Style) (read : Lexer → Except Fault Lexeme) :
    Except Fault Lexer := do
  let s ← s.saveCandidate
  let scalar ← read s
  return { (s.push (.scalar style (String.ofList scalar.text))).moveTo scalar.mark scalar.rest with
    keyAllowed := scalar.afterBreak }

def isIndicator (c : Char) : Bool :=
  "-?:,[]\x7b\x7d#&*!|>'\"%@`".toList.contains c

/-- Whether a plain scalar begins with a character, before a text.  A tab that does not separate
tokens begins nothing. -/
def beginsPlain (inFlow : Bool) (c : Char) (rest : List Char) : Bool :=
  (!isIndicator c && !isGap c) || c == '-' || (!inFlow && (c == '?' || c == ':') && !atSpacing rest)

def token (s : Lexer) (c : Char) (rest : List Char) : Except Fault Lexer :=
  let spaced := atSpacing rest
  if s.mark.column = 0 ∧ c = '%' then s.directiveToken
  else if c = '[' then s.openFlow .flowSequenceStart
  else if c = '{' then s.openFlow .flowMappingStart
  else if c = ']' then s.closeFlow .flowSequenceEnd
  else if c = '}' then s.closeFlow .flowMappingEnd
  else if c = ',' then s.flowEntryToken
  else if c = '-' ∧ spaced then s.blockEntryToken
  else if c = '?' ∧ (s.inFlow ∨ spaced) then s.keyToken
  else if c = ':' ∧ (s.inFlow ∨ spaced) then s.valueToken
  else if c = '*' then s.anchorToken .alias
  else if c = '&' then s.anchorToken .anchor
  else if c = '!' then s.tagToken
  else if c = '|' ∧ !s.inFlow then s.blockScalarToken .literal
  else if c = '>' ∧ !s.inFlow then s.blockScalarToken .folded
  else if c = '\'' then
    s.flowScalarToken .singleQuoted fun s =>
      singleQuotedScalar s.mark.next .none [] (s.rest.drop 1)
  else if c = '"' then
    s.flowScalarToken .doubleQuoted fun s =>
      doubleQuotedScalar s.mark.next .none [] .none (s.rest.drop 1)
  else if beginsPlain s.inFlow c rest then
    s.flowScalarToken .plain fun s =>
      plainScalar ⟨s.inFlow, s.indent + 1⟩ s.mark .none [] s.rest
  else .error .token

/-- Reads tokens to the end of the text.  Each one takes at least a character, so the length of
the text bounds their number. -/
def run : Nat → Lexer → Except Fault (List Token)
  | 0, _ => .error .token
  | fuel + 1, s => do
    let (keyAllowed, mark, rest) := skipSpacing s.inFlow false s.keyAllowed s.mark s.rest
    let s := { s with keyAllowed := keyAllowed, mark := mark, rest := rest }
    match rest with
    | [] => s.finish
    | c :: rest =>
      let s := s.closeBlocks mark.column
      run fuel (← s.token c rest)

end Lexer

def tokens (mark : Mark) (keyAllowed : Bool) (text : List Char) : Except Fault (List Token) :=
  (Lexer.start mark keyAllowed text).run (text.length + 1)

end ChartInflation.Yaml

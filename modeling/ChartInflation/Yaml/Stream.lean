import ChartInflation.Yaml.Node.Grammar
import ChartInflation.Yaml.Token.Lexer

/-!
# Streams of documents

A marker line begins with `---` or `...` at its very start, and a blank or the end of the line
follows.  Marker lines cut a text into *sections* whatever stands around them: the text in front of
the first marker, and behind each marker the text up to the next one.  A section holds the content
of at most one document and then directives for the next one.

The first section may hold a document without a marker; every other document begins at `---`.
-/

set_option autoImplicit false

namespace ChartInflation.Yaml

inductive Opening where
  | stream
  /-- Behind `---`. -/
  | start
  /-- Behind `...`. -/
  | finish
deriving DecidableEq, Repr

def marker? : List Char → Option Opening
  | '-' :: '-' :: '-' :: rest => if atSpacing rest then some .start else none
  | '.' :: '.' :: '.' :: rest => if atSpacing rest then some .finish else none
  | _ => none

def consFirst (c : Char) : List (Opening × List Char) → List (Opening × List Char)
  | (opening, text) :: rest => (opening, c :: text) :: rest
  | [] => []

/-- Cuts a text into sections, the first one opened as given.  `lineStart` tells whether the text
begins at the start of a line.  A marker is three characters, which `skip` counts off. -/
def cut (opening : Opening) (lineStart : Bool) (skip : Nat) :
    List Char → List (Opening × List Char)
  | [] => [(opening, [])]
  | c :: rest =>
    match skip with
    | n + 1 => cut opening false n rest
    | 0 =>
      match (if lineStart then marker? (c :: rest) else none) with
      | some next => (opening, []) :: cut next false 2 rest
      | none => consFirst c (cut opening (isBreak c) 0 rest)

def sections (text : List Char) : List (Opening × List Char) :=
  cut .stream true 0 text

structure Section where
  opening : Opening
  content : List Token
  directives : List Directive
deriving Repr

def directivesOnly : List Token → Except Fault (List Directive)
  | [] => .ok []
  | .directive d :: rest => do return d :: (← directivesOnly rest)
  | _ :: _ => .error .noNode

def isDirective : Token → Bool
  | .directive _ => true
  | _ => false

/-- Reads a section.  No simple key may begin on the line of a marker. -/
def readSection (opening : Opening) (text : List Char) : Except Fault Section := do
  let ts ← match opening with
    | .stream => tokens ⟨0, 0, 0⟩ true text
    | _ => tokens ⟨3, 0, 3⟩ false text
  let content := ts.takeWhile (!isDirective ·)
  let directives ← directivesOnly (ts.dropWhile (!isDirective ·))
  return ⟨opening, content, directives⟩

def standardHandles : Handles :=
  [("!", Utf8.encode ['!']), ("!!", Utf8.encode "tag:yaml.org,2002:".toList)]

/-- The handles that directives define.  The version must be 1.1 or 1.2, and no directive may be
repeated. -/
def handlesOf : List Directive → Except Fault (Bool × Handles)
  | [] => .ok (false, [])
  | d :: rest => do
    let (versioned, handles) ← handlesOf rest
    match d with
    | .version major minor =>
      if versioned ∨ major ≠ 1 ∨ (minor ≠ 1 ∧ minor ≠ 2) then throw .directive
      return (true, handles)
    | .handle name start =>
      if (handles.lookup name).isSome then throw .directive
      return (versioned, (name, start) :: handles)

def readContent (pending : List Directive) (content : List Token) : Except Fault Document := do
  let (_, handles) ← handlesOf pending
  if content.isEmpty then return .content Node.empty
  return .content (← Node.ofTokens (handles ++ standardHandles) content)

def laterDocuments : List Directive → List Section → Except Fault (List Document)
  | [], [] => .ok []
  | _ :: _, [] => .error .directive
  | pending, s :: rest =>
    match s.opening with
    | .start => do
      let document ← readContent pending s.content
      return document :: (← laterDocuments s.directives rest)
    | _ =>
      if !pending.isEmpty then .error .directive
      else if !s.content.isEmpty then .error .documentStart
      else laterDocuments s.directives rest

/-- The documents of the sections of a stream.  A document in front of the first marker has no
directives, and `...` may not open the stream. -/
def documentsOf : List Section → Except Fault (List Document)
  | [] => .ok []
  | s :: rest =>
    if s.content.isEmpty then
      match s.directives, rest with
      | [], ⟨.finish, _, _⟩ :: _ => .error .documentStart
      | directives, rest => laterDocuments directives rest
    else do
      let document ← readContent [] s.content
      return document :: (← laterDocuments s.directives rest)

/-- The documents of a text.  A stream without a document counts as one that holds nothing. -/
def documentsOfText (text : List Char) : Except Fault (List Document) := do
  if !text.all isAllowed then throw .character
  let sections ← (sections text).mapM fun s => readSection s.1 s.2
  let documents ← documentsOf sections
  return if documents.isEmpty then [.void] else documents

def documents (bytes : Bytes) : Except Fault (List Document) :=
  match Utf8.decode? bytes with
  | none => .error .encoding
  | some text => documentsOfText text

end ChartInflation.Yaml

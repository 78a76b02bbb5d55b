import ChartInflation.Yaml.Node
import ChartInflation.Yaml.Fault

/-!
# From tokens to nodes

The grammar of documents over tokens.  Each function takes the tokens from where its construct
begins and gives back those behind it.  A place where nothing is written holds the empty node.
-/

set_option autoImplicit false

namespace ChartInflation.Yaml

abbrev Handles := List (String × Bytes)

/-- The tokens still to be read and the anchors met so far with their numbers. -/
structure Remaining where
  tokens : List Token
  anchors : List (String × Nat)
deriving Repr

namespace Remaining

def skip (s : Remaining) : Remaining :=
  { s with tokens := s.tokens.drop 1 }

def at? (s : Remaining) (ts : List Token) : Bool :=
  match s.tokens with
  | t :: _ => ts.contains t
  | [] => false

def atEndOr (s : Remaining) (ts : List Token) : Bool :=
  s.tokens.isEmpty || s.at? ts

/-- Gives an anchor its number: how many names of anchors are known so far.  An anchor that is used
again replaces the old one without adding a name, so the next new name gets the same number. -/
def addAnchor (s : Remaining) (name : String) : Remaining × Nat :=
  let number := s.anchors.length
  ({ s with anchors := (name, number) :: s.anchors.filter (·.1 != name) }, number)

end Remaining

def resolveTag (handles : Handles) (handle : String) (suffix : Bytes) : Except Fault Bytes :=
  if handle.isEmpty then .ok suffix
  else match handles.lookup handle with
    | some start => .ok (start ++ suffix)
    | none => .error .unknownHandle

def properties (s : Remaining) : Option String × Option (String × Bytes) × Remaining :=
  match s.tokens with
  | .anchor name :: .tag handle suffix :: rest
  | .tag handle suffix :: .anchor name :: rest =>
    (some name, some (handle, suffix), { s with tokens := rest })
  | .anchor name :: rest => (some name, none, { s with tokens := rest })
  | .tag handle suffix :: rest => (none, some (handle, suffix), { s with tokens := rest })
  | _ => (none, none, s)

inductive Place where
  /-- The root of a document or an entry of a block sequence. -/
  | block
  /-- A key or a value of a block mapping, where a sequence need not be indented. -/
  | blockMapping
  | flow
deriving DecidableEq, Repr

mutual

def parseNode (handles : Handles) (place : Place) :
    Nat → Remaining → Except Fault (Node × Remaining)
  | 0, _ => .error .noNode
  | fuel + 1, s =>
    match s.tokens with
    | .alias name :: _ =>
      match s.anchors.lookup name with
      | some number => .ok (.alias number, s.skip)
      | none => .error .unknownAnchor
    | _ => do
      let (name, tag, s) := properties s
      let tag ← tag.mapM fun t => resolveTag handles t.1 t.2
      let (s, number) :=
        match name with
        | some name => let (s, number) := s.addAnchor name; (s, some number)
        | none => (s, none)
      let p : Properties := ⟨number, tag⟩
      match s.tokens, place with
      | .scalar style text :: _, _ => return (.scalar p style text, s.skip)
      | .flowSequenceStart :: _, _ =>
        let (items, s) ← parseFlowSequence handles fuel true s.skip
        return (.sequence p items, s)
      | .flowMappingStart :: _, _ =>
        let (entries, s) ← parseFlowMapping handles fuel true s.skip
        return (.mapping p entries, s)
      | .blockEntry :: _, .blockMapping =>
        let (items, s) ← parseFlatSequence handles fuel s
        return (.sequence p items, s)
      | .blockSequenceStart :: _, .block | .blockSequenceStart :: _, .blockMapping =>
        let (items, s) ← parseBlockSequence handles fuel s.skip
        return (.sequence p items, s)
      | .blockMappingStart :: _, .block | .blockMappingStart :: _, .blockMapping =>
        let (entries, s) ← parseBlockMapping handles fuel s.skip
        return (.mapping p entries, s)
      | _, _ => if p.isSome then return (.scalar p .plain "", s) else throw .noNode

def parseBlockSequence (handles : Handles) :
    Nat → Remaining → Except Fault (List Node × Remaining)
  | 0, _ => .error .noNode
  | fuel + 1, s =>
    match s.tokens with
    | .blockEntry :: _ => do
      let s := s.skip
      let (item, s) ←
        if s.atEndOr [.blockEntry, .blockEnd] then pure (Node.empty, s)
        else parseNode handles .block fuel s
      let (items, s) ← parseBlockSequence handles fuel s
      return (item :: items, s)
    | .blockEnd :: _ => .ok ([], s.skip)
    | _ => .error .noNode

/-- The entries of a block sequence that stands in the column of the mapping around it.  Nothing
marks its end. -/
def parseFlatSequence (handles : Handles) :
    Nat → Remaining → Except Fault (List Node × Remaining)
  | 0, _ => .error .noNode
  | fuel + 1, s =>
    match s.tokens with
    | .blockEntry :: _ => do
      let s := s.skip
      let (item, s) ←
        if s.atEndOr [.blockEntry, .key, .value, .blockEnd] then pure (Node.empty, s)
        else parseNode handles .block fuel s
      let (items, s) ← parseFlatSequence handles fuel s
      return (item :: items, s)
    | _ => .ok ([], s)

def parseBlockMapping (handles : Handles) :
    Nat → Remaining → Except Fault (List (Node × Node) × Remaining)
  | 0, _ => .error .noNode
  | fuel + 1, s =>
    match s.tokens with
    | .key :: _ => do
      let s := s.skip
      let (key, s) ←
        if s.atEndOr [.key, .value, .blockEnd] then pure (Node.empty, s)
        else parseNode handles .blockMapping fuel s
      let (value, s) ←
        if s.at? [.value] then
          if s.skip.atEndOr [.key, .value, .blockEnd] then pure (Node.empty, s.skip)
          else parseNode handles .blockMapping fuel s.skip
        else pure (Node.empty, s)
      let (entries, s) ← parseBlockMapping handles fuel s
      return ((key, value) :: entries, s)
    | .blockEnd :: _ => .ok ([], s.skip)
    | _ => .error .noNode

/-- The items of a flow sequence.  A key among them makes a mapping of one entry; where that key is
empty, the token behind it is lost. -/
def parseFlowSequence (handles : Handles) :
    Nat → Bool → Remaining → Except Fault (List Node × Remaining)
  | 0, _, _ => .error .noNode
  | fuel + 1, first, s => do
    if s.at? [.flowSequenceEnd] then return ([], s.skip)
    let s ←
      if first then pure s
      else if s.at? [.flowEntry] then pure s.skip
      else throw .noNode
    if s.at? [.key] then
      let s := s.skip
      let (key, s) ←
        if s.atEndOr [.value, .flowEntry, .flowSequenceEnd] then pure (Node.empty, s.skip)
        else parseNode handles .flow fuel s
      let (value, s) ←
        if s.at? [.value] then
          if s.skip.atEndOr [.flowEntry, .flowSequenceEnd] then pure (Node.empty, s.skip)
          else parseNode handles .flow fuel s.skip
        else pure (Node.empty, s)
      let (items, s) ← parseFlowSequence handles fuel false s
      return (.mapping .none [(key, value)] :: items, s)
    else if s.at? [.flowSequenceEnd] then return ([], s.skip)
    else
      let (item, s) ← parseNode handles .flow fuel s
      let (items, s) ← parseFlowSequence handles fuel false s
      return (item :: items, s)

/-- The entries of a flow mapping.  A node without a key's mark is a key without a value. -/
def parseFlowMapping (handles : Handles) :
    Nat → Bool → Remaining → Except Fault (List (Node × Node) × Remaining)
  | 0, _, _ => .error .noNode
  | fuel + 1, first, s => do
    if s.at? [.flowMappingEnd] then return ([], s.skip)
    let s ←
      if first then pure s
      else if s.at? [.flowEntry] then pure s.skip
      else throw .noNode
    if s.at? [.key] then
      let s := s.skip
      let (key, s) ←
        if s.atEndOr [.value, .flowEntry, .flowMappingEnd] then pure (Node.empty, s)
        else parseNode handles .flow fuel s
      let (value, s) ←
        if s.at? [.value] then
          if s.skip.atEndOr [.flowEntry, .flowMappingEnd] then pure (Node.empty, s.skip)
          else parseNode handles .flow fuel s.skip
        else pure (Node.empty, s)
      let (entries, s) ← parseFlowMapping handles fuel false s
      return ((key, value) :: entries, s)
    else if s.at? [.flowMappingEnd] then return ([], s.skip)
    else
      let (key, s) ← parseNode handles .flow fuel s
      let (entries, s) ← parseFlowMapping handles fuel false s
      return ((key, Node.empty) :: entries, s)

end

/-- The node that all of some tokens make.  No construct nests deeper than twice the number of its
tokens. -/
def Node.ofTokens (handles : Handles) (ts : List Token) : Except Fault Node := do
  let (node, s) ← parseNode handles .block (2 * ts.length + 2) ⟨ts, []⟩
  if s.tokens.isEmpty then return node else throw .noNode

end ChartInflation.Yaml

import ChartInflation.Yaml.Scalar
import ChartInflation.Yaml.Stream
import ChartInflation.Yaml.Value

/-!
# From nodes to values

Reading a document as a tree of values.  Aliases are followed, at most so often as the length of
the document allows, and collections may be nested `depthLimit` deep; an anchor inside its own node
therefore ends in a fault.
-/

set_option autoImplicit false

namespace ChartInflation.Yaml

/-- Reading a document, with the number of aliases followed so far. -/
abbrev Decoder := StateT Nat (Except Fault)

def depthLimit : Nat := 128

namespace Decoder

def fail {α : Type} (f : Fault) : Decoder α :=
  throw f

def follow (document : Document) (anchor : Nat) : Decoder Node := do
  let followed ← get
  if followed + 1 > document.aliasLimit then fail .repetition
  else
    set (followed + 1)
    match document.target? anchor with
    | some node => return node
    | none => fail .unknownAnchor

/-- The node that is meant: an alias is followed.  No alias has an anchor. -/
def meant (document : Document) : Node → Decoder Node
  | .alias anchor => follow document anchor
  | node => return node

end Decoder

def standardTag? (tag : Bytes) : Option String :=
  let start := Utf8.encode "tag:yaml.org,2002:".toList
  if start.isPrefixOf tag then Bytes.toString? (tag.drop start.length) else none

def beginsLocal (tag : Bytes) : Bool :=
  tag.head? == some 0x21

/-- A local tag.  Octets that are no text make none. -/
def localTag? : Option Bytes → Option Tag
  | some (b :: rest) =>
    if beginsLocal (b :: rest) then
      (Bytes.toString? (if rest.isEmpty then [b] else rest)).map Tag.ofText
    else none
  | _ => none

def plainValue (text : String) : Except Fault Value :=
  match Scalar.meaning text with
  | .null => .ok .null
  | .bool b => .ok (.bool b)
  | .int i => if Number.inRange i then .ok (.int i) else .error .range
  | .float x => .ok (.number (.float x))
  | .string => .ok (.string text)

def styledValue (style : Style) (text : String) : Except Fault Value :=
  if style = .plain then plainValue text else .ok (.string text)

/-- The value of a scalar with a tag that does not begin as a local one.  The tag of a standard type
must fit the text whatever its style; any other tag makes a string. -/
def standardValue (tag : Bytes) (text : String) : Except Fault Value :=
  match standardTag? tag with
  | some "bool" =>
    match Scalar.bool? text with
    | some b => .ok (.bool b)
    | none => .error .mismatch
  | some "int" =>
    match Scalar.int? text.toList with
    | some i => if Number.inRange i then .ok (.int i) else .error .range
    | none => .error .mismatch
  | some "float" =>
    match Scalar.float? text.toList with
    | some x => .ok (.number (.float x))
    | none => .error .mismatch
  | some "null" => if Scalar.isNullWord text then .ok .null else .error .mismatch
  | _ => .ok (.string text)

def scalarValue (tag : Option Bytes) (style : Style) (text : String) : Except Fault Value :=
  match localTag? tag, tag with
  | some tag, _ => do return .tagged tag (← styledValue style text)
  | none, some tag =>
    if beginsLocal tag then styledValue style text else standardValue tag text
  | none, none => styledValue style text

def underTag (tag : Option Bytes) (value : Value) : Value :=
  match localTag? tag with
  | some tag => .tagged tag value
  | none => value

def decodeItems (inner : Node → Decoder Value) : List Node → Decoder (List Value)
  | [] => return []
  | n :: rest => do
    let v ← inner n
    return v :: (← decodeItems inner rest)

/-- The entries of a mapping, behind those that were read.  No key may stand twice. -/
def decodeEntries (inner : Node → Decoder Value) (read : Mapping) :
    List (Node × Node) → Decoder Mapping
  | [] => return read
  | (k, v) :: rest => do
    let key ← inner k
    if (Mapping.get? read key).isSome then Decoder.fail .duplicateKey
    else
      let value ← inner v
      decodeEntries inner (read ++ [(key, value)]) rest

/-- The value of a node, given how those inside a collection are read.  With `inner` missing, no
further level of collections is allowed. -/
def decodeWith (document : Document) (inner : Option (Node → Decoder Value)) (node : Node) :
    Decoder Value := do
  match ← Decoder.meant document node, inner with
  | .alias _, _ => Decoder.fail .unknownAnchor
  | .scalar p style text, _ => scalarValue p.tag style text
  | .sequence p items, some inner => return underTag p.tag (.sequence (← decodeItems inner items))
  | .mapping p entries, some inner =>
    return underTag p.tag (.mapping (← decodeEntries inner [] entries))
  | _, none => Decoder.fail .depth

def decodeNode (document : Document) : Nat → Node → Decoder Value
  | 0 => decodeWith document none
  | levels + 1 => decodeWith document (some (decodeNode document levels))

def Value.ofDocument (document : Document) : Except Fault Value :=
  match document with
  | .void => .ok .null
  | .content root => (·.1) <$> (decodeNode document depthLimit root).run 0

def Value.ofStream (bytes : Bytes) : Except Fault (List Value) := do
  (← documents bytes).mapM Value.ofDocument

def onlyDocument (bytes : Bytes) : Except Fault Document := do
  match ← documents bytes with
  | [document] => return document
  | _ => throw .documentCount

def Value.ofBytes (bytes : Bytes) : Except Fault Value := do
  Value.ofDocument (← onlyDocument bytes)

end ChartInflation.Yaml

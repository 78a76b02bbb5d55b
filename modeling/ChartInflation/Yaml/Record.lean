import ChartInflation.Yaml.Decoder

/-!
# Documents of a fixed shape

A record is a mapping whose keys are the names of fields, each with a type of its own.  Keys that
name no field are passed over with their values, a field that stands twice is a fault, and a record
of which nothing is written has no field at all.

Types are read from the node and not from a value: a text is the scalar as it is written, so `1.10`
stays `1.10`, whatever a plain scalar of that spelling would mean elsewhere.
-/

set_option autoImplicit false

namespace ChartInflation.Yaml

def isAbsent (style : Style) (text : String) : Bool :=
  style == .plain && text.isEmpty

def decodeText (document : Document) (node : Node) : Decoder String := do
  match ← Decoder.meant document node with
  | .scalar _ _ text => return text
  | _ => Decoder.fail .mismatch

/-- Whether a scalar stands for nothing where a text is optional.  The tag for null must fit. -/
def standsForNone (tag : Option Bytes) (style : Style) (text : String) : Except Fault Bool :=
  if style ≠ .plain then .ok false
  else match tag with
    | some tag =>
      if standardTag? tag = some "null" then
        if Scalar.isNullWord text then .ok true else .error .mismatch
      else .ok false
    | none => .ok (text.isEmpty || Scalar.isNullWord text)

def decodeOptionalText (document : Document) (node : Node) : Decoder (Option String) := do
  match ← Decoder.meant document node with
  | .scalar p style text =>
    if ← standsForNone p.tag style text then return none else return some text
  | _ => Decoder.fail .mismatch

/-- A boolean: a plain scalar, or a literal one with the tag for booleans. -/
def decodeFlag (document : Document) (node : Node) : Decoder Bool := do
  match ← Decoder.meant document node with
  | .scalar p style text =>
    let tagged := (p.tag.bind standardTag?) == some "bool"
    if style == .plain || (style == .literal && tagged) then
      match Scalar.bool? text with
      | some b => return b
      | none => Decoder.fail .mismatch
    else Decoder.fail .mismatch
  | _ => Decoder.fail .mismatch

def decodeTextItems (document : Document) : List Node → Decoder (List String)
  | [] => return []
  | n :: rest => do
    let text ← decodeText document n
    return text :: (← decodeTextItems document rest)

def decodeTexts (document : Document) (node : Node) : Decoder (List String) := do
  match ← Decoder.meant document node with
  | .sequence _ items => decodeTextItems document items
  | .scalar _ style text => if isAbsent style text then return [] else Decoder.fail .mismatch
  | _ => Decoder.fail .mismatch

def decodeInner (document : Document) (node : Node) : Decoder Value :=
  decodeNode document (depthLimit - 1) node

/-- How a record of type `α` takes up one field: by its name, the value of its node is put in. -/
abbrev FieldReader (α : Type) := Document → String → Option (α → Node → Decoder α)

def decodeFields {α : Type} (reader : FieldReader α) (document : Document) (seen : List String)
    (record : α) : List (Node × Node) → Decoder α
  | [] => return record
  | (k, v) :: rest => do
    let name ← decodeText document k
    match reader document name with
    | none => decodeFields reader document seen record rest
    | some read =>
      if seen.contains name then Decoder.fail .duplicateKey
      else
        let record ← read record v
        decodeFields reader document (name :: seen) record rest

def decodeRecord {α : Type} (reader : FieldReader α) (record : α) (document : Document) :
    Except Fault α :=
  match document with
  | .void => .ok record
  | .content (.mapping _ entries) =>
    (·.1) <$> (decodeFields reader document [] record entries).run 0
  | .content (.scalar _ style text) =>
    if isAbsent style text then .ok record else .error .mismatch
  | .content _ => .error .mismatch

def recordOfBytes {α : Type} (reader : FieldReader α) (record : α) (bytes : Bytes) :
    Except Fault α := do
  decodeRecord reader record (← onlyDocument bytes)

end ChartInflation.Yaml

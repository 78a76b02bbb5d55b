import ChartInflation.Text.Pieces
import ChartInflation.Yaml.Printer

/-!
# JSON

Document trees as JSON.  The keys of JSON are strings, so a number or a boolean becomes the string
that spells it, and a tree with any other key that is no string cannot be written.  A tagged value
is an object whose only key is the tag, and numbers that are not finite become null.
-/

set_option autoImplicit false

namespace ChartInflation

open Yaml (Value)

inductive JsonValue where
  | null
  | bool (b : Bool)
  | number (text : String)
  | string (s : String)
  | array (items : List JsonValue)
  | object (members : List (String × JsonValue))
deriving Repr

namespace JsonValue

/-- JSON has at most sixteen digits in front of the point and four zeros behind it, and signs every
exponent. -/
def decimalStyle : Binary64.DecimalStyle := ⟨16, 4, "e+"⟩

def numberText? : Number → Option String
  | .int i => some (toString i)
  | .float x => if x.isFinite then some (x.text decimalStyle) else none

def keyText? : Value → Option String
  | .string s => some s
  | .bool b => some (if b then "true" else "false")
  | .number n => numberText? n
  | _ => none

mutual

def ofValue? : Value → Option JsonValue
  | .null => some .null
  | .bool b => some (.bool b)
  | .number n => some (match numberText? n with | some text => .number text | none => .null)
  | .string s => some (.string s)
  | .sequence items => (ofItems? items).map .array
  | .mapping entries => (ofEntries? entries).map .object
  | .tagged tag v => (ofValue? v).map fun j => .object [(tag.text, j)]

def ofItems? : List Value → Option (List JsonValue)
  | [] => some []
  | v :: rest => do
    let j ← ofValue? v
    let more ← ofItems? rest
    return j :: more

def ofEntries? : List (Value × Value) → Option (List (String × JsonValue))
  | [] => some []
  | (k, v) :: rest => do
    let key ← keyText? k
    let j ← ofValue? v
    let more ← ofEntries? rest
    return (key, j) :: more

end

def escape (c : Char) : List Char :=
  if c = '"' then ['\\', '"']
  else if c = '\\' then ['\\', '\\']
  else if c = '\x08' then ['\\', 'b']
  else if c = '\x0C' then ['\\', 'f']
  else if c = '\n' then ['\\', 'n']
  else if c = '\r' then ['\\', 'r']
  else if c = '\t' then ['\\', 't']
  else if c < ' ' then
    ['\\', 'u', '0', '0'] ++ [Nat.digitChar (c.toNat / 16), Nat.digitChar (c.toNat % 16)]
  else [c]

def stringText (s : String) : String :=
  String.ofList ('"' :: s.toList.flatMap escape ++ ['"'])

mutual

def compact : JsonValue → String
  | .null => "null"
  | .bool b => if b then "true" else "false"
  | .number text => text
  | .string s => stringText s
  | .array items => "[" ++ joined "," (compactItems items) ++ "]"
  | .object members => "\x7b" ++ joined "," (compactMembers members) ++ "\x7d"

def compactItems : List JsonValue → List String
  | [] => []
  | j :: rest => j.compact :: compactItems rest

def compactMembers : List (String × JsonValue) → List String
  | [] => []
  | (key, j) :: rest => (stringText key ++ ":" ++ j.compact) :: compactMembers rest

end

/-- Lines between two brackets, indented by two columns more than the brackets. -/
def block (indent : Nat) (opening closing : String) (lines : List String) : String :=
  let blanks := fun n => String.ofList (List.replicate n ' ')
  if lines.isEmpty then opening ++ closing
  else
    opening ++ "\n" ++ joined ",\n" (lines.map (blanks (indent + 2) ++ ·)) ++ "\n" ++
      blanks indent ++ closing

mutual

/-- The text of a value with a line for each item and member. -/
def pretty (indent : Nat) : JsonValue → String
  | .array items => block indent "[" "]" (prettyItems (indent + 2) items)
  | .object members => block indent "\x7b" "\x7d" (prettyMembers (indent + 2) members)
  | .null => "null"
  | .bool b => if b then "true" else "false"
  | .number text => text
  | .string s => stringText s

def prettyItems (indent : Nat) : List JsonValue → List String
  | [] => []
  | j :: rest => j.pretty indent :: prettyItems indent rest

def prettyMembers (indent : Nat) : List (String × JsonValue) → List String
  | [] => []
  | (key, j) :: rest => (stringText key ++ ": " ++ j.pretty indent) :: prettyMembers indent rest

end

end JsonValue

end ChartInflation

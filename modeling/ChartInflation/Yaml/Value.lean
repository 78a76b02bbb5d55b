import ChartInflation.Number

/-!
# Document trees

The values that documents hold.  A mapping is a list of entries in the order in which they were
written, and its keys are pairwise different under `Value.same`; a key may be any value.  A tagged
value carries a local tag.

`Value.same` is the equality of documents: mappings count as equal whatever the order of their
entries, and numbers are compared by `Number.same`.
-/

set_option autoImplicit false

namespace ChartInflation.Yaml

/-- A local tag, held without the exclamation mark in front of it. -/
structure Tag where
  name : String
deriving DecidableEq, Repr

namespace Tag

/-- A text without one exclamation mark in front, unless nothing else would be left. -/
def withoutBang (text : String) : String :=
  match text.toList with
  | '!' :: c :: rest => String.ofList (c :: rest)
  | _ => text

def ofText (text : String) : Tag :=
  ⟨withoutBang text⟩

def text (tag : Tag) : String :=
  "!" ++ tag.name

end Tag

inductive Value where
  | null
  | bool (b : Bool)
  | number (n : Number)
  | string (s : String)
  | sequence (items : List Value)
  | mapping (entries : List (Value × Value))
  | tagged (tag : Tag) (value : Value)
deriving Repr

instance : Inhabited Value := ⟨.null⟩

abbrev Mapping := List (Value × Value)

mutual

def Value.same : Value → Value → Bool
  | .null, .null => true
  | .bool a, .bool b => a == b
  | .number a, .number b => a.same b
  | .string a, .string b => a == b
  | .sequence xs, .sequence ys => Value.sameItems xs ys
  | .mapping es, .mapping fs => es.length == fs.length && Value.eachIn es fs
  | .tagged t v, .tagged u w => t == u && v.same w
  | _, _ => false

def Value.sameItems : List Value → List Value → Bool
  | [], [] => true
  | x :: xs, y :: ys => x.same y && Value.sameItems xs ys
  | _, _ => false

def Value.eachIn : List (Value × Value) → List (Value × Value) → Bool
  | [], _ => true
  | (k, v) :: rest, fs =>
    (match fs.find? fun f => k.same f.1 with
      | some f => v.same f.2
      | none => false) && Value.eachIn rest fs

end

namespace Mapping

def get? : Mapping → Value → Option Value
  | [], _ => none
  | (k, v) :: rest, key => if k.same key then some v else get? rest key

def field? (entries : Mapping) (name : String) : Option Value :=
  get? entries (.string name)

/-- Puts a value under a key: in the key's place if it is there, else at the end. -/
def insert : Mapping → Value → Value → Mapping
  | [], key, value => [(key, value)]
  | (k, v) :: rest, key, value =>
    if k.same key then (k, value) :: rest else (k, v) :: insert rest key value

end Mapping

namespace Value

def untagged : Value → Value
  | .tagged _ v => v.untagged
  | v => v

def isNull (v : Value) : Bool :=
  match v.untagged with
  | .null => true
  | _ => false

/-- The text of a string, whatever its tags. -/
def text? (v : Value) : Option String :=
  match v.untagged with
  | .string s => some s
  | _ => none

def entries? (v : Value) : Option Mapping :=
  match v.untagged with
  | .mapping es => some es
  | _ => none

/-- The value under a string key of a mapping, whatever the mapping's tags. -/
def field? (v : Value) (name : String) : Option Value :=
  match v.entries? with
  | some es => Mapping.field? es name
  | none => none

def int (i : Int) : Value := .number (.int i)

end Value

end ChartInflation.Yaml

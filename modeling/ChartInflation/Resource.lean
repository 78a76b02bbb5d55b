import ChartInflation.InputError
import ChartInflation.Values

/-!
# Resources

A resource is a mapping whose `apiVersion` and `kind` are strings that are not empty.  The
documents that a renderer prints become a collection of resources, in order; documents that hold
nothing are passed over, any other document that is no resource is an error.
-/

set_option autoImplicit false

namespace ChartInflation

open Yaml (Value Mapping)

namespace Resource

def requiredFields : List String := ["apiVersion", "kind"]

def textField? (entries : Mapping) (name : String) : Option String :=
  (Mapping.field? entries name).bind Value.text?

def hasText (entries : Mapping) (name : String) : Bool :=
  match textField? entries name with
  | some s => !s.isEmpty
  | none => false

def missing? (entries : Mapping) : Option String :=
  requiredFields.find? fun name => !hasText entries name

theorem missing?_eq_none_iff (entries : Mapping) :
    missing? entries = none ↔ ∀ name ∈ requiredFields, hasText entries name := by
  simp [missing?, List.find?_eq_none]

end Resource

structure Resource where
  entries : Mapping
  complete : ∀ name ∈ Resource.requiredFields, Resource.hasText entries name

namespace Resource

def kindOfValue : Value → String
  | .null => "null"
  | .bool _ => "a boolean"
  | .number _ => "a number"
  | .string _ => "a string"
  | .sequence _ => "a sequence"
  | .mapping _ => "a mapping"
  | .tagged _ _ => "a tagged value"

def ofValue : Value → Except String Resource
  | .mapping entries =>
    match missing : missing? entries with
    | some name => .error ("missing '" ++ name ++ "'")
    | none => .ok ⟨entries, (missing?_eq_none_iff entries).mp missing⟩
  | v => .error ("expected a mapping, found " ++ kindOfValue v)

def toValue (r : Resource) : Value :=
  .mapping r.entries

def apiVersion (r : Resource) : Option String :=
  textField? r.entries "apiVersion"

def kind (r : Resource) : Option String :=
  textField? r.entries "kind"

def metadata? (r : Resource) (name : String) : Option String :=
  ((Mapping.field? r.entries "metadata").bind fun m => m.field? name).bind Value.text?

def name (r : Resource) : Option String :=
  r.metadata? "name"

def resourceNamespace (r : Resource) : Option String :=
  r.metadata? "namespace"

/-- The value that a list of string keys leads to, through mappings whatever their tags. -/
def walk : Value → List String → Option Value
  | v, [] => some v
  | v, key :: rest => (v.field? key).bind fun v => walk v rest

def get? (r : Resource) (path : String) : Option Value :=
  match piecesOf '.' path with
  | [] => none
  | first :: rest => (Mapping.field? r.entries first).bind fun v => walk v rest

def print (r : Resource) : Except Yaml.Fault String :=
  r.toValue.print

end Resource

/-- The resources of a stream, in order.  Resources of one identity are all kept. -/
abbrev Resources := List Resource

namespace Resources

/-- The resources among documents, the first of which has the number `index`. -/
def ofValuesFrom (index : Nat) : List Value → Except InputError Resources
  | [] => .ok []
  | v :: rest =>
    if v.isNull then ofValuesFrom (index + 1) rest
    else
      match Resource.ofValue v with
      | .error reason => .error (.notAResource index reason)
      | .ok r => do return r :: (← ofValuesFrom (index + 1) rest)

def ofValues (values : List Value) : Except InputError Resources :=
  ofValuesFrom 0 values

def ofBytes (bytes : Bytes) : Except InputError Resources :=
  match Value.ofStream bytes with
  | .error fault => .error (.yaml fault)
  | .ok values => ofValues values

def print (rs : Resources) : Except Yaml.Fault String := do
  return joined "---\n" (← rs.mapM Resource.print)

end Resources

end ChartInflation

import ChartInflation.Text.Pieces
import ChartInflation.Yaml.Decoder
import ChartInflation.Yaml.Printer

/-!
# Chart values and their merge

Chart values are a document tree.  Two trees merge structurally: mappings key by key, and sequences
item by item where their items identify themselves by a common key.  Any other two values for one
place are a conflict, which the precedence decides.
-/

set_option autoImplicit false

namespace ChartInflation

open Yaml (Value Mapping)

inductive Precedence where
  /-- The incoming values replace those that are there. -/
  | overlay
  /-- The values that are there stay; incoming values fill the gaps. -/
  | base
deriving DecidableEq, Repr

def Precedence.choose (p : Precedence) (existing incoming : Value) : Value :=
  match p with
  | .overlay => incoming
  | .base => existing

namespace Values

/-- The keys by which the items of a sequence may identify themselves, the first one that fits
being used. -/
def identifyingKeys : List String :=
  ["name", "mountPath", "containerPort", "devicePath", "ip", "topologyKey"]

def hasKey (key : String) (item : Value) : Bool :=
  (item.field? key).isSome

/-- The key by which the items of both sequences identify themselves.  Every item must have it, and
neither sequence may be empty. -/
def sharedKey? (existing incoming : List Value) : Option String :=
  if existing.isEmpty || incoming.isEmpty then none
  else identifyingKeys.find? fun key => (existing ++ incoming).all (hasKey key)

def sameFound : Option Value → Option Value → Bool
  | some v, some w => v.same w
  | none, none => true
  | _, _ => false

/-- Changes the value under a key by `change`, or puts `fresh` under it at the end. -/
def putEntry (key : Value) (change : Value → Value) (fresh : Value) : Mapping → Mapping
  | [] => [(key, fresh)]
  | (k, v) :: rest =>
    if k.same key then (k, change v) :: rest else (k, v) :: putEntry key change fresh rest

/-- Changes the first item with an identity by `change`, or adds `fresh` at the end. -/
def putItem (key : String) (identity : Option Value) (change : Value → Value) (fresh : Value) :
    List Value → List Value
  | [] => [fresh]
  | item :: rest =>
    if sameFound (item.field? key) identity then change item :: rest
    else item :: putItem key identity change fresh rest

mutual

def merge (p : Precedence) : Value → Value → Value
  | .mapping existing, .mapping incoming => .mapping (mergeEntries p existing incoming)
  | .sequence existing, .sequence incoming =>
    match sharedKey? existing incoming with
    | some key => .sequence (mergeItems p key existing incoming)
    | none => p.choose (.sequence existing) (.sequence incoming)
  | existing, incoming => p.choose existing incoming

def mergeEntries (p : Precedence) (existing : Mapping) : List (Value × Value) → Mapping
  | [] => existing
  | (k, v) :: rest =>
    mergeEntries p (putEntry k (fun old => merge p old v) v existing) rest

def mergeItems (p : Precedence) (key : String) (existing : List Value) : List Value → List Value
  | [] => existing
  | item :: rest =>
    mergeItems p key
      (putItem key (item.field? key) (fun old => merge p old item) item existing) rest

end

/-- Values at the root, where null stands for an empty mapping. -/
def rootOf (v : Value) : Value :=
  if v.isNull then .mapping [] else v

def merged (base overlay : Value) (p : Precedence) : Value :=
  merge p (rootOf base) (rootOf overlay)

/-- The value that a list of string keys leads to, through mappings without tags. -/
def walk : Value → List String → Option Value
  | v, [] => some v
  | .mapping entries, key :: rest =>
    match Mapping.field? entries key with
    | some v => walk v rest
    | none => none
  | _, _ :: _ => none

def get? (v : Value) (path : String) : Option Value :=
  walk v (piecesOf '.' path)

def isEmpty : Value → Bool
  | .null => true
  | .mapping entries => entries.isEmpty
  | _ => false

end Values

end ChartInflation

import ChartInflation.Yaml.Token

/-!
# Nodes of documents

A document as it is written: scalars keep their style, nodes keep their tags and anchors, and an
alias stands for the node that has its anchor.  Anchors are numbers here, given out while a document
is read; `Document.target?` finds the node of an alias.
-/

set_option autoImplicit false

namespace ChartInflation.Yaml

structure Properties where
  anchor : Option Nat
  /-- The octets of the tag, its handle replaced by what it stands for. -/
  tag : Option Bytes
deriving DecidableEq, Repr

namespace Properties

def none : Properties := ⟨Option.none, Option.none⟩

def isSome (p : Properties) : Bool :=
  p.anchor.isSome || p.tag.isSome

end Properties

inductive Node where
  | alias (anchor : Nat)
  | scalar (properties : Properties) (style : Style) (text : String)
  | sequence (properties : Properties) (items : List Node)
  | mapping (properties : Properties) (entries : List (Node × Node))
deriving Repr

namespace Node

def empty : Node := .scalar .none .plain ""

instance : Inhabited Node := ⟨empty⟩

mutual

/-- The number of places where a node begins or a collection ends. -/
def size : Node → Nat
  | .alias _ => 1
  | .scalar _ _ _ => 1
  | .sequence _ items => 2 + sizeOfItems items
  | .mapping _ entries => 2 + sizeOfEntries entries

def sizeOfItems : List Node → Nat
  | [] => 0
  | n :: rest => n.size + sizeOfItems rest

def sizeOfEntries : List (Node × Node) → Nat
  | [] => 0
  | (k, v) :: rest => k.size + v.size + sizeOfEntries rest

end

def named (node : Node) : Option Nat → List (Nat × Node)
  | some anchor => [(anchor, node)]
  | none => []

mutual

/-- The nodes with an anchor, in the order in which they begin. -/
def anchored : Node → List (Nat × Node)
  | .alias _ => []
  | .scalar p style text => named (.scalar p style text) p.anchor
  | .sequence p items => named (.sequence p items) p.anchor ++ anchoredItems items
  | .mapping p entries => named (.mapping p entries) p.anchor ++ anchoredEntries entries

def anchoredItems : List Node → List (Nat × Node)
  | [] => []
  | n :: rest => n.anchored ++ anchoredItems rest

def anchoredEntries : List (Node × Node) → List (Nat × Node)
  | [] => []
  | (k, v) :: rest => k.anchored ++ v.anchored ++ anchoredEntries rest

end

end Node

/-- A document of a stream: nothing at all, or a node. -/
inductive Document where
  /-- The one document of a stream that holds none. -/
  | void
  | content (root : Node)
deriving Repr

namespace Document

/-- The node of an alias: of the nodes with its anchor, the one that begins last. -/
def target? : Document → Nat → Option Node
  | .void, _ => none
  | .content root, anchor => (root.anchored.reverse.find? fun e => e.1 == anchor).map (·.2)

def aliasLimit : Document → Nat
  | .void => 100
  | .content root => root.size * 100

end Document

end ChartInflation.Yaml

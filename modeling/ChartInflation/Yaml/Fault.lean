/-!
# Faults of documents

Why a text is no stream of documents, why a document does not fit the type it is read as, and why
a tree cannot be written.  The wording of faults is no part of the interface: in every message one
placeholder stands for it.
-/

set_option autoImplicit false

namespace ChartInflation.Yaml

inductive Fault where
  /-- The octets are not UTF-8. -/
  | encoding
  | character
  | token
  | missingColon
  | noNode
  /-- A directive that is unknown, repeated or followed by no document. -/
  | directive
  | documentStart
  | unknownHandle
  | unknownAnchor
  /-- More aliases than a document of this length may follow. -/
  | repetition
  | depth
  | documentCount
  /-- A key or a field that stands twice in one mapping. -/
  | duplicateKey
  | range
  | mismatch
  /-- A tag directly inside a tag, which cannot be written. -/
  | nestedTag
  /-- A mapping whose only key would be taken for a tag, which cannot be written. -/
  | ambiguousKey
deriving DecidableEq, Repr

/-- What messages say in the place of a fault's wording. -/
def Fault.message (_ : Fault) : String := "<yaml>"

end ChartInflation.Yaml

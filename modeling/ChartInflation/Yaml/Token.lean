import ChartInflation.Text.Utf8
import ChartInflation.Yaml.Character

/-!
# Tokens of documents

The units that the lexical rules cut a document into.  Indentation is made explicit: a block
collection opens with a token of its own and closes with `blockEnd`.
-/

set_option autoImplicit false

namespace ChartInflation.Yaml

inductive Style where
  | plain
  | singleQuoted
  | doubleQuoted
  | literal
  | folded
deriving DecidableEq, Repr

inductive Directive where
  | version (major minor : Nat)
  /-- The meaning of a tag handle: what its tags begin with. -/
  | handle (name : String) (start : Bytes)
deriving DecidableEq, Repr

inductive Token where
  | directive (d : Directive)
  | blockSequenceStart
  | blockMappingStart
  | blockEnd
  | flowSequenceStart
  | flowSequenceEnd
  | flowMappingStart
  | flowMappingEnd
  | blockEntry
  | flowEntry
  | key
  | value
  | alias (name : String)
  | anchor (name : String)
  /-- A tag as a handle, empty in a verbatim tag, and the octets after it. -/
  | tag (handle : String) (suffix : Bytes)
  | scalar (style : Style) (text : String)
deriving DecidableEq, Repr

end ChartInflation.Yaml

import ChartInflation.InflationError
import ChartInflation.Resource

/-!
# What the renderer printed

The renderer sometimes prints notes in front of the first resource.  Its output is read strictly
first; if that fails, what stands in front of the first separator line is dropped and the rest is
read again.  A separator line is `---` with blanks and an optional comment behind it.
-/

set_option autoImplicit false

namespace ChartInflation

open Yaml (Value)

namespace Output

/-- Whether a line without its line feed separates documents: blanks may follow the dashes, then a
comment that is well-formed text, and a carriage return at the end. -/
def isSeparator : Bytes → Bool
  | 0x2D :: 0x2D :: 0x2D :: rest =>
    match rest.dropWhile fun b => b == 0x20 || b == 0x09 with
    | [] => true
    | [0x0D] => true
    | 0x23 :: comment => (Utf8.decode? comment).isSome
    | _ => false
  | _ => false

def firstLine (bytes : Bytes) : Bytes :=
  bytes.takeWhile (· != 0x0A)

/-- The octets from the first separator line on.  `lineStart` tells whether a line begins here. -/
def fromSeparator? (lineStart : Bool) : Bytes → Option Bytes
  | [] => none
  | b :: rest =>
    if lineStart && isSeparator (firstLine (b :: rest)) then some (b :: rest)
    else fromSeparator? (b == 0x0A) rest

/-- The documents from the first separator line on, without those that hold nothing.  There are
none if no line separates. -/
def documents (bytes : Bytes) : Except InputError (List Value) :=
  match fromSeparator? true bytes with
  | none => .ok []
  | some bytes =>
    match Value.ofStream bytes with
    | .error fault => .error (.yaml fault)
    | .ok values => .ok (values.filter (!·.isNull))

def reread (bytes : Bytes) (primary : InputError) : Except InflationError Resources :=
  match documents bytes with
  | .error e => .error (.output primary (some e.message))
  | .ok [] => .error (.output primary none)
  | .ok values =>
    match Resources.ofValues values with
    | .ok resources => .ok resources
    | .error e => .error (.output primary (some e.message))

def resources (bytes : Bytes) : Except InflationError Resources :=
  match Resources.ofBytes bytes with
  | .ok resources => .ok resources
  | .error primary => reread bytes primary

end Output

end ChartInflation

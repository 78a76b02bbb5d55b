import ChartInflation.Number.Shortest

/-!
# Numbers of a document

A number is a whole number or a binary64 number; the two never count as equal.
-/

set_option autoImplicit false

namespace ChartInflation

inductive Number where
  /-- A whole number; documents hold those of 64 bits, signed or not. -/
  | int (i : Int)
  | float (x : Binary64)
deriving DecidableEq, Repr

namespace Number

/-- Whole numbers are compared as such, floating-point numbers by `Binary64.same`. -/
def same : Number → Number → Bool
  | .int i, .int j => i == j
  | .float x, .float y => x.same y
  | _, _ => false

def inRange (i : Int) : Bool :=
  -(Nat.pow 2 63 : Int) ≤ i && i < (Nat.pow 2 64 : Int)

end Number

end ChartInflation

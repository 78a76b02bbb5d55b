/-!
# Blank characters

The characters with the property `White_Space`, and the two ways of cutting them off a text.
-/

set_option autoImplicit false

namespace ChartInflation

/-- A character with the property `White_Space`. -/
def isBlank (c : Char) : Bool :=
  ('\x09' ≤ c && c ≤ '\x0D') || c == ' ' || c == '\u0085' || c == '\u00A0' || c == '\u1680' ||
  ('\u2000' ≤ c && c ≤ '\u200A') || c == '\u2028' || c == '\u2029' || c == '\u202F' ||
  c == '\u205F' || c == '\u3000'

def trimEnd (text : List Char) : List Char :=
  (text.reverse.dropWhile isBlank).reverse

def trim (text : List Char) : List Char :=
  trimEnd (text.dropWhile isBlank)

def onlyBlanks (s : String) : Bool :=
  s.toList.all isBlank

end ChartInflation

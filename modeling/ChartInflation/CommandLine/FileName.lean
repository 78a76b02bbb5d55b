import ChartInflation.Resource

/-!
# Names of output files

A resource is written to a file named for its place in the output, its kind and its name.  The
characters of kind and name that could mean anything in a path become underscores, so a file name is
always one step of a path.
-/

set_option autoImplicit false

namespace ChartInflation.CommandLine

/-- What becomes of a character in a file name: letters are lowered, and all but letters, digits,
dots, dashes and underscores of ASCII are replaced.  Two characters outside ASCII have a lower case
with an ASCII letter in it: the Kelvin sign, and the capital I with a dot, which lowers to two
characters. -/
def fileCharacters (c : Char) : List Char :=
  if c = '\u212A' then ['k']
  else if c = '\u0130' then ['i', '_']
  else if ('a' ≤ c ∧ c ≤ 'z') ∨ ('0' ≤ c ∧ c ≤ '9') ∨ c = '.' ∨ c = '-' ∨ c = '_' then [c]
  else if 'A' ≤ c ∧ c ≤ 'Z' then [c.toLower]
  else ['_']

def filePart (s : String) : String :=
  String.ofList (s.toList.flatMap fileCharacters)

/-- A number with at least three digits. -/
def paddedNumber (n : Nat) : String :=
  let digits := Nat.toDigits 10 n
  String.ofList (List.replicate (3 - digits.length) '0' ++ digits)

def fileName (index : Nat) (r : Resource) : String :=
  paddedNumber index ++ "-" ++ filePart (r.kind.getD "resource") ++ "-" ++
    filePart (r.name.getD "unnamed") ++ ".yaml"

end ChartInflation.CommandLine

import ChartInflation.InflationError
import ChartInflation.Text.DecimalDigit

/-!
# The renderer's version

The renderer prints its version somewhere in a text.  A version token is an optional `v`, digits,
and at least one group of a point and digits; the token that begins first counts, as far as it
reaches.  Only the major version 3 is supported.
-/

set_option autoImplicit false

namespace ChartInflation

namespace Version

def supportedMajor : String := "3"

def groups (text : List Char) : List (List Char) :=
  (pieces '.' (text.takeWhile fun c => isDecimalDigit c || c == '.')).takeWhile (!·.isEmpty)

/-- The groups of digits of a version that begins here, without its `v`. -/
def here? (text : List Char) : Option (List (List Char)) :=
  let digits :=
    match text with
    | 'v' :: rest => rest
    | _ => text
  match groups digits with
  | a :: b :: rest => some (a :: b :: rest)
  | _ => none

/-- The groups of digits of the version that begins first. -/
def find? : List Char → Option (List (List Char))
  | [] => none
  | c :: rest =>
    match here? (c :: rest) with
    | some found => some found
    | none => find? rest

def detect (text : String) : Except InflationError String :=
  match find? text.toList with
  | none =>
    .error (.unsupportedVersion
      ("cannot find version string in " ++ String.ofList (trim text.toList)) none)
  | some found =>
    let version := joined "." (found.map String.ofList)
    if found.head? = some supportedMajor.toList then .ok version
    else
      .error (.unsupportedVersion ("helmgen requires helm V3 but got v" ++ version)
        (some version))

end Version

end ChartInflation

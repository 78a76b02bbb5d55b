import ChartInflation.Number
import ChartInflation.Text.DecimalDigit
import ChartInflation.Yaml.Character

/-!
# The meaning of plain scalars

A plain scalar is null, a boolean, a whole number or a floating-point number if it is spelt like
one, and a string otherwise.  The same rules tell which strings must be quoted when they are
written.
-/

set_option autoImplicit false

namespace ChartInflation.Yaml

inductive Meaning where
  | null
  | bool (b : Bool)
  /-- A whole number of at most 128 bits. -/
  | int (i : Int)
  | float (x : Binary64)
  | string
deriving DecidableEq, Repr

namespace Scalar

def isNullWord (text : String) : Bool :=
  text == "~" || text == "null" || text == "Null" || text == "NULL"

def bool? (text : String) : Option Bool :=
  if text == "true" || text == "True" || text == "TRUE" then some true
  else if text == "false" || text == "False" || text == "FALSE" then some false
  else none

/-- The number that digits of a base spell; there must be at least one. -/
def natural? (base : Nat) (digits : List Char) : Option Nat :=
  if digits.isEmpty then none
  else digits.foldlM (fun value c =>
    match hexDigit? c with
    | some d => if d < base then some (value * base + d) else none
    | none => none) 0

def withoutSign : List Char → List Char
  | '+' :: rest => rest
  | '-' :: rest => rest
  | text => text

/-- Digits with a superfluous zero in front, which spell no number. -/
def isZeroPadded (text : List Char) : Bool :=
  match withoutSign text with
  | '0' :: c :: rest => (c :: rest).all isAsciiDigit
  | _ => false

def size? : List Char → Option Nat
  | '0' :: 'x' :: rest => natural? 16 rest
  | '0' :: 'o' :: rest => natural? 8 rest
  | '0' :: 'b' :: rest => natural? 2 rest
  | text => if isZeroPadded text then none else natural? 10 text

/-- The whole number that a text spells, if 128 bits can hold it. -/
def int? (text : List Char) : Option Int :=
  match text with
  | '-' :: rest =>
    match size? rest with
    | some n => if n ≤ Nat.pow 2 127 then some (-(n : Int)) else none
    | none => none
  | '+' :: rest => unsigned? rest
  | _ => unsigned? text
where
  unsigned? (text : List Char) : Option Int :=
    match size? text with
    | some n => if n < Nat.pow 2 128 then some (n : Int) else none
    | none => none

def exponent? : List Char → Option Int
  | [] => some 0
  | c :: rest =>
    if c = 'e' ∨ c = 'E' then
      match rest with
      | '-' :: digits => (natural? 10 digits).map fun n => -(n : Int)
      | '+' :: digits => (natural? 10 digits).map fun n => (n : Int)
      | digits => (natural? 10 digits).map fun n => (n : Int)
    else none

/-- The number that a decimal without a sign spells: digits with an optional point among or around
them, and an optional exponent. -/
def decimal? (text : List Char) : Option Binary64 := do
  let whole := text.takeWhile isAsciiDigit
  let rest := text.dropWhile isAsciiDigit
  let (fraction, rest) :=
    match rest with
    | '.' :: more => (more.takeWhile isAsciiDigit, more.dropWhile isAsciiDigit)
    | _ => ([], rest)
  let digits ← natural? 10 (whole ++ fraction)
  let exponent ← exponent? rest
  return Binary64.ofDecimal digits (exponent - (fraction.length : Int))

def signedDecimal? (text : List Char) : Option Binary64 := do
  let x ←
    match text with
    | '-' :: rest => (decimal? rest).map Binary64.negate
    | _ => decimal? text
  if x.isFinite then some x else none

def isInfinityWord (text : List Char) : Bool :=
  text == ".inf".toList || text == ".Inf".toList || text == ".INF".toList

/-- The floating-point number that a text spells.  A decimal that rounds to infinity spells none. -/
def float? (text : List Char) : Option Binary64 :=
  match text with
  | '+' :: '-' :: _ => none
  | '+' :: rest => if isInfinityWord rest then some .infinity else signedDecimal? rest
  | _ =>
    if isInfinityWord text then some .infinity
    else if text == ".nan".toList || text == ".NaN".toList || text == ".NAN".toList then
      some .nan
    else
      match text with
      | '-' :: rest => if isInfinityWord rest then some .negativeInfinity else signedDecimal? text
      | _ => signedDecimal? text

def meaning (text : String) : Meaning :=
  let chars := text.toList
  if chars.isEmpty || isNullWord text then .null
  else match bool? text with
    | some b => .bool b
    | none =>
      match int? chars with
      | some i => .int i
      | none =>
        match (if isZeroPadded chars then none else float? chars) with
        | some x => .float x
        | none => .string

end Scalar

end ChartInflation.Yaml

import ChartInflation.Number.Shortest
import ChartInflation.Text.Utf8
import ChartInflation.Yaml.Scalar
import ChartInflation.Yaml.Token

/-!
# How scalars are written

A string is written plain if it reads back as itself that way.  Single quotes keep one that would
read as something else or whose punctuation would be taken for structure, a literal block keeps
line breaks, and double quotes with escapes keep all the rest.
-/

set_option autoImplicit false

namespace ChartInflation.Yaml.Printer

def isPrintable (c : Char) : Bool :=
  c == '\n' || (' ' ≤ c && c ≤ '~') ||
  ('\u00A0' ≤ c && c != '\uFEFF' && c != '\uFFFE' && c != '\uFFFF')

def anyPair (p : Char → Char → Bool) : List Char → Bool
  | a :: b :: rest => p a b || anyPair p (b :: rest)
  | _ => false

def lastIs (p : Char → Bool) (text : List Char) : Bool :=
  match text.getLast? with
  | some c => p c
  | none => false

def firstIs (p : Char → Bool) : List Char → Bool
  | c :: _ => p c
  | [] => false

def isSpaceOrBreak (c : Char) : Bool :=
  c == ' ' || isBreak c

def beginsAsIndicator : List Char → Bool
  | '-' :: '-' :: '-' :: _ => true
  | '.' :: '.' :: '.' :: _ => true
  | c :: rest =>
    "#,[]\x7b\x7d&*!|>'\"%@`".toList.contains c ||
    ((c == '?' || c == ':' || c == '-') && atSpacing rest)
  | [] => false

/-- Whether a colon in a text, its first character apart, would end a key. -/
def hasInnerColon : List Char → Bool
  | ':' :: rest => atSpacing rest || hasInnerColon rest
  | _ :: rest => hasInnerColon rest
  | [] => false

def hasInnerComment (text : List Char) : Bool :=
  anyPair (fun a b => (isGap a || isBreak a) && b == '#') text

/-- Whether escapes are needed: for a character that is not printable, or a space in front of a
line break. -/
def needsEscapes (text : List Char) : Bool :=
  text.any (!isPrintable ·) || anyPair (fun a b => a == ' ' && isBreak b) text

def fitsSingleQuotes (text : List Char) : Bool :=
  !needsEscapes text && !anyPair (fun a b => isBreak a && b == ' ') text

def fitsLiteral (text : List Char) : Bool :=
  !needsEscapes text && !lastIs (· == ' ') text

def fitsPlain (text : List Char) : Bool :=
  !needsEscapes text && !text.any isBreak && !firstIs isSpaceOrBreak text &&
  !lastIs isSpaceOrBreak text && !beginsAsIndicator text && !hasInnerColon (text.drop 1) &&
  !hasInnerComment text

def readsOtherwise (s : String) : Bool :=
  Scalar.meaning s != .string || Scalar.isZeroPadded s.toList

def styleOf (s : String) : Style :=
  let text := s.toList
  if text.contains '\n' then
    if fitsLiteral text then .literal else .doubleQuoted
  else if !readsOtherwise s && fitsPlain text then .plain
  else if fitsSingleQuotes text then .singleQuoted
  else .doubleQuoted

def spaces (n : Nat) : List Char :=
  List.replicate n ' '

/-- The lower digits of a number to base sixteen, `width` of them, with capital letters. -/
def hexDigits : Nat → Nat → List Char
  | 0, _ => []
  | width + 1, n =>
    hexDigits width (n / 16) ++
      [if n % 16 < 10 then Char.ofNat (48 + n % 16) else Char.ofNat (55 + n % 16)]

def escape (c : Char) : List Char :=
  if c = '\x00' then "\\0".toList
  else if c = '\x07' then "\\a".toList
  else if c = '\x08' then "\\b".toList
  else if c = '\t' then "\\t".toList
  else if c = '\n' then "\\n".toList
  else if c = '\x0B' then "\\v".toList
  else if c = '\x0C' then "\\f".toList
  else if c = '\r' then "\\r".toList
  else if c = '\x1B' then "\\e".toList
  else if c = '"' then "\\\"".toList
  else if c = '\\' then "\\\\".toList
  else if c = '\u0085' then "\\N".toList
  else if c = '\u2028' then "\\L".toList
  else if c = '\u2029' then "\\P".toList
  else if c.toNat ≤ 0xFF then "\\x".toList ++ hexDigits 2 c.toNat
  else if c.toNat ≤ 0xFFFF then "\\u".toList ++ hexDigits 4 c.toNat
  else "\\U".toList ++ hexDigits 8 c.toNat

def doubleQuoted (text : List Char) : List Char :=
  let body := text.flatMap fun c =>
    if !isPrintable c || isBreak c || c == '"' || c == '\\' then escape c else [c]
  '"' :: body ++ ['"']

/-- The inside of single quotes.  A quote is written twice, and the line that a break begins is
indented. -/
def singleQuotedBody (indent : Nat) (lineStart : Bool) : List Char → List Char
  | [] => if lineStart then spaces indent else []
  | c :: rest =>
    if isBreak c then c :: singleQuotedBody indent true rest
    else
      (if lineStart then spaces indent else []) ++ (if c = '\'' then ['\'', '\''] else [c]) ++
        singleQuotedBody indent false rest

/-- The lines of a literal block, each but the empty ones indented. -/
def literalBody (indent : Nat) (lineStart : Bool) : List Char → List Char
  | [] => if lineStart then [] else ['\n']
  | c :: rest =>
    if isBreak c then c :: literalBody indent true rest
    else (if lineStart then spaces indent else []) ++ c :: literalBody indent false rest

/-- The header of a literal block behind its indicator: the indentation where the text's own blanks
would hide it, and what is to become of the breaks at the end. -/
def literalHeader (text : List Char) : List Char :=
  let increment := if firstIs isSpaceOrBreak text then ['2'] else []
  let chomping :=
    match text.reverse with
    | [] => ['-']
    | [c] => if isBreak c then ['+'] else ['-']
    | c :: d :: _ => if !isBreak c then ['-'] else if isBreak d then ['+'] else []
  increment ++ chomping

def stringLine (indent : Nat) (s : String) : List Char :=
  let text := s.toList
  match styleOf s with
  | .plain => text ++ ['\n']
  | .singleQuoted => '\'' :: singleQuotedBody indent false text ++ ['\'', '\n']
  | .literal => '|' :: literalHeader text ++ '\n' :: literalBody indent true text
  | _ => doubleQuoted text ++ ['\n']

/-- A document has at most sixteen digits in front of the point and four zeros behind it, and signs
negative exponents alone. -/
def decimalStyle : Binary64.DecimalStyle := ⟨16, 4, "e"⟩

def numberText : Number → List Char
  | .int i => (toString i).toList
  | .float x =>
    if x.isNan then ".nan".toList
    else if x.isInfinite then (if x.negative then "-.inf" else ".inf").toList
    else (x.text decimalStyle).toList

end ChartInflation.Yaml.Printer

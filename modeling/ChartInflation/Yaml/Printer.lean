import ChartInflation.Yaml.Fault
import ChartInflation.Yaml.Printer.Scalar
import ChartInflation.Yaml.Value

/-!
# How trees are written

Collections are written in block style and indented by two columns; a sequence that is the value of
a key stands in the key's own column.  A collection behind a dash or a question mark begins on the
same line.  Empty collections are written in brackets.  A key is written in front of a colon if it
is short and takes one line; any other key stands behind a question mark.

Two shapes cannot be written: a tag directly inside a tag, and a mapping of one entry whose key is
itself tagged or a mapping of one entry, because the key would be taken for the tag of its value.
-/

set_option autoImplicit false

namespace ChartInflation.Yaml.Printer

inductive Place where
  /-- Nothing: the node is the root. -/
  | root
  /-- The dash of a sequence. -/
  | item
  /-- A key and its colon. -/
  | value
  /-- The question mark of a key. -/
  | longKey
  /-- The colon on a line of its own, below a long key. -/
  | longValue
deriving DecidableEq, Repr

namespace Place

def isCompact : Place → Bool
  | .item | .longKey | .longValue => true
  | .root | .value => false

def inMapping : Place → Bool
  | .value | .longKey | .longValue => true
  | .root | .item => false

def gap : Place → List Char
  | .root => []
  | _ => [' ']

end Place

def deeper : Option Nat → Nat
  | none => 0
  | some n => n + 2

/-- The column of the further lines of a scalar, which are indented also at the root. -/
def scalarColumn : Option Nat → Nat
  | none => 2
  | some n => n + 2

def isPlainTagOctet (b : UInt8) : Bool :=
  let c := Char.ofNat b.toNat
  isWord c || ";/?:@&=+$,.~*'()[]".toList.contains c

/-- The text of a tag behind its handle, with octets escaped where they could be mistaken. -/
def tagSuffix (text : List Char) : List Char :=
  (Utf8.encode text).flatMap fun b =>
    if isPlainTagOctet b then [Char.ofNat b.toNat] else '%' :: hexDigits 2 b.toNat

/-- The full text of a tag, up to the first NUL. -/
def tagName (tag : Tag) : List Char :=
  let name := tag.name.toList
  let full := if firstIs (· == '!') name then name else '!' :: name
  full.takeWhile (· != '\x00')

def tagText (tag : Tag) : List Char :=
  match tagName tag with
  | '!' :: c :: rest => '!' :: tagSuffix (c :: rest)
  | name => "!<".toList ++ tagSuffix name ++ ['>']

/-- The number of octets that a key would take, if it can be written in front of a colon at all: a
scalar on one line or an empty collection. -/
def simpleKeySize? : Value → Option Nat
  | .string s => if s.toList.any isBreak then none else some (Utf8.encode s.toList).length
  | .null => some 4
  | .bool b => some (if b then 4 else 5)
  | .number n => some (numberText n).length
  | .sequence [] => some 0
  | .mapping [] => some 0
  | .tagged tag v => (simpleKeySize? v).map fun n => n + (Utf8.encode (tagName tag)).length
  | _ => none

def isSimpleKey (key : Value) : Bool :=
  match simpleKeySize? key with
  | some n => n ≤ 128
  | none => false

def isSingle : Value → Bool
  | .mapping [_] => true
  | _ => false

def isAmbiguousKey : Value → Bool
  | .tagged _ _ => true
  | v => isSingle v

def line (place : Place) (tag? : Option Tag) (text : List Char) : List Char :=
  match tag? with
  | none => place.gap ++ text
  | some tag => place.gap ++ tagText tag ++ ' ' :: text

/-- A block collection whose lines are all indented, behind its tag.  In a compact place its first
line goes on with the line in front, one blank apart. -/
def collection (place : Place) (column : Nat) (tag? : Option Tag) (compact : Bool)
    (body : List Char) : List Char :=
  match tag? with
  | some tag => place.gap ++ tagText tag ++ '\n' :: body
  | none =>
    if compact then ' ' :: body.drop column
    else if place = .root then body
    else '\n' :: body

mutual

/-- A node behind what `place` tells, inside a collection at column `column?`, ending its line.
`tag?` is the tag of the node. -/
def node (place : Place) (column? : Option Nat) (tag? : Option Tag) :
    Value → Except Fault (List Char)
  | .tagged tag v =>
    match tag? with
    | some _ => .error .nestedTag
    | none => node place column? (some tag) v
  | .sequence (v :: vs) => do
    let compact := place.isCompact && tag?.isNone
    let column :=
      match column? with
      | some n => if place.inMapping && !compact then n else n + 2
      | none => 0
    let body ← items column (v :: vs)
    return collection place column tag? compact body
  | .mapping (e :: es) => do
    let compact := place.isCompact && tag?.isNone
    let column := deeper column?
    let alone := es.isEmpty && tag?.isNone
    let body ← entries column alone (e :: es)
    return collection place column tag? compact body
  | .sequence [] => .ok (line place tag? "[]\n".toList)
  | .mapping [] => .ok (line place tag? "\x7b\x7d\n".toList)
  | .null => .ok (line place tag? "null\n".toList)
  | .bool b => .ok (line place tag? (if b then "true\n" else "false\n").toList)
  | .number n => .ok (line place tag? (numberText n ++ ['\n']))
  | .string s => .ok (line place tag? (stringLine (scalarColumn column?) s))

def items (column : Nat) : List Value → Except Fault (List Char)
  | [] => .ok []
  | v :: rest => do
    let first ← node .item (some column) none v
    let more ← items column rest
    return spaces column ++ '-' :: first ++ more

/-- The entries of a mapping; `alone` tells that there is one only and that it is under no tag. -/
def entries (column : Nat) (alone : Bool) : List (Value × Value) → Except Fault (List Char)
  | [] => .ok []
  | (k, v) :: rest => do
    if alone && isAmbiguousKey k then throw .ambiguousKey
    let more ← entries column false rest
    if isSimpleKey k then
      let key ← node .root (some column) none k
      let value ← node .value (some column) none v
      return spaces column ++ key.dropLast ++ ':' :: value ++ more
    else
      let key ← node .longKey (some column) none k
      let value ← node .longValue (some column) none v
      return spaces column ++ '?' :: key ++ spaces column ++ ':' :: value ++ more

end

end Printer

def Value.print (v : Value) : Except Fault String :=
  String.ofList <$> Printer.node .root none none v

end ChartInflation.Yaml

/-!
# UTF-8

A file holds octets and a document holds characters.  This module has the machine that reads
characters off octets.  An octet string that is not UTF-8 splits into well-formed characters and
*maximal ill-formed parts*: the longest starts of a character that the following octet (or the end)
breaks, or single octets that start no character.

`decode?` accepts well-formed octet strings only; `lossy` puts U+FFFD in the place of each
ill-formed part; `encode` writes characters.
-/

set_option autoImplicit false

namespace ChartInflation

abbrev Bytes := List UInt8

namespace Utf8

structure Pending where
  /-- Continuation octets still to come after the next one. -/
  after : Nat
  /-- The least octet that may come next. -/
  low : UInt8
  /-- The greatest octet that may come next. -/
  high : UInt8
  bits : Nat
deriving DecidableEq, Repr

/-- What the octets read so far complete, and what is left open.  A `none` among the completed
items is one ill-formed part. -/
abbrev Step := List (Option Char) × Option Pending

/-- The first octet of a character.  The ranges of the second octet rule out overlong forms,
surrogates and code points above U+10FFFF. -/
def first (b : UInt8) : Step :=
  if b < 0x80 then ([some (Char.ofNat b.toNat)], none)
  else if b < 0xC2 then ([none], none)
  else if b < 0xE0 then ([], some ⟨0, 0x80, 0xBF, b.toNat - 0xC0⟩)
  else if b = 0xE0 then ([], some ⟨1, 0xA0, 0xBF, 0⟩)
  else if b = 0xED then ([], some ⟨1, 0x80, 0x9F, 0xD⟩)
  else if b < 0xF0 then ([], some ⟨1, 0x80, 0xBF, b.toNat - 0xE0⟩)
  else if b = 0xF0 then ([], some ⟨2, 0x90, 0xBF, 0⟩)
  else if b < 0xF4 then ([], some ⟨2, 0x80, 0xBF, b.toNat - 0xF0⟩)
  else if b = 0xF4 then ([], some ⟨2, 0x80, 0x8F, 4⟩)
  else ([none], none)

/-- One octet.  An octet that does not continue the open character ends it as an ill-formed part
and is read as a first octet. -/
def step : Option Pending → UInt8 → Step
  | none, b => first b
  | some p, b =>
    if p.low ≤ b ∧ b ≤ p.high then
      let bits := p.bits * 64 + (b.toNat - 0x80)
      match p.after with
      | 0 => ([some (Char.ofNat bits)], none)
      | n + 1 => ([], some ⟨n, 0x80, 0xBF, bits⟩)
    else (none :: (first b).1, (first b).2)

def parts : Option Pending → Bytes → List (Option Char)
  | none, [] => []
  | some _, [] => [none]
  | pending, b :: rest => (step pending b).1 ++ parts (step pending b).2 rest

def decode? (bytes : Bytes) : Option (List Char) :=
  (parts none bytes).mapM id

/-- The characters of an octet string, with U+FFFD for each ill-formed part. -/
def lossy (bytes : Bytes) : List Char :=
  (parts none bytes).map (·.getD '\uFFFD')

def encode (text : List Char) : Bytes :=
  text.flatMap String.utf8EncodeChar

end Utf8

def Bytes.ofString (s : String) : Bytes :=
  Utf8.encode s.toList

def Bytes.toString? (bytes : Bytes) : Option String :=
  (Utf8.decode? bytes).map String.ofList

def Bytes.toStringLossy (bytes : Bytes) : String :=
  String.ofList (Utf8.lossy bytes)

end ChartInflation

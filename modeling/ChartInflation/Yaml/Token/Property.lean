import ChartInflation.Yaml.Token
import ChartInflation.Yaml.Token.Block

/-!
# Anchors, tags and directives

The lexical rules of what stands in front of a node or of a document.
-/

set_option autoImplicit false

namespace ChartInflation.Yaml

structure Read (α : Type) where
  item : α
  mark : Mark
  rest : List Char

def word (mark : Mark) : List Char → Read (List Char)
  | [] => ⟨[], mark, []⟩
  | c :: rest =>
    if isWord c then
      let more := word mark.next rest
      ⟨c :: more.item, more.mark, more.rest⟩
    else ⟨[], mark, c :: rest⟩

def atNameEnd (text : List Char) : Bool :=
  atSpacing text ||
  match text with
  | c :: _ => "?:,]\x7d%@`".toList.contains c
  | [] => true

def anchorName (mark : Mark) (text : List Char) : Except Fault (Read String) :=
  let name := word mark text
  if name.item.isEmpty || !atNameEnd name.rest then .error .token
  else .ok ⟨String.ofList name.item, name.mark, name.rest⟩

def followers? (octet : Nat) : Option Nat :=
  if octet < 0x80 then some 0
  else if 0xC0 ≤ octet ∧ octet < 0xE0 then some 1
  else if 0xE0 ≤ octet ∧ octet < 0xF0 then some 2
  else if 0xF0 ≤ octet ∧ octet < 0xF8 then some 3
  else none

/-- Reads the text of a tag.  A percent sign and two hexadecimal digits stand for an octet; the
octets of one character must all be written so.  `owed` octets of a character are still to come.
The characters `,`, `[` and `]` belong to verbatim tags and to directives only. -/
def tagText (wide : Bool) (owed : Nat) (mark : Mark) : List Char → Except Fault (Read Bytes)
  | '%' :: a :: b :: rest =>
    match hexDigit? a, hexDigit? b with
    | some high, some low => do
      let octet := high * 16 + low
      let owed ←
        match owed with
        | left + 1 => if 0x80 ≤ octet ∧ octet < 0xC0 then pure left else throw .token
        | 0 =>
          match followers? octet with
          | some n => pure n
          | none => throw .token
      let more ← tagText wide owed ⟨mark.index + 3, mark.line, mark.column + 3⟩ rest
      return { more with item := UInt8.ofNat octet :: more.item }
    | _, _ => .error .token
  | c :: rest =>
    if c == '%' then .error .token
    else if isTagCharacter c || (wide && (c == ',' || c == '[' || c == ']')) then
      if owed ≠ 0 then .error .token
      else do
        let more ← tagText wide 0 mark.next rest
        return { more with item := Utf8.encode [c] ++ more.item }
    else if owed ≠ 0 then .error .token
    else .ok ⟨[], mark, c :: rest⟩
  | [] => if owed ≠ 0 then .error .token else .ok ⟨[], mark, []⟩

/-- The octets of a tag up to the first NUL, which ends it. -/
def untilNul (octets : Bytes) : Bytes :=
  octets.takeWhile (· ≠ 0)

/-- Reads a tag from behind its exclamation mark, without regard to what follows: a verbatim tag,
a tag with a named handle, or one with the handle `!`.  The exclamation mark alone is a verbatim
tag of that text. -/
def tagBody (mark : Mark) (text : List Char) : Except Fault (Read (String × Bytes)) :=
  match text with
  | '<' :: rest => do
    let suffix ← tagText true 0 mark.next rest
    match suffix.item, suffix.rest with
    | _ :: _, '>' :: rest => return ⟨("", untilNul suffix.item), suffix.mark.next, rest⟩
    | _, _ => throw .token
  | _ =>
    let name := word mark text
    match name.rest with
    | '!' :: rest => do
      let suffix ← tagText false 0 name.mark.next rest
      if suffix.item.isEmpty then throw .token
      return ⟨("!" ++ String.ofList name.item ++ "!", untilNul suffix.item),
        suffix.mark, suffix.rest⟩
    | _ => do
      let suffix ← tagText false 0 mark text
      let octets := untilNul suffix.item
      let item := if octets.isEmpty then ("", Utf8.encode ['!']) else ("!", octets)
      return ⟨item, suffix.mark, suffix.rest⟩

/-- Reads a tag from behind its exclamation mark.  A blank follows it, or in a flow collection a
comma. -/
def tagProperty (inFlow : Bool) (mark : Mark) (text : List Char) :
    Except Fault (Read (String × Bytes)) := do
  let tag ← tagBody mark text
  let comma :=
    match tag.rest with
    | ',' :: _ => inFlow
    | _ => false
  if comma || atSpacing tag.rest then return tag else throw .token

def versionNumber (mark : Mark) (text : List Char) : Except Fault (Read Nat) :=
  let digits := text.takeWhile fun c => '0' ≤ c && c ≤ '9'
  let n := digits.length
  if n = 0 ∨ n > 9 then .error .token
  else .ok ⟨digits.foldl (fun value c => value * 10 + (c.toNat - 48)) 0,
    ⟨mark.index + n, mark.line, mark.column + n⟩, text.drop n⟩

def versionDirective (mark : Mark) (text : List Char) : Except Fault (Read Directive) := do
  let (mark, text) := skipGaps mark text
  let major ← versionNumber mark text
  match major.rest with
  | '.' :: rest =>
    let minor ← versionNumber major.mark.next rest
    return ⟨.version major.item minor.item, minor.mark, minor.rest⟩
  | _ => throw .token

def directiveHandle (mark : Mark) (text : List Char) : Except Fault (Read String) :=
  match text with
  | '!' :: rest =>
    let name := word mark.next rest
    match name.rest with
    | '!' :: rest => .ok ⟨"!" ++ String.ofList name.item ++ "!", name.mark.next, rest⟩
    | _ => if name.item.isEmpty then .ok ⟨"!", name.mark, name.rest⟩ else .error .token
  | _ => .error .token

def handleDirective (mark : Mark) (text : List Char) : Except Fault (Read Directive) := do
  let (mark, text) := skipGaps mark text
  let handle ← directiveHandle mark text
  match handle.rest with
  | [] => throw .token
  | c :: _ =>
    if !isGap c then throw .token
    let (mark, text) := skipGaps handle.mark handle.rest
    let start ← tagText true 0 mark text
    if start.item.isEmpty || !atSpacing start.rest then throw .token
    return ⟨.handle handle.item (untilNul start.item), start.mark, start.rest⟩

def directive (mark : Mark) (text : List Char) : Except Fault (Read Directive) := do
  let name := word mark text
  if name.item.isEmpty || !atSpacing name.rest then throw .token
  let value ←
    if name.item = "YAML".toList then versionDirective name.mark name.rest
    else if name.item = "TAG".toList then handleDirective name.mark name.rest
    else throw .directive
  let (mark, rest) ← endOfLine value.mark value.rest
  return ⟨value.item, mark, rest⟩

end ChartInflation.Yaml

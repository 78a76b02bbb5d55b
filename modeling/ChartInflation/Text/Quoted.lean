import ChartInflation.Text.Pieces
import ChartInflation.Text.Visible

/-!
# Quoted texts

A text between double quotes in which every character shows: quotes, backslashes and characters
that do not show by themselves are escaped.
-/

set_option autoImplicit false

namespace ChartInflation

def quotedChar (c : Char) : List Char :=
  if c = '"' then ['\\', '"']
  else if c = '\\' then ['\\', '\\']
  else if c = '\n' then ['\\', 'n']
  else if c = '\r' then ['\\', 'r']
  else if c = '\t' then ['\\', 't']
  else if c = '\x00' then ['\\', '0']
  else if isVisible c then [c]
  else ['\\', 'u', '{'] ++ Nat.toDigits 16 c.toNat ++ ['}']

def quoted (s : String) : String :=
  String.ofList ('"' :: s.toList.flatMap quotedChar ++ ['"'])

/-- Texts in quotes, in brackets and with commas between them. -/
def quotedList (items : List String) : String :=
  "[" ++ joined ", " (items.map quoted) ++ "]"

end ChartInflation

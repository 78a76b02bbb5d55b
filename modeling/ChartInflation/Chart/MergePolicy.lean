import ChartInflation.InputError
import ChartInflation.Values

/-!
# Merge policies

How inline values combine with the base values file.
-/

set_option autoImplicit false

namespace ChartInflation

inductive MergePolicy where
  /-- Base values win; inline values fill gaps only. -/
  | merge
  /-- Inline values win; base values fill gaps. -/
  | override
  /-- Inline values are used alone. -/
  | replace
deriving DecidableEq, Repr

namespace MergePolicy

/-- The policy of a configuration that names none. -/
def standard : MergePolicy := .override

def name : MergePolicy → String
  | .merge => "merge"
  | .override => "override"
  | .replace => "replace"

def all : List MergePolicy := [.merge, .override, .replace]

def offered : String :=
  "[" ++ joined " " (all.map name) ++ "]"

def ofName (text : String) : Except InputError MergePolicy :=
  match all.find? fun p => p.name == text with
  | some p => .ok p
  | none => .error (.unknownMergePolicy text offered)

/-- The precedence of inline values over the base, if the policy merges the two. -/
def inlinePrecedence : MergePolicy → Option Precedence
  | .merge => some .base
  | .override => some .overlay
  | .replace => none

end MergePolicy

end ChartInflation

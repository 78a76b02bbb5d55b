import ChartInflation.Text.Pieces

/-!
# Paths

A path is a text whose names are separated by slashes.  Joining keeps texts as they are: nothing is
normalised, an absolute right side replaces the left one, and a slash is put between the two only
where there is none.  Two paths denote the same place by their text alone when they have the same
`components`.
-/

set_option autoImplicit false

namespace ChartInflation

structure Path where
  text : String
deriving DecidableEq, Repr

namespace Path

def isAbsolute (p : Path) : Bool :=
  match p.text.toList with
  | '/' :: _ => true
  | _ => false

def isEmpty (p : Path) : Bool :=
  p.text.isEmpty

def endsInSlash (text : List Char) : Bool :=
  text.getLast? == some '/'

def join (p q : Path) : Path :=
  if q.isAbsolute then q
  else if p.isEmpty || endsInSlash p.text.toList then ⟨p.text ++ q.text⟩
  else ⟨p.text ++ "/" ++ q.text⟩

def joinName (p : Path) (name : String) : Path :=
  p.join ⟨name⟩

def names (p : Path) : List String :=
  (piecesOf '/' p.text).filter (· != "")

inductive Component where
  | root
  /-- The directory where one is, written in front of a relative path. -/
  | here
  | up
  | name (s : String)
deriving DecidableEq, Repr

def componentOf (name : String) : Component :=
  if name = ".." then .up else .name name

/-- The steps of a path.  A single dot is no step, unless a relative path begins with it. -/
def components (p : Path) : List Component :=
  let steps := (p.names.filter (· != ".")).map componentOf
  if p.isAbsolute then .root :: steps
  else if p.names.head? = some "." then .here :: steps
  else steps

/-- The text of a path without what is written at its end and is no step. -/
def withoutEmptyEnd : List String → List String
  | piece :: rest => if piece = "" ∨ piece = "." then withoutEmptyEnd rest else piece :: rest
  | [] => []

/-- The path without its last step, if it has one that is not the root. -/
def parent? (p : Path) : Option Path :=
  let pieces := piecesOf '/' p.text
  let first := pieces.head?.getD ""
  match withoutEmptyEnd (pieces.drop 1).reverse with
  | _ :: rest =>
    let kept := (withoutEmptyEnd rest).reverse
    some ⟨if kept.isEmpty ∧ p.isAbsolute then "/" else joined "/" (first :: kept)⟩
  | [] => if first = "" then none else some ⟨""⟩

end Path

end ChartInflation

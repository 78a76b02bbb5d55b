import ChartInflation.Machine

/-!
# Scratch directories

An inflation keeps its effective values, and the renderer's home where none is configured, in a
directory of its own.  It is made when it is first asked for, under a name that nothing has yet, and
removed with all that is in it when it is released.
-/

set_option autoImplicit false

namespace ChartInflation

/-- A scratch directory, or none as long as it was not asked for. -/
structure Scratch where
  directory : Option Path
deriving DecidableEq, Repr

namespace Scratch

def new : Scratch := ⟨none⟩

def isCreated (s : Scratch) : Bool :=
  s.directory.isSome

def alphabet : List Char :=
  "abcdefghijklmnopqrstuvwxyzABCDEFGHIJKLMNOPQRSTUVWXYZ0123456789".toList

def letters : Nat → Nat → List Char
  | 0, _ => []
  | count + 1, n =>
    letters count (n / alphabet.length) ++ [alphabet.getD (n % alphabet.length) 'a']

/-- The name with a number.  As many names differ as six letters can tell apart. -/
def nameOf (n : Nat) : String :=
  "helmgen-helm-" ++ String.ofList (letters 6 n)

/-- Makes a directory under a fresh name, trying at most a number of names. -/
def create (m : Machine) : Nat → World → Except FileError Path × World
  | 0, w => (.error .exists, w)
  | tries + 1, w =>
    let path := m.scratchHome.joinName (nameOf w.drawn)
    let w := { w with drawn := w.drawn + 1 }
    match w.files.makeDirectory m.directory path with
    | .ok files => (.ok path, { w with files := files })
    | .error .exists => create m tries w
    | .error e => (.error e, w)

def tries : Nat := 65536

/-- The directory, which is made if there is none. -/
def path (m : Machine) (s : Scratch) (w : World) : Except FileError Path × Scratch × World :=
  match s.directory with
  | some path => (.ok path, s, w)
  | none =>
    match create m tries w with
    | (.ok path, w) => (.ok path, ⟨some path⟩, w)
    | (.error e, w) => (.error e, s, w)

def remove (m : Machine) (path : Path) (w : World) : World :=
  match w.files.resolve false m.directory path with
  | .ok (.found location) => { w with files := w.files.removeTree location }
  | _ => w

def release (m : Machine) (s : Scratch) (w : World) : Scratch × World :=
  match s.directory with
  | some path => (⟨none⟩, remove m path w)
  | none => (s, w)

end Scratch

end ChartInflation

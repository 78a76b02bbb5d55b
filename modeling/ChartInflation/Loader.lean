import ChartInflation.InputError

/-!
# Loaders

A loader reads the files that a chart configuration points at.  A loader of a directory may be
restricted to what lies in or below it; whether a path does is decided on its real location, after
all links and all steps upwards.  A loader of files held in memory knows those by the steps of their
paths.
-/

set_option autoImplicit false

namespace ChartInflation

inductive LoadRestriction where
  | rootOnly
  | unrestricted
deriving DecidableEq, Repr

namespace LoadRestriction

def name : LoadRestriction → String
  | .rootOnly => "root-only"
  | .unrestricted => "none"

def ofName (text : String) : Except String LoadRestriction :=
  if text = "root-only" ∨ text = "rootOnly" then .ok .rootOnly
  else if text = "none" then .ok .unrestricted
  else
    .error ("unknown load restriction '" ++ text ++ "', expected 'root-only' or 'none'")

end LoadRestriction

/-- Read access to files, as they are when they are read. -/
structure Loader where
  /-- The directory from which relative paths are seen. -/
  root : Path
  load : FileSystem → Path → Except InputError Bytes

namespace Loader

/-- The real location of a path as seen from the root, if it may be read. -/
def permitted (restriction : LoadRestriction) (root : Location) (fs : FileSystem) (path : Path) :
    Except InputError Location :=
  match fs.locate [] (root.path.join path) with
  | .error _ => .error (.inaccessible path "file not found")
  | .ok location =>
    if restriction = .rootOnly ∧ !root.isPrefixOf location then
      .error (.outsideRoot location.path root.path)
    else .ok location

def ofDirectory (fs : FileSystem) (here : Location) (root : Path)
    (restriction : LoadRestriction) : Except InputError Loader :=
  if !fs.isDirectory here root then
    .error (.inaccessible root "loader root is not a directory")
  else
    match fs.locate here root with
    | .error e =>
      .error (.inaccessible root ("failed to canonicalize loader root: " ++ e.message))
    | .ok location =>
      .ok ⟨location.path, fun fs path => do
        let found ← permitted restriction location fs path
        (fs.readAt found).mapError .file⟩

/-- The loader of files in memory, each seen from the root.  A file added later replaces one of
the same steps. -/
def ofFiles (root : Path) (files : List (Path × Bytes)) : Loader :=
  let stored := files.map fun f => ((root.join f.1).components, f.2)
  ⟨root, fun _ path =>
    let full := root.join path
    match stored.reverse.lookup full.components with
    | some content => .ok content
    | none => .error (.inaccessible full "file not found")⟩

end Loader

end ChartInflation

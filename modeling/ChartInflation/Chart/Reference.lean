import ChartInflation.Path

/-!
# Chart references

A chart is known by its name, its version and the repository it comes from, and it lives below a
chart home.  A chart with a version has a directory of its own, named for both, so that several
versions of one chart can stand side by side.
-/

set_option autoImplicit false

namespace ChartInflation

/-- An optional text, where an empty one counts as none. -/
def unlessEmpty (s : Option String) : Option String :=
  s.filter (!·.isEmpty)

structure ChartReference where
  name : String
  version : Option String
  repository : Option String
  /-- The directory that the user named for charts, as seen from the loader's root. -/
  chartsDirectory : Path
deriving DecidableEq, Repr

namespace ChartReference

def of (name : String) (version repository : Option String) (home root : Path) : ChartReference :=
  ⟨name, unlessEmpty version, unlessEmpty repository, root.join home⟩

/-- The directory that the chart is looked up in and pulled into. -/
def home (c : ChartReference) : Path :=
  match c.version with
  | some version => c.chartsDirectory.joinName (c.name ++ "-" ++ version)
  | none => c.chartsDirectory

def directory (c : ChartReference) : Path :=
  c.home.joinName c.name

def defaultValuesFile (c : ChartReference) : Path :=
  c.directory.joinName "values.yaml"

def isRegistry (c : ChartReference) : Bool :=
  match c.repository with
  | some repository => "oci://".toList.isPrefixOf repository.toList
  | none => false

def withoutSlashes (s : String) : String :=
  String.ofList (s.toList.reverse.dropWhile (· == '/')).reverse

/-- The arguments that name what is pulled: a registry's chart by its address, a chart of another
repository by its name there. -/
def pullTarget (c : ChartReference) : List String :=
  match c.repository with
  | some repository =>
    if c.isRegistry then [withoutSlashes repository ++ "/" ++ c.name]
    else ["--repo", repository, c.name]
  | none => [c.name]

def pullArguments (c : ChartReference) : List String :=
  ["pull", "--untar", "--untardir", c.home.text] ++ c.pullTarget ++
    match c.version with
    | some version => ["--version", version]
    | none => []

end ChartReference

end ChartInflation

import ChartInflation.Chart.MergePolicy
import ChartInflation.Chart.Reference
import ChartInflation.InflationError
import ChartInflation.Loader
import ChartInflation.Settings

/-!
# Parameters of an inflation

Process settings and a chart configuration together say how a chart is inflated.  They are checked
before anything runs: settings first, then the configuration, field by field.  A text or a path of
which nothing is written counts as not given.
-/

set_option autoImplicit false

namespace ChartInflation

open Yaml (Value)

structure ValuesSource where
  file : Path
  additionalFiles : List Path
  /-- The inline values; once the effective values are known, those. -/
  inline : Value
  policy : MergePolicy

structure RenderOptions where
  releaseName : Option String := none
  namespaceName : Option String := none
  nameTemplate : Option String := none
  includeCRDs : Bool := false
  skipHooks : Bool := false
  skipTests : Bool := false
  apiVersions : List String := []
  kubeVersion : Option String := none
  debug : Bool := false
deriving DecidableEq, Repr

structure Parameters where
  command : String
  chart : ChartReference
  values : ValuesSource
  render : RenderOptions
  /-- The renderer's home, if the user chose one. -/
  configHome : Option Path

namespace Parameters

def standardChartHome : Path := ⟨"charts"⟩

/-- An optional path, where an empty one counts as none. -/
def unlessEmptyPath (p : Option Path) : Option Path :=
  p.filter (!·.isEmpty)

def checkSettings (s : Settings) : Except InflationError Unit :=
  if !s.enabled then
    .error (.configuration "must specify --enable-helm"
      (some "chart inflation runs an external program and is disabled by default"))
  else if onlyBlanks s.command then .error (.invalid "must specify --helm-command")
  else .ok ()

def policyOf (name : Option String) : Except InflationError MergePolicy :=
  match unlessEmpty name with
  | none => .ok .standard
  | some text => (MergePolicy.ofName text).mapError fun e => .invalid ("valuesMerge: " ++ e.message)

/-- Further values files as seen from the loader's root.  Each must be loadable. -/
def additionalFiles (loader : Loader) (fs : FileSystem) :
    List Path → Except InflationError (List Path)
  | [] => .ok []
  | file :: rest =>
    match loader.load fs file with
    | .error e =>
      .error (.invalid
        ("could not load additionalValuesFile '" ++ file.text ++ "': " ++ e.message))
    | .ok _ => do return loader.root.join file :: (← additionalFiles loader fs rest)

def ofConfiguration (s : Settings) (c : ChartConfiguration) (loader : Loader) (fs : FileSystem) :
    Except InflationError Parameters := do
  checkSettings s
  let c := s.override c
  if onlyBlanks c.name then throw (.invalid "chart name cannot be empty")
  let policy ← policyOf c.valuesMerge
  let home := (unlessEmptyPath c.chartHome).getD standardChartHome
  let chart := ChartReference.of c.name c.version c.repo home loader.root
  let additional ← additionalFiles loader fs c.additionalValuesFiles
  return {
    command := s.command
    chart := chart
    values := {
      file := (unlessEmptyPath c.valuesFile).getD chart.defaultValuesFile
      additionalFiles := additional
      inline := c.valuesInline
      policy := policy }
    render := {
      releaseName := unlessEmpty c.releaseName
      namespaceName := unlessEmpty c.namespaceName
      nameTemplate := unlessEmpty c.nameTemplate
      includeCRDs := c.includeCRDs
      skipHooks := c.skipHooks
      skipTests := c.skipTests
      apiVersions := c.apiVersions
      kubeVersion := unlessEmpty c.kubeVersion
      debug := c.debug }
    configHome := unlessEmptyPath c.configHome }

def resolve (s : Settings) (configuration : Bytes) (loader : Loader) (fs : FileSystem) :
    Except InflationError Parameters := do
  checkSettings s
  match ChartConfiguration.ofBytes configuration with
  | .error fault =>
    throw (.configuration ("invalid chart configuration: " ++ (InputError.yaml fault).message)
      (some ("see the HelmChartInflationGenerator fields: " ++
        "name, version, repo, valuesInline, ...")))
  | .ok c => ofConfiguration s c loader fs

end Parameters

end ChartInflation

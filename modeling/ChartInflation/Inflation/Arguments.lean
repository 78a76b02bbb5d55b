import ChartInflation.Inflation.Parameters

/-!
# The renderer's arguments

The arguments that render a chart with its effective values.
-/

set_option autoImplicit false

namespace ChartInflation

def option (name : String) : Option String → List String
  | some value => [name, value]
  | none => []

/-- An option once for each of some values. -/
def options (name : String) (values : List String) : List String :=
  values.flatMap fun value => [name, value]

def flag (name : String) (given : Bool) : List String :=
  if given then [name] else []

def templateArguments (p : Parameters) (valuesFile : Path) : List String :=
  ["template", p.render.releaseName.getD "--generate-name", p.chart.directory.text] ++
    option "--namespace" p.render.namespaceName ++
    option "--name-template" p.render.nameTemplate ++
    ["-f", valuesFile.text] ++
    options "-f" (p.values.additionalFiles.map (·.text)) ++
    options "--api-versions" p.render.apiVersions ++
    option "--kube-version" p.render.kubeVersion ++
    flag "--include-crds" p.render.includeCRDs ++
    flag "--skip-tests" p.render.skipTests ++
    flag "--no-hooks" p.render.skipHooks ++
    flag "--debug" p.render.debug

end ChartInflation

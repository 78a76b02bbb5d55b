import ChartInflation.CommandLine.Run
import ChartInflation.Machine.Recorded

/-!
# What a command reaches

The variables and the paths that a command may look at, so that the outer layer can lay them before
it.  Which paths an inflation reads shows in two stages: the command line names the configuration,
and the configuration names the rest.
-/

set_option autoImplicit false

namespace ChartInflation.CommandLine

def variableNames : List String :=
  ["HELMGEN_ENABLE_HELM", "HELMGEN_HELM_COMMAND", "HELMGEN_KUBE_VERSION", "HELMGEN_API_VERSIONS",
   "HELMGEN_HELM_DEBUG", "CLICOLOR_FORCE"]

/-- The paths of a configuration, as seen from a root: the chart, its base values and the further
values files. -/
def configuredPaths (c : ChartConfiguration) (root : Path) : List Path :=
  let home := (Parameters.unlessEmptyPath c.chartHome).getD Parameters.standardChartHome
  let chart := ChartReference.of c.name c.version c.repo home root
  let values := (Parameters.unlessEmptyPath c.valuesFile).getD chart.defaultValuesFile
  [chart.directory, values, root.join values] ++ c.additionalValuesFiles.map root.join

def Request.firstPaths : Request → List Path
  | .inflate r => [r.configuration, r.loadRoot]
  | .checkVersion _ => []

/-- The paths that a command reaches after those, given the content of its configuration. -/
def Request.laterPaths (configuration : Bytes) : Request → List Path
  | .inflate r =>
    Recorded.answerPaths r.settings.command ++ r.outputDirectory.toList ++
      match ChartConfiguration.ofBytes configuration with
      | .ok c => configuredPaths c r.loadRoot
      | .error _ => []
  | .checkVersion command => Recorded.answerPaths command

def Request.configurationIn (fs : FileSystem) (here : Location) : Request → Bytes
  | .inflate r => Recorded.contentOf fs here r.configuration
  | .checkVersion _ => []

end ChartInflation.CommandLine

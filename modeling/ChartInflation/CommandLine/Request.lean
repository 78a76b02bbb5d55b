import ChartInflation.CommandLine.Arguments
import ChartInflation.Loader
import ChartInflation.Settings

/-!
# What the user asks for

A command line and the environment together ask for a command.  A setting that the command line
leaves open is taken from its variable, and one that both leave open from its default.
-/

set_option autoImplicit false

namespace ChartInflation.CommandLine

abbrev Environment := List (String × String)

structure InflateRequest where
  configuration : Path
  /-- The directory that values files are seen from, if it is not the configuration's own. -/
  root : Option Path
  restriction : LoadRestriction
  outputDirectory : Option Path
  json : Bool
  showValues : Bool
  settings : Settings
deriving DecidableEq, Repr

inductive Request where
  | inflate (request : InflateRequest)
  | checkVersion (command : String)
deriving DecidableEq, Repr

def namesRestriction (text : String) : Bool :=
  (LoadRestriction.ofName text).isOk

def topGrammar : Grammar :=
  ⟨"helmgen", [⟨"debug", .flag, anything⟩], false⟩

def inflateGrammar : Grammar :=
  ⟨"helmgen-inflate",
    [⟨"root", .single, something⟩,
     ⟨"load-restrictor", .single, namesRestriction⟩,
     ⟨"output-dir", .single, something⟩,
     ⟨"json", .flag, anything⟩,
     ⟨"show-values", .flag, anything⟩,
     ⟨"enable-helm", .flag, anything⟩,
     ⟨"helm-command", .single, anything⟩,
     ⟨"helm-kube-version", .single, anything⟩,
     ⟨"helm-api-versions", .many, anything⟩,
     ⟨"helm-debug", .flag, anything⟩,
     ⟨"debug", .flag, anything⟩],
    true⟩

def checkVersionGrammar : Grammar :=
  ⟨"helmgen-check-version",
    [⟨"helm-command", .single, anything⟩, ⟨"debug", .flag, anything⟩], false⟩

/-- A flag that was given, or is set in the environment to `true` or `false`. -/
def flagOr (g : Given) (name : String) (key : String) (env : Environment) :
    Except Stop Bool :=
  if g.hasFlag name then .ok true
  else match env.lookup key with
    | none => .ok false
    | some "true" => .ok true
    | some "false" => .ok false
    | some _ => .error .usage

def valueOr? (g : Given) (name : String) (key : String) (env : Environment) :
    Option String :=
  match g.value? name with
  | some value => some value
  | none => env.lookup key

/-- The values of an option, or of its variable, each cut at commas. -/
def valuesOr (g : Given) (name : String) (key : String) (env : Environment) :
    List String :=
  match g.valuesOf name, env.lookup key with
  | [], none => []
  | [], some value => piecesOf ',' value
  | values, _ => values.flatMap (piecesOf ',')

def rendererCommand (g : Given) (env : Environment) : String :=
  (valueOr? g "helm-command" "HELMGEN_HELM_COMMAND" env).getD "helm"

def settingsOf (g : Given) (env : Environment) : Except Stop Settings := do
  let enabled ← flagOr g "enable-helm" "HELMGEN_ENABLE_HELM" env
  let debug ← flagOr g "helm-debug" "HELMGEN_HELM_DEBUG" env
  return {
    enabled := enabled
    command := rendererCommand g env
    kubeVersion := (valueOr? g "helm-kube-version" "HELMGEN_KUBE_VERSION" env).getD ""
    apiVersions := valuesOr g "helm-api-versions" "HELMGEN_API_VERSIONS" env
    debug := debug }

def restrictionOf (g : Given) : Except Stop LoadRestriction :=
  match g.value? "load-restrictor" with
  | none => .ok .rootOnly
  | some text => (LoadRestriction.ofName text).mapError fun _ => .usage

/-- The request of an `inflate` command.  Resources go to one place only. -/
def inflateRequest (g : Given) (env : Environment) : Except Stop Request := do
  let settings ← settingsOf g env
  let restriction ← restrictionOf g
  match g.argument with
  | none => throw .usage
  | some configuration =>
    if g.hasFlag "json" && (g.value? "output-dir").isSome then throw .usage
    return .inflate {
      configuration := ⟨configuration⟩
      root := (g.value? "root").map .mk
      restriction := restriction
      outputDirectory := (g.value? "output-dir").map .mk
      json := g.hasFlag "json"
      showValues := g.hasFlag "show-values"
      settings := settings }

def commandNames : List String := ["inflate", "check-version", "help"]

/-- The request of a command with its arguments.  Help is about one command at most. -/
def commandRequest (env : Environment) (name : String) (arguments : List String) :
    Except Stop Request :=
  if name = "inflate" then do
    inflateRequest (← readArguments inflateGrammar false none .nothing arguments) env
  else if name = "check-version" then do
    let g ← readArguments checkVersionGrammar false none .nothing arguments
    return .checkVersion (rendererCommand g env)
  else if name = "help" then
    match arguments with
    | [] => .error .help
    | [about] => if commandNames.contains about then .error .help else .error .usage
    | _ => .error .usage
  else .error .usage

/-- The request of a whole command line.  Options may stand in front of the command's name. -/
def requestOf (env : Environment) (g : Given) : List String → Except Stop Request
  | [] => .error .usage
  | text :: rest =>
    let shape := shapeOf text
    match request? topGrammar shape, shape with
    | some stop, _ => .error stop
    | none, .plain => commandRequest env text rest
    | none, .long "debug" none => do requestOf env (← g.addFlag "debug") rest
    | none, _ => .error .usage

end ChartInflation.CommandLine

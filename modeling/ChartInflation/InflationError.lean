import ChartInflation.InputError
import ChartInflation.Text.Blank
import ChartInflation.Text.Quoted

/-!
# Errors of inflations

Every failure ends the inflation.  An error that comes out of the renderer carries what is needed to
repeat the call by hand: the command, the arguments, the environment and what was printed.
-/

set_option autoImplicit false

namespace ChartInflation

structure FailedCall where
  command : String
  arguments : List String
  /-- The variables that were set, each as `name=value`. -/
  environment : List String
  reason : String
  stderr : String
  /-- What was printed, kept only if the renderer was asked for debug output. -/
  stdout : Option String
deriving DecidableEq, Repr

inductive InflationError where
  | configuration (message : String) (help : Option String)
  | chartNotFound (path : Path)
  | values (message : String) (source : Option InputError)
  | unsupportedVersion (message : String) (version : Option String)
  | render (call : FailedCall)
  /-- What the renderer printed are no resources.  `fallback` tells why the second reading failed,
  if there was anything to read. -/
  | output (source : InputError) (fallback : Option String)
deriving DecidableEq, Repr

def FailedCall.captured (call : FailedCall) : String :=
  match call.stdout with
  | some stdout =>
    "\n Helm stack trace:\n" ++ call.stderr ++ "\nHelm template:\n" ++ stdout ++ "\n"
  | none =>
    if onlyBlanks call.stderr then ""
    else "\n" ++ String.ofList (trimEnd call.stderr.toList)

namespace InflationError

def message : InflationError → String
  | .configuration message _ => message
  | .chartNotFound path => "no repo specified for pull, no chart found at '" ++ path.text ++ "'"
  | .values message _ => message
  | .unsupportedVersion message _ => message
  | .render call =>
    "unable to run: '" ++ call.command ++ " " ++ joined " " call.arguments ++ "' with env=" ++
      quotedList call.environment ++ " (is '" ++ call.command ++ "' installed?): " ++ call.reason ++
      call.captured
  | .output source fallback =>
    "could not parse renderer output into resources: " ++ source.message ++
      match fallback with
      | some reason => " (lenient re-read also failed: " ++ reason ++ ")"
      | none => " (no resource documents found after skipping leading text)"

def code : InflationError → String
  | .configuration _ _ => "helmgen::config"
  | .chartNotFound _ => "helmgen::chart_not_found"
  | .values _ _ => "helmgen::values"
  | .unsupportedVersion _ _ => "helmgen::tool_version"
  | .render _ => "helmgen::render"
  | .output _ _ => "helmgen::output"

def help : InflationError → Option String
  | .configuration _ help => help
  | .chartNotFound _ =>
    some "set `repo` to pull the chart, or place the chart under the chart home"
  | .unsupportedVersion _ _ => some "install helm v3 and point --helm-command at it"
  | _ => none

/-- A configuration error without advice. -/
def invalid (message : String) : InflationError :=
  .configuration message none

end InflationError

end ChartInflation

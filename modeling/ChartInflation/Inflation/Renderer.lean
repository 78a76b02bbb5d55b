import ChartInflation.Inflation.Version
import ChartInflation.Machine

/-!
# The renderer

Every call of the renderer gets a home of its own for the renderer's settings, cache and data, so
that nothing is shared between inflations and the user's own settings are never read.
-/

set_option autoImplicit false

namespace ChartInflation

structure Renderer where
  command : String
  home : Path
deriving DecidableEq, Repr

structure Printed where
  stdout : Bytes
  stderr : String
deriving DecidableEq, Repr

namespace Renderer

def environment (r : Renderer) : List (String × Path) :=
  [("HELM_CONFIG_HOME", r.home),
   ("HELM_CACHE_HOME", r.home.joinName ".cache"),
   ("HELM_DATA_HOME", r.home.joinName ".data")]

def call (r : Renderer) (arguments : List String) : Call :=
  ⟨r.command, arguments, r.environment⟩

/-- Whether a text of a call holds a NUL, which no program can be handed. -/
def holdsNul (c : Call) : Bool :=
  (c.command :: c.arguments ++ c.environment.map (·.2.text)).any fun s => s.toList.contains '\x00'

/-- The error of a call.  What was printed is kept if the call asked for debug output. -/
def failure (c : Call) (reason stderr : String) (stdout : Bytes) : InflationError :=
  .render {
    command := c.command
    arguments := c.arguments
    environment := c.environment.map fun v => v.1 ++ "=" ++ v.2.text
    reason := reason
    stderr := stderr
    stdout := if c.arguments.contains "--debug" then some stdout.toStringLossy else none }

def judge (c : Call) : Outcome → Except InflationError Printed
  | .notStarted reason => .error (failure c reason "" [])
  | .exited code stdout stderr =>
    if code = 0 then .ok ⟨stdout, stderr.toStringLossy⟩
    else .error (failure c ("exit status: " ++ toString code) stderr.toStringLossy stdout)
  | .killed signal name stdout stderr =>
    .error (failure c ("signal: " ++ toString signal ++ " (" ++ name ++ ")")
      stderr.toStringLossy stdout)

def run (m : Machine) (r : Renderer) (arguments : List String) (w : World) :
    Except InflationError Printed × World :=
  let c := r.call arguments
  if holdsNul c then (.error (failure c "nul byte found in provided data" "" []), w)
  else
    let (outcome, w) := m.perform c w
    (judge c outcome, w)

def versionArguments : List String :=
  ["version", "-c", "--short"]

/-- The version that the renderer printed, if it is supported. -/
def acceptVersion (printed : Printed) : Except InflationError String :=
  Version.detect printed.stdout.toStringLossy

def checkVersion (m : Machine) (r : Renderer) (w : World) :
    Except InflationError String × World :=
  let (result, w) := r.run m versionArguments w
  (result.bind acceptVersion, w)

end Renderer

end ChartInflation

import ChartInflation.Inflation.Arguments
import ChartInflation.Inflation.EffectiveValues
import ChartInflation.Inflation.Location
import ChartInflation.Inflation.Output
import ChartInflation.Inflation.Renderer
import ChartInflation.Inflation.Scratch

/-!
# Running an inflation

An inflation goes step by step: it makes its scratch directory, asks the renderer for its version,
looks the chart up and pulls it if it must, writes the effective values, renders the chart, and
removes the scratch directory.  A step that fails leads straight to the removal.  Each step is a
function of the world, so the steps of several inflations can take turns.
-/

set_option autoImplicit false

namespace ChartInflation

inductive Phase where
  | start
  | checkVersion (scratch : Path)
  | lookUp (scratch : Path)
  | pull (scratch : Path)
  | writeValues (scratch : Path)
  | render (scratch : Path) (valuesFile : Path)
  | release (result : Except InflationError Resources)
  | finished (result : Except InflationError Resources)

structure Inflation where
  parameters : Parameters
  scratch : Scratch
  phase : Phase

namespace Inflation

def new (p : Parameters) : Inflation :=
  ⟨p, .new, .start⟩

/-- The renderer's home: the one that the user chose, or one below the scratch directory. -/
def home (p : Parameters) (scratch : Path) : Path :=
  p.configHome.getD (scratch.joinName "helm")

def renderer (p : Parameters) (scratch : Path) : Renderer :=
  ⟨p.command, home p scratch⟩

def goTo (i : Inflation) (phase : Phase) : Inflation :=
  { i with phase := phase }

def fail (i : Inflation) (e : InflationError) : Inflation :=
  i.goTo (.release (.error e))

def makeScratch (m : Machine) (i : Inflation) (w : World) : Inflation × World :=
  match i.scratch.path m w with
  | (.ok path, scratch, w) => ({ i with scratch := scratch, phase := .checkVersion path }, w)
  | (.error _, scratch, w) =>
    ({ i with scratch := scratch }.fail
      (.invalid "unable to create tmp dir for HELM_CONFIG_HOME: <io>"), w)

def callRenderer (m : Machine) (i : Inflation) (scratch : Path) (arguments : List String)
    (next : Printed → Phase) (w : World) : Inflation × World :=
  match (renderer i.parameters scratch).run m arguments w with
  | (.ok printed, w) => (i.goTo (next printed), w)
  | (.error e, w) => (i.fail e, w)

def writeValues (m : Machine) (loader : Loader) (i : Inflation) (scratch : Path) (w : World) :
    Inflation × World :=
  let p := i.parameters
  let (result, values, files) :=
    p.values.write p.chart.name loader m.directory scratch w.files
  let i := { i with parameters := { p with values := values } }
  let w := { w with files := files }
  match result with
  | .ok file => (i.goTo (.render scratch file), w)
  | .error e => (i.fail e, w)

def step (m : Machine) (loader : Loader) (i : Inflation) (w : World) : Inflation × World :=
  match i.phase with
  | .start => i.makeScratch m w
  | .checkVersion scratch =>
    i.callRenderer m scratch Renderer.versionArguments (fun printed =>
      match Renderer.acceptVersion printed with
      | .ok _ => .lookUp scratch
      | .error e => .release (.error e)) w
  | .lookUp scratch =>
    match i.parameters.chart.lookUp w.files m.directory with
    | .ok (.present _) => (i.goTo (.writeValues scratch), w)
    | .ok .mustPull => (i.goTo (.pull scratch), w)
    | .error e => (i.fail e, w)
  | .pull scratch =>
    i.callRenderer m scratch i.parameters.chart.pullArguments (fun _ => .writeValues scratch) w
  | .writeValues scratch => i.writeValues m loader scratch w
  | .render scratch file =>
    i.callRenderer m scratch (templateArguments i.parameters file)
      (fun printed => .release (Output.resources printed.stdout)) w
  | .release result =>
    let (scratch, w) := i.scratch.release m w
    ({ i with scratch := scratch, phase := .finished result }, w)
  | .finished _ => (i, w)

def steps (m : Machine) (loader : Loader) : Nat → Inflation → World → Inflation × World
  | 0, i, w => (i, w)
  | n + 1, i, w =>
    let (i, w) := i.step m loader w
    steps m loader n i w

def result (i : Inflation) : Except InflationError Resources :=
  match i.phase with
  | .finished result => result
  | _ => .ok []

/-- Runs an inflation from its start to its end, which seven steps reach. -/
def generate (m : Machine) (loader : Loader) (i : Inflation) (w : World) :
    Inflation × World :=
  steps m loader 7 (i.goTo .start) w

end Inflation

/-- Resolves a configuration and inflates its chart.  A configuration that is refused runs
nothing. -/
def inflate (m : Machine) (s : Settings) (configuration : Bytes) (loader : Loader) (w : World) :
    Except InflationError Resources × World :=
  match Parameters.resolve s configuration loader w.files with
  | .error e => (.error e, w)
  | .ok p =>
    let (i, w) := (Inflation.new p).generate m loader w
    (i.result, w)

end ChartInflation

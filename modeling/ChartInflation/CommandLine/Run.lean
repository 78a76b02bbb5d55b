import ChartInflation.CommandLine.FileName
import ChartInflation.CommandLine.Report
import ChartInflation.CommandLine.Request
import ChartInflation.Inflation.Run
import ChartInflation.JsonValue

/-!
# Running a command

A command prints to standard output as it goes and ends with an exit code: 0 for success, 2 for a
wrong command line, and that of its report for a failure.
-/

set_option autoImplicit false

namespace ChartInflation.CommandLine

structure Exit where
  code : Nat
  stdout : String
deriving DecidableEq, Repr

/-- How far a command came: what it printed, and its report if it failed. -/
structure Ending where
  report : Option Report
  stdout : String
deriving DecidableEq, Repr

def Ending.exit (ending : Ending) : Exit :=
  ⟨ending.report.elim 0 Report.code, ending.stdout⟩

def Ending.success (printed : String) : Ending :=
  ⟨none, printed⟩

def Ending.failure (report : Report) (printed : String) : Ending :=
  ⟨some report, printed⟩

def Ending.failed (doing : String) (report : Report) (printed : String) : Ending :=
  .failure (.context doing report) printed

def usageFailure : Nat := 2

def styled (env : Environment) (codes : List Nat) (text : String) : String :=
  match env.lookup "CLICOLOR_FORCE" with
  | none => text
  | some "0" => text
  | some _ =>
    String.join (codes.map fun n => "\x1b[" ++ toString n ++ "m") ++ text ++ "\x1b[0m"

/-- The directory of a file, the current one for a bare name. -/
def directoryOf (file : Path) : Path :=
  match file.parent? with
  | some parent => if parent.isEmpty then ⟨"."⟩ else parent
  | none => ⟨"."⟩

/-- How the effective values are shown between two separator lines, or up to where they cannot be
written. -/
def shownValues (env : Environment) (values : ValuesSource) : Ending :=
  let title := styled env [36, 1] "# Computed Values" ++ "\n---\n"
  if Values.isEmpty values.inline then
    .success (title ++ "# unchanged from " ++ values.file.text ++ "\n---\n\n")
  else
    match values.inline.print with
    | .error fault => .failed "Failed to serialize values" (.ofYaml fault) title
    | .ok text => .success (title ++ String.ofList (trimEnd text.toList) ++ "\n---\n\n")

def writeResources (env : Environment) (here : Location) (directory : Path) :
    Nat → Resources → FileSystem → String → Ending × FileSystem
  | _, [], fs, printed => (.success printed, fs)
  | index, r :: rest, fs, printed =>
    let file := directory.joinName (fileName index r)
    match r.print with
    | .error fault => (.failure (.ofYaml fault) printed, fs)
    | .ok text =>
      match fs.write here file (Bytes.ofString text) with
      | .error e => (.failed ("Failed to write " ++ file.text) (.ofFile e) printed, fs)
      | .ok fs =>
        writeResources env here directory (index + 1) rest fs
          (printed ++ styled env [32] "wrote" ++ " " ++ file.text ++ "\n")

def printResources (json : Bool) (resources : Resources) (printed : String) : Ending :=
  if json then
    match JsonValue.ofItems? (resources.map Resource.toValue) with
    | some items => .success (printed ++ (JsonValue.array items).pretty 0 ++ "\n")
    | none =>
      .failed "Failed to serialize resources as JSON" (.other "key must be a string") printed
  else
    match Resources.print resources with
    | .ok text => .success (printed ++ text)
    | .error fault => .failed "Failed to serialize resources" (.ofYaml fault) printed

/-- Puts resources where they are asked for, behind what was printed. -/
def deliver (env : Environment) (here : Location) (request : InflateRequest)
    (resources : Resources) (fs : FileSystem) (printed : String) : Ending × FileSystem :=
  match request.outputDirectory with
  | some directory =>
    match fs.makeDirectoryTree here directory with
    | (fs, some e) =>
      (.failed ("Failed to create output directory: " ++ directory.text) (.ofFile e) printed, fs)
    | (fs, none) => writeResources env here directory 0 resources fs printed
  | none => (printResources request.json resources printed, fs)

def shownFor (env : Environment) (request : InflateRequest) (values : ValuesSource) : Ending :=
  if request.showValues then shownValues env values else .success ""

def present (m : Machine) (env : Environment) (request : InflateRequest) (values : ValuesSource)
    (resources : Resources) (w : World) : Ending × World :=
  let shown := shownFor env request values
  match shown.report with
  | some _ => (shown, w)
  | none =>
    let (ending, files) := deliver env m.directory request resources w.files shown.stdout
    (ending, { w with files := files })

def InflateRequest.loadRoot (request : InflateRequest) : Path :=
  request.root.getD (directoryOf request.configuration)

def runInflate (m : Machine) (env : Environment) (request : InflateRequest) (w : World) :
    Ending × World :=
  match w.files.read m.directory request.configuration with
  | .error e =>
    (.failed ("Failed to read chart configuration " ++ request.configuration.text) (.ofFile e) "",
      w)
  | .ok configuration =>
    match Loader.ofDirectory w.files m.directory request.loadRoot request.restriction with
    | .error e =>
      (.failed ("Invalid loader root " ++ request.loadRoot.text) (.ofInput e) "", w)
    | .ok loader =>
      match Parameters.resolve request.settings configuration loader w.files with
      | .error e => (.failure (.inflation e) "", w)
      | .ok p =>
        let (i, w) := (Inflation.new p).generate m loader w
        match i.result with
        | .error e => (.failure (.inflation e) "", w)
        | .ok resources => present m env request i.parameters.values resources w

/-- Checks the renderer's version, with a home for it that is removed again. -/
def runCheckVersion (m : Machine) (env : Environment) (command : String) (w : World) :
    Ending × World :=
  match Scratch.new.path m w with
  | (.error e, _, w) => (.failed "Failed to create a temporary helm home" (.ofFile e) "", w)
  | (.ok directory, scratch, w) =>
    let (result, w) := Renderer.checkVersion m ⟨command, directory.joinName "helm"⟩ w
    let (_, w) := scratch.release m w
    match result with
    | .error e => (.failure (.inflation e) "", w)
    | .ok version => (.success (styled env [32, 1] "✓" ++ " helm v" ++ version ++ "\n"), w)

def programVersion : String := "0.1.0"

def usageText : String :=
  "Inflate Helm charts into Kubernetes resources\n\n" ++
  "Usage: helmgen [OPTIONS] <COMMAND>\n\n" ++
  "Commands:\n" ++
  "  inflate        Render a chart configuration into resources\n" ++
  "  check-version  Check that the helm binary is a supported version\n" ++
  "  help           Print this message or the help of the given subcommand(s)\n"

def runRequest (m : Machine) (env : Environment) : Request → World → Ending × World
  | .inflate request, w => runInflate m env request w
  | .checkVersion command, w => runCheckVersion m env command w

def run (m : Machine) (env : Environment) (arguments : List String) (w : World) : Exit × World :=
  match requestOf env .nothing arguments with
  | .error .usage => (⟨usageFailure, ""⟩, w)
  | .error .help => (⟨0, usageText⟩, w)
  | .error (.version name) => (⟨0, name ++ " " ++ programVersion ++ "\n"⟩, w)
  | .ok request => ((runRequest m env request w).1.exit, (runRequest m env request w).2)

end ChartInflation.CommandLine

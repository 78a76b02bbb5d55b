import ChartInflation.InflationError

/-!
# Reports

A command that fails reports an error, behind what it was doing when the error came up.  The exit
code is 2 for a wrong configuration, 3 for a missing chart or unusable values, 4 for a renderer that
fails, is not supported or prints no resources, 5 for an error of the file system, and 1 for
everything else.
-/

set_option autoImplicit false

namespace ChartInflation.CommandLine

inductive Report where
  | inflation (e : InflationError)
  | file (e : FileError)
  /-- An error of another kind, of which only the text is known. -/
  | other (message : String)
  | context (doing : String) (report : Report)
deriving DecidableEq, Repr

def exitCode : InflationError → Nat
  | .configuration _ _ => 2
  | .chartNotFound _ => 3
  | .values _ _ => 3
  | .unsupportedVersion _ _ => 4
  | .render _ => 4
  | .output _ _ => 4

def fileFailure : Nat := 5

def otherFailure : Nat := 1

namespace Report

def code : Report → Nat
  | .inflation e => exitCode e
  | .file _ => fileFailure
  | .other _ => otherFailure
  | .context _ report => report.code

def cause : Report → Report
  | .context _ report => report.cause
  | report => report

/-- The report of an error of the file system in a command.  As of every error that is not one of an
inflation, only the text is kept. -/
def ofFile (e : FileError) : Report :=
  .other e.message

def ofInput (e : InputError) : Report :=
  .other e.message

def ofYaml (fault : Yaml.Fault) : Report :=
  .ofInput (.yaml fault)

end Report

end ChartInflation.CommandLine

import ChartInflation.Inflation.Parameters

/-!
# Effective values

The renderer reads the values of a chart from one file.  Without inline values that is a copy of the
base file; otherwise the two are combined as the policy says, and the source keeps the result.
-/

set_option autoImplicit false

namespace ChartInflation

open Yaml (Value)

namespace ValuesSource

def base (s : ValuesSource) (loader : Loader) (fs : FileSystem) : Except InflationError Bytes :=
  (loader.load fs s.file).mapError fun e =>
    .values ("failed to load values file '" ++ s.file.text ++ "'") (some e)

def effective (s : ValuesSource) (loader : Loader) (fs : FileSystem) :
    Except InflationError Value :=
  match s.policy.inlinePrecedence with
  | none => .ok s.inline
  | some precedence => do
    let bytes ← s.base loader fs
    match Value.ofBytes bytes with
    | .error fault =>
      throw (.values ("failed to parse values file '" ++ s.file.text ++ "'")
        (some (.yaml fault)))
    | .ok base => return Values.merged base s.inline precedence

def content (s : ValuesSource) (loader : Loader) (fs : FileSystem) :
    Except InflationError (Bytes × ValuesSource) := do
  if Values.isEmpty s.inline then return (← s.base loader fs, s)
  else
    let effective ← s.effective loader fs
    match effective.print with
    | .error fault =>
      throw (.values "failed to serialize merged values" (some (.yaml fault)))
    | .ok text => return (Bytes.ofString text, { s with inline := effective })

def target (directory : Path) (chart : String) : Path :=
  directory.joinName (chart ++ "-helmgen-values.yaml")

/-- Writes the effective values.  The source that is given back holds them also if the file cannot
be written. -/
def write (s : ValuesSource) (chart : String) (loader : Loader) (here : Location)
    (directory : Path) (fs : FileSystem) :
    Except InflationError Path × ValuesSource × FileSystem :=
  match s.content loader fs with
  | .error e => (.error e, s, fs)
  | .ok (bytes, updated) =>
    let target := target directory chart
    match fs.write here target bytes with
    | .ok fs => (.ok target, updated, fs)
    | .error e =>
      (.error (.values ("failed to write values file '" ++ target.text ++ "'")
        (some (.file e))), updated, fs)

end ValuesSource

end ChartInflation

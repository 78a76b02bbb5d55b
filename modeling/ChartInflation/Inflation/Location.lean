import ChartInflation.Chart.Reference
import ChartInflation.FileSystem
import ChartInflation.InflationError

/-!
# Where a chart comes from

A chart whose directory is there is used as it is; any other one must be pulled, which takes a
repository.  Nothing remote is asked.
-/

set_option autoImplicit false

namespace ChartInflation

inductive ChartLocation where
  | present (directory : Path)
  | mustPull
deriving DecidableEq, Repr

def ChartReference.lookUp (c : ChartReference) (fs : FileSystem) (here : Location) :
    Except InflationError ChartLocation :=
  if fs.isDirectory here c.directory then .ok (.present c.directory)
  else if c.repository.isNone then .error (.chartNotFound c.directory)
  else .ok .mustPull

end ChartInflation

import ChartInflation.FileSystem

/-!
# The machine around an inflation

An inflation meets its surroundings in three ways: it reads and writes files, it asks for names that
nothing has yet, and it calls programs.  A `World` is what changes, a `Machine` what stays.  Nothing
is known of the programs: what a call yields, and what it does to the files, may depend on all calls
before it.
-/

set_option autoImplicit false

namespace ChartInflation

/-- A call of a program.  Variables that are not named keep their values. -/
structure Call where
  command : String
  arguments : List String
  environment : List (String × Path)
deriving DecidableEq, Repr

inductive Outcome where
  | notStarted (reason : String)
  | exited (code : Nat) (stdout stderr : Bytes)
  | killed (signal : Nat) (name : String) (stdout stderr : Bytes)
deriving DecidableEq, Repr

/-- What changes while charts are inflated. -/
structure World where
  files : FileSystem
  calls : List Call
  drawn : Nat

structure Machine where
  /-- The directory that relative paths are seen from. -/
  directory : Location
  scratchHome : Path
  /-- What a call yields and the files after it, given the calls before it. -/
  tool : List Call → Call → FileSystem → Outcome × FileSystem

namespace Machine

def perform (m : Machine) (call : Call) (w : World) : Outcome × World :=
  let (outcome, files) := m.tool w.calls call w.files
  (outcome, { w with files := files, calls := w.calls ++ [call] })

end Machine

end ChartInflation

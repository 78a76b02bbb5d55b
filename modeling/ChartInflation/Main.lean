import ChartInflation.CommandLine.Reach

/-!
# The program

The outer layer of the command line: it lays the files and the variables that a command reaches
before it, runs the command, prints what it prints and writes what it wrote.  No program can be
started from here, so the renderer is one that answers from files.
-/

set_option autoImplicit false

namespace ChartInflation.Program

def readEnvironment : List String → IO CommandLine.Environment
  | [] => return []
  | name :: rest => do
    let more ← readEnvironment rest
    match ← IO.getEnv name with
    | some value => return (name, value) :: more
    | none => return more

def realLocation? (path : Path) : IO (Option Location) := do
  match ← (IO.FS.realPath path.text).toBaseIO with
  | .ok real => return some (Path.names ⟨real.toString⟩)
  | .error _ => return none

/-- What stands at a real location.  What cannot be read as a file counts as a directory. -/
def entryAt (location : Location) : IO Entry := do
  match ← (IO.FS.readBinFile location.path.text).toBaseIO with
  | .ok content => return .file content.toList true
  | .error _ => return .directory

/-- Lays the steps of a path before a command, each seen from the real location of the one before
it.  A step that leads elsewhere is a link. -/
def layOut (fs : FileSystem) (here : Location) : List String → IO FileSystem
  | [] => return fs
  | name :: rest => do
    let next := here ++ [name]
    match ← realLocation? (Location.path next) with
    | none => return fs
    | some real =>
      let fs := fs.put real (← entryAt real)
      let fs :=
        if name = "." ∨ name = ".." ∨ real = next then fs
        else fs.put next (.link real.path.text)
      layOut fs real rest

def layOutAll (here : Location) (fs : FileSystem) : List Path → IO FileSystem
  | [] => return fs
  | path :: rest => do
    let fs ← layOut fs (if path.isAbsolute then [] else here) path.names
    layOutAll here fs rest

def writeEntry (before : FileSystem) (location : Location) (entry : Entry) : IO Unit := do
  if before.entry? location ≠ some entry then
    match entry with
    | .file content _ =>
      IO.FS.writeBinFile location.path.text (ByteArray.mk content.toArray)
    | .directory => IO.FS.createDirAll location.path.text
    | .link _ => return

def writeBack (before : FileSystem) : List (Location × Entry) → IO Unit
  | [] => return
  | (location, entry) :: rest => do
    writeEntry before location entry
    writeBack before rest

def filesFor (here : Location) (scratchHome : Path) (request : CommandLine.Request) :
    IO FileSystem := do
  let fs ← layOutAll here .empty (⟨here.path.text⟩ :: scratchHome :: request.firstPaths)
  layOutAll here fs (request.laterPaths (request.configurationIn fs here))

def run (arguments : List String) : IO UInt32 := do
  let env ← readEnvironment CommandLine.variableNames
  let here := Path.names ⟨(← IO.currentDir).toString⟩
  let scratchHome : Path := ⟨(← IO.getEnv "TMPDIR").getD "/tmp"⟩
  let files ←
    match CommandLine.requestOf env .nothing arguments with
    | .ok request => filesFor here scratchHome request
    | .error _ => pure .empty
  let (exit, world) :=
    CommandLine.run (.recorded here scratchHome) env arguments ⟨files, [], 0⟩
  IO.print exit.stdout
  writeBack files world.files.entries
  return UInt32.ofNat exit.code

end ChartInflation.Program

def main (arguments : List String) : IO UInt32 :=
  ChartInflation.Program.run arguments

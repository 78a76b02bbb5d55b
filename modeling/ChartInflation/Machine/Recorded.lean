import ChartInflation.Machine

/-!
# A renderer that answers from files

Where no program can be started, an executable file stands for a renderer whose answers were
recorded beside it.  For the subcommand `s` the file `s.out` is what it prints, `s.err` what it
reports, and `s.code` the code it exits with, or the word `kill` if it is killed; the tree `s.tree`
is copied over the directory above.  Each call is recorded in `calls`: the three homes and the
arguments, each ended by a NUL, and for `template` also the values file that it was given.
-/

set_option autoImplicit false

namespace ChartInflation

namespace Recorded

def beside (command : String) (name : String) : Path :=
  ⟨String.ofList (command.toList.reverse.dropWhile (· != '/')).reverse ++ name⟩

def subcommands : List String := ["version", "pull", "template"]

def answerPaths (command : String) : List Path :=
  ⟨command⟩ :: subcommands.flatMap fun s =>
    [".out", ".err", ".code"].map fun suffix => beside command (s ++ suffix)

/-- Why a command cannot be started.  A command without a slash is looked for among the installed
programs, of which there are none. -/
def startError? (fs : FileSystem) (here : Location) (command : String) : Option FileError :=
  if !command.toList.contains '/' then some .notFound
  else
    match fs.locate here ⟨command⟩ with
    | .error e => some e
    | .ok location =>
      match fs.entry? location with
      | some (.file _ true) => none
      | _ => some .permissionDenied

def contentOf (fs : FileSystem) (here : Location) (path : Path) : Bytes :=
  match fs.read here path with
  | .ok content => content
  | .error _ => []

def tryWrite (fs : FileSystem) (here : Location) (path : Path) (content : Bytes) : FileSystem :=
  match fs.write here path content with
  | .ok fs => fs
  | .error _ => fs

/-- The first number from `n` on under which no call is recorded, among `fuel` numbers. -/
def freeNumber (fs : FileSystem) (here : Location) (command : String) : Nat → Nat → Nat
  | 0, n => n
  | fuel + 1, n =>
    match fs.locate here (beside command ("calls/" ++ toString n)) with
    | .ok _ => freeNumber fs here command fuel (n + 1)
    | .error _ => n

def record (call : Call) : Bytes :=
  (call.environment.map (·.2.text) ++ call.arguments).flatMap fun s => Bytes.ofString s ++ [0]

def firstFile? : List String → Option String
  | [] => none
  | "-f" :: rest => rest.head?
  | _ :: rest => firstFile? rest

def recordCall (here : Location) (call : Call) (fs : FileSystem) : FileSystem :=
  let name := "calls/" ++
    toString (freeNumber fs here call.command (fs.entries.length + 1) 0)
  let fs := tryWrite fs here (beside call.command name) (record call)
  match call.arguments.head?, firstFile? call.arguments with
  | some "template", some file =>
    match fs.read here ⟨file⟩ with
    | .ok content => tryWrite fs here (beside call.command (name ++ ".values")) content
    | .error _ => fs
  | _, _ => fs

def copyEntry (here : Location) (fs : FileSystem) (target : Path) : Entry → FileSystem
  | .directory =>
    match fs.makeDirectory here target with
    | .ok fs => fs
    | .error _ => fs
  | .file content _ => tryWrite fs here target content
  | .link destination =>
    match fs.resolve false here target with
    | .ok (.found location) => (fs.removeTree location).put location (.link destination)
    | .ok (.absent location) => fs.put location (.link destination)
    | .error _ => fs

def copyTree (here : Location) (source target : Path) (fs : FileSystem) : FileSystem :=
  match fs.locate here source with
  | .error _ => fs
  | .ok location =>
    (fs.below location).foldl
      (fun fs e => copyEntry here fs (target.joinName (joined "/" e.1)) e.2) fs

def ending (code : Bytes) (stdout stderr : Bytes) : Outcome :=
  let word := (code.reverse.dropWhile (· == 0x0A)).reverse
  if word = Bytes.ofString "kill" then .killed 9 "SIGKILL" stdout stderr
  else if word.isEmpty then .exited 0 stdout stderr
  else if word.all fun b => 0x30 ≤ b && b ≤ 0x39 then
    .exited (word.foldl (fun n b => n * 10 + (b.toNat - 48)) 0 % 256) stdout stderr
  else .exited 2 stdout stderr

def tool (here : Location) (_ : List Call) (call : Call) (fs : FileSystem) :
    Outcome × FileSystem :=
  match startError? fs here call.command with
  | some e => (.notStarted e.message, fs)
  | none =>
    let subcommand := call.arguments.head?.getD ""
    let file := fun suffix => beside call.command (subcommand ++ suffix)
    let fs := recordCall here call fs
    let fs := copyTree here (file ".tree") (beside call.command "..") fs
    (ending (contentOf fs here (file ".code")) (contentOf fs here (file ".out"))
      (contentOf fs here (file ".err")), fs)

end Recorded

/-- The machine in which every command answers from files. -/
def Machine.recorded (directory : Location) (scratchHome : Path) : Machine :=
  ⟨directory, scratchHome, Recorded.tool directory⟩

end ChartInflation

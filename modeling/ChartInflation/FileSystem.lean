import ChartInflation.Path
import ChartInflation.Text.Utf8

/-!
# File systems

A file system is a tree of directories with files and symbolic links in it, held as the list of its
entries by location.  A path is resolved step by step: every step is taken from a directory, a link
met on the way is followed, and at most forty links are followed in all.  Each operation fails with
the first cause that the resolution meets.
-/

set_option autoImplicit false

namespace ChartInflation

inductive FileError where
  | notFound
  | permissionDenied
  | exists
  | notADirectory
  | isADirectory
  | nameTooLong
  | tooManyLinks
  | nulInPath
deriving DecidableEq, Repr

def FileError.message : FileError → String
  | .notFound => "No such file or directory (os error 2)"
  | .permissionDenied => "Permission denied (os error 13)"
  | .exists => "File exists (os error 17)"
  | .notADirectory => "Not a directory (os error 20)"
  | .isADirectory => "Is a directory (os error 21)"
  | .nameTooLong => "File name too long (os error 36)"
  | .tooManyLinks => "Too many levels of symbolic links (os error 40)"
  | .nulInPath => "file name contained an unexpected NUL byte"

/-- A place in a file system: the names on the way from the root, with no link among those in front
of the last one. -/
abbrev Location := List String

def Location.path (location : Location) : Path :=
  ⟨"/" ++ joined "/" location⟩

inductive Entry where
  | file (content : Bytes) (executable : Bool)
  | directory
  | link (target : String)
deriving DecidableEq, Repr

/-- A file system.  The root directory is there without an entry. -/
structure FileSystem where
  entries : List (Location × Entry)
deriving DecidableEq, Repr

namespace FileSystem

def empty : FileSystem := ⟨[]⟩

def entry? (fs : FileSystem) (location : Location) : Option Entry :=
  if location.isEmpty then some .directory else fs.entries.lookup location

def isDirectoryAt (fs : FileSystem) (location : Location) : Bool :=
  fs.entry? location == some .directory

def put (fs : FileSystem) (location : Location) (entry : Entry) : FileSystem :=
  ⟨replace fs.entries⟩
where
  replace : List (Location × Entry) → List (Location × Entry)
    | [] => [(location, entry)]
    | (l, e) :: rest => if l = location then (l, entry) :: rest else (l, e) :: replace rest

def removeTree (fs : FileSystem) (location : Location) : FileSystem :=
  ⟨fs.entries.filter fun e => !location.isPrefixOf e.1⟩

def below (fs : FileSystem) (location : Location) : List (Location × Entry) :=
  fs.entries.filterMap fun e =>
    if location.isPrefixOf e.1 && e.1.length > location.length then
      some (e.1.drop location.length, e.2)
    else none

inductive Resolved where
  | found (location : Location)
  | absent (location : Location)
deriving DecidableEq, Repr

inductive Walk where
  | arrived (r : Resolved)
  | failed (e : FileError)
  /-- At a link in a directory, before the steps that remain behind it. -/
  | atLink (directory : Location) (target : String) (rest : List String)
deriving DecidableEq, Repr

/-- The steps of a path for its resolution.  A slash at the end asks for a directory, as a dot
does. -/
def steps (path : Path) : List String :=
  path.names ++ (if Path.endsInSlash path.text.toList then ["."] else [])

/-- Takes steps from a location up to the first link that is to be followed. -/
def walk (fs : FileSystem) (followLast : Bool) (here : Location) : List String → Walk
  | [] => .arrived (.found here)
  | name :: rest =>
    if !fs.isDirectoryAt here then .failed .notADirectory
    else if name = "." then fs.walk followLast here rest
    else if name = ".." then fs.walk followLast here.dropLast rest
    else if (Utf8.encode name.toList).length > 255 then .failed .nameTooLong
    else
      let next := here ++ [name]
      match fs.entry? next with
      | none => if rest.isEmpty then .arrived (.absent next) else .failed .notFound
      | some (.link target) =>
        if rest.isEmpty && !followLast then .arrived (.found next)
        else .atLink here target rest
      | some _ => fs.walk followLast next rest

def follow (fs : FileSystem) (followLast : Bool) :
    Nat → Location → List String → Except FileError Resolved
  | links, here, names =>
    match fs.walk followLast here names with
    | .arrived r => .ok r
    | .failed e => .error e
    | .atLink directory target rest =>
      match links with
      | 0 => .error .tooManyLinks
      | links + 1 =>
        if target.isEmpty then .error .notFound
        else
          let path : Path := ⟨target⟩
          fs.follow followLast links (if path.isAbsolute then [] else directory)
            (steps path ++ rest)

def resolve (fs : FileSystem) (followLast : Bool) (here : Location) (path : Path) :
    Except FileError Resolved :=
  if path.text.toList.contains '\x00' then .error .nulInPath
  else if path.isEmpty then .error .notFound
  else if (Utf8.encode path.text.toList).length ≥ 4096 then .error .nameTooLong
  else fs.follow followLast 40 (if path.isAbsolute then [] else here) (steps path)

def locate (fs : FileSystem) (here : Location) (path : Path) : Except FileError Location := do
  match ← fs.resolve true here path with
  | .found location => return location
  | .absent _ => throw .notFound

def isDirectory (fs : FileSystem) (here : Location) (path : Path) : Bool :=
  match fs.locate here path with
  | .ok location => fs.isDirectoryAt location
  | .error _ => false

def readAt (fs : FileSystem) (location : Location) : Except FileError Bytes :=
  match fs.entry? location with
  | some (.file content _) => .ok content
  | some .directory => .error .isADirectory
  | _ => .error .notFound

def read (fs : FileSystem) (here : Location) (path : Path) : Except FileError Bytes := do
  fs.readAt (← fs.locate here path)

/-- Writes a file, making it if it is not there.  A file that is there stays executable or not. -/
def write (fs : FileSystem) (here : Location) (path : Path) (content : Bytes) :
    Except FileError FileSystem := do
  match ← fs.resolve true here path with
  | .absent location => return fs.put location (.file content false)
  | .found location =>
    match fs.entry? location with
    | some (.file _ executable) => return fs.put location (.file content executable)
    | _ => throw .isADirectory

def makeDirectory (fs : FileSystem) (here : Location) (path : Path) :
    Except FileError FileSystem := do
  match ← fs.resolve false here path with
  | .absent location => return fs.put location .directory
  | .found _ => throw .exists

/-- The paths that lead step by step to a path, itself the last one. -/
def leading (path : Path) : List Path :=
  let names := path.names
  let start := if path.isAbsolute then "/" else ""
  (List.range names.length).map fun n => ⟨start ++ joined "/" (names.take (n + 1))⟩

/-- Makes each directory that is not there yet.  With the first failure the file system is as the
steps before it left it. -/
def makeDirectories (here : Location) : FileSystem → List Path → FileSystem × Option FileError
  | fs, [] => (fs, none)
  | fs, path :: rest =>
    match fs.makeDirectory here path with
    | .ok fs => makeDirectories here fs rest
    | .error e =>
      if fs.isDirectory here path then makeDirectories here fs rest else (fs, some e)

def makeDirectoryTree (fs : FileSystem) (here : Location) (path : Path) :
    FileSystem × Option FileError :=
  if path.text.toList.contains '\x00' then (fs, some .nulInPath)
  else makeDirectories here fs (leading path)

end FileSystem

end ChartInflation

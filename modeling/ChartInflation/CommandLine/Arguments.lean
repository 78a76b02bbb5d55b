import ChartInflation.Text.Pieces

/-!
# Reading a command line

A command takes options, some of them with a value, and at most one argument of its own.  Arguments
are read from left to right, and the first thing that is wrong, or the first request for help or for
the version, ends the reading.
-/

set_option autoImplicit false

namespace ChartInflation.CommandLine

inductive Stop where
  | usage
  | help
  | version (name : String)
deriving DecidableEq, Repr

inductive Kind where
  /-- Without a value, at most once. -/
  | flag
  /-- With a value, at most once. -/
  | single
  /-- With a value, any number of times. -/
  | many
deriving DecidableEq, Repr

structure OptionRule where
  name : String
  kind : Kind
  accepts : String → Bool

structure Grammar where
  title : String
  options : List OptionRule
  takesArgument : Bool

structure Given where
  flags : List String
  /-- The values of options, the last one first. -/
  values : List (String × String)
  argument : Option String
deriving DecidableEq, Repr

namespace Given

def nothing : Given := ⟨[], [], none⟩

def hasFlag (g : Given) (name : String) : Bool :=
  g.flags.contains name

def valuesOf (g : Given) (name : String) : List String :=
  (g.values.reverse.filter (·.1 == name)).map (·.2)

def value? (g : Given) (name : String) : Option String :=
  (g.valuesOf name).head?

def addFlag (g : Given) (name : String) : Except Stop Given :=
  if g.hasFlag name then .error .usage else .ok { g with flags := name :: g.flags }

def addValue (g : Given) (rule : OptionRule) (value : String) : Except Stop Given :=
  if !rule.accepts value then .error .usage
  else if rule.kind != .many && (g.value? rule.name).isSome then .error .usage
  else .ok { g with values := (rule.name, value) :: g.values }

/-- Takes up an argument, which must not be empty. -/
def addArgument (g : Given) (grammar : Grammar) (text : String) : Except Stop Given :=
  if !grammar.takesArgument || g.argument.isSome || text.isEmpty then .error .usage
  else .ok { g with argument := some text }

end Given

inductive Shape where
  /-- Two dashes alone: no option follows. -/
  | endOfOptions
  /-- An option by its name, with the value behind an equals sign. -/
  | long (name : String) (value : Option String)
  | short (letter : Char)
  | plain
deriving DecidableEq, Repr

def shapeOf (text : String) : Shape :=
  match text.toList with
  | ['-', '-'] => .endOfOptions
  | '-' :: '-' :: rest =>
    let name := String.ofList (rest.takeWhile (· != '='))
    match rest.dropWhile (· != '=') with
    | _ :: value => .long name (some (String.ofList value))
    | [] => .long name none
  | '-' :: c :: _ => .short c
  | _ => .plain

def isValue (text : String) : Bool :=
  shapeOf text == .plain

def request? (grammar : Grammar) : Shape → Option Stop
  | .long "help" none => some .help
  | .long "version" none => some (.version grammar.title)
  | .short 'h' => some .help
  | .short 'V' => some (.version grammar.title)
  | _ => none

/-- Reads the arguments of a command.  `pending` is an option that waits for its value. -/
def readArguments (grammar : Grammar) (onlyPlain : Bool) (pending : Option OptionRule)
    (g : Given) : List String → Except Stop Given
  | [] => if pending.isSome then .error .usage else .ok g
  | text :: rest =>
    match pending with
    | some rule => do
      if !isValue text then throw .usage
      readArguments grammar onlyPlain none (← g.addValue rule text) rest
    | none =>
      let shape := if onlyPlain then .plain else shapeOf text
      match request? grammar shape, shape with
      | some stop, _ => .error stop
      | none, .endOfOptions => readArguments grammar true none g rest
      | none, .plain => do
        readArguments grammar onlyPlain none (← g.addArgument grammar text) rest
      | none, .short _ => .error .usage
      | none, .long name value =>
        match grammar.options.find? (·.name == name) with
        | none => .error .usage
        | some rule =>
          match rule.kind, value with
          | .flag, none => do
            readArguments grammar onlyPlain none (← g.addFlag name) rest
          | .flag, some _ => .error .usage
          | _, some value => do
            readArguments grammar onlyPlain none (← g.addValue rule value) rest
          | _, none => readArguments grammar onlyPlain (some rule) g rest

def anything (_ : String) : Bool := true

def something (text : String) : Bool := !text.isEmpty

end ChartInflation.CommandLine

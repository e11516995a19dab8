import NestedLayout.Diagram.Error
import NestedLayout.Number.Reading

/-!
# Command line options

`CommandLine.parse` reads the arguments of a call from left to right.

* **Values** of an option stand in the next argument, or behind `=`, or, for a short option, right
  behind its letter. An argument that starts with a hyphen is no value of the option before it,
  unless it is a lone hyphen.
* **Letters** of short options without values may be written together behind one hyphen.
* Every option may be given once. Asking for the version or for help ends the reading at once.
-/

set_option autoImplicit false

namespace NestedLayout

namespace CommandLine

/-- What a call may ask for. -/
structure Options where
  /-- The file with the diagram; standard input when there is none, or when it is a hyphen. -/
  input : Option String
  /-- The file for the listing; standard output when there is none. -/
  output : Option String
  settings : Option String
  width : Option Float32
  height : Option Float32
  unit : Bool
  tool : Option String
  noTool : Bool
  /-- Asks for a log, which no call keeps: it says nothing about the layout. -/
  verbose : Bool

/-- The options of a call without arguments. -/
def Options.standard : Options := ⟨none, none, none, none, none, false, none, false, false⟩

inductive Request where
  | layOut (options : Options)
  | showVersion
  | showHelp

/-- What can be wrong with the arguments. -/
inductive ArgumentError where
  | unknown (argument : String)
  | missingValue (option : String)
  | badValue (option value : String)
  | needlessValue (option : String)
  | repeated (option : String)
  | conflict (first second : String)

def ArgumentError.message : ArgumentError → String
  | unknown argument => "unexpected argument " ++ DiagramError.quoted argument
  | missingValue option => "a value is required for " ++ DiagramError.quoted option
  | badValue option value =>
    "invalid value " ++ DiagramError.quoted value ++ " for " ++ DiagramError.quoted option
  | needlessValue option => DiagramError.quoted option ++ " takes no value"
  | repeated option => DiagramError.quoted option ++ " cannot be used more than once"
  | conflict first second =>
    DiagramError.quoted first ++ " cannot be used with " ++ DiagramError.quoted second

/-! ## The options -/

/-- What an option does. -/
inductive Effect where
  /-- It sets something. -/
  | flag (set : Options → Options)
  /-- It takes a value, which may be refused. -/
  | value (set : String → Options → Option Options)
  | version
  | help

structure OptionSpec where
  name : String
  letter : Option Char
  effect : Effect

/-- A path may not be empty. -/
def path (set : String → Options → Options) : Effect :=
  .value fun v o => if v.isEmpty then none else some (set v o)

def coordinate (set : Float32 → Options → Options) : Effect :=
  .value fun v o => (Decimal.coordinate? v).map fun x => set x o

/-- All options. -/
def specs : List OptionSpec := [
  ⟨"input", some 'i', path fun v o => { o with input := some v }⟩,
  ⟨"output", some 'o', path fun v o => { o with output := some v }⟩,
  ⟨"configFile", some 'c', path fun v o => { o with settings := some v }⟩,
  ⟨"width", some 'w', coordinate fun v o => { o with width := some v }⟩,
  ⟨"height", some 'H', coordinate fun v o => { o with height := some v }⟩,
  ⟨"unit", none, .flag fun o => { o with unit := true }⟩,
  ⟨"dot", none, .value fun v o => some { o with tool := some v }⟩,
  ⟨"no-dot", none, .flag fun o => { o with noTool := true }⟩,
  ⟨"verbose", some 'v', .flag fun o => { o with verbose := true }⟩,
  ⟨"help", some 'h', .help⟩,
  ⟨"version", some 'V', .version⟩]

def named? (name : String) : Option OptionSpec := specs.find? fun s => s.name == name

def lettered? (letter : Char) : Option OptionSpec := specs.find? fun s => s.letter == some letter

/-! ## Reading the arguments -/

/-- The options read so far, and the names of those that were given. -/
structure Progress where
  options : Options
  given : List String

/-- Where an option leads: on with the reading, or to a request that ends it. -/
inductive Advance where
  | further (p : Progress)
  | request (r : Request)

/-- Takes an option, with its value if it has one. -/
def take (p : Progress) (s : OptionSpec) (value : Option String) : Except ArgumentError Advance :=
  match s.effect, value with
  | .version, none => .ok (.request .showVersion)
  | .help, none => .ok (.request .showHelp)
  | .flag set, none =>
    if p.given.contains s.name then .error (.repeated s.name)
    else .ok (.further ⟨set p.options, s.name :: p.given⟩)
  | .value set, some v =>
    if p.given.contains s.name then .error (.repeated s.name)
    else match set v p.options with
      | some options => .ok (.further ⟨options, s.name :: p.given⟩)
      | none => .error (.badValue s.name v)
  | .value _, none => .error (.missingValue s.name)
  | _, some _ => .error (.needlessValue s.name)

/-- Whether an argument may be the value of the option before it. -/
def isValue (argument : String) : Bool := argument == "-" || !argument.startsWith "-"

/-- The option whose value is still to come, if an argument leaves one. -/
inductive Reading where
  | settled (a : Advance)
  | awaiting (p : Progress) (s : OptionSpec)

/-- Reads an argument that starts with two hyphens. -/
def readLong (p : Progress) (argument : String) : Except ArgumentError Reading :=
  let text := argument.toList.drop 2
  let name := String.ofList (text.takeWhile fun c => c ≠ '=')
  let value := match text.dropWhile fun c => c ≠ '=' with
    | [] => none
    | _ :: v => some (String.ofList v)
  match named? name with
  | none => .error (.unknown argument)
  | some s => match s.effect, value with
    | .value _, none => .ok (.awaiting p s)
    | _, value => (take p s value).map .settled

/-- Reads the letters behind a single hyphen. -/
def readLetters (p : Progress) : List Char → Except ArgumentError Reading
  | [] => .ok (.settled (.further p))
  | c :: rest => match lettered? c with
    | none => .error (.unknown (String.ofList ['-', c]))
    | some s => match s.effect, rest with
      | .value _, [] => .ok (.awaiting p s)
      | .value _, '=' :: v => (take p s (some (String.ofList v))).map .settled
      | .value _, v => (take p s (some (String.ofList v))).map .settled
      | _, _ => do
        match ← take p s none with
        | .further p => readLetters p rest
        | .request r => return .settled (.request r)

/-- Reads one argument. -/
def readArgument (p : Progress) (argument : String) : Except ArgumentError Reading :=
  if argument.startsWith "--" then readLong p argument
  else if argument.startsWith "-" && argument != "-" then
    readLetters p (argument.toList.drop 1)
  else .error (.unknown argument)

/-- What the options ask for, unless two of them contradict each other. -/
def finish (p : Progress) : Except ArgumentError Request :=
  if p.options.tool.isSome && p.options.noTool then .error (.conflict "dot" "no-dot")
  else .ok (.layOut p.options)

/-- Reads the remaining arguments, the first of which may be the value of an option. -/
def parseFrom : Reading → List String → Except ArgumentError Request
  | .settled (.request r), _ => .ok r
  | .settled (.further p), [] => finish p
  | .awaiting _ s, [] => .error (.missingValue s.name)
  | .awaiting p s, v :: rest =>
    if isValue v then do
      let a ← take p s (some v)
      parseFrom (.settled a) rest
    else .error (.missingValue s.name)
  | .settled (.further p), argument :: rest =>
    if argument = "--" then match rest with
      | [] => finish p
      | extra :: _ => .error (.unknown extra)
    else do
      let r ← readArgument p argument
      parseFrom r rest

/-- Reads the arguments of a call. -/
def parse (arguments : List String) : Except ArgumentError Request :=
  parseFrom (.settled (.further ⟨.standard, []⟩)) arguments

end CommandLine

end NestedLayout

import NestedLayout.CommandLine.Options
import NestedLayout.Diagram.Document
import NestedLayout.Listing
import NestedLayout.Settings.File

/-!
# The command

`CommandLine.execute` does what the options ask for, given what the files say. A run that fails
still has a listing, and its first error is the complaint.
-/

set_option autoImplicit false

namespace NestedLayout

namespace CommandLine

/-- Why a file could not be read or written. -/
inductive FileError where
  | missing
  | notDirectory
  | isDirectory
  | denied
  | other (reason : String)

def FileError.message : FileError → String
  | missing => "No such file or directory (os error 2)"
  | notDirectory => "Not a directory (os error 20)"
  | isDirectory => "Is a directory (os error 21)"
  | denied => "Permission denied (os error 13)"
  | other reason => reason

/-- Where the diagram comes from. -/
inductive InputSource where
  | standard
  | file (path : String)

/-- The input that is asked for; a path that is a lone hyphen stands for standard input. -/
def Options.source (o : Options) : InputSource :=
  match o.input with
  | none => .standard
  | some path => if Path.ofText path = ⟨false, ["-"]⟩ then .standard else .file path

/-- What the files of a call hold. -/
structure Sources where
  /-- The settings file, if there is one. -/
  settings : Option (Except FileError String)
  input : Except FileError String

/-- What is left to do: write the listing and complain. -/
structure Conclusion where
  listing : Option String
  complaint : Option String

/-! ## Settings -/

def documentComplaint : DocumentError → String
  | .json .malformed => "invalid JSON settings: malformed text"
  | .json .cutOff => "invalid JSON settings: unexpected end of text"
  | .json .mismatch => "invalid JSON settings: unexpected value"
  | .json5 => "invalid JSON5 settings"

/-- The settings in the file. -/
def loadSettings (o : Options) (s : Sources) : Except String (Settings Float32) :=
  match o.settings, s.settings with
  | some path, some content => do
    let text ← content.mapError FileError.message
    (Settings.ofText (.ofPath path) text).mapError documentComplaint
  | _, _ => .ok .standard

/-- A side of the canvas: the one that is asked for, raised to one pixel, or the one in force. -/
def canvasSide (asked : Option Float32) (current : Float32) : Float32 :=
  match asked with
  | some v => Scalar.atLeast v 1.0
  | none => current

/-- The settings with the changes that the options ask for. -/
def adjust (o : Options) (s : Settings Float32) : Settings Float32 :=
  { s with
    render.width := canvasSide o.width s.render.width
    render.height := canvasSide o.height s.render.height
    render.space := if o.unit then .unit else s.render.space
    tool.enabled := (s.tool.enabled || o.tool.isSome) && !o.noTool
    tool.command := o.tool.getD s.tool.command }

/-! ## The run -/

/-- The diagram in the input. -/
def loadDiagram (o : Options) (s : Sources) : Except String Diagram :=
  match o.source, s.input with
  | .file path, .error _ => .error ("failed to read " ++ path)
  | .standard, .error e => .error e.message
  | source, .ok text =>
    let form := match source with
      | .file path => DocumentForm.ofPath path
      | .standard => .json
    match form with
    | .json => (Diagram.ofJson text).mapError fun _ => "invalid JSON graph"
    | .json5 => match Diagram.ofJson5? text with
      | some d => .ok d
      | none => .error "invalid JSON5 graph"

/-- The first error in the diagnostics of an outcome. -/
def firstError (o : Outcome Float32) : String :=
  match o.diagnostics.find? fun d => d.severity = .error with
  | some d => d.message
  | none => "layout failed"

/-- What an outcome leaves to do. -/
def conclude (o : Outcome Float32) : Conclusion where
  listing := some (Listing.ofOutcome o).toJson.pretty
  complaint := match o.status with
    | .completed => none
    | .failed => some (firstError o)

/-- Lays the diagram of a call out. -/
def layOut (o : Options) (s : Sources) (tools : ToolSettings → ExternalTool) :
    Except String Conclusion := do
  let settings := adjust o (← loadSettings o s)
  let diagram ← loadDiagram o s
  let sizer := Engine.sizerFor settings.tool (tools settings.tool)
  match ← (Engine.run settings sizer diagram).mapError DiagramError.message with
  | some outcome => return conclude outcome
  | none => .error "the coordinates are out of range"

/-- Does what the options ask for. -/
def execute (o : Options) (s : Sources) (tools : ToolSettings → ExternalTool) : Conclusion :=
  match layOut o s tools with
  | .ok c => c
  | .error complaint => ⟨none, some complaint⟩

/-! ## What a call says -/

/-- The complaint in the end: a listing that cannot be written comes before all else. -/
def finalComplaint (c : Conclusion) (written : Except FileError Unit) : Option String :=
  match written with
  | .error e => some e.message
  | .ok () => c.complaint

/-- The exit code and the text for standard error. -/
def ending : Option String → Nat × String
  | none => (0, "")
  | some complaint => (1, "error: " ++ complaint ++ "\n")

/-- The exit code for arguments that cannot be read. -/
def usageExit : Nat := 2

def versionText : String := "cutlay 0.1.0\n"

def helpText : String :=
  "Usage: cutlay [options]\n\n" ++
  "  -i, --input FILE         diagram to lay out (.json or .json5), '-' for standard input\n" ++
  "  -o, --output FILE        where to write the listing\n" ++
  "  -c, --configFile FILE    settings (.json or .json5)\n" ++
  "  -w, --width PIXELS       width of the canvas\n" ++
  "  -H, --height PIXELS      height of the canvas\n" ++
  "      --unit               coordinates in the unit square\n" ++
  "      --dot COMMAND        size containers with this external tool\n" ++
  "      --no-dot             never use an external tool\n" ++
  "  -v, --verbose            say more\n" ++
  "  -h, --help               show this text\n" ++
  "  -V, --version            show the version\n"

end CommandLine

end NestedLayout

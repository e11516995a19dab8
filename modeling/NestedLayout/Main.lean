import NestedLayout.CommandLine.Command

/-!
# The program

Reads the files of a call, lets `CommandLine.execute` do the work, and writes what it says. The
program starts no other programs, so every external tool counts as missing, and it keeps no log.
-/

set_option autoImplicit false

namespace NestedLayout

namespace CommandLine

/-- The cause behind a failed operation on a file. -/
def fileError : IO.Error → FileError
  | .noFileOrDirectory .. => .missing
  | .inappropriateType _ code _ => if code = 21 then .isDirectory else .notDirectory
  | .permissionDenied .. => .denied
  | e => .other (toString e)

/-- Catches the failure of an operation on a file. -/
def attempt {β : Type} (action : IO β) : IO (Except FileError β) := do
  match ← action.toBaseIO with
  | .ok v => return .ok v
  | .error e => return .error (fileError e)

/-- The text that bytes encode. -/
def decoded (bytes : ByteArray) : IO String :=
  match String.fromUTF8? bytes with
  | some text => return text
  | none => throw (IO.userError "stream did not contain valid UTF-8")

def readInput : IO String := do decoded (← (← IO.getStdin).readBinToEnd)

def readFile (path : String) : IO String := do decoded (← IO.FS.readBinFile path)

def gather (o : Options) : IO Sources := do
  let settings ← match o.settings with
    | some path => pure (some (← attempt (readFile path)))
    | none => pure none
  let input ← match o.source with
    | .standard => attempt readInput
    | .file path => attempt (readFile path)
  return ⟨settings, input⟩

/-- Writes the listing, if there is one. -/
def writeListing (o : Options) (c : Conclusion) : IO (Except FileError Unit) :=
  match c.listing, o.output with
  | none, _ => return .ok ()
  | some text, some path => attempt (IO.FS.writeFile path text)
  | some text, none => do
    IO.print (text ++ "\n")
    return .ok ()

def layOutAndWrite (o : Options) : IO UInt32 := do
  let conclusion := execute o (← gather o) fun t _ => ToolRun.missing.answer t.command
  let written ← writeListing o conclusion
  let (code, complaint) := ending (finalComplaint conclusion written)
  IO.eprint complaint
  return code.toUInt32

end CommandLine

end NestedLayout

open NestedLayout CommandLine in
def main (arguments : List String) : IO UInt32 := do
  match parse arguments with
  | .error e =>
    IO.eprintln ("error: " ++ e.message)
    return usageExit.toUInt32
  | .ok .showVersion =>
    IO.print versionText
    return 0
  | .ok .showHelp =>
    IO.print helpText
    return 0
  | .ok (.layOut options) => layOutAndWrite options

import RttiProbe.CommandLine.Run
import RttiProbe.Live.View
/-!
# The program

The command line with the operating system behind it: the file system as a disk, and what the
system shows of a running program as a view.  Everything else is decided elsewhere.

Messages go to the standard error stream, except those for debugging.  Memory at an address is out
of reach here, since files can only be read from their start; a view says so as a failure to read.
-/

set_option autoImplicit false

namespace RttiProbe.Main

/-! ## Failures -/

/-- A failure of an action as the system's failure that it stands for. -/
def systemError : IO.Error → SystemError
  | .alreadyExists _ code text | .otherError code text | .resourceBusy code text
  | .resourceVanished code text | .unsupportedOperation code text | .hardwareFault code text
  | .unsatisfiedConstraints code text | .illegalOperation code text | .protocolError code text
  | .timeExpired code text | .interrupted _ code text | .noFileOrDirectory _ code text
  | .invalidArgument _ code text | .permissionDenied _ code text | .resourceExhausted _ code text
  | .inappropriateType _ code text | .noSuchThing _ code text => ⟨some code.toNat, text.toList⟩
  | .unexpectedEof => .shortFile
  | .userError text => ⟨none, text.toList⟩

/-- Runs an action, with its failure as a value. -/
def attempt {α : Type} (action : IO α) : IO (Except SystemError α) := do
  match ← action.toBaseIO with
  | .ok a => return .ok a
  | .error e => return .error (systemError e)

/-- That there is no way to do what was asked for. -/
def unsupported : SystemError := ⟨some 38, "Function not implemented".toList⟩

/-! ## Files -/

/-- A path as the system takes it. -/
def spelled (path : Path) : String := String.ofList path.text

/-- Opens a file and writes it. -/
def writeAll (path : Path) (mode : IO.FS.Mode) (contents : Bytes) : IO Unit := do
  let handle ← IO.FS.Handle.mk (spelled path) mode
  handle.write contents.toByteArray

/-- The file system. -/
def disk : Disk IO where
  isPresent path := (System.mkFilePath [spelled path]).pathExists
  isDirectory path := (System.mkFilePath [spelled path]).isDir
  makeDirectory path := attempt (IO.FS.createDir (spelled path))
  replace path contents := attempt (writeAll path .write contents)
  create path contents := attempt (writeAll path .writeNew contents)
  load path := attempt (do return (← IO.FS.readBinFile (spelled path)).data.toList)

/-! ## Running programs -/

/-- What the system shows of the running program with a number. -/
def view (pid : Nat) : Live.View IO where
  attach := attempt (do let _ ← IO.FS.Handle.mk s!"/proc/{pid}/mem" .read)
  map := attempt (do return (← IO.FS.readFile s!"/proc/{pid}/maps").toList)
  memory _ _ := return .error unsupported
  programStart n := attempt (do
    let handle ← IO.FS.Handle.mk s!"/proc/{pid}/exe" .read
    let bytes ← handle.read n.toUSize
    if bytes.size < n then throw .unexpectedEof
    return bytes.data.toList)
  programPath := do
    match ← attempt (IO.FS.realPath s!"/proc/{pid}/exe") with
    | .ok path => return some ⟨path.toString.toList⟩
    | .error _ => return none

/-- Opens the memory of the running program with a number. -/
def openProgram (pid : Nat) (moduleBase : Option Memory.Address) :
    IO (Except SystemError (Accessor IO)) := do
  match ← ((view pid).openMemory moduleBase).run with
  | .ok opened => return .ok (opened.accessor (view pid))
  | .error e => return .error e

/-! ## Messages -/

/-- Writes the messages that are not for debugging to the standard error stream. -/
def showMessages (messages : List Message) : IO Unit := do
  for message in messages do
    let text := String.ofList message.text
    match message.level with
    | .debug => pure ()
    | .info => IO.eprintln s!"info: {text}"
    | .warn => IO.eprintln s!"warn: {text}"

end RttiProbe.Main

/-- Runs the command line. -/
def main (arguments : List String) : IO UInt32 := do
  let outcome ← RttiProbe.CommandLine.run RttiProbe.Main.disk RttiProbe.Main.openProgram
    (arguments.map String.toList)
  RttiProbe.Main.showMessages outcome.messages
  IO.print (String.ofList outcome.output)
  IO.eprint (String.ofList outcome.errors)
  return outcome.exitCode.toUInt32

import RttiProbe.Analysis
import RttiProbe.CommandLine.Arguments
import RttiProbe.Image.PortableExecutable
/-!
# Running the command line

A run reads its arguments, opens the target, analyses it, and leaves an exit code and two texts.
The code is 0 after a report, 1 after an error that is explained, and 2 where the arguments were
not understood.
-/

set_option autoImplicit false

namespace RttiProbe.CommandLine

open Memory (Address)

/-- What a run leaves behind. -/
structure Outcome where
  exitCode : Nat
  output : Text
  errors : Text
  messages : List Message
  deriving Repr, Inhabited

/-! ## Explanations -/

/-- The lines that number causes, from zero on. -/
def numberedCauses (causes : List Text) : Text :=
  causes.zipIdx.flatMap fun (cause, i) =>
    let number := Text.Numeral.decimal i
    List.replicate (5 - number.length) ' ' ++ number ++ ": ".toList ++ cause ++ ['\n']

/-- An explanation as it is printed: what failed, and the causes below it. -/
def explanation (reasons : List Reason) : Text :=
  match reasons.map Reason.message with
  | [] => "Error: \n".toList
  | first :: causes =>
    let below :=
      match causes with
      | [] => []
      | [cause] => "\nCaused by:\n    ".toList ++ cause ++ ['\n']
      | causes => "\nCaused by:\n".toList ++ numberedCauses causes
    "Error: ".toList ++ first ++ ['\n'] ++ below

/-- The help on the command line. -/
def help : Text :=
  ("Usage: [OPTIONS] image <FILE> <ADDRESS>\n"
    ++ "       [OPTIONS] process [--module-base <ADDRESS>] <PID> <ADDRESS>\n\n"
    ++ "Options:\n"
    ++ "  --vftable          the address is that of a vftable, not of an object\n"
    ++ "  --mangled          print the decorated name of the class too\n"
    ++ "  --export <DIR>     export the class to headers in this directory\n"
    ++ "  --no-base-classes  export the class alone\n"
    ++ "  --overwrite        replace headers that already exist\n").toList

/-! ## Runs -/

variable {m : Type → Type} [Monad m]

/-- What an invocation asks an analysis to do at an address. -/
def Options.probe (options : Options) (a : Address) : Probe where
  address := a
  isVftable := options.vftable
  mangled := options.mangled
  exportRoot := options.exportRoot
  withBases := !options.withoutBases
  overwrite := options.overwrite

/-- Analyses opened memory.  If that fails, `doing` comes before the reason. -/
def analyse (disk : Disk m) (accessor : Accessor m) (probe : Probe) (doing : Text) :
    Analysis.Attempt m Text := do
  let (messages, result) ← (Analysis.run accessor disk Decorated.demangler probe :
    m (List Message × Except (List Reason) Text))
  Analysis.tell messages
  match result with
  | .ok report => return report
  | .error reasons => Analysis.fail (.stated doing :: reasons)

/-- Looks at an image file. -/
def runImage (disk : Disk m) (file : Path) (probe : Probe) : Analysis.Attempt m Text := do
  let shown := Text.quote file.text
  let loaded ← (disk.load file : m (Except SystemError Bytes))
  match loaded with
  | .error e =>
    Analysis.fail
      [.stated ("failed to read input file into memory: ".toList ++ shown), .system e]
  | .ok contents =>
    match Image.PortableExecutable.ofFile contents.toArray with
    | .error fault =>
      Analysis.fail (.stated ("failed to read input file as a pe file: ".toList ++ shown)
        :: (Error.image fault).reasons)
    | .ok image =>
      analyse disk (Accessor.ofMemory image.memory) probe ("in image ".toList ++ shown)

/-- Looks at a running program. -/
def runRunning (disk : Disk m)
    (openProgram : Nat → Option Address → m (Except SystemError (Accessor m)))
    (pid : Nat) (moduleBase : Option Address) (probe : Probe) : Analysis.Attempt m Text := do
  let number := Text.Numeral.decimal pid
  let opened ← (openProgram pid moduleBase : m (Except SystemError (Accessor m)))
  match opened with
  | .error e => Analysis.fail [.stated ("failed to open process ".toList ++ number), .system e]
  | .ok accessor => analyse disk accessor probe ("in process ".toList ++ number)

/-- Does what an invocation asks for. -/
def runInvocation (disk : Disk m)
    (openProgram : Nat → Option Address → m (Except SystemError (Accessor m)))
    (invocation : Invocation) : Analysis.Attempt m Text :=
  let probe := invocation.options.probe invocation.address
  match invocation.target with
  | .image file => runImage disk file probe
  | .running pid => runRunning disk openProgram pid invocation.options.moduleBase probe

/-- Runs a command line. -/
def run (disk : Disk m)
    (openProgram : Nat → Option Address → m (Except SystemError (Accessor m)))
    (arguments : List Text) : m Outcome := do
  match ← (readArguments disk {} arguments).run with
  | .error .help => return ⟨0, help, [], []⟩
  | .error .misuse => return ⟨2, [], help, []⟩
  | .ok invocation =>
    let (result, messages) ← ((runInvocation disk openProgram invocation).run).run []
    match result with
    | .ok report => return ⟨0, report, [], messages⟩
    | .error reasons => return ⟨1, [], explanation reasons, messages⟩

end RttiProbe.CommandLine

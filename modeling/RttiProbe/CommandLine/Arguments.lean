import RttiProbe.Disk
/-!
# The arguments of the command line

A command line names a target, an image file or a running program, and an address in it.  Options
may stand before the name of the target or after it; one that is given in both places counts as it
was given last.  Each value is checked when it is read, so what is wrong before a request for help
comes first.
-/

set_option autoImplicit false

namespace RttiProbe.CommandLine

open Memory (Address)

/-- What the options ask for. -/
structure Options where
  vftable : Bool := false
  mangled : Bool := false
  withoutBases : Bool := false
  overwrite : Bool := false
  exportRoot : Option Path := none
  moduleBase : Option Address := none
  deriving DecidableEq, Repr, Inhabited

namespace Options

/-- Options given before the target together with those given after it. -/
def merge (before after : Options) : Options where
  vftable := before.vftable || after.vftable
  mangled := before.mangled || after.mangled
  withoutBases := before.withoutBases || after.withoutBases
  overwrite := before.overwrite || after.overwrite
  exportRoot := after.exportRoot <|> before.exportRoot
  moduleBase := after.moduleBase <|> before.moduleBase

end Options

/-- The kinds of things that can be looked at. -/
inductive Kind where
  | image
  | running
  deriving DecidableEq, Repr, Inhabited

/-- What is to be looked at. -/
inductive Target where
  /-- an image file -/
  | image (file : Path)
  /-- a running program, by its number -/
  | running (pid : Nat)
  deriving DecidableEq, Repr, Inhabited

/-- A command line that has been understood. -/
structure Invocation where
  target : Target
  address : Address
  options : Options
  deriving DecidableEq, Repr, Inhabited

/-- Why there is nothing to run. -/
inductive Usage where
  /-- help was asked for -/
  | help
  /-- the arguments make no sense, or a value is not acceptable -/
  | misuse
  deriving DecidableEq, Repr, Inhabited

/-! ## Single arguments -/

/-- What an argument is by its form. -/
inductive Argument where
  /-- the short option for help -/
  | help
  /-- a long option, with the value after its equals sign if it has one -/
  | long (name : Text) (value : Option Text)
  /-- the mark after which there are no options -/
  | endOfOptions
  /-- a short option that does not exist -/
  | unknown
  | plain (text : Text)
  deriving DecidableEq, Repr, Inhabited

/-- The form of an argument. -/
def Argument.ofText : Text → Argument
  | ['-', '-'] => .endOfOptions
  | '-' :: '-' :: rest =>
    match rest.dropWhile (· ≠ '=') with
    | [] => .long rest none
    | _ :: value => .long (rest.takeWhile (· ≠ '=')) (some value)
  | '-' :: c :: _ => if c = 'h' then .help else .unknown
  | text => .plain text

variable {m : Type → Type} [Monad m]

/-- Goes on only if a value is acceptable. -/
def check (acceptable : Bool) : ExceptT Usage m Unit :=
  if acceptable then return () else throw .misuse

/-- Reads an address. -/
def readAddress (s : Text) : ExceptT Usage m Address :=
  match Address.parse s with
  | .ok a => return a
  | .error _ => throw .misuse

/-- Reads the number of a running program.  Zero may have a minus before it. -/
def readPid (s : Text) : ExceptT Usage m Nat :=
  let number :=
    match s with
    | '-' :: digit :: rest => Text.Numeral.readDigits 10 1 0 (digit :: rest)
    | s => Text.Numeral.read 10 UInt32.size s
  match number with
  | .ok n => return n
  | .error _ => throw .misuse

/-- Reads the path of an image file, which has to be there. -/
def readImagePath (disk : Disk m) (s : Text) : ExceptT Usage m Path := do
  check (← disk.isFile ⟨s⟩)
  return ⟨s⟩

/-- Reads the path of a directory.  There may be nothing there yet, but no file. -/
def readDirectoryPath (disk : Disk m) (s : Text) : ExceptT Usage m Path := do
  check (!(← disk.isFile ⟨s⟩))
  return ⟨s⟩

/-! ## Values -/

/-- The values after the name of a target, as far as they have been read. -/
structure Values where
  target : Option Target := none
  address : Option Address := none
  deriving DecidableEq, Repr, Inhabited

/-- Reads the value that says what is to be looked at. -/
def readTargetValue (disk : Disk m) (s : Text) : Kind → ExceptT Usage m Target
  | .image => return .image (← readImagePath disk s)
  | .running => return .running (← readPid s)

/-- Reads the next value: first what is to be looked at, then the address, and no more. -/
def readValue (disk : Disk m) (kind : Kind) (values : Values) (s : Text) :
    ExceptT Usage m Values := do
  match values.target, values.address with
  | none, _ => return { values with target := some (← readTargetValue disk s kind) }
  | some _, none => return { values with address := some (← readAddress s) }
  | some _, some _ => throw .misuse

/-! ## Options -/

/-- Where an option stands. -/
inductive Place where
  | beforeTarget
  | after (kind : Kind)
  deriving DecidableEq, Repr, Inhabited

/-- The value of an option and the number of further arguments it takes: the text after the equals
sign, or else the next argument. -/
def takeValue (attached next : Option Text) : ExceptT Usage m (Text × Nat) :=
  match attached, next.map fun text => (text, Argument.ofText text) with
  | some value, _ => return (value, 0)
  | none, some (text, .plain _) => return (text, 1)
  | none, _ => throw .misuse

/-- Adds a long option to those already given at its place.  `next` is the argument after it; the
result tells how many further arguments the option takes. -/
def readOption (disk : Disk m) (place : Place) (options : Options) (name : Text)
    (value next : Option Text) : ExceptT Usage m (Options × Nat) := do
  if name = "help".toList ∧ value = none then throw .help
  else if name = "vftable".toList then
    check (value.isNone && !options.vftable)
    return ({ options with vftable := true }, 0)
  else if name = "mangled".toList then
    check (value.isNone && !options.mangled)
    return ({ options with mangled := true }, 0)
  else if name = "no-base-classes".toList then
    check (value.isNone && !options.withoutBases)
    return ({ options with withoutBases := true }, 0)
  else if name = "overwrite".toList then
    check (value.isNone && !options.overwrite)
    return ({ options with overwrite := true }, 0)
  else if name = "export".toList then
    let (text, taken) ← takeValue value next
    check options.exportRoot.isNone
    return ({ options with exportRoot := some (← readDirectoryPath disk text) }, taken)
  else if name = "module-base".toList ∧ place = .after .running then
    let (text, taken) ← takeValue value next
    check options.moduleBase.isNone
    return ({ options with moduleBase := some (← readAddress text) }, taken)
  else throw .misuse

/-! ## Whole command lines -/

/-- Reads what follows the name of a target, options and values, given those already read. -/
def readAfterTarget (disk : Disk m) (kind : Kind) (options : Options) (values : Values) :
    List Text → ExceptT Usage m (Options × Values)
  | [] => return (options, values)
  | argument :: rest => do
    match Argument.ofText argument with
    | .help => throw .help
    | .unknown => throw .misuse
    | .endOfOptions => return (options, ← rest.foldlM (readValue disk kind) values)
    | .plain text => readAfterTarget disk kind options (← readValue disk kind values text) rest
    | .long name value =>
      let (options, taken) ← readOption disk (.after kind) options name value rest.head?
      readAfterTarget disk kind options values (rest.drop taken)
termination_by arguments => arguments.length
decreasing_by all_goals simp only [List.length_cons, List.length_drop]; omega

/-- Reads what follows the name of a target, given the options before it. -/
def readTarget (disk : Disk m) (before : Options) (kind : Kind) (rest : List Text) :
    ExceptT Usage m Invocation := do
  let (after, values) ← readAfterTarget disk kind {} {} rest
  match values with
  | ⟨some target, some address⟩ => return ⟨target, address, before.merge after⟩
  | _ => throw .misuse

/-- Reads a command line from the name of the target on, given the options before it. -/
def readFromName (disk : Disk m) (before : Options) (name : Text) (rest : List Text) :
    ExceptT Usage m Invocation := do
  if name = "image".toList then readTarget disk before .image rest
  else if name = "process".toList then readTarget disk before .running rest
  else if name = "help".toList then
    let known := ["image".toList, "process".toList, "help".toList]
    throw (if rest.isEmpty || (rest.length == 1 && rest.all known.contains) then .help else .misuse)
  else throw .misuse

/-- Reads a command line, given the options already read. -/
def readArguments (disk : Disk m) (options : Options) : List Text → ExceptT Usage m Invocation
  | [] => throw .misuse
  | argument :: rest => do
    match Argument.ofText argument with
    | .help => throw .help
    | .unknown | .endOfOptions => throw .misuse
    | .plain name => readFromName disk options name rest
    | .long name value =>
      let (options, taken) ← readOption disk .beforeTarget options name value rest.head?
      readArguments disk options (rest.drop taken)
termination_by arguments => arguments.length
decreasing_by simp only [List.length_cons, List.length_drop]; omega

end RttiProbe.CommandLine

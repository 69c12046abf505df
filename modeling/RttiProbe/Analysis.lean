import RttiProbe.Export
import RttiProbe.Lookup
/-!
# Analyses

An analysis looks at one address of a target, reports the class found there and, if asked to,
exports its headers.  It runs in stages; where one fails, what was being done is put before the
reason.
-/

set_option autoImplicit false

namespace RttiProbe

/-- What to look at, and what to do with the class found there. -/
structure Probe where
  address : Memory.Address
  /-- the address is that of a virtual function table, not of an object -/
  isVftable : Bool
  /-- report the decorated name too -/
  mangled : Bool
  /-- where to export headers to -/
  exportRoot : Option Path
  withBases : Bool
  overwrite : Bool
  deriving DecidableEq, Repr, Inhabited

namespace Analysis

/-- A computation that tells messages as it goes and may end with an explanation. -/
abbrev Attempt (m : Type → Type) := ExceptT (List Reason) (StateT (List Message) m)

variable {m : Type → Type} [Monad m]

/-- Tells messages. -/
def tell (messages : List Message) : Attempt m Unit := modify (· ++ messages)

/-- Ends with an explanation. -/
def fail {α : Type} (reasons : List Reason) : Attempt m α := throw reasons

/-- Runs a decoder.  If it fails, `doing` comes before the reason. -/
def stage {α : Type} (accessor : Accessor m) (doing : List Reason) (decoder : Decode α) :
    Attempt m α := do
  let outcome ← (decoder.run accessor : m (Decode.Outcome α))
  tell outcome.messages
  match outcome.result with
  | .ok a => return a
  | .error e => fail (doing ++ e.reasons)

/-- The value, or an explanation why there is none. -/
def require {α : Type} (missing : Text) : Option α → Attempt m α
  | some a => return a
  | none => fail [.stated missing]

/-! ## Stages -/

/-- The explanation for an address without a class. -/
def noClass (a : Memory.Address) : Text := "no class found at ".toList ++ a.display

/-- The virtual function table that a probe is about. -/
def vftableOf (accessor : Accessor m) (probe : Probe) : Attempt m Memory.Address :=
  if probe.isVftable then return probe.address
  else do
    let doing := "failed to read the object at ".toList ++ probe.address.display
    let found ← stage accessor [.stated doing] (Lookup.vftable accessor.frame probe.address)
    require (noClass probe.address) found

/-- The locator that a probe leads to. -/
def locatorOf (accessor : Accessor m) (demangler : Demangler) (probe : Probe)
    (vftable : Memory.Address) : Attempt m Record.Locator := do
  let doing := "failed to read the RTTI of the vftable at ".toList ++ vftable.display
  let found ← stage accessor [.stated doing] (Lookup.ofVftable accessor.frame demangler vftable)
  require (noClass probe.address) found

/-- The first line of a report. -/
def firstLine (probe : Probe) (vftable : Memory.Address) : Text :=
  if probe.isVftable then
    "Vftable at ".toList ++ probe.address.display ++ " belongs to a class with RTTI.\n".toList
  else
    "Object at ".toList ++ probe.address.display ++ " is a class with a vftable at ".toList
      ++ vftable.display ++ ".\n".toList

/-- What a report says of the class that a locator describes. -/
def body (accessor : Accessor m) (demangler : Demangler) (probe : Probe) (l : Record.Locator) :
    Attempt m Text := do
  let mangled ← if probe.mangled then do
      let name ← stage accessor []
        (Lookup.typeName accessor.frame demangler l false .standard)
      pure (name ++ ['\n'])
    else pure []
  let records ← stage accessor [] (Lookup.report accessor.frame demangler l)
  return mangled ++ '\n' :: records

/-- Exports the class that a locator describes, and tells how many headers were written. -/
def exportTo (accessor : Accessor m) (disk : Disk m) (demangler : Demangler) (probe : Probe)
    (l : Record.Locator) (root : Path) : Attempt m Text := do
  tell [⟨.info, "exporting headers...".toList⟩]
  let found ← stage accessor [] (Hierarchy.ofLocator accessor.frame demangler l)
  let c ← require "failed to rebuild the class hierarchy".toList found
  let (messages, written) ←
    (Export.run disk c root probe.withBases probe.overwrite :
      m (List Message × Except Error (List Path)))
  tell messages
  match written with
  | .ok paths =>
    return "\nExported ".toList ++ Text.Numeral.decimal paths.length ++ " classes to ".toList
      ++ Text.quote root.text ++ ".\n".toList
  | .error e =>
    fail (.stated ("failed to export headers to: ".toList ++ Text.quote root.text) :: e.reasons)

/-- The whole analysis, with the report as its result. -/
def attempt (accessor : Accessor m) (disk : Disk m) (demangler : Demangler) (probe : Probe) :
    Attempt m Text := do
  let vftable ← vftableOf accessor probe
  let l ← locatorOf accessor demangler probe vftable
  let text ← body accessor demangler probe l
  let exported ← match probe.exportRoot with
    | none => pure []
    | some root => exportTo accessor disk demangler probe l root
  return firstLine probe vftable ++ text ++ exported

/-- Runs an analysis: what it has to tell, and its report or why there is none. -/
def run (accessor : Accessor m) (disk : Disk m) (demangler : Demangler) (probe : Probe) :
    m (List Message × Except (List Reason) Text) := do
  let (result, messages) ← ((attempt accessor disk demangler probe).run).run []
  return (messages, result)

end Analysis

end RttiProbe

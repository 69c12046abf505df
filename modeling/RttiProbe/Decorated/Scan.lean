import RttiProbe.Decorated.Printed
/-!
# Scanning decorated names

Reading goes along a `Scan`: the bytes still to be read, the names remembered so far, and how many
parts the name was found to have.  A name that occurs again may be written as the digit under which
it was remembered, so a short name can stand for a very long text; `Limits` say how much of a name
is taken on.
-/

set_option autoImplicit false

namespace RttiProbe.Decorated

/-! ## Limits -/

/-- How much of a name is taken on.  Where there is no number, there is no limit. -/
structure Limits where
  /-- the most parts that a name may have -/
  parts : Option Nat
  /-- the most bytes that may be written in one go -/
  bytes : Option Nat
  deriving DecidableEq, Repr, Inhabited

namespace Limits

/-- The limits that are used where none are given. -/
def standard : Limits := ⟨some 2048, some 1048576⟩

/-- Nothing is too much. -/
def unlimited : Limits := ⟨none, none⟩

end Limits

/-- How a name is to be read. -/
structure Manner where
  /-- whether the kind of a declared type is printed before its name -/
  tags : Bool
  limits : Limits
  deriving DecidableEq, Repr, Inhabited

/-! ## Scans -/

/-- What a name is known by: its text, or its bytes where they are no text. -/
inductive Key where
  | text (s : String)
  | bytes (bs : Bytes)
  deriving DecidableEq, Repr, Inhabited

/-- What the name spelled by some bytes is known by. -/
def Key.ofBytes (bs : Bytes) : Key :=
  let s := Text.Utf8.decodeLossy bs
  if Text.Utf8.encode s = bs then text (String.ofList s) else bytes bs

/-- A name that can be referred to: what it is known by, and what is printed for it. -/
structure Remembered where
  key : Key
  printed : Printed
  deriving Inhabited

/-- Where the reading of a name stands. -/
structure Scan where
  /-- the bytes still to be read -/
  rest : Bytes
  /-- the names remembered, oldest first -/
  names : List Remembered
  /-- the number of parts so far: the whole is one, a name, a built-in type and a number are one
  each, a type of a declared kind has three of its own (itself, its qualified name, the list of its
  scopes), the arguments of a template are one list, and each name remembered is a part again -/
  parts : Nat
  deriving Inhabited

/-- The scan of a name from its start on. -/
def Scan.ofName (name : Bytes) : Scan := ⟨name, [], 1⟩

/-- A reader of part of a name. -/
abbrev Reader (α : Type) := StateT Scan Option α

/-! ## Bytes -/

/-- The bytes of a text in ASCII. -/
def ascii (s : String) : Bytes := s.toList.map Char.toUInt8

/-- Takes `expected` off the bytes if they start with it. -/
def accept (expected : Bytes) : Reader Bool := fun scan =>
  if expected.isPrefixOf scan.rest then
    some (true, { scan with rest := scan.rest.drop expected.length })
  else some (false, scan)

/-- Takes the next byte. -/
def next : Reader UInt8 := fun scan =>
  match scan.rest with
  | [] => none
  | b :: rest => some (b, { scan with rest })

/-- The byte that ends a name. -/
def terminator : UInt8 := 0x40

/-- Takes the bytes up to the next terminator, and the terminator. -/
def upToTerminator : Reader Bytes := fun scan =>
  match scan.rest.dropWhile (· ≠ terminator) with
  | [] => none
  | _ :: rest => some (scan.rest.takeWhile (· ≠ terminator), { scan with rest })

/-- The value of a decimal digit. -/
def digit? (b : UInt8) : Option Nat :=
  if 0x30 ≤ b && b ≤ 0x39 then some (b.toNat - 0x30) else none

/-! ## Parts and remembered names -/

/-- Counts parts, as long as there are not too many. -/
def countParts (limits : Limits) (n : Nat) : Reader Unit := fun scan =>
  if limits.parts.all (scan.parts + n ≤ ·) then
    some ((), { scan with parts := scan.parts + n })
  else none

/-- The number of names that can be remembered. -/
def maxNames : Nat := 10

/-- Remembers a name, unless one is known by the same key already.  There is no room for an
eleventh. -/
def remember (limits : Limits) (name : Remembered) : Reader Unit := do
  let names := (← get).names
  if names.any (·.key = name.key) then return ()
  else
    guard (names.length < maxNames)
    countParts limits 1
    modify fun scan => { scan with names := names ++ [name] }

/-- A name given by its bytes, as it is printed. -/
def printName (name : Bytes) : Printed := .ofString (String.ofList (Text.Utf8.decodeLossy name))

/-- Remembers a name by the bytes that spell it. -/
def rememberSpelled (limits : Limits) (name : Bytes) : Reader Unit :=
  remember limits ⟨.ofBytes name, printName name⟩

/-- Remembers a name by the text that is printed for it. -/
def rememberPrinted (limits : Limits) (name : Printed) : Reader Unit := do
  let text ← StateT.lift (name.write? limits.bytes)
  remember limits ⟨.text text, name⟩

/-- Runs a reader with no names remembered, and goes back to those remembered before. -/
def withFreshNames {α : Type} (reader : Reader α) : Reader α := fun scan =>
  (reader { scan with names := [] }).map fun (a, after) => (a, { after with names := scan.names })

/-- The name that the digit at the front refers to, if there is a digit at the front. -/
def backReference : Reader (Option Printed) := fun scan =>
  match scan.rest with
  | b :: rest =>
    match digit? b with
    | some n => (scan.names[n]?).map fun name => (some name.printed, { scan with rest })
    | none => some (none, scan)
  | [] => some (none, scan)

end RttiProbe.Decorated

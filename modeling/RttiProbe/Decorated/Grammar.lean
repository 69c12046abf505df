import RttiProbe.Decorated.Scan
import RttiProbe.Text.Numeral
/-!
# Decorated names

The name in a type descriptor is decorated: a type spelled in a compact code, a class by its scopes
from the inside out.  This module reads the code and prints the type as it would be declared; a name
that does not follow the code, or goes beyond the limits, has no such form.

The readers below call one another; each takes the number of calls that may still be nested, and
`undecorate` grants more than any name can use.
-/

set_option autoImplicit false

namespace RttiProbe.Decorated

/-! ## Leaves -/

/-- A name written out, which is not empty. -/
def simpleName (limits : Limits) : Reader Printed := do
  let name ← upToTerminator
  guard (name ≠ [])
  countParts limits 1
  rememberSpelled limits name
  return printName name

/-- The value of digits in base sixteen that are written as the letters from `A` on. -/
def letterDigits : Bytes → Option Nat
  | ds => ds.foldlM (fun n d =>
      if 0x41 ≤ d && d ≤ 0x50 then some ((n * 16 + (d.toNat - 0x41)) % UInt64.size) else none) 0

/-- A number: one digit that counts from one, or letters up to a terminator. -/
def number (limits : Limits) : Reader Printed := do
  countParts limits 1
  let negative ← accept (ascii "?")
  let size ← (fun scan =>
    match scan.rest with
    | b :: rest =>
      match digit? b with
      | some n => some (n + 1, { scan with rest })
      | none => (do let ds ← upToTerminator; StateT.lift (letterDigits ds) : Reader Nat) scan
    | [] => none : Reader Nat)
  let digits := Text.Numeral.decimal size
  return .ofString (String.ofList (if negative then '-' :: digits else digits))

/-- The built-in type that a letter stands for. -/
def builtin (b : UInt8) : Option String :=
  match Char.ofNat b.toNat with
  | 'X' => some "void"
  | 'D' => some "char"
  | 'C' => some "signed char"
  | 'E' => some "unsigned char"
  | 'F' => some "short"
  | 'G' => some "unsigned short"
  | 'H' => some "int"
  | 'I' => some "unsigned int"
  | 'J' => some "long"
  | 'K' => some "unsigned long"
  | 'M' => some "float"
  | 'N' => some "double"
  | 'O' => some "long double"
  | _ => none

/-- The built-in type that a letter stands for after an underscore. -/
def extendedBuiltin (b : UInt8) : Option String :=
  match Char.ofNat b.toNat with
  | 'N' => some "bool"
  | 'J' => some "__int64"
  | 'K' => some "unsigned __int64"
  | 'W' => some "wchar_t"
  | 'Q' => some "char8_t"
  | 'S' => some "char16_t"
  | 'U' => some "char32_t"
  | _ => none

/-- A built-in type. -/
def primitive (limits : Limits) : Reader Printed := do
  countParts limits 1
  let b ← next
  let name ← StateT.lift (builtin b) <|> do
    guard (b = 0x5F)
    let c ← next
    StateT.lift (extendedBuiltin c)
  return .ofString name

/-- The keyword of the kind of type that the bytes at the front announce, if they do. -/
def tag : Reader (Option String) := do
  if ← accept (ascii "V") then return some "class "
  if ← accept (ascii "U") then return some "struct "
  if ← accept (ascii "T") then return some "union "
  if ← accept (ascii "W4") then return some "enum "
  return none

/-! ## Names and types -/

/-- A template, given its name and its arguments. -/
def printTemplate (name : Printed) (arguments : List Printed) : Printed :=
  name ++ .ofString "<" ++ .separated ", " arguments ++ .ofString ">"

/-- A qualified name, given its pieces from the inside out. -/
def printQualified (pieces : List Printed) : Printed := .separated "::" pieces.reverse

/-- What a scope without a name is printed as. -/
def anonymous : Printed := .ofString "`anonymous namespace'"

mutual

/-- The innermost piece of a qualified name: a back reference, a template or a name. -/
def innermost (manner : Manner) : Nat → Reader Printed
  | 0 => failure
  | fuel + 1 => do
    match ← backReference with
    | some name => return name
    | none =>
      if ← accept (ascii "?$") then
        let (name, list) ← template manner fuel
        let printed := printTemplate name list
        rememberPrinted manner.limits printed
        return printed
      else simpleName manner.limits

/-- A scope: like an innermost piece, or one without a name, of which only the key is
remembered. -/
def scope (manner : Manner) : Nat → Reader Printed
  | 0 => failure
  | fuel + 1 => do
    if ← accept (ascii "?A") then
      countParts manner.limits 1
      rememberSpelled manner.limits (← upToTerminator)
      return anonymous
    else innermost manner fuel

/-- The scopes of a qualified name, up to the terminator that ends them. -/
def scopes (manner : Manner) : Nat → Reader (List Printed)
  | 0 => failure
  | fuel + 1 => do
    if ← accept [terminator] then return []
    else
      let first ← scope manner fuel
      let others ← scopes manner fuel
      return first :: others

/-- A qualified name. -/
def qualified (manner : Manner) : Nat → Reader Printed
  | 0 => failure
  | fuel + 1 => do
    let first ← innermost manner fuel
    let others ← scopes manner fuel
    return printQualified (first :: others)

/-- What follows the opening of a template: its name and its arguments.  Names in it are remembered
apart from those outside. -/
def template (manner : Manner) : Nat → Reader (Printed × List Printed)
  | 0 => failure
  | fuel + 1 =>
    withFreshNames (do
      countParts manner.limits 1
      let name ← templateName manner fuel
      let list ← arguments manner fuel
      return (name, list))

/-- The name of a template.  Where it is itself written as a template, its arguments are passed
over in favour of those that follow. -/
def templateName (manner : Manner) : Nat → Reader Printed
  | 0 => failure
  | fuel + 1 => do
    match ← backReference with
    | some name => return name
    | none =>
      if ← accept (ascii "?$") then return (← template manner fuel).1
      else simpleName manner.limits

/-- The arguments of a template, up to the terminator that ends them.  An empty pack prints
nothing. -/
def arguments (manner : Manner) : Nat → Reader (List Printed)
  | 0 => failure
  | fuel + 1 => do
    if ← accept [terminator] then return []
    else if ← accept (ascii "$$V") then arguments manner fuel
    else
      let first ← if ← accept (ascii "$0") then number manner.limits else type manner fuel
      let others ← arguments manner fuel
      return first :: others

/-- A type: one of a declared kind, or a built-in one. -/
def type (manner : Manner) : Nat → Reader Printed
  | 0 => failure
  | fuel + 1 => do
    match ← tag with
    | some keyword =>
      countParts manner.limits 3
      let name ← qualified manner fuel
      return if manner.tags then .ofString keyword ++ name else name
    | none => primitive manner.limits

end

/-! ## Whole names -/

/-- What a type is qualified with, as it is printed after it. -/
def qualifier (b : UInt8) : Option String :=
  match Char.ofNat b.toNat with
  | 'A' => some ""
  | 'B' => some " const"
  | 'C' => some " volatile"
  | 'D' => some " const volatile"
  | _ => none

/-- A whole name: a dot, a qualifier, a type, and nothing after it. -/
def whole (manner : Manner) (fuel : Nat) : Reader Printed := do
  guard (← accept (ascii "."))
  let suffix ← if ← accept (ascii "?") then (do StateT.lift (qualifier (← next))) else pure ""
  let name ← type manner fuel
  guard ((← get).rest = [])
  return name ++ .ofString suffix

/-- The type that a decorated name stands for. -/
def undecorate (manner : Manner) (name : Bytes) : Option Printed :=
  (whole manner (4 * name.length + 4) (.ofName name)).map Prod.fst

end RttiProbe.Decorated

import RttiProbe.Error
/-!
# Disks

What this library asks of a file system, in a monad of its own: `FileTree` answers as a value, and
the command line lets the operating system answer.  Making a directory with all that lead to it is
the one operation built from the others.
-/

set_option autoImplicit false

namespace RttiProbe

/-- A file system. -/
structure Disk (m : Type → Type) where
  /-- whether there is anything at a path -/
  isPresent : Path → m Bool
  /-- whether there is a directory at a path -/
  isDirectory : Path → m Bool
  /-- makes one directory, whose parent has to be there -/
  makeDirectory : Path → m (Except SystemError Unit)
  /-- writes a file, replacing what it held -/
  replace : Path → Bytes → m (Except SystemError Unit)
  /-- writes a file that must not be there -/
  create : Path → Bytes → m (Except SystemError Unit)
  /-- the content of a file -/
  load : Path → m (Except SystemError Bytes)

namespace Disk

variable {m : Type → Type} [Monad m]

/-- Makes a directory, or finds that it is there already. -/
def settle (disk : Disk m) (path : Path) : m (Except SystemError Unit) := do
  match ← disk.makeDirectory path with
  | .ok () => return .ok ()
  | .error e => return if ← disk.isDirectory path then .ok () else .error e

/-- Makes a directory and those that lead to it, given innermost first.  The outer ones are looked
at only if the inner one cannot be made for want of them. -/
def makeDirectories (disk : Disk m) : List Path → m (Except SystemError Unit)
  | [] => return .ok ()
  | inner :: outer => do
    match ← disk.makeDirectory inner with
    | .ok () => return .ok ()
    | .error e =>
      if e = .notFound then
        match ← disk.makeDirectories outer with
        | .error e => return .error e
        | .ok () => disk.settle inner
      else return if ← disk.isDirectory inner then .ok () else .error e

/-- Whether there is a file at a path. -/
def isFile (disk : Disk m) (path : Path) : m Bool := do
  return (← disk.isPresent path) && !(← disk.isDirectory path)

end Disk

end RttiProbe

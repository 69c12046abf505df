import RttiProbe.Memory.Address
import RttiProbe.Path
import RttiProbe.Text.Quoted
/-!
# Errors

What can go wrong, by cause, and the wording of each cause.  Memory that is not mapped is told apart
from memory that fails to be read: the former is an ordinary answer to a decoder, the latter ends
it.
-/

set_option autoImplicit false

namespace RttiProbe

/-- A failure that the operating system reports. -/
structure SystemError where
  /-- the system's number for it, if it has one -/
  number : Option Nat
  description : Text
  deriving DecidableEq, Repr, Inhabited

namespace SystemError

def notFound : SystemError := ⟨some 2, "No such file or directory".toList⟩
def inputOutput : SystemError := ⟨some 5, "Input/output error".toList⟩
def alreadyPresent : SystemError := ⟨some 17, "File exists".toList⟩
def notDirectory : SystemError := ⟨some 20, "Not a directory".toList⟩
def isDirectory : SystemError := ⟨some 21, "Is a directory".toList⟩
def nameTooLong : SystemError := ⟨some 36, "File name too long".toList⟩

/-- A path holds a null character, so the system is not asked. -/
def nullInPath : SystemError := ⟨none, "file name contained an unexpected NUL byte".toList⟩

/-- A file ended before what was to be read of it. -/
def shortFile : SystemError := ⟨none, "failed to fill whole buffer".toList⟩

/-- The wording of a system failure, its number last. -/
def message (e : SystemError) : Text :=
  match e.number with
  | none => e.description
  | some n => e.description ++ " (os error ".toList ++ Text.Numeral.decimal n ++ [')']

end SystemError

/-- Why a file is not a portable executable that can be mapped. -/
inductive ImageFault where
  /-- a part that must be there lies past the end of the file -/
  | bounds
  /-- a signature is not the expected one -/
  | magic
  /-- the headers do not start at a multiple of four -/
  | misaligned
  /-- a size or count that no real file has -/
  | insane
  deriving DecidableEq, Repr, Inhabited

namespace ImageFault

/-- The wording of each fault. -/
def message : ImageFault → Text
  | bounds => "bounds check failed".toList
  | magic => "unknown magic number".toList
  | misaligned => "address misaligned".toList
  | insane => "data insanity".toList

end ImageFault

/-- Everything that can go wrong. -/
inductive Error where
  /-- the address is not mapped, or may not be read -/
  | unreadable (address : Memory.Address)
  /-- reading mapped memory failed -/
  | readFailure (address : Memory.Address) (length : Nat) (cause : SystemError)
  /-- a file that must not be replaced is in the way -/
  | alreadyExists (path : Path)
  /-- the operating system refused -/
  | system (cause : SystemError)
  /-- a file is not a portable executable -/
  | image (fault : ImageFault)
  deriving DecidableEq, Repr, Inhabited

namespace Error

/-- Whether the error only says that memory is not accessible. -/
def isUnreadable : Error → Bool
  | unreadable _ => true
  | _ => false

/-- The wording of each error. -/
def message : Error → Text
  | unreadable a => "address ".toList ++ a.display ++ " is not readable".toList
  | readFailure a n _ =>
    "failed to read ".toList ++ Text.Numeral.decimal n ++ " bytes at ".toList ++ a.display
  | alreadyExists p => "the destination file already exists: ".toList ++ Text.quote p.text
  | system e => e.message
  | image fault => "failed to parse image: ".toList ++ fault.message

end Error

/-- One step of an explanation: a stated reason, or what the operating system said. -/
inductive Reason where
  | stated (message : Text)
  | system (cause : SystemError)
  deriving DecidableEq, Repr, Inhabited

namespace Reason

/-- The wording of a reason. -/
def message : Reason → Text
  | stated text => text
  | system cause => cause.message

end Reason

/-- An error as an explanation, followed by its cause where it has one. -/
def Error.reasons : Error → List Reason
  | .system cause => [.system cause]
  | .readFailure a n cause => [.stated (Error.readFailure a n cause).message, .system cause]
  | .image fault => [.stated (Error.image fault).message, .stated fault.message]
  | e => [.stated e.message]

end RttiProbe

import RttiProbe.Text.Numeral
/-!
# The journal of a run

What a decoder has to say while it works, in order.  Most entries are messages and are passed on as
they come.  Rebuilding a class hierarchy can be cut short at many places for one and the same
reason, so cuts are collected: when the rebuild is over, whether it succeeded or not, the first one
is reported in full, the others by their number, and the likely reason last.
-/

set_option autoImplicit false

namespace RttiProbe

/-- How much attention a message asks for. -/
inductive Level where
  | debug
  | info
  | warn
  deriving DecidableEq, Repr, Inhabited

/-- A message for the user. -/
structure Message where
  level : Level
  text : Text
  deriving DecidableEq, Repr, Inhabited

/-- One entry of the journal of a decoder. -/
inductive Event where
  /-- a message -/
  | message (entry : Message)
  /-- a class of a hierarchy whose bases could not all be followed, and why -/
  | cut (warning : Text)
  /-- the rebuild of a hierarchy is over -/
  | rebuilt
  deriving DecidableEq, Repr, Inhabited

namespace Journal

/-- Why the bases of a class usually cannot be followed. -/
def cutReason : Text :=
  ("the base class array is either incomplete or the address does not point to RTTI").toList

/-- The report on the cuts of one rebuild, given in the order in which they occurred. -/
def cutReport : List Text → List Message
  | [] => []
  | first :: others =>
    let count :=
      if others.isEmpty then []
      else [⟨.warn, "and ".toList ++ Text.Numeral.decimal others.length ++ " others...".toList⟩]
    ⟨.warn, first⟩ :: count ++ [⟨.warn, "^^ ".toList ++ cutReason⟩]

/-- The messages of a journal whose current rebuild has already been cut as `cuts` tells, the latest
cut first. -/
def messagesAfter (cuts : List Text) : List Event → List Message
  | [] => cutReport cuts.reverse
  | .message entry :: rest => entry :: messagesAfter cuts rest
  | .cut warning :: rest => messagesAfter (warning :: cuts) rest
  | .rebuilt :: rest => cutReport cuts.reverse ++ messagesAfter [] rest

/-- The messages of a journal. -/
def messages (events : List Event) : List Message := messagesAfter [] events

end Journal

end RttiProbe

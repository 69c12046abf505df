import RttiProbe.Text.Utf8
/-!
# Printed text

Text put together from pieces, any of which may occur many times over.  Its size is known before it
is written, so text that would grow too long need never be written at all.  What is written is a
`String`, which is laid out in memory as it is counted, in bytes.
-/

set_option autoImplicit false

namespace RttiProbe.Decorated

/-- A text to be written, and the number of bytes that it takes. -/
structure Printed where
  content : Thunk String
  size : Nat
  size_eq : size = content.get.utf8ByteSize

namespace Printed

/-- The characters of the text. -/
def text (p : Printed) : Text := p.content.get.toList

/-- A text that is there already. -/
def ofString (s : String) : Printed := ⟨Thunk.pure s, s.utf8ByteSize, rfl⟩

instance : Inhabited Printed := ⟨ofString ""⟩

/-- One piece after another. -/
def append (p q : Printed) : Printed where
  content := Thunk.mk fun _ => p.content.get ++ q.content.get
  size := p.size + q.size
  size_eq := by rw [p.size_eq, q.size_eq]; exact String.utf8ByteSize_append.symm

instance : Append Printed := ⟨append⟩

/-- Many pieces, one after another. -/
def concat (pieces : List Printed) : Printed where
  content := Thunk.mk fun _ => String.join (pieces.map fun p => p.content.get)
  size := pieces.foldr (·.size + ·) 0
  size_eq := by
    show _ = (String.join (pieces.map fun p => p.content.get)).utf8ByteSize
    induction pieces with
    | nil => rfl
    | cons p rest ih =>
      rw [List.foldr_cons, List.map_cons, String.join_cons, String.utf8ByteSize_append, ih,
        p.size_eq]

/-- Many pieces with a separator between each two. -/
def separated (separator : String) (pieces : List Printed) : Printed :=
  concat (pieces.intersperse (ofString separator))

/-- The text, if it does not take more bytes than the limit allows. -/
def write? (limit : Option Nat) (p : Printed) : Option String :=
  if limit.all (p.size ≤ ·) then some p.content.get else none

@[simp] theorem text_ofString (s : String) : (ofString s).text = s.toList := rfl

@[simp] theorem text_append (p q : Printed) : (p ++ q).text = p.text ++ q.text :=
  String.toList_append

@[simp] theorem text_concat (pieces : List Printed) :
    (concat pieces).text = pieces.flatMap text := by
  show (String.join (pieces.map fun p => p.content.get)).toList = _
  rw [String.toList_join, List.flatMap_map]
  rfl

end Printed

end RttiProbe.Decorated

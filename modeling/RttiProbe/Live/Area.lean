import RttiProbe.Live.Segment
/-!
# Areas

The memory of a program is laid out in areas of whole pages, each with its own rights and with
either a stretch of the program's file or zeros behind it.  Segments are loaded in order, and a
later one takes the place of an earlier one where both have a page.

A stretch of the file joins the areas right below and right above it that go on in the file with
the same rights.  Two areas of different writers stay apart, and then only the lower one is joined.
An area that is written to takes over the writer of an area right above or right below it that goes
on in the file, whatever the rights of the two.  Zeros only join what lies right below them.
-/

set_option autoImplicit false

namespace RttiProbe.Live

/-- The number of bytes of a page. -/
def pageSize : Nat := 0x1000

/-- The number of the first page that starts at an address or after it. -/
def pageAfter (n : Nat) : Nat := (n + (pageSize - 1)) / pageSize

/-! ## Single areas -/

/-- What is behind an area. -/
inductive Backing where
  /-- the file, from an offset on -/
  | file (offset : Nat)
  /-- nothing, so that all is zero -/
  | zeros
  deriving DecidableEq, Repr, Inhabited

/-- What is behind an area from some page of it on. -/
def Backing.advance (pages : Nat) : Backing → Backing
  | file offset => file (offset + pages * pageSize)
  | zeros => zeros

/-- Pages that lie next to one another and are alike. -/
structure Area where
  /-- the number of the first page -/
  first : Nat
  /-- the number of the page after the last -/
  stop : Nat
  rights : Rights
  backing : Backing
  /-- the segment for which the area was first written to, if it was, or the writer that it took
  over then -/
  writer : Option Nat
  deriving DecidableEq, Repr, Inhabited

namespace Area

/-- Whether a page belongs to the area. -/
def holds (a : Area) (page : Nat) : Bool := a.first ≤ page && page < a.stop

/-- What is left of the area without the pages from `first` to before `stop`. -/
def without (first stop : Nat) (a : Area) : List Area :=
  let below := if a.first < first then [{ a with stop := min a.stop first }] else []
  let start := max a.first stop
  let above :=
    if start < a.stop then
      [{ a with first := start, backing := a.backing.advance (start - a.first) }]
    else []
  below ++ above

/-- Whether the area above goes on where this one ends, in memory and in the file. -/
def goesOnIn (a above : Area) : Bool :=
  a.stop == above.first
    && match a.backing, above.backing with
      | .file _, .file offset => a.backing.advance (a.stop - a.first) == .file offset
      | _, _ => false

/-- Whether zeros in the area above belong to this one. -/
def isFollowedBy (a above : Area) : Bool :=
  a.stop == above.first && a.rights == above.rights && a.backing == .zeros

/-- Whether the area above goes on where this one ends, and with the same rights. -/
def extendsInto (a above : Area) : Bool := a.goesOnIn above && a.rights == above.rights

/-- Whether two areas can become one as far as what was written to them goes. -/
def compatible (a b : Area) : Bool := a.writer.isNone || b.writer.isNone || a.writer == b.writer

end Area

/-! ## Layouts -/

/-- The memory of a program. -/
structure Layout where
  areas : List Area
  /-- pages of which all was cleared from an offset within the page on -/
  cleared : List (Nat × Nat)
  deriving DecidableEq, Repr, Inhabited

namespace Layout

/-- The layout without the pages from `first` to before `stop`. -/
def vacate (l : Layout) (first stop : Nat) : Layout where
  areas := l.areas.flatMap (Area.without first stop)
  cleared := l.cleared.filter fun (page, _) => page < first || stop ≤ page

/-- Puts a stretch of the file into the layout. -/
def placeFile (l : Layout) (fresh : Area) : Layout :=
  let l := l.vacate fresh.first fresh.stop
  let below := l.areas.find? (·.extendsInto fresh)
  let above := (l.areas.find? (fresh.extendsInto ·)).filter fun above =>
    below.all (·.compatible above)
  let joined : Area := {
    first := (below.map (·.first)).getD fresh.first
    stop := (above.map (·.stop)).getD fresh.stop
    rights := fresh.rights
    backing := (below.map (·.backing)).getD fresh.backing
    writer := below.bind (·.writer) <|> above.bind (·.writer) }
  { l with areas := joined :: l.areas.filter fun a => some a ≠ below && some a ≠ above }

/-- Puts zeros into the layout. -/
def placeZeros (l : Layout) (fresh : Area) : Layout :=
  let l := l.vacate fresh.first fresh.stop
  match l.areas.find? (·.isFollowedBy fresh) with
  | some below =>
    { l with areas := { below with stop := fresh.stop } :: l.areas.filter (· ≠ below) }
  | none => { l with areas := fresh :: l.areas }

/-- The writer of an area that is written to for a segment: the one that it has, or else that of the
area above that goes on in the file, or else that of the area below, or else the segment. -/
def writerOf (l : Layout) (segment : Nat) (a : Area) : Nat :=
  (a.writer
    <|> (l.areas.find? (a.goesOnIn ·)).bind (·.writer)
    <|> (l.areas.find? (·.goesOnIn a)).bind (·.writer)).getD segment

/-- Clears a page from an offset within it on, for a segment. -/
def clear (l : Layout) (segment page offset : Nat) : Layout where
  areas := l.areas.map fun a =>
    if a.holds page then { a with writer := some (l.writerOf segment a) } else a
  cleared := (page, offset) :: l.cleared

/-- Loads a segment with its number: its part of the file, then the memory beyond.  If the file
ends within a page of memory that may be written to, the rest of that page is cleared. -/
def load (l : Layout) (s : Segment) (number : Nat) : Layout :=
  let first := s.start / pageSize
  let fileEnd := s.start + s.fileSize
  let fileStop := if s.fileSize = 0 then first else pageAfter fileEnd
  let stop := pageAfter (s.start + s.memorySize)
  let l :=
    if s.fileSize = 0 then l
    else l.placeFile ⟨first, fileStop, s.rights, .file (s.fileOffset - s.start % pageSize), none⟩
  if s.memorySize ≤ s.fileSize then l
  else
    let l :=
      if 0 < s.fileSize && s.rights.writable && fileEnd % pageSize != 0 then
        l.clear number (fileEnd / pageSize) (fileEnd % pageSize)
      else l
    if fileStop < stop then
      l.placeZeros ⟨fileStop, stop, ⟨true, true, s.executableZeros⟩, .zeros, none⟩
    else l

/-- The layout of a program with the given segments, lowest area first. -/
def ofSegments (segments : List Segment) : Layout :=
  let l : Layout :=
    segments.zipIdx.foldl (fun (l : Layout) (s, number) => l.load s number) ⟨[], []⟩
  { l with areas := l.areas.mergeSort fun a b => a.first ≤ b.first }

/-- The byte at an address, given the program's file.  The last page that the file reaches is filled
with zeros; pages past it cannot be read. -/
def byte? (l : Layout) (file : Array UInt8) (address : Nat) : Option UInt8 :=
  let page := address / pageSize
  let offset := address % pageSize
  (l.areas.find? (·.holds page)).bind fun a =>
    match a.backing.advance (page - a.first) with
    | .zeros => some 0
    | .file start =>
      if pageAfter file.size * pageSize ≤ start then none
      else if (l.cleared.lookup page).any (· ≤ offset) then some 0
      else some (file[start + offset]?.getD 0)

end Layout

end RttiProbe.Live

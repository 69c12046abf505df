import RttiProbe.Class.Basic
/-!
# The grammar of class names

A class name is a row of segments separated by `::`.  A segment is a head, in which no angle bracket
or colon occurs and which is not all blank, followed by at most one list of arguments between
balanced angle brackets and by blanks.  The last segment is the class, the others are its
namespaces and are kept as they are written.  A list of arguments is cut at the commas that no
bracket encloses, and each argument is a class name in turn.

`Class.parse` reads any text.  One that does not follow the grammar is taken whole, as the name of a
class without namespaces.
-/

set_option autoImplicit false

namespace RttiProbe.Class

open Text (trim isBlank)

/-! ## Segments -/

/-- A segment of a class name. -/
structure Segment where
  /-- what comes before the arguments -/
  head : Text
  /-- what stands between the outer angle brackets, if there are any -/
  body : Option Text
  deriving DecidableEq, Repr, Inhabited

namespace Segment

/-- The segment as a namespace: as it is written, without the blanks around it. -/
def text (s : Segment) : Text :=
  match s.body with
  | none => trim s.head
  | some body => trim (s.head ++ '<' :: body ++ ['>'])

/-- The segment as a class: its head alone. -/
def name (s : Segment) : Text := trim s.head

end Segment

/-- Splits what follows an opening angle bracket at the bracket that closes it, when `depth` further
brackets are open. -/
def splitAtClosing : (depth : Nat) → Text → Option (Text × Text)
  | _, [] => none
  | depth, c :: rest =>
    if c = '<' then
      (splitAtClosing (depth + 1) rest).map fun (body, after) => (c :: body, after)
    else if c = '>' then
      match depth with
      | 0 => some ([], rest)
      | depth + 1 => (splitAtClosing depth rest).map fun (body, after) => (c :: body, after)
    else (splitAtClosing depth rest).map fun (body, after) => (c :: body, after)

theorem length_splitAtClosing {depth : Nat} {s body after : Text}
    (h : splitAtClosing depth s = some (body, after)) : body.length + after.length < s.length := by
  induction s generalizing depth body after with
  | nil => simp [splitAtClosing] at h
  | cons c rest ih =>
    have step {d : Nat} (hd : (splitAtClosing d rest).map (fun (b, a) => (c :: b, a))
        = some (body, after)) : body.length + after.length < (c :: rest).length := by
      obtain ⟨⟨b, a⟩, hba, heq⟩ := Option.map_eq_some_iff.1 hd
      obtain ⟨rfl, rfl⟩ := Prod.mk.inj heq
      have := ih hba
      simp only [List.length_cons]
      omega
    rw [splitAtClosing.eq_def] at h
    split at h
    · cases ‹c :: rest = []›
    · rename_i hs
      obtain ⟨rfl, rfl⟩ := List.cons.inj hs
      split at h
      · exact step h
      · split at h
        · split at h
          · obtain ⟨rfl, rfl⟩ := Prod.mk.inj (Option.some.inj h)
            simp
          · exact step h
        · exact step h

/-- A character that ends the head of a segment. -/
def endsHead (c : Char) : Bool := c = '<' || c = ':'

/-- Takes the first segment off a text. -/
def takeSegment (s : Text) : Option (Segment × Text) :=
  let head := s.takeWhile (!endsHead ·)
  if (trim head).isEmpty || head.contains '>' then none
  else
    match s.dropWhile (!endsHead ·) with
    | '<' :: rest =>
      (splitAtClosing 0 rest).map fun (body, after) => (⟨head, some body⟩, after.dropWhile isBlank)
    | rest => some (⟨head, none⟩, rest)

/-- The length of what stands between the brackets of a segment. -/
def Segment.bodyLength (s : Segment) : Nat := (s.body.getD []).length

theorem length_takeSegment {s rest : Text} {segment : Segment}
    (h : takeSegment s = some (segment, rest)) :
    rest.length ≤ s.length ∧ segment.bodyLength ≤ s.length
      ∧ (segment.body ≠ none → segment.bodyLength < s.length) := by
  have hs := (List.dropWhile_suffix (!endsHead ·) (l := s)).length_le
  unfold takeSegment at h
  simp only at h
  split at h
  · cases h
  · split at h
    · rename_i tail htail
      rw [htail, List.length_cons] at hs
      obtain ⟨⟨body, after⟩, hsplit, heq⟩ := Option.map_eq_some_iff.1 h
      obtain ⟨rfl, rfl⟩ := Prod.mk.inj heq
      have hlt := length_splitAtClosing hsplit
      have hblank := (List.dropWhile_suffix isBlank (l := after)).length_le
      simp only [Segment.bodyLength, Option.getD_some]
      omega
    · obtain ⟨rfl, rfl⟩ := Prod.mk.inj (Option.some.inj h)
      simp [Segment.bodyLength, hs]

/-- The segments of a text, if it follows the grammar. -/
def segments? (s : Text) : Option (List Segment) :=
  match _h : takeSegment s with
  | none => none
  | some (segment, []) => some [segment]
  | some (segment, ':' :: ':' :: rest) => (segments? rest).map (segment :: ·)
  | some _ => none
termination_by s.length
decreasing_by
  have h := (length_takeSegment _h).1
  simp only [List.length_cons] at h
  omega

/-! ## Arguments -/

/-- How a character changes the number of open brackets of any kind. -/
def bracketStep (c : Char) : Int :=
  if c = '<' || c = '(' || c = '[' then 1
  else if c = '>' || c = ')' || c = ']' then -1
  else 0

/-- Cuts a text at the commas where no bracket is open, when `depth` brackets are open before it. -/
def pieces : (depth : Int) → Text → List Text
  | _, [] => [[]]
  | depth, c :: rest =>
    if c = ',' ∧ depth = 0 then [] :: pieces depth rest
    else
      match pieces (depth + bracketStep c) rest with
      | [] => [[c]]
      | piece :: others => (c :: piece) :: others

theorem length_le_of_mem_pieces {depth : Int} {s piece : Text} (h : piece ∈ pieces depth s) :
    piece.length ≤ s.length := by
  induction s generalizing depth piece with
  | nil => simp_all [pieces]
  | cons c rest ih =>
    rw [pieces] at h
    split at h
    · rcases List.mem_cons.1 h with rfl | h
      · simp
      · exact Nat.le_succ_of_le (ih h)
    · split at h
      · simp_all
      · rename_i hp
        rcases List.mem_cons.1 h with rfl | h
        · exact Nat.succ_le_succ (ih (hp ▸ List.mem_cons_self))
        · exact Nat.le_succ_of_le (ih (hp ▸ List.mem_cons_of_mem _ h))

/-- The arguments that a list between brackets holds, none if it is blank. -/
def splitArguments (body : Text) : List Text :=
  if body.all isBlank then [] else (pieces 0 body).map trim

theorem length_le_of_mem_splitArguments {body argument : Text}
    (h : argument ∈ splitArguments body) : argument.length ≤ body.length := by
  unfold splitArguments at h
  split at h
  · cases h
  · obtain ⟨piece, hpiece, rfl⟩ := List.mem_map.1 h
    exact Nat.le_trans (Text.length_trim_le piece) (length_le_of_mem_pieces hpiece)

/-! ## Classes -/

theorem bodyLength_lt_of_segments {s : Text} {all : List Segment} (h : segments? s = some all)
    {segment : Segment} (hmem : segment ∈ all) (hbody : segment.body ≠ none) :
    segment.bodyLength < s.length := by
  fun_induction segments? s generalizing all with
  | case1 => cases h
  | case2 s first hfirst =>
    obtain rfl := Option.some.inj h
    obtain rfl := List.mem_singleton.1 hmem
    exact (length_takeSegment hfirst).2.2 hbody
  | case3 s first rest hfirst ih =>
    obtain ⟨others, hothers, rfl⟩ := Option.map_eq_some_iff.1 h
    rcases List.mem_cons.1 hmem with rfl | hmem
    · exact (length_takeSegment hfirst).2.2 hbody
    · have h₁ := ih hothers hmem
      have h₂ := (length_takeSegment hfirst).1
      simp only [List.length_cons] at h₂
      omega
  | case4 => cases h

/-- Reads a text as a class. -/
def parse (s : Text) : Class :=
  match _h : segments? s with
  | none => ofName (trim s)
  | some all =>
    match _hlast : all.getLast? with
    | none => ofName (trim s)
    | some last =>
      let arguments :=
        match _hbody : last.body with
        | none => []
        | some body =>
          (splitArguments body).attach.map fun ⟨argument, _hmem⟩ =>
            { parse argument with isArgument := true }
      ⟨last.name, all.dropLast.map Segment.text, arguments, [], none, false⟩
termination_by s.length
decreasing_by
  have h₁ := length_le_of_mem_splitArguments _hmem
  have h₂ := bodyLength_lt_of_segments _h (List.mem_of_getLast? _hlast) (by simp [_hbody])
  simp only [Segment.bodyLength, _hbody, Option.getD_some] at h₂
  omega

end RttiProbe.Class

import RttiProbe.Proofs.Class.Nesting
import RttiProbe.Proofs.Text.Trim
/-!
# Segments, read back

A segment is written as its head and its list.  What is written so can be taken off the front of a
text again, as long as the text ends there or goes on with a separator.  What a class is read from
is its segments alone.
-/

set_option autoImplicit false

namespace RttiProbe.Class

open Text (trim isBlank)

/-! ## Well-formed segments -/

namespace Segment

/-- The segment as it is written. -/
def written (s : Segment) : Text :=
  match s.body with
  | none => s.head
  | some body => s.head ++ '<' :: body ++ ['>']

/-- The head is not blank and ends where it should, and the angle brackets of the list are
balanced. -/
structure IsWellFormed (s : Segment) : Prop where
  head_clean : ∀ c ∈ s.head, c ≠ '<' ∧ c ≠ '>' ∧ c ≠ ':'
  head_visible : trim s.head ≠ []
  body_balanced : ∀ body, s.body = some body → body.foldlM angleStep 0 = some 0

theorem text_eq (s : Segment) : s.text = trim s.written := by
  unfold text written
  cases s.body <;> rfl

end Segment

/-! ## The head of a segment -/

theorem not_endsHead_of_mem {s : Segment} (h : s.IsWellFormed) :
    ∀ c ∈ s.head, (!endsHead c) = true := by
  intro c hc
  obtain ⟨hopen, -, hcolon⟩ := h.head_clean c hc
  simp [endsHead, hopen, hcolon]

theorem takeWhile_head {s : Segment} (h : s.IsWellFormed) {t : Text}
    (ht : ∀ c, t.head? = some c → endsHead c = true) :
    (s.head ++ t).takeWhile (!endsHead ·) = s.head := by
  rw [List.takeWhile_append_of_pos (not_endsHead_of_mem h)]
  cases t with
  | nil => simp
  | cons c rest =>
      have hc : endsHead c = true := ht c rfl
      simp [hc]

theorem dropWhile_head {s : Segment} (h : s.IsWellFormed) {t : Text}
    (ht : ∀ c, t.head? = some c → endsHead c = true) :
    (s.head ++ t).dropWhile (!endsHead ·) = t := by
  rw [List.dropWhile_append_of_pos (not_endsHead_of_mem h)]
  cases t with
  | nil => rfl
  | cons c rest =>
      have hc : endsHead c = true := ht c rfl
      simp [hc]

/-- Nothing about a well-formed head is refused. -/
theorem head_not_refused {s : Segment} (h : s.IsWellFormed) :
    ((trim s.head).isEmpty || s.head.contains '>') = false := by
  have hvisible : (trim s.head).isEmpty = false := by
    simpa using h.head_visible
  have hclose : s.head.contains '>' = false := by
    rw [List.contains_eq_mem, decide_eq_false_iff_not]
    intro hmem
    exact (h.head_clean '>' hmem).2.1 rfl
  rw [hvisible, hclose]
  rfl

theorem takeSegment_of_separator {s : Segment} (h : s.IsWellFormed) {t : Text}
    (ht : ∀ c, t.head? = some c → c = ':') :
    takeSegment (s.head ++ t) = some (⟨s.head, none⟩, t) := by
  have hends : ∀ c, t.head? = some c → endsHead c = true := by
    intro c hc
    rw [ht c hc]
    rfl
  unfold takeSegment
  dsimp only
  rw [takeWhile_head h hends, dropWhile_head h hends, head_not_refused h]
  cases t with
  | nil => rfl
  | cons c rest =>
      obtain rfl : c = ':' := ht c rfl
      rfl

theorem takeSegment_of_list {s : Segment} (h : s.IsWellFormed) {body : Text}
    (hbody : body.foldlM angleStep 0 = some 0) (t : Text) :
    takeSegment (s.head ++ '<' :: (body ++ '>' :: t))
      = some (⟨s.head, some body⟩, t.dropWhile isBlank) := by
  have hends : ∀ c, ('<' :: (body ++ '>' :: t)).head? = some c → endsHead c = true := by
    intro c hc
    obtain rfl : '<' = c := Option.some.inj hc
    rfl
  unfold takeSegment
  dsimp only
  rw [takeWhile_head h hends, dropWhile_head h hends, head_not_refused h]
  simp [splitAtClosing_body hbody]

/-! ## Rows of segments -/

/-- A segment is taken off a text that goes on with a separator, or not at all. -/
theorem takeSegment_written {s : Segment} (h : s.IsWellFormed) {t : Text}
    (ht : ∀ c, t.head? = some c → c = ':') : takeSegment (s.written ++ t) = some (s, t) := by
  unfold Segment.written
  cases hbody : s.body with
  | none =>
      dsimp only
      rw [takeSegment_of_separator h ht, ← hbody]
  | some body =>
      have hblank : t.dropWhile isBlank = t := by
        cases t with
        | nil => rfl
        | cons c rest =>
            obtain rfl : c = ':' := ht c rfl
            rfl
      have htake := takeSegment_of_list h (h.body_balanced body hbody) t
      rw [hblank, ← hbody] at htake
      simpa using htake

theorem segments?_last {t : Text} {s : Segment} (h : takeSegment t = some (s, [])) :
    segments? t = some [s] := by
  rw [segments?.eq_def, h]

theorem segments?_cons {t rest : Text} {s : Segment}
    (h : takeSegment t = some (s, [':', ':'] ++ rest)) :
    segments? t = (segments? rest).map (s :: ·) := by
  rw [segments?.eq_def, h]
  rfl

/-! ## Classes -/

/-- The arguments that a segment gives the class it is read as. -/
def Segment.arguments (s : Segment) : List Text :=
  match s.body with
  | none => []
  | some body => splitArguments body

/-- A text without segments is the name of a class. -/
theorem parse_of_none {s : Text} (h : segments? s = none) : parse s = ofName (trim s) := by
  rw [parse.eq_def]
  split
  · rfl
  · rename_i hsome
    rw [h] at hsome
    cases hsome

/-- The last segment of a text is its class, in the namespaces that the others are. -/
theorem parse_of_segments {s : Text} {scopes : List Segment} {last : Segment}
    (h : segments? s = some (scopes ++ [last])) :
    parse s
      = ⟨last.name, scopes.map Segment.text,
          last.arguments.map fun argument => { parse argument with isArgument := true }, [], none,
          false⟩ := by
  rw [parse.eq_def]
  split
  · rename_i hnone
    rw [h] at hnone
    cases hnone
  · rename_i all hall
    obtain rfl : scopes ++ [last] = all := Option.some.inj (h.symm.trans hall)
    split
    · rename_i hnone
      rw [List.getLast?_concat] at hnone
      cases hnone
    · rename_i found hfound
      rw [List.getLast?_concat] at hfound
      obtain rfl : last = found := Option.some.inj hfound
      rw [List.dropLast_concat]
      unfold Segment.arguments
      split
      · rename_i hbody
        rw [hbody]
        rfl
      · rename_i body hbody
        rw [hbody]
        simp

end RttiProbe.Class

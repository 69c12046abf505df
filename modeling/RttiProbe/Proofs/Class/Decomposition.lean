import RttiProbe.Proofs.Class.Rows
/-!
# The grammar by counting

The grammar of class names stated without a scan.  A segment is told by the characters of its head
and by how many angle brackets its list opens and closes, a piece of a list by how many brackets
stand before the commas around it.  A text has at most one decomposition by these rules;
`parse_follows_grammar` says that a text which has one is read as the class that its segments make,
and that any other is read as a name.
-/

set_option autoImplicit false

namespace RttiProbe.Class

open Text (trim isBlank AllBlank)

/-! ## Angle brackets -/

/-- No prefix of the text closes more angle brackets than it opens, and the text closes all of
them. -/
structure HasBalancedAngles (s : Text) : Prop where
  count_le : ∀ p, p <+: s → p.count '>' ≤ p.count '<'
  count_eq : s.count '>' = s.count '<'

/-- A step changes the count by what the character opens and closes. -/
theorem angleStep_eq_some_iff {depth after : Nat} {c : Char} :
    angleStep depth c = some after ↔ [c].count '>' + after = depth + [c].count '<' := by
  unfold angleStep
  by_cases hopen : c = '<'
  · subst hopen
    simp [eq_comm]
  · by_cases hclose : c = '>'
    · subst hclose
      cases depth with
      | zero => simp
      | succ depth => simp [Nat.add_comm 1 after, eq_comm]
    · simp [hopen, hclose, eq_comm]

/-- The search for a closing bracket goes over a text that never closes more brackets than are open,
and is then inside of as many as the text leaves open. -/
theorem foldlM_angleStep_eq_some_iff {depth after : Nat} {s : Text} :
    s.foldlM angleStep depth = some after ↔
      (∀ p, p <+: s → p.count '>' ≤ depth + p.count '<')
        ∧ s.count '>' + after = depth + s.count '<' := by
  induction s generalizing depth with
  | nil => simp [eq_comm]
  | cons c rest ih =>
      have hcount (d : Char) (t : Text) : (c :: t).count d = [c].count d + t.count d := by
        rw [← List.count_append, List.singleton_append]
      rw [List.foldlM_cons, Option.bind_eq_bind, Option.bind_eq_some_iff, hcount '>' rest,
        hcount '<' rest]
      constructor
      · rintro ⟨next, hstep, hrest⟩
        obtain ⟨hle, heq⟩ := ih.1 hrest
        have hstep := angleStep_eq_some_iff.1 hstep
        refine ⟨fun p hp => ?_, by omega⟩
        obtain rfl | ⟨q, rfl, hq⟩ := List.prefix_cons_iff.1 hp
        · exact Nat.zero_le _
        · have := hle q hq
          rw [hcount '>' q, hcount '<' q]
          omega
      · rintro ⟨hle, heq⟩
        have hfirst := hle [c] ⟨rest, rfl⟩
        obtain ⟨next, hnext⟩ := Nat.exists_eq_add_of_le hfirst
        refine ⟨next, angleStep_eq_some_iff.2 hnext.symm, ih.2 ⟨fun p hp => ?_, by omega⟩⟩
        have hprefix := hle (c :: p) (List.prefix_cons_iff.2 (.inr ⟨p, rfl, hp⟩))
        rw [hcount '>' p, hcount '<' p] at hprefix
        omega

theorem hasBalancedAngles_iff {s : Text} :
    HasBalancedAngles s ↔ s.foldlM angleStep 0 = some 0 := by
  rw [foldlM_angleStep_eq_some_iff]
  simp only [Nat.zero_add, Nat.add_zero]
  exact ⟨fun h => ⟨h.count_le, h.count_eq⟩, fun h => ⟨h.1, h.2⟩⟩

/-! ## Commas -/

/-- How many more brackets of any kind a text opens than it closes. -/
def openBrackets (s : Text) : Int :=
  (s.count '<' + s.count '(' + s.count '[' : Nat) - (s.count '>' + s.count ')' + s.count ']' : Nat)

theorem openBrackets_nil : openBrackets [] = 0 := rfl

theorem openBrackets_append (s t : Text) :
    openBrackets (s ++ t) = openBrackets s + openBrackets t := by
  simp only [openBrackets, List.count_append]
  omega

theorem openBrackets_singleton (c : Char) : openBrackets [c] = bracketStep c := by
  by_cases hmark : c ∈ marks
  · simp only [marks, List.mem_cons, List.not_mem_nil, or_false] at hmark
    rcases hmark with h | h | h | h | h | h | h <;> subst h <;> rfl
  · rw [bracketStep_of_not_mem_marks hmark]
    have hcount : ∀ d ∈ marks, [c].count d = 0 := fun d hd =>
      List.count_eq_zero.2 fun hc => hmark (List.mem_singleton.1 hc ▸ hd)
    simp [openBrackets, hcount _ (by decide : '<' ∈ marks), hcount _ (by decide : '(' ∈ marks),
      hcount _ (by decide : '[' ∈ marks), hcount _ (by decide : '>' ∈ marks),
      hcount _ (by decide : ')' ∈ marks), hcount _ (by decide : ']' ∈ marks)]

/-- Going over a text counts the brackets that it leaves open. -/
theorem eq_of_foldlM_cutStep {depth after : Int} {s : Text}
    (h : s.foldlM cutStep depth = some after) : after = depth + openBrackets s := by
  induction s generalizing depth with
  | nil =>
      obtain rfl := Option.some.inj h
      rw [openBrackets_nil, Int.add_zero]
  | cons c rest ih =>
      rw [List.foldlM_cons, Option.bind_eq_bind, Option.bind_eq_some_iff] at h
      obtain ⟨next, hstep, hrest⟩ := h
      unfold cutStep at hstep
      split at hstep
      · cases hstep
      · obtain rfl := Option.some.inj hstep
        rw [ih hrest, ← List.singleton_append, openBrackets_append, openBrackets_singleton]
        omega

/-- A text is gone over without a cut if no comma stands where all brackets are closed. -/
theorem exists_foldlM_cutStep_iff {depth : Int} {s : Text} :
    (∃ after, s.foldlM cutStep depth = some after) ↔
      ∀ p q, s = p ++ ',' :: q → depth + openBrackets p ≠ 0 := by
  constructor
  · rintro ⟨after, h⟩ p q rfl hzero
    rw [List.foldlM_append, Option.bind_eq_bind, Option.bind_eq_some_iff] at h
    obtain ⟨here, hhere, hrest⟩ := h
    obtain rfl : here = 0 := (eq_of_foldlM_cutStep hhere).trans hzero
    cases hrest
  · intro h
    induction s generalizing depth with
    | nil => exact ⟨depth, rfl⟩
    | cons c rest ih =>
        cases hstep : cutStep depth c with
        | none =>
            obtain ⟨rfl, rfl⟩ := cutStep_eq_none_iff.1 hstep
            exact absurd rfl (h [] rest rfl)
        | some next =>
            have hnext : [c].foldlM cutStep depth = some next := by
              rw [List.foldlM_cons, hstep]
              rfl
            have hnext := eq_of_foldlM_cutStep hnext
            have hrest : ∀ p q, rest = p ++ ',' :: q → next + openBrackets p ≠ 0 := by
              intro p q hrest
              have hp := h (c :: p) q (congrArg (c :: ·) hrest)
              rw [← List.singleton_append, openBrackets_append] at hp
              omega
            obtain ⟨after, hafter⟩ := ih hrest
            exact ⟨after, by rw [List.foldlM_cons, hstep]; exact hafter⟩

/-- A text is what some of the pieces make that stand before a comma between two pieces. -/
def EndsPiece (ps : List Text) (p : Text) : Prop :=
  ∃ first rest, first ≠ [] ∧ rest ≠ [] ∧ ps = first ++ rest ∧ p = [','].intercalate first

/-- The list is cut into pieces: with commas between them they are the list, and a comma of the list
is one of these exactly if as many brackets are closed before it as are opened. -/
structure IsCutInto (body : Text) (ps : List Text) : Prop where
  ne_nil : ps ≠ []
  eq_intercalate : body = [','].intercalate ps
  comma_iff : ∀ p q, body = p ++ ',' :: q → (openBrackets p = 0 ↔ EndsPiece ps p)

theorem not_endsPiece_singleton (s p : Text) : ¬ EndsPiece [s] p := by
  rintro ⟨first, rest, hfirst, hrest, heq, -⟩
  rcases List.append_eq_singleton_iff.1 heq.symm with ⟨h, -⟩ | ⟨-, h⟩
  · exact hfirst h
  · exact hrest h

section Cons

variable {s : Text} {ps : List Text} (hps : ps ≠ [])

include hps

theorem intercalate_comma_cons :
    [','].intercalate (s :: ps) = s ++ ',' :: [','].intercalate ps := by
  rw [List.intercalate_cons_of_ne_nil hps, List.append_assoc]
  rfl

theorem endsPiece_first : EndsPiece (s :: ps) s :=
  ⟨[s], ps, List.cons_ne_nil _ _, hps, rfl, List.intercalate_singleton.symm⟩

theorem endsPiece_cons_iff {p : Text} :
    EndsPiece (s :: ps) p ↔ p = s ∨ ∃ p', p = s ++ ',' :: p' ∧ EndsPiece ps p' := by
  constructor
  · rintro ⟨first, rest, hfirst, hrest, heq, rfl⟩
    obtain ⟨s', others, rfl⟩ := List.exists_cons_of_ne_nil hfirst
    obtain ⟨rfl, rfl⟩ := List.cons.inj heq
    by_cases hothers : others = []
    · subst hothers
      exact .inl List.intercalate_singleton
    · exact .inr ⟨_, intercalate_comma_cons hothers, others, rest, hothers, hrest, rfl, rfl⟩
  · rintro (rfl | ⟨p', rfl, first, rest, hfirst, hrest, rfl, rfl⟩)
    · exact endsPiece_first hps
    · exact ⟨s :: first, rest, List.cons_ne_nil _ _, hrest, rfl,
        (intercalate_comma_cons hfirst).symm⟩

theorem endsPiece_after_iff {p : Text} : EndsPiece (s :: ps) (s ++ ',' :: p) ↔ EndsPiece ps p := by
  rw [endsPiece_cons_iff hps]
  constructor
  · rintro (h | ⟨p', h, hends⟩)
    · simpa using congrArg List.length h
    · obtain rfl := (List.cons.inj (List.append_cancel_left h)).2
      exact hends
  · intro h
    exact .inr ⟨p, rfl, h⟩

/-- The first piece does not end before a comma that stands in it. -/
theorem not_endsPiece_inside {p u : Text} (hs : s = p ++ ',' :: u) : ¬ EndsPiece (s :: ps) p := by
  rw [endsPiece_cons_iff hps]
  have hlength := congrArg List.length hs
  simp only [List.length_append, List.length_cons] at hlength
  rintro (rfl | ⟨p', rfl, -⟩)
  · omega
  · simp only [List.length_append, List.length_cons] at hlength
    omega

end Cons

/-- A comma in two texts with a comma between them is in the first text, that comma, or in the
second text. -/
theorem comma_cases {s t p q : Text} (h : s ++ ',' :: t = p ++ ',' :: q) :
    (∃ u, s = p ++ ',' :: u) ∨ p = s ∨ ∃ u, p = s ++ ',' :: u ∧ t = u ++ ',' :: q := by
  obtain ⟨u, rfl, hu⟩ | ⟨u, rfl, hu⟩ := List.append_eq_append_iff.1 h
  · cases u with
    | nil => exact .inr (.inl (List.append_nil s))
    | cons c u =>
        obtain ⟨rfl, rfl⟩ := List.cons.inj hu
        exact .inr (.inr ⟨u, rfl, rfl⟩)
  · cases u with
    | nil => exact .inr (.inl (List.append_nil p).symm)
    | cons c u =>
        obtain ⟨rfl, -⟩ := List.cons.inj hu
        exact .inl ⟨u, rfl⟩

theorem openBrackets_append_comma (s t : Text) :
    openBrackets (s ++ ',' :: t) = openBrackets s + openBrackets t := by
  have hcomma : openBrackets [','] = 0 := rfl
  rw [← List.singleton_append, openBrackets_append, openBrackets_append, hcomma, Int.zero_add]

theorem cuts_singleton_iff {depth : Int} {s : Text} :
    Cuts depth [s] ↔ ∃ after, s.foldlM cutStep depth = some after := by
  constructor
  · intro h
    cases h with
    | last h => exact ⟨_, h⟩
    | next _ hrest => exact absurd rfl hrest.ne_nil
  · rintro ⟨after, h⟩
    exact .last h

theorem cuts_cons_iff {depth : Int} {s : Text} {ps : List Text} (hps : ps ≠ []) :
    Cuts depth (s :: ps) ↔ s.foldlM cutStep depth = some 0 ∧ Cuts 0 ps := by
  constructor
  · intro h
    cases h with
    | last h => exact absurd rfl hps
    | next h hrest => exact ⟨h, hrest⟩
  · rintro ⟨h, hrest⟩
    exact .next h hrest

/-- The commas between pieces are those where all brackets are closed. -/
theorem cuts_iff {depth : Int} {ps : List Text} (hps : ps ≠ []) :
    Cuts depth ps ↔
      ∀ p q, [','].intercalate ps = p ++ ',' :: q →
        (depth + openBrackets p = 0 ↔ EndsPiece ps p) := by
  induction ps generalizing depth with
  | nil => exact absurd rfl hps
  | cons s rest ih =>
      by_cases hrest : rest = []
      · subst hrest
        simp only [cuts_singleton_iff, exists_foldlM_cutStep_iff, List.intercalate_singleton,
          not_endsPiece_singleton, iff_false, ne_eq]
      · rw [cuts_cons_iff hrest, ih hrest, intercalate_comma_cons hrest]
        constructor
        · rintro ⟨hs, hcuts⟩ p q heq
          rcases comma_cases heq with ⟨u, hu⟩ | rfl | ⟨u, rfl, hu⟩
          · have hinside := exists_foldlM_cutStep_iff.1 ⟨_, hs⟩ p u hu
            exact iff_of_false hinside (not_endsPiece_inside hrest hu)
          · exact iff_of_true (eq_of_foldlM_cutStep hs).symm (endsPiece_first hrest)
          · rw [openBrackets_append_comma, endsPiece_after_iff hrest, ← hcuts u q hu,
              ← Int.add_assoc, ← eq_of_foldlM_cutStep hs]
        · intro hcommas
          have hfirst := (hcommas s _ rfl).2 (endsPiece_first hrest)
          refine ⟨?_, fun p q hp => ?_⟩
          · obtain ⟨after, hafter⟩ : ∃ after, s.foldlM cutStep depth = some after := by
              refine exists_foldlM_cutStep_iff.2 fun p u hs hzero => ?_
              have heq : s ++ ',' :: [','].intercalate rest
                  = p ++ ',' :: (u ++ ',' :: [','].intercalate rest) := by
                conv => lhs; rw [hs]
                simp
              exact not_endsPiece_inside hrest hs ((hcommas p _ heq).1 hzero)
            rw [hafter, eq_of_foldlM_cutStep hafter, hfirst]
          · have hcomma := hcommas (s ++ ',' :: p) q (by rw [hp]; simp)
            rwa [openBrackets_append_comma, endsPiece_after_iff hrest, ← Int.add_assoc, hfirst]
              at hcomma

/-- There is one way to cut a list, and the scan finds it. -/
theorem isCutInto_iff {body : Text} {ps : List Text} : IsCutInto body ps ↔ ps = pieces 0 body := by
  rw [eq_comm, pieces_eq_iff]
  constructor
  · intro h
    refine ⟨(cuts_iff h.ne_nil).2 fun p q hp => ?_, h.eq_intercalate⟩
    rw [Int.zero_add]
    exact h.comma_iff p q (h.eq_intercalate.trans hp)
  · rintro ⟨hcuts, rfl⟩
    refine ⟨hcuts.ne_nil, rfl, fun p q hp => ?_⟩
    have := (cuts_iff hcuts.ne_nil).1 hcuts p q hp
    rwa [Int.zero_add] at this

/-! ## Segments -/

/-- A segment as it stands between two separators. -/
inductive RawSegment where
  /-- a head alone -/
  | plain (head : Text)
  /-- a head, what stands between the angle brackets of its list, and what follows the list -/
  | withList (head body blanks : Text)
  deriving DecidableEq, Repr

namespace RawSegment

def head : RawSegment → Text
  | plain head => head
  | withList head _ _ => head

/-- What stands between the angle brackets, if there are any. -/
def body? : RawSegment → Option Text
  | plain _ => none
  | withList _ body _ => some body

/-- What follows the list. -/
def blanks : RawSegment → Text
  | plain _ => []
  | withList _ _ blanks => blanks

/-- The segment written out. -/
def text : RawSegment → Text
  | plain head => head
  | withList head body blanks => head ++ '<' :: (body ++ '>' :: blanks)

/-- The segment without what follows its list. -/
def segment (r : RawSegment) : Segment := ⟨r.head, r.body?⟩

/-- What the grammar asks of a segment. -/
structure IsLawful (r : RawSegment) : Prop where
  head_clean : ∀ c ∈ r.head, c ≠ '<' ∧ c ≠ '>' ∧ c ≠ ':'
  head_visible : ∃ c ∈ r.head, isBlank c = false
  body_balanced : ∀ body, r.body? = some body → HasBalancedAngles body
  blanks_blank : AllBlank r.blanks

/-- The pieces of the list of a segment: none if there is no list, or a blank one. -/
inductive HasPieces : RawSegment → List Text → Prop where
  | plain {head : Text} : HasPieces (plain head) []
  | blank {head body blanks : Text} (h : AllBlank body) : HasPieces (withList head body blanks) []
  | cut {head body blanks : Text} {ps : List Text} (hbody : ¬ AllBlank body)
      (hps : IsCutInto body ps) : HasPieces (withList head body blanks) ps

theorem text_eq (r : RawSegment) : r.text = r.segment.written ++ r.blanks := by
  cases r <;> simp [text, segment, Segment.written, head, body?, blanks]

theorem trails {r : RawSegment} (h : r.IsLawful) : Trails r.segment r.blanks where
  allBlank := h.blanks_blank
  eq_nil := by
    intro hbody
    cases r with
    | plain => rfl
    | withList => cases hbody

theorem isWellFormed {r : RawSegment} (h : r.IsLawful) : r.segment.IsWellFormed where
  head_clean := h.head_clean
  head_visible := mt Text.trim_eq_nil_iff.1 (Text.not_allBlank_iff.2 h.head_visible)
  body_balanced := fun body hbody => hasBalancedAngles_iff.1 (h.body_balanced body hbody)

/-- A segment that the scan takes, with the blanks that it passes over, is lawful. -/
theorem exists_isLawful {s : Segment} {blanks : Text} (h : s.IsWellFormed)
    (hblanks : Trails s blanks) :
    ∃ r : RawSegment, r.IsLawful ∧ r.segment = s ∧ r.text = s.written ++ blanks := by
  have hvisible := Text.not_allBlank_iff.1 (mt Text.trim_eq_nil_iff.2 h.head_visible)
  obtain ⟨head, _ | body⟩ := s
  · refine ⟨plain head, ⟨h.head_clean, hvisible, nofun, Text.allBlank_nil⟩, rfl, ?_⟩
    rw [text_eq, hblanks.eq_nil rfl]
    rfl
  · refine ⟨withList head body blanks, ⟨h.head_clean, hvisible, ?_, hblanks.allBlank⟩, rfl,
      text_eq _⟩
    intro body' hbody
    exact hasBalancedAngles_iff.2 (h.body_balanced body' hbody)

/-- The blanks after a list are no part of what a segment is as a namespace. -/
theorem text_segment {r : RawSegment} (h : r.IsLawful) : r.segment.text = trim r.text := by
  have htrim := Text.trim_surrounded Text.allBlank_nil h.blanks_blank r.segment.written
  rw [Segment.text_eq, text_eq]
  exact htrim.symm

theorem eq_of_text_eq {r r' : RawSegment} (hsegment : r.segment = r'.segment)
    (htext : r.text = r'.text) : r = r' := by
  have hblanks : r.blanks = r'.blanks := by
    rw [text_eq, text_eq, hsegment] at htext
    exact List.append_cancel_left htext
  obtain ⟨hhead, hbody⟩ := Segment.mk.inj hsegment
  cases r <;> cases r' <;> simp_all [head, body?, blanks]

/-- The list of a segment has its pieces in one way. -/
theorem exists_hasPieces (r : RawSegment) : ∃ ps, ∀ qs, r.HasPieces qs ↔ qs = ps := by
  cases r with
  | plain head =>
      refine ⟨[], fun qs => ⟨?_, ?_⟩⟩
      · rintro ⟨⟩
        rfl
      · rintro rfl
        exact .plain
  | withList head body blanks =>
      by_cases hbody : AllBlank body
      · refine ⟨[], fun qs => ⟨?_, ?_⟩⟩
        · rintro (_ | _ | ⟨hvisible, _⟩)
          · rfl
          · exact absurd hbody hvisible
        · rintro rfl
          exact .blank hbody
      · refine ⟨pieces 0 body, fun qs => ⟨?_, ?_⟩⟩
        · rintro (_ | hblank | ⟨_, hqs⟩)
          · exact absurd hblank hbody
          · exact isCutInto_iff.1 hqs
        · rintro rfl
          exact .cut hbody (isCutInto_iff.2 rfl)

/-- The scan reads the pieces of a segment and trims them. -/
theorem HasPieces.map_trim_eq {r : RawSegment} {ps : List Text} (h : r.HasPieces ps) :
    ps.map trim = r.segment.arguments := by
  cases h with
  | plain => rfl
  | blank hbody => exact (splitArguments_of_blank (Text.all_isBlank_iff.2 hbody)).symm
  | cut hbody hps =>
      rw [isCutInto_iff.1 hps]
      exact (splitArguments_of_not_blank (mt Text.all_isBlank_iff.1 hbody)).symm

end RawSegment

/-! ## Rows of segments -/

/-- The text is a row of lawful segments with two colons between each and the next. -/
structure Decomposes (s : Text) (row : List RawSegment) : Prop where
  ne_nil : row ≠ []
  isLawful : ∀ r ∈ row, r.IsLawful
  eq_intercalate : s = [':', ':'].intercalate (row.map RawSegment.text)

theorem Decomposes.isRow {s : Text} {row : List RawSegment} (h : Decomposes s row) :
    IsRow (row.map RawSegment.segment) s := by
  obtain ⟨hne, hlawful, rfl⟩ := h
  induction row with
  | nil => exact absurd rfl hne
  | cons r rest ih =>
      have hr := hlawful r List.mem_cons_self
      by_cases hrest : rest = []
      · subst hrest
        rw [List.map_singleton, List.map_singleton, List.intercalate_singleton, r.text_eq]
        exact .last (RawSegment.isWellFormed hr) (RawSegment.trails hr)
      · have hrow := ih hrest fun t ht => hlawful t (List.mem_cons_of_mem r ht)
        rw [List.map_cons, List.map_cons,
          List.intercalate_cons_of_ne_nil (by simpa using hrest), r.text_eq, List.append_assoc]
        exact .next (RawSegment.isWellFormed hr) (RawSegment.trails hr) hrow

theorem IsRow.exists_decomposes {all : List Segment} {s : Text} (h : IsRow all s) :
    ∃ row, Decomposes s row := by
  induction h with
  | last h hblanks =>
      obtain ⟨r, hr, -, htext⟩ := RawSegment.exists_isLawful h hblanks
      exact ⟨[r], List.cons_ne_nil _ _, by simpa using hr, by simpa using htext.symm⟩
  | next h hblanks _ ih =>
      obtain ⟨r, hr, -, htext⟩ := RawSegment.exists_isLawful h hblanks
      obtain ⟨row, hne, hlawful, rfl⟩ := ih
      refine ⟨r :: row, List.cons_ne_nil _ _, List.forall_mem_cons.2 ⟨hr, hlawful⟩, ?_⟩
      rw [List.map_cons, List.intercalate_cons_of_ne_nil (by simpa using hne), htext]
      simp only [List.append_assoc]

/-- The scan takes the first segment of a row off the text. -/
theorem Decomposes.takeSegment_eq {s : Text} {r : RawSegment} {rest : List RawSegment}
    (h : Decomposes s (r :: rest)) :
    ∃ t, s = r.text ++ t ∧ takeSegment s = some (r.segment, t)
      ∧ (rest = [] ∧ t = [] ∨ ∃ u, t = [':', ':'] ++ u ∧ Decomposes u rest) := by
  obtain ⟨-, hlawful, rfl⟩ := h
  obtain ⟨hr, hothers⟩ := List.forall_mem_cons.1 hlawful
  have htake {t : Text} (ht : ∀ c, t.head? = some c → c = ':') :
      takeSegment (r.text ++ t) = some (r.segment, t) := by
    rw [r.text_eq]
    exact takeSegment_trailed (RawSegment.isWellFormed hr) (RawSegment.trails hr) ht
  by_cases hrest : rest = []
  · subst hrest
    refine ⟨[], by simp, ?_, .inl ⟨rfl, rfl⟩⟩
    rw [List.map_singleton, List.intercalate_singleton, ← List.append_nil r.text]
    exact htake nofun
  · have htail : rest.map RawSegment.text ≠ [] := by simpa using hrest
    refine ⟨[':', ':'] ++ [':', ':'].intercalate (rest.map RawSegment.text), ?_, ?_,
      .inr ⟨_, rfl, hrest, hothers, rfl⟩⟩
    · rw [List.map_cons, List.intercalate_cons_of_ne_nil htail, List.append_assoc]
    · rw [List.map_cons, List.intercalate_cons_of_ne_nil htail, List.append_assoc]
      exact htake (by simp)

/-- A text decomposes in one way at most. -/
theorem Decomposes.unique {s : Text} {row row' : List RawSegment} (h : Decomposes s row)
    (h' : Decomposes s row') : row = row' := by
  induction row generalizing s row' with
  | nil => exact absurd rfl h.ne_nil
  | cons r rest ih =>
      obtain ⟨r', rest', rfl⟩ := List.exists_cons_of_ne_nil h'.ne_nil
      obtain ⟨t, hs, htake, hrest⟩ := h.takeSegment_eq
      obtain ⟨t', hs', htake', hrest'⟩ := h'.takeSegment_eq
      obtain ⟨hsegment, rfl⟩ := Prod.mk.inj (Option.some.inj (htake.symm.trans htake'))
      have htext : r.text = r'.text := List.append_cancel_right (hs.symm.trans hs')
      rw [RawSegment.eq_of_text_eq hsegment htext]
      rcases hrest with ⟨rfl, rfl⟩ | ⟨u, rfl, hu⟩ <;> rcases hrest' with ⟨rfl, ht⟩ | ⟨u', ht, hu'⟩
      · rfl
      · cases ht
      · cases ht
      · obtain rfl := List.append_cancel_left ht
        rw [ih hu hu']

/-- A text that decomposes is read as the class that its last segment makes, within the namespaces
that the others are; the pieces of the list of that segment are its arguments, read in turn.  A text
decomposes in one way at most, and one that does not is read as a name. -/
theorem parse_follows_grammar (s : Text) :
    (∀ scopes last, Decomposes s (scopes ++ [last]) →
      ∃ ps, (∀ qs, last.HasPieces qs ↔ qs = ps)
        ∧ parse s
          = ⟨trim last.head, scopes.map fun r => trim r.text,
              ps.map fun p => { parse (trim p) with isArgument := true }, [], none, false⟩)
      ∧ (∀ row row', Decomposes s row → Decomposes s row' → row = row')
      ∧ ((∀ row, ¬ Decomposes s row) → parse s = ⟨trim s, [], [], [], none, false⟩) := by
  refine ⟨fun scopes last h => ?_, fun row row' h h' => h.unique h', fun hnone => ?_⟩
  · have hrow := h.isRow
    rw [List.map_append, List.map_singleton] at hrow
    have hscopes : (scopes.map RawSegment.segment).map Segment.text
        = scopes.map fun r => trim r.text := by
      rw [List.map_map]
      exact List.map_congr_left fun r hr =>
        RawSegment.text_segment (h.isLawful r (List.mem_append_left [last] hr))
    obtain ⟨ps, hps⟩ := last.exists_hasPieces
    refine ⟨ps, hps, ?_⟩
    rw [parse_of_segments hrow.segments?_eq, hscopes,
      ← ((hps ps).2 rfl).map_trim_eq, List.map_map]
    rfl
  · apply parse_of_none
    cases hall : segments? s with
    | none => rfl
    | some all =>
        obtain ⟨row, hrow⟩ := (isRow_of_segments? hall).exists_decomposes
        exact absurd hrow (hnone row)

/-- The first segment of the text ` App :: Map< F<a,b>, (c,d)> `, and the last. -/
def sampleScope : RawSegment := .plain " App ".toList

def sampleLast : RawSegment := .withList " Map".toList " F<a,b>, (c,d)".toList [' ']

theorem decomposes_sample :
    Decomposes " App :: Map< F<a,b>, (c,d)> ".toList ([sampleScope] ++ [sampleLast]) where
  ne_nil := List.cons_ne_nil _ _
  isLawful := by
    have hscope : sampleScope.IsLawful :=
      ⟨by simp [sampleScope, RawSegment.head], ⟨'A', by decide⟩, nofun, nofun⟩
    have hbody : HasBalancedAngles " F<a,b>, (c,d)".toList := hasBalancedAngles_iff.2 rfl
    have hlast : sampleLast.IsLawful := by
      refine ⟨by simp [sampleLast, RawSegment.head], ⟨'M', by decide⟩, fun body h => ?_,
        Text.all_isBlank_iff.1 rfl⟩
      obtain rfl := Option.some.inj h
      exact hbody
    intro r hr
    rcases List.mem_cons.1 hr with rfl | hr
    · exact hscope
    · obtain rfl := List.mem_singleton.1 hr
      exact hlast
  eq_intercalate := by decide

/-- A text with a list of two pieces, which has commas that do not cut it, and a text that closes a
bracket it has not opened. -/
theorem parse_follows_grammar_sample :
    (sampleLast.HasPieces [" F<a,b>".toList, " (c,d)".toList]
        ∧ parse " App :: Map< F<a,b>, (c,d)> ".toList
          = ⟨"Map".toList, ["App".toList],
              ["F<a,b>".toList, "(c,d)".toList].map fun a => { parse a with isArgument := true },
              [], none, false⟩
        ∧ ∀ row, Decomposes " App :: Map< F<a,b>, (c,d)> ".toList row →
            row = [sampleScope, sampleLast])
      ∧ (∀ row, ¬ Decomposes "Foo>::Bar".toList row)
      ∧ parse "Foo>::Bar".toList = ⟨"Foo>::Bar".toList, [], [], [], none, false⟩ := by
  have hpieces : sampleLast.HasPieces [" F<a,b>".toList, " (c,d)".toList] :=
    .cut (mt Text.all_isBlank_iff.2 (by decide)) (isCutInto_iff.2 (by decide))
  have hnone : ∀ row, ¬ Decomposes "Foo>::Bar".toList row := by
    intro row h
    obtain ⟨r, rest, rfl⟩ := List.exists_cons_of_ne_nil h.ne_nil
    obtain ⟨t, -, htake, -⟩ := h.takeSegment_eq
    cases (show takeSegment "Foo>::Bar".toList = none by decide).symm.trans htake
  obtain ⟨hrow, hunique, -⟩ := parse_follows_grammar " App :: Map< F<a,b>, (c,d)> ".toList
  obtain ⟨ps, hps, hparse⟩ := hrow [sampleScope] sampleLast decomposes_sample
  obtain rfl := (hps _).1 hpieces
  exact ⟨⟨hpieces, hparse, fun row h => hunique row _ h decomposes_sample⟩, hnone,
    (parse_follows_grammar "Foo>::Bar".toList).2.2 hnone⟩

end RttiProbe.Class

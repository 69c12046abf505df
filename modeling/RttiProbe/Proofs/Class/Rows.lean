import RttiProbe.Proofs.Class.Segments
/-!
# What the grammar reads

The two ways in which a text is taken apart, as relations: `Cuts` for the pieces of a list, with the
commas that cut it between them, and `IsRow` for the segments of a name, with separators between
them and blanks after their lists.  `pieces_eq_iff` and `segments?_eq_some_iff` say that the scans
find what stands in these relations to the text, and nothing else.
-/

set_option autoImplicit false

namespace RttiProbe.Class

open Text (trim isBlank AllBlank IsTrimmed)

/-! ## Pieces -/

/-- Texts with commas between them are the pieces of a list before which `depth` brackets are open:
none is open at the end of a piece, the last one excepted, and no comma of a piece cuts it. -/
inductive Cuts : (depth : Int) → List Text → Prop where
  | last {depth after : Int} {s : Text} (h : s.foldlM cutStep depth = some after) : Cuts depth [s]
  | next {depth : Int} {s : Text} {rest : List Text} (h : s.foldlM cutStep depth = some 0)
      (hrest : Cuts 0 rest) : Cuts depth (s :: rest)

theorem cutStep_eq_none_iff {depth : Int} {c : Char} :
    cutStep depth c = none ↔ c = ',' ∧ depth = 0 := by
  unfold cutStep
  split <;> simp_all

theorem Cuts.ne_nil {depth : Int} {ps : List Text} (h : Cuts depth ps) : ps ≠ [] := by
  cases h <;> exact List.cons_ne_nil _ _

theorem Cuts.extendFirst {depth after : Int} {c : Char} {ps : List Text}
    (hc : cutStep depth c = some after) (h : Cuts after ps) : Cuts depth (extendFirst [c] ps) := by
  have hstep (s : Text) : (c :: s).foldlM cutStep depth = s.foldlM cutStep after := by
    rw [List.foldlM_cons, hc]
    rfl
  cases h with
  | last h => exact .last ((hstep _).trans h)
  | next h hrest => exact .next ((hstep _).trans h) hrest

theorem intercalate_extendFirst {ps : List Text} (hne : ps ≠ []) (s : Text) :
    [','].intercalate (extendFirst s ps) = s ++ [','].intercalate ps := by
  cases ps with
  | nil => exact absurd rfl hne
  | cons p rest =>
      show [','].intercalate ((s ++ p) :: rest) = s ++ [','].intercalate (p :: rest)
      by_cases hrest : rest = []
      · subst hrest
        rw [List.intercalate_singleton, List.intercalate_singleton]
      · rw [List.intercalate_cons_of_ne_nil hrest, List.intercalate_cons_of_ne_nil hrest]
        simp only [List.append_assoc]

theorem cuts_pieces (depth : Int) (s : Text) : Cuts depth (pieces depth s) := by
  induction s generalizing depth with
  | nil =>
      rw [pieces_nil]
      exact .last rfl
  | cons c rest ih =>
      cases hc : cutStep depth c with
      | none =>
          obtain ⟨rfl, rfl⟩ := cutStep_eq_none_iff.1 hc
          rw [pieces_zero_comma]
          exact .next rfl (ih 0)
      | some after =>
          rw [pieces_cons hc]
          exact (ih after).extendFirst hc

theorem intercalate_pieces (depth : Int) (s : Text) : [','].intercalate (pieces depth s) = s := by
  induction s generalizing depth with
  | nil =>
      rw [pieces_nil]
      rfl
  | cons c rest ih =>
      cases hc : cutStep depth c with
      | none =>
          obtain ⟨rfl, rfl⟩ := cutStep_eq_none_iff.1 hc
          rw [pieces_zero_comma, List.intercalate_cons_of_ne_nil (pieces_ne_nil 0 rest), ih]
          rfl
      | some after =>
          rw [pieces_cons hc, intercalate_extendFirst (pieces_ne_nil after rest), ih]
          rfl

theorem Cuts.pieces_eq {depth : Int} {ps : List Text} (h : Cuts depth ps) :
    pieces depth ([','].intercalate ps) = ps := by
  induction h with
  | @last depth after s h =>
      have hpieces := pieces_append h []
      rw [List.append_nil, pieces_nil] at hpieces
      rw [List.intercalate_singleton, hpieces]
      simp [Class.extendFirst]
  | @next depth s rest h hrest ih =>
      rw [List.intercalate_cons_of_ne_nil hrest.ne_nil, List.append_assoc, pieces_append h]
      show Class.extendFirst s (pieces 0 (',' :: [','].intercalate rest)) = _
      rw [pieces_zero_comma, ih]
      simp [Class.extendFirst]

/-- The pieces of a list are the texts that it is a row of. -/
theorem pieces_eq_iff {depth : Int} {s : Text} {ps : List Text} :
    pieces depth s = ps ↔ Cuts depth ps ∧ s = [','].intercalate ps := by
  constructor
  · rintro rfl
    exact ⟨cuts_pieces depth s, (intercalate_pieces depth s).symm⟩
  · rintro ⟨h, rfl⟩
    exact h.pieces_eq

theorem Cuts.map {depth : Int} {ps : List Text} (h : Cuts depth ps) {tidy : Text → Text}
    (htidy : ∀ p ∈ ps, ∀ d, (tidy p).foldlM cutStep d = p.foldlM cutStep d) :
    Cuts depth (ps.map tidy) := by
  induction h with
  | last h => exact .last ((htidy _ List.mem_cons_self _).trans h)
  | next h _ ih =>
      exact .next ((htidy _ List.mem_cons_self _).trans h)
        (ih fun p hp => htidy p (List.mem_cons_of_mem _ hp))

/-- A blank at the start of a list is trimmed off its first piece. -/
theorem map_trim_pieces_blank (s : Text) :
    (pieces 0 (' ' :: s)).map trim = (pieces 0 s).map trim := by
  rw [pieces_cons (show cutStep 0 ' ' = some 0 by rfl)]
  cases hpieces : pieces 0 s with
  | nil => exact absurd hpieces (pieces_ne_nil 0 s)
  | cons piece others =>
      show trim (' ' :: piece) :: others.map trim = trim piece :: others.map trim
      rw [Text.trim_cons_of_isBlank (by decide)]

/-- Pieces are found again when a blank is put after each comma. -/
theorem Cuts.map_trim_pieces {depth : Int} {ps : List Text} (h : Cuts depth ps) :
    (pieces depth ([',', ' '].intercalate ps)).map trim = ps.map trim := by
  induction h with
  | @last depth after s h =>
      have hpieces := pieces_append h []
      rw [List.append_nil, pieces_nil] at hpieces
      rw [List.intercalate_singleton, hpieces]
      simp [Class.extendFirst]
  | @next depth s rest h hrest ih =>
      rw [List.intercalate_cons_of_ne_nil hrest.ne_nil, List.append_assoc, pieces_append h]
      show (Class.extendFirst s (pieces 0 (',' :: ' ' :: [',', ' '].intercalate rest))).map trim = _
      rw [pieces_zero_comma]
      show trim (s ++ []) :: (pieces 0 (' ' :: _)).map trim = _
      rw [map_trim_pieces_blank, ih, List.append_nil, List.map_cons]

/-- Texts that no comma cuts and that leave no bracket open are pieces. -/
theorem cuts_of_whole {ps : List Text} (hne : ps ≠ [])
    (h : ∀ p ∈ ps, p.foldlM cutStep 0 = some 0) : Cuts 0 ps := by
  induction ps with
  | nil => exact absurd rfl hne
  | cons p rest ih =>
      by_cases hrest : rest = []
      · subst hrest
        exact .last (h p List.mem_cons_self)
      · exact .next (h p List.mem_cons_self)
          (ih hrest fun q hq => h q (List.mem_cons_of_mem p hq))

/-! ## Arguments -/

theorem splitArguments_of_blank {body : Text} (h : body.all isBlank = true) :
    splitArguments body = [] := if_pos h

theorem splitArguments_of_not_blank {body : Text} (h : ¬ body.all isBlank = true) :
    splitArguments body = (pieces 0 body).map trim := if_neg h

theorem splitArguments_ne_nil {body : Text} (h : ¬ body.all isBlank = true) :
    splitArguments body ≠ [] := by
  rw [splitArguments_of_not_blank h]
  simpa using pieces_ne_nil 0 body

theorem argumentText_of_ne_nil {arguments : List Text} (h : arguments ≠ []) :
    argumentText arguments = '<' :: [',', ' '].intercalate arguments ++ ['>'] := by
  unfold argumentText
  rw [List.isEmpty_eq_false_iff.2 h, if_neg Bool.false_ne_true]

/-- A list of which not just one blank argument is made is not blank. -/
theorem not_allBlank_intercalate {as : List Text} (hne : as ≠ [])
    (hsingle : ∀ a, as = [a] → ¬ AllBlank a) : ¬ AllBlank ([',', ' '].intercalate as) := by
  cases as with
  | nil => exact absurd rfl hne
  | cons a rest =>
      by_cases hrest : rest = []
      · subst hrest
        rw [List.intercalate_singleton]
        exact hsingle a rfl
      · rw [List.intercalate_cons_of_ne_nil hrest]
        intro h
        have hcomma := h ',' (by simp)
        cases hcomma

/-- The arguments of a list that is put together from trimmed pieces are these pieces. -/
theorem splitArguments_of_cuts {as : List Text} (h : Cuts 0 as)
    (htrimmed : ∀ a ∈ as, IsTrimmed a) (hsingle : ∀ a, as = [a] → ¬ AllBlank a) :
    splitArguments ([',', ' '].intercalate as) = as := by
  have hblank := not_allBlank_intercalate h.ne_nil hsingle
  rw [splitArguments_of_not_blank (mt Text.all_isBlank_iff.1 hblank), h.map_trim_pieces]
  conv => rhs; rw [← List.map_id as]
  exact List.map_congr_left fun a ha => (htrimmed a ha).trim_eq

/-! ## Segments -/

/-- What may stand between a segment and what follows it: blanks, and those after a list only. -/
structure Trails (s : Segment) (blanks : Text) : Prop where
  allBlank : AllBlank blanks
  eq_nil : s.body = none → blanks = []

/-- The text is a row of segments with separators between them. -/
inductive IsRow : List Segment → Text → Prop where
  | last {s : Segment} {blanks : Text} (h : s.IsWellFormed) (hblanks : Trails s blanks) :
      IsRow [s] (s.written ++ blanks)
  | next {s : Segment} {blanks : Text} {all : List Segment} {rest : Text} (h : s.IsWellFormed)
      (hblanks : Trails s blanks) (hrest : IsRow all rest) :
      IsRow (s :: all) (s.written ++ blanks ++ ([':', ':'] ++ rest))

theorem IsRow.ne_nil {all : List Segment} {t : Text} (h : IsRow all t) : all ≠ [] := by
  cases h <;> exact List.cons_ne_nil _ _

theorem IsRow.isWellFormed {all : List Segment} {t : Text} (h : IsRow all t) :
    ∀ s ∈ all, s.IsWellFormed := by
  induction h with
  | last h => simpa using h
  | next h _ _ ih => exact List.forall_mem_cons.2 ⟨h, ih⟩

theorem angleStep_eq_none_iff {depth : Nat} {c : Char} :
    angleStep depth c = none ↔ c = '>' ∧ depth = 0 := by
  unfold angleStep
  split
  · rename_i hopen
    simp [hopen]
  · split
    · cases depth <;> simp_all
    · simp_all

/-- What a list is closed by is the first bracket that the count cannot follow. -/
theorem splitAtClosing_sound {depth : Nat} {s body after : Text}
    (h : splitAtClosing depth s = some (body, after)) :
    s = body ++ '>' :: after ∧ body.foldlM angleStep depth = some 0 := by
  induction s generalizing depth body with
  | nil => simp [splitAtClosing] at h
  | cons c rest ih =>
      cases hc : angleStep depth c with
      | none =>
          obtain ⟨rfl, rfl⟩ := angleStep_eq_none_iff.1 hc
          rw [splitAtClosing_zero_close] at h
          obtain ⟨rfl, rfl⟩ := Prod.mk.inj (Option.some.inj h)
          exact ⟨rfl, rfl⟩
      | some next =>
          rw [splitAtClosing_cons hc] at h
          obtain ⟨⟨inside, outside⟩, hsplit, heq⟩ := Option.map_eq_some_iff.1 h
          obtain ⟨rfl, rfl⟩ := Prod.mk.inj heq
          obtain ⟨hrest, hbody⟩ := ih hsplit
          refine ⟨congrArg (c :: ·) hrest, ?_⟩
          rw [List.foldlM_cons, hc]
          exact hbody

/-- A name that is read up to the first character which ends names, and closes no list, is clear of
brackets and colons. -/
theorem head_clean_of_kept {head : Text} (hends : ∀ c ∈ head, (!endsHead c) = true)
    (hclose : '>' ∉ head) : ∀ c ∈ head, c ≠ '<' ∧ c ≠ '>' ∧ c ≠ ':' := by
  intro c hc
  have hend := hends c hc
  simp only [endsHead, Bool.not_eq_true', Bool.or_eq_false_iff, decide_eq_false_iff_not] at hend
  refine ⟨hend.1, ?_, hend.2⟩
  rintro rfl
  exact hclose hc

/-- What is read as a segment is a segment that is written there. -/
theorem takeSegment_sound {t rest : Text} {s : Segment} (h : takeSegment t = some (s, rest)) :
    s.IsWellFormed ∧ ∃ blanks, Trails s blanks ∧ t = s.written ++ blanks ++ rest := by
  have ht : t.takeWhile (!endsHead ·) ++ t.dropWhile (!endsHead ·) = t :=
    List.takeWhile_append_dropWhile
  have hends : ∀ c ∈ t.takeWhile (!endsHead ·), (!endsHead c) = true :=
    List.all_eq_true.1 List.all_takeWhile
  unfold takeSegment at h
  dsimp only at h
  generalize t.takeWhile (!endsHead ·) = head at ht hends h
  generalize t.dropWhile (!endsHead ·) = tail at ht h
  split at h
  · cases h
  · rename_i hkept
    simp only [Bool.or_eq_true, not_or, List.isEmpty_iff, List.contains_eq_mem,
      decide_eq_true_eq] at hkept
    have hclean := head_clean_of_kept hends hkept.2
    split at h
    · obtain ⟨⟨body, after⟩, hsplit, heq⟩ := Option.map_eq_some_iff.1 h
      obtain ⟨rfl, rfl⟩ := Prod.mk.inj heq
      obtain ⟨rfl, hbody⟩ := splitAtClosing_sound hsplit
      refine ⟨⟨hclean, hkept.1, ?_⟩, after.takeWhile isBlank,
        ⟨Text.allBlank_takeWhile after, fun h => absurd h (Option.some_ne_none _)⟩, ?_⟩
      · intro body' h'
        obtain rfl := Option.some.inj h'
        exact hbody
      · have hafter : after.takeWhile isBlank ++ after.dropWhile isBlank = after :=
          List.takeWhile_append_dropWhile
        rw [List.append_assoc, hafter, ← ht]
        simp [Segment.written]
    · obtain ⟨rfl, rfl⟩ := Prod.mk.inj (Option.some.inj h)
      have hnone : ∀ body, (none : Option Text) = some body → body.foldlM angleStep 0 = some 0 :=
        fun body h => absurd h.symm (Option.some_ne_none body)
      refine ⟨⟨hclean, hkept.1, hnone⟩, [], ⟨Text.allBlank_nil, fun _ => rfl⟩, ?_⟩
      simpa [Segment.written] using ht.symm

/-- A segment, and blanks after its list, are taken off a text that goes on with a separator, or not
at all. -/
theorem takeSegment_trailed {s : Segment} (h : s.IsWellFormed) {blanks : Text}
    (hblanks : Trails s blanks) {t : Text} (ht : ∀ c, t.head? = some c → c = ':') :
    takeSegment (s.written ++ blanks ++ t) = some (s, t) := by
  cases hbody : s.body with
  | none =>
      rw [hblanks.eq_nil hbody, List.append_nil]
      exact takeSegment_written h ht
  | some body =>
      have hstart : t.dropWhile isBlank = t := by
        cases t with
        | nil => rfl
        | cons c rest =>
            obtain rfl : c = ':' := ht c rfl
            rfl
      have htake := takeSegment_of_list h (h.body_balanced body hbody) (blanks ++ t)
      rw [List.dropWhile_append_of_pos hblanks.allBlank, hstart, ← hbody] at htake
      unfold Segment.written
      rw [hbody]
      simpa using htake

theorem IsRow.segments?_eq {all : List Segment} {t : Text} (h : IsRow all t) :
    segments? t = some all := by
  induction h with
  | last h hblanks =>
      have htake := takeSegment_trailed h hblanks (t := []) (by simp)
      rw [List.append_nil] at htake
      exact segments?_last htake
  | next h hblanks _ ih =>
      rw [segments?_cons (takeSegment_trailed h hblanks (by simp)), ih]
      rfl

theorem isRow_of_segments? {all : List Segment} {t : Text} (h : segments? t = some all) :
    IsRow all t := by
  fun_induction segments? t generalizing all with
  | case1 => cases h
  | case2 t first hfirst =>
      obtain rfl := Option.some.inj h
      obtain ⟨hs, blanks, hblanks, rfl⟩ := takeSegment_sound hfirst
      rw [List.append_nil]
      exact .last hs hblanks
  | case3 t first rest hfirst ih =>
      obtain ⟨others, hothers, rfl⟩ := Option.map_eq_some_iff.1 h
      obtain ⟨hs, blanks, hblanks, rfl⟩ := takeSegment_sound hfirst
      exact .next hs hblanks (ih hothers)
  | case4 => cases h

/-- The segments of a text are those that it is a row of. -/
theorem segments?_eq_some_iff {all : List Segment} {t : Text} :
    segments? t = some all ↔ IsRow all t :=
  ⟨isRow_of_segments?, IsRow.segments?_eq⟩

/-- Segments with separators between them are read back one by one. -/
theorem segments?_written {all : List Segment} (hne : all ≠ [])
    (h : ∀ s ∈ all, s.IsWellFormed) :
    segments? ([':', ':'].intercalate (all.map Segment.written)) = some all := by
  apply IsRow.segments?_eq
  induction all with
  | nil => exact absurd rfl hne
  | cons s rest ih =>
      have hs : s.IsWellFormed := h s List.mem_cons_self
      have hnone : Trails s [] := ⟨Text.allBlank_nil, fun _ => rfl⟩
      by_cases hrest : rest = []
      · subst hrest
        have hrow := IsRow.last hs hnone
        rw [List.append_nil] at hrow
        rwa [List.map_singleton, List.intercalate_singleton]
      · have hrow := IsRow.next hs hnone
          (ih hrest fun t ht => h t (List.mem_cons_of_mem s ht))
        rw [List.append_nil, ← List.append_assoc] at hrow
        rwa [List.map_cons, List.intercalate_cons_of_ne_nil (by simpa using hrest)]

/-! ## Blanks around a row -/

/-- A blank is no character of the grammar. -/
theorem head_clean_of_allBlank {blanks : Text} (h : AllBlank blanks) :
    ∀ c ∈ blanks, c ≠ '<' ∧ c ≠ '>' ∧ c ≠ ':' := by
  intro c hc
  have hblank := h c hc
  refine ⟨?_, ?_, ?_⟩ <;> rintro rfl <;> cases hblank

/-- The head of a segment may have more blanks around it. -/
theorem Segment.IsWellFormed.surround {s : Segment} (h : s.IsWellFormed) {a b : Text}
    (ha : AllBlank a) (hb : AllBlank b) :
    Segment.IsWellFormed ⟨a ++ s.head ++ b, s.body⟩ where
  head_clean := by
    intro c hc
    rcases List.mem_append.1 hc with hc | hc
    · rcases List.mem_append.1 hc with hc | hc
      · exact head_clean_of_allBlank ha c hc
      · exact h.head_clean c hc
    · exact head_clean_of_allBlank hb c hc
  head_visible := by
    rw [Text.trim_surrounded ha hb]
    exact h.head_visible
  body_balanced := h.body_balanced

/-- Blanks before a row belong to the head of its first segment. -/
theorem IsRow.prepend {all : List Segment} {t : Text} (h : IsRow all t) {a : Text}
    (ha : AllBlank a) : ∃ all', IsRow all' (a ++ t) := by
  have hwritten (s : Segment) (t : Text) :
      a ++ (s.written ++ t) = Segment.written ⟨a ++ s.head ++ [], s.body⟩ ++ t := by
    unfold Segment.written
    cases s.body <;> simp
  cases h with
  | last h hblanks =>
      rw [hwritten]
      exact ⟨_, .last (h.surround ha Text.allBlank_nil) ⟨hblanks.allBlank, hblanks.eq_nil⟩⟩
  | next h hblanks hrest =>
      rw [List.append_assoc, hwritten, ← List.append_assoc]
      exact ⟨_, .next (h.surround ha Text.allBlank_nil) ⟨hblanks.allBlank, hblanks.eq_nil⟩ hrest⟩

/-- Blanks after a row belong to its last segment, or follow the list of that. -/
theorem IsRow.append {all : List Segment} {t : Text} (h : IsRow all t) {b : Text}
    (hb : AllBlank b) : ∃ all', IsRow all' (t ++ b) := by
  induction h with
  | @last s blanks h hblanks =>
      cases hbody : s.body with
      | none =>
          have hrow := IsRow.last (h.surround Text.allBlank_nil hb)
            ⟨Text.allBlank_nil, fun _ => rfl⟩
          have hwritten : Segment.written ⟨[] ++ s.head ++ b, s.body⟩ ++ []
              = s.written ++ blanks ++ b := by
            rw [hblanks.eq_nil hbody]
            simp [Segment.written, hbody]
          rw [hwritten] at hrow
          exact ⟨_, hrow⟩
      | some body =>
          rw [List.append_assoc]
          exact ⟨_, .last h ⟨hblanks.allBlank.append hb, by simp [hbody]⟩⟩
  | next h hblanks _ ih =>
      obtain ⟨all', hall⟩ := ih
      rw [List.append_assoc, List.append_assoc [':', ':']]
      exact ⟨_, .next h hblanks hall⟩

/-- A text that follows no grammar follows none when it is trimmed. -/
theorem segments?_trim_eq_none {t : Text} (h : segments? t = none) : segments? (trim t) = none := by
  cases hall : segments? (trim t) with
  | none => rfl
  | some all =>
      obtain ⟨a, b, ha, hb, ht⟩ := Text.exists_surrounded t
      obtain ⟨all₁, h₁⟩ := (segments?_eq_some_iff.1 hall).prepend ha
      obtain ⟨all₂, h₂⟩ := h₁.append hb
      rw [← ht] at h₂
      rw [h₂.segments?_eq] at h
      cases h

end RttiProbe.Class

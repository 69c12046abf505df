import RttiProbe.Proofs.Class.Canonical
import RttiProbe.Proofs.Class.Losses
/-!
# Normal forms

Whatever a text is read as, the class is written out in a form that is read as the same class again.
Tidying has left every bracket and comma at its depth, so the written class is a row of as many
segments as the text, with its scopes trimmed, and its list is cut into the arguments that it was
put together from; these are read again as they were before, by induction.
-/

set_option autoImplicit false

namespace RttiProbe.Class

open Text (trim isBlank AllBlank IsTrimmed)

/-! ## Scopes -/

namespace Segment

/-- The segment without the blanks around it. -/
def trimmed (s : Segment) : Segment :=
  match s.body with
  | none => ⟨trim s.head, none⟩
  | some body => ⟨Text.trimStart s.head, some body⟩

theorem written_trimmed {s : Segment} (h : s.IsWellFormed) : s.trimmed.written = s.text := by
  unfold trimmed text written
  cases s.body with
  | none => rfl
  | some body =>
      have hhead := mt Text.trim_eq_nil_iff.2 h.head_visible
      dsimp only
      rw [List.append_assoc, List.append_assoc, Text.trim_append hhead (by simp)]
      intro c hc
      rw [List.getLast?_concat] at hc
      obtain rfl := Option.some.inj hc
      rfl

theorem text_trimmed {s : Segment} (h : s.IsWellFormed) : s.trimmed.text = s.text := by
  rw [text_eq, written_trimmed h, text_eq, Text.trim_trim]

theorem IsWellFormed.trimmed {s : Segment} (h : s.IsWellFormed) : s.trimmed.IsWellFormed := by
  unfold Segment.trimmed
  cases hbody : s.body with
  | none =>
      refine ⟨fun c hc => h.head_clean c (Text.mem_of_mem_trim hc), ?_, nofun⟩
      show trim (trim s.head) ≠ []
      rw [Text.trim_trim]
      exact h.head_visible
  | some body =>
      obtain ⟨a, ha, hhead⟩ := Text.exists_blanks_append_trimStart s.head
      refine ⟨fun c hc => h.head_clean c ?_, ?_,
        fun body' h' => h.body_balanced body' (hbody.trans h')⟩
      · rw [hhead]
        exact List.mem_append_right a hc
      · have hvisible := h.head_visible
        have htrim := Text.trim_surrounded ha Text.allBlank_nil (Text.trimStart s.head)
        rw [List.append_nil, ← hhead] at htrim
        rwa [htrim] at hvisible

end Segment

/-! ## The class that is read -/

theorem isTrimmed_qualifiedName_parse (s : Text) : IsTrimmed (parse s).qualifiedName := by
  induction s using reading_induction with
  | whole s h =>
      rw [qualifiedName_parse_of_none h]
      exact Text.isTrimmed_trim s
  | row s scopes last h _ =>
      rw [qualifiedName_parse_of_row h]
      refine (isTrimmed_scopeText ?_).append
        ((Text.isTrimmed_trim last.head).append (isTrimmed_argumentText _))
      intro scope hscope
      obtain ⟨segment, -, rfl⟩ := List.mem_map.1 hscope
      rw [Segment.text_eq]
      exact Text.isTrimmed_trim segment.written

/-- A class that is read from a text with more than blanks is written with more than nothing. -/
theorem qualifiedName_parse_ne_nil {s : Text} (h : ¬ AllBlank s) :
    (parse s).qualifiedName ≠ [] := by
  induction s using reading_induction with
  | whole s hs =>
      rw [qualifiedName_parse_of_none hs]
      exact mt Text.trim_eq_nil_iff.1 h
  | row s scopes last hrow _ =>
      have hname : last.name ≠ [] := (hrow.isWellFormed last (by simp)).head_visible
      rw [qualifiedName_parse_of_row hrow]
      exact List.append_ne_nil_of_right_ne_nil _ (List.append_ne_nil_of_left_ne_nil hname _)

/-- A list is found again with the arguments written out that were read from it. -/
theorem splitArguments_parsed {body : Text} (hbody : ¬ body.all isBlank = true) :
    splitArguments ([',', ' '].intercalate
        ((splitArguments body).map fun a => (parse a).qualifiedName))
      = (splitArguments body).map fun a => (parse a).qualifiedName := by
  rw [splitArguments_of_not_blank hbody, List.map_map]
  apply splitArguments_of_cuts
  · refine (cuts_pieces 0 body).map fun p _ depth => ?_
    exact ((tidies_parse (trim p)).of_trim.foldlM_eq cutStep_ignoresBlanks depth).symm
  · intro a ha
    obtain ⟨p, -, rfl⟩ := List.mem_map.1 ha
    exact isTrimmed_qualifiedName_parse (trim p)
  · intro a ha
    -- the only piece of a list is the list itself
    obtain ⟨p, hp, rfl⟩ := List.map_eq_singleton_iff.1 ha
    have hlist := intercalate_pieces 0 body
    rw [hp, List.intercalate_singleton] at hlist
    subst hlist
    apply (isTrimmed_qualifiedName_parse (trim p)).not_allBlank
    apply qualifiedName_parse_ne_nil
    intro htrim
    rw [← Text.trim_eq_nil_iff, Text.trim_trim, Text.trim_eq_nil_iff] at htrim
    exact hbody (Text.all_isBlank_iff.2 htrim)

section Row

variable {s : Text} {scopes : List Segment} {last : Segment}

theorem name_parse (h : IsRow (scopes ++ [last]) s) : (parse s).name = last.name := by
  rw [parse_of_segments h.segments?_eq]

theorem namespaces_parse (h : IsRow (scopes ++ [last]) s) :
    (parse s).namespaces = scopes.map Segment.text := by
  rw [parse_of_segments h.segments?_eq]

theorem map_qualifiedName_arguments_parse (h : IsRow (scopes ++ [last]) s) :
    (parse s).arguments.map qualifiedName
      = last.arguments.map fun a => (parse a).qualifiedName := by
  rw [parse_of_segments h.segments?_eq, List.map_map]
  exact List.map_congr_left fun a _ => qualifiedName_mark (parse a) true

/-- The list of the written class is that of the text with its arguments written out, and there is
none if there are no arguments. -/
theorem body_ownSegment_parse (h : IsRow (scopes ++ [last]) s) :
    (ownSegment (parse s)).body = none ∧ last.arguments = []
      ∨ ∃ list, last.body = some list ∧ ¬ list.all isBlank = true
        ∧ (ownSegment (parse s)).body = some ([',', ' '].intercalate
          ((splitArguments list).map fun a => (parse a).qualifiedName)) := by
  have harguments := map_qualifiedName_arguments_parse h
  unfold ownSegment
  rw [harguments]
  by_cases hnone : last.arguments = []
  · rw [hnone, List.map_nil, List.map_eq_nil_iff] at harguments
    exact .inl ⟨if_pos (List.isEmpty_iff.2 harguments), hnone⟩
  · have hsome : ¬ (parse s).arguments.isEmpty = true := by
      intro hempty
      rw [List.isEmpty_iff.1 hempty] at harguments
      exact hnone (List.map_eq_nil_iff.1 harguments.symm)
    unfold Segment.arguments at hnone ⊢
    cases hbody : last.body with
    | none => simp [hbody] at hnone
    | some list =>
        simp only [hbody] at hnone ⊢
        refine .inr ⟨list, rfl, fun hblank => hnone (splitArguments_of_blank hblank), ?_⟩
        rw [if_neg hsome]

theorem arguments_ownSegment_parse (h : IsRow (scopes ++ [last]) s) :
    (ownSegment (parse s)).arguments = last.arguments.map fun a => (parse a).qualifiedName := by
  obtain ⟨hbody, hnone⟩ | ⟨list, hlist, hblank, hbody⟩ := body_ownSegment_parse h
  · rw [Segment.arguments, hbody, hnone]
    rfl
  · rw [Segment.arguments, hbody, Segment.arguments, hlist]
    exact splitArguments_parsed hblank

theorem isWellFormed_ownSegment_parse (h : IsRow (scopes ++ [last]) s) :
    (ownSegment (parse s)).IsWellFormed := by
  have hlast := h.isWellFormed last (by simp)
  have hhead : (ownSegment (parse s)).head = trim last.head := name_parse h
  refine ⟨?_, ?_, ?_⟩
  · intro c hc
    rw [hhead] at hc
    exact hlast.head_clean c (Text.mem_of_mem_trim hc)
  · rw [hhead, Text.trim_trim]
    exact hlast.head_visible
  · intro body hbody
    obtain ⟨hnone, -⟩ | ⟨list, hlist, hblank, hsome⟩ := body_ownSegment_parse h
    · rw [hnone] at hbody
      cases hbody
    · obtain rfl := Option.some.inj (hsome.symm.trans hbody)
      have htidies := tidies_list hblank fun a _ => tidies_parse a
      rw [← htidies.foldlM_eq angleStep_ignoresBlanks 0]
      exact hlast.body_balanced list hlist

/-- The written class has as many segments as the text. -/
theorem segments?_qualifiedName_parse (h : IsRow (scopes ++ [last]) s) :
    segments? (parse s).qualifiedName
      = some (scopes.map Segment.trimmed ++ [ownSegment (parse s)]) := by
  have hwell : ∀ scope ∈ scopes, scope.IsWellFormed := fun scope hscope =>
    h.isWellFormed scope (List.mem_append_left [last] hscope)
  refine segments?_qualifiedName ?_ (isWellFormed_ownSegment_parse h) ?_
  · intro scope hscope
    obtain ⟨segment, hsegment, rfl⟩ := List.mem_map.1 hscope
    exact (hwell segment hsegment).trimmed
  · rw [namespaces_parse h, List.map_map]
    exact List.map_congr_left fun scope hscope => Segment.written_trimmed (hwell scope hscope)

end Row

/-- Reading what a class was written as that has been read from a text gives that class again. -/
theorem parse_qualifiedName_parse (s : Text) : parse (parse s).qualifiedName = parse s := by
  induction s using reading_induction with
  | whole s h =>
      rw [qualifiedName_parse_of_none h, parse_of_none h, parse_of_none (segments?_trim_eq_none h),
        Text.trim_trim]
  | row s scopes last h ih =>
      have hwell : ∀ scope ∈ scopes, scope.IsWellFormed := fun scope hscope =>
        h.isWellFormed scope (List.mem_append_left [last] hscope)
      have hname : (ownSegment (parse s)).name = last.name := by
        show trim (parse s).name = last.name
        rw [name_parse h]
        exact Text.trim_trim last.head
      have hscopes : (scopes.map Segment.trimmed).map Segment.text = scopes.map Segment.text := by
        rw [List.map_map]
        exact List.map_congr_left fun scope hscope => Segment.text_trimmed (hwell scope hscope)
      have harguments : (last.arguments.map fun a => (parse a).qualifiedName).map
            (fun a => { parse a with isArgument := true })
          = last.arguments.map fun a => { parse a with isArgument := true } := by
        rw [List.map_map]
        apply List.map_congr_left
        intro a ha
        show { parse (parse a).qualifiedName with isArgument := true } = _
        rw [ih a ha]
      rw [parse_of_segments (segments?_qualifiedName_parse h), arguments_ownSegment_parse h, hname,
        hscopes, harguments, parse_of_segments h.segments?_eq]

end RttiProbe.Class

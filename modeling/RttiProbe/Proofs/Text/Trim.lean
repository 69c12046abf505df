import RttiProbe.Text.Blank
/-!
# Trimmed texts

A text is trimmed if no blank stands at either end of it, and trimming leaves exactly such a text
alone.  Trimmed texts can be put together from trimmed parts.
-/

set_option autoImplicit false

namespace RttiProbe.Text

/-- No blank stands at either end of the text. -/
structure IsTrimmed (s : Text) : Prop where
  /-- it does not start with a blank -/
  start : ∀ c, s.head? = some c → isBlank c = false
  /-- it does not end in a blank -/
  finish : ∀ c, s.getLast? = some c → isBlank c = false

/-! ## Trimming -/

theorem trimStart_eq_self {s : Text} (h : ∀ c, s.head? = some c → isBlank c = false) :
    trimStart s = s := by
  unfold trimStart
  cases s with
  | nil => rfl
  | cons c rest =>
      have hc : isBlank c = false := h c rfl
      rw [List.dropWhile_cons, hc, if_neg Bool.false_ne_true]

theorem trimEnd_eq_self {s : Text} (h : ∀ c, s.getLast? = some c → isBlank c = false) :
    trimEnd s = s := by
  have hreverse : trimStart s.reverse = s.reverse := by
    apply trimStart_eq_self
    intro c hc
    rw [List.head?_reverse] at hc
    exact h c hc
  unfold trimEnd
  unfold trimStart at hreverse
  rw [hreverse, List.reverse_reverse]

theorem IsTrimmed.trim_eq {s : Text} (h : IsTrimmed s) : trim s = s := by
  unfold trim
  rw [trimStart_eq_self h.start, trimEnd_eq_self h.finish]

/-- A blank in front of a text is trimmed off. -/
theorem trim_cons_of_isBlank {c : Char} (hc : isBlank c = true) (s : Text) :
    trim (c :: s) = trim s := by
  unfold trim trimStart
  rw [List.dropWhile_cons, if_pos hc]

/-! ## Parts -/

theorem isTrimmed_nil : IsTrimmed [] := by
  constructor <;> intro c h <;> cases h

theorem IsTrimmed.append {a b : Text} (ha : IsTrimmed a) (hb : IsTrimmed b) :
    IsTrimmed (a ++ b) := by
  constructor
  · intro c h
    rw [List.head?_append, Option.or_eq_some_iff] at h
    rcases h with h | ⟨-, h⟩
    · exact ha.start c h
    · exact hb.start c h
  · intro c h
    rw [List.getLast?_append, Option.or_eq_some_iff] at h
    rcases h with h | ⟨-, h⟩
    · exact hb.finish c h
    · exact ha.finish c h

theorem isTrimmed_of_forall {s : Text} (h : ∀ c ∈ s, isBlank c = false) : IsTrimmed s :=
  ⟨fun c hc => h c (List.mem_of_mem_head? hc), fun c hc => h c (List.mem_of_mem_getLast? hc)⟩

/-- What stands between two characters has no say in whether the whole is trimmed. -/
theorem isTrimmed_enclosed {first last : Char} (hfirst : isBlank first = false)
    (hlast : isBlank last = false) (s : Text) : IsTrimmed (first :: s ++ [last]) := by
  constructor
  · intro c h
    cases h
    exact hfirst
  · intro c h
    rw [List.getLast?_append] at h
    cases h
    exact hlast

/-! ## Blanks around a text -/

/-- The text holds nothing but blanks. -/
def AllBlank (s : Text) : Prop := ∀ c ∈ s, isBlank c = true

theorem all_isBlank_iff {s : Text} : s.all isBlank = true ↔ AllBlank s := List.all_eq_true

theorem not_allBlank_iff {s : Text} : ¬ AllBlank s ↔ ∃ c ∈ s, isBlank c = false := by
  rw [← all_isBlank_iff, Bool.not_eq_true, List.all_eq_false]
  simp only [Bool.not_eq_true]

theorem allBlank_nil : AllBlank [] := by
  intro c hc
  cases hc

theorem allBlank_takeWhile (s : Text) : AllBlank (s.takeWhile isBlank) :=
  all_isBlank_iff.1 List.all_takeWhile

theorem AllBlank.append {a b : Text} (ha : AllBlank a) (hb : AllBlank b) : AllBlank (a ++ b) := by
  intro c hc
  rcases List.mem_append.1 hc with hc | hc
  · exact ha c hc
  · exact hb c hc

theorem trimStart_append {a : Text} (ha : AllBlank a) (s : Text) :
    trimStart (a ++ s) = trimStart s :=
  List.dropWhile_append_of_pos ha

theorem trimEnd_append {b : Text} (hb : AllBlank b) (s : Text) : trimEnd (s ++ b) = trimEnd s := by
  have hreverse : ∀ c ∈ b.reverse, isBlank c = true := by
    intro c hc
    exact hb c (List.mem_reverse.1 hc)
  unfold trimEnd
  rw [List.reverse_append, List.dropWhile_append_of_pos hreverse]

/-- Blanks around a trimmed text are all that is trimmed off. -/
theorem IsTrimmed.trim_surrounded {a m b : Text} (hm : IsTrimmed m) (ha : AllBlank a)
    (hb : AllBlank b) : trim (a ++ m ++ b) = m := by
  unfold trim
  rw [List.append_assoc, trimStart_append ha]
  cases m with
  | nil =>
      have hstart : trimStart b = [] := by
        have := trimStart_append hb []
        rwa [List.append_nil] at this
      rw [List.nil_append, hstart]
      rfl
  | cons c rest =>
      have hstart : trimStart (c :: rest ++ b) = c :: rest ++ b :=
        trimStart_eq_self hm.start
      rw [hstart, trimEnd_append hb, trimEnd_eq_self hm.finish]

/-! ## What trimming leaves -/

/-- The text without the blanks at its start, and these blanks. -/
theorem exists_blanks_append_trimStart (s : Text) :
    ∃ a, AllBlank a ∧ s = a ++ trimStart s :=
  ⟨s.takeWhile isBlank, allBlank_takeWhile s, List.takeWhile_append_dropWhile.symm⟩

/-- The text without the blanks at its end, and these blanks. -/
theorem exists_trimEnd_append_blanks (s : Text) : ∃ b, AllBlank b ∧ s = trimEnd s ++ b := by
  obtain ⟨a, ha, hs⟩ := exists_blanks_append_trimStart s.reverse
  refine ⟨a.reverse, fun c hc => ha c (List.mem_reverse.1 hc), ?_⟩
  have hreverse := congrArg List.reverse hs
  rwa [List.reverse_reverse, List.reverse_append] at hreverse

theorem head?_trimStart {s : Text} {c : Char} (h : (trimStart s).head? = some c) :
    isBlank c = false := by
  have hfirst := List.head?_dropWhile_not isBlank s
  unfold trimStart at h
  rw [h] at hfirst
  exact hfirst

theorem getLast?_trimEnd {s : Text} {c : Char} (h : (trimEnd s).getLast? = some c) :
    isBlank c = false := by
  unfold trimEnd at h
  rw [List.getLast?_reverse] at h
  exact head?_trimStart h

theorem isTrimmed_trim (s : Text) : IsTrimmed (trim s) := by
  constructor
  · intro c hc
    obtain ⟨b, -, hstart⟩ := exists_trimEnd_append_blanks (trimStart s)
    apply head?_trimStart (s := s)
    rw [hstart, List.head?_append, Option.or_eq_some_iff]
    exact .inl hc
  · intro c hc
    exact getLast?_trimEnd hc

/-- A text is what trimming leaves of it, with blanks around that. -/
theorem exists_surrounded (s : Text) :
    ∃ a b, AllBlank a ∧ AllBlank b ∧ s = a ++ trim s ++ b := by
  obtain ⟨a, ha, hs⟩ := exists_blanks_append_trimStart s
  obtain ⟨b, hb, hstart⟩ := exists_trimEnd_append_blanks (trimStart s)
  refine ⟨a, b, ha, hb, ?_⟩
  rw [List.append_assoc]
  exact hs.trans (congrArg (a ++ ·) hstart)

theorem mem_of_mem_trim {s : Text} {c : Char} (hc : c ∈ trim s) : c ∈ s := by
  obtain ⟨a, b, -, -, hs⟩ := exists_surrounded s
  rw [hs]
  exact List.mem_append_left b (List.mem_append_right a hc)

theorem trim_trim (s : Text) : trim (trim s) = trim s := (isTrimmed_trim s).trim_eq

/-- Further blanks around a text make no difference to what trimming leaves. -/
theorem trim_surrounded {a b : Text} (ha : AllBlank a) (hb : AllBlank b) (s : Text) :
    trim (a ++ s ++ b) = trim s := by
  obtain ⟨a', b', ha', hb', hs⟩ := exists_surrounded s
  have hall : a ++ s ++ b = (a ++ a') ++ trim s ++ (b' ++ b) := by
    conv => lhs; rw [hs]
    simp only [List.append_assoc]
  rw [hall]
  exact (isTrimmed_trim s).trim_surrounded (ha.append ha') (hb'.append hb)

/-- Trimming leaves nothing of blanks only. -/
theorem trim_eq_nil_iff {s : Text} : trim s = [] ↔ AllBlank s := by
  constructor
  · intro h
    obtain ⟨a, b, ha, hb, hs⟩ := exists_surrounded s
    rw [hs, h, List.append_nil]
    exact ha.append hb
  · intro h
    have := isTrimmed_nil.trim_surrounded h allBlank_nil
    rwa [List.append_nil, List.append_nil] at this

theorem IsTrimmed.not_allBlank {s : Text} (hs : IsTrimmed s) (hne : s ≠ []) : ¬ AllBlank s := by
  intro h
  exact hne (hs.trim_eq ▸ trim_eq_nil_iff.2 h)

/-- What stands before a text that ends in no blank is trimmed at its start only. -/
theorem trim_append {a b : Text} (ha : ¬ AllBlank a) (hb : b ≠ [])
    (hfinish : ∀ c, b.getLast? = some c → isBlank c = false) :
    trim (a ++ b) = trimStart a ++ b := by
  have hstart : trimStart (a ++ b) = trimStart a ++ b := by
    have hne : ¬ (trimStart a).isEmpty = true := by
      intro h
      obtain ⟨a', ha', hs⟩ := exists_blanks_append_trimStart a
      rw [List.isEmpty_iff.1 h, List.append_nil] at hs
      exact ha (hs ▸ ha')
    unfold trimStart at hne ⊢
    rw [List.dropWhile_append, if_neg hne]
  unfold trim
  rw [hstart]
  apply trimEnd_eq_self
  intro c hc
  rw [List.getLast?_append, Option.or_eq_some_iff] at hc
  rcases hc with hc | ⟨hnone, -⟩
  · exact hfinish c hc
  · exact absurd (List.getLast?_eq_none_iff.1 hnone) hb

end RttiProbe.Text

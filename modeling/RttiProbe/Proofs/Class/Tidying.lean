import Mathlib.Algebra.GroupWithZero.Nat
import RttiProbe.Proofs.Class.Segments
/-!
# Tidied texts

Reading a class name and writing the class out again tidies the text: blanks are left out or put in,
and lists that hold nothing but blanks are left out, brackets and all.  Neither scan of brackets can
tell a text from a tidied one, so every comma and every bracket of it stays at its depth.  Apart
from blanks, what a text has lost are the two brackets of each list left out.
-/

set_option autoImplicit false

namespace RttiProbe

/-- What can be seen of a text: all of it but the blanks. -/
def Text.visible (s : Text) : Text := s.filter (!isBlank ·)

theorem Text.visible_cons_of_isBlank {c : Char} (hc : isBlank c = true) (s : Text) :
    visible (c :: s) = visible s :=
  List.filter_cons_of_neg (by simp [hc])

theorem Text.visible_cons_of_not_isBlank {c : Char} (hc : isBlank c = false) (s : Text) :
    visible (c :: s) = c :: visible s :=
  List.filter_cons_of_pos (by simp [hc])

theorem Text.visible_append (a b : Text) : visible (a ++ b) = visible a ++ visible b :=
  List.filter_append a b

theorem Text.AllBlank.visible_eq_nil {s : Text} (h : AllBlank s) : visible s = [] :=
  List.filter_eq_nil_iff.2 fun c hc => by simp [h c hc]

/-- Of a list without arguments only the brackets can be seen. -/
theorem Text.visible_emptyList {blanks : Text} (h : AllBlank blanks) (s : Text) :
    visible ('<' :: (blanks ++ '>' :: s)) = '<' :: '>' :: visible s := by
  rw [visible_cons_of_not_isBlank (by decide), visible_append, h.visible_eq_nil,
    visible_cons_of_not_isBlank (by decide), List.nil_append]

namespace Class

open Text (trim isBlank AllBlank visible)

/-! ## Scans that ignore blanks -/

/-- A scan goes over a blank, and over a list without arguments, as if it were not there. -/
structure IgnoresBlanks {State : Type} (step : State → Char → Option State) : Prop where
  blank : ∀ state c, isBlank c = true → step state c = some state
  list : ∀ state, (step state '<').bind (step · '>') = some state

theorem not_mem_marks_of_isBlank {c : Char} (hc : isBlank c = true) : c ∉ marks := by
  intro hmark
  have hvisible : (marks.all fun d => !isBlank d) = true := by decide
  have hmark := List.all_eq_true.1 hvisible c hmark
  rw [hc] at hmark
  cases hmark

theorem angleStep_ignoresBlanks : IgnoresBlanks angleStep where
  blank := fun depth c hc => angleStep_countsBrackets.other depth c (not_mem_marks_of_isBlank hc)
  list := fun _ => rfl

theorem cutStep_ignoresBlanks : IgnoresBlanks cutStep where
  blank := by
    intro depth c hc
    have hmark := not_mem_marks_of_isBlank hc
    have hcomma : c ≠ ',' := fun h => hmark (by rw [h]; decide)
    unfold cutStep
    rw [if_neg fun h => hcomma h.1, bracketStep_of_not_mem_marks hmark, Int.add_zero]
  list := by
    intro depth
    show some (depth + 1 + -1) = some depth
    rw [Int.add_neg_cancel_right]

section Ignoring

variable {State : Type} {step : State → Char → Option State}

theorem IgnoresBlanks.foldlM_allBlank (h : IgnoresBlanks step) {blanks : Text}
    (hblanks : AllBlank blanks) (state : State) : blanks.foldlM step state = some state := by
  induction blanks with
  | nil => rfl
  | cons c rest ih =>
      rw [List.foldlM_cons, h.blank state c (hblanks c List.mem_cons_self)]
      exact ih fun d hd => hblanks d (List.mem_cons_of_mem c hd)

theorem IgnoresBlanks.foldlM_emptyList (h : IgnoresBlanks step) {blanks : Text}
    (hblanks : AllBlank blanks) (s : Text) (state : State) :
    ('<' :: (blanks ++ '>' :: s)).foldlM step state = s.foldlM step state := by
  obtain ⟨inside, hopen, hclose⟩ := Option.bind_eq_some_iff.1 (h.list state)
  rw [List.foldlM_cons, hopen]
  show (blanks ++ '>' :: s).foldlM step inside = _
  rw [List.foldlM_append, h.foldlM_allBlank hblanks]
  show ('>' :: s).foldlM step inside = _
  rw [List.foldlM_cons, hclose]
  rfl

end Ignoring

/-! ## Tidying -/

/-- The second text is the first one tidied: with blanks left out or put in, and with `lost` blank
lists left out. -/
inductive Tidies : (lost : Nat) → Text → Text → Prop where
  | nil : Tidies 0 [] []
  | keep {lost : Nat} {s t : Text} (c : Char) (h : Tidies lost s t) : Tidies lost (c :: s) (c :: t)
  /-- a blank is left out -/
  | drop {lost : Nat} {s t : Text} {c : Char} (hc : isBlank c = true) (h : Tidies lost s t) :
      Tidies lost (c :: s) t
  /-- a blank is put in -/
  | insert {lost : Nat} {s t : Text} {c : Char} (hc : isBlank c = true) (h : Tidies lost s t) :
      Tidies lost s (c :: t)
  /-- a list without arguments is left out -/
  | dropList {lost : Nat} {s t blanks : Text} (hblanks : AllBlank blanks) (h : Tidies lost s t) :
      Tidies (lost + 1) ('<' :: (blanks ++ '>' :: s)) t

namespace Tidies

theorem refl (s : Text) : Tidies 0 s s := by
  induction s with
  | nil => exact nil
  | cons c rest ih => exact ih.keep c

/-- Parts can be tidied apart from one another. -/
theorem append {lost lost' : Nat} {a b s t : Text} (hab : Tidies lost a b)
    (hst : Tidies lost' s t) : Tidies (lost + lost') (a ++ s) (b ++ t) := by
  induction hab with
  | nil => simpa using hst
  | keep c _ ih => exact ih.keep c
  | drop hc _ ih => exact ih.drop hc
  | insert hc _ ih => exact ih.insert hc
  | @dropList lost _ _ _ hblanks _ ih =>
      rw [Nat.add_right_comm, List.cons_append, List.append_assoc]
      exact ih.dropList hblanks

theorem of_allBlank {s : Text} (hs : AllBlank s) : Tidies 0 s [] := by
  induction s with
  | nil => exact nil
  | cons c rest ih =>
      exact (ih fun d hd => hs d (List.mem_cons_of_mem c hd)).drop (hs c List.mem_cons_self)

/-- A text may be trimmed before it is tidied. -/
theorem of_trim {lost : Nat} {s t : Text} (h : Tidies lost (trim s) t) : Tidies lost s t := by
  obtain ⟨a, b, ha, hb, hs⟩ := Text.exists_surrounded s
  have hall := ((of_allBlank ha).append h).append (of_allBlank hb)
  rw [← hs] at hall
  simpa using hall

theorem trimmed (s : Text) : Tidies 0 s (trim s) := of_trim (refl (trim s))

/-- A row of texts with commas between them is tidied by tidying each text and putting a blank after
each comma. -/
theorem intercalate {lost : Text → Nat} {tidy : Text → Text} {row : List Text}
    (h : ∀ s ∈ row, Tidies (lost s) s (tidy s)) :
    Tidies (row.map lost).sum ([','].intercalate row) ([',', ' '].intercalate (row.map tidy)) := by
  induction row with
  | nil => exact nil
  | cons s rest ih =>
      have hs := h s List.mem_cons_self
      have hrest := ih fun t ht => h t (List.mem_cons_of_mem s ht)
      by_cases hne : rest = []
      · subst hne
        simpa using hs
      · have hseparator : Tidies 0 [','] [',', ' '] := keep ',' (nil.insert (by decide))
        rw [List.map_cons, List.map_cons, List.sum_cons, List.intercalate_cons_of_ne_nil hne,
          List.intercalate_cons_of_ne_nil (by simpa using hne)]
        exact (hs.append hseparator).append hrest

/-! ## What can be seen -/

/-- What is left out is never put in elsewhere. -/
theorem visible_sublist {lost : Nat} {s t : Text} (h : Tidies lost s t) :
    (visible t).Sublist (visible s) := by
  induction h with
  | nil => exact List.Sublist.refl _
  | keep c _ ih =>
      cases hc : isBlank c with
      | true =>
          rw [Text.visible_cons_of_isBlank hc, Text.visible_cons_of_isBlank hc]
          exact ih
      | false =>
          rw [Text.visible_cons_of_not_isBlank hc, Text.visible_cons_of_not_isBlank hc]
          exact ih.cons_cons c
  | drop hc _ ih =>
      rw [Text.visible_cons_of_isBlank hc]
      exact ih
  | insert hc _ ih =>
      rw [Text.visible_cons_of_isBlank hc]
      exact ih
  | dropList hblanks _ ih =>
      rw [Text.visible_emptyList hblanks]
      exact (ih.cons '>').cons '<'

/-- Each list left out takes its two brackets along. -/
theorem length_visible {lost : Nat} {s t : Text} (h : Tidies lost s t) :
    (visible s).length = (visible t).length + 2 * lost := by
  induction h with
  | nil => rfl
  | keep c _ ih =>
      cases hc : isBlank c with
      | true =>
          rw [Text.visible_cons_of_isBlank hc, Text.visible_cons_of_isBlank hc]
          exact ih
      | false =>
          rw [Text.visible_cons_of_not_isBlank hc, Text.visible_cons_of_not_isBlank hc,
            List.length_cons, List.length_cons, ih]
          omega
  | drop hc _ ih =>
      rw [Text.visible_cons_of_isBlank hc]
      exact ih
  | insert hc _ ih =>
      rw [Text.visible_cons_of_isBlank hc]
      exact ih
  | dropList hblanks _ ih =>
      rw [Text.visible_emptyList hblanks, List.length_cons, List.length_cons, ih]
      omega

/-- A tidied text differs from the text in blanks only if no list has been left out. -/
theorem visible_eq_iff {lost : Nat} {s t : Text} (h : Tidies lost s t) :
    visible t = visible s ↔ lost = 0 := by
  have hlength := h.length_visible
  constructor
  · intro heq
    rw [heq] at hlength
    omega
  · rintro rfl
    exact h.visible_sublist.eq_of_length hlength.symm

/-- A scan goes over a tidied text as over the text itself. -/
theorem foldlM_eq {State : Type} {step : State → Char → Option State} (hstep : IgnoresBlanks step)
    {lost : Nat} {s t : Text} (h : Tidies lost s t) (state : State) :
    s.foldlM step state = t.foldlM step state := by
  induction h generalizing state with
  | nil => rfl
  | keep c _ ih =>
      rw [List.foldlM_cons, List.foldlM_cons]
      exact congrArg _ (funext ih)
  | drop hc _ ih =>
      rw [List.foldlM_cons, hstep.blank state _ hc]
      exact ih state
  | insert hc _ ih =>
      rw [List.foldlM_cons, hstep.blank state _ hc]
      exact ih state
  | dropList hblanks _ ih =>
      rw [hstep.foldlM_emptyList hblanks]
      exact ih state

end Tidies

end Class

end RttiProbe

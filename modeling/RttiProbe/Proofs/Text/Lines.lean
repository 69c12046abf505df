import RttiProbe.Text.Blank
/-!
# Texts made of lines

A text cut at its line breaks, when it was put together from lines that end with one each: what is
read line by line is what was printed.  Here and elsewhere a text is taken up to the first character
of a kind, and that is what stands in front of it.
-/

set_option autoImplicit false

namespace RttiProbe.Text

/-- A text is taken up to the first time that a character comes. -/
theorem takeWhile_ne_append_cons {α : Type} [DecidableEq α] {a : α} {before : List α}
    (h : a ∉ before) (rest : List α) : (before ++ a :: rest).takeWhile (· ≠ a) = before := by
  have hbefore : ∀ b ∈ before, decide (b ≠ a) = true :=
    fun b hb => decide_eq_true fun heq => h (heq ▸ hb)
  rw [List.takeWhile_append_of_pos hbefore, List.takeWhile_cons, if_neg (by simp),
    List.append_nil]

/-- A text is left from the first time on that a character comes. -/
theorem dropWhile_ne_append_cons {α : Type} [DecidableEq α] {a : α} {before : List α}
    (h : a ∉ before) (rest : List α) : (before ++ a :: rest).dropWhile (· ≠ a) = a :: rest := by
  have hbefore : ∀ b ∈ before, decide (b ≠ a) = true :=
    fun b hb => decide_eq_true fun heq => h (heq ▸ hb)
  rw [List.dropWhile_append_of_pos hbefore, List.dropWhile_cons, if_neg (by simp)]

theorem splitOn_append_of_not_mem {a : Text} {c : Char} (h : c ∉ a) (b : Text) :
    (a ++ b).splitOn c = (b.splitOn c).modifyHead (a ++ ·) := by
  induction a with
  | nil =>
      rw [List.nil_append]
      cases b.splitOn c <;> rfl
  | cons first rest ih =>
      obtain ⟨hfirst, hrest⟩ := not_or.1 (mt List.mem_cons.2 h)
      rw [List.cons_append, List.splitOn_cons_eq_if_modifyHead, ih hrest,
        if_neg (by simpa using Ne.symm hfirst)]
      cases b.splitOn c <;> rfl

/-- Lines printed one after another are read one after another. -/
theorem splitOn_flatMap_newline (printed : List Text) (rest : Text) :
    (printed.flatMap (· ++ ['\n']) ++ rest).splitOn '\n'
      = printed.flatMap (·.splitOn '\n') ++ rest.splitOn '\n' := by
  induction printed with
  | nil => rfl
  | cons line others ih =>
      rw [List.flatMap_cons, List.flatMap_cons, List.append_assoc, List.append_assoc,
        List.append_assoc, ← ih]
      exact List.splitOn_append_cons_self line _

/-- A line without a break in it is read as it is printed. -/
theorem flatMap_splitOn_newline {printed : List Text} (h : ∀ line ∈ printed, '\n' ∉ line) :
    printed.flatMap (·.splitOn '\n') = printed := by
  induction printed with
  | nil => rfl
  | cons line others ih =>
      obtain ⟨hline, hothers⟩ := List.forall_mem_cons.1 h
      rw [List.flatMap_cons, List.splitOn_eq_singleton hline, ih hothers, List.singleton_append]

end RttiProbe.Text

import RttiProbe.Header.Render
/-!
# Directives of headers

A header has instructions to the preprocessor before its declaration: its guard, and one line for
the header of each direct base of its class.
-/

set_option autoImplicit false

namespace RttiProbe.Header

/-- The line that includes the header at a path. -/
def includeLine (p : Path) : Text := "#include <".toList ++ p.text ++ ['>']

/-- Whether a line is an instruction to the preprocessor. -/
def isDirective (line : Text) : Bool := line.head? = some '#'

theorem isDirective_indent_append {line : Text} (h : isDirective line = false) (depth : Nat) :
    isDirective (indent depth ++ line) = false := by
  cases depth with
  | zero => exact h
  | succ depth => rfl

theorem isDirective_of_mem_openingLines {line : Text} {around : List (Option (List Text))}
    {depth : Nat} (h : line ∈ openingLines depth around) : isDirective line = false := by
  induction around generalizing depth with
  | nil => exact absurd h List.not_mem_nil
  | cons block inner ih =>
      rcases List.mem_cons.1 h with rfl | h
      · refine isDirective_indent_append ?_ depth
        cases block <;> rfl
      · rcases List.mem_cons.1 h with rfl | h
        · exact isDirective_indent_append rfl depth
        · exact ih h

/-- The lines of the declaration itself. -/
def bodyLines (tab : Text) (c : Class) : List Text :=
  templateLines tab c ++ [classLine tab c, tab ++ ['\x7b'], [], tab ++ "\x7d;".toList]

theorem eq_of_mem_templateLines {tab line : Text} {c : Class} (h : line ∈ templateLines tab c) :
    line = tab ++ ("template<".toList
      ++ ([',', ' '].intercalate (templateParameters c.arguments.length) ++ ['>'])) := by
  unfold templateLines at h
  split at h
  · exact absurd h List.not_mem_nil
  · rw [List.mem_singleton.1 h]
    simp only [List.append_assoc]

theorem eq_of_mem_includeLines {line : Text} {c : Class} (h : line ∈ includeLines c) :
    line = [] ∨ ∃ base ∈ c.bases, line = includeLine (path base) := by
  unfold includeLines at h
  split at h
  · exact absurd h List.not_mem_nil
  · rcases List.mem_append.1 h with hinclude | hblank
    · obtain ⟨base, hbase, rfl⟩ := List.mem_map.1 hinclude
      exact .inr ⟨base, hbase, rfl⟩
    · exact .inl (List.mem_singleton.1 hblank)

theorem isDirective_of_mem_bodyLines {line : Text} {depth : Nat} {c : Class}
    (h : line ∈ bodyLines (indent depth) c) : isDirective line = false := by
  unfold bodyLines classLine at h
  rcases List.mem_append.1 h with h | h
  · rw [eq_of_mem_templateLines h]
    exact isDirective_indent_append rfl depth
  · simp only [List.mem_cons, List.not_mem_nil, or_false] at h
    rcases h with rfl | rfl | rfl | rfl
    · rw [List.append_assoc, List.append_assoc]
      exact isDirective_indent_append rfl depth
    · exact isDirective_indent_append rfl depth
    · rfl
    · exact isDirective_indent_append rfl depth

end RttiProbe.Header

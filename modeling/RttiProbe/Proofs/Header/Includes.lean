import RttiProbe.Proofs.Header.Directives
import RttiProbe.Proofs.Header.Identifiers
import RttiProbe.Proofs.Header.Location
import RttiProbe.Proofs.Text.Lines
/-!
# What headers include

The text of a header read for the headers that it includes.  They are named at its top, each between
angle brackets, and the reading ends with the first line that is neither blank nor an instruction to
the preprocessor: below that line the arguments of templates are spelled as they are, and may hold
anything.  A path has no closing bracket in it, so it is read as it was printed, line breaks and
all.
-/

set_option autoImplicit false

namespace RttiProbe.Header

/-! ## Reading -/

/-- What a text goes on with after its first line. -/
def afterLine (text : Text) : Text := (text.dropWhile (· ≠ '\n')).drop 1

theorem length_afterLine_le (text : Text) : (afterLine text).length ≤ text.length := by
  unfold afterLine
  rw [List.length_drop]
  exact Nat.le_trans (Nat.sub_le _ 1) (List.dropWhile_suffix _).length_le

/-- What an instruction to include a header starts with, after the `#`. -/
def includeWord : Text := "include <".toList

/-- The paths that a text includes at its top, in order. -/
def includes : Text → List Path
  | [] => []
  | c :: rest =>
    if c = '\n' then includes rest
    else if c = '#' then
      if includeWord.isPrefixOf rest then
        let inside := rest.drop includeWord.length
        ⟨inside.takeWhile (· ≠ '>')⟩ :: includes (afterLine (inside.dropWhile (· ≠ '>')))
      else includes (afterLine rest)
    else []
termination_by text => text.length
decreasing_by
  · exact Nat.lt_succ_self _
  · refine Nat.lt_succ_of_le (Nat.le_trans (length_afterLine_le _) ?_)
    exact Nat.le_trans (List.dropWhile_suffix _).length_le (List.drop_suffix _ _).length_le
  · exact Nat.lt_succ_of_le (length_afterLine_le _)

theorem includes_newline (rest : Text) : includes ('\n' :: rest) = includes rest := by
  rw [includes, if_pos rfl]

/-- The reading ends where something else is said. -/
theorem includes_of_other {c : Char} (hbreak : c ≠ '\n') (hmark : c ≠ '#') (rest : Text) :
    includes (c :: rest) = [] := by
  rw [includes, if_neg hbreak, if_neg hmark]

/-- The guard of a header includes nothing. -/
theorem includes_guard (rest : Text) :
    includes ("#pragma once".toList ++ '\n' :: rest) = includes rest := by
  show includes ('#' :: ("pragma once".toList ++ '\n' :: rest)) = _
  have hother : includeWord.isPrefixOf ("pragma once".toList ++ '\n' :: rest) = false := rfl
  rw [includes, if_neg (by decide), if_pos rfl, hother, if_neg Bool.false_ne_true]
  rfl

/-- An instruction to include a header names its path. -/
theorem includes_includeLine {p : Path} (h : '>' ∉ p.text) (rest : Text) :
    includes (includeLine p ++ '\n' :: rest) = p :: includes rest := by
  have hline : includeLine p ++ '\n' :: rest
      = '#' :: (includeWord ++ (p.text ++ '>' :: '\n' :: rest)) := by
    unfold includeLine
    rw [List.append_assoc, List.append_assoc]
    rfl
  have hword : includeWord.isPrefixOf (includeWord ++ (p.text ++ '>' :: '\n' :: rest)) = true :=
    List.isPrefixOf_iff_prefix.2 (List.prefix_append _ _)
  rw [hline, includes, if_neg (by decide), if_pos rfl, hword, if_pos rfl, List.drop_left]
  dsimp only
  rw [Text.takeWhile_ne_append_cons h, Text.dropWhile_ne_append_cons h]
  rfl

/-! ## The top of a header -/

/-- No path of a header closes an angle bracket. -/
theorem bracket_not_mem_path (c : Class) : '>' ∉ (path c).text := by
  have hsanitize (name : Text) : '>' ∉ sanitize name :=
    not_mem_sanitize (by decide) (by decide) name
  rw [path_eq_foldl]
  refine Path.not_mem_text_foldl_push List.not_mem_nil (fun name hname => ?_) (by decide)
  rcases mem_pathNames.1 hname with ⟨scope, -, rfl⟩ | rfl
  · exact hsanitize scope
  · unfold fileName
    simp [hsanitize]

theorem includes_includeLines (c : Class) (rest : Text) :
    includes ((includeLines c).flatMap (· ++ ['\n']) ++ rest)
      = c.bases.map path ++ includes rest := by
  have hbases (bases : List Class) (rest : Text) :
      includes ((bases.map fun base => includeLine (path base)).flatMap (· ++ ['\n']) ++ rest)
        = bases.map path ++ includes rest := by
    induction bases with
    | nil => rfl
    | cons base others ih =>
        rw [List.map_cons, List.flatMap_cons, List.append_assoc, List.append_assoc,
          List.singleton_append, includes_includeLine (bracket_not_mem_path base), ih,
          List.map_cons, List.cons_append]
  unfold includeLines
  split
  · rename_i hempty
    rw [List.isEmpty_iff.1 hempty]
    rfl
  · rw [List.flatMap_append, List.append_assoc]
    exact (hbases c.bases _).trans (congrArg _ (includes_newline rest))

/-- The blocks around a class in its header. -/
def blocksOf (c : Class) : List (Option (List Text)) := blocks (scopes c.namespaces)

/-- The lines of a header after the headers that it includes. -/
def declarationLines (c : Class) : List Text :=
  openingLines 0 (blocksOf c) ++ bodyLines (indent (blocksOf c).length) c
    ++ closingLines (blocksOf c).length

theorem render_eq (c : Class) :
    render c = "#pragma once".toList ++ '\n' :: '\n' ::
      ((includeLines c).flatMap (· ++ ['\n']) ++ (declarationLines c).flatMap (· ++ ['\n'])) := by
  have hlines : lines c
      = "#pragma once".toList :: [] :: (includeLines c ++ declarationLines c) := by
    unfold lines declarationLines bodyLines blocksOf
    simp only [List.append_assoc]
    rfl
  unfold render
  rw [hlines, List.flatMap_cons, List.flatMap_cons, List.flatMap_append]
  simp only [List.append_assoc, List.nil_append, List.cons_append]

/-- A declaration starts with a namespace, a template or a class. -/
theorem includes_declarationLines (c : Class) :
    includes ((declarationLines c).flatMap (· ++ ['\n'])) = [] := by
  unfold declarationLines
  cases blocksOf c with
  | nil =>
      unfold bodyLines templateLines
      split
      · exact includes_of_other (by decide) (by decide) _
      · exact includes_of_other (by decide) (by decide) _
  | cons block inner =>
      cases block with
      | none => exact includes_of_other (by decide) (by decide) _
      | some names => exact includes_of_other (by decide) (by decide) _

/-- A header includes the headers of the direct bases of its class, in order, and no others. -/
theorem includes_render (c : Class) : includes (render c) = c.bases.map path := by
  rw [render_eq, includes_guard, includes_newline, includes_includeLines,
    includes_declarationLines, List.append_nil]

end RttiProbe.Header

import RttiProbe.Header.Identifier
/-!
# Identifiers

Whatever a name is, its use in a declaration is an identifier; and an identifier is used as it is.
So a header may be read back by characters alone: none of those that a header is laid out with is
part of an identifier.
-/

set_option autoImplicit false

namespace RttiProbe.Header

/-- A character that an identifier may have. -/
def isNameChar (c : Char) : Bool := isWordChar c || c = '_'

/-- Letters, digits and underscores, but no digit first. -/
def IsIdentifier (name : Text) : Prop :=
  name ≠ [] ∧ (∀ c ∈ name, isNameChar c = true) ∧ ∀ c ∈ name.head?, isDigit c = false

theorem isIdentifier_iff_all {name : Text} : IsIdentifier name ↔
    name ≠ [] ∧ name.all isNameChar = true ∧ name.head?.all (!isDigit ·) = true := by
  unfold IsIdentifier
  rw [List.all_eq_true, Option.all_eq_true]
  simp only [Bool.not_eq_true', Option.mem_def]

instance (name : Text) : Decidable (IsIdentifier name) :=
  decidable_of_iff _ isIdentifier_iff_all.symm

/-! ## Names made fit for files -/

theorem not_mem_sanitize {c : Char} (h : isReplaced c = true) (hc : c ≠ '_') (name : Text) :
    c ∉ sanitize name := by
  intro hmem
  obtain ⟨kept, -, heq⟩ := List.mem_map.1 hmem
  split at heq
  · exact hc heq.symm
  · rename_i hkept
    exact hkept (heq ▸ h)

theorem isNameChar_eq_false_of_isDropped {c : Char} (h : isDropped c = true) :
    isNameChar c = false := by
  have hcases : c = ' ' ∨ c = '\x60' ∨ c = '\x27' := by simpa [isDropped, or_assoc] using h
  rcases hcases with rfl | rfl | rfl <;> decide

theorem isNameChar_eq_false_of_isReplaced {c : Char} (h : isReplaced c = true) :
    isNameChar c = false := by
  have hall : "<>,:()*&/\\|?\x22".toList.all (!isNameChar ·) = true := by decide
  simpa using List.all_eq_true.1 hall c (List.contains_iff_mem.1 h)

/-- An identifier is fit for a file as it is. -/
theorem IsIdentifier.sanitize_eq {name : Text} (h : IsIdentifier name) : sanitize name = name := by
  have hkept : ∀ c ∈ name, (!isDropped c) = true := by
    intro c hc
    cases hdropped : isDropped c with
    | false => rfl
    | true =>
        have hchar := h.2.1 c hc
        rw [isNameChar_eq_false_of_isDropped hdropped] at hchar
        cases hchar
  have hsame : ∀ c ∈ name, (if isReplaced c then '_' else c) = c := by
    intro c hc
    refine if_neg fun hreplaced => ?_
    have hchar := h.2.1 c hc
    rw [isNameChar_eq_false_of_isReplaced hreplaced] at hchar
    cases hchar
  unfold sanitize
  rw [List.filter_eq_self.2 hkept, List.map_congr_left hsame, List.map_id']

/-! ## Names made into identifiers -/

/-- A name of which only words are left, underscores between them. -/
def wordText (name : Text) : Text := (sanitize name).map fun c => if isWordChar c then c else '_'

theorem isNameChar_of_mem_wordText {name : Text} : ∀ c ∈ wordText name, isNameChar c = true := by
  intro c hc
  obtain ⟨other, -, rfl⟩ := List.mem_map.1 hc
  unfold isNameChar
  split
  · rename_i hword
    rw [hword, Bool.true_or]
  · rfl

theorem identifier_of_wordText_eq_nil {name : Text} (h : wordText name = []) :
    identifier name = ['_'] := by
  unfold wordText at h
  unfold identifier
  rw [h]

theorem identifier_of_wordText_eq_cons {name rest : Text} {c : Char}
    (h : wordText name = c :: rest) :
    identifier name = if isDigit c then '_' :: c :: rest else c :: rest := by
  unfold wordText at h
  unfold identifier
  rw [h]

/-- Whatever a name is, it is made into an identifier. -/
theorem isIdentifier_identifier (name : Text) : IsIdentifier (identifier name) := by
  have hchars : ∀ c ∈ wordText name, isNameChar c = true := isNameChar_of_mem_wordText
  cases hword : wordText name with
  | nil =>
      rw [identifier_of_wordText_eq_nil hword]
      decide
  | cons c rest =>
      rw [hword] at hchars
      rw [identifier_of_wordText_eq_cons hword]
      split
      · refine ⟨List.cons_ne_nil _ _, List.forall_mem_cons.2 ⟨by decide, hchars⟩, ?_⟩
        rintro _ ⟨⟩
        decide
      · rename_i hdigit
        refine ⟨List.cons_ne_nil _ _, hchars, ?_⟩
        rintro _ ⟨⟩
        exact eq_false_of_ne_true hdigit

/-- An identifier is used as it is. -/
theorem IsIdentifier.identifier_eq {name : Text} (h : IsIdentifier name) :
    identifier name = name := by
  have hword : wordText name = name := by
    have hsame : ∀ c ∈ name, (if isWordChar c then c else '_') = c := by
      intro c hc
      split
      · rfl
      · rename_i hword
        have hchar := h.2.1 c hc
        unfold isNameChar at hchar
        rw [eq_false_of_ne_true hword, Bool.false_or] at hchar
        exact (of_decide_eq_true hchar).symm
    unfold wordText
    rw [h.sanitize_eq, List.map_congr_left hsame, List.map_id']
  obtain ⟨hne, -, hdigit⟩ := h
  cases name with
  | nil => exact absurd rfl hne
  | cons c rest =>
      rw [identifier_of_wordText_eq_cons hword]
      exact if_neg (by rw [hdigit c rfl]; exact Bool.false_ne_true)

theorem IsIdentifier.not_mem {name : Text} (h : IsIdentifier name) {c : Char}
    (hc : isNameChar c = false) : c ∉ name := by
  intro hmem
  have hchar := h.2.1 c hmem
  rw [hc] at hchar
  cases hchar

/-! ## Scopes -/

theorem isIdentifier_of_mem_namedScopes {namespaces : List Text} :
    ∀ name ∈ namedScopes namespaces, IsIdentifier name := by
  intro name hname
  obtain ⟨scope, -, hscope⟩ := List.mem_filterMap.1 hname
  unfold scopeOf at hscope
  split at hscope
  · cases hscope
  · obtain rfl := Option.some.inj hscope
    exact isIdentifier_identifier scope

theorem scopes_prefix {namespaces others : List Text} (h : namespaces <+: others) :
    scopes namespaces <+: scopes others := h.map scopeOf

theorem namedScopes_eq (namespaces : List Text) :
    namedScopes namespaces = (scopes namespaces).filterMap id := by
  unfold namedScopes scopes
  rw [List.filterMap_map, Function.id_comp]

theorem isIdentifier_of_some_mem_scopes {namespaces : List Text} {name : Text}
    (h : some name ∈ scopes namespaces) : IsIdentifier name := by
  have hnamed : name ∈ namedScopes namespaces := by
    rw [namedScopes_eq]
    exact List.mem_filterMap.2 ⟨some name, h, rfl⟩
  exact isIdentifier_of_mem_namedScopes name hnamed

end RttiProbe.Header

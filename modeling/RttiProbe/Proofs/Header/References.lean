import RttiProbe.Proofs.Class.Canonical
import RttiProbe.Proofs.Header.Reader
/-!
# References between headers

The header of a class names each direct base, and the header of the base declares it.  The two go
together whatever the names are: a base is named by the scopes and the identifier that its own
header declares, or by the identifier alone, and then its scopes are open where the class is
declared.
-/

set_option autoImplicit false

namespace RttiProbe.Header

/-! ## Names of bases -/

/-- The scopes that a base is named by: those of the base, unless the namespaces of the class start
with its own. -/
def qualifiers (c base : Class) : List Text :=
  if base.namespaces.isPrefixOf c.namespaces then [] else namedScopes base.namespaces

theorem baseName_eq (c base : Class) :
    baseName c base = Class.scopeText (qualifiers c base)
      ++ (if base.isArgument then base.name else identifier base.name)
      ++ Class.argumentText (base.arguments.map declaredName) := by
  unfold baseName qualifiers
  split <;> exact declaredName_eq _

theorem isIdentifier_of_mem_qualifiers {c base : Class} :
    ∀ name ∈ qualifiers c base, IsIdentifier name := by
  intro name hname
  unfold qualifiers at hname
  split at hname
  · exact absurd hname List.not_mem_nil
  · exact isIdentifier_of_mem_namedScopes name hname

/-- No identifier, qualified or not, opens an angle bracket. -/
theorem bracket_not_mem_scopeText_append {names : List Text} {name : Text}
    (hnames : ∀ scope ∈ names, IsIdentifier scope) (hname : IsIdentifier name) :
    '<' ∉ Class.scopeText names ++ name := by
  rw [Class.scopeText_append]
  refine not_mem_intercalate (by decide) fun part hpart => ?_
  rcases List.mem_append.1 hpart with hscope | hpart
  · exact (hnames part hscope).not_mem rfl
  · rw [List.mem_singleton.1 hpart]
    exact hname.not_mem rfl

/-- A name without brackets ends where its arguments start. -/
theorem takeWhile_append_argumentText {text : Text} (h : '<' ∉ text) (arguments : List Text) :
    (text ++ Class.argumentText arguments).takeWhile (· ≠ '<') = text := by
  have hkept : ∀ c ∈ text, decide (c ≠ '<') = true := fun c hc =>
    decide_eq_true fun heq => h (heq ▸ hc)
  rw [List.takeWhile_append_of_pos hkept]
  unfold Class.argumentText
  split
  · exact List.append_nil text
  · exact List.append_nil text

/-- The names of the bases of a class, as its header lists them. -/
def baseList (c : Class) : Text :=
  [',', ' '].intercalate (c.bases.map fun base => "public ".toList ++ baseName c base)

/-- The header of a class with bases lists them after the name of the class, and the line ends. -/
theorem exists_clause?_render_eq {c : Class} (h : c.bases ≠ []) :
    ∃ rest, clause? (render c) = some (" : ".toList ++ baseList c ++ '\n' :: rest) := by
  have hclause : baseClause c = " : ".toList ++ baseList c := by
    unfold baseClause
    rw [List.isEmpty_map, List.isEmpty_eq_false_iff.2 h, if_neg Bool.false_ne_true]
    rfl
  rw [← hclause]
  exact clause?_render c

/-! ## What names of bases refer to -/

/-- The header of a class refers to one of its bases by what the header of the base declares. -/
structure RefersTo (c base : Class) (own declared : Declaration) : Prop where
  /-- after the name of the class, its header lists the names of its bases, in order, up to the end of
  the line -/
  listed : ∃ rest, clause? (render c) = some (" : ".toList ++ baseList c ++ '\n' :: rest)
  /-- up to its arguments, the name of the base is its identifier, with its named scopes or alone -/
  named : (baseName c base).takeWhile (· ≠ '<')
        = [':', ':'].intercalate (declared.scopes.filterMap id ++ [declared.name])
      ∨ (baseName c base).takeWhile (· ≠ '<') = declared.name
  /-- alone, it stands for a class in scopes that are open around the one that is declared -/
  enclosed : (baseName c base).takeWhile (· ≠ '<') = declared.name →
    (∃ name, some name ∈ declared.scopes) → declared.scopes <+: own.scopes

/-- What one header refers to is what another declares. -/
theorem reference_declared (c base : Class) (hbase : base ∈ c.bases)
    (hargument : base.isArgument = false) :
    ∃ own declared, declaration? (render c) = some own ∧ declaration? (render base) = some declared
      ∧ RefersTo c base own declared := by
  have hreference : (baseName c base).takeWhile (· ≠ '<')
      = Class.scopeText (qualifiers c base) ++ identifier base.name := by
    rw [baseName_eq, hargument, if_neg Bool.false_ne_true]
    exact takeWhile_append_argumentText (bracket_not_mem_scopeText_append
      isIdentifier_of_mem_qualifiers (isIdentifier_identifier base.name)) _
  refine ⟨_, _, declaration?_render c, declaration?_render base, ?_, ?_, ?_⟩
  · exact exists_clause?_render_eq (List.ne_nil_of_mem hbase)
  · dsimp only
    rw [hreference, ← namedScopes_eq, ← Class.scopeText_append]
    unfold qualifiers
    split
    · exact .inr (List.nil_append _)
    · exact .inl rfl
  · rintro hname ⟨name, hscope⟩
    rw [hreference] at hname
    dsimp only at hname hscope ⊢
    unfold qualifiers at hname
    split at hname
    · rename_i hleads
      exact scopes_prefix (List.isPrefixOf_iff_prefix.1 hleads)
    · -- a qualified name is longer than the identifier alone
      have hnone : Class.scopeText (namedScopes base.namespaces) = [] :=
        List.append_left_eq_self.1 hname
      have hmem : name ∈ namedScopes base.namespaces := by
        rw [namedScopes_eq]
        exact List.mem_filterMap.2 ⟨some name, hscope, rfl⟩
      have hempty : name ++ [':', ':'] = [] := List.flatMap_eq_nil_iff.1 hnone name hmem
      exact absurd hempty (by simp)

/-- A class in a namespace without a name, within a template of which an argument is given.  Its
base is the template's own, with a name that starts with a digit. -/
def sampleHandle : Class :=
  { Class.ofName "Handle".toList with
    namespaces := ["Pool<int>".toList, anonymousNamespace]
    bases := [{ Class.ofName "2nd".toList with
      namespaces := ["Pool<int>".toList]
      arguments := [.ofName "T".toList] }] }

theorem reference_declared_sample : ∃ base ∈ sampleHandle.bases, base.isArgument = false
    ∧ (∃ name, some name ∈ scopes base.namespaces)
    ∧ ∃ own declared, declaration? (render sampleHandle) = some own
      ∧ declaration? (render base) = some declared
      ∧ RefersTo sampleHandle base own declared :=
  ⟨_, List.mem_cons_self, rfl, ⟨"Pool_int_".toList, by decide +kernel⟩,
    reference_declared sampleHandle _ List.mem_cons_self rfl⟩

end RttiProbe.Header

import RttiProbe.Proofs.Header.References
/-!
# Ambiguous names of bases

The namespaces that a base shares with a class are left out of its name, all of them or none.  For
classes whose names are identifiers this is the only way in which different bases get one name, and
in which a base gets the name of the class itself: the name alone stands for a class in any of the
scopes around the one that is declared.
-/

set_option autoImplicit false

namespace RttiProbe.Header

/-- The own name of a class and the names of the scopes around it are identifiers. -/
structure HasIdentifiers (c : Class) : Prop where
  name : IsIdentifier c.name
  namespaces : ∀ scope ∈ c.namespaces, IsIdentifier scope

/-! ## Identifiers in names -/

/-- The scopes of namespaces that are identifiers have their names. -/
theorem namedScopes_of_isIdentifier {namespaces : List Text}
    (h : ∀ scope ∈ namespaces, IsIdentifier scope) : namedScopes namespaces = namespaces := by
  unfold namedScopes
  induction namespaces with
  | nil => rfl
  | cons scope rest ih =>
      obtain ⟨hscope, hrest⟩ := List.forall_mem_cons.1 h
      have hne : scope ≠ anonymousNamespace := by
        rintro rfl
        exact absurd hscope (by decide)
      have hself : scopeOf scope = some scope := by
        unfold scopeOf
        rw [if_neg hne, hscope.identifier_eq]
      rw [List.filterMap_cons_some hself, ih hrest]

/-- A qualified name tells its scopes and its last part. -/
theorem scopeText_append_inj {names others : List Text} {name other : Text}
    (hnames : ∀ scope ∈ names, IsIdentifier scope) (hname : IsIdentifier name)
    (hothers : ∀ scope ∈ others, IsIdentifier scope) (hother : IsIdentifier other) :
    Class.scopeText names ++ name = Class.scopeText others ++ other
      ↔ names = others ∧ name = other := by
  constructor
  · intro h
    have hparts {names : List Text} {name : Text} (hnames : ∀ scope ∈ names, IsIdentifier scope)
        (hname : IsIdentifier name) :
        scopesOfTitle (Class.scopeText names ++ name) = (names ++ [name]).map some := by
      rw [Class.scopeText_append]
      refine scopesOfTitle_intercalate (by simp) fun part hpart => ?_
      rcases List.mem_append.1 hpart with hscope | hpart
      · exact hnames part hscope
      · exact List.mem_singleton.1 hpart ▸ hname
    have heq := hparts hnames hname
    rw [h, hparts hothers hother] at heq
    have hsome : Function.Injective (some : Text → Option Text) := fun _ _ => Option.some.inj
    obtain ⟨hscopes, hlast⟩ := List.append_inj' ((List.map_inj_right hsome).1 heq) rfl
    exact ⟨hscopes.symm, (List.singleton_inj.1 hlast).symm⟩
  · rintro ⟨rfl, rfl⟩
    rfl

/-- A name with arguments tells what comes before them, and the text of the arguments. -/
theorem append_argumentText_inj {text other : Text} {arguments others : List Text}
    (h : '<' ∉ text) (h' : '<' ∉ other) :
    text ++ Class.argumentText arguments = other ++ Class.argumentText others
      ↔ text = other ∧ Class.argumentText arguments = Class.argumentText others := by
  constructor
  · intro heq
    have htext : text = other := by
      rw [← takeWhile_append_argumentText h arguments, heq, takeWhile_append_argumentText h']
    rw [htext] at heq
    exact ⟨htext, List.append_cancel_left heq⟩
  · rintro ⟨rfl, harguments⟩
    rw [harguments]

/-! ## Names of bases -/

variable {c x y : Class}

/-- The arguments of a class as they are named outside of all scopes. -/
def declaredArguments (c : Class) : Text := Class.argumentText (c.arguments.map declaredName)

theorem declaredArguments_eq_nil_iff : declaredArguments c = [] ↔ c.arguments = [] := by
  unfold declaredArguments Class.argumentText
  cases c.arguments with
  | nil => exact ⟨fun _ => rfl, fun _ => rfl⟩
  | cons a rest => exact ⟨nofun, nofun⟩

theorem baseName_of_hasIdentifiers (hx : HasIdentifiers x) :
    baseName c x = Class.scopeText (qualifiers c x) ++ x.name ++ declaredArguments x := by
  rw [baseName_eq, hx.name.identifier_eq, ite_self]
  rfl

/-- All namespaces of a base are left out of its name, or none of them. -/
theorem qualifiers_of_hasIdentifiers (c : Class) (hx : HasIdentifiers x) :
    qualifiers c x = if x.namespaces.isPrefixOf c.namespaces then [] else x.namespaces := by
  unfold qualifiers
  rw [namedScopes_of_isIdentifier hx.namespaces]

theorem qualifiers_eq_nil_iff (hx : HasIdentifiers x) :
    qualifiers c x = [] ↔ x.namespaces <+: c.namespaces := by
  rw [qualifiers_of_hasIdentifiers c hx, ← List.isPrefixOf_iff_prefix]
  split
  · rename_i hleads
    exact iff_of_true rfl hleads
  · rename_i hother
    refine iff_of_false (fun hnil => hother ?_) hother
    rw [hnil]
    rfl

/-- Two bases are named by the same scopes if they are in the same, or both in scopes around the
class. -/
theorem qualifiers_eq_iff (hx : HasIdentifiers x) (hy : HasIdentifiers y) :
    qualifiers c x = qualifiers c y ↔ x.namespaces = y.namespaces
      ∨ x.namespaces <+: c.namespaces ∧ y.namespaces <+: c.namespaces := by
  by_cases hxc : x.namespaces <+: c.namespaces
  · rw [(qualifiers_eq_nil_iff hx).2 hxc, eq_comm, qualifiers_eq_nil_iff hy]
    constructor
    · exact fun hyc => .inr ⟨hxc, hyc⟩
    · rintro (heq | ⟨-, hyc⟩)
      · rwa [← heq]
      · exact hyc
  · have hqualified : qualifiers c x = x.namespaces := by
      rw [qualifiers_of_hasIdentifiers c hx, if_neg (mt List.isPrefixOf_iff_prefix.1 hxc)]
    rw [hqualified, or_iff_left fun hboth => hxc hboth.1]
    by_cases hyc : y.namespaces <+: c.namespaces
    · rw [(qualifiers_eq_nil_iff hy).2 hyc]
      refine iff_of_false (fun hnil => hxc ?_) (fun heq => hxc (heq ▸ hyc))
      rw [hnil]
      exact List.nil_prefix
    · rw [qualifiers_of_hasIdentifiers c hy, if_neg (mt List.isPrefixOf_iff_prefix.1 hyc)]

theorem bracket_not_mem_qualified (c : Class) (hx : HasIdentifiers x) :
    '<' ∉ Class.scopeText (qualifiers c x) ++ x.name :=
  bracket_not_mem_scopeText_append isIdentifier_of_mem_qualifiers hx.name

/-- When two bases have one name. -/
theorem baseName_eq_baseName_iff (hx : HasIdentifiers x) (hy : HasIdentifiers y) :
    baseName c x = baseName c y ↔ x.name = y.name ∧ declaredArguments x = declaredArguments y
      ∧ (x.namespaces = y.namespaces
        ∨ x.namespaces <+: c.namespaces ∧ y.namespaces <+: c.namespaces) := by
  rw [baseName_of_hasIdentifiers hx, baseName_of_hasIdentifiers hy]
  refine (append_argumentText_inj (bracket_not_mem_qualified c hx)
    (bracket_not_mem_qualified c hy)).trans ?_
  rw [scopeText_append_inj isIdentifier_of_mem_qualifiers hx.name isIdentifier_of_mem_qualifiers
    hy.name, qualifiers_eq_iff hx hy]
  constructor
  · rintro ⟨⟨hscopes, hname⟩, harguments⟩
    exact ⟨hname, harguments, hscopes⟩
  · rintro ⟨hname, harguments, hscopes⟩
    exact ⟨⟨hscopes, hname⟩, harguments⟩

/-- When a base has the name of the class itself. -/
theorem baseName_eq_identifier_iff (hc : HasIdentifiers c) (hx : HasIdentifiers x) :
    baseName c x = identifier c.name ↔ x.name = c.name ∧ x.arguments = []
      ∧ x.namespaces <+: c.namespaces := by
  have hself : identifier c.name
      = Class.scopeText [] ++ c.name ++ Class.argumentText [] := by
    rw [hc.name.identifier_eq]
    exact (List.append_nil c.name).symm
  rw [hself, baseName_of_hasIdentifiers hx]
  have hbare : '<' ∉ Class.scopeText [] ++ c.name := hc.name.not_mem rfl
  refine (append_argumentText_inj (bracket_not_mem_qualified c hx) hbare).trans ?_
  rw [scopeText_append_inj isIdentifier_of_mem_qualifiers hx.name (by simp) hc.name,
    qualifiers_eq_nil_iff hx]
  show (_ ∧ _) ∧ declaredArguments x = [] ↔ _
  rw [declaredArguments_eq_nil_iff]
  constructor
  · rintro ⟨⟨hscopes, hname⟩, harguments⟩
    exact ⟨hname, harguments, hscopes⟩
  · rintro ⟨hname, harguments, hscopes⟩
    exact ⟨⟨hscopes, hname⟩, harguments⟩

/-! ## Arguments -/

theorem isBlank_eq_false_of_isNameChar {c : Char} (h : isNameChar c = true) :
    Text.isBlank c = false := by
  unfold isNameChar at h
  rcases Bool.or_eq_true_iff.1 h with hword | hline
  · simp only [isWordChar, Bool.or_eq_true, Bool.and_eq_true, decide_eq_true_eq] at hword
    simp only [Text.isBlank, Bool.or_eq_false_iff, Bool.and_eq_false_iff, decide_eq_false_iff_not,
      beq_eq_false_iff_ne]
    omega
  · rw [of_decide_eq_true hline]
    decide

theorem IsIdentifier.isPlain {name : Text} (h : IsIdentifier name) : Class.IsPlain name := by
  have hreserved : Class.reservedChars.all (!isNameChar ·) = true := by decide
  refine Class.isPlain_of_all h.1 (List.all_eq_true.2 fun c hc => ?_)
  have hchar := h.2.1 c hc
  rw [isBlank_eq_false_of_isNameChar hchar, Bool.not_false, Bool.true_and,
    Bool.not_eq_true', List.contains_eq_mem, decide_eq_false_iff_not]
  intro hmem
  have hfalse := List.all_eq_true.1 hreserved c hmem
  rw [hchar] at hfalse
  cases hfalse

/-- A plain name in namespaces that are identifiers, with canonical arguments. -/
theorem canonical_of_isIdentifier {name : Text} {namespaces : List Text} {arguments : List Class}
    {isArgument : Bool} (plain : Class.IsPlain name)
    (scopes : ∀ scope ∈ namespaces, IsIdentifier scope)
    (canonicalArguments : ∀ a ∈ arguments, Class.Canonical a)
    (markedArguments : ∀ a ∈ arguments, a.isArgument = true) :
    Class.Canonical ⟨name, namespaces, arguments, [], none, isArgument⟩ := by
  have hnames : (namespaces.map Class.ofName).map Class.qualifiedName = namespaces := by
    rw [List.map_map]
    refine (List.map_congr_left fun scope _ => ?_).trans (List.map_id namespaces)
    exact List.append_nil scope
  have hscope : ∀ k ∈ namespaces.map Class.ofName, Class.Canonical k := by
    refine List.forall_mem_map.2 fun scope hscope => ?_
    exact Class.Canonical.bare (scopes scope hscope).isPlain (by simp) (by simp)
  have hcanonical : Class.Canonical ⟨name, (namespaces.map Class.ofName).map Class.qualifiedName,
      arguments, [], none, isArgument⟩ :=
    .intro plain hscope (by simp [Class.ofName]) canonicalArguments markedArguments
  rwa [hnames] at hcanonical

/-- An argument that is named as it is: a plain name, as a built-in type has, in namespaces that are
identifiers, with such arguments of its own. -/
inductive Spelled : Class → Prop
  | intro {name : Text} {namespaces : List Text} {arguments : List Class}
      (plain : Class.IsPlain name) (scopes : ∀ scope ∈ namespaces, IsIdentifier scope)
      (spelled : ∀ a ∈ arguments, Spelled a) : Spelled ⟨name, namespaces, arguments, [], none, true⟩

theorem Spelled.isArgument_eq {a : Class} (h : Spelled a) : a.isArgument = true := by
  cases h
  rfl

theorem Spelled.canonical {a : Class} (h : Spelled a) : Class.Canonical a := by
  induction h with
  | intro plain scopes spelled ih =>
      exact canonical_of_isIdentifier plain scopes ih fun a ha => (spelled a ha).isArgument_eq

/-- What an argument is named outside of all scopes is what it is written as. -/
theorem Spelled.declaredName_eq {a : Class} (h : Spelled a) : declaredName a = a.qualifiedName := by
  induction h with
  | @intro name namespaces arguments plain scopes spelled ih =>
      rw [Header.declaredName_eq, Class.qualifiedName_eq]
      dsimp only
      rw [namedScopes_of_isIdentifier scopes, if_pos rfl, List.map_congr_left ih]

/-- Arguments that are named as they are can be told from their text. -/
theorem declaredArguments_eq_iff (hx : ∀ a ∈ x.arguments, Spelled a)
    (hy : ∀ a ∈ y.arguments, Spelled a) :
    declaredArguments x = declaredArguments y ↔ x.arguments = y.arguments := by
  constructor
  · intro h
    -- a class `T` with the arguments is written as the one text, and read back from it
    have hread {arguments : List Class} (hspelled : ∀ a ∈ arguments, Spelled a) :
        Class.parse ('T' :: Class.argumentText (arguments.map declaredName))
          = ⟨['T'], [], arguments, [], none, false⟩ := by
      have hplain : Class.IsPlain ['T'] := Class.isPlain_of_all (by simp) rfl
      have hcanonical : Class.Canonical ⟨['T'], [], arguments, [], none, false⟩ :=
        .bare hplain (fun a ha => (hspelled a ha).canonical)
          fun a ha => (hspelled a ha).isArgument_eq
      have hparse := Class.parse_canonical hcanonical
      rw [Class.qualifiedName_eq, ← List.map_congr_left fun a ha => (hspelled a ha).declaredName_eq]
        at hparse
      exact hparse
    unfold declaredArguments at h
    have heq := hread hx
    rw [h, hread hy] at heq
    exact (congrArg Class.arguments heq).symm
  · intro h
    unfold declaredArguments
    rw [h]

/-! ## Names that are told apart -/

/-- No name alone stands for different classes in the scopes around a class, and the arguments of
its bases are named as they are. -/
structure Unambiguous (c : Class) : Prop where
  bases : ∀ x ∈ c.bases, ∀ y ∈ c.bases, x.name = y.name → x.namespaces <+: c.namespaces →
    y.namespaces <+: c.namespaces → x.namespaces = y.namespaces
  own : ∀ x ∈ c.bases, x.name = c.name → x.namespaces <+: c.namespaces →
    x.namespaces = c.namespaces
  arguments : ∀ x ∈ c.bases, ∀ a ∈ x.arguments, Spelled a

/-- What the names of the bases of a class tell. -/
structure NamesBases (c : Class) : Prop where
  /-- they are what the header of the class lists after the name of the class, up to the end of the
  line -/
  listed : c.bases ≠ [] →
    ∃ rest, clause? (render c) = some (" : ".toList ++ baseList c ++ '\n' :: rest)
  /-- two bases have one name exactly if they are called the same, with arguments that are named the
  same, and are in the same scopes or both in scopes around the class -/
  same_iff : ∀ x ∈ c.bases, ∀ y ∈ c.bases, baseName c x = baseName c y ↔
    x.name = y.name ∧ declaredArguments x = declaredArguments y
      ∧ (x.namespaces = y.namespaces
        ∨ x.namespaces <+: c.namespaces ∧ y.namespaces <+: c.namespaces)
  /-- arguments that are named as they are can be told apart -/
  arguments_iff : ∀ x ∈ c.bases, ∀ y ∈ c.bases, (∀ a ∈ x.arguments, Spelled a) →
    (∀ a ∈ y.arguments, Spelled a) →
    (declaredArguments x = declaredArguments y ↔ x.arguments = y.arguments)
  /-- a base has the name of the class itself exactly if it is called the same, has no arguments,
  and is in scopes around the class -/
  own_iff : ∀ x ∈ c.bases, baseName c x = identifier c.name ↔
    x.name = c.name ∧ x.arguments = [] ∧ x.namespaces <+: c.namespaces
  /-- so different bases have different names where no name is ambiguous -/
  apart : Unambiguous c → ∀ x ∈ c.bases, ∀ y ∈ c.bases,
    x.namespaces ≠ y.namespaces ∨ x.name ≠ y.name ∨ x.arguments ≠ y.arguments →
    baseName c x ≠ baseName c y
  /-- and no base but the class itself has its name -/
  apart_own : Unambiguous c → ∀ x ∈ c.bases, x.namespaces ≠ c.namespaces ∨ x.name ≠ c.name →
    baseName c x ≠ identifier c.name

/-- The names of the bases of a class tell them apart but for ambiguity, if identifiers are all that
there is to the names of the class and its bases. -/
theorem namesBases (c : Class) (hc : HasIdentifiers c)
    (hbases : ∀ x ∈ c.bases, HasIdentifiers x) : NamesBases c where
  listed := exists_clause?_render_eq
  same_iff x hx y hy := baseName_eq_baseName_iff (hbases x hx) (hbases y hy)
  arguments_iff x _ y _ := declaredArguments_eq_iff
  own_iff x hx := baseName_eq_identifier_iff hc (hbases x hx)
  apart h x hx y hy hdiffer hsame := by
    obtain ⟨hname, harguments, hscopes⟩ :=
      (baseName_eq_baseName_iff (hbases x hx) (hbases y hy)).1 hsame
    have hnamespaces : x.namespaces = y.namespaces :=
      hscopes.elim id fun hboth => h.bases x hx y hy hname hboth.1 hboth.2
    rcases hdiffer with hne | hne | hne
    · exact hne hnamespaces
    · exact hne hname
    · exact hne ((declaredArguments_eq_iff (h.arguments x hx) (h.arguments y hy)).1 harguments)
  apart_own h x hx hdiffer hsame := by
    obtain ⟨hname, -, hscopes⟩ := (baseName_eq_identifier_iff hc (hbases x hx)).1 hsame
    rcases hdiffer with hne | hne
    · exact hne (h.own x hx hname hscopes)
    · exact hne hname

/-- A class `A::B::Widget` that derives from `A::Widget`. -/
def sampleShadow : Class :=
  ⟨"Widget".toList, ["A".toList, "B".toList], [],
    [⟨"Widget".toList, ["A".toList], [], [], none, false⟩], none, false⟩

/-- A class `A::B::D` that derives from `A::Base` and `A::B::Base`. -/
def sampleTwins : Class :=
  ⟨"D".toList, ["A".toList, "B".toList], [],
    [⟨"Base".toList, ["A".toList], [], [], none, false⟩,
      ⟨"Base".toList, ["A".toList, "B".toList], [], [], none, false⟩], none, false⟩

theorem namesBases_sample : HasIdentifiers sampleTwins
    ∧ (∀ x ∈ sampleTwins.bases, HasIdentifiers x) ∧ NamesBases sampleTwins := by
  have hc : HasIdentifiers sampleTwins := ⟨by decide +kernel, by decide +kernel⟩
  have hnames : ∀ x ∈ sampleTwins.bases, IsIdentifier x.name := by decide +kernel
  have hscopes : ∀ x ∈ sampleTwins.bases, ∀ scope ∈ x.namespaces, IsIdentifier scope := by
    decide +kernel
  have hbases : ∀ x ∈ sampleTwins.bases, HasIdentifiers x := fun x hx => ⟨hnames x hx, hscopes x hx⟩
  exact ⟨hc, hbases, namesBases sampleTwins hc hbases⟩

/-- Both bases of the one class have one name, and the base of the other has the name of the class
itself. -/
theorem base_names_coincide :
    (∃ x ∈ sampleTwins.bases, ∃ y ∈ sampleTwins.bases, HasIdentifiers x ∧ HasIdentifiers y
        ∧ x.namespaces ≠ y.namespaces ∧ baseName sampleTwins x = baseName sampleTwins y)
      ∧ "    class D : public Base, public Base".toList ∈ (render sampleTwins).splitOn '\n'
      ∧ (∃ x ∈ sampleShadow.bases, HasIdentifiers sampleShadow ∧ HasIdentifiers x
        ∧ x.namespaces ≠ sampleShadow.namespaces ∧ x.arguments = []
        ∧ baseName sampleShadow x = identifier sampleShadow.name)
      ∧ "    class Widget : public Widget".toList ∈ (render sampleShadow).splitOn '\n' := by
  refine ⟨?_, by decide +kernel, ?_, by decide +kernel⟩
  · refine ⟨_, List.mem_cons_self, _, List.mem_cons_of_mem _ List.mem_cons_self, ?_, ?_, ?_, ?_⟩
    · exact ⟨by decide +kernel, by decide +kernel⟩
    · exact ⟨by decide +kernel, by decide +kernel⟩
    · decide
    · decide +kernel
  · refine ⟨_, List.mem_cons_self, ?_, ?_, ?_, rfl, ?_⟩
    · exact ⟨by decide +kernel, by decide +kernel⟩
    · exact ⟨by decide +kernel, by decide +kernel⟩
    · decide
    · decide +kernel

end RttiProbe.Header

import RttiProbe.Proofs.Class.Rows
/-!
# Canonical classes

A class is canonical if all its names are plain: neither blank at an end nor interrupted by a
character of the grammar, at any depth of its arguments and of those of the scopes around it.  A
canonical class, written out, passes both scans that count brackets and is trimmed, so that at each
level the grammar takes apart what writing put together, and reading the text gives the class back.
-/

set_option autoImplicit false

namespace RttiProbe.Class

open Text (IsTrimmed isBlank trim)

/-! ## Canonical classes -/

/-- The characters that have a meaning in the grammar of class names or to a scan of it. -/
def reservedChars : List Char := ['<', '>', ':', ',', '(', ')', '[', ']']

/-- A name that says nothing but itself. -/
structure IsPlain (name : Text) : Prop where
  nonempty : name ≠ []
  trimmed : IsTrimmed name
  clean : ∀ c ∈ name, c ∉ reservedChars

/-- A class with a plain name, in scopes that are canonical classes without namespaces written out,
with canonical classes as arguments, each marked as one, and with neither bases nor a record. -/
inductive Canonical : Class → Prop where
  | intro {name : Text} {scopes arguments : List Class} {isArgument : Bool}
      (plain : IsPlain name)
      (canonicalScopes : ∀ k ∈ scopes, Canonical k)
      (bareScopes : ∀ k ∈ scopes, k.namespaces = [])
      (canonicalArguments : ∀ a ∈ arguments, Canonical a)
      (markedArguments : ∀ a ∈ arguments, a.isArgument = true) :
      Canonical ⟨name, scopes.map qualifiedName, arguments, [], none, isArgument⟩

/-! ## Plain names -/

theorem IsPlain.not_mem_marks {name : Text} (h : IsPlain name) : ∀ c ∈ name, c ∉ marks := by
  intro c hc hmark
  have hclean := h.clean c hc
  simp only [marks, reservedChars, List.mem_cons, List.not_mem_nil, or_false] at hmark hclean
  rcases hmark with h | h | h | h | h | h | h <;> simp [h] at hclean

theorem IsPlain.head_clean {name : Text} (h : IsPlain name) :
    ∀ c ∈ name, c ≠ '<' ∧ c ≠ '>' ∧ c ≠ ':' := by
  intro c hc
  have hclean := h.clean c hc
  refine ⟨?_, ?_, ?_⟩ <;> intro he <;> rw [he] at hclean <;> exact hclean (by simp [reservedChars])

/-- A name of one or more characters, none of them blank or reserved, is plain. -/
theorem isPlain_of_all {name : Text} (hne : name ≠ [])
    (h : name.all (fun c => !isBlank c && !reservedChars.contains c) = true) : IsPlain name := by
  have hall : ∀ c ∈ name, isBlank c = false ∧ c ∉ reservedChars := by
    intro c hc
    have hkept := List.all_eq_true.1 h c hc
    simpa using hkept
  refine ⟨hne, ⟨?_, ?_⟩, fun c hc => (hall c hc).2⟩
  · intro c hc
    exact (hall c (List.mem_of_head? hc)).1
  · intro c hc
    exact (hall c (List.mem_of_getLast? hc)).1

theorem Canonical.bare {name : Text} {arguments : List Class} {isArgument : Bool}
    (plain : IsPlain name) (canonicalArguments : ∀ a ∈ arguments, Canonical a)
    (markedArguments : ∀ a ∈ arguments, a.isArgument = true) :
    Canonical ⟨name, [], arguments, [], none, isArgument⟩ := by
  have h : Canonical ⟨name, ([] : List Class).map qualifiedName, arguments, [], none, isArgument⟩ :=
    Canonical.intro plain (by simp) (by simp) canonicalArguments markedArguments
  exact h

/-! ## What writing preserves -/

section Writing

variable {State : Type} {step : State → Char → Option State} {level : Nat → State}

theorem passes_scopeText (h : CountsBrackets step level) {namespaces : List Text}
    (hscopes : ∀ scope ∈ namespaces, Passes step level 0 scope) :
    Passes step level 0 (scopeText namespaces) := by
  unfold scopeText
  induction namespaces with
  | nil => exact passes_nil 0
  | cons scope rest ih =>
      have hseparator : Passes step level 0 [':', ':'] := passes_of_clean h (by simp [marks])
      rw [List.flatMap_cons]
      exact ((hscopes scope List.mem_cons_self).append hseparator).append
        (ih fun other hother => hscopes other (List.mem_cons_of_mem scope hother))

theorem passes_argumentText (h : CountsBrackets step level) {arguments : List Text}
    (harguments : ∀ a ∈ arguments, Passes step level 0 a) :
    Passes step level 0 (argumentText arguments) := by
  unfold argumentText
  split
  · exact passes_nil 0
  · exact Passes.enclosed h ((passes_comma h).intercalate fun a ha =>
      (harguments a ha).mono (Nat.zero_le 1))

/-- A canonical class, written out, leaves the count of every scan as it was. -/
theorem Canonical.passes {c : Class} (hc : Canonical c) (h : CountsBrackets step level) :
    Passes step level 0 c.qualifiedName := by
  induction hc with
  | intro plain _ _ _ _ ihScopes ihArguments =>
      rw [qualifiedName_eq]
      refine ((passes_scopeText h ?_).append (passes_of_clean h plain.not_mem_marks)).append
        (passes_argumentText h ?_)
      · intro scope hscope
        obtain ⟨k, hk, rfl⟩ := List.mem_map.1 hscope
        exact ihScopes k hk
      · intro argument hargument
        obtain ⟨a, ha, rfl⟩ := List.mem_map.1 hargument
        exact ihArguments a ha

end Writing

theorem isTrimmed_scopeText {namespaces : List Text}
    (hscopes : ∀ scope ∈ namespaces, IsTrimmed scope) : IsTrimmed (scopeText namespaces) := by
  unfold scopeText
  induction namespaces with
  | nil => exact Text.isTrimmed_nil
  | cons scope rest ih =>
      have hseparator : IsTrimmed [':', ':'] :=
        Text.isTrimmed_enclosed (by decide) (by decide) []
      rw [List.flatMap_cons]
      exact ((hscopes scope List.mem_cons_self).append hseparator).append
        (ih fun other hother => hscopes other (List.mem_cons_of_mem scope hother))

theorem isTrimmed_argumentText (arguments : List Text) : IsTrimmed (argumentText arguments) := by
  unfold argumentText
  split
  · exact Text.isTrimmed_nil
  · exact Text.isTrimmed_enclosed (by decide) (by decide) _

theorem Canonical.isTrimmed {c : Class} (hc : Canonical c) : IsTrimmed c.qualifiedName := by
  induction hc with
  | intro plain _ _ _ _ ihScopes _ =>
      rw [qualifiedName_eq]
      refine ((isTrimmed_scopeText ?_).append plain.trimmed).append (isTrimmed_argumentText _)
      intro scope hscope
      obtain ⟨k, hk, rfl⟩ := List.mem_map.1 hscope
      exact ihScopes k hk

theorem Canonical.qualifiedName_ne_nil {c : Class} (hc : Canonical c) : c.qualifiedName ≠ [] := by
  obtain ⟨plain, -, -, -, -⟩ := hc
  rw [qualifiedName_eq]
  exact List.append_ne_nil_of_left_ne_nil
    (List.append_ne_nil_of_right_ne_nil _ plain.nonempty) _

/-! ## The segments of a canonical class -/

/-- The segment that a class is by itself, without the scopes around it. -/
def ownSegment (c : Class) : Segment :=
  ⟨c.name,
    if c.arguments.isEmpty then none
    else some ([',', ' '].intercalate (c.arguments.map qualifiedName))⟩

theorem written_ownSegment (c : Class) :
    (ownSegment c).written = c.name ++ argumentText (c.arguments.map qualifiedName) := by
  unfold ownSegment Segment.written argumentText
  cases c.arguments with
  | nil => simp
  | cons a rest => simp

theorem written_ownSegment_of_bare {c : Class} (h : c.namespaces = []) :
    (ownSegment c).written = c.qualifiedName := by
  rw [written_ownSegment, qualifiedName_eq, h]
  rfl

/-- Scopes with their separators, and what follows them, are a row with separators in between. -/
theorem scopeText_append (namespaces : List Text) (own : Text) :
    scopeText namespaces ++ own = [':', ':'].intercalate (namespaces ++ [own]) := by
  unfold scopeText
  induction namespaces with
  | nil => simp
  | cons scope rest ih =>
      rw [List.flatMap_cons, List.append_assoc, ih, List.cons_append,
        List.intercalate_cons_of_ne_nil (by simp)]

/-- A class is written as the row of its scopes and of its own segment. -/
theorem segments?_qualifiedName {c : Class} {scopes : List Segment}
    (hscopes : ∀ s ∈ scopes, s.IsWellFormed) (hown : (ownSegment c).IsWellFormed)
    (hwritten : scopes.map Segment.written = c.namespaces) :
    segments? c.qualifiedName = some (scopes ++ [ownSegment c]) := by
  have hname : c.qualifiedName
      = [':', ':'].intercalate ((scopes ++ [ownSegment c]).map Segment.written) := by
    rw [qualifiedName_eq, List.append_assoc, scopeText_append, ← written_ownSegment, ← hwritten,
      List.map_append, List.map_singleton]
  rw [hname]
  apply segments?_written (by simp)
  intro s hs
  rcases List.mem_append.1 hs with hs | hs
  · exact hscopes s hs
  · rw [List.mem_singleton.1 hs]
    exact hown

theorem Canonical.isWellFormed {c : Class} (hc : Canonical c) : (ownSegment c).IsWellFormed := by
  cases hc with
  | @intro name scopes arguments isArgument plain _ _ canonicalArguments _ =>
      refine ⟨plain.head_clean, ?_, ?_⟩
      · show trim name ≠ []
        rw [plain.trimmed.trim_eq]
        exact plain.nonempty
      · intro body hbody
        unfold ownSegment at hbody
        dsimp only at hbody
        split at hbody
        · cases hbody
        · obtain rfl := Option.some.inj hbody
          refine (angleStep_passes_comma.intercalate ?_) 0 (Nat.le_refl 0)
          intro argument hargument
          obtain ⟨a, ha, rfl⟩ := List.mem_map.1 hargument
          exact (canonicalArguments a ha).passes angleStep_countsBrackets

/-- The segments of a canonical class are those of its scopes and its own. -/
theorem segments?_canonical {c : Class} (hc : Canonical c) {scopes : List Class}
    (hscopes : c.namespaces = scopes.map qualifiedName)
    (canonicalScopes : ∀ k ∈ scopes, Canonical k) (bareScopes : ∀ k ∈ scopes, k.namespaces = []) :
    segments? c.qualifiedName = some (scopes.map ownSegment ++ [ownSegment c]) := by
  refine segments?_qualifiedName ?_ hc.isWellFormed ?_
  · intro s hs
    obtain ⟨k, hk, rfl⟩ := List.mem_map.1 hs
    exact (canonicalScopes k hk).isWellFormed
  · rw [hscopes, List.map_map]
    exact List.map_congr_left fun k hk => written_ownSegment_of_bare (bareScopes k hk)

/-- The arguments that a canonical class is written with are those that are read. -/
theorem arguments_ownSegment {c : Class} (h : ∀ a ∈ c.arguments, Canonical a) :
    (ownSegment c).arguments = c.arguments.map qualifiedName := by
  unfold ownSegment Segment.arguments
  cases harguments : c.arguments with
  | nil => rfl
  | cons a rest =>
      rw [harguments] at h
      have htrimmed : ∀ s ∈ (a :: rest).map qualifiedName, IsTrimmed s :=
        List.forall_mem_map.2 fun b hb => (h b hb).isTrimmed
      have hvisible : ∀ s ∈ (a :: rest).map qualifiedName, s ≠ [] :=
        List.forall_mem_map.2 fun b hb => (h b hb).qualifiedName_ne_nil
      have hwhole : ∀ s ∈ (a :: rest).map qualifiedName, s.foldlM cutStep 0 = some 0 :=
        List.forall_mem_map.2 fun b hb =>
          (h b hb).passes cutStep_countsBrackets 0 (Nat.le_refl 0)
      apply splitArguments_of_cuts (cuts_of_whole (by simp) hwhole) htrimmed
      intro s hs
      have hmem : s ∈ (a :: rest).map qualifiedName := by
        rw [hs]
        exact List.mem_singleton_self s
      exact (htrimmed s hmem).not_allBlank (hvisible s hmem)

/-! ## Reading a canonical class -/

/-- A class that is marked as it was is the same class. -/
theorem remark_eq {c : Class} {isArgument : Bool} (h : c.isArgument = isArgument) :
    { c with isArgument := isArgument } = c := by
  cases c
  cases h
  rfl

/-- What a canonical class is written as is read as that class, unmarked. -/
theorem parse_canonical {c : Class} (hc : Canonical c) :
    parse c.qualifiedName = { c with isArgument := false } := by
  induction hc with
  | @intro name scopes arguments isArgument plain canonicalScopes bareScopes canonicalArguments
      markedArguments _ ihArguments =>
      have hc : Canonical ⟨name, scopes.map qualifiedName, arguments, [], none, isArgument⟩ :=
        Canonical.intro plain canonicalScopes bareScopes canonicalArguments markedArguments
      rw [parse_of_segments (segments?_canonical hc rfl canonicalScopes bareScopes)]
      -- the scopes stay text, so only the arguments are read in turn
      have hname : trim name = name := plain.trimmed.trim_eq
      have hnamespaces : (scopes.map ownSegment).map Segment.text = scopes.map qualifiedName := by
        rw [List.map_map]
        apply List.map_congr_left
        intro k hk
        show (ownSegment k).text = k.qualifiedName
        rw [Segment.text_eq, written_ownSegment_of_bare (bareScopes k hk),
          (canonicalScopes k hk).isTrimmed.trim_eq]
      have harguments : (arguments.map qualifiedName).map
          (fun argument => { parse argument with isArgument := true }) = arguments := by
        rw [List.map_map]
        conv => rhs; rw [← List.map_id arguments]
        apply List.map_congr_left
        intro a ha
        show { parse a.qualifiedName with isArgument := true } = a
        rw [ihArguments a ha]
        exact remark_eq (markedArguments a ha)
      rw [arguments_ownSegment canonicalArguments, hnamespaces, harguments]
      show (⟨trim name, _, _, _, _, _⟩ : Class) = _
      rw [hname]

/-- Reading undoes writing: a canonical class that is not an argument is read back from what it is
written as. -/
theorem parse_qualifiedName {c : Class} (hc : Canonical c) (hargument : c.isArgument = false) :
    parse c.qualifiedName = c := by
  rw [parse_canonical hc]
  exact remark_eq hargument

/-! ## A class with nested arguments -/

/-- An argument that is a word. -/
def wordArgument (word : String) : Class := ⟨word.toList, [], [], [], none, true⟩

/-- The argument `Box<a>`. -/
def boxArgument (a : Class) : Class := ⟨"Box".toList, [], [a], [], none, true⟩

/-- The argument `std::Pair<int, char>`. -/
def pairArgument : Class :=
  ⟨"Pair".toList, [wordArgument "std"].map qualifiedName, [wordArgument "int", wordArgument "char"],
    [], none, true⟩

/-- The class `App::Box<int>::Map<std::Pair<int, char>, Box<Box<int>>>`. -/
def nestedClass : Class :=
  ⟨"Map".toList, [wordArgument "App", boxArgument (wordArgument "int")].map qualifiedName,
    [pairArgument, boxArgument (boxArgument (wordArgument "int"))], [], none, false⟩

theorem wordArgument_canonical {word : String} (h : IsPlain word.toList) :
    Canonical (wordArgument word) := Canonical.bare h (by simp) (by simp)

theorem boxArgument_canonical {a : Class} (ha : Canonical a) (hmarked : a.isArgument = true) :
    Canonical (boxArgument a) :=
  Canonical.bare (isPlain_of_all (by simp) rfl) (by simpa using ha)
    (by simpa using hmarked)

theorem nestedClass_canonical : Canonical nestedClass := by
  have int : Canonical (wordArgument "int") :=
    wordArgument_canonical (isPlain_of_all (by simp) rfl)
  have char : Canonical (wordArgument "char") :=
    wordArgument_canonical (isPlain_of_all (by simp) rfl)
  have std : Canonical (wordArgument "std") :=
    wordArgument_canonical (isPlain_of_all (by simp) rfl)
  have app : Canonical (wordArgument "App") :=
    wordArgument_canonical (isPlain_of_all (by simp) rfl)
  have pair : Canonical pairArgument :=
    Canonical.intro (isPlain_of_all (by simp) rfl) (by simpa using std)
      (by simp [wordArgument]) (by simpa using ⟨int, char⟩) (by simp [wordArgument])
  have box : Canonical (boxArgument (wordArgument "int")) := boxArgument_canonical int rfl
  exact Canonical.intro (isPlain_of_all (by simp) rfl) (by simpa using ⟨app, box⟩)
    (by simp [wordArgument, boxArgument]) (by simpa using ⟨pair, boxArgument_canonical box rfl⟩)
    (by simp [pairArgument, boxArgument])

/-- A class with arguments inside of arguments and inside of a scope is read back. -/
theorem parse_qualifiedName_nestedClass :
    nestedClass.qualifiedName = "App::Box<int>::Map<std::Pair<int, char>, Box<Box<int>>>".toList
      ∧ parse nestedClass.qualifiedName = nestedClass :=
  ⟨by decide, parse_qualifiedName nestedClass_canonical rfl⟩

end RttiProbe.Class

import RttiProbe.Path
/-!
# The components of a path

The components of a path are those of its pieces, after what the start of its text stands for.
Pushing a relative text leaves the start of a path alone and adds the components of the text's own
pieces, whatever separator it puts between the two, so a path built by pushing names has its
components name by name.
-/

set_option autoImplicit false

namespace RttiProbe.Path

/-! ## Start and pieces -/

/-- What the start of a path stands for: the root, the directory it is in, or nothing. -/
def lead (p : Path) : List Component :=
  if p.isAbsolute then [.root]
  else if p.pieces.head? = some ['.'] then [.here]
  else []

/-- The components that the pieces of a path stand for, the first piece like any other. -/
def descent (p : Path) : List Component := p.pieces.filterMap Component.ofPiece?

theorem components_eq (p : Path) : p.components = p.lead ++ p.descent := by
  unfold components lead descent
  split
  · rfl
  · split <;> rfl

/-- A relative path has at most a leading `.` before its descent. -/
theorem lead_of_not_isAbsolute {p : Path} (h : p.isAbsolute = false) :
    p.lead = [] ∨ p.lead = [.here] := by
  unfold lead
  rw [if_neg (by rw [h]; exact Bool.false_ne_true)]
  split
  · exact .inr rfl
  · exact .inl rfl

/-- No piece of a path stands for the root. -/
theorem root_not_mem_descent (p : Path) : Component.root ∉ p.descent := by
  intro h
  obtain ⟨piece, -, hp⟩ := List.mem_filterMap.1 h
  unfold Component.ofPiece? at hp
  split at hp
  · cases hp
  · split at hp <;> cases hp

/-! ## Pieces that are components -/

theorem ofPiece?_eq_up_iff {piece : Text} :
    Component.ofPiece? piece = some .up ↔ piece = ['.', '.'] := by
  constructor
  · intro h
    unfold Component.ofPiece? at h
    split at h
    · cases h
    · split at h
      · assumption
      · cases h
  · rintro rfl
    rfl

theorem ofPiece?_eq_entry_iff {piece name : Text} :
    Component.ofPiece? piece = some (.entry name)
      ↔ name = piece ∧ piece ≠ [] ∧ piece ≠ ['.'] ∧ piece ≠ ['.', '.'] := by
  constructor
  · intro h
    unfold Component.ofPiece? at h
    split at h
    · cases h
    · rename_i hpiece
      split at h
      · cases h
      · rename_i hup
        cases h
        exact ⟨rfl, (not_or.1 hpiece).1, (not_or.1 hpiece).2, hup⟩
  · rintro ⟨rfl, hnil, hdot, hup⟩
    unfold Component.ofPiece?
    rw [if_neg (not_or.2 ⟨hnil, hdot⟩), if_neg hup]

/-! ## Separators -/

theorem pieces_append_slash (a b : Text) :
    (⟨a ++ '/' :: b⟩ : Path).pieces = (⟨a⟩ : Path).pieces ++ (⟨b⟩ : Path).pieces :=
  List.splitOn_append_cons_self a b

theorem pieces_of_slash_not_mem {t : Text} (h : '/' ∉ t) : (⟨t⟩ : Path).pieces = [t] :=
  List.splitOn_eq_singleton h

theorem pieces_ne_nil (p : Path) : p.pieces ≠ [] := List.splitOn_ne_nil '/' p.text

theorem descent_nil : (⟨[]⟩ : Path).descent = [] := rfl

theorem descent_append_slash (a b : Text) :
    (⟨a ++ '/' :: b⟩ : Path).descent = (⟨a⟩ : Path).descent ++ (⟨b⟩ : Path).descent := by
  unfold descent
  rw [pieces_append_slash, List.filterMap_append]

theorem descent_of_slash_not_mem {t : Text} (h : '/' ∉ t) :
    (⟨t⟩ : Path).descent = (Component.ofPiece? t).toList := by
  unfold descent
  rw [pieces_of_slash_not_mem h, List.filterMap_cons]
  cases Component.ofPiece? t <;> rfl

/-- What follows a separator has no say in how a path starts. -/
theorem lead_append_slash {a : Text} (ha : a ≠ []) (b : Text) :
    (⟨a ++ '/' :: b⟩ : Path).lead = (⟨a⟩ : Path).lead := by
  have habs : (⟨a ++ '/' :: b⟩ : Path).isAbsolute = (⟨a⟩ : Path).isAbsolute := by
    cases a with
    | nil => exact absurd rfl ha
    | cons c rest => rfl
  have hhead : (⟨a ++ '/' :: b⟩ : Path).pieces.head? = (⟨a⟩ : Path).pieces.head? := by
    rw [pieces_append_slash, List.head?_append, Option.or_of_isSome]
    exact List.isSome_head?.2 (pieces_ne_nil ⟨a⟩)
  unfold lead
  rw [habs, hhead]

/-! ## Pushing -/

/-- The three texts that a relative push can give. -/
theorem push_cases (p : Path) {t : Text} (h : t.head? ≠ some '/') :
    (p.text = [] ∧ p.push t = ⟨t⟩)
      ∨ (∃ a, p.text = a ++ ['/'] ∧ p.push t = ⟨a ++ '/' :: t⟩)
      ∨ (p.text ≠ [] ∧ p.push t = ⟨p.text ++ '/' :: t⟩) := by
  unfold push
  rw [if_neg h]
  cases hp : p.text with
  | nil => exact .inl ⟨rfl, rfl⟩
  | cons c rest =>
      refine .inr ?_
      rw [← hp]
      by_cases hl : p.text.getLast? = some '/'
      · obtain ⟨a, ha⟩ := List.getLast?_eq_some_iff.1 hl
        refine .inl ⟨a, ha, ?_⟩
        rw [if_pos (by rw [hl]; simp), ha]
        simp
      · refine .inr ⟨by rw [hp]; exact List.cons_ne_nil c rest, ?_⟩
        rw [if_neg (by rw [hp] at hl ⊢; simpa using hl)]

theorem descent_push (p : Path) {t : Text} (h : t.head? ≠ some '/') :
    (p.push t).descent = p.descent ++ (⟨t⟩ : Path).descent := by
  obtain ⟨text⟩ := p
  rcases push_cases ⟨text⟩ h with ⟨hp, hpush⟩ | ⟨a, hp, hpush⟩ | ⟨-, hpush⟩
  · rw [hpush, show text = [] from hp, descent_nil, List.nil_append]
  · rw [hpush, show text = a ++ ['/'] from hp, descent_append_slash, descent_append_slash,
      descent_nil, List.append_nil]
  · rw [hpush, descent_append_slash]

theorem lead_push {p : Path} (hp : p.text ≠ []) {t : Text} (h : t.head? ≠ some '/') :
    (p.push t).lead = p.lead := by
  obtain ⟨text⟩ := p
  rcases push_cases ⟨text⟩ h with ⟨hnil, -⟩ | ⟨a, hslash, hpush⟩ | ⟨-, hpush⟩
  · exact absurd hnil hp
  · rw [hpush, show text = a ++ ['/'] from hslash]
    cases a with
    | nil => rfl
    | cons c rest =>
        have ha : c :: rest ≠ [] := List.cons_ne_nil c rest
        rw [lead_append_slash ha, lead_append_slash ha]
  · rw [hpush, lead_append_slash hp]

theorem push_of_text_eq_nil {p : Path} (hp : p.text = []) (t : Text) : p.push t = ⟨t⟩ := by
  unfold push
  rw [hp]
  split <;> rfl

theorem push_text_ne_nil {p : Path} (hp : p.text ≠ []) {t : Text} (h : t.head? ≠ some '/') :
    (p.push t).text ≠ [] := by
  rcases push_cases p h with ⟨hnil, -⟩ | ⟨a, -, hpush⟩ | ⟨-, hpush⟩
  · exact absurd hnil hp
  · rw [hpush]
    exact List.append_ne_nil_of_right_ne_nil a (List.cons_ne_nil '/' t)
  · rw [hpush]
    exact List.append_ne_nil_of_left_ne_nil hp ('/' :: t)

theorem isAbsolute_push {p : Path} (hp : p.isAbsolute = false) {t : Text}
    (h : t.head? ≠ some '/') : (p.push t).isAbsolute = false := by
  have hhead : p.text.head? ≠ some '/' := by simpa [isAbsolute] using hp
  unfold push
  rw [if_neg h]
  cases htext : p.text with
  | nil => simpa [isAbsolute] using h
  | cons c rest =>
      rw [htext] at hhead
      split <;> simpa [isAbsolute] using hhead

/-- The components of a relative path taken from a directory: first those of the directory. -/
theorem components_join (root : Path) {p : Path} (h : p.isAbsolute = false) :
    (root.join p).components
      = root.components ++ ((if root.text = [] then p.lead else []) ++ p.descent) := by
  have hp : p.text.head? ≠ some '/' := by simpa [isAbsolute] using h
  by_cases hroot : root.text = []
  · obtain ⟨text⟩ := root
    obtain rfl : text = [] := hroot
    rw [if_pos rfl, ← components_eq]
    show ((⟨[]⟩ : Path).push p.text).components = _
    rw [push_of_text_eq_nil rfl]
    rfl
  · rw [if_neg hroot, List.nil_append, components_eq root, List.append_assoc, components_eq]
    show (root.push p.text).lead ++ (root.push p.text).descent = _
    rw [lead_push hroot hp, descent_push root hp]

/-! ## Names pushed one after another -/

theorem head?_ne_slash {t : Text} (h : '/' ∉ t) : t.head? ≠ some '/' :=
  fun hhead => h (List.mem_of_head? hhead)

theorem descent_foldl_push (p : Path) {names : List Text} (h : ∀ name ∈ names, '/' ∉ name) :
    (names.foldl push p).descent = p.descent ++ names.filterMap Component.ofPiece? := by
  induction names generalizing p with
  | nil => rw [List.foldl_nil, List.filterMap_nil, List.append_nil]
  | cons name rest ih =>
      have hname : '/' ∉ name := h name List.mem_cons_self
      rw [List.foldl_cons, ih _ fun other hother => h other (List.mem_cons_of_mem name hother),
        descent_push p (head?_ne_slash hname), descent_of_slash_not_mem hname, List.append_assoc,
        List.filterMap_cons]
      cases Component.ofPiece? name <;> rfl

theorem lead_foldl_push {p : Path} (hp : p.text ≠ []) {names : List Text}
    (h : ∀ name ∈ names, '/' ∉ name) : (names.foldl push p).lead = p.lead := by
  induction names generalizing p with
  | nil => rfl
  | cons name rest ih =>
      have hname : name.head? ≠ some '/' := head?_ne_slash (h name List.mem_cons_self)
      rw [List.foldl_cons, ih (push_text_ne_nil hp hname)
        fun other hother => h other (List.mem_cons_of_mem name hother), lead_push hp hname]

theorem isAbsolute_foldl_push {p : Path} (hp : p.isAbsolute = false) {names : List Text}
    (h : ∀ name ∈ names, '/' ∉ name) : (names.foldl push p).isAbsolute = false := by
  induction names generalizing p with
  | nil => exact hp
  | cons name rest ih =>
      have hname : name.head? ≠ some '/' := head?_ne_slash (h name List.mem_cons_self)
      exact ih (isAbsolute_push hp hname)
        fun other hother => h other (List.mem_cons_of_mem name hother)

/-- Pushing adds no character but those of what is pushed, and separators. -/
theorem not_mem_text_push {p : Path} {t : Text} {c : Char} (hp : c ∉ p.text) (ht : c ∉ t)
    (hc : c ≠ '/') : c ∉ (p.push t).text := by
  unfold push
  split
  · exact ht
  · split <;> simp [hp, ht, hc]

theorem not_mem_text_foldl_push {names : List Text} {p : Path} {c : Char} (hp : c ∉ p.text)
    (hnames : ∀ name ∈ names, c ∉ name) (hc : c ≠ '/') : c ∉ (names.foldl push p).text := by
  induction names generalizing p with
  | nil => exact hp
  | cons name rest ih =>
      obtain ⟨hname, hrest⟩ := List.forall_mem_cons.1 hnames
      exact ih (not_mem_text_push hp hname hc) hrest

/-! ## Paths to entries -/

/-- A name that can only be the name of an entry of a directory. -/
def IsEntryName (name : Text) : Prop :=
  name ≠ [] ∧ name ≠ ['.'] ∧ name ≠ ['.', '.'] ∧ '/' ∉ name

/-- The components of a path are names of entries, `count` of them. -/
def HasEntries (p : Path) (count : Nat) : Prop :=
  ∃ names : List Text, p.components = names.map .entry ∧ names.length = count
    ∧ ∀ name ∈ names, IsEntryName name

theorem IsEntryName.ofPiece?_eq {name : Text} (h : IsEntryName name) :
    Component.ofPiece? name = some (.entry name) :=
  ofPiece?_eq_entry_iff.2 ⟨rfl, h.1, h.2.1, h.2.2.1⟩

theorem IsEntryName.lead_eq {name : Text} (h : IsEntryName name) :
    (⟨name⟩ : Path).lead = [] := by
  obtain ⟨-, hdot, -, hslash⟩ := h
  have habs : (⟨name⟩ : Path).isAbsolute = false := by
    simpa [isAbsolute] using head?_ne_slash hslash
  unfold lead
  rw [habs, pieces_of_slash_not_mem hslash, if_neg Bool.false_ne_true, if_neg]
  intro hhead
  exact hdot (Option.some.inj hhead)

/-- Names of entries pushed one after another are the components of what they make. -/
theorem components_foldl_push {names : List Text} (hne : names ≠ [])
    (h : ∀ name ∈ names, IsEntryName name) :
    (names.foldl push ⟨[]⟩).components = names.map .entry := by
  have hslash : ∀ name ∈ names, '/' ∉ name := fun name hname => (h name hname).2.2.2
  rw [components_eq, descent_foldl_push _ hslash, descent_nil, List.nil_append]
  have hlead : (names.foldl push ⟨[]⟩).lead = [] := by
    cases names with
    | nil => exact absurd rfl hne
    | cons name rest =>
        have hname : IsEntryName name := h name List.mem_cons_self
        rw [List.foldl_cons, push_of_text_eq_nil rfl, lead_foldl_push hname.1
          fun other hother => hslash other (List.mem_cons_of_mem name hother), hname.lead_eq]
  rw [hlead, List.nil_append]
  clear hlead hslash hne
  induction names with
  | nil => rfl
  | cons name rest ih =>
      rw [List.filterMap_cons_some (h name List.mem_cons_self).ofPiece?_eq,
        ih fun other hother => h other (List.mem_cons_of_mem name hother), List.map_cons]

/-- Pieces that give as many entries as there are pieces are names of entries themselves. -/
theorem isEntryName_of_filterMap_eq {pieces names : List Text}
    (hslash : ∀ piece ∈ pieces, '/' ∉ piece)
    (h : pieces.filterMap Component.ofPiece? = names.map .entry)
    (hlength : names.length = pieces.length) : ∀ piece ∈ pieces, IsEntryName piece := by
  induction pieces generalizing names with
  | nil => exact fun piece hpiece => absurd hpiece List.not_mem_nil
  | cons first rest ih =>
      cases hfirst : Component.ofPiece? first with
      | none =>
          -- the first piece is lost, and the others are too few to make up for it
          rw [List.filterMap_cons_none hfirst] at h
          have hcount := congrArg List.length h
          have hle : (rest.filterMap Component.ofPiece?).length ≤ rest.length :=
            List.length_filterMap_le _ _
          rw [List.length_map] at hcount
          rw [List.length_cons] at hlength
          omega
      | some component =>
          rw [List.filterMap_cons_some hfirst] at h
          cases names with
          | nil => cases h
          | cons name others =>
              rw [List.map_cons] at h
              injection h with hcomponent hothers
              rw [hcomponent] at hfirst
              obtain ⟨-, hnil, hdot, hup⟩ := ofPiece?_eq_entry_iff.1 hfirst
              intro piece hpiece
              rcases List.mem_cons.1 hpiece with rfl | hrest
              · exact ⟨hnil, hdot, hup, hslash piece List.mem_cons_self⟩
              · exact ih (fun other hother => hslash other (List.mem_cons_of_mem first hother))
                  hothers (Nat.succ.inj hlength) piece hrest

/-- Names pushed one after another make as many entries exactly if each is the name of one. -/
theorem hasEntries_foldl_push_iff {names : List Text} (hne : names ≠ [])
    (hslash : ∀ name ∈ names, '/' ∉ name) :
    HasEntries (names.foldl push ⟨[]⟩) names.length ↔ ∀ name ∈ names, IsEntryName name := by
  constructor
  · rintro ⟨entries, hcomponents, hlength, -⟩
    rw [components_eq, descent_foldl_push _ hslash, descent_nil, List.nil_append] at hcomponents
    have hrelative : (names.foldl push ⟨[]⟩).isAbsolute = false :=
      isAbsolute_foldl_push rfl hslash
    rcases lead_of_not_isAbsolute hrelative with hlead | hlead
    · rw [hlead, List.nil_append] at hcomponents
      exact isEntryName_of_filterMap_eq hslash hcomponents hlength
    · rw [hlead] at hcomponents
      cases entries with
      | nil => cases hcomponents
      | cons entry rest => cases (List.cons.inj hcomponents).1
  · intro h
    exact ⟨names, components_foldl_push hne h, rfl, h⟩

/-! ## Paths that lead below a directory -/

/-- As it is written, a path leads from `root` to something below it: it goes on from where `root`
ends, and neither starts over nor goes up. -/
def LeadsBelow (root p : Path) : Prop :=
  ∃ rest, p.components = root.components ++ rest ∧ rest ≠ []
    ∧ Component.root ∉ rest ∧ Component.up ∉ rest

/-- A relative path that descends at all leads below the directory it is taken from exactly if it
never goes up. -/
theorem leadsBelow_join_iff (root : Path) {p : Path} (h : p.isAbsolute = false)
    (hne : p.descent ≠ []) : LeadsBelow root (root.join p) ↔ Component.up ∉ p.descent := by
  have hlead : Component.root ∉ p.lead ∧ Component.up ∉ p.lead := by
    rcases lead_of_not_isAbsolute h with hp | hp <;> rw [hp] <;> decide
  have hstart : ∀ component ∈ (if root.text = [] then p.lead else []),
      component ≠ Component.root ∧ component ≠ Component.up := by
    intro component hcomponent
    split at hcomponent
    · exact ⟨fun he => hlead.1 (he ▸ hcomponent), fun he => hlead.2 (he ▸ hcomponent)⟩
    · exact absurd hcomponent List.not_mem_nil
  constructor
  · rintro ⟨rest, hrest, -, -, hup⟩ hmem
    rw [components_join root h] at hrest
    rw [← List.append_cancel_left hrest] at hup
    exact hup (List.mem_append_right _ hmem)
  · intro hup
    refine ⟨_, components_join root h, List.append_ne_nil_of_right_ne_nil _ hne, ?_, ?_⟩
    · intro hmem
      rcases List.mem_append.1 hmem with hmem | hmem
      · exact (hstart _ hmem).1 rfl
      · exact root_not_mem_descent p hmem
    · intro hmem
      rcases List.mem_append.1 hmem with hmem | hmem
      · exact (hstart _ hmem).2 rfl
      · exact hup hmem

end RttiProbe.Path

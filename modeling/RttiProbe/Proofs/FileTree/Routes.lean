import Mathlib.Data.List.Infix
import RttiProbe.Proofs.FileTree.Changes
/-!
# Routes of paths

A path leads through places, one after another, from the directory that it starts in.  It leads
somewhere only if all of them but the last are directories.  Making the directories that lead to a
path, and writing a file there, changes a tree at the places of its route and nowhere else.
-/

set_option autoImplicit false

namespace RttiProbe

open RttiProbe.Path (Component)

/-! ## Steps of a path -/

namespace Path

theorem inits_eq_cons {α : Type} (l : List α) : l.inits = [] :: l.inits.tail := by
  cases l with
  | nil => rfl
  | cons a rest => rw [List.inits_cons, List.tail_cons]

theorem descent_append_piece {before piece : Text}
    (hbefore : before = [] ∨ ∃ a, before = a ++ ['/']) (hpiece : '/' ∉ piece) :
    (⟨before ++ piece⟩ : Path).descent
      = (⟨before⟩ : Path).descent ++ (Component.ofPiece? piece).toList := by
  rcases hbefore with rfl | ⟨a, rfl⟩
  · rw [List.nil_append, descent_of_slash_not_mem hpiece, descent_nil, List.nil_append]
  · rw [List.append_assoc, List.singleton_append, descent_append_slash, descent_append_slash,
      descent_of_slash_not_mem hpiece, descent_nil, List.append_nil]

/-- Each step descends by one component more than the one before it. -/
theorem map_descent_stepsFrom {before : Text} {pieces : List Text}
    (hbefore : before = [] ∨ ∃ a, before = a ++ ['/']) (hpieces : ∀ piece ∈ pieces, '/' ∉ piece) :
    (stepsFrom before pieces).map descent
      = (pieces.filterMap Component.ofPiece?).inits.tail.map
        ((⟨before⟩ : Path).descent ++ ·) := by
  induction pieces generalizing before with
  | nil => rfl
  | cons piece rest ih =>
      obtain ⟨hpiece, hrest⟩ := List.forall_mem_cons.1 hpieces
      have hlater := @ih (before ++ piece ++ ['/']) (.inr ⟨_, rfl⟩) hrest
      rw [show before ++ piece ++ ['/'] = before ++ piece ++ '/' :: [] from rfl,
        descent_append_slash, descent_nil, List.append_nil,
        descent_append_piece hbefore hpiece] at hlater
      unfold stepsFrom
      dsimp only
      cases hcomponent : Component.ofPiece? piece with
      | none =>
          rw [hcomponent, Option.toList_none, List.append_nil] at hlater
          rw [if_pos rfl, List.filterMap_cons_none hcomponent]
          exact hlater
      | some component =>
          rw [hcomponent, Option.toList_some] at hlater
          rw [if_neg (Option.some_ne_none component), List.filterMap_cons_some hcomponent,
            List.map_cons, hlater, descent_append_piece hbefore hpiece, hcomponent,
            List.inits_cons, List.tail_cons, inits_eq_cons (rest.filterMap Component.ofPiece?)]
          simp [Function.comp_def]

theorem slash_not_mem_of_mem_pieces {p : Path} : ∀ piece ∈ p.pieces, '/' ∉ piece := by
  unfold pieces
  induction p.text with
  | nil => simp
  | cons c rest ih =>
      rw [List.splitOn_cons_eq_if_modifyHead]
      split
      · exact List.forall_mem_cons.2 ⟨List.not_mem_nil, ih⟩
      · rename_i hc
        cases hsplit : rest.splitOn '/' with
        | nil => exact absurd hsplit (List.splitOn_ne_nil '/' rest)
        | cons first others =>
            rw [hsplit] at ih
            obtain ⟨hfirst, hothers⟩ := List.forall_mem_cons.1 ih
            refine List.forall_mem_cons.2 ⟨?_, hothers⟩
            have hne : '/' ≠ c := fun heq => hc (beq_iff_eq.2 heq.symm)
            exact List.not_mem_cons_of_ne_of_not_mem hne hfirst

/-- The pieces of an absolute path start with the one before its first slash, which is empty. -/
theorem pieces_of_isAbsolute {p : Path} (h : p.isAbsolute = true) :
    p.pieces = [] :: p.pieces.tail := by
  obtain ⟨text⟩ := p
  cases text with
  | nil => cases h
  | cons c rest =>
      obtain rfl : c = '/' := by simpa [isAbsolute] using h
      exact pieces_append_slash [] rest

/-- A first step that stands for the start of the path does not descend. -/
theorem map_descent_lead {p : Path} {first before : Text} (start : Text)
    (hpieces : p.pieces = first :: p.pieces.tail) (hfirst : Component.ofPiece? first = none)
    (hbefore : ∃ a, before = a ++ ['/']) (hstart : (⟨start⟩ : Path).descent = [])
    (hlead : (⟨before⟩ : Path).descent = []) :
    ((⟨start⟩ : Path) :: stepsFrom before p.pieces.tail).map descent = p.descent.inits := by
  have htail : ∀ piece ∈ p.pieces.tail, '/' ∉ piece :=
    fun piece hpiece => slash_not_mem_of_mem_pieces piece (List.mem_of_mem_tail hpiece)
  have hdescent : p.descent = p.pieces.tail.filterMap Component.ofPiece? := by
    unfold descent
    rw [hpieces, List.filterMap_cons_none hfirst, List.tail_cons]
  rw [List.map_cons, map_descent_stepsFrom (.inr hbefore) htail, hstart, hlead, hdescent,
    inits_eq_cons]
  simp

/-- The steps of a path descend as far as the path does, the first of them perhaps not at all. -/
theorem map_descent_steps (p : Path) :
    p.steps.map descent = p.descent.inits ∨ p.steps.map descent = p.descent.inits.tail := by
  unfold steps
  split
  · rename_i habsolute
    exact .inl (map_descent_lead ['/'] (pieces_of_isAbsolute habsolute) rfl ⟨[], rfl⟩ rfl rfl)
  · split
    · rename_i hdot
      obtain ⟨tail, hpieces⟩ := List.head?_eq_some_iff.1 hdot
      exact .inl (map_descent_lead ['.'] (by rw [hpieces, List.tail_cons]) rfl ⟨['.'], rfl⟩ rfl rfl)
    · refine .inr ?_
      rw [map_descent_stepsFrom (.inl rfl) slash_not_mem_of_mem_pieces, descent_nil]
      simp [descent]

theorem exists_text_of_mem_stepsFrom {before first : Text} {rest : List Text} {step : Path}
    (h : step ∈ stepsFrom before (first :: rest)) :
    ∃ tail, step.text = before ++ first ++ tail := by
  induction rest generalizing before first with
  | nil =>
      unfold stepsFrom at h
      dsimp only at h
      split at h
      · exact absurd h List.not_mem_nil
      · obtain rfl := List.mem_singleton.1 h
        exact ⟨[], (List.append_nil _).symm⟩
  | cons second others ih =>
      have hlater (h : step ∈ stepsFrom (before ++ first ++ ['/']) (second :: others)) :
          ∃ tail, step.text = before ++ first ++ tail := by
        obtain ⟨tail, htext⟩ := ih h
        exact ⟨'/' :: (second ++ tail), by rw [htext]; simp⟩
      rw [stepsFrom] at h
      split at h
      · exact hlater h
      · rcases List.mem_cons.1 h with rfl | h
        · exact ⟨[], (List.append_nil _).symm⟩
        · exact hlater h

/-- A relative path with an empty first piece has no other. -/
theorem pieces_of_head?_eq_nil {p : Path} (h : p.isAbsolute = false)
    (hfirst : p.pieces.head? = some []) : p.pieces = [[]] := by
  obtain ⟨text⟩ := p
  cases text with
  | nil => rfl
  | cons c rest =>
      have hc : (c == '/') = false := by simpa [isAbsolute] using h
      unfold pieces at hfirst
      rw [List.splitOn_cons_eq_if_modifyHead, hc, if_neg Bool.false_ne_true] at hfirst
      cases hsplit : rest.splitOn '/' with
      | nil => exact absurd hsplit (List.splitOn_ne_nil '/' rest)
      | cons first others =>
          rw [hsplit] at hfirst
          cases hfirst

/-- Every step starts where the path does. -/
theorem isAbsolute_of_mem_steps {p step : Path} (h : step ∈ p.steps) :
    step.isAbsolute = p.isAbsolute := by
  have hlater {before : Text} (hbefore : before ≠ []) {pieces : List Text}
      (h : step ∈ stepsFrom before pieces) :
      step.isAbsolute = (⟨before⟩ : Path).isAbsolute := by
    cases pieces with
    | nil => exact absurd h List.not_mem_nil
    | cons first rest =>
        obtain ⟨tail, htext⟩ := exists_text_of_mem_stepsFrom h
        unfold isAbsolute
        rw [htext, List.append_assoc, List.head?_append_of_ne_nil _ hbefore]
  unfold steps at h
  split at h
  · rename_i habsolute
    rw [habsolute]
    rcases List.mem_cons.1 h with rfl | h
    · rfl
    · exact hlater (List.cons_ne_nil _ _) h
  · rename_i hrelative
    rw [Bool.not_eq_true] at hrelative
    rw [hrelative]
    split at h
    · rcases List.mem_cons.1 h with rfl | h
      · rfl
      · exact hlater (List.cons_ne_nil _ _) h
    · cases hpieces : p.pieces with
      | nil => exact absurd hpieces (pieces_ne_nil p)
      | cons first rest =>
          rw [hpieces] at h
          obtain ⟨tail, htext⟩ := exists_text_of_mem_stepsFrom h
          cases first with
          | nil =>
              have hnil := pieces_of_head?_eq_nil hrelative (by rw [hpieces]; rfl)
              rw [hpieces] at hnil
              rw [hnil] at h
              exact absurd h List.not_mem_nil
          | cons c others =>
              have hslash : '/' ∉ c :: others :=
                slash_not_mem_of_mem_pieces _ (by rw [hpieces]; exact List.mem_cons_self)
              have hc : c ≠ '/' := fun heq => hslash (heq ▸ List.mem_cons_self)
              unfold isAbsolute
              rw [htext]
              simpa using hc

end Path

namespace FileTree

/-! ## Routes -/

variable {t u v w : FileTree} {path : Path} {place : Place}

/-- The place that a path starts from. -/
def origin (t : FileTree) (path : Path) : Place := if path.isAbsolute then [] else t.current

/-- The places that a path leads through, from the one it starts from to the one it leads to. -/
def route (t : FileTree) (path : Path) : List Place :=
  path.descent.inits.map fun way => way.foldl follow (t.origin path)

/-- The places that a path leads through before it is where it leads to. -/
def approach (t : FileTree) (path : Path) : List Place := (t.route path).dropLast

theorem approach_eq_of_current_eq (h : u.current = t.current) (path : Path) :
    u.approach path = t.approach path := by
  unfold approach route origin
  rw [h]

/-- A route ends where its path leads to. -/
theorem route_eq (t : FileTree) (path : Path) :
    t.route path = t.approach path ++ [t.placeOf path] := by
  have hlast {α : Type} (l : List α) : l.inits.getLast? = some l := by
    induction l with
    | nil => rfl
    | cons a rest ih =>
        rw [List.inits_cons, List.getLast?_cons, List.getLast?_map, ih]
        rfl
  have hplace : (t.route path).getLast? = some (t.placeOf path) := by
    unfold route
    rw [List.getLast?_map, hlast]
    rfl
  exact (List.dropLast_append_getLast? _ hplace).symm

theorem placeOf_mem_route (t : FileTree) (path : Path) : t.placeOf path ∈ t.route path := by
  rw [route_eq]
  exact List.mem_append_right _ List.mem_cons_self

/-- The steps before the last lead to places on the way. -/
theorem placeOf_mem_approach {step : Path} (h : step ∈ path.steps.dropLast) (t : FileTree) :
    t.placeOf step ∈ t.approach path := by
  have hdescent : step.descent ∈ path.descent.inits.dropLast := by
    have hmem : step.descent ∈ (path.steps.map Path.descent).dropLast := by
      rw [← List.map_dropLast]
      exact List.mem_map_of_mem h
    rcases Path.map_descent_steps path with heq | heq <;> rw [heq] at hmem
    · exact hmem
    · rw [← List.tail_dropLast] at hmem
      exact List.mem_of_mem_tail hmem
  have hstart : step.isAbsolute = path.isAbsolute :=
    Path.isAbsolute_of_mem_steps (List.mem_of_mem_dropLast h)
  unfold approach route
  rw [← List.map_dropLast]
  refine List.mem_map.2 ⟨step.descent, hdescent, ?_⟩
  unfold placeOf origin
  rw [hstart]

/-- A walk takes pieces from all places on the way to the last. -/
theorem foldl_follow_mem_waypoints {pieces : List Text} {way : List Component}
    (h : way ∈ (pieces.filterMap Component.ofPiece?).inits.dropLast) :
    way.foldl follow place ∈ waypoints place pieces := by
  induction pieces generalizing place way with
  | nil => cases h
  | cons piece rest ih =>
      cases hcomponent : Component.ofPiece? piece with
      | none =>
          have hnext : next place piece = place := by unfold next; rw [hcomponent]; rfl
          rw [List.filterMap_cons_none hcomponent] at h
          have hlater : way.foldl follow place ∈ waypoints place rest := ih h
          rw [waypoints, hnext]
          exact List.mem_cons_of_mem place hlater
      | some component =>
          have hnext : next place piece = follow place component := by
            unfold next
            rw [hcomponent]
            rfl
          rw [List.filterMap_cons_some hcomponent, List.inits_cons,
            List.dropLast_cons_of_ne_nil (by rw [Path.inits_eq_cons]; simp),
            ← List.map_dropLast] at h
          rw [waypoints, hnext]
          rcases List.mem_cons.1 h with rfl | h
          · exact List.mem_cons_self
          · obtain ⟨further, hfurther, rfl⟩ := List.mem_map.1 h
            exact List.mem_cons_of_mem place (ih hfurther)

/-- A path that leads somewhere leads through directories. -/
theorem isDirectory_of_mem_approach {found : Place} (h : t.resolve path = .ok found) :
    ∀ place ∈ t.approach path, t.node? place = some .directory := by
  intro place hplace
  unfold approach route at hplace
  rw [← List.map_dropLast] at hplace
  obtain ⟨way, hway, rfl⟩ := List.mem_map.1 hplace
  exact (walk_eq_ok_iff.1 (resolve_eq_ok_iff.1 h).2).1 _ (foldl_follow_mem_waypoints hway)

/-! ## Changes along routes -/

/-- Two trees have the same at all places but some. -/
structure SameBut (changed : List Place) (t u : FileTree) : Prop where
  current : u.current = t.current
  elsewhere : ∀ place, place ∉ changed → u.node? place = t.node? place

namespace SameBut

variable {changed others : List Place}

theorem refl (t : FileTree) : SameBut changed t t := ⟨rfl, fun _ _ => rfl⟩

theorem trans (h : SameBut changed t u) (h' : SameBut changed u v) : SameBut changed t v where
  current := h'.current.trans h.current
  elsewhere place hplace := (h'.elsewhere place hplace).trans (h.elsewhere place hplace)

theorem mono (h : SameBut changed t u) (hsub : ∀ place ∈ changed, place ∈ others) :
    SameBut others t u where
  current := h.current
  elsewhere place hplace := h.elsewhere place fun hmem => hplace (hsub place hmem)

theorem put {node : FileNode} (h : place ∈ changed) : SameBut changed t (t.put place node) where
  current := rfl
  elsewhere _ hother := node?_put_of_ne fun heq => hother (heq ▸ h)

/-- What follows a change in a tree with the same current directory. -/
theorem trans_of_current (h : u.current = t.current → SameBut changed u v)
    (h' : v.current = t.current → SameBut changed v w) :
    u.current = t.current → SameBut changed u w := fun hu =>
  (h hu).trans (h' ((h hu).current.trans hu))

/-- Making a directory that leads to a path changes a tree only on the way. -/
theorem makeDirectory (hcurrent : u.current = t.current) {step : Path}
    (hstep : step ∈ path.steps.dropLast) (h : u.makeDirectory step = .ok v) :
    SameBut (t.approach path) u v := by
  obtain ⟨-, -, rfl⟩ := putNew_eq_ok_iff.1 (makeDirectory_eq ▸ h)
  rw [placeOf_eq_of_current_eq hcurrent]
  exact put (placeOf_mem_approach hstep t)

/-- Writing a file changes a tree only where the path leads to. -/
theorem replace (hcurrent : u.current = t.current) {contents : Bytes}
    (h : u.replace path contents = .ok v) : SameBut [t.placeOf path] u v := by
  obtain ⟨-, -, rfl⟩ := replace_eq_ok_iff.1 h
  rw [placeOf_eq_of_current_eq hcurrent]
  exact put List.mem_cons_self

/-- Making the directories that lead to a path changes a tree only at places on the way. -/
theorem makeDirectories (t : FileTree) (path : Path) :
    SameBut (t.approach path) t (disk.makeDirectories path.steps.dropLast.reverse t).2 := by
  -- the steps lead to the same places as long as the current directory is the same
  have hmoves : Moves (fun a b => a.current = t.current → SameBut (t.approach path) a b)
      (disk.makeDirectories path.steps.dropLast.reverse) := by
    refine Moves.makeDirectories (fun a _ => .refl a) ?_ ?_
    · exact fun _ _ _ => trans_of_current
    · intro step hstep a b hmade ha
      exact makeDirectory ha (List.mem_reverse.1 hstep) hmade
  exact hmoves t rfl

end SameBut

end FileTree

end RttiProbe

import RttiProbe.Class.Grammar
/-!
# Nesting

A class name is read by two scans that keep count of open brackets: one looks for the angle bracket
that closes a list, the other for the commas that cut it.  What a text does to either count is a run
of the scan's step over the text.  A text that *passes* a scan brings the count back to where it
was, from every level above some least one; names, lists between brackets and rows of them pass both
scans for reasons that have nothing to do with which scan it is.
-/

set_option autoImplicit false

namespace RttiProbe.Class

/-! ## Steps -/

/-- How a character changes the number of open angle brackets, none of which may be closed twice. -/
def angleStep (depth : Nat) (c : Char) : Option Nat :=
  if c = '<' then some (depth + 1)
  else if c = '>' then
    match depth with
    | 0 => none
    | depth + 1 => some depth
  else some depth

/-- How a character changes the number of open brackets of any kind, unless it is a comma that cuts
the list there. -/
def cutStep (depth : Int) (c : Char) : Option Int :=
  if c = ',' ∧ depth = 0 then none else some (depth + bracketStep c)

/-! ## The end of a list -/

theorem splitAtClosing_cons {depth next : Nat} {c : Char} (h : angleStep depth c = some next)
    (s : Text) :
    splitAtClosing depth (c :: s)
      = (splitAtClosing next s).map fun (body, after) => (c :: body, after) := by
  unfold angleStep at h
  rw [splitAtClosing.eq_def]
  dsimp only
  split at h
  · rename_i hopen
    cases h
    rw [if_pos hopen]
  · rename_i hopen
    split at h
    · rename_i hclose
      rw [if_neg hopen, if_pos hclose]
      split at h
      · cases h
      · cases h
        rfl
    · rename_i hclose
      cases h
      rw [if_neg hopen, if_neg hclose]

theorem splitAtClosing_zero_close (s : Text) : splitAtClosing 0 ('>' :: s) = some ([], s) := by
  rw [splitAtClosing.eq_def]
  rfl

/-- The search for the bracket that closes a list goes over whatever the count can follow. -/
theorem splitAtClosing_append {depth depth' : Nat} {s : Text}
    (h : s.foldlM angleStep depth = some depth') (t : Text) :
    splitAtClosing depth (s ++ t)
      = (splitAtClosing depth' t).map fun (body, after) => (s ++ body, after) := by
  induction s generalizing depth with
  | nil =>
      cases h
      simp
  | cons c rest ih =>
      rw [List.foldlM_cons, Option.bind_eq_bind, Option.bind_eq_some_iff] at h
      obtain ⟨next, hnext, hrest⟩ := h
      rw [List.cons_append, splitAtClosing_cons hnext, ih hrest, Option.map_map]
      rfl

/-- A list ends after balanced angle brackets, with the bracket that follows them. -/
theorem splitAtClosing_body {body : Text} (h : body.foldlM angleStep 0 = some 0) (after : Text) :
    splitAtClosing 0 (body ++ '>' :: after) = some (body, after) := by
  rw [splitAtClosing_append h, splitAtClosing_zero_close, Option.map_some]
  dsimp only
  rw [List.append_nil]

/-! ## Pieces -/

/-- Pieces of which the first starts with `s`. -/
def extendFirst (s : Text) : List Text → List Text
  | [] => [s]
  | piece :: others => (s ++ piece) :: others

theorem pieces_cons {depth next : Int} {c : Char} (h : cutStep depth c = some next)
    (s : Text) : pieces depth (c :: s) = extendFirst [c] (pieces next s) := by
  unfold cutStep at h
  split at h
  · cases h
  · rename_i hcut
    cases h
    rw [pieces, if_neg hcut]
    cases pieces (depth + bracketStep c) s <;> rfl

theorem pieces_zero_comma (s : Text) : pieces 0 (',' :: s) = [] :: pieces 0 s := by
  rw [pieces, if_pos ⟨rfl, rfl⟩]

theorem pieces_nil (depth : Int) : pieces depth [] = [[]] := by
  rw [pieces]

theorem pieces_ne_nil (depth : Int) (s : Text) : pieces depth s ≠ [] := by
  cases s with
  | nil =>
      rw [pieces_nil]
      exact List.cons_ne_nil [] []
  | cons c rest =>
      rw [pieces]
      split
      · exact List.cons_ne_nil _ _
      · split <;> exact List.cons_ne_nil _ _

/-- A text without a comma that cuts belongs to the first piece as a whole. -/
theorem pieces_append {depth depth' : Int} {s : Text} (h : s.foldlM cutStep depth = some depth')
    (t : Text) : pieces depth (s ++ t) = extendFirst s (pieces depth' t) := by
  induction s generalizing depth with
  | nil =>
      obtain rfl : depth = depth' := Option.some.inj h
      rw [List.nil_append]
      cases hpieces : pieces depth t with
      | nil => exact absurd hpieces (pieces_ne_nil depth t)
      | cons piece others => rfl
  | cons c rest ih =>
      rw [List.foldlM_cons, Option.bind_eq_bind, Option.bind_eq_some_iff] at h
      obtain ⟨next, hnext, hrest⟩ := h
      rw [List.cons_append, pieces_cons hnext, ih hrest]
      cases pieces depth' t <;> rfl

/-! ## Texts that pass a scan -/

/-- The characters that a scan may treat in a way of its own. -/
def marks : List Char := ['<', '>', ',', '(', ')', '[', ']']

/-- What the two scans have in common, with `level n` being the state where `n` brackets are open:
angle brackets are counted, and inside of one a comma is a character like any other. -/
structure CountsBrackets {State : Type} (step : State → Char → Option State)
    (level : Nat → State) : Prop where
  opens : ∀ n, step (level n) '<' = some (level (n + 1))
  closes : ∀ n, step (level (n + 1)) '>' = some (level n)
  comma : ∀ n, step (level (n + 1)) ',' = some (level (n + 1))
  other : ∀ n c, c ∉ marks → step (level n) c = some (level n)

theorem angleStep_countsBrackets : CountsBrackets angleStep id where
  opens := fun n => rfl
  closes := fun n => rfl
  comma := fun n => rfl
  other := by
    intro n c hc
    have hopen : c ≠ '<' := fun h => hc (by rw [h]; decide)
    have hclose : c ≠ '>' := fun h => hc (by rw [h]; decide)
    unfold angleStep
    rw [if_neg hopen, if_neg hclose]

theorem bracketStep_of_not_mem_marks {c : Char} (hc : c ∉ marks) : bracketStep c = 0 := by
  simp only [marks, List.mem_cons, List.not_mem_nil, or_false, not_or] at hc
  unfold bracketStep
  simp [hc]

theorem cutStep_countsBrackets : CountsBrackets cutStep Int.ofNat where
  opens := fun n => rfl
  closes := by
    intro n
    show some (Int.ofNat n + 1 + -1) = some (Int.ofNat n)
    rw [Int.add_neg_cancel_right]
  comma := by
    intro n
    have hinside : Int.ofNat (n + 1) ≠ 0 := by
      rw [Int.ofNat_eq_natCast]
      omega
    unfold cutStep
    rw [if_neg fun h => hinside h.2]
    rfl
  other := by
    intro n c hc
    have hcomma : c ≠ ',' := fun h => hc (by rw [h]; decide)
    unfold cutStep
    rw [if_neg fun h => hcomma h.1, bracketStep_of_not_mem_marks hc, Int.add_zero]

section Passing

variable {State : Type} {step : State → Char → Option State} {level : Nat → State}

/-- From every level from `least` on, the text brings the count back to where it was. -/
def Passes (step : State → Char → Option State) (level : Nat → State) (least : Nat) (s : Text) :
    Prop :=
  ∀ n, least ≤ n → s.foldlM step (level n) = some (level n)

theorem Passes.mono {least least' : Nat} {s : Text} (h : Passes step level least s)
    (hle : least ≤ least') : Passes step level least' s :=
  fun n hn => h n (Nat.le_trans hle hn)

theorem passes_nil (least : Nat) : Passes step level least [] := fun _ _ => rfl

theorem Passes.append {least : Nat} {a b : Text} (ha : Passes step level least a)
    (hb : Passes step level least b) : Passes step level least (a ++ b) := by
  intro n hn
  rw [List.foldlM_append, ha n hn]
  exact hb n hn

/-- A text in which no bracket and no comma occurs passes. -/
theorem passes_of_clean (h : CountsBrackets step level) {s : Text}
    (hs : ∀ c ∈ s, c ∉ marks) : Passes step level 0 s := by
  induction s with
  | nil => exact passes_nil 0
  | cons c rest ih =>
      intro n hn
      rw [List.foldlM_cons, h.other n c (hs c List.mem_cons_self)]
      exact ih (fun d hd => hs d (List.mem_cons_of_mem c hd)) n hn

/-- Between angle brackets a text is one level further in. -/
theorem Passes.enclosed (h : CountsBrackets step level) {s : Text}
    (hs : Passes step level 1 s) : Passes step level 0 ('<' :: s ++ ['>']) := by
  intro n _
  rw [List.cons_append, List.foldlM_cons, h.opens]
  show (s ++ ['>']).foldlM step (level (n + 1)) = _
  rw [List.foldlM_append, hs (n + 1) (Nat.le_add_left 1 n)]
  show ['>'].foldlM step (level (n + 1)) = _
  rw [List.foldlM_cons, h.closes]
  rfl

/-- Texts that pass can be put in a row if what is put between them passes. -/
theorem Passes.intercalate {least : Nat} {separator : Text}
    (hseparator : Passes step level least separator) {rows : List Text}
    (hrows : ∀ s ∈ rows, Passes step level least s) :
    Passes step level least (separator.intercalate rows) := by
  induction rows with
  | nil => exact passes_nil least
  | cons s rest ih =>
      have hs : Passes step level least s := hrows s List.mem_cons_self
      have hrest := ih fun t ht => hrows t (List.mem_cons_of_mem s ht)
      cases rest with
      | nil => simpa using hs
      | cons t others =>
          rw [List.intercalate_cons_cons]
          exact (hs.append hseparator).append hrest

/-- Inside of a bracket a comma changes nothing. -/
theorem passes_comma (h : CountsBrackets step level) : Passes step level 1 [',', ' '] := by
  intro n hn
  obtain ⟨m, rfl⟩ : ∃ m, n = m + 1 := ⟨n - 1, (Nat.sub_add_cancel hn).symm⟩
  rw [List.foldlM_cons, h.comma]
  show [' '].foldlM step (level (m + 1)) = _
  rw [List.foldlM_cons, h.other _ _ (by decide)]
  rfl

end Passing

/-- The search for a closing bracket is not concerned with commas, wherever they stand. -/
theorem angleStep_passes_comma : Passes angleStep id 0 [',', ' '] := fun _ _ => rfl

end RttiProbe.Class

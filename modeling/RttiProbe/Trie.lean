/-!
# Tries

A finite map whose keys are lists, kept as a tree with a step on each edge, so that keys that begin
alike share what they have in common.  Looking up and inserting go along the key, and `get?` is all
that there is to know about a trie: an insertion changes it at one key.
-/

set_option autoImplicit false

namespace RttiProbe

/-- A finite map from lists: what is at the empty list, and a map below each first step. -/
inductive Trie (κ α : Type) where
  | node (value : Option α) (branches : List (κ × Trie κ α))

namespace Trie

variable {κ α : Type}

/-- The map without keys. -/
def empty : Trie κ α := node none []

instance : Inhabited (Trie κ α) := ⟨empty⟩

/-- What is at the empty list. -/
def value : Trie κ α → Option α
  | node value _ => value

/-- The maps below each first step. -/
def branches : Trie κ α → List (κ × Trie κ α)
  | node _ branches => branches

variable [DecidableEq κ]

/-- The map below a first step, given the maps below all of them. -/
@[specialize]
def branch (step : κ) : List (κ × Trie κ α) → Trie κ α
  | [] => empty
  | (first, t) :: rest => if first = step then t else branch step rest

/-- Changes the map below a first step. -/
@[specialize]
def changeBranch (step : κ) (change : Trie κ α → Trie κ α) :
    List (κ × Trie κ α) → List (κ × Trie κ α)
  | [] => [(step, change empty)]
  | (first, t) :: rest =>
    if first = step then (first, change t) :: rest
    else (first, t) :: changeBranch step change rest

theorem branch_changeBranch_self (step : κ) (change : Trie κ α → Trie κ α)
    (branches : List (κ × Trie κ α)) :
    branch step (changeBranch step change branches) = change (branch step branches) := by
  fun_induction changeBranch step change branches <;> simp_all [branch]

theorem branch_changeBranch_of_ne {step other : κ} (change : Trie κ α → Trie κ α)
    (branches : List (κ × Trie κ α)) (h : other ≠ step) :
    branch other (changeBranch step change branches) = branch other branches := by
  fun_induction changeBranch step change branches <;> simp_all [branch, Ne.symm h]

/-! ## Keys -/

/-- The map below a key. -/
@[specialize]
def descend (t : Trie κ α) : List κ → Trie κ α
  | [] => t
  | step :: rest => (branch step t.branches).descend rest

/-- What is at a key. -/
@[specialize]
def get? (t : Trie κ α) (key : List κ) : Option α := (t.descend key).value

/-- Puts a value at a key. -/
@[specialize]
def insert (t : Trie κ α) (a : α) : List κ → Trie κ α
  | [] => node (some a) t.branches
  | step :: rest => node t.value (changeBranch step (·.insert a rest) t.branches)

theorem get?_cons (t : Trie κ α) (step : κ) (rest : List κ) :
    t.get? (step :: rest) = (branch step t.branches).get? rest := rfl

theorem get?_empty (key : List κ) : (empty : Trie κ α).get? key = none := by
  induction key with
  | nil => rfl
  | cons step rest ih => exact ih

theorem get?_insert_self (t : Trie κ α) (a : α) (key : List κ) :
    (t.insert a key).get? key = some a := by
  induction key generalizing t with
  | nil => rfl
  | cons step rest ih => rw [insert, get?_cons, branches, branch_changeBranch_self, ih]

theorem get?_insert_of_ne (t : Trie κ α) (a : α) {key other : List κ} (h : other ≠ key) :
    (t.insert a key).get? other = t.get? other := by
  induction key generalizing t other with
  | nil =>
    match other, h with
    | [], h => exact absurd rfl h
    | step :: rest, _ => rfl
  | cons step rest ih =>
    match other, h with
    | [], _ => rfl
    | first :: others, h =>
      rw [insert, get?_cons, get?_cons, branches]
      by_cases hstep : first = step
      · subst hstep
        rw [branch_changeBranch_self]
        exact ih _ fun heq => h (heq ▸ rfl)
      · rw [branch_changeBranch_of_ne _ _ hstep]

/-! ## Entries -/

mutual

/-- The keys of a map, and what is at each. -/
def toList : Trie κ α → List (List κ × α)
  | node value branches => (value.toList.map fun a => ([], a)) ++ toLists branches

/-- The keys of maps below first steps, and what is at each. -/
def toLists : List (κ × Trie κ α) → List (List κ × α)
  | [] => []
  | (step, t) :: rest => (toList t).map (fun (key, a) => (step :: key, a)) ++ toLists rest

end

end Trie

end RttiProbe

import RttiProbe.Hierarchy
import RttiProbe.Proofs.Record.Operations
/-!
# The operation that rebuilds a hierarchy

The rebuild as a recursion with a loop in it, where every read may end it with an error and the
loop counts slots in 32 bits.  The cursor of the loop stops at the largest number instead of growing
beyond it.  No class has that many bases, so it passes the last slot where the decoder's cursor
does.
-/

set_option autoImplicit false

namespace RttiProbe.Operation

open Record

variable {σ : Type} {target : BufferedAccessor σ} {demangler : Demangler}

/-! ## Cursors -/

/-- The sum of two numbers, or the largest one there is if it does not fit. -/
def saturatingAdd (m n : UInt32) : UInt32 := .ofNatClamp (m.toNat + n.toNat)

theorem toNat_ofNatClamp (n : Nat) : (UInt32.ofNatClamp n).toNat = min n (UInt32.size - 1) := by
  by_cases h : n < UInt32.size
  · rw [UInt32.toNat_ofNatClamp_of_lt h]
    omega
  · rw [UInt32.toNat_ofNatClamp_of_le (Nat.le_of_not_lt h)]
    omega

/-- Counting in 32 bits agrees with counting, up to the largest number. -/
theorem saturatingAdd_ofNatClamp (m n : Nat) :
    saturatingAdd (.ofNatClamp m) (.ofNatClamp n) = .ofNatClamp (m + n) := by
  rw [← UInt32.toNat_inj, saturatingAdd, toNat_ofNatClamp, toNat_ofNatClamp, toNat_ofNatClamp,
    toNat_ofNatClamp]
  omega

/-- So a cursor in 32 bits passes a slot where the exact one does, if the slot is not the largest
number. -/
theorem ofNatClamp_le_iff {n : Nat} {last : UInt32} (h : last.toNat + 1 < UInt32.size) :
    UInt32.ofNatClamp n ≤ last ↔ n ≤ last.toNat := by
  rw [UInt32.le_iff_toNat_le, toNat_ofNatClamp]
  omega

theorem toNat_min (m n : UInt32) : (min m n).toNat = min m.toNat n.toNat := by
  show (if m ≤ n then m else n).toNat = _
  split
  · exact (Nat.min_eq_left (UInt32.le_iff_toNat_le.1 ‹_›)).symm
  · exact (Nat.min_eq_right (Nat.le_of_not_le (mt UInt32.le_iff_toNat_le.2 ‹_›))).symm

/-- The last slot that may hold a base of the class with descriptor `d`. -/
def lastSlot (d : BaseDescriptor) (h : HierarchyDescriptor) : UInt32 :=
  min d.subElementCount (.ofNat (h.baseCount.toNat - 1))

theorem toNat_lastSlot (d : BaseDescriptor) (h : HierarchyDescriptor) :
    (lastSlot d h).toNat = Hierarchy.lastSlot d h := by
  have hcount := h.baseCount.toNat_lt
  have hlast : (UInt32.ofNat (h.baseCount.toNat - 1)).toNat = h.baseCount.toNat - 1 :=
    UInt32.toNat_ofNat_of_lt' (Nat.lt_of_le_of_lt (Nat.sub_le _ _) hcount)
  rw [lastSlot, toNat_min, hlast]
  rfl

/-- The class itself takes one of the slots, so the last one is not the largest number. -/
theorem lastSlot_add_one_lt (d : BaseDescriptor) (h : HierarchyDescriptor) :
    (lastSlot d h).toNat + 1 < UInt32.size := by
  have hcount := h.baseCount.toNat_lt
  have hle : Hierarchy.lastSlot d h ≤ h.baseCount.toNat - 1 := Nat.min_le_right _ _
  rw [toNat_lastSlot, UInt32.size]
  omega

/-! ## Rebuilds -/

/-- Walks along the array of the class `name` from a slot to the last one, rebuilding the base in
each slot it visits. -/
def walk (target : BufferedAccessor σ) (rebuild : BaseDescriptor → Operation σ Class)
    (h : HierarchyDescriptor) (name : Text) (last : UInt32) (hlast : last.toNat + 1 < UInt32.size)
    (cursor : UInt32) (bases : List Class) : Operation σ (List Class) := do
  if _h : cursor ≤ last then
    match ← baseClass target h cursor with
    | none =>
      cut (Hierarchy.noSlot name cursor.toNat)
      return bases
    | some d =>
      let base ← rebuild d
      walk target rebuild h name last hlast
        (saturatingAdd (saturatingAdd cursor 1) (.ofNatClamp base.baseCount)) (bases ++ [base])
  else return bases
termination_by last.toNat + 1 - cursor.toNat
decreasing_by
  have hle : cursor.toNat ≤ last.toNat := UInt32.le_iff_toNat_le.1 ‹_›
  rw [saturatingAdd, saturatingAdd, toNat_ofNatClamp, toNat_ofNatClamp, UInt32.toNat_one]
  omega

/-- Rebuilds the class that `d` describes, at some depth of a hierarchy. -/
def build (target : BufferedAccessor σ) (demangler : Demangler) (depth : Nat)
    (d : BaseDescriptor) : Operation σ Class := do
  let name ← nameOf demangler (← typeAt target d.typeDescriptor) true .standard
  let leaf : Class := { Class.parse name with descriptor := some d }
  if d.subElementCount = 0 then return leaf
  if _hdeep : Hierarchy.maxDepth ≤ depth then
    cut (Hierarchy.tooDeep name d)
    return leaf
  else
    match ← hierarchyAt target d.hierarchyDescriptor with
    | none =>
      cut (Hierarchy.noHierarchy name d)
      return leaf
    | some h =>
      let bases ← walk target (build target demangler (depth + 1)) h name (lastSlot d h)
        (lastSlot_add_one_lt d h) 1 []
      return { leaf with bases }
termination_by Hierarchy.maxDepth - depth

/-- Rebuilds the class that `d` describes, with the tree of its bases. -/
def rebuild (target : BufferedAccessor σ) (demangler : Demangler) (d : BaseDescriptor) :
    Operation σ Class := do
  let c ← build target demangler 0 d
  note .rebuilt
  return c

/-- Rebuilds the class that a locator describes. -/
def rebuildLocated (target : BufferedAccessor σ) (demangler : Demangler) (l : Locator) :
    Operation σ (Option Class) := do
  let some h ← hierarchyAt target l.hierarchyDescriptor | return none
  match ← baseClass target h 0 with
  | some d => return some (← rebuild target demangler d)
  | none => return none

/-! ## Classes are rebuilt as they are decoded -/

namespace Performs

/-- A step of the loop reads a slot, rebuilds what is there and moves the cursor on, or it ends the
loop. -/
theorem walk {rebuild : BaseDescriptor → Operation σ Class} {decode : BaseDescriptor → Decode Class}
    (hrebuild : ∀ d, Performs target (rebuild d) (decode d)) (h : HierarchyDescriptor)
    (name : Text) {last : UInt32} (hlast : last.toNat + 1 < UInt32.size) (cursor : Nat)
    (bases : List Class) :
    Performs target
      (Operation.walk target rebuild h name last hlast (.ofNatClamp cursor) bases)
      (Hierarchy.walk target.frame decode h name last.toNat cursor bases.reverse) := by
  induction hleft : last.toNat + 1 - cursor using Nat.strong_induction_on
    generalizing cursor bases with
  | h left ih =>
      rw [Operation.walk, Hierarchy.walk, List.reverse_reverse]
      by_cases hle : cursor ≤ last.toNat
      · have hcursor : (UInt32.ofNatClamp cursor).toNat = cursor := by
          rw [toNat_ofNatClamp]
          omega
        have hslot : Performs target _ _ := baseClass h (.ofNatClamp cursor)
        rw [hcursor] at hslot
        rw [dif_pos ((ofNatClamp_le_iff hlast).2 hle), dif_pos hle, hcursor]
        refine hslot.bind fun d => ?_
        cases d with
        | none => exact (Performs.pure bases).note _
        | some d =>
            refine (hrebuild d).bind fun base => ?_
            have hone : (1 : UInt32) = .ofNatClamp 1 := rfl
            rw [hone, saturatingAdd_ofNatClamp, saturatingAdd_ofNatClamp]
            have hnext := ih (last.toNat + 1 - (cursor + 1 + base.baseCount)) (by omega)
              (cursor + 1 + base.baseCount) (bases ++ [base]) rfl
            rw [List.reverse_append] at hnext
            exact hnext
      · rw [dif_neg (mt (ofNatClamp_le_iff hlast).1 hle), dif_neg hle]
        exact .pure bases

theorem build {left depth : Nat} (hdepth : depth + left = Hierarchy.maxDepth)
    (d : BaseDescriptor) :
    Performs target (Operation.build target demangler depth d)
      (Hierarchy.build target.frame demangler left d) := by
  induction left generalizing depth d with
  | zero =>
      rw [Operation.build, Hierarchy.build.eq_def]
      refine (typeAt d.typeDescriptor).bind fun type => (nameOf type).bind fun name => ?_
      dsimp only
      split
      · exact .pure _
      · have hdeep : Hierarchy.maxDepth ≤ depth := Nat.le_of_eq hdepth.symm
        rw [dif_pos hdeep]
        exact (Performs.pure _).note _
  | succ left ih =>
      rw [Operation.build, Hierarchy.build.eq_def]
      refine (typeAt d.typeDescriptor).bind fun type => (nameOf type).bind fun name => ?_
      dsimp only
      split
      · exact .pure _
      · rw [dif_neg (by omega)]
        refine (hierarchyAt d.hierarchyDescriptor).bind fun h => ?_
        cases h with
        | none => exact (Performs.pure _).note _
        | some h =>
            have hnext : depth + 1 + left = Hierarchy.maxDepth := by omega
            have hwalk : Performs target _ _ := walk (ih hnext) h name (lastSlot_add_one_lt d h) 1 []
            rw [toNat_lastSlot] at hwalk
            exact hwalk.bind fun bases => .pure _

theorem rebuild (d : BaseDescriptor) :
    Performs target (Operation.rebuild target demangler d)
      (Hierarchy.ofBase target.frame demangler d) :=
  (build (Nat.zero_add _) d).bind fun c => (Performs.pure c).note _

theorem rebuildLocated (l : Locator) :
    Performs target (Operation.rebuildLocated target demangler l)
      (Hierarchy.ofLocator target.frame demangler l) := by
  refine (hierarchyAt l.hierarchyDescriptor).bind fun h => ?_
  cases h with
  | none => exact .pure none
  | some h =>
      refine (baseClass h 0).bind fun d => ?_
      cases d with
      | none => exact .pure none
      | some d => exact (rebuild d).bind fun c => .pure (some c)

end Performs

end RttiProbe.Operation

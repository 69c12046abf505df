import RttiProbe.Proofs.Decode.Steps
import RttiProbe.Proofs.Hierarchy.Walk
/-!
# Rebuilds from arbitrary memory

Records that refer to one another in circles and counts that promise any number of bases cannot make
a rebuild run away.  Every base that a walk visits takes a slot, and the bases of that base take as
many slots more, so all that is rebuilt below one array fits into its slots, but for the classes
below the last base.  A class therefore has at most as many bases for each level as the largest
array has slots after its first, and the run takes a bounded number of steps for each of them.
-/

set_option autoImplicit false

namespace RttiProbe

namespace Class

mutual

/-- The number of levels of bases below a class. -/
def height : Class → Nat
  | ⟨_, _, _, bases, _, _⟩ => heightBelow bases

/-- The number of levels of bases below a class that has these direct bases. -/
def heightBelow : List Class → Nat
  | [] => 0
  | c :: rest => max (c.height + 1) (heightBelow rest)

end

theorem height_eq (c : Class) : c.height = heightBelow c.bases := by
  cases c; rw [height]

theorem totalCount_append (as bs : List Class) :
    totalCount (as ++ bs) = totalCount as + totalCount bs := by
  induction as with
  | nil => rw [List.nil_append, totalCount, Nat.zero_add]
  | cons a rest ih =>
      rw [List.cons_append, totalCount, totalCount, ih]
      omega

theorem totalCount_reverse (cs : List Class) : totalCount cs.reverse = totalCount cs := by
  induction cs with
  | nil => rfl
  | cons c rest ih =>
      rw [List.reverse_cons, totalCount_append, ih, totalCount, totalCount, totalCount]
      omega

end Class

namespace Hierarchy

open Record Decode RttiProbe.Class

variable {memory : Memory} {demangler : Demangler}

/-! ## What a walk finds -/

section Walks

variable {Rebuilds : BaseDescriptor → Class → Prop} {h : HierarchyDescriptor} {last cursor : Nat}
  {cs : List Class}

/-- What a walk finds fits into the slots from its cursor on, but for the bases of the last base. -/
theorem Walks.add_totalCount_le {most : Nat} (hmost : ∀ d c, Rebuilds d c → c.baseCount ≤ most)
    (hwalk : Walks memory Rebuilds h last cursor cs) (hcursor : cursor ≤ last + 1) :
    cursor + totalCount cs ≤ last + 1 + most := by
  induction hwalk with
  | ended =>
      rw [totalCount]
      omega
  | missing =>
      rw [totalCount]
      omega
  | @base cursor d c rest hlast _ hbase hrest ih =>
      have hcount := hmost d c hbase
      rw [totalCount]
      by_cases hnext : cursor + 1 + c.baseCount ≤ last + 1
      · have := ih hnext
        omega
      · -- the base in the last slot that was visited has more bases than slots were left
        cases hrest with
        | ended =>
            rw [totalCount]
            omega
        | missing hle => omega
        | base hle => omega

theorem Walks.heightBelow_le {most : Nat} (hmost : ∀ d c, Rebuilds d c → c.height ≤ most)
    (hwalk : Walks memory Rebuilds h last cursor cs) : heightBelow cs ≤ most + 1 := by
  induction hwalk with
  | ended => exact Nat.zero_le _
  | missing => exact Nat.zero_le _
  | base _ _ hbase _ ih =>
      rw [heightBelow]
      exact Nat.max_le.2 ⟨Nat.succ_le_succ (hmost _ _ hbase), ih⟩

end Walks

/-! ## What a rebuild gives -/

/-- No hierarchy descriptor that can be read from the memory has an array of more than `most`
slots. -/
def ArraysAtMost (memory : Memory) (most : Nat) : Prop :=
  ∀ a h, Gives memory (HierarchyDescriptor.read a) (some h) → h.baseCount.toNat ≤ most

/-- No array has more slots than a field of its descriptor can count. -/
theorem arraysAtMost_maximum (memory : Memory) : ArraysAtMost memory (UInt32.size - 1) := by
  intro a h _
  have := h.baseCount.toNat_lt_size
  omega

theorem ArraysAtMost.lastSlot_le {most : Nat} (hmost : ArraysAtMost memory most)
    {d : BaseDescriptor} {h : HierarchyDescriptor}
    (hh : Gives memory (d.hierarchy memory.frame) (some h)) : lastSlot d h ≤ most - 1 := by
  obtain ⟨a, -, hread⟩ := gives_follow_some.1 hh
  have := hmost a h hread
  rw [lastSlot]
  omega

/-- Each level through which bases are followed adds no more bases than an array has slots after its
first. -/
theorem baseCount_le_of_gives_build {most : Nat} (hmost : ArraysAtMost memory most) {depth : Nat}
    {d : BaseDescriptor} {c : Class}
    (hc : Gives memory (build memory.frame demangler depth d) c) :
    c.baseCount ≤ depth * (most - 1) := by
  induction depth generalizing d c with
  | zero =>
      obtain ⟨name, bases, -, hbases, rfl⟩ := gives_build_iff.1 hc
      rw [baseCount_eq]
      cases hbases <;> exact Nat.zero_le _
  | succ depth ih =>
      obtain ⟨name, bases, -, hbases, rfl⟩ := gives_build_iff.1 hc
      rw [baseCount_eq]
      cases hbases with
      | unannounced => exact Nat.zero_le _
      | noHierarchy => exact Nat.zero_le _
      | walked hsub hh hwalk =>
          have hlast := hmost.lastSlot_le hh
          have hcount := hwalk.add_totalCount_le (fun e c he => ih he) (Nat.le_add_left 1 _)
          rw [Nat.succ_mul]
          show totalCount bases ≤ _
          omega

/-- No class that is rebuilt has more levels of bases than are followed. -/
theorem height_le_of_gives_build {depth : Nat} {d : BaseDescriptor} {c : Class}
    (hc : Gives memory (build memory.frame demangler depth d) c) : c.height ≤ depth := by
  induction depth generalizing d c with
  | zero =>
      obtain ⟨name, bases, -, hbases, rfl⟩ := gives_build_iff.1 hc
      rw [height_eq]
      cases hbases <;> exact Nat.zero_le _
  | succ depth ih =>
      obtain ⟨name, bases, -, hbases, rfl⟩ := gives_build_iff.1 hc
      rw [height_eq]
      cases hbases with
      | unannounced => exact Nat.zero_le _
      | noHierarchy => exact Nat.zero_le _
      | walked hsub hh hwalk => exact hwalk.heightBelow_le fun e c he => ih he

/-! ## What a rebuild costs -/

/-- The most steps that a class takes of its own: its slot, its type and its name, its hierarchy
descriptor, and the slot and the entry that end its walk. -/
def stepsPerClass : Nat :=
  Memory.CString.maxUnits / Memory.CString.chunkSize + Memory.CString.maxUnits + 10

theorem stepsPerClass_eq : stepsPerClass = 4170 := rfl

/-- A class that has been rebuilt leaves the steps of all classes that it does not have. -/
theorem spends_done (spare room : Nat) (c : Class) :
    Spends memory (.done c) (spare + stepsPerClass * room)
      fun c => stepsPerClass * (room - c.baseCount) :=
  Spends.done (Nat.le_add_left_of_le (Nat.mul_le_mul_left _ (Nat.sub_le room c.baseCount)))

/-- A class whose bases are given up needs a step more, for the entry that says why. -/
theorem spends_cut_done (warning : Text) {spare : Nat} (hspare : 1 ≤ spare) (room : Nat)
    (c : Class) :
    Spends memory ((Decode.cut warning).bind fun _ => .done c) (spare + stepsPerClass * room)
      fun c => stepsPerClass * (room - c.baseCount) := by
  refine (spends_done 0 room c).cut.mono ?_ fun _ _ => Nat.le_refl _
  omega

/-- A walk that can still find `room` classes is paid by the steps of as many classes, and leaves
those of all classes that it does not find. -/
theorem spends_walk {frame : Frame} {rebuild : BaseDescriptor → Decode Class}
    {h : HierarchyDescriptor} {name : Text} {last most : Nat}
    (hcount : ∀ d c, Gives memory (rebuild d) c → c.baseCount ≤ most)
    (hcost : ∀ d, Spends memory (rebuild d) (stepsPerClass * (most + 1) - 2)
      fun c => stepsPerClass * (most - c.baseCount))
    {cursor room : Nat} {before : List Class} (hroom : last + 1 + most ≤ room + cursor) :
    Spends memory (walk frame rebuild h name last cursor before) (3 + stepsPerClass * room)
      fun cs => stepsPerClass * (room + totalCount before - totalCount cs) := by
  induction cursor, before using walk.induct last generalizing room with
  | case1 cursor before hlast ih =>
      rw [walk, dif_pos hlast]
      have hslot : steps memory (h.base frame cursor) ≤ 2 := h.steps_base_le cursor
      refine (Spends.bind_of_steps_le hslot (1 + stepsPerClass * room) fun slot _ => ?_).mono
        (by omega) fun _ _ => Nat.le_refl _
      cases slot with
      | none =>
          apply Spends.cut
          apply Spends.done
          apply Nat.le_of_eq
          rw [totalCount_reverse, Nat.add_sub_cancel]
      | some d =>
          -- what is left of the budget after the slot and the base pays for the rest of the walk
          have hbase := (hcost d).frame (3 + stepsPerClass * (room - (most + 1)))
          refine Spends.mono (hbase.bind fun c hc => ?_) ?_ fun _ _ => Nat.le_refl _
          · have hc := hcount d c hc
            have hnext : last + 1 + most
                ≤ room - (1 + c.baseCount) + (cursor + 1 + c.baseCount) := by omega
            refine (ih c hnext).mono ?_ fun cs _ => ?_
            · rw [stepsPerClass_eq]
              omega
            · have hfound : room - (1 + c.baseCount) + totalCount (c :: before)
                  = room + totalCount before := by
                rw [totalCount]
                omega
              exact Nat.le_of_eq (by rw [hfound])
          · rw [stepsPerClass_eq]
            omega
  | case2 cursor before hlast =>
      rw [walk, dif_neg hlast]
      apply Spends.done
      rw [totalCount_reverse, Nat.add_sub_cancel]
      exact Nat.le_add_left _ _

/-- Looking up the name of a class takes what it takes to read a type, and an entry; five of the
steps of the class remain, two of them for the slot it was read from. -/
theorem spends_named {α : Type} {d : BaseDescriptor} {next : Text → Decode α} {room : Nat}
    {rest : α → Nat} (hnext : ∀ name, Spends memory (next name) (4 + stepsPerClass * room) rest) :
    Spends memory ((d.type memory.frame).bind fun type => (nameOf demangler type).bind next)
      (stepsPerClass * (room + 1) - 2) rest := by
  have htype : steps memory (d.type memory.frame) ≤ 4163 := d.steps_type_le
  refine (Spends.bind_of_steps_le htype _ fun type _ =>
    Spends.bind_of_steps_le (steps_nameOf_le demangler type) _ fun name _ => hnext name).mono ?_
      fun _ _ => Nat.le_refl _
  rw [stepsPerClass_eq]
  omega

/-- Following a class to its hierarchy descriptor takes a step. -/
theorem spends_hierarchy {α : Type} {d : BaseDescriptor}
    {next : Option HierarchyDescriptor → Decode α} {room : Nat} {rest : α → Nat}
    (hnext : ∀ hierarchy, Gives memory (d.hierarchy memory.frame) hierarchy →
      Spends memory (next hierarchy) (3 + stepsPerClass * room) rest) :
    Spends memory ((d.hierarchy memory.frame).bind next) (4 + stepsPerClass * room) rest := by
  refine (Spends.bind_of_steps_le d.steps_hierarchy_le _ hnext).mono ?_ fun _ _ => Nat.le_refl _
  omega

/-- The walk along the array of a class is paid by the steps of as many bases as the class can have,
and leaves those of all bases that it does not have. -/
theorem spends_bases {most : Nat} (hmost : ArraysAtMost memory most) {depth : Nat}
    (hbuild : ∀ d, Spends memory (build memory.frame demangler depth d)
      (stepsPerClass * (depth * (most - 1) + 1) - 2)
      fun c => stepsPerClass * (depth * (most - 1) - c.baseCount))
    {d : BaseDescriptor} {h : HierarchyDescriptor}
    (hh : Gives memory (d.hierarchy memory.frame) (some h)) (name : Text) :
    Spends memory
      (walk memory.frame (build memory.frame demangler depth) h name (lastSlot d h) 1 [])
      (3 + stepsPerClass * ((depth + 1) * (most - 1)))
      fun cs => stepsPerClass * ((depth + 1) * (most - 1) - totalCount cs) := by
  have hlast := hmost.lastSlot_le hh
  have hroom : lastSlot d h + 1 + depth * (most - 1) ≤ (depth + 1) * (most - 1) + 1 := by
    rw [Nat.succ_mul]
    omega
  exact spends_walk (fun e c hc => baseCount_le_of_gives_build hmost hc) hbuild hroom

/-- The rebuild of a class is paid by the steps of as many classes as it can have, itself included,
and leaves those of all classes that it does not have.  Two steps are kept for the slot it was read
from. -/
theorem spends_build {most : Nat} (hmost : ArraysAtMost memory most) (depth : Nat)
    (d : BaseDescriptor) :
    Spends memory (build memory.frame demangler depth d)
      (stepsPerClass * (depth * (most - 1) + 1) - 2)
      fun c => stepsPerClass * (depth * (most - 1) - c.baseCount) := by
  induction depth generalizing d with
  | zero =>
      rw [build.eq_def]
      simp only [bind_eq, pure_eq]
      apply spends_named
      intro name
      split
      · exact spends_done 4 _ _
      · exact spends_cut_done _ (by omega) _ _
  | succ depth ih =>
      rw [build.eq_def]
      simp only [bind_eq, pure_eq]
      apply spends_named
      intro name
      split
      · exact spends_done 4 _ _
      · apply spends_hierarchy
        intro hierarchy hh
        cases hierarchy with
        | none => exact spends_cut_done _ (by omega) _ _
        | some h =>
            refine (spends_bases hmost ih hh name).bind fun bases _ => Spends.done ?_
            exact Nat.le_of_eq (congrArg (fun n => stepsPerClass * (_ - n)) (baseCount_eq _))

/-- A rebuild takes no more than the steps of as many classes as it can find. -/
theorem steps_ofBase_le {most : Nat} (hmost : ArraysAtMost memory most) (d : BaseDescriptor) :
    steps memory (ofBase memory.frame demangler d) ≤ stepsPerClass * (1 + 64 * (most - 1)) := by
  have hbuild : steps memory (build memory.frame demangler maxDepth d) ≤ _ :=
    (spends_build hmost maxDepth d).within
  have hsteps := steps_bind_le (f := fun c => .note .rebuilt (.done c)) (n := 1) hbuild
    fun c => Nat.le_refl 1
  refine Nat.le_trans hsteps ?_
  rw [stepsPerClass_eq, maxDepth]
  omega

/-! ## What a rebuild reads -/

/-- No hierarchy descriptor that the decoder reads has an array of more than `most` slots.  It is
the only record of four fields. -/
def ArraysReadAtMost {α : Type} (memory : Memory) (x : Decode α) (most : Nat) : Prop :=
  ∀ a h, (a, 4 * 4) ∈ reads memory x → Gives memory (HierarchyDescriptor.read a) (some h) →
    h.baseCount.toNat ≤ most

/-- Whether the decoder reads `n` bytes at an address. -/
def isRead {α : Type} (memory : Memory) (x : Decode α) (a : Memory.Address) (n : Nat) : Bool :=
  decide ((a, n) ∈ reads memory x)

theorem ArraysAtMost.arraysReadAtMost {most : Nat} (hmost : ArraysAtMost memory most) {α : Type}
    (x : Decode α) : ArraysReadAtMost memory x most :=
  fun a h _ hh => hmost a h hh

/-- If nothing is answered but the reads of a decoder, the arrays that it does not read are gone. -/
theorem ArraysReadAtMost.arraysAtMost_only {α : Type} {x : Decode α} {most : Nat}
    (hmost : ArraysReadAtMost memory x most) :
    ArraysAtMost (memory.only (isRead memory x)) most := by
  intro a h hh
  obtain ⟨bs, hbs, rfl⟩ := gives_readFields_some.1 hh
  obtain ⟨ha, hbs⟩ := hbs.of_only
  exact hmost a _ (of_decide_eq_true ha) (gives_readFields_some.2 ⟨bs, hbs, rfl⟩)

/-- Whatever a memory holds, the rebuild of a class ends, after no more steps than there are for
each class of 64 arrays of the largest size.  The class has at most 64 levels of bases, and no more
bases than 64 times the slots that the largest array the rebuild reads has after its first. -/
theorem ofBase_bounded (memory : Memory) (demangler : Demangler) (d : BaseDescriptor) :
    steps memory (ofBase memory.frame demangler d) ≤ stepsPerClass * (1 + 64 * (UInt32.size - 2))
      ∧ ∀ most, ArraysReadAtMost memory (ofBase memory.frame demangler d) most →
        steps memory (ofBase memory.frame demangler d) ≤ stepsPerClass * (1 + 64 * (most - 1))
          ∧ ∀ c, Gives memory (ofBase memory.frame demangler d) c →
            c.height ≤ 64 ∧ c.baseCount ≤ 64 * (most - 1) := by
  refine ⟨steps_ofBase_le (arraysAtMost_maximum memory) d, fun most hmost => ?_⟩
  -- the run is the same in the memory that holds nothing else than what the run reads
  have hall : ∀ r ∈ reads memory (ofBase memory.frame demangler d),
      isRead memory (ofBase memory.frame demangler d) r.1 r.2 = true := fun r hr =>
    decide_eq_true hr
  obtain ⟨hrun, hsteps⟩ := run_only hall
  have hmost := hmost.arraysAtMost_only
  refine ⟨hsteps ▸ steps_ofBase_le hmost d, fun c hc => ?_⟩
  unfold Gives at hc
  rw [← hrun] at hc
  have hbuild := gives_ofBase_iff.1 hc
  exact ⟨height_le_of_gives_build hbuild, baseCount_le_of_gives_build hmost hbuild⟩

/-! ## A record that is its own base -/

/-- A 32-bit memory with a class whose array has one more slot, which refers to the class itself. -/
def loopMemory : Memory where
  width := .bits32
  moduleBase := .null
  readable := fun _ => true
  read := fun a n =>
    if a.toNat = 0x1100 ∧ n = 16 then .ok ([0, 0, 2, 0x1200].flatMap (Memory.Word.toBytes 4))
    else if a.toNat = 0x1204 ∧ n = 4 then .ok (Memory.Word.toBytes 4 0x1300)
    else if a.toNat = 0x1300 ∧ n = 28 then
      .ok ([0x1000, 1, 0, 0, 0, 0x40, 0x1100].flatMap (Memory.Word.toBytes 4))
    else .error (.unreadable a)

def loopRecord : BaseDescriptor := ⟨⟨0x1300⟩, ⟨0x1000⟩, 1, 0, 0, 0, 0x40, ⟨0x1100⟩⟩

/-- The class with as many levels of bases as bases are followed through. -/
def loopClass : Nat → Class
  | 0 => classOf [] loopRecord []
  | depth + 1 => classOf [] loopRecord [loopClass depth]

theorem baseCount_loopClass (depth : Nat) : (loopClass depth).baseCount = depth := by
  induction depth with
  | zero => rw [baseCount_eq]; rfl
  | succ depth ih =>
      rw [baseCount_eq]
      show totalCount [loopClass depth] = depth + 1
      rw [totalCount, totalCount, ih]
      omega

theorem arraysAtMost_loopMemory : ArraysAtMost loopMemory 2 := by
  intro a h hh
  obtain ⟨bs, hbs, rfl⟩ := gives_readFields_some.1 hh
  by_cases ha : a.toNat = 0x1100
  · have hread : loopMemory.read a (4 * 4)
        = .ok ([0, 0, 2, 0x1200].flatMap (Memory.Word.toBytes 4)) := if_pos ⟨ha, rfl⟩
    unfold Memory.Answers at hbs
    rw [hread] at hbs
    obtain rfl := Option.some.inj hbs
    have hcount : (wordField ([0, 0, 2, 0x1200].flatMap (Memory.Word.toBytes 4)) 2).toNat ≤ 2 := by
      decide
    exact hcount
  · have hread : loopMemory.read a (4 * 4) = .error (.unreadable a) := by
      simp [loopMemory, ha]
    unfold Memory.Answers at hbs
    rw [hread] at hbs
    cases hbs.2

theorem gives_build_loopClass (demangler : Demangler) (depth : Nat) :
    Gives loopMemory (build loopMemory.frame demangler depth loopRecord) (loopClass depth) := by
  have hname : IsNamed loopMemory demangler loopRecord [] :=
    ⟨none, by decide +kernel, gives_done.2 rfl⟩
  induction depth with
  | zero => exact gives_build_iff.2 ⟨[], [], hname, .tooDeep (by decide), rfl⟩
  | succ depth ih =>
      refine gives_build_iff.2 ⟨[], _, hname, ?_, rfl⟩
      refine .walked (h := ⟨⟨0x1100⟩, 0, 0, 2, ⟨0x1200⟩⟩) (by decide) (by decide +kernel) ?_
      refine .base (by decide) (by decide +kernel) ih ?_
      apply Walks.ended
      show 1 < 1 + 1 + _
      omega

/-- The class that is its own base is rebuilt with as many bases as the bound allows. -/
theorem ofBase_bounded_loop :
    ArraysReadAtMost loopMemory (ofBase loopMemory.frame (fun _ _ => none) loopRecord) 2
      ∧ Gives loopMemory (ofBase loopMemory.frame (fun _ _ => none) loopRecord) (loopClass 64)
      ∧ steps loopMemory (ofBase loopMemory.frame (fun _ _ => none) loopRecord)
        ≤ stepsPerClass * (1 + 64 * (2 - 1))
      ∧ (loopClass 64).height ≤ 64
      ∧ (loopClass 64).baseCount ≤ 64 * (2 - 1)
      ∧ (loopClass 64).baseCount = 64 := by
  have harrays := arraysAtMost_loopMemory.arraysReadAtMost
    (ofBase loopMemory.frame (fun _ _ => none) loopRecord)
  have hgives := gives_ofBase_iff.2 (gives_build_loopClass (fun _ _ => none) maxDepth)
  obtain ⟨hsteps, hclass⟩ := (ofBase_bounded loopMemory (fun _ _ => none) loopRecord).2 2 harrays
  obtain ⟨hheight, hcount⟩ := hclass _ hgives
  exact ⟨harrays, hgives, hsteps, hheight, hcount, baseCount_loopClass 64⟩

end Hierarchy

end RttiProbe

import RttiProbe.Proofs.Class.Places
import RttiProbe.Proofs.Decode.Entries
import RttiProbe.Proofs.Hierarchy.Damage
import RttiProbe.Proofs.Hierarchy.Interruptions
/-!
# Warnings of a rebuild

What a rebuild says about the classes whose bases it could not follow to the end.  Which classes
these are is told by the classes alone (`IsCut`): one that lies too deep, one whose hierarchy
descriptor is missing, and one whose walk ended at a slot that cannot be read.  The cuts in the
journal are those of the classes that are cut, in the order in which the classes were completed,
also when a failure ends the rebuild: the classes that are not completed then are not cut.
-/

set_option autoImplicit false

namespace RttiProbe.Hierarchy

open Record Decode RttiProbe.Class
open Journal (cutTexts cutTexts_append)

variable {memory : Memory} {demangler : Demangler}

/-! ## Cut classes -/

/-- The bases of a class could not be followed to the end. -/
def IsCut (memory : Memory) (v : Visit) : Prop :=
  ∃ d, v.found.descriptor = some d ∧ d.subElementCount ≠ 0
    ∧ (v.place.length = 64 ∨ Gives memory (d.hierarchy memory.frame) none
      ∨ ∃ h, Gives memory (d.hierarchy memory.frame) (some h)
        ∧ 1 + v.found.baseCount ≤ lastSlot d h
        ∧ Gives memory (h.base memory.frame (1 + v.found.baseCount)) none)

/-- The warning that a class is cut. -/
inductive Warns (memory : Memory) (demangler : Demangler) (v : Visit) : Text → Prop
  | tooDeep {d : BaseDescriptor} {name : Text} (hd : v.found.descriptor = some d)
      (hname : IsNamed memory demangler d name) (hlevel : v.place.length = 64) :
      Warns memory demangler v (tooDeep name d)
  | noHierarchy {d : BaseDescriptor} {name : Text} (hd : v.found.descriptor = some d)
      (hname : IsNamed memory demangler d name) (hlevel : v.place.length ≠ 64)
      (hhierarchy : Gives memory (d.hierarchy memory.frame) none) :
      Warns memory demangler v (noHierarchy name d)
  | noSlot {d : BaseDescriptor} {name : Text} {h : HierarchyDescriptor}
      (hd : v.found.descriptor = some d) (hname : IsNamed memory demangler d name)
      (hlevel : v.place.length ≠ 64)
      (hhierarchy : Gives memory (d.hierarchy memory.frame) (some h)) :
      Warns memory demangler v (noSlot name (1 + v.found.baseCount))

open Classical in
/-- Those of the classes that are cut. -/
noncomputable def cutVisits (memory : Memory) (visits : List Visit) : List Visit :=
  visits.filter fun v => IsCut memory v

theorem cutVisits_append (vs ws : List Visit) :
    cutVisits memory (vs ++ ws) = cutVisits memory vs ++ cutVisits memory ws :=
  List.filter_append _ _

theorem cutVisits_singleton_of_isCut {v : Visit} (h : IsCut memory v) :
    cutVisits memory [v] = [v] := by
  unfold cutVisits
  exact List.filter_cons_of_pos (by simpa using h)

theorem cutVisits_singleton_of_not_isCut {v : Visit} (h : ¬ IsCut memory v) :
    cutVisits memory [v] = [] := by
  unfold cutVisits
  exact List.filter_cons_of_neg (by simpa using h)

/-! ## What is noted -/

/-- What is noted while some classes are visited: messages for debugging, and a cut for each class
that is cut, in the order of the visits. -/
structure Noted (memory : Memory) (demangler : Demangler) (visits : List Visit)
    (journal : List Event) : Prop where
  entries : ∀ event ∈ journal,
    (∃ text, event = .message ⟨.debug, text⟩) ∨ ∃ text, event = .cut text
  cuts : List.Forall₂ (Warns memory demangler) (cutVisits memory visits) (cutTexts journal)

namespace Noted

variable {visits others : List Visit} {journal more : List Event}

theorem nil : Noted memory demangler [] [] := ⟨nofun, .nil⟩

theorem append (h : Noted memory demangler visits journal)
    (hmore : Noted memory demangler others more) :
    Noted memory demangler (visits ++ others) (journal ++ more) where
  entries := List.forall_mem_append.2 ⟨h.entries, hmore.entries⟩
  cuts := by
    rw [cutVisits_append, cutTexts_append]
    exact List.rel_append h.cuts hmore.cuts

/-- Messages for debugging are noted about no class. -/
theorem of_debug (h : ∀ event ∈ journal, ∃ text, event = .message ⟨.debug, text⟩) :
    Noted memory demangler [] journal where
  entries := fun event hevent => .inl (h event hevent)
  cuts := by
    have htexts : cutTexts journal = [] := by
      refine List.filterMap_eq_nil_iff.2 fun event hevent => ?_
      obtain ⟨text, rfl⟩ := h event hevent
      rfl
    rw [htexts]
    exact .nil

/-- Nothing is noted about a class that is not cut. -/
theorem whole {v : Visit} (h : ¬ IsCut memory v) : Noted memory demangler [v] [] where
  entries := nofun
  cuts := by
    rw [cutVisits_singleton_of_not_isCut h]
    exact .nil

theorem cut {v : Visit} {text : Text} (h : IsCut memory v) (hwarns : Warns memory demangler v text) :
    Noted memory demangler [v] [.cut text] where
  entries := List.forall_mem_singleton.2 (.inr ⟨text, rfl⟩)
  cuts := by
    rw [cutVisits_singleton_of_isCut h]
    exact .cons hwarns .nil

end Noted

/-! ## Walks -/

section Walks

/-- How a walk with the bases `before`, in reverse, ends after it has found more of them from slot
`cursor` on: what it notes, and whether it has a result.  The bases are those of the class at a
place. -/
inductive WalkEnds (memory : Memory) (demangler : Demangler) (depth : Nat) (h : HierarchyDescriptor)
    (name : Text) (last : Nat) (place : List Nat) (cursor : Nat) (before found : List Class) :
    List Event → Except Error (List Class) → Prop
  /-- the walk is past the last slot -/
  | ended {journal : List Event} (hlast : last < cursor + totalCount found)
      (hnoted : Noted memory demangler (visitsFrom place before.length found) journal) :
      WalkEnds memory demangler depth h name last place cursor before found journal
        (.ok (before.reverse ++ found))
  /-- the next slot is missing -/
  | missing {journal : List Event} (hlast : cursor + totalCount found ≤ last)
      (hslot : Gives memory (h.base memory.frame (cursor + totalCount found)) none)
      (hnoted : Noted memory demangler (visitsFrom place before.length found) journal) :
      WalkEnds memory demangler depth h name last place cursor before found
        (journal ++ [.cut (noSlot name (cursor + totalCount found))])
        (.ok (before.reverse ++ found))
  /-- the next slot cannot be read -/
  | slot {journal : List Event} {e : Error} (hlast : cursor + totalCount found ≤ last)
      (hslot : Fails memory (h.base memory.frame (cursor + totalCount found)) e)
      (hnoted : Noted memory demangler (visitsFrom place before.length found) journal) :
      WalkEnds memory demangler depth h name last place cursor before found journal (.error e)
  /-- the rebuild of the base in the next slot is interrupted -/
  | base {journal : List Event} {e : Error} {b : BaseDescriptor} {spine : List Class}
      (hlast : cursor + totalCount found ≤ last)
      (hslot : Gives memory (h.base memory.frame (cursor + totalCount found)) (some b))
      (hbase : Interrupted memory demangler e depth b spine)
      (hnoted : Noted memory demangler (visitsFrom place before.length found
        ++ spineVisits (place ++ [before.length + found.length]) spine) journal) :
      WalkEnds memory demangler depth h name last place cursor before found journal (.error e)

variable {depth : Nat} {h : HierarchyDescriptor} {name : Text} {last : Nat} {place : List Nat}
  {cursor : Nat}

/-- A base that is completed comes before those that are found after it. -/
theorem WalkEnds.cons {c : Class} {before found : List Class} {journal more : List Event}
    {result : Except Error (List Class)}
    (hnoted : Noted memory demangler (c.visits (place ++ [before.length])) journal)
    (hends : WalkEnds memory demangler depth h name last place (cursor + 1 + c.baseCount)
      (c :: before) found more result) :
    WalkEnds memory demangler depth h name last place cursor before (c :: found) (journal ++ more)
      result := by
  have hcursor := add_totalCount_cons cursor c found
  have hresult : (c :: before).reverse ++ found = before.reverse ++ c :: found := by
    rw [List.reverse_cons, List.append_assoc, List.singleton_append]
  cases hends with
  | ended hlast hrest =>
      rw [hresult]
      exact .ended (hcursor ▸ hlast) (hnoted.append hrest)
  | missing hlast hslot hrest =>
      rw [hresult, ← List.append_assoc, ← hcursor]
      exact .missing (hcursor ▸ hlast) (hcursor ▸ hslot) (hnoted.append hrest)
  | slot hlast hslot hrest => exact .slot (hcursor ▸ hlast) (hcursor ▸ hslot) (hnoted.append hrest)
  | base hlast hslot hbase hrest =>
      have hindex : (c :: before).length + found.length = before.length + (c :: found).length := by
        rw [List.length_cons, List.length_cons]
        omega
      rw [hindex] at hrest
      refine .base (hcursor ▸ hlast) (hcursor ▸ hslot) hbase ?_
      rw [visitsFrom, List.append_assoc]
      exact hnoted.append hrest

end Walks

/-! ## Rebuilds -/

/-- The classes that are not completed when a rebuild ends.  If it has a result then the last class
it completes is the root, which carries `d` and is listed instead. -/
inductive EndsWith (memory : Memory) (demangler : Demangler) (depth : Nat) (d : BaseDescriptor) :
    Except Error Class → (spine : List Class) → Prop
  | completed {c : Class} (hroot : c.descriptor = some d) :
      EndsWith memory demangler depth d (.ok c) [c]
  | interrupted {e : Error} {spine : List Class}
      (h : Interrupted memory demangler e depth d spine) :
      EndsWith memory demangler depth d (.error e) spine

/-- The run of a decoder that rebuilds the class of `d` at a place accounts for all classes that it
visits. -/
def Accounts (memory : Memory) (demangler : Demangler) (depth : Nat) (d : BaseDescriptor)
    (place : List Nat) (x : Decode Class) : Prop :=
  ∃ spine journal result, Runs memory x journal result
    ∧ EndsWith memory demangler depth d result spine
    ∧ Noted memory demangler (spineVisits place spine) journal

/-- A walk accounts for the bases it finds if their rebuilds do. -/
theorem exists_walkEnds {depth : Nat} {place : List Nat}
    (hdeeper : ∀ i b, Accounts memory demangler depth b (place ++ [i])
      (build memory.frame demangler depth b)) (h : HierarchyDescriptor)
    (name : Text) (last cursor : Nat) (before : List Class) :
    ∃ found journal result,
      Found memory (fun b c => Gives memory (build memory.frame demangler depth b) c) h last cursor
          found
        ∧ Runs memory (walk memory.frame (build memory.frame demangler depth) h name last cursor
          before) journal result
        ∧ WalkEnds memory demangler depth h name last place cursor before found journal result := by
  induction cursor, before using walk.induct last with
  | case1 cursor before hlast ih =>
      rw [walk, dif_pos hlast]
      rcases (h.silent_base cursor).runs memory with ⟨slot, hslot⟩ | ⟨e, hslot⟩
      · cases slot with
        | none =>
            have hends : WalkEnds memory demangler depth h name last place cursor before []
                ([] ++ [.cut (noSlot name cursor)]) (.ok (before.reverse ++ [])) :=
              .missing hlast hslot.gives .nil
            rw [List.append_nil] at hends
            exact ⟨[], _, _, .nil, hslot.bind (.note (.done _)), hends⟩
        | some b =>
            obtain ⟨spine, journal, result, hrun, hends, hnoted⟩ := hdeeper before.length b
            cases hends with
            | @completed c =>
                rw [spineVisits_singleton] at hnoted
                obtain ⟨found, more, result, hfound, hrest, hends⟩ := ih c
                exact ⟨c :: found, journal ++ more, result,
                  .cons hlast hslot.gives hrun.gives hfound, hslot.bind (hrun.bind hrest),
                  .cons hnoted hends⟩
            | interrupted hbase =>
                refine ⟨[], journal, _, .nil, hslot.bind (hrun.bind_error _), ?_⟩
                exact .base hlast hslot.gives hbase hnoted
      · exact ⟨[], _, _, .nil, hslot.bind_error _, .slot hlast hslot.fails .nil⟩
  | case2 cursor before hlast =>
      rw [walk, dif_neg hlast]
      have hends : WalkEnds memory demangler depth h name last place cursor before [] []
          (.ok (before.reverse ++ [])) := .ended (Nat.lt_of_not_le hlast) .nil
      rw [List.append_nil] at hends
      exact ⟨[], _, _, .nil, .done _, hends⟩

theorem isCut_classOf_iff {place : List Nat} {name : Text} {d : BaseDescriptor}
    {bases : List Class} :
    IsCut memory ⟨place, classOf name d bases⟩ ↔
      d.subElementCount ≠ 0
        ∧ (place.length = 64 ∨ Gives memory (d.hierarchy memory.frame) none
          ∨ ∃ h, Gives memory (d.hierarchy memory.frame) (some h)
            ∧ 1 + totalCount bases ≤ lastSlot d h
            ∧ Gives memory (h.base memory.frame (1 + totalCount bases)) none) := by
  have hdescriptor : (classOf name d bases).descriptor = some d := rfl
  unfold IsCut
  simp only [hdescriptor, Option.some.injEq, exists_eq_left', baseCount_classOf]

section Accounts

variable {depth : Nat} {d : BaseDescriptor} {place : List Nat} {x : Decode Class}
  {journal more : List Event}

/-- Messages for debugging may come before. -/
theorem Accounts.bind {α : Type} {y : Decode α} {a : α} {f : α → Decode Class}
    (hy : Runs memory y more (.ok a))
    (hdebug : ∀ event ∈ more, ∃ text, event = .message ⟨.debug, text⟩)
    (h : Accounts memory demangler depth d place (f a)) :
    Accounts memory demangler depth d place (y.bind f) := by
  obtain ⟨spine, journal, result, hrun, hends, hnoted⟩ := h
  exact ⟨spine, _, result, hy.bind hrun, hends, (Noted.of_debug hdebug).append hnoted⟩

theorem Accounts.completed {name : Text} {found : List Class}
    (hrun : Runs memory x (journal ++ more) (.ok (classOf name d found)))
    (hbases : Noted memory demangler (visitsFrom place 0 found) journal)
    (hroot : Noted memory demangler [⟨place, classOf name d found⟩] more) :
    Accounts memory demangler depth d place x := by
  refine ⟨_, _, _, hrun, .completed rfl, ?_⟩
  rw [spineVisits_singleton, visits_eq]
  exact hbases.append hroot

theorem Accounts.leaf {name : Text} (hrun : Runs memory x journal (.ok (classOf name d [])))
    (hroot : Noted memory demangler [⟨place, classOf name d []⟩] journal) :
    Accounts memory demangler depth d place x := by
  have hrun : Runs memory x ([] ++ journal) (.ok (classOf name d [])) := hrun
  exact .completed hrun .nil hroot

theorem Accounts.interrupted {e : Error} {u : Class} {spine : List Class}
    (hrun : Runs memory x journal (.error e))
    (hspine : Interrupted memory demangler e depth d (u :: spine))
    (hbelow : Noted memory demangler
      (visitsFrom place 0 u.bases ++ spineVisits (place ++ [u.bases.length]) spine) journal)
    (hwhole : ¬ IsCut memory ⟨place, u⟩) : Accounts memory demangler depth d place x := by
  refine ⟨_, _, _, hrun, .interrupted hspine, ?_⟩
  have hnoted := hbelow.append (Noted.whole hwhole)
  rw [List.append_nil] at hnoted
  exact hnoted

/-- A rebuild accounts for the classes it visits if the rebuilds of the bases do. -/
theorem accounts_walk {name : Text} {h : HierarchyDescriptor}
    (hdeeper : ∀ i b, Accounts memory demangler depth b (place ++ [i])
      (build memory.frame demangler depth b))
    (hname : IsNamed memory demangler d name) (hsub : d.subElementCount ≠ 0)
    (hlevel : place.length ≠ 64) (hhierarchy : Gives memory (d.hierarchy memory.frame) (some h)) :
    Accounts memory demangler (depth + 1) d place
      ((walk memory.frame (build memory.frame demangler depth) h name (lastSlot d h) 1 []).bind
        fun bases => .done (classOf name d bases)) := by
  obtain ⟨found, journal, result, hfound, hrun, hends⟩ :=
    exists_walkEnds hdeeper h name (lastSlot d h) 1 []
  have hcut : IsCut memory ⟨place, classOf name d found⟩ ↔ 1 + totalCount found ≤ lastSlot d h
      ∧ Gives memory (h.base memory.frame (1 + totalCount found)) none := by
    rw [isCut_classOf_iff]
    constructor
    · rintro ⟨-, hplace | hnone | ⟨h', hsome, hcut⟩⟩
      · exact absurd hplace hlevel
      · cases hnone.unique hhierarchy
      · obtain rfl := Option.some.inj (hsome.unique hhierarchy)
        exact hcut
    · exact fun hcut => ⟨hsub, .inr (.inr ⟨h, hhierarchy, hcut⟩)⟩
  cases hends with
  | ended hlast hnoted =>
      refine .completed (hrun.bind (.done _)) hnoted (.whole fun h => ?_)
      have := (hcut.1 h).1
      omega
  | missing hlast hslot hnoted =>
      have hwarns : Warns memory demangler ⟨place, classOf name d found⟩
          (noSlot name (1 + totalCount found)) := by
        rw [← baseCount_classOf name d found]
        exact .noSlot rfl hname hlevel hhierarchy
      exact .completed (hrun.map _) hnoted (.cut (hcut.2 ⟨hlast, hslot⟩) hwarns)
  | slot hlast hslot hnoted =>
      have hspine := Interrupted.slot (.mk hname hsub hhierarchy hfound hlast)
        (baseCount_classOf name d found ▸ hslot)
      refine .interrupted (hrun.bind_error _) hspine ?_ fun h => (hcut.1 h).2.not_fails _ hslot
      rw [spineVisits, List.append_nil]
      exact hnoted
  | base hlast hslot hbase hnoted =>
      have hspine := Interrupted.base (.mk hname hsub hhierarchy hfound hlast)
        (baseCount_classOf name d found ▸ hslot) hbase
      refine .interrupted (hrun.bind_error _) hspine ?_ fun h => ?_
      · rw [List.length_nil, Nat.zero_add] at hnoted
        exact hnoted
      · cases (hcut.1 h).2.unique hslot

end Accounts

/-- A rebuild accounts for the classes it visits if the rebuilds of bases, with one level less to
go, do. -/
theorem accounts_build_of_deeper {depth : Nat} {d : BaseDescriptor} {place : List Nat}
    (hlevel : place.length + depth = 64)
    (hdeeper : ∀ rest, depth = rest + 1 → ∀ i b, Accounts memory demangler rest b (place ++ [i])
      (build memory.frame demangler rest b)) :
    Accounts memory demangler depth d place (build memory.frame demangler depth d) := by
  rw [build.eq_def]
  simp only [bind_eq, pure_eq, classOf_nil]
  rcases d.silent_type.runs memory with ⟨type, htype⟩ | ⟨e, htype⟩
  · obtain ⟨name, notes, hname, hdebug⟩ := exists_runs_nameOf memory demangler type
    have hnamed : IsNamed memory demangler d name := ⟨type, htype.gives, hname.gives⟩
    refine .bind htype (List.forall_mem_nil _) (.bind hname hdebug ?_)
    split
    · rename_i hsub
      refine .leaf (.done _) (.whole ?_)
      rw [isCut_classOf_iff]
      exact fun h => h.1 hsub
    · rename_i hsub
      cases depth with
      | zero =>
          refine .leaf (.note (.done _)) (.cut ?_ (.tooDeep rfl hnamed hlevel))
          exact isCut_classOf_iff.2 ⟨hsub, .inl hlevel⟩
      | succ depth =>
          have hplace : place.length ≠ 64 := by omega
          rcases d.silent_hierarchy.runs memory with ⟨hierarchy, hhierarchy⟩ | ⟨e, hhierarchy⟩
          · refine .bind hhierarchy (List.forall_mem_nil _) ?_
            cases hierarchy with
            | none =>
                refine .leaf (.note (.done _))
                  (.cut ?_ (.noHierarchy rfl hnamed hplace hhierarchy.gives))
                exact isCut_classOf_iff.2 ⟨hsub, .inr (.inl hhierarchy.gives)⟩
            | some h =>
                exact accounts_walk (hdeeper depth rfl) hnamed hsub hplace hhierarchy.gives
          · refine .interrupted (hhierarchy.bind_error _)
              (.hierarchy hnamed hsub hhierarchy.fails) .nil ?_
            rw [isCut_classOf_iff]
            rintro ⟨-, h | h | ⟨h, hsome, -⟩⟩
            · exact hplace h
            · exact h.not_fails e hhierarchy.fails
            · exact hsome.not_fails e hhierarchy.fails
  · exact ⟨[], [], _, htype.bind_error _, .interrupted (.type htype.fails), .nil⟩

/-- Every rebuild accounts for the classes it visits. -/
theorem accounts_build (memory : Memory) (demangler : Demangler) {depth : Nat} (d : BaseDescriptor)
    {place : List Nat} (hlevel : place.length + depth = 64) :
    Accounts memory demangler depth d place (build memory.frame demangler depth d) := by
  induction depth generalizing d place with
  | zero => exact accounts_build_of_deeper hlevel nofun
  | succ depth ih =>
      refine accounts_build_of_deeper hlevel fun rest hrest i b => ?_
      obtain rfl : depth = rest := Nat.succ.inj hrest
      refine ih b ?_
      rw [List.length_append, List.length_singleton]
      omega

/-! ## Messages -/

/-- The warnings of a rebuild in which `count` classes were cut, given that of the first. -/
def warningsOf (first : Text) (count : Nat) : List Message :=
  [⟨.warn, first⟩]
    ++ (if 1 < count then
        [⟨.warn, "and ".toList ++ Text.Numeral.decimal (count - 1) ++ " others...".toList⟩]
      else [])
    ++ [⟨.warn, "^^ ".toList ++ Journal.cutReason⟩]

theorem cutReport_cons (first : Text) (others : List Text) :
    Journal.cutReport (first :: others) = warningsOf first (first :: others).length := by
  cases others with
  | nil => rfl
  | cons second others =>
      have hcount : 1 < (first :: second :: others).length := by
        rw [List.length_cons, List.length_cons]
        omega
      unfold warningsOf
      rw [if_pos hcount]
      rfl

namespace Noted

variable {visits : List Visit} {journal : List Event}

/-- After what is noted about classes, the messages end with the report on the cuts. -/
theorem messages_eq {ending : List Event} (h : Noted memory demangler visits journal)
    (hending : ending = [] ∨ ending = [.rebuilt]) :
    Journal.messages (journal ++ ending)
      = Journal.passedOn journal ++ Journal.cutReport (cutTexts journal) := by
  refine Journal.messagesAfter_eq (fun hrebuilt => ?_) hending []
  rcases h.entries _ hrebuilt with ⟨text, hmessage⟩ | ⟨text, hcut⟩
  · cases hmessage
  · cases hcut

/-- None of the messages that are passed on is a warning. -/
theorem not_warn_of_mem_passedOn (h : Noted memory demangler visits journal) :
    ∀ m ∈ Journal.passedOn journal, m.level ≠ .warn := by
  intro m hm
  obtain ⟨event, hevent, hmessage⟩ := List.mem_filterMap.1 hm
  rcases h.entries event hevent with ⟨text, rfl⟩ | ⟨text, rfl⟩
  · obtain rfl := Option.some.inj hmessage
    nofun
  · cases hmessage

end Noted

/-- What a run says about the classes it visited. -/
structure Aggregates (memory : Memory) (demangler : Demangler) (visits : List Visit)
    (o : Outcome Class) : Prop where
  /-- no class is visited twice -/
  distinct : AtDistinctPlaces visits
  /-- a cut is noted for each class that is cut, in the order of the visits -/
  occurred : List.Forall₂ (Warns memory demangler) (cutVisits memory visits) (cutTexts o.journal)
  /-- without a cut there is no warning -/
  unwarned : cutVisits memory visits = [] → ∀ m ∈ o.messages, m.level ≠ .warn
  /-- otherwise the warnings come last: that of the first cut, the number of the others if there are
  any, and the reason -/
  warned : ∀ first rest, cutVisits memory visits = first :: rest →
    ∃ before text, (∀ m ∈ before, m.level ≠ .warn) ∧ Warns memory demangler first text
      ∧ o.messages = before ++ warningsOf text (cutVisits memory visits).length

theorem Noted.aggregates {spine : List Class} {journal ending : List Event}
    {result : Except Error Class}
    (h : Noted memory demangler (spineVisits [] spine) journal)
    (hending : ending = [] ∨ ending = [.rebuilt]) :
    Aggregates memory demangler (spineVisits [] spine) ⟨journal ++ ending, result⟩ := by
  have htexts : cutTexts (journal ++ ending) = cutTexts journal := by
    rw [cutTexts_append]
    rcases hending with rfl | rfl <;> exact List.append_nil _
  have hmessages : Outcome.messages ⟨journal ++ ending, result⟩ = _ := h.messages_eq hending
  refine ⟨atDistinctPlaces_spineVisits [] spine, htexts ▸ h.cuts, ?_, ?_⟩
  · intro hnone m hm
    have hcuts := h.cuts
    rw [hnone, List.forall₂_nil_left_iff] at hcuts
    have hreport : Journal.cutReport [] = [] := rfl
    rw [hmessages, hcuts, hreport, List.append_nil] at hm
    exact h.not_warn_of_mem_passedOn m hm
  · intro first rest hcut
    have hcuts := h.cuts
    rw [hcut] at hcuts
    obtain ⟨text, others, hfirst, -, hothers⟩ := List.forall₂_cons_left_iff.1 hcuts
    refine ⟨_, text, h.not_warn_of_mem_passedOn, hfirst, ?_⟩
    rw [hmessages, h.cuts.length_eq, hothers, cutReport_cons]

/-- What a rebuild of a class leaves behind. -/
abbrev outcome (memory : Memory) (demangler : Demangler) (d : BaseDescriptor) : Outcome Class :=
  Id.run ((ofBase memory.frame demangler d).run memory)

theorem EndsWith.unique {depth : Nat} {d : BaseDescriptor} {result : Except Error Class}
    {spine spine' : List Class} (h : EndsWith memory demangler depth d result spine)
    (h' : EndsWith memory demangler depth d result spine') : spine = spine' := by
  cases h with
  | completed => cases h'; rfl
  | interrupted h =>
      cases h' with
      | interrupted h' => exact h.unique h'

/-- A rebuild from a locator is that of a record, unless it ends before anything is noted. -/
theorem runs_ofLocator (memory : Memory) (demangler : Demangler) (l : Locator) :
    (∃ result, Runs memory (ofLocator memory.frame demangler l) [] result)
      ∨ ∃ d, Runs memory (ofLocator memory.frame demangler l) (outcome memory demangler d).journal
        ((outcome memory demangler d).result.map some) := by
  unfold ofLocator
  simp only [bind_eq, pure_eq]
  rcases l.silent_hierarchy.runs memory with ⟨hierarchy, hhierarchy⟩ | ⟨e, hhierarchy⟩
  · cases hierarchy with
    | none => exact .inl ⟨_, hhierarchy.bind (.done none)⟩
    | some h =>
        rcases (h.silent_base 0).runs memory with ⟨slot, hslot⟩ | ⟨e, hslot⟩
        · cases slot with
          | none => exact .inl ⟨_, hhierarchy.bind (hslot.bind (.done none))⟩
          | some d =>
              have hrun : Runs memory (ofBase memory.frame demangler d)
                  (outcome memory demangler d).journal (outcome memory demangler d).result := rfl
              exact .inr ⟨d, hhierarchy.bind (hslot.bind (hrun.map some))⟩
        · exact .inl ⟨_, hhierarchy.bind (hslot.bind_error _)⟩
  · exact .inl ⟨_, hhierarchy.bind_error _⟩

/-- However a rebuild ends, the classes it has visited by then are determined, and in a rebuild with
a result they are those of its tree.  The warnings aggregate the cuts of these classes.  A rebuild
from a locator is that of a record, unless it ends before anything is noted. -/
theorem warnings_aggregate (memory : Memory) (demangler : Demangler) :
    (∀ d : BaseDescriptor, ∃ spine,
        (∀ other, EndsWith memory demangler 64 d (outcome memory demangler d).result other
          ↔ other = spine)
        ∧ (∀ c, (outcome memory demangler d).result = .ok c →
          ∀ v, v ∈ spineVisits [] spine ↔ c.at? v.place = some v.found)
        ∧ Aggregates memory demangler (spineVisits [] spine) (outcome memory demangler d))
      ∧ ∀ l : Locator,
        (∃ result, Runs memory (ofLocator memory.frame demangler l) [] result)
          ∨ ∃ d, Runs memory (ofLocator memory.frame demangler l)
            (outcome memory demangler d).journal
            ((outcome memory demangler d).result.map some) := by
  refine ⟨fun d => ?_, runs_ofLocator memory demangler⟩
  obtain ⟨spine, journal, result, hrun, hends, hnoted⟩ := accounts_build memory demangler d
    (show ([] : List Nat).length + 64 = 64 from rfl)
  have hall (other : List Class) : EndsWith memory demangler 64 d result other ↔ other = spine :=
    ⟨fun hother => hother.unique hends, fun hother => hother ▸ hends⟩
  have htree (c : Class) (hc : result = .ok c) (v : Visit) :
      v ∈ spineVisits [] spine ↔ c.at? v.place = some v.found := by
    rw [hc] at hends
    cases hends
    rw [spineVisits_singleton]
    exact mem_visits_root
  have houtcome : ∃ ending, (ending = [] ∨ ending = [.rebuilt])
      ∧ outcome memory demangler d = ⟨journal ++ ending, result⟩ := by
    cases result with
    | ok c => exact ⟨_, .inr rfl, hrun.bind (.note (.done c))⟩
    | error e => exact ⟨[], .inl rfl, (List.append_nil journal).symm ▸ hrun.bind_error _⟩
  obtain ⟨ending, hending, houtcome⟩ := houtcome
  rw [houtcome]
  exact ⟨spine, hall, htree, hnoted.aggregates hending⟩

/-- The image without the hierarchy descriptor of `B` and the last slot of the array of `A`. -/
def sampleFrayed : Memory :=
  sampleImage.memory.without fun n => sampleLost n || (0x120C ≤ n && n < 0x1210)

/-- The image without the hierarchy descriptor of `B`, in which that slot fails to be read. -/
def sampleBroken : Memory := sampleDamaged.failingWithin [(⟨0x120C⟩, ⟨0x1210⟩)]

/-- What is said of `B`. -/
def sampleWarning : Text :=
  "failed to read the class hierarchy descriptor of 'B' at 0x1320".toList

/-- In the one memory `B` and then `A` are cut, and there is a class.  In the other `B` is cut, and
then the rebuild of `A` is interrupted. -/
theorem warnings_aggregate_sample :
    (∃ c visits, (outcome sampleFrayed plainDemangler sampleRoot).result = .ok c
        ∧ (∀ v, v ∈ visits ↔ c.at? v.place = some v.found)
        ∧ Aggregates sampleFrayed plainDemangler visits
          (outcome sampleFrayed plainDemangler sampleRoot)
        ∧ (cutVisits sampleFrayed visits).length = 2)
      ∧ (outcome sampleFrayed plainDemangler sampleRoot).messages = warningsOf sampleWarning 2
      ∧ (∃ e visits, (outcome sampleBroken plainDemangler sampleRoot).result = .error e
        ∧ Aggregates sampleBroken plainDemangler visits
          (outcome sampleBroken plainDemangler sampleRoot)
        ∧ (cutVisits sampleBroken visits).length = 1)
      ∧ (outcome sampleBroken plainDemangler sampleRoot).messages = warningsOf sampleWarning 1 := by
  obtain ⟨hresult, hcuts, hmessages⟩ :
      (outcome sampleFrayed plainDemangler sampleRoot).result.toBool = true
        ∧ (cutTexts (outcome sampleFrayed plainDemangler sampleRoot).journal).length = 2
        ∧ (outcome sampleFrayed plainDemangler sampleRoot).messages
          = warningsOf sampleWarning 2 := by
    decide +kernel
  obtain ⟨hfailure, hcut, hmessage⟩ :
      (outcome sampleBroken plainDemangler sampleRoot).result.toBool = false
        ∧ (cutTexts (outcome sampleBroken plainDemangler sampleRoot).journal).length = 1
        ∧ (outcome sampleBroken plainDemangler sampleRoot).messages
          = warningsOf sampleWarning 1 := by
    decide +kernel
  obtain ⟨spine, -, htree, hfrayed⟩ := (warnings_aggregate sampleFrayed plainDemangler).1 sampleRoot
  obtain ⟨other, -, -, hbroken⟩ := (warnings_aggregate sampleBroken plainDemangler).1 sampleRoot
  refine ⟨?_, hmessages, ?_, hmessage⟩
  · cases hc : (outcome sampleFrayed plainDemangler sampleRoot).result with
    | ok c => exact ⟨c, _, rfl, htree c hc, hfrayed, hfrayed.occurred.length_eq.trans hcuts⟩
    | error e =>
        rw [hc] at hresult
        cases hresult
  · cases he : (outcome sampleBroken plainDemangler sampleRoot).result with
    | ok c =>
        rw [he] at hfailure
        cases hfailure
    | error e => exact ⟨e, _, rfl, hbroken, hbroken.occurred.length_eq.trans hcut⟩

end RttiProbe.Hierarchy

import Mathlib.Data.List.Forall2
import Mathlib.Data.List.TakeWhile
import RttiProbe.Live.Mapping
import RttiProbe.Proofs.Text.Lines
/-!
# The module of a running program

The module whose records are read is the lowest mapping of an executable that is a module.  Whether
a mapping is one is known only after its header has been read, and some headers cannot be: the
mappings are put in order first and asked one after another, and the first that answers is the
lowest of all that would.  The order in which the map lists the mappings makes no difference.
-/

set_option autoImplicit false

namespace RttiProbe

/-! ## Extensions -/

/-- A character becomes a lower-case letter exactly if it is that letter, in either case. -/
theorem Text.toLower_eq_iff {c l : Char} (hl : 'a' ≤ l ∧ l ≤ 'z') :
    c.toLower = l ↔ c = l ∨ c = l.toUpper := by
  have ha : 97 ≤ l.val.toNat := hl.1
  have hz : l.val.toNat ≤ 122 := hl.2
  have hupper : l.toUpper.val.toNat = l.val.toNat - 32 := by
    unfold Char.toUpper
    rw [dif_pos (show 'a'.val ≤ l.val ∧ l.val ≤ 'z'.val from hl)]
    show (l.val + _).toNat = _
    rw [UInt32.toNat_add]
    show (l.val.toNat + 4294967264) % _ = _
    omega
  rw [Char.ext_iff, Char.ext_iff, Char.ext_iff, ← UInt32.toNat_inj, ← UInt32.toNat_inj,
    ← UInt32.toNat_inj, hupper]
  unfold Char.toLower
  split
  · rename_i h
    have hA : 65 ≤ c.val.toNat := h.1
    have hZ : c.val.toNat ≤ 90 := h.2
    show (c.val + _).toNat = _ ↔ _
    rw [UInt32.toNat_add]
    show (c.val.toNat + 32) % _ = _ ↔ _
    omega
  · rename_i h
    have hout : ¬(65 ≤ c.val.toNat ∧ c.val.toNat ≤ 90) := h
    omega

/-- A text spells a word of lower-case letters, each of them in either case. -/
def Text.Spells (s word : Text) : Prop :=
  List.Forall₂ (fun c l => c = l ∨ c = l.toUpper) s word

theorem Text.map_toLower_eq_iff {s word : Text} (hword : ∀ l ∈ word, 'a' ≤ l ∧ l ≤ 'z') :
    s.map Char.toLower = word ↔ Spells s word := by
  unfold Spells
  induction word generalizing s with
  | nil => rw [List.map_eq_nil_iff, List.forall₂_nil_right_iff]
  | cons l rest ih =>
      obtain ⟨hl, hrest⟩ := List.forall_mem_cons.1 hword
      cases s with
      | nil => exact iff_of_false nofun nofun
      | cons c s =>
          rw [List.map_cons, List.cons.injEq, List.forall₂_cons, toLower_eq_iff hl, ih hrest]

namespace Path

/-- The entry that a path ends in has an extension: a dot that is not its first character and, after
its last dot, this word in whatever case. -/
def HasExtension (p : Path) (word : Text) : Prop :=
  ∃ stem spelled, p.fileName = some (stem ++ '.' :: spelled) ∧ stem ≠ [] ∧ '.' ∉ spelled
    ∧ Text.Spells spelled word

theorem extension_eq_some_iff {p : Path} {after : Text} : p.extension = some after
    ↔ ∃ stem, p.fileName = some (stem ++ '.' :: after) ∧ stem ≠ [] ∧ '.' ∉ after := by
  unfold extension
  rw [Option.bind_eq_some_iff]
  dsimp only
  constructor
  · rintro ⟨name, hname, h⟩
    split at h
    · rename_i hlength
      obtain rfl := Option.some.inj h
      have hdot : '.' ∈ name.reverse := by
        by_contra hnot
        have hall : ∀ c ∈ name.reverse, decide (c ≠ '.') = true :=
          fun c hc => decide_eq_true fun hdot => hnot (hdot ▸ hc)
        rw [List.takeWhile_eq_self_iff.2 hall, List.length_reverse] at hlength
        omega
      obtain ⟨before, rest, hsplit, hbefore⟩ := List.eq_append_cons_of_mem hdot
      have hreverse : name = rest.reverse ++ '.' :: before.reverse := by
        rw [← List.reverse_reverse name, hsplit]
        simp
      rw [hsplit, Text.takeWhile_ne_append_cons hbefore] at hlength ⊢
      refine ⟨rest.reverse, hname.trans (congrArg some hreverse), ?_, by simpa using hbefore⟩
      rintro hnil
      rw [hreverse, hnil] at hlength
      simp at hlength
    · cases h
  · rintro ⟨stem, hname, hstem, hdot⟩
    have hreverse : (stem ++ '.' :: after).reverse = after.reverse ++ '.' :: stem.reverse := by simp
    have hdot' : '.' ∉ after.reverse := by simpa using hdot
    have hstem' := List.length_pos_iff.2 hstem
    refine ⟨_, hname, ?_⟩
    rw [hreverse, Text.takeWhile_ne_append_cons hdot', if_pos, List.reverse_reverse]
    simp
    omega

theorem hasExtension_iff {p : Path} {word : Text} (hword : ∀ l ∈ word, 'a' ≤ l ∧ l ≤ 'z') :
    p.HasExtension word ↔ ∃ after, p.extension = some after ∧ after.map Char.toLower = word := by
  simp only [extension_eq_some_iff, Text.map_toLower_eq_iff hword]
  constructor
  · rintro ⟨stem, spelled, hname, hstem, hdot, hspells⟩
    exact ⟨spelled, ⟨stem, hname, hstem, hdot⟩, hspells⟩
  · rintro ⟨spelled, ⟨stem, hname, hstem, hdot⟩, hspells⟩
    exact ⟨stem, spelled, hname, hstem, hdot, hspells⟩

end Path

namespace Live.Mapping

variable {header : Mapping → Id (Option Bytes)} {mapping : Mapping} {mappings : List Mapping}
  {is64Bit : Bool}

/-! ## Modules -/

/-- A readable mapping of an executable, the header of which shows a module of this width. -/
structure IsModule (header : Mapping → Id (Option Bytes)) (mapping : Mapping) (is64Bit : Bool) :
    Prop where
  readable : mapping.readable = true
  named : ∃ path, mapping.path = some path ∧ path.HasExtension "exe".toList
  shown : ∃ bs, header mapping = some bs
    ∧ Image.PortableExecutable.is64Bit? bs.toArray = some is64Bit

/-- What the header of a mapping shows, if it can be read. -/
def shown? (header : Mapping → Id (Option Bytes)) (mapping : Mapping) : Option Bool :=
  (Id.run (header mapping)).bind fun bs => Image.PortableExecutable.is64Bit? bs.toArray

theorem isExecutable_iff : mapping.isExecutable = true ↔ mapping.readable = true
    ∧ ∃ path, mapping.path = some path ∧ path.HasExtension "exe".toList := by
  have hword : ∀ l ∈ "exe".toList, 'a' ≤ l ∧ l ≤ 'z' := by simp
  unfold isExecutable
  simp only [Path.hasExtension_iff hword, Bool.and_eq_true, Option.any_eq_true,
    Option.bind_eq_some_iff, decide_eq_true_eq]
  grind

theorem isModule_iff : IsModule header mapping is64Bit
    ↔ mapping.isExecutable = true ∧ shown? header mapping = some is64Bit := by
  rw [isExecutable_iff, shown?, Option.bind_eq_some_iff]
  exact ⟨fun ⟨hreadable, hnamed, hshown⟩ => ⟨⟨hreadable, hnamed⟩, hshown⟩,
    fun ⟨⟨hreadable, hnamed⟩, hshown⟩ => ⟨hreadable, hnamed, hshown⟩⟩

theorem shown?_eq_none_iff (h : mapping.isExecutable = true) : shown? header mapping = none
    ↔ ∀ is64Bit, ¬IsModule header mapping is64Bit := by
  rw [Option.eq_none_iff_forall_ne_some]
  exact forall_congr' fun is64Bit => not_congr
    ⟨fun hshown => isModule_iff.2 ⟨h, hshown⟩, fun hmodule => (isModule_iff.1 hmodule).2⟩

/-- The answer is that of the first mapping whose header shows a module. -/
theorem run_firstModule? (header : Mapping → Id (Option Bytes)) (mappings : List Mapping) :
    Id.run (firstModule? header mappings)
      = mappings.findSome? fun r => (shown? header r).map fun is64Bit => (r.start, is64Bit) := by
  induction mappings with
  | nil => rfl
  | cons r rest ih =>
      rw [List.findSome?_cons, ← ih, firstModule?, Id.run_bind, shown?]
      cases (Id.run (header r)).bind fun bs => Image.PortableExecutable.is64Bit? bs.toArray <;> rfl

/-! ## Candidates -/

theorem mem_candidates_iff : mapping ∈ candidates mappings
    ↔ mapping ∈ mappings ∧ mapping.isExecutable = true := by
  rw [candidates, List.mem_mergeSort, List.mem_filter]

/-- If no two mappings start at one address, each candidate starts after those before it. -/
theorem pairwise_candidates (h : (mappings.map start).Nodup) :
    (candidates mappings).Pairwise (·.start < ·.start) := by
  have hsorted : (candidates mappings).Pairwise (·.start ≤ ·.start) := by
    refine (List.pairwise_mergeSort (fun a b c hab hbc => ?_) (fun a b => ?_) _).imp
      (fun hab => of_decide_eq_true hab)
    · exact decide_eq_true (Nat.le_trans (of_decide_eq_true hab) (of_decide_eq_true hbc))
    · simpa using Nat.le_total a.start b.start
  have hdistinct : (candidates mappings).Pairwise (·.start ≠ ·.start) := by
    have hsub := h.sublist ((List.filter_sublist (p := isExecutable)).map start)
    exact List.pairwise_map.1 (((List.mergeSort_perm _ _).map start).nodup_iff.2 hsub)
  exact hsorted.and hdistinct |>.imp fun ⟨hle, hne⟩ => Nat.lt_of_le_of_ne hle hne

/-! ## The lowest module -/

/-- A module starts at this address, and no module starts before it. -/
def IsLowestModule (header : Mapping → Id (Option Bytes)) (mappings : List Mapping) (start : Nat)
    (is64Bit : Bool) : Prop :=
  ∃ r ∈ mappings, r.start = start ∧ IsModule header r is64Bit
    ∧ ∀ q ∈ mappings, q.start < start → ∀ width, ¬IsModule header q width

/-- The mapping that answers first is the lowest module: the candidates are asked in order. -/
theorem run_module?_eq_some_iff (h : (mappings.map start).Nodup) {s : Nat} :
    Id.run (module? header mappings) = some (s, is64Bit)
      ↔ IsLowestModule header mappings s is64Bit := by
  have hordered := pairwise_candidates h
  unfold module?
  rw [run_firstModule?, List.findSome?_eq_some_iff]
  constructor
  · rintro ⟨before, r, after, hsplit, hanswer, hbefore⟩
    obtain ⟨width, hshown, hpair⟩ := Option.map_eq_some_iff.1 hanswer
    obtain ⟨rfl, rfl⟩ := Prod.mk.inj hpair
    have hr : r ∈ candidates mappings := hsplit ▸ by simp
    obtain ⟨hmem, hexecutable⟩ := mem_candidates_iff.1 hr
    refine ⟨r, hmem, rfl, isModule_iff.2 ⟨hexecutable, hshown⟩, fun q hq hlt other hmodule => ?_⟩
    obtain ⟨hq', hshown'⟩ := isModule_iff.1 hmodule
    -- a mapping that starts lower is among those that were asked before
    have hqmem : q ∈ before ++ r :: after := hsplit ▸ mem_candidates_iff.2 ⟨hq, hq'⟩
    rw [hsplit, List.pairwise_append, List.pairwise_cons] at hordered
    rcases List.mem_append.1 hqmem with hfirst | hlater
    · have hnone := Option.map_eq_none_iff.1 (hbefore q hfirst)
      rw [hshown'] at hnone
      cases hnone
    · rcases List.mem_cons.1 hlater with rfl | hlater
      · exact absurd hlt (Nat.lt_irrefl _)
      · exact absurd hlt (Nat.lt_asymm (hordered.2.1.1 q hlater))
  · rintro ⟨r, hmem, rfl, hmodule, hlowest⟩
    obtain ⟨hexecutable, hshown⟩ := isModule_iff.1 hmodule
    obtain ⟨before, after, hsplit⟩ :=
      List.append_of_mem (mem_candidates_iff.2 ⟨hmem, hexecutable⟩)
    refine ⟨before, r, after, hsplit, by rw [hshown, Option.map_some], fun q hq => ?_⟩
    rw [hsplit, List.pairwise_append] at hordered
    have hlt : q.start < r.start := hordered.2.2 q hq r List.mem_cons_self
    have hqmem : q ∈ candidates mappings := hsplit ▸ List.mem_append_left _ hq
    obtain ⟨hq, hq'⟩ := mem_candidates_iff.1 hqmem
    rw [Option.map_eq_none_iff, shown?_eq_none_iff hq']
    exact hlowest q hq hlt

theorem run_module?_eq_none_iff : Id.run (module? header mappings) = none
    ↔ ∀ r ∈ mappings, ∀ is64Bit, ¬IsModule header r is64Bit := by
  unfold module?
  rw [run_firstModule?, List.findSome?_eq_none_iff]
  constructor
  · intro hnone r hr is64Bit hmodule
    have hexecutable := (isModule_iff.1 hmodule).1
    have hshown := Option.map_eq_none_iff.1 (hnone r (mem_candidates_iff.2 ⟨hr, hexecutable⟩))
    exact (shown?_eq_none_iff hexecutable).1 hshown is64Bit hmodule
  · intro hnone r hr
    obtain ⟨hr, hexecutable⟩ := mem_candidates_iff.1 hr
    rw [Option.map_eq_none_iff, shown?_eq_none_iff hexecutable]
    exact hnone r hr

/-- The same mappings in another order have the same lowest module. -/
theorem IsLowestModule.of_perm {others : List Mapping} {s : Nat} (hperm : others.Perm mappings)
    (h : IsLowestModule header mappings s is64Bit) : IsLowestModule header others s is64Bit := by
  obtain ⟨r, hr, hstart, hmodule, hlowest⟩ := h
  exact ⟨r, hperm.mem_iff.2 hr, hstart, hmodule, fun q hq => hlowest q (hperm.mem_iff.1 hq)⟩

/-- If no two mappings start at one address, the module that is chosen is the lowest of all mappings
that are modules, and none is chosen only if none of them is.  The order of the mappings makes no
difference. -/
theorem module?_chooses_lowest (header : Mapping → Id (Option Bytes)) (mappings : List Mapping)
    (h : (mappings.map start).Nodup) :
    (∀ s is64Bit, Id.run (module? header mappings) = some (s, is64Bit)
        ↔ IsLowestModule header mappings s is64Bit)
      ∧ (Id.run (module? header mappings) = none
        ↔ ∀ r ∈ mappings, ∀ is64Bit, ¬IsModule header r is64Bit)
      ∧ ∀ others : List Mapping, others.Perm mappings →
        Id.run (module? header others) = Id.run (module? header mappings) := by
  refine ⟨fun s is64Bit => run_module?_eq_some_iff h, run_module?_eq_none_iff, ?_⟩
  intro others hperm
  have hothers : (others.map start).Nodup := (hperm.map start).nodup_iff.2 h
  refine Option.ext fun ⟨s, is64Bit⟩ => ?_
  rw [run_module?_eq_some_iff h, run_module?_eq_some_iff hothers]
  exact ⟨.of_perm hperm.symm, .of_perm hperm⟩

/-- The start of a 64-bit module. -/
def moduleStart : Bytes :=
  [0x4D, 0x5A] ++ List.replicate 58 0 ++ Memory.Word.toBytes 4 0x40 ++ [0x50, 0x45, 0, 0]
    ++ List.replicate 20 0 ++ Memory.Word.toBytes 2 0x20B

/-- Mappings in no order: two of one program, and below it another file, an executable that may not
be read, and one that is no module. -/
def sampleMappings : List Mapping :=
  [⟨0x140001000, 0x140100000, true, some ⟨"/games/App.exe".toList⟩⟩,
    ⟨0x130000000, 0x130001000, true, some ⟨"/games/Data.EXE".toList⟩⟩,
    ⟨0x140000000, 0x140001000, true, some ⟨"/games/App.exe".toList⟩⟩,
    ⟨0x120000000, 0x120001000, false, some ⟨"/games/Hidden.exe".toList⟩⟩,
    ⟨0x110000000, 0x110001000, true, some ⟨"/games/launcher.dll".toList⟩⟩]

/-- The headers of these mappings, two of which cannot be read. -/
def sampleHeader (mapping : Mapping) : Id (Option Bytes) :=
  match mapping.start with
  | 0x140001000 => none
  | 0x130000000 => some (List.replicate 0x100 0)
  | _ => some moduleStart

theorem module?_chooses_lowest_sample :
    (sampleMappings.map start).Nodup
      ∧ IsLowestModule sampleHeader sampleMappings 0x140000000 true
      ∧ Id.run (module? sampleHeader sampleMappings) = some (0x140000000, true)
      ∧ Id.run (module? sampleHeader sampleMappings.reverse) = some (0x140000000, true) := by
  have hdistinct : (sampleMappings.map start).Nodup := by decide
  obtain ⟨hsome, -, hperm⟩ := module?_chooses_lowest sampleHeader sampleMappings hdistinct
  have hlowest : IsLowestModule sampleHeader sampleMappings 0x140000000 true := by
    refine ⟨_, List.mem_cons_of_mem _ (List.mem_cons_of_mem _ List.mem_cons_self), rfl, ?_, ?_⟩
    · exact isModule_iff.2 (by decide +kernel)
    · simp only [isModule_iff]
      decide +kernel
  have hrun := (hsome _ _).2 hlowest
  exact ⟨hdistinct, hlowest, hrun, (hperm _ (List.reverse_perm _)).trans hrun⟩

end Live.Mapping

end RttiProbe

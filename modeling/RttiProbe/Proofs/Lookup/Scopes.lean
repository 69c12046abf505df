import Mathlib.Data.List.Basic
import RttiProbe.Proofs.Class.Canonical
import RttiProbe.Proofs.Lookup.Names
/-!
# The scopes of the class of an object

The scopes of a class can be told in two ways: by cutting its name at every separator, or by reading
the name as a class and taking its namespaces.  Cutting does not look at brackets.  So both tell the
same scopes as long as no list of arguments has a separator in it, and where one has, cutting takes
the list apart.
-/

set_option autoImplicit false

namespace RttiProbe.Lookup

open RttiProbe.Class (Canonical IsPlain scopeText argumentText qualifiedName extendFirst ownSegment)
open Decode
open Record

/-! ## Cutting a text at separators -/

theorem splitScopes_nil : splitScopes [] = [[]] := by
  rw [splitScopes]

theorem splitScopes_separator (s : Text) :
    splitScopes ([':', ':'] ++ s) = [] :: splitScopes s := by
  show splitScopes (':' :: ':' :: s) = _
  rw [splitScopes]

/-- A character that starts no separator belongs to the first part. -/
theorem splitScopes_cons {c : Char} {s : Text} (h : ¬ [':', ':'] <+: c :: s) :
    splitScopes (c :: s) = extendFirst [c] (splitScopes s) := by
  rw [splitScopes]
  · cases splitScopes s <;> rfl
  · rintro rest rfl rfl
    exact h ⟨rest, rfl⟩

theorem splitScopes_ne_nil (s : Text) : splitScopes s ≠ [] := by
  fun_cases splitScopes s <;> simp_all

/-- Along a text there is a separator at each place, or a character that does not start one. -/
theorem separator_induction {motive : Text → Prop} (nil : motive [])
    (separator : ∀ s, motive s → motive ([':', ':'] ++ s))
    (cons : ∀ c s, ¬ [':', ':'] <+: c :: s → motive s → motive (c :: s)) (s : Text) :
    motive s := by
  induction hlength : s.length using Nat.strongRecOn generalizing s with
  | ind n ih =>
      subst hlength
      cases s with
      | nil => exact nil
      | cons c rest =>
          by_cases h : [':', ':'] <+: c :: rest
          · obtain ⟨t, ht⟩ := h
            rw [← ht]
            refine separator t (ih t.length ?_ t rfl)
            rw [← ht, List.length_append]
            exact Nat.lt_add_of_pos_left (by decide)
          · exact cons c rest h (ih rest.length (by simp) rest rfl)

/-- The parts with separators between them are the text again. -/
theorem intercalate_splitScopes (s : Text) : [':', ':'].intercalate (splitScopes s) = s := by
  induction s using separator_induction with
  | nil => rw [splitScopes_nil, List.intercalate_singleton]
  | separator s ih =>
      rw [splitScopes_separator, List.intercalate_cons_of_ne_nil (splitScopes_ne_nil s), ih]
      rfl
  | cons c s h ih =>
      rw [splitScopes_cons h]
      cases hparts : splitScopes s with
      | nil => exact absurd hparts (splitScopes_ne_nil s)
      | cons part others =>
          rw [hparts] at ih
          show [':', ':'].intercalate ((c :: part) :: others) = c :: s
          cases others with
          | nil =>
              rw [List.intercalate_singleton] at ih ⊢
              rw [ih]
          | cons other rest =>
              rw [List.intercalate_cons_cons] at ih ⊢
              rw [← ih]
              rfl

/-- The first part of a text is how the text starts. -/
theorem prefix_of_splitScopes {s part : Text} {others : List Text}
    (h : splitScopes s = part :: others) : part <+: s := by
  have hs := intercalate_splitScopes s
  rw [h] at hs
  cases others with
  | nil => exact ⟨[], by rw [← hs, List.intercalate_singleton, List.append_nil]⟩
  | cons other rest =>
      rw [List.intercalate_cons_cons, List.append_assoc] at hs
      exact ⟨_, hs⟩

/-- No part has a separator in it. -/
theorem not_infix_of_mem_splitScopes {s : Text} :
    ∀ part ∈ splitScopes s, ¬ [':', ':'] <:+: part := by
  induction s using separator_induction with
  | nil => simp [splitScopes_nil]
  | separator s ih =>
      rw [splitScopes_separator]
      exact List.forall_mem_cons.2 ⟨by simp, ih⟩
  | cons c s h ih =>
      rw [splitScopes_cons h]
      cases hparts : splitScopes s with
      | nil => exact absurd hparts (splitScopes_ne_nil s)
      | cons part others =>
          rw [hparts] at ih
          obtain ⟨hpart, hothers⟩ := List.forall_mem_cons.1 ih
          refine List.forall_mem_cons.2 ⟨fun hwithin => ?_, hothers⟩
          rcases List.infix_cons_iff.1 hwithin with hstart | hwithin
          · exact h (hstart.trans ((List.prefix_cons_inj c).2 (prefix_of_splitScopes hparts)))
          · exact hpart hwithin

/-- A text without a separator is its only part. -/
theorem splitScopes_eq_self {s : Text} (h : ¬ [':', ':'] <:+: s) : splitScopes s = [s] := by
  have hs := intercalate_splitScopes s
  cases hparts : splitScopes s with
  | nil => exact absurd hparts (splitScopes_ne_nil s)
  | cons part others =>
      rw [hparts] at hs
      cases others with
      | nil => rw [← hs, List.intercalate_singleton]
      | cons other rest =>
          rw [List.intercalate_cons_cons] at hs
          exact absurd ⟨part, _, hs⟩ h

/-- A separator after a text that ends in no colon cuts there. -/
theorem splitScopes_append {s : Text} (h : s.getLast? ≠ some ':') (t : Text) :
    splitScopes (s ++ ([':', ':'] ++ t)) = splitScopes s ++ splitScopes t := by
  induction s using separator_induction with
  | nil =>
      rw [List.nil_append, splitScopes_separator, splitScopes_nil]
      rfl
  | separator s ih =>
      have hs : s.getLast? ≠ some ':' := by
        intro hs
        rw [List.getLast?_append, hs] at h
        exact h rfl
      rw [List.append_assoc, splitScopes_separator, splitScopes_separator, ih hs]
      rfl
  | cons c s hstart ih =>
      have hnext : ¬ [':', ':'] <+: c :: (s ++ ([':', ':'] ++ t)) := by
        rintro ⟨u, hu⟩
        obtain ⟨rfl, htail⟩ : ':' = c ∧ ':' :: u = s ++ ([':', ':'] ++ t) := List.cons.inj hu
        cases s with
        | nil => exact h rfl
        | cons d s =>
            obtain ⟨rfl, -⟩ : ':' = d ∧ u = s ++ ([':', ':'] ++ t) := List.cons.inj htail
            exact hstart ⟨s, rfl⟩
      have hs : s.getLast? ≠ some ':' := by
        intro hs
        rw [List.getLast?_cons, hs] at h
        exact h rfl
      rw [List.cons_append, splitScopes_cons hnext, splitScopes_cons hstart, ih hs]
      cases hparts : splitScopes s with
      | nil => exact absurd hparts (splitScopes_ne_nil s)
      | cons part others => rfl

/-- A row of texts that end in no colon is cut between them and within each of them. -/
theorem splitScopes_intercalate {rows : List Text} (hne : rows ≠ [])
    (h : ∀ s ∈ rows, s.getLast? ≠ some ':') :
    splitScopes ([':', ':'].intercalate rows) = rows.flatMap splitScopes := by
  induction rows with
  | nil => exact absurd rfl hne
  | cons s rest ih =>
      obtain ⟨hs, hothers⟩ := List.forall_mem_cons.1 h
      by_cases hrest : rest = []
      · subst hrest
        rw [List.intercalate_singleton, List.flatMap_singleton]
      · rw [List.intercalate_cons_of_ne_nil hrest, List.append_assoc, splitScopes_append hs,
          ih hrest hothers, List.flatMap_cons]

/-! ## Words between separators -/

/-- The text is a row of words, none of them empty and without colons, with separators between
them. -/
inductive IsScoped : Text → Prop where
  | word {s : Text} (hne : s ≠ []) (hclean : ':' ∉ s) : IsScoped s
  | scope {s t : Text} (hne : s ≠ []) (hclean : ':' ∉ s) (h : IsScoped t) :
      IsScoped (s ++ ([':', ':'] ++ t))

namespace IsScoped

variable {a b : Text}

theorem ne_nil (h : IsScoped a) : a ≠ [] := by
  cases h with
  | word hne => exact hne
  | scope hne => exact List.append_ne_nil_of_left_ne_nil hne _

theorem getLast?_ne (h : IsScoped a) : a.getLast? ≠ some ':' := by
  induction h with
  | word _ hclean => exact fun hlast => hclean (List.mem_of_getLast? hlast)
  | @scope s t _ _ ht ih =>
      rw [List.getLast?_append, List.getLast?_append]
      obtain ⟨c, hc⟩ := Option.ne_none_iff_exists'.1 (mt List.getLast?_eq_none_iff.1 ht.ne_nil)
      rw [hc] at ih ⊢
      exact ih

theorem append (ha : IsScoped a) (hb : IsScoped b) : IsScoped (a ++ b) := by
  induction ha with
  | @word s hne hclean =>
      cases hb with
      | word hne' hclean' =>
          exact .word (List.append_ne_nil_of_left_ne_nil hne _) (by simp [hclean, hclean'])
      | scope hne' hclean' ht =>
          rw [← List.append_assoc]
          exact .scope (List.append_ne_nil_of_left_ne_nil hne _) (by simp [hclean, hclean']) ht
  | scope hne hclean _ ih =>
      rw [List.append_assoc, List.append_assoc]
      exact .scope hne hclean ih

theorem append_scope (ha : IsScoped a) (hb : IsScoped b) : IsScoped (a ++ ([':', ':'] ++ b)) := by
  induction ha with
  | word hne hclean => exact .scope hne hclean hb
  | scope hne hclean _ ih =>
      rw [List.append_assoc, List.append_assoc]
      exact .scope hne hclean ih

theorem intercalate {rows : List Text} (hne : rows ≠ []) (h : ∀ s ∈ rows, IsScoped s) :
    IsScoped ([',', ' '].intercalate rows) := by
  induction rows with
  | nil => exact absurd rfl hne
  | cons s rest ih =>
      obtain ⟨hs, hothers⟩ := List.forall_mem_cons.1 h
      by_cases hrest : rest = []
      · subst hrest
        rwa [List.intercalate_singleton]
      · rw [List.intercalate_cons_of_ne_nil hrest]
        exact (hs.append (.word (by decide) (by decide))).append (ih hrest hothers)

/-- Cutting at every separator finds the words. -/
theorem nil_not_mem_splitScopes (h : IsScoped a) : [] ∉ splitScopes a := by
  have hword {s : Text} (hclean : ':' ∉ s) : splitScopes s = [s] :=
    splitScopes_eq_self fun hwithin => hclean (hwithin.subset (by simp))
  induction h with
  | word hne hclean =>
      rw [hword hclean]
      simpa using hne.symm
  | scope hne hclean _ ih =>
      rw [splitScopes_append (fun hlast => hclean (List.mem_of_getLast? hlast)), hword hclean]
      simpa using ⟨hne, ih⟩

end IsScoped

/-! ## Canonical classes -/

theorem colon_not_mem_of_isPlain {name : Text} (h : IsPlain name) : ':' ∉ name :=
  fun hmem => h.clean ':' hmem (by decide)

theorem isScoped_append_argumentText {name : Text} (hname : IsPlain name) {arguments : List Text}
    (h : ∀ a ∈ arguments, IsScoped a) : IsScoped (name ++ argumentText arguments) := by
  have hname : IsScoped name := .word hname.nonempty (colon_not_mem_of_isPlain hname)
  unfold argumentText
  split
  · rwa [List.append_nil]
  · rename_i hne
    have hopen : IsScoped ['<'] := .word (by decide) (by decide)
    have hclose : IsScoped ['>'] := .word (by decide) (by decide)
    have hrow := IsScoped.intercalate (mt List.isEmpty_iff.2 hne) h
    exact hname.append ((hopen.append hrow).append hclose)

theorem isScoped_scopeText_append {namespaces : List Text} {own : Text}
    (hscopes : ∀ scope ∈ namespaces, IsScoped scope) (hown : IsScoped own) :
    IsScoped (scopeText namespaces ++ own) := by
  unfold scopeText
  induction namespaces with
  | nil => exact hown
  | cons scope rest ih =>
      obtain ⟨hscope, hothers⟩ := List.forall_mem_cons.1 hscopes
      rw [List.flatMap_cons, List.append_assoc, List.append_assoc]
      exact hscope.append_scope (ih hothers)

/-- A canonical class, what it is by itself and each of its scopes are written as words between
separators. -/
theorem isScoped_of_canonical {c : Class} (hc : Canonical c) :
    IsScoped c.qualifiedName
      ∧ ∀ segment ∈ c.namespaces ++ [(ownSegment c).written], IsScoped segment := by
  induction hc with
  | @intro name scopes arguments isArgument plain _ _ _ _ ihScopes ihArguments =>
      have hscopes : ∀ scope ∈ scopes.map qualifiedName, IsScoped scope :=
        List.forall_mem_map.2 fun k hk => (ihScopes k hk).1
      have hown : IsScoped (name ++ argumentText (arguments.map qualifiedName)) :=
        isScoped_append_argumentText plain
          (List.forall_mem_map.2 fun a ha => (ihArguments a ha).1)
      constructor
      · rw [Class.qualifiedName_eq, List.append_assoc]
        exact isScoped_scopeText_append hscopes hown
      · rw [Class.written_ownSegment, List.forall_mem_append]
        exact ⟨hscopes, List.forall_mem_singleton.2 hown⟩

/-- A class is written as the row of its scopes and of what it is by itself. -/
theorem qualifiedName_eq_intercalate (c : Class) :
    c.qualifiedName = [':', ':'].intercalate (c.namespaces ++ [(ownSegment c).written]) := by
  rw [Class.qualifiedName_eq, List.append_assoc, ← Class.written_ownSegment, Class.scopeText_append]

/-- The name of a canonical class is cut between its segments, and within them. -/
theorem splitScopes_qualifiedName {c : Class} (hc : Canonical c) :
    splitScopes c.qualifiedName
      = (c.namespaces ++ [(ownSegment c).written]).flatMap splitScopes := by
  rw [qualifiedName_eq_intercalate]
  exact splitScopes_intercalate (by simp) fun segment hsegment =>
    ((isScoped_of_canonical hc).2 segment hsegment).getLast?_ne

/-- Cutting the name of a canonical class finds its segments if and only if none of them has a
separator in it. -/
theorem splitScopes_qualifiedName_eq_iff {c : Class} (hc : Canonical c) :
    splitScopes c.qualifiedName = c.namespaces ++ [(ownSegment c).written] ↔
      ∀ segment ∈ c.namespaces ++ [(ownSegment c).written], ¬ [':', ':'] <:+: segment := by
  constructor
  · intro h segment hsegment
    rw [← h] at hsegment
    exact not_infix_of_mem_splitScopes segment hsegment
  · intro h
    rw [splitScopes_qualifiedName hc]
    calc (c.namespaces ++ [(ownSegment c).written]).flatMap splitScopes
        = (c.namespaces ++ [(ownSegment c).written]).flatMap fun segment => [segment] :=
          List.flatMap_congr fun segment hsegment => splitScopes_eq_self (h segment hsegment)
      _ = c.namespaces ++ [(ownSegment c).written] := List.flatMap_singleton' _

/-! ## The scopes of an object -/

variable {memory : Memory} {frame : Frame} {demangler : Demangler} {object : Memory.Address}

theorem gives_namespaces {d : TypeDescriptor} {flags : Flags} {name : Text}
    (h : Gives memory (d.name demangler false true flags) name) :
    Gives memory (d.namespaces demangler flags) (Class.parse name).namespaces := by
  unfold TypeDescriptor.namespaces
  exact gives_bind.2 ⟨name, h, gives_done.2 rfl⟩

theorem gives_classNamespaces {name : Text}
    (h : Gives memory (className frame demangler object true .standard) name) :
    Gives memory (classNamespaces frame demangler object)
      ((splitScopes name).filter (!·.isEmpty)) := by
  unfold classNamespaces
  exact gives_bind.2 ⟨name, h, gives_done.2 rfl⟩

/-- A name that is found and not empty is that of the type of the locator. -/
theorem exists_gives_name_of_className {name : Text}
    (h : Gives memory (className frame demangler object true .standard) name) (hne : name ≠ []) :
    ∃ l d, Gives memory (ofObject frame demangler object) (some l)
      ∧ Gives memory (l.type frame) (some d)
      ∧ Gives memory (d.name demangler false true .standard) name := by
  rcases gives_className.1 h with ⟨-, hnil⟩ | ⟨l, hl, hname⟩
  · exact absurd hnil hne
  · obtain ⟨-, d, -, htype, -, -⟩ := exists_hasName_of_ofObject hl
    exact ⟨l, d, hl, htype, (gives_typeName htype).1 hname⟩

/-- The type of an object that is shown as a canonical class tells the scopes of that class. -/
theorem exists_gives_namespaces {c : Class} (hc : Canonical c)
    (hname : Gives memory (className frame demangler object true .standard) c.qualifiedName) :
    ∃ l d, Gives memory (ofObject frame demangler object) (some l)
      ∧ Gives memory (l.type frame) (some d)
      ∧ Gives memory (d.namespaces demangler .standard) c.namespaces := by
  obtain ⟨l, d, hl, htype, hshown⟩ := exists_gives_name_of_className hname hc.qualifiedName_ne_nil
  have hnamespaces := gives_namespaces hshown
  rw [Class.parse_canonical hc] at hnamespaces
  exact ⟨l, d, hl, htype, hnamespaces⟩

/-- If the class of an object is shown as a canonical class, the type of the object tells the scopes
of that class.  The scopes that are found for the object are what the name is cut into at every
separator: nothing is lost but the separators, and no part is empty or has a separator in it.  So
they are the scopes of the class and the class by itself if and only if none of these has a
separator in it, that is, in its list of arguments. -/
theorem classNamespaces_eq_iff (memory : Memory) (demangler : Demangler) (object : Memory.Address)
    {c : Class} (hc : Canonical c)
    (hname : Gives memory (className memory.frame demangler object true .standard)
      c.qualifiedName) :
    ∃ l d parts,
      Gives memory (ofObject memory.frame demangler object) (some l)
        ∧ Gives memory (l.type memory.frame) (some d)
        ∧ Gives memory (d.namespaces demangler .standard) c.namespaces
        ∧ Gives memory (classNamespaces memory.frame demangler object) parts
        ∧ [':', ':'].intercalate parts = c.qualifiedName
        ∧ (∀ part ∈ parts, part ≠ [] ∧ ¬ [':', ':'] <:+: part)
        ∧ (parts = c.namespaces ++ [(ownSegment c).written] ↔
          ∀ segment ∈ c.namespaces ++ [(ownSegment c).written], ¬ [':', ':'] <:+: segment) := by
  obtain ⟨l, d, hl, htype, hnamespaces⟩ := exists_gives_namespaces hc hname
  have hparts := gives_classNamespaces hname
  have hnil := (isScoped_of_canonical hc).1.nil_not_mem_splitScopes
  -- so there is nothing to leave out
  have hfilter : (splitScopes c.qualifiedName).filter (!·.isEmpty) = splitScopes c.qualifiedName :=
    List.filter_eq_self.2 fun part hpart => by
      simpa using fun hempty : part = [] => hnil (hempty ▸ hpart)
  rw [hfilter] at hparts
  exact ⟨l, d, _, hl, htype, hnamespaces, hparts, intercalate_splitScopes _,
    fun part hpart =>
      ⟨fun hempty => hnil (hempty ▸ hpart), not_infix_of_mem_splitScopes part hpart⟩,
    splitScopes_qualifiedName_eq_iff hc⟩

/-! ## A list of arguments without separators, and one with a separator -/

open RttiProbe.Class (wordArgument boxArgument)

/-- The class `App::Box<int>::Map<Box<Box<int>>>`. -/
def mapClass : Class :=
  ⟨"Map".toList, [wordArgument "App", boxArgument (wordArgument "int")].map qualifiedName,
    [boxArgument (boxArgument (wordArgument "int"))], [], none, false⟩

theorem mapClass_canonical : Canonical mapClass := by
  have int : Canonical (wordArgument "int") :=
    Class.wordArgument_canonical (Class.isPlain_of_all (by simp) rfl)
  have app : Canonical (wordArgument "App") :=
    Class.wordArgument_canonical (Class.isPlain_of_all (by simp) rfl)
  have box : Canonical (boxArgument (wordArgument "int")) := Class.boxArgument_canonical int rfl
  exact Canonical.intro (Class.isPlain_of_all (by simp) rfl) (by simpa using ⟨app, box⟩)
    (by simp [wordArgument, boxArgument]) (by simpa using Class.boxArgument_canonical box rfl)
    (by simp [boxArgument])

/-- The image with an object of `mapClass`. -/
def mapImage : Image := objectNamed ".?AV?$Map@V?$Box@V?$Box@H@@@@@?$Box@H@App@@"

/-- An object of a class with arguments, also in a scope, but without separators in their lists. -/
theorem classNamespaces_eq_iff_sample :
    ∃ l d parts,
      Gives mapImage.memory
          (ofObject mapImage.memory.frame Decorated.demangler ⟨0x140001000⟩) (some l)
        ∧ Gives mapImage.memory (l.type mapImage.memory.frame) (some d)
        ∧ Gives mapImage.memory (d.namespaces Decorated.demangler .standard) mapClass.namespaces
        ∧ Gives mapImage.memory
          (classNamespaces mapImage.memory.frame Decorated.demangler ⟨0x140001000⟩) parts
        ∧ parts = mapClass.namespaces ++ [(ownSegment mapClass).written] := by
  obtain ⟨l, d, parts, hl, htype, hnamespaces, hparts, -, -, hiff⟩ :=
    classNamespaces_eq_iff mapImage.memory Decorated.demangler ⟨0x140001000⟩ mapClass_canonical
      (by decide +kernel)
  exact ⟨l, d, parts, hl, htype, hnamespaces, hparts, hiff.2 (by decide)⟩

/-- The class `Box<A::B>`. -/
def scopedBox : Class :=
  ⟨"Box".toList, [], [⟨"B".toList, [wordArgument "A"].map qualifiedName, [], [], none, true⟩], [],
    none, false⟩

theorem scopedBox_canonical : Canonical scopedBox := by
  have scope : Canonical (wordArgument "A") :=
    Class.wordArgument_canonical (Class.isPlain_of_all (by simp) rfl)
  have argument :
      Canonical ⟨"B".toList, [wordArgument "A"].map qualifiedName, [], [], none, true⟩ :=
    Canonical.intro (Class.isPlain_of_all (by simp) rfl) (by simpa using scope)
      (by simp [wordArgument]) (by simp) (by simp)
  exact Canonical.bare (Class.isPlain_of_all (by simp) rfl) (by simpa using argument) (by simp)

/-- The image with an object of `scopedBox`. -/
def scopedImage : Image := objectNamed ".?AV?$Box@VB@A@@@@"

/-- The type of the object tells that `Box<A::B>` is in no scope, but the scopes that are found for
the object are `Box<A` and `B>`. -/
theorem classNamespaces_cuts_argument :
    Canonical scopedBox
      ∧ Gives scopedImage.memory
        (className scopedImage.memory.frame Decorated.demangler ⟨0x140001000⟩ true .standard)
        scopedBox.qualifiedName
      ∧ (∃ l d,
        Gives scopedImage.memory
            (ofObject scopedImage.memory.frame Decorated.demangler ⟨0x140001000⟩) (some l)
          ∧ Gives scopedImage.memory (l.type scopedImage.memory.frame) (some d)
          ∧ Gives scopedImage.memory (d.namespaces Decorated.demangler .standard)
            scopedBox.namespaces)
      ∧ scopedBox.namespaces ++ [(ownSegment scopedBox).written] = ["Box<A::B>".toList]
      ∧ Gives scopedImage.memory
        (classNamespaces scopedImage.memory.frame Decorated.demangler ⟨0x140001000⟩)
        ["Box<A".toList, "B>".toList] := by
  have hname : Gives scopedImage.memory
      (className scopedImage.memory.frame Decorated.demangler ⟨0x140001000⟩ true .standard)
      scopedBox.qualifiedName := by decide +kernel
  exact ⟨scopedBox_canonical, hname, exists_gives_namespaces scopedBox_canonical hname, by decide,
    by decide +kernel⟩

end RttiProbe.Lookup

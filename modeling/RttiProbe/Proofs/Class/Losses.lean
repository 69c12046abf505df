import RttiProbe.Proofs.Class.Rows
import RttiProbe.Proofs.Class.Tidying
/-!
# What a qualified name keeps

A class that is read from a text, written out again, is the text tidied: it differs from the text in
blanks, and in the lists that hold nothing but blanks, which are left out.  `lostLists` counts these
lists.  So nothing that can be seen is lost exactly if there is no such list at the end of the text
nor at the end of any argument, and only then does the qualified name tell all texts apart that
differ in more than blanks.
-/

set_option autoImplicit false

namespace RttiProbe.Class

open Text (trim isBlank AllBlank visible)

/-! ## Induction over arguments -/

theorem length_lt_of_mem_arguments {s : Text} {all : List Segment} (h : segments? s = some all)
    {segment : Segment} (hmem : segment ∈ all) {a : Text} (ha : a ∈ segment.arguments) :
    a.length < s.length := by
  unfold Segment.arguments at ha
  split at ha
  · cases ha
  · rename_i body hbody
    have hlength := length_le_of_mem_splitArguments ha
    have hlt := bodyLength_lt_of_segments h hmem (by simp [hbody])
    simp only [Segment.bodyLength, hbody, Option.getD_some] at hlt
    omega

/-- What holds of every text that is no row of segments, and of a row whenever it holds of the
arguments of its last segment, holds of every text. -/
theorem reading_induction {motive : Text → Prop} (whole : ∀ s, segments? s = none → motive s)
    (row : ∀ s scopes last, IsRow (scopes ++ [last]) s → (∀ a ∈ last.arguments, motive a) →
      motive s) (s : Text) : motive s := by
  cases h : segments? s with
  | none => exact whole s h
  | some all =>
      have hrow := segments?_eq_some_iff.1 h
      have hall : all.dropLast ++ [all.getLast hrow.ne_nil] = all := List.dropLast_concat_getLast _
      apply row s all.dropLast (all.getLast hrow.ne_nil) (hall.symm ▸ hrow)
      intro a ha
      have := length_lt_of_mem_arguments h (List.getLast_mem hrow.ne_nil) ha
      exact reading_induction whole row a
termination_by s.length

/-! ## Lists that are lost -/

/-- Whether the segment has a list that holds nothing but blanks. -/
def Segment.hasBlankList (s : Segment) : Bool :=
  match s.body with
  | none => false
  | some body => body.all isBlank

/-- The number of blank lists that are left out when a text is read as a class: that of its last
segment, and those of the arguments of that. -/
def lostLists (s : Text) : Nat :=
  match _h : segments? s with
  | none => 0
  | some all =>
    match _hlast : all.getLast? with
    | none => 0
    | some last =>
      (if last.hasBlankList then 1 else 0)
        + (last.arguments.attach.map fun ⟨a, _ha⟩ => lostLists a).sum
termination_by s.length
decreasing_by exact length_lt_of_mem_arguments _h (List.mem_of_getLast? _hlast) _ha

theorem lostLists_of_none {s : Text} (h : segments? s = none) : lostLists s = 0 := by
  rw [lostLists.eq_def]
  split
  · rfl
  · rename_i hsome
    rw [h] at hsome
    cases hsome

theorem lostLists_of_row {s : Text} {scopes : List Segment} {last : Segment}
    (h : IsRow (scopes ++ [last]) s) :
    lostLists s = (if last.hasBlankList then 1 else 0) + (last.arguments.map lostLists).sum := by
  have h := h.segments?_eq
  rw [lostLists.eq_def]
  split
  · rename_i hnone
    rw [h] at hnone
    cases hnone
  · rename_i all hall
    obtain rfl : scopes ++ [last] = all := Option.some.inj (h.symm.trans hall)
    split
    · rename_i hnone
      rw [List.getLast?_concat] at hnone
      cases hnone
    · rename_i found hfound
      rw [List.getLast?_concat] at hfound
      obtain rfl : last = found := Option.some.inj hfound
      simp

/-! ## Qualified names of what is read -/

theorem qualifiedName_mark (c : Class) (isArgument : Bool) :
    qualifiedName { c with isArgument } = c.qualifiedName := by
  rw [qualifiedName_eq, qualifiedName_eq]

theorem qualifiedName_parse_of_none {s : Text} (h : segments? s = none) :
    (parse s).qualifiedName = trim s := by
  rw [parse_of_none h, qualifiedName_eq]
  simp [ofName, scopeText, argumentText]

theorem qualifiedName_parse_of_row {s : Text} {scopes : List Segment} {last : Segment}
    (h : IsRow (scopes ++ [last]) s) :
    (parse s).qualifiedName = scopeText (scopes.map Segment.text)
      ++ (last.name ++ argumentText (last.arguments.map fun a => (parse a).qualifiedName)) := by
  rw [parse_of_segments h.segments?_eq, qualifiedName_eq, List.map_map, List.append_assoc]
  congr 3
  apply List.map_congr_left
  intro a _
  exact qualifiedName_mark (parse a) true

/-! ## Reading and writing tidies -/

/-- A list that is not blank is tidied when its arguments are. -/
theorem tidies_list {body : Text} (hbody : ¬ body.all isBlank = true)
    (ih : ∀ a ∈ splitArguments body, Tidies (lostLists a) a (parse a).qualifiedName) :
    Tidies ((splitArguments body).map lostLists).sum body
      ([',', ' '].intercalate ((splitArguments body).map fun a => (parse a).qualifiedName)) := by
  rw [splitArguments_of_not_blank hbody] at ih ⊢
  have hpieces : ∀ p ∈ pieces 0 body,
      Tidies (lostLists (trim p)) p (parse (trim p)).qualifiedName := by
    intro p hp
    exact (ih (trim p) (List.mem_map_of_mem hp)).of_trim
  have hrow := Tidies.intercalate hpieces
  rw [intercalate_pieces] at hrow
  rw [List.map_map, List.map_map]
  exact hrow

/-- The last segment of a text is tidied when its arguments are. -/
theorem tidies_written {s : Segment}
    (ih : ∀ a ∈ s.arguments, Tidies (lostLists a) a (parse a).qualifiedName) :
    Tidies ((if s.hasBlankList then 1 else 0) + (s.arguments.map lostLists).sum) s.written
      (s.name ++ argumentText (s.arguments.map fun a => (parse a).qualifiedName)) := by
  have hhead : Tidies 0 s.head s.name := Tidies.trimmed s.head
  unfold Segment.arguments Segment.hasBlankList Segment.written at *
  cases hbody : s.body with
  | none => simpa [argumentText] using hhead
  | some body =>
      simp only [hbody] at ih ⊢
      by_cases hblank : body.all isBlank = true
      · have hlist : Tidies 1 ('<' :: (body ++ ['>'])) [] :=
          Tidies.nil.dropList (Text.all_isBlank_iff.1 hblank)
        rw [splitArguments_of_blank hblank, if_pos hblank]
        simpa [argumentText] using hhead.append hlist
      · have hlist := ((tidies_list hblank ih).append (Tidies.refl ['>'])).keep '<'
        rw [if_neg hblank, argumentText_of_ne_nil (by simpa using splitArguments_ne_nil hblank)]
        simpa using hhead.append hlist

/-- The other segments of a text are tidied by trimming each of them. -/
theorem tidies_row {s : Text} {scopes : List Segment} {last : Segment}
    (h : IsRow (scopes ++ [last]) s) {lost : Nat} {own : Text}
    (hown : Tidies lost last.written own) :
    Tidies lost s (scopeText (scopes.map Segment.text) ++ own) := by
  induction scopes generalizing s with
  | nil =>
      cases h with
      | last _ hblanks => simpa [scopeText] using hown.append (Tidies.of_allBlank hblanks.allBlank)
      | next _ _ hrest => exact absurd rfl hrest.ne_nil
  | cons scope rest ih =>
      generalize hall : scope :: rest ++ [last] = all at h
      cases h with
      | last => simp at hall
      | @next _ blanks _ t _ hblanks hrest =>
          obtain ⟨rfl, rfl⟩ := List.cons.inj hall
          have hscope : Tidies 0 scope.written scope.text := by
            rw [Segment.text_eq]
            exact Tidies.trimmed scope.written
          have hall := (hscope.append (Tidies.of_allBlank hblanks.allBlank)).append
            ((Tidies.refl [':', ':']).append (ih hrest))
          simpa [scopeText] using hall

/-- Reading a text and writing the class out tidies the text. -/
theorem tidies_parse (s : Text) : Tidies (lostLists s) s (parse s).qualifiedName := by
  induction s using reading_induction with
  | whole s h =>
      rw [lostLists_of_none h, qualifiedName_parse_of_none h]
      exact Tidies.trimmed s
  | row s scopes last h ih =>
      rw [lostLists_of_row h, qualifiedName_parse_of_row h]
      exact tidies_row h (tidies_written ih)

/-! ## Empty lists in a text -/

/-- Whether an angle bracket is opened somewhere and closed with nothing but blanks in between. -/
def hasEmptyList : Text → Bool
  | [] => false
  | c :: rest => (c = '<' && (rest.dropWhile isBlank).head? = some '>') || hasEmptyList rest

theorem hasEmptyList_append_left (a : Text) {s : Text} (h : hasEmptyList s = true) :
    hasEmptyList (a ++ s) = true := by
  induction a with
  | nil => exact h
  | cons c rest ih =>
      show (_ || hasEmptyList (rest ++ s)) = true
      rw [ih, Bool.or_true]

theorem hasEmptyList_append_right {s : Text} (h : hasEmptyList s = true) (b : Text) :
    hasEmptyList (s ++ b) = true := by
  induction s with
  | nil => cases h
  | cons c rest ih =>
      rw [hasEmptyList, Bool.or_eq_true, Bool.and_eq_true, decide_eq_true_eq,
        decide_eq_true_eq] at h
      rw [List.cons_append, hasEmptyList, Bool.or_eq_true, Bool.and_eq_true, decide_eq_true_eq,
        decide_eq_true_eq]
      rcases h with ⟨hc, hclose⟩ | h
      · refine .inl ⟨hc, ?_⟩
        cases hrest : rest.dropWhile isBlank with
        | nil => simp [hrest] at hclose
        | cons d others =>
            rw [hrest] at hclose
            rw [List.dropWhile_append, hrest]
            exact hclose
      · exact .inr (ih h)

theorem hasEmptyList_mono {a s : Text} (h : a <:+: s) (ha : hasEmptyList a = true) :
    hasEmptyList s = true := by
  obtain ⟨before, after, rfl⟩ := h
  exact hasEmptyList_append_right (hasEmptyList_append_left before ha) after

theorem hasEmptyList_of_allBlank {blanks : Text} (h : AllBlank blanks) :
    hasEmptyList ('<' :: blanks ++ ['>']) = true := by
  have hclose : ((blanks ++ ['>']).dropWhile isBlank).head? = some '>' := by
    rw [List.dropWhile_append_of_pos h]
    rfl
  rw [List.cons_append, hasEmptyList, hclose]
  rfl

theorem infix_intercalate {p : Text} {ps : List Text} (hp : p ∈ ps) (separator : Text) :
    p <:+: separator.intercalate ps := by
  induction ps with
  | nil => cases hp
  | cons q rest ih =>
      by_cases hrest : rest = []
      · subst hrest
        obtain rfl := List.mem_singleton.1 hp
        exact ⟨[], [], by simp⟩
      · rw [List.intercalate_cons_of_ne_nil hrest]
        rcases List.mem_cons.1 hp with rfl | hp
        · exact ⟨[], separator ++ separator.intercalate rest, by simp⟩
        · exact (ih hp).trans (List.suffix_append _ _).isInfix

theorem Segment.infix_written {s : Segment} {a : Text} (ha : a ∈ s.arguments) :
    a <:+: s.written := by
  unfold Segment.arguments at ha
  unfold Segment.written
  cases hbody : s.body with
  | none => simp [hbody] at ha
  | some body =>
      simp only [hbody] at ha ⊢
      by_cases hblank : body.all isBlank = true
      · simp [splitArguments_of_blank hblank] at ha
      · rw [splitArguments_of_not_blank hblank] at ha
        obtain ⟨p, hp, rfl⟩ := List.mem_map.1 ha
        obtain ⟨before, after, -, -, htrim⟩ := Text.exists_surrounded p
        have hpiece : trim p <:+: p := ⟨before, after, htrim.symm⟩
        have hlist := infix_intercalate hp [',']
        rw [intercalate_pieces] at hlist
        have hbody : body <:+: s.head ++ '<' :: body ++ ['>'] := ⟨s.head ++ ['<'], ['>'], by simp⟩
        exact (hpiece.trans hlist).trans hbody

theorem IsRow.infix_written {all : List Segment} {t : Text} (h : IsRow all t) {s : Segment}
    (hs : s ∈ all) : s.written <:+: t := by
  induction h with
  | last =>
      rw [List.mem_singleton.1 hs]
      exact (List.prefix_append _ _).isInfix
  | @next first blanks others rest _ _ _ ih =>
      rcases List.mem_cons.1 hs with rfl | hs
      · exact ⟨[], blanks ++ ([':', ':'] ++ rest), by simp⟩
      · exact (ih hs).trans ⟨first.written ++ blanks ++ [':', ':'], [], by simp⟩

theorem Segment.hasEmptyList_written {s : Segment} (h : s.hasBlankList = true) :
    hasEmptyList s.written = true := by
  unfold Segment.hasBlankList at h
  unfold Segment.written
  cases hbody : s.body with
  | none => simp [hbody] at h
  | some body =>
      simp only [hbody] at h ⊢
      have hlist := hasEmptyList_of_allBlank (Text.all_isBlank_iff.1 h)
      simpa using hasEmptyList_append_left s.head hlist

/-- A text in which no list is empty loses none. -/
theorem lostLists_eq_zero {s : Text} (h : hasEmptyList s = false) : lostLists s = 0 := by
  induction s using reading_induction with
  | whole s hs => exact lostLists_of_none hs
  | row s scopes last hrow ih =>
      have hlast : last.written <:+: s := hrow.infix_written (by simp)
      have hnone {a : Text} (ha : a <:+: s) : ¬ hasEmptyList a = true := by
        intro hempty
        rw [hasEmptyList_mono ha hempty] at h
        cases h
      have hown : ¬ last.hasBlankList = true := fun hblank =>
        hnone hlast (last.hasEmptyList_written hblank)
      have harguments : (last.arguments.map lostLists).sum = 0 := by
        rw [List.sum_eq_zero_iff_forall_eq_nat]
        intro n hn
        obtain ⟨a, ha, rfl⟩ := List.mem_map.1 hn
        exact ih a ha (Bool.not_eq_true _ ▸ hnone ((Segment.infix_written ha).trans hlast))
      rw [lostLists_of_row hrow, if_neg hown, harguments]

/-! ## What is kept -/

/-- Apart from blanks, the qualified name of the class that a text is read as is the text exactly if
no list is lost, and then it belongs to no text that differs in more than blanks.  What each lost
list takes along are its two brackets, and no list is lost of a text in which none is empty. -/
theorem visible_qualifiedName_parse (s : Text) :
    (visible (parse s).qualifiedName = visible s ↔ lostLists s = 0)
      ∧ (hasEmptyList s = false → lostLists s = 0)
      ∧ (visible (parse s).qualifiedName).Sublist (visible s)
      ∧ (visible s).length = (visible (parse s).qualifiedName).length + 2 * lostLists s
      ∧ ∀ t, lostLists s = 0 → lostLists t = 0 →
        (parse s).qualifiedName = (parse t).qualifiedName → visible s = visible t := by
  have hs := tidies_parse s
  refine ⟨hs.visible_eq_iff, lostLists_eq_zero, hs.visible_sublist, hs.length_visible, ?_⟩
  intro t hlost hlost' hname
  have ht := tidies_parse t
  rw [← hs.visible_eq_iff.2 hlost, hname, ht.visible_eq_iff.2 hlost']

theorem visible_qualifiedName_parse_spaced :
    hasEmptyList "Map<Key ,Box< Value>>".toList = false
      ∧ visible (parse "Map<Key ,Box< Value>>".toList).qualifiedName
        = visible "Map<Key ,Box< Value>>".toList
      ∧ (parse "Map<Key ,Box< Value>>".toList).qualifiedName
        = (parse "Map< Key,Box<Value > >".toList).qualifiedName
      ∧ visible "Map<Key ,Box< Value>>".toList = visible "Map< Key,Box<Value > >".toList := by
  have hempty : hasEmptyList "Map<Key ,Box< Value>>".toList = false := by decide
  have hname : (parse "Map<Key ,Box< Value>>".toList).qualifiedName
      = (parse "Map< Key,Box<Value > >".toList).qualifiedName := by decide +kernel
  have hlost : lostLists "Map< Key,Box<Value > >".toList = 0 := by decide +kernel
  obtain ⟨hiff, hnone, -, -, hsame⟩ := visible_qualifiedName_parse "Map<Key ,Box< Value>>".toList
  exact ⟨hempty, hiff.2 (hnone hempty), hname, hsame _ (hnone hempty) hlost hname⟩

/-- A template without arguments loses its brackets, and cannot be told from a class that is no
template. -/
theorem visible_qualifiedName_parse_ne :
    visible (parse "Tuple<>".toList).qualifiedName ≠ visible "Tuple<>".toList
      ∧ (parse "Tuple<>".toList).qualifiedName = (parse "Tuple".toList).qualifiedName
      ∧ visible "Tuple<>".toList ≠ visible "Tuple".toList := by
  decide +kernel

end RttiProbe.Class

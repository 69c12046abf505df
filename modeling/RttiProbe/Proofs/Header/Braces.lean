import Mathlib.Data.List.Induction
import RttiProbe.Proofs.Header.Reader
/-!
# Braces of headers

A header read for its braces: each opens the scopes that were announced before it, if any were, and
is closed by the next brace that is not taken by one within it.  The header of a class has its
braces in pairs, with one pair for each block of namespaces and one for the class, and the lines of
a pair start with four spaces for each block around it.  Where the class is declared, exactly the
scopes that its namespaces stand for are open.
-/

set_option autoImplicit false

namespace RttiProbe.Header

/-! ## Reading braces -/

/-- A brace that is open. -/
structure Brace where
  /-- the scopes that it opens, if a block of namespaces was announced -/
  scopes : Option (List (Option Text))
  /-- the number of spaces that its line starts with -/
  indentation : Nat
  deriving DecidableEq, Repr, Inhabited

/-- Two braces that belong together. -/
structure BracePair where
  opening : Brace
  /-- the number of spaces that the line of the closing brace starts with -/
  indentation : Nat
  /-- the number of blocks of namespaces around both -/
  depth : Nat
  deriving DecidableEq, Repr, Inhabited

/-- The lines of both braces start with four spaces for each block around them. -/
def BracePair.IsLevel (pair : BracePair) : Prop :=
  pair.opening.indentation = 4 * pair.depth ∧ pair.indentation = 4 * pair.depth

/-- What was read of a header. -/
structure Layout where
  /-- the scopes of a block that was announced and not opened yet -/
  announced : Option (List (Option Text)) := none
  /-- the braces that are open, innermost first -/
  around : List Brace := []
  /-- the braces that were closed, the last first -/
  pairs : List BracePair := []
  /-- the classes that were declared, the last first -/
  declarations : List Declaration := []
  deriving DecidableEq, Repr, Inhabited

/-- How a block of scopes is announced: by their names with `::` between them, or by none. -/
def titleOf (scopes : List (Option Text)) : Text :=
  match scopes.filterMap id with
  | [] => "namespace".toList
  | names => "namespace ".toList ++ [':', ':'].intercalate names

namespace Layout

/-- The scopes that are open, outermost first. -/
def scopes (layout : Layout) : List (Option Text) :=
  layout.around.reverse.flatMap fun brace => brace.scopes.getD []

/-- Takes note of what a line is about.  A block has to be announced in the one way that there
is. -/
def announce (layout : Layout) (text : Text) : Option Layout :=
  match Row.ofLine text with
  | .block scopes =>
    if text.dropWhile (· = ' ') = titleOf scopes then some { layout with announced := some scopes }
    else none
  | .declaration name =>
    some { layout with declarations := ⟨layout.scopes, name⟩ :: layout.declarations }
  | _ => some layout

/-- Reads a character of a line with a given indentation.  A brace that closes needs one that is
open. -/
def character (indentation : Nat) (layout : Layout) (c : Char) : Option Layout :=
  if c = '\x7b' then
    some { layout with announced := none, around := ⟨layout.announced, indentation⟩ :: layout.around }
  else if c = '\x7d' then
    match layout.around with
    | [] => none
    | brace :: rest =>
      let pair := ⟨brace, indentation, rest.countP (·.scopes.isSome)⟩
      some { layout with around := rest, pairs := pair :: layout.pairs }
  else some layout

/-- Reads a line. -/
def line (layout : Layout) (text : Text) : Option Layout :=
  (layout.announce text).bind (text.foldlM (character (text.takeWhile (· = ' ')).length))

end Layout

/-- Reads a whole text, at the end of which no brace may be open. -/
def layout? (text : Text) : Option Layout :=
  ((text.splitOn '\n').foldlM Layout.line {}).filter (·.around.isEmpty)

/-! ## Counting braces -/

namespace Layout

variable {layout layout' : Layout}

/-- The number of braces that were opened. -/
def opened (layout : Layout) : Nat := layout.around.length + layout.pairs.length

/-- The number of braces that were closed. -/
def closed (layout : Layout) : Nat := layout.pairs.length

theorem character_counts (indentation : Nat) (layout : Layout) (c : Char) (layout' : Layout)
    (h : layout.character indentation c = some layout') :
    layout'.opened = layout.opened + [c].count '{'
      ∧ layout'.closed = layout.closed + [c].count '}' := by
  unfold character at h
  unfold opened closed
  split at h
  · rename_i hopening
    obtain rfl := Option.some.inj h
    simp only [hopening, List.length_cons]
    exact ⟨Nat.succ_add _ _, rfl⟩
  · rename_i hopening
    have hnone : [c].count '{' = 0 := List.count_eq_zero_of_not_mem (by simpa using Ne.symm hopening)
    split at h
    · rename_i hclosing
      split at h
      · cases h
      · rename_i brace rest haround
        obtain rfl := Option.some.inj h
        simp only [haround, hclosing, List.length_cons]
        exact ⟨Nat.succ_add_eq_add_succ _ _ |>.symm, rfl⟩
    · rename_i hclosing
      obtain rfl := Option.some.inj h
      rw [hnone, List.count_eq_zero_of_not_mem (by simpa using Ne.symm hclosing)]
      exact ⟨rfl, rfl⟩

/-- What each step adds to a count, all steps together add. -/
theorem count_of_foldlM {α : Type} {step : Layout → α → Option Layout} {measure : Layout → Nat}
    {text : α → Text} {c : Char}
    (hstep : ∀ layout a layout', step layout a = some layout' →
      measure layout' = measure layout + (text a).count c) {items : List α}
    (h : items.foldlM step layout = some layout') :
    measure layout' = measure layout + (items.flatMap text).count c := by
  induction items generalizing layout with
  | nil =>
      obtain rfl := Option.some.inj h
      rfl
  | cons a rest ih =>
      rw [List.foldlM_cons] at h
      obtain ⟨next, hnext, hrest⟩ := Option.bind_eq_some_iff.1 h
      rw [ih hrest, hstep _ _ _ hnext, List.flatMap_cons, List.count_append, Nat.add_assoc]

theorem announce_counts {text : Text} (h : layout.announce text = some layout') :
    layout'.opened = layout.opened ∧ layout'.closed = layout.closed := by
  unfold announce at h
  split at h
  · split at h
    · obtain rfl := Option.some.inj h
      exact ⟨rfl, rfl⟩
    · cases h
  · obtain rfl := Option.some.inj h
    exact ⟨rfl, rfl⟩
  · obtain rfl := Option.some.inj h
    exact ⟨rfl, rfl⟩

theorem line_counts (layout : Layout) (text : Text) (layout' : Layout)
    (h : layout.line text = some layout') :
    layout'.opened = layout.opened + text.count '{'
      ∧ layout'.closed = layout.closed + text.count '}' := by
  obtain ⟨announced, hannounce, hread⟩ := Option.bind_eq_some_iff.1 h
  have hopened := count_of_foldlM
    (fun before c after h => (character_counts _ before c after h).1) hread
  have hclosed := count_of_foldlM
    (fun before c after h => (character_counts _ before c after h).2) hread
  rw [List.flatMap_singleton', (announce_counts hannounce).1] at hopened
  rw [List.flatMap_singleton', (announce_counts hannounce).2] at hclosed
  exact ⟨hopened, hclosed⟩

end Layout

/-- Cutting a text into lines loses nothing but line breaks. -/
theorem count_flatten_splitOn {c : Char} (hc : c ≠ '\n') (text : Text) :
    (text.splitOn '\n').flatten.count c = text.count c := by
  induction text with
  | nil => rfl
  | cons first rest ih =>
      rw [List.splitOn_cons_eq_if_modifyHead]
      split
      · rename_i hbreak
        rw [List.flatten_cons, List.nil_append, ih, List.count_cons_of_ne]
        rintro rfl
        exact hc (by simpa using hbreak)
      · cases hsplit : rest.splitOn '\n' with
        | nil => exact absurd hsplit (List.splitOn_ne_nil '\n' rest)
        | cons line later =>
            rw [hsplit] at ih
            rw [List.modifyHead_cons, List.flatten_cons, List.cons_append, List.count_cons,
              List.count_cons, ← ih, List.flatten_cons]

/-- If a text is read to its end, then each of its braces is in one of the pairs. -/
theorem layout?_counts {text : Text} {layout : Layout} (h : layout? text = some layout) :
    layout.pairs.length = text.count '{' ∧ layout.pairs.length = text.count '}' := by
  obtain ⟨hlines, hclosed⟩ := Option.filter_eq_some_iff.1 h
  have haround : layout.around.length = 0 := by simpa using hclosed
  have hopening := Layout.count_of_foldlM
    (fun before line after h => (Layout.line_counts before line after h).1) hlines
  have hclosing := Layout.count_of_foldlM
    (fun before line after h => (Layout.line_counts before line after h).2) hlines
  rw [List.flatMap_id', count_flatten_splitOn (by decide)] at hopening hclosing
  unfold Layout.opened at hopening
  unfold Layout.closed at hclosing
  simp only [List.length_nil, Nat.zero_add, haround] at hopening hclosing
  exact ⟨hopening, hclosing⟩

/-! ## Flat texts -/

/-- A character that ends a line, or opens or closes a scope. -/
def isStructural (c : Char) : Bool := c = '\n' || c = '\x7b' || c = '\x7d'

/-- A text within one line that opens and closes nothing. -/
def IsFlat (text : Text) : Prop := ∀ c ∈ text, isStructural c = false

instance (text : Text) : Decidable (IsFlat text) := List.decidableBAll _ text

theorem IsFlat.append {a b : Text} (ha : IsFlat a) (hb : IsFlat b) : IsFlat (a ++ b) :=
  List.forall_mem_append.2 ⟨ha, hb⟩

theorem isFlat_of_not_mem {text : Text} (h : ∀ c, isStructural c = true → c ∉ text) :
    IsFlat text := fun c hc => eq_false_of_ne_true fun hstructural => h c hstructural hc

theorem IsFlat.not_mem {text : Text} (h : IsFlat text) {c : Char} (hc : isStructural c = true) :
    c ∉ text := fun hmem => Bool.false_ne_true ((h c hmem).symm.trans hc)

/-- What holds of the three characters holds of all that have to do with structure. -/
theorem forall_isStructural {p : Char → Prop} (hbreak : p '\n') (hopen : p '{') (hclose : p '}') :
    ∀ c, isStructural c = true → p c := by
  intro c hc
  have hcases : c = '\n' ∨ c = '{' ∨ c = '}' := by simpa [isStructural, or_assoc] using hc
  rcases hcases with rfl | rfl | rfl
  · exact hbreak
  · exact hopen
  · exact hclose

theorem isNameChar_of_isStructural : ∀ c, isStructural c = true → isNameChar c = false :=
  forall_isStructural rfl rfl rfl

theorem isFlat_indent (depth : Nat) : IsFlat (indent depth) := by
  intro c hc
  rw [List.eq_of_mem_replicate hc]
  rfl

theorem isFlat_intercalate {separator : Text} {parts : List Text} (hseparator : IsFlat separator)
    (h : ∀ part ∈ parts, IsFlat part) : IsFlat (separator.intercalate parts) :=
  isFlat_of_not_mem fun _ hc =>
    not_mem_intercalate (hseparator.not_mem hc) fun part hpart => (h part hpart).not_mem hc

theorem isFlat_blockTitle {block : Option (List Text)} (h : IsBlock block) :
    IsFlat (blockTitle block) :=
  isFlat_of_not_mem fun x hx => not_mem_blockTitle (isNameChar_of_isStructural x hx)
    (forall_isStructural (p := fun x => x ∉ "namespace ::".toList) (by decide) (by decide)
      (by decide) x hx) h

/-- The bases of a class have paths and names within one line, without braces. -/
def HasFlatBases (c : Class) : Prop :=
  ∀ base ∈ c.bases, IsFlat (path base).text ∧ IsFlat (baseName c base)

theorem isFlat_includeLine {p : Path} (h : IsFlat p.text) : IsFlat (includeLine p) :=
  ((by decide : IsFlat "#include <".toList).append h).append (by decide)

theorem HasFlatBases.includeLines {c : Class} (h : HasFlatBases c) :
    ∀ line ∈ includeLines c, IsFlat line := by
  intro line hline
  rcases eq_of_mem_includeLines hline with rfl | ⟨base, hbase, rfl⟩
  · exact nofun
  · exact isFlat_includeLine (h base hbase).1

theorem isFlat_of_mem_templateLines {depth : Nat} {c : Class} :
    ∀ line ∈ templateLines (indent depth) c, IsFlat line := by
  intro line hline
  refine isFlat_of_not_mem fun x hx => not_mem_of_mem_templateLines ?_ ?_ line hline
  · exact forall_isStructural (p := fun x => isDigit x = false) rfl rfl rfl x hx
  · exact forall_isStructural (p := fun x => x ∉ " template<typename T, >".toList) (by decide)
      (by decide) (by decide) x hx

theorem HasFlatBases.classLine {c : Class} (h : HasFlatBases c) (depth : Nat) :
    IsFlat (classLine (indent depth) c) := by
  have hname : IsFlat (identifier c.name) := isFlat_of_not_mem fun x hx =>
    (isIdentifier_identifier c.name).not_mem (isNameChar_of_isStructural x hx)
  have hbases : IsFlat (baseClause c) := by
    unfold baseClause
    split
    · exact nofun
    · refine IsFlat.append (by decide) (isFlat_intercalate (by decide) fun entry hentry => ?_)
      obtain ⟨base, hbase, rfl⟩ := List.mem_map.1 hentry
      exact IsFlat.append (by decide) (h base hbase).2
  rw [classLine_eq]
  exact (isFlat_indent depth).append (((by decide : IsFlat "class ".toList).append hname).append
    hbases)

/-! ## Reading lines -/

namespace Layout

variable {layout : Layout}

theorem foldlM_character_of_isFlat {indentation : Nat} {text : Text} (h : IsFlat text) :
    text.foldlM (character indentation) layout = some layout := by
  induction text with
  | nil => rfl
  | cons c rest ih =>
      obtain ⟨hc, hrest⟩ := List.forall_mem_cons.1 h
      have hopening : c ≠ '{' := by
        rintro rfl
        cases hc
      have hclosing : c ≠ '}' := by
        rintro rfl
        cases hc
      have hstep : character indentation layout c = some layout := by
        unfold character
        rw [if_neg hopening, if_neg hclosing]
      rw [List.foldlM_cons, hstep]
      exact ih hrest

theorem foldlM_line_cons {next : Layout} {text : Text} (h : layout.line text = some next)
    (rest : List Text) : (text :: rest).foldlM line layout = rest.foldlM line next := by
  rw [List.foldlM_cons, h]
  rfl

theorem foldlM_line_append {next : Layout} {texts : List Text}
    (h : texts.foldlM line layout = some next) (rest : List Text) :
    (texts ++ rest).foldlM line layout = rest.foldlM line next := by
  rw [List.foldlM_append, h]
  rfl

/-- A line without braces is only taken note of. -/
theorem line_of_isFlat {text : Text} (h : IsFlat text) :
    layout.line text = layout.announce text := by
  unfold line
  cases layout.announce text with
  | none => rfl
  | some next => exact foldlM_character_of_isFlat h

theorem foldlM_line_of_other {texts : List Text} (hflat : ∀ text ∈ texts, IsFlat text)
    (hother : ∀ text ∈ texts, Row.ofLine text = .other) :
    texts.foldlM line layout = some layout := by
  induction texts with
  | nil => rfl
  | cons text rest ih =>
      obtain ⟨htext, hrest⟩ := List.forall_mem_cons.1 hflat
      obtain ⟨hrow, hrows⟩ := List.forall_mem_cons.1 hother
      have hstep : layout.line text = some layout := by
        rw [line_of_isFlat htext, announce, hrow]
      rw [foldlM_line_cons hstep, ih hrest hrows]

/-- The number of spaces before a text within some blocks. -/
theorem length_takeWhile_indent (depth : Nat) {first : Char} (hfirst : first ≠ ' ') (text : Text) :
    ((indent depth ++ first :: text).takeWhile (· = ' ')).length = 4 * depth := by
  rw [List.takeWhile_append_of_pos, List.takeWhile_cons_of_neg (by simpa using hfirst),
    List.append_nil]
  · exact List.length_replicate
  · intro c hc
    exact decide_eq_true (List.eq_of_mem_replicate hc)

/-- A line with a brace alone opens what was announced. -/
theorem line_opening (depth : Nat) : layout.line (indent depth ++ ['{'])
    = some { layout with
      announced := none, around := ⟨layout.announced, 4 * depth⟩ :: layout.around } := by
  have hrow : Row.ofLine (indent depth ++ ['{']) = .opening :=
    Row.ofLine_indent depth (by decide) []
  unfold line announce
  rw [hrow, length_takeWhile_indent depth (by decide), Option.bind_some, List.foldlM_append,
    foldlM_character_of_isFlat (isFlat_indent depth)]
  rfl

/-- A line that starts with a closing brace closes the innermost brace that is open. -/
theorem line_closing (depth : Nat) {rest : Text} (hrest : rest = [] ∨ rest = [';']) {brace : Brace}
    {others : List Brace} (haround : layout.around = brace :: others) :
    layout.line (indent depth ++ '}' :: rest)
      = some { layout with
        around := others
        pairs := ⟨brace, 4 * depth, others.countP (·.scopes.isSome)⟩ :: layout.pairs } := by
  have hrow : Row.ofLine (indent depth ++ '}' :: rest) = .closing := by
    rw [Row.ofLine_indent depth (by decide)]
    rcases hrest with rfl | rfl <;> rfl
  have hflat : IsFlat rest := by
    rcases hrest with rfl | rfl <;> decide
  have hclose : character (4 * depth) layout '}' = some { layout with
      around := others
      pairs := ⟨brace, 4 * depth, others.countP (·.scopes.isSome)⟩ :: layout.pairs } := by
    unfold character
    rw [if_neg (by decide), if_pos rfl, haround]
  unfold line announce
  rw [hrow, length_takeWhile_indent depth (by decide), Option.bind_some, List.foldlM_append,
    foldlM_character_of_isFlat (isFlat_indent depth)]
  show (('}' :: rest).foldlM (character (4 * depth)) layout : Option Layout) = _
  rw [List.foldlM_cons, hclose]
  exact foldlM_character_of_isFlat hflat

/-! ## Reading blocks -/

/-- The braces that open blocks, outermost first, of which the first lies inside `depth` others. -/
def braces (depth : Nat) : List (Option (List Text)) → List Brace
  | [] => []
  | block :: inner => ⟨some (blockScopes block), 4 * depth⟩ :: braces (depth + 1) inner

theorem braces_append_singleton (depth : Nat) (outer : List (Option (List Text)))
    (block : Option (List Text)) : braces depth (outer ++ [block])
      = braces depth outer ++ [⟨some (blockScopes block), 4 * (depth + outer.length)⟩] := by
  induction outer generalizing depth with
  | nil => rfl
  | cons first rest ih =>
      rw [List.cons_append, braces, braces, ih (depth + 1), List.length_cons, List.cons_append,
        Nat.succ_add_eq_add_succ]

theorem countP_braces (depth : Nat) (opened : List (Option (List Text))) :
    (braces depth opened).countP (·.scopes.isSome) = opened.length := by
  induction opened generalizing depth with
  | nil => rfl
  | cons block inner ih =>
      rw [braces, List.countP_cons_of_pos rfl, ih (depth + 1), List.length_cons]

theorem flatMap_scopes_braces (depth : Nat) (opened : List (Option (List Text))) :
    (braces depth opened).flatMap (·.scopes.getD []) = opened.flatMap blockScopes := by
  induction opened generalizing depth with
  | nil => rfl
  | cons block inner ih => rw [braces, List.flatMap_cons, List.flatMap_cons, ih (depth + 1)]; rfl

/-- A block is announced in the way that there is. -/
theorem blockTitle_eq {block : Option (List Text)} (h : IsBlock block) :
    blockTitle block = titleOf (blockScopes block) := by
  cases block with
  | none => rfl
  | some names =>
      obtain ⟨name, rest, rfl⟩ := List.exists_cons_of_ne_nil h.1
      have hnames : (blockScopes (some (name :: rest))).filterMap id = name :: rest := by
        unfold blockScopes
        rw [List.filterMap_map, Function.id_comp]
        exact List.filterMap_some
      unfold titleOf
      rw [hnames]
      rfl

theorem line_blockTitle (depth : Nat) {block : Option (List Text)} (h : IsBlock block) :
    layout.line (indent depth ++ blockTitle block)
      = some { layout with announced := some (blockScopes block) } := by
  have htitle : (indent depth ++ blockTitle block).dropWhile (· = ' ')
      = titleOf (blockScopes block) := by
    rw [← blockTitle_eq h, List.dropWhile_append_of_pos]
    · cases block <;> rfl
    · intro c hc
      exact decide_eq_true (List.eq_of_mem_replicate hc)
  rw [line_of_isFlat ((isFlat_indent depth).append (isFlat_blockTitle h)), announce,
    Row.ofLine_blockTitle depth h]
  exact if_pos htitle

/-- Lines that open blocks leave their braces open. -/
theorem foldlM_openingLines (depth : Nat) {opened : List (Option (List Text))}
    (h : ∀ block ∈ opened, IsBlock block) (hannounced : layout.announced = none) :
    (openingLines depth opened).foldlM line layout
      = some { layout with around := (braces depth opened).reverse ++ layout.around } := by
  induction opened generalizing depth layout with
  | nil => rfl
  | cons block inner ih =>
      obtain ⟨hblock, hinner⟩ := List.forall_mem_cons.1 h
      rw [openingLines, foldlM_line_cons (line_blockTitle depth hblock),
        foldlM_line_cons (line_opening depth), ih (depth + 1) hinner rfl, braces,
        List.reverse_cons, List.append_assoc, hannounced]
      rfl

/-- Lines that close blocks close their braces in pairs. -/
theorem foldlM_closingLines (opened : List (Option (List Text))) (layout : Layout)
    (haround : layout.around = (braces 0 opened).reverse)
    (hlevel : ∀ pair ∈ layout.pairs, pair.IsLevel) :
    ∃ layout', (closingLines opened.length).foldlM line layout = some layout'
      ∧ layout'.around = [] ∧ layout'.declarations = layout.declarations
      ∧ ∀ pair ∈ layout'.pairs, pair.IsLevel := by
  induction opened using List.reverseRecOn generalizing layout with
  | nil => exact ⟨layout, rfl, haround, rfl, hlevel⟩
  | append_singleton outer block ih =>
      rw [braces_append_singleton, List.reverse_append, Nat.zero_add] at haround
      rw [List.length_append, List.length_singleton, closingLines,
        foldlM_line_cons (line_closing outer.length (.inl rfl) haround)]
      refine ih _ rfl (List.forall_mem_cons.2 ⟨?_, hlevel⟩)
      have hdepth : (braces 0 outer).reverse.countP (·.scopes.isSome) = outer.length := by
        rw [List.countP_reverse, countP_braces]
      exact ⟨congrArg (4 * ·) hdepth.symm, congrArg (4 * ·) hdepth.symm⟩

/-- The lines of a declaration leave the braces around it as they are, declare the class in the
scopes that are open, and have one pair of braces. -/
theorem foldlM_bodyLines (opened : List (Option (List Text))) {c : Class} (h : HasFlatBases c) :
    (bodyLines (indent opened.length) c).foldlM line { around := (braces 0 opened).reverse }
      = some {
        around := (braces 0 opened).reverse
        pairs := [⟨⟨none, 4 * opened.length⟩, 4 * opened.length, opened.length⟩]
        declarations := [⟨opened.flatMap blockScopes, identifier c.name⟩] } := by
  have hrow : Row.ofLine (Header.classLine (indent opened.length) c)
      = .declaration (identifier c.name) := by
    rw [classLine_eq]
    exact Row.ofLine_classLine _ (isIdentifier_identifier c.name) (head_baseClause c)
  have hscopes : scopes { around := (braces 0 opened).reverse } = opened.flatMap blockScopes := by
    unfold scopes
    rw [List.reverse_reverse, flatMap_scopes_braces]
  have hclass : line { around := (braces 0 opened).reverse }
        (Header.classLine (indent opened.length) c)
      = some {
        around := (braces 0 opened).reverse
        declarations := [⟨opened.flatMap blockScopes, identifier c.name⟩] } := by
    rw [line_of_isFlat (h.classLine _), announce, hrow]
    dsimp only
    rw [hscopes]
  have hblank (layout : Layout) : layout.line [] = some layout := rfl
  have hdepth : (braces 0 opened).reverse.countP (·.scopes.isSome) = opened.length := by
    rw [List.countP_reverse, countP_braces]
  have hclose (declarations : List Declaration) :
      line { around := ⟨none, 4 * opened.length⟩ :: (braces 0 opened).reverse, declarations }
        (indent opened.length ++ "\x7d;".toList)
      = some {
        around := (braces 0 opened).reverse
        pairs := [⟨⟨none, 4 * opened.length⟩, 4 * opened.length, opened.length⟩]
        declarations } := by
    refine (line_closing opened.length (.inr rfl) rfl).trans ?_
    rw [hdepth]
  unfold bodyLines
  rw [foldlM_line_append
      (foldlM_line_of_other isFlat_of_mem_templateLines Row.ofLine_of_mem_templateLines),
    foldlM_line_cons hclass, foldlM_line_cons (line_opening _), foldlM_line_cons (hblank _),
    foldlM_line_cons (hclose _)]
  rfl

end Layout

/-! ## Braces of headers -/

/-- The header of a class has its braces in order and declares the class in the scopes that its
namespaces stand for. -/
structure IsWellScoped (c : Class) (layout : Layout) : Prop where
  /-- one class is declared, in one scope for each namespace; one spelled as anonymous has no
  name -/
  declarations : layout.declarations = [⟨c.namespaces.map fun scope =>
    if scope = anonymousNamespace then none else some (identifier scope), identifier c.name⟩]
  isIdentifier : ∀ declaration ∈ layout.declarations, IsIdentifier declaration.name
    ∧ ∀ name, some name ∈ declaration.scopes → IsIdentifier name
  /-- every brace that opens belongs to a pair, and so does every brace that closes -/
  opening : (render c).count '{' = layout.pairs.length
  closing : (render c).count '}' = layout.pairs.length
  /-- the lines of a pair start with four spaces for each block of namespaces around it -/
  level : ∀ pair ∈ layout.pairs, pair.opening.indentation = 4 * pair.depth
    ∧ pair.indentation = 4 * pair.depth

theorem newline_not_mem_closingLines (count : Nat) :
    ∀ line ∈ closingLines count, '\n' ∉ line := by
  induction count with
  | zero => exact fun _ hline => absurd hline List.not_mem_nil
  | succ count ih =>
      exact List.forall_mem_cons.2 ⟨not_mem_indent_append (by decide) (by decide) count, ih⟩

theorem HasFlatBases.newline_not_mem_bodyLines {c : Class} (h : HasFlatBases c) (depth : Nat) :
    ∀ line ∈ bodyLines (indent depth) c, '\n' ∉ line := by
  intro line hline
  rcases List.mem_append.1 hline with htemplate | hrest
  · exact (isFlat_of_mem_templateLines line htemplate).not_mem rfl
  · simp only [List.mem_cons, List.not_mem_nil, or_false] at hrest
    rcases hrest with rfl | rfl | rfl | rfl
    · exact (h.classLine depth).not_mem rfl
    · exact not_mem_indent_append (by decide) (by decide) depth
    · exact List.not_mem_nil
    · exact not_mem_indent_append (by decide) (by decide) depth

/-- The lines of a header in which the class lies within some blocks. -/
def linesWithin (opened : List (Option (List Text))) (c : Class) : List Text :=
  ["#pragma once".toList, []] ++ includeLines c ++ openingLines 0 opened
    ++ bodyLines (indent opened.length) c ++ closingLines opened.length

theorem lines_eq (c : Class) : lines c = linesWithin (blocks (scopes c.namespaces)) c := by
  unfold lines linesWithin bodyLines
  simp only [List.append_assoc]

theorem HasFlatBases.newline_not_mem_linesWithin {c : Class} (h : HasFlatBases c)
    {opened : List (Option (List Text))} (hblocks : ∀ block ∈ opened, IsBlock block) :
    ∀ line ∈ linesWithin opened c, '\n' ∉ line := by
  unfold linesWithin
  simp only [List.forall_mem_append]
  exact ⟨⟨⟨⟨by decide, fun line hline => (h.includeLines line hline).not_mem rfl⟩,
    newline_not_mem_openingLines 0 hblocks⟩, h.newline_not_mem_bodyLines _⟩,
    newline_not_mem_closingLines _⟩

/-- Reading the lines of a header leaves no brace open and no pair out of line, and declares the
class in the scopes of the blocks around it. -/
theorem Layout.foldlM_linesWithin {opened : List (Option (List Text))} {c : Class}
    (hblocks : ∀ block ∈ opened, IsBlock block) (h : HasFlatBases c) :
    ∃ layout, (linesWithin opened c).foldlM line {} = some layout ∧ layout.around = []
      ∧ layout.declarations = [⟨opened.flatMap blockScopes, identifier c.name⟩]
      ∧ ∀ pair ∈ layout.pairs, pair.IsLevel := by
  have hguard : ["#pragma once".toList, []].foldlM line {} = some {} := rfl
  have hopening : (openingLines 0 opened).foldlM line {}
      = some { around := (braces 0 opened).reverse } := by
    rw [foldlM_openingLines 0 hblocks rfl, List.append_nil]
  unfold linesWithin
  simp only [List.append_assoc]
  rw [foldlM_line_append hguard,
    foldlM_line_append (foldlM_line_of_other h.includeLines Row.ofLine_of_mem_includeLines),
    foldlM_line_append hopening, foldlM_line_append (foldlM_bodyLines opened h)]
  exact foldlM_closingLines opened _ rfl (List.forall_mem_singleton.2 ⟨rfl, rfl⟩)

/-- The header of a class opens the scopes of its namespaces around the class, and closes them. -/
theorem render_well_scoped (c : Class) (h : HasFlatBases c) :
    ∃ layout, layout? (render c) = some layout ∧ IsWellScoped c layout := by
  have hblocks : ∀ block ∈ blocks (scopes c.namespaces), IsBlock block :=
    isBlock_of_mem_blocks fun _ hname => isIdentifier_of_some_mem_scopes hname
  obtain ⟨layout, hlines, haround, hdeclarations, hlevel⟩ := Layout.foldlM_linesWithin hblocks h
  rw [flatMap_blockScopes_blocks] at hdeclarations
  have hread : (render c).splitOn '\n' = linesWithin (blocks (scopes c.namespaces)) c ++ [[]] := by
    have hrender : render c = (lines c).flatMap (· ++ ['\n']) ++ [] := (List.append_nil _).symm
    rw [hrender, Text.splitOn_flatMap_newline, lines_eq,
      Text.flatMap_splitOn_newline (h.newline_not_mem_linesWithin hblocks)]
    rfl
  have hlayout : layout? (render c) = some layout := by
    refine Option.filter_eq_some_iff.2 ⟨?_, by rw [haround]; rfl⟩
    rw [hread, Layout.foldlM_line_append hlines]
    rfl
  obtain ⟨hopened, hclosed⟩ := layout?_counts hlayout
  refine ⟨layout, hlayout, hdeclarations, ?_, hopened.symm, hclosed.symm, hlevel⟩
  rw [hdeclarations]
  exact List.forall_mem_singleton.2
    ⟨isIdentifier_identifier c.name, fun name hname => isIdentifier_of_some_mem_scopes hname⟩

/-- A class in named and unnamed namespaces, some of which are no identifiers, with arguments and a
base. -/
def sampleNested : Class :=
  { Class.ofName "Box<int>".toList with
    namespaces := ["A".toList, "B<1>".toList, anonymousNamespace, anonymousNamespace, "2nd".toList,
      [], "\x7b\n".toList]
    arguments := [.ofName "int".toList, .ofName "T".toList]
    bases := [{ Class.ofName "Base".toList with namespaces := ["A".toList] }] }

theorem render_well_scoped_sample : HasFlatBases sampleNested
    ∧ ∃ layout, layout? (render sampleNested) = some layout ∧ IsWellScoped sampleNested layout := by
  have hflat : HasFlatBases sampleNested := by
    intro base hbase
    rw [List.mem_singleton.1 hbase]
    decide +kernel
  exact ⟨hflat, render_well_scoped sampleNested hflat⟩

end RttiProbe.Header

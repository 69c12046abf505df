import RttiProbe.Proofs.Header.Includes
import RttiProbe.Proofs.Text.Numeral
/-!
# Reading headers

A header read for what it declares, without regard to how it was made: the instructions to the
preprocessor are left out, each line says by its first word what it is about, braces open and close
the scopes announced before them, and the declaration is the first class that comes.  Whatever the
names of a class and its bases are, its header declares it under its identifier, in the scopes that
its namespaces stand for, and goes on with the list of its bases.
-/

set_option autoImplicit false

namespace RttiProbe.Header

/-! ## Rows -/

/-- What a line of a header is about. -/
inductive Row where
  /-- a block to be opened, with the scopes that it stands for -/
  | block (scopes : List (Option Text))
  /-- a class -/
  | declaration (name : Text)
  /-- a brace that opens a block -/
  | opening
  /-- a brace that closes a block -/
  | closing
  /-- anything else -/
  | other
  deriving DecidableEq, Repr, Inhabited

/-- The scopes that a block stands for, by what follows the word `namespace`. -/
def scopesOfTitle (title : Text) : List (Option Text) :=
  if title = [] then [none] else ((title.splitOn ':').filter (· ≠ [])).map some

/-- Reads a row by its first word. -/
def Row.ofText (text : Text) : Row :=
  let word := text.takeWhile (· ≠ ' ')
  let rest := (text.dropWhile (· ≠ ' ')).drop 1
  if word = "namespace".toList then .block (scopesOfTitle rest)
  else if word = "class".toList then .declaration (rest.takeWhile isNameChar)
  else if word = ['\x7b'] then .opening
  else if word = ['\x7d'] ∨ word = "\x7d;".toList then .closing
  else .other

/-- Reads a line, however far it is indented. -/
def Row.ofLine (line : Text) : Row := .ofText (line.dropWhile (· = ' '))

/-! ## Declarations -/

/-- The lines that are not instructions to the preprocessor.  An instruction that opens an angle
bracket goes on up to the line that closes it. -/
def withoutDirectives (isOpen : Bool) : List Text → List Text
  | [] => []
  | line :: rest =>
    if isOpen then withoutDirectives (!line.contains '>') rest
    else if isDirective line then withoutDirectives (line.contains '<' && !line.contains '>') rest
    else line :: withoutDirectives false rest

/-- What a header declares. -/
structure Declaration where
  /-- the scopes that are open around the class, outermost first -/
  scopes : List (Option Text)
  /-- the identifier of the class -/
  name : Text
  deriving DecidableEq, Repr, Inhabited

/-- Reads lines up to the first class.  The scopes `pending` have been announced, and `around` are
those of the open blocks, innermost first. -/
def declarationAfter (pending : List (Option Text)) (around : List (List (Option Text))) :
    List Text → Option Declaration
  | [] => none
  | line :: rest =>
    match Row.ofLine line with
    | .block scopes => declarationAfter scopes around rest
    | .declaration name => some ⟨around.reverse.flatten, name⟩
    | .opening => declarationAfter [] (pending :: around) rest
    | .closing => declarationAfter [] around.tail rest
    | .other => declarationAfter pending around rest

/-- What the text of a header declares. -/
def declaration? (text : Text) : Option Declaration :=
  declarationAfter [] [] (withoutDirectives false (text.splitOn '\n'))

/-- What follows the name of the class in a line that declares one. -/
def afterName (line : Text) : Text :=
  (((line.dropWhile (· = ' ')).dropWhile (· ≠ ' ')).drop 1).dropWhile isNameChar

/-- Reads lines up to the first class, and goes on with all that follows its name.  Instructions to
the preprocessor are passed over, as long as the class has not come. -/
def clauseAfter (isOpen : Bool) : List Text → Option Text
  | [] => none
  | line :: rest =>
    if isOpen then clauseAfter (!line.contains '>') rest
    else if isDirective line then clauseAfter (line.contains '<' && !line.contains '>') rest
    else
      match Row.ofLine line with
      | .declaration _ => some (['\n'].intercalate (afterName line :: rest))
      | _ => clauseAfter false rest

/-- What the text of a header says after the name of the class that it declares. -/
def clause? (text : Text) : Option Text := clauseAfter false (text.splitOn '\n')

/-! ## Reading rows -/

/-- The first word of a line tells what follows it. -/
theorem Row.ofLine_indent (depth : Nat) {first : Char} (hfirst : first ≠ ' ') (text : Text) :
    Row.ofLine (indent depth ++ first :: text) = Row.ofText (first :: text) := by
  unfold Row.ofLine
  rw [List.dropWhile_append_of_pos, List.dropWhile_cons_of_neg]
  · simpa using hfirst
  · intro c hc
    rw [List.eq_of_mem_replicate hc]
    rfl

theorem scopesOfTitle_intercalate {names : List Text} (hne : names ≠ [])
    (h : ∀ name ∈ names, IsIdentifier name) :
    scopesOfTitle ([':', ':'].intercalate names) = names.map some := by
  have hcolon : ∀ name ∈ names, name.splitOn ':' = [name] := fun name hname =>
    List.splitOn_eq_singleton ((h name hname).not_mem (by decide))
  have hparts : (([':', ':'].intercalate names).splitOn ':').filter (· ≠ []) = names := by
    clear hne
    induction names with
    | nil => rfl
    | cons name rest ih =>
        obtain ⟨hname, hrest⟩ := List.forall_mem_cons.1 h
        obtain ⟨hsplit, hsplits⟩ := List.forall_mem_cons.1 hcolon
        cases rest with
        | nil =>
            rw [List.intercalate_singleton, hsplit]
            exact List.filter_eq_self.2 (by simpa using hname.1)
        | cons second others =>
            rw [List.intercalate_cons_cons, List.append_assoc]
            show ((name ++ ':' :: ([] ++ ':' :: [':', ':'].intercalate (second :: others))).splitOn
              ':').filter _ = _
            rw [List.splitOn_append_cons_self, List.splitOn_append_cons_self, hsplit,
              List.filter_append, List.filter_append, ih hrest hsplits]
            simp [hname.1]
  have htitle : [':', ':'].intercalate names ≠ [] := by
    intro hnil
    rw [hnil] at hparts
    exact hne hparts.symm
  unfold scopesOfTitle
  rw [if_neg htitle, hparts]

/-- The scopes that a block stands for. -/
def blockScopes : Option (List Text) → List (Option Text)
  | none => [none]
  | some names => names.map some

/-- A block is without a name, or has identifiers for names. -/
def IsBlock : Option (List Text) → Prop
  | none => True
  | some names => names ≠ [] ∧ ∀ name ∈ names, IsIdentifier name

/-- The line that announces a block tells its scopes. -/
theorem Row.ofLine_blockTitle (depth : Nat) {block : Option (List Text)} (h : IsBlock block) :
    Row.ofLine (indent depth ++ blockTitle block) = .block (blockScopes block) := by
  cases block with
  | none => exact Row.ofLine_indent depth (by decide) "amespace".toList
  | some names =>
      refine (Row.ofLine_indent depth (by decide) _).trans ?_
      exact congrArg Row.block (scopesOfTitle_intercalate h.1 h.2)

theorem Row.ofLine_classLine (depth : Nat) {name : Text} (h : IsIdentifier name) {rest : Text}
    (hrest : ∀ c ∈ rest.head?, isNameChar c = false) :
    Row.ofLine (indent depth ++ ("class ".toList ++ name ++ rest)) = .declaration name := by
  refine (Row.ofLine_indent depth (by decide) _).trans ?_
  refine congrArg Row.declaration ((List.takeWhile_append_of_pos h.2.1).trans ?_)
  cases rest with
  | nil => exact List.append_nil name
  | cons c others =>
      rw [List.takeWhile_cons_of_neg (by rw [hrest c rfl]; exact Bool.false_ne_true)]
      exact List.append_nil name

theorem Row.ofLine_of_mem_templateLines {depth : Nat} {c : Class} :
    ∀ line ∈ templateLines (indent depth) c, Row.ofLine line = .other := by
  intro line hline
  rw [eq_of_mem_templateLines hline]
  refine (Row.ofLine_indent depth (by decide) _).trans ?_
  rfl

theorem Row.ofLine_of_mem_includeLines {c : Class} :
    ∀ line ∈ includeLines c, Row.ofLine line = .other := by
  intro line hline
  rcases eq_of_mem_includeLines hline with rfl | ⟨base, -, rfl⟩ <;> rfl

/-! ## Blocks -/

/-- Blocks stand for the scopes that they are made of. -/
theorem flatMap_blockScopes_blocks (scopes : List (Option Text)) :
    (blocks scopes).flatMap blockScopes = scopes := by
  fun_induction blocks scopes with
  | case1 => rfl
  | case2 rest ih => rw [List.flatMap_cons, ih]; rfl
  | case3 name rest names others hrest ih =>
      rw [hrest, List.flatMap_cons] at ih
      rw [List.flatMap_cons, ← ih]
      rfl
  | case4 name rest hrest ih => rw [List.flatMap_cons, ih]; rfl

/-- A block with names has at least one. -/
theorem ne_nil_of_some_mem_blocks {scopes : List (Option Text)} {names : List Text}
    (h : some names ∈ blocks scopes) : names ≠ [] := by
  fun_induction blocks scopes with
  | case1 => exact absurd h List.not_mem_nil
  | case2 rest ih => exact ih (List.mem_of_ne_of_mem (Option.some_ne_none names) h)
  | case3 name rest shared others hrest ih =>
      rcases List.mem_cons.1 h with heq | hother
      · rw [Option.some.inj heq]
        exact List.cons_ne_nil _ _
      · exact ih (hrest ▸ List.mem_cons_of_mem _ hother)
  | case4 name rest hrest ih =>
      rcases List.mem_cons.1 h with heq | hother
      · rw [Option.some.inj heq]
        exact List.cons_ne_nil _ _
      · exact ih hother

theorem isBlock_of_mem_blocks {scopes : List (Option Text)}
    (h : ∀ name, some name ∈ scopes → IsIdentifier name) :
    ∀ block ∈ blocks scopes, IsBlock block := by
  intro block hblock
  cases block with
  | none => trivial
  | some names =>
      refine ⟨ne_nil_of_some_mem_blocks hblock, fun name hname => h name ?_⟩
      rw [← flatMap_blockScopes_blocks scopes]
      exact List.mem_flatMap.2 ⟨some names, hblock, List.mem_map_of_mem hname⟩

theorem isBlock_of_mem_blocksOf (c : Class) : ∀ block ∈ blocksOf c, IsBlock block :=
  isBlock_of_mem_blocks fun _ hname => isIdentifier_of_some_mem_scopes hname

/-! ## Reading headers -/

/-- Reads what is declared by lines with instructions to the preprocessor. -/
def readFrom (pending : List (Option Text)) (around : List (List (Option Text)))
    (lines : List Text) : Option Declaration :=
  declarationAfter pending around (withoutDirectives false lines)

section Reading

variable {pending : List (Option Text)} {around : List (List (Option Text))} {line : Text}
  {rest : List Text}

theorem readFrom_cons (h : isDirective line = false) :
    readFrom pending around (line :: rest) =
      match Row.ofLine line with
      | .block scopes => readFrom scopes around rest
      | .declaration name => some ⟨around.reverse.flatten, name⟩
      | .opening => readFrom [] (pending :: around) rest
      | .closing => readFrom [] around.tail rest
      | .other => readFrom pending around rest := by
  unfold readFrom
  rw [withoutDirectives, if_neg Bool.false_ne_true, if_neg (by rw [h]; exact Bool.false_ne_true),
    declarationAfter]

/-- Lines that open blocks open the scopes that the blocks stand for. -/
theorem readFrom_openingLines (depth : Nat) {opened : List (Option (List Text))}
    (h : ∀ block ∈ opened, IsBlock block) :
    readFrom [] around (openingLines depth opened ++ rest)
      = readFrom [] ((opened.map blockScopes).reverse ++ around) rest := by
  induction opened generalizing depth around with
  | nil => rfl
  | cons block inner ih =>
      obtain ⟨hblock, hinner⟩ := List.forall_mem_cons.1 h
      have htitle : isDirective (indent depth ++ blockTitle block) = false := by
        refine isDirective_indent_append ?_ depth
        cases block <;> rfl
      have hbrace : Row.ofLine (indent depth ++ ['{']) = .opening :=
        Row.ofLine_indent depth (by decide) []
      rw [openingLines, List.cons_append, List.cons_append, readFrom_cons htitle,
        Row.ofLine_blockTitle depth hblock]
      dsimp only
      rw [readFrom_cons (isDirective_indent_append rfl depth), hbrace]
      dsimp only
      rw [ih (depth + 1) hinner]
      simp

/-- Lines that say nothing about scopes and classes are passed over. -/
theorem readFrom_cons_other (h : isDirective line = false) (hother : Row.ofLine line = .other) :
    readFrom pending around (line :: rest) = readFrom pending around rest := by
  rw [readFrom_cons h, hother]

theorem readFrom_append_of_other {texts : List Text}
    (h : ∀ text ∈ texts, isDirective text = false)
    (hother : ∀ text ∈ texts, Row.ofLine text = .other) :
    readFrom pending around (texts ++ rest) = readFrom pending around rest := by
  induction texts with
  | nil => rfl
  | cons text others ih =>
      obtain ⟨htext, htexts⟩ := List.forall_mem_cons.1 h
      obtain ⟨hrow, hrows⟩ := List.forall_mem_cons.1 hother
      rw [List.cons_append, readFrom_cons_other htext hrow, ih htexts hrows]

end Reading

/-! ## Line breaks -/

theorem not_mem_indent_append {c : Char} (hc : c ≠ ' ') {line : Text} (h : c ∉ line)
    (depth : Nat) : c ∉ indent depth ++ line := by
  unfold indent
  simp [h, hc]

theorem not_mem_intercalate {separator : Text} {parts : List Text} {c : Char}
    (hseparator : c ∉ separator) (h : ∀ part ∈ parts, c ∉ part) :
    c ∉ separator.intercalate parts := by
  induction parts with
  | nil => exact List.not_mem_nil
  | cons part rest ih =>
      obtain ⟨hpart, hrest⟩ := List.forall_mem_cons.1 h
      cases rest with
      | nil => rwa [List.intercalate_singleton]
      | cons second others =>
          rw [List.intercalate_cons_cons]
          simp [hpart, hseparator, ih hrest]

/-- The line that announces a block is made of its words and of names. -/
theorem not_mem_blockTitle {c : Char} (hc : isNameChar c = false)
    (hwords : c ∉ "namespace ::".toList) {block : Option (List Text)} (h : IsBlock block) :
    c ∉ blockTitle block := by
  have hword (word : String) (hsubset : word.toList ⊆ "namespace ::".toList) : c ∉ word.toList :=
    fun hmem => hwords (hsubset hmem)
  cases block with
  | none => exact hword "namespace" (by decide)
  | some names =>
      have hlist : c ∉ [':', ':'].intercalate names :=
        not_mem_intercalate (hword "::" (by decide)) fun name hname => (h.2 name hname).not_mem hc
      exact fun hmem => (List.mem_append.1 hmem).elim (hword "namespace " (by decide)) hlist

theorem newline_not_mem_openingLines (depth : Nat) {opened : List (Option (List Text))}
    (h : ∀ block ∈ opened, IsBlock block) : ∀ line ∈ openingLines depth opened, '\n' ∉ line := by
  induction opened generalizing depth with
  | nil => exact fun _ hline => absurd hline List.not_mem_nil
  | cons block inner ih =>
      obtain ⟨hblock, hinner⟩ := List.forall_mem_cons.1 h
      have htitle : '\n' ∉ blockTitle block := not_mem_blockTitle rfl (by decide) hblock
      rw [openingLines, List.forall_mem_cons, List.forall_mem_cons]
      exact ⟨not_mem_indent_append (by decide) htitle depth,
        not_mem_indent_append (by decide) (by decide) depth, ih (depth + 1) hinner⟩

theorem not_mem_decimal {c : Char} (h : isDigit c = false) (n : Nat) :
    c ∉ Text.Numeral.decimal n := by
  have hdigits : ∀ d < 10, isDigit (Text.Numeral.digitChar d) = true := by decide
  intro hmem
  obtain ⟨d, hd, rfl⟩ := List.mem_map.1 hmem
  rw [hdigits d (Text.Numeral.lt_of_mem_digits (by decide) n d hd)] at h
  cases h

/-- The line that announces a template is made of its words and of digits. -/
theorem not_mem_of_mem_templateLines {c : Char} (hdigit : isDigit c = false)
    (hwords : c ∉ " template<typename T, >".toList) {depth : Nat} {template : Class} :
    ∀ line ∈ templateLines (indent depth) template, c ∉ line := by
  have hword (word : String) (hsubset : word.toList ⊆ " template<typename T, >".toList) :
      c ∉ word.toList := fun hmem => hwords (hsubset hmem)
  have hparameters (count : Nat) : ∀ parameter ∈ templateParameters count, c ∉ parameter := by
    intro parameter h
    unfold templateParameters at h
    split at h
    · rw [List.mem_singleton.1 h]
      exact hword _ (by decide)
    · obtain ⟨i, -, rfl⟩ := List.mem_map.1 h
      exact fun hmem => (List.mem_append.1 hmem).elim (hword _ (by decide))
        (not_mem_decimal hdigit i)
  have hspace : c ≠ ' ' := by
    rintro rfl
    exact hwords List.mem_cons_self
  have hopen := hword "template<" (by decide)
  have hclose := hword ">" (by decide)
  have hlist := not_mem_intercalate (hword ", " (by decide))
    (hparameters template.arguments.length)
  intro line hline
  rw [eq_of_mem_templateLines hline]
  refine not_mem_indent_append hspace ?_ depth
  exact fun hmem => (List.mem_append.1 hmem).elim hopen fun hrest =>
    (List.mem_append.1 hrest).elim hlist hclose

/-! ## Instructions to the preprocessor -/

/-- A reader of lines, told whether a bracket is open, that passes over instructions to the
preprocessor and blank lines. -/
structure PassesDirectives {α : Type} (read : Bool → List Text → α) : Prop where
  inside : ∀ line rest, read true (line :: rest) = read (!line.contains '>') rest
  directive : ∀ line rest, isDirective line = true →
    read false (line :: rest) = read (line.contains '<' && !line.contains '>') rest
  blank : ∀ rest, read false ([] :: rest) = read false rest

namespace PassesDirectives

variable {α : Type} {read : Bool → List Text → α}

/-- What an open bracket encloses ends with the line that closes it. -/
theorem bracket (h : PassesDirectives read) {text : Text} (htext : '>' ∉ text) (rest : List Text) :
    read true ((text ++ ['>']).splitOn '\n' ++ rest) = read false rest := by
  induction text with
  | nil => exact h.inside ['>'] rest
  | cons c others ih =>
      obtain ⟨hc, hothers⟩ := not_or.1 (mt List.mem_cons.2 htext)
      rw [List.cons_append, List.splitOn_cons_eq_if_modifyHead]
      split
      · exact (h.inside [] _).trans (ih hothers)
      · rw [← ih hothers]
        cases (others ++ ['>']).splitOn '\n' with
        | nil => rfl
        | cons first later =>
            show read true ((c :: first) :: (later ++ rest)) = read true (first :: (later ++ rest))
            rw [h.inside, h.inside, List.contains_cons, beq_false_of_ne hc, Bool.false_or]

/-- A line that includes a header is passed over, whatever breaks there are in its path. -/
theorem includeLine (h : PassesDirectives read) {p : Path} (hp : '>' ∉ p.text)
    (rest : List Text) :
    read false ((includeLine p).splitOn '\n' ++ rest) = read false rest := by
  unfold Header.includeLine
  rw [← h.bracket hp rest, List.append_assoc,
    Text.splitOn_append_of_not_mem (by decide) (p.text ++ ['>'])]
  cases hsplit : (p.text ++ ['>']).splitOn '\n' with
  | nil => exact absurd hsplit (List.splitOn_ne_nil '\n' _)
  | cons first later =>
      rw [List.modifyHead_cons, List.cons_append, h.directive _ _ rfl, List.cons_append, h.inside]
      rfl

theorem includeLines (h : PassesDirectives read) (c : Class) (rest : List Text) :
    read false ((includeLines c).flatMap (·.splitOn '\n') ++ rest) = read false rest := by
  have hbases (bases : List Class) (rest : List Text) :
      read false ((bases.map fun base => Header.includeLine (path base)).flatMap (·.splitOn '\n')
          ++ rest)
        = read false rest := by
    induction bases with
    | nil => rfl
    | cons base others ih =>
        rw [List.map_cons, List.flatMap_cons, List.append_assoc,
          h.includeLine (bracket_not_mem_path base), ih]
  unfold Header.includeLines
  split
  · rfl
  · rw [List.flatMap_append, List.append_assoc]
    exact (hbases c.bases _).trans (h.blank rest)

/-- The guard of a header, and the headers that it includes, are passed over. -/
theorem render (h : PassesDirectives read) (c : Class) :
    read false ((render c).splitOn '\n')
      = read false (((declarationLines c).flatMap (· ++ ['\n'])).splitOn '\n') := by
  rw [render_eq, List.splitOn_append_cons_self, List.splitOn_eq_singleton (by decide),
    List.singleton_append, h.directive _ _ rfl]
  show read false (('\n' :: _).splitOn '\n') = _
  rw [List.splitOn_cons_eq_if_modifyHead, if_pos (beq_self_eq_true '\n'), h.blank,
    Text.splitOn_flatMap_newline]
  exact h.includeLines c _

end PassesDirectives

theorem passesDirectives_declarationAfter (pending : List (Option Text))
    (around : List (List (Option Text))) :
    PassesDirectives fun isOpen lines =>
      declarationAfter pending around (withoutDirectives isOpen lines) where
  inside line rest := by rw [withoutDirectives, if_pos rfl]
  directive line rest hline := by
    rw [withoutDirectives, if_neg Bool.false_ne_true, if_pos hline]
  blank rest := rfl

theorem passesDirectives_clauseAfter : PassesDirectives clauseAfter where
  inside line rest := by rw [clauseAfter, if_pos rfl]
  directive line rest hline := by
    rw [clauseAfter, if_neg Bool.false_ne_true, if_pos hline]
  blank rest := rfl

/-! ## What headers declare -/

/-- What the line of a class says about its bases. -/
def baseClause (c : Class) : Text :=
  if (c.bases.map fun base => "public ".toList ++ baseName c base).isEmpty then []
  else " : ".toList
    ++ [',', ' '].intercalate (c.bases.map fun base => "public ".toList ++ baseName c base)

theorem classLine_eq (tab : Text) (c : Class) :
    classLine tab c = tab ++ ("class ".toList ++ identifier c.name ++ baseClause c) := by
  unfold classLine baseClause
  simp only [List.append_assoc]

/-- No character of a name follows the name of a class. -/
theorem head_baseClause (c : Class) : ∀ first ∈ (baseClause c).head?, isNameChar first = false := by
  unfold baseClause
  split
  · exact nofun
  · rintro _ ⟨⟩
    rfl

/-- A line break leaves the start of a text where it is. -/
theorem exists_splitOn_eq_cons {text : Text} (h : ∀ c ∈ text.head?, isNameChar c = false) :
    ∃ first later, text.splitOn '\n' = first :: later
      ∧ ∀ c ∈ first.head?, isNameChar c = false := by
  cases text with
  | nil => exact ⟨[], [], rfl, nofun⟩
  | cons c rest =>
      rw [List.splitOn_cons_eq_if_modifyHead]
      split
      · exact ⟨[], _, rfl, nofun⟩
      · cases hsplit : rest.splitOn '\n' with
        | nil => exact absurd hsplit (List.splitOn_ne_nil '\n' rest)
        | cons first later => exact ⟨c :: first, later, rfl, h⟩

/-- Whatever its bases are called, the line of a class starts with its identifier, and no character
of a name comes next. -/
theorem exists_splitOn_classLine (depth : Nat) (c : Class) (rest : Text) :
    ∃ first later, (classLine (indent depth) c ++ '\n' :: rest).splitOn '\n'
        = (indent depth ++ ("class ".toList ++ identifier c.name ++ first)) :: later
      ∧ (baseClause c ++ '\n' :: rest).splitOn '\n' = first :: later
      ∧ ∀ ch ∈ first.head?, isNameChar ch = false := by
  have hfront : '\n' ∉ indent depth ++ ("class ".toList ++ identifier c.name) :=
    not_mem_indent_append (by decide) (fun hmem => (List.mem_append.1 hmem).elim (by decide)
      ((isIdentifier_identifier c.name).not_mem rfl)) depth
  have hhead : ∀ ch ∈ (baseClause c ++ '\n' :: rest).head?, isNameChar ch = false := by
    intro ch hch
    rw [List.head?_append] at hch
    cases hclause : (baseClause c).head? with
    | none =>
        rw [hclause] at hch
        cases hch
        rfl
    | some first =>
        rw [hclause] at hch
        cases hch
        exact head_baseClause c _ hclause
  obtain ⟨first, later, hsplit, hfirst⟩ := exists_splitOn_eq_cons hhead
  refine ⟨first, later, ?_, hsplit, hfirst⟩
  rw [classLine_eq, ← List.append_assoc (indent depth), List.append_assoc,
    Text.splitOn_append_of_not_mem hfront, hsplit, List.modifyHead_cons, List.append_assoc]

/-- The lines of a declaration: those that open its scopes and announce a template, that of the
class, and others. -/
theorem exists_splitOn_declarationLines (c : Class) :
    ∃ rest, ((declarationLines c).flatMap (· ++ ['\n'])).splitOn '\n'
      = openingLines 0 (blocksOf c)
        ++ (templateLines (indent (blocksOf c).length) c
          ++ (classLine (indent (blocksOf c).length) c ++ '\n' :: rest).splitOn '\n') := by
  have htemplate : ∀ line ∈ templateLines (indent (blocksOf c).length) c, '\n' ∉ line :=
    not_mem_of_mem_templateLines (by decide) (by decide)
  refine ⟨([indent (blocksOf c).length ++ ['\x7b'], [], indent (blocksOf c).length
    ++ "\x7d;".toList] ++ closingLines (blocksOf c).length).flatMap (· ++ ['\n']), ?_⟩
  unfold declarationLines bodyLines
  rw [List.flatMap_append, List.flatMap_append, List.flatMap_append, List.flatMap_cons,
    List.flatMap_append]
  simp only [List.append_assoc]
  rw [Text.splitOn_flatMap_newline, Text.flatMap_splitOn_newline
    (newline_not_mem_openingLines 0 (isBlock_of_mem_blocksOf c)), Text.splitOn_flatMap_newline,
    Text.flatMap_splitOn_newline htemplate]
  rfl

/-- The header of a class declares its identifier in the scopes of its namespaces. -/
theorem declaration?_render (c : Class) :
    declaration? (render c) = some ⟨scopes c.namespaces, identifier c.name⟩ := by
  have hscopes : ((blocksOf c).map blockScopes).flatten = scopes c.namespaces := by
    rw [← List.flatMap_def]
    exact flatMap_blockScopes_blocks _
  obtain ⟨rest, hlines⟩ := exists_splitOn_declarationLines c
  obtain ⟨first, later, hclass, -, hfirst⟩ :=
    exists_splitOn_classLine (blocksOf c).length c rest
  refine ((passesDirectives_declarationAfter [] []).render c).trans ?_
  show readFrom [] [] _ = _
  rw [hlines, readFrom_openingLines 0 (isBlock_of_mem_blocksOf c), readFrom_append_of_other
    (fun line hline => isDirective_of_mem_bodyLines (List.mem_append_left _ hline))
    Row.ofLine_of_mem_templateLines, hclass, readFrom_cons (isDirective_indent_append rfl _),
    Row.ofLine_classLine _ (isIdentifier_identifier c.name) hfirst, List.append_nil,
    List.reverse_reverse, hscopes]

/-! ## What follows the name of a class -/

theorem afterName_append (depth : Nat) {name : Text} (h : IsIdentifier name) {rest : Text}
    (hrest : ∀ c ∈ rest.head?, isNameChar c = false) :
    afterName (indent depth ++ ("class ".toList ++ name ++ rest)) = rest := by
  have hindent : (indent depth ++ ("class ".toList ++ name ++ rest)).dropWhile (· = ' ')
      = "class ".toList ++ (name ++ rest) := by
    rw [List.dropWhile_append_of_pos, List.append_assoc]
    · rfl
    · intro c hc
      rw [List.eq_of_mem_replicate hc]
      rfl
  unfold afterName
  rw [hindent]
  refine (List.dropWhile_append_of_pos h.2.1).trans ?_
  cases rest with
  | nil => rfl
  | cons c others =>
      exact List.dropWhile_cons_of_neg (by rw [hrest c rfl]; exact Bool.false_ne_true)

/-- Lines that declare no class are passed over. -/
theorem clauseAfter_append {texts : List Text} (h : ∀ text ∈ texts, isDirective text = false)
    (hrow : ∀ text ∈ texts, ∀ name, Row.ofLine text ≠ .declaration name) (rest : List Text) :
    clauseAfter false (texts ++ rest) = clauseAfter false rest := by
  induction texts with
  | nil => rfl
  | cons text others ih =>
      obtain ⟨htext, htexts⟩ := List.forall_mem_cons.1 h
      obtain ⟨hother, hothers⟩ := List.forall_mem_cons.1 hrow
      rw [List.cons_append, clauseAfter, if_neg Bool.false_ne_true,
        if_neg (by rw [htext]; exact Bool.false_ne_true), ← ih htexts hothers]
      split
      · rename_i name hname
        exact absurd hname (hother name)
      · rfl

theorem ofLine_ne_declaration_of_mem_openingLines (depth : Nat) {opened : List (Option (List Text))}
    (h : ∀ block ∈ opened, IsBlock block) :
    ∀ line ∈ openingLines depth opened, ∀ name, Row.ofLine line ≠ .declaration name := by
  induction opened generalizing depth with
  | nil => exact nofun
  | cons block inner ih =>
      obtain ⟨hblock, hinner⟩ := List.forall_mem_cons.1 h
      have hbrace : Row.ofLine (indent depth ++ ['{']) = .opening :=
        Row.ofLine_indent depth (by decide) []
      rw [openingLines, List.forall_mem_cons, List.forall_mem_cons, hbrace,
        Row.ofLine_blockTitle depth hblock]
      exact ⟨nofun, nofun, ih (depth + 1) hinner⟩

/-- After the name of its class, a header says what the bases are, and the line ends. -/
theorem clause?_render (c : Class) :
    ∃ rest, clause? (render c) = some (baseClause c ++ '\n' :: rest) := by
  have htemplate : ∀ line ∈ templateLines (indent (blocksOf c).length) c,
      ∀ name, Row.ofLine line ≠ .declaration name := by
    intro line hline name
    rw [Row.ofLine_of_mem_templateLines line hline]
    nofun
  obtain ⟨rest, hlines⟩ := exists_splitOn_declarationLines c
  obtain ⟨first, later, hclass, hclause, hfirst⟩ :=
    exists_splitOn_classLine (blocksOf c).length c rest
  refine ⟨rest, (passesDirectives_clauseAfter.render c).trans ?_⟩
  rw [hlines, clauseAfter_append (fun _ hline => isDirective_of_mem_openingLines hline)
      (ofLine_ne_declaration_of_mem_openingLines 0 (isBlock_of_mem_blocksOf c)),
    clauseAfter_append
      (fun line hline => isDirective_of_mem_bodyLines (List.mem_append_left _ hline)) htemplate,
    hclass, clauseAfter, if_neg Bool.false_ne_true,
    if_neg (by rw [isDirective_indent_append rfl]; exact Bool.false_ne_true),
    Row.ofLine_classLine _ (isIdentifier_identifier c.name) hfirst]
  dsimp only
  rw [afterName_append _ (isIdentifier_identifier c.name) hfirst, ← hclause,
    List.intercalate_splitOn]

end RttiProbe.Header

import RttiProbe.Proofs.Class.Losses
import RttiProbe.Proofs.Decorated.Encoding
/-!
# Reading decorated classes

The decorated name of a class is read back as the class is written out, and that text as the class.
The reader of a template keeps its own list of names, so the proof goes along the arguments of the
class: the code of each is read wherever it stands, whatever came by before it, as long as there is
room in each of the lists.
-/

set_option autoImplicit false

namespace RttiProbe.Decorated

open Header (IsIdentifier isNameChar)
open Text.Utf8 (encode)

/-! ## Printed names -/

theorem map_text_map_ofText (ts : List Text) : (ts.map Printed.ofText).map Printed.text = ts := by
  rw [List.map_map]
  exact (List.map_congr_left fun t _ => Printed.text_ofText t).trans (List.map_id ts)

theorem printQualified_ofText (piece : Text) (names : List Text) :
    printQualified (.ofText piece :: names.map .ofText)
      = .ofText (Class.scopeText names.reverse ++ piece) := by
  apply Printed.eq_ofText
  unfold printQualified
  rw [← List.map_cons, ← List.map_reverse, Printed.text_separated, map_text_map_ofText,
    List.reverse_cons, Class.scopeText_append]
  rfl

theorem printTemplate_ofText (name : Text) {arguments : List Text} (h : arguments ≠ []) :
    printTemplate (.ofText name) (arguments.map .ofText)
      = .ofText (name ++ Class.argumentText arguments) := by
  apply Printed.eq_ofText
  unfold printTemplate Class.argumentText
  rw [if_neg (by simpa using h)]
  rw [Printed.text_append, Printed.text_append, Printed.text_append, Printed.text_separated,
    map_text_map_ofText, Printed.text_ofText, List.append_assoc, List.append_assoc]
  rfl

/-! ## Names -/

variable {limits : Limits} {name : Text} {fuel : Nat}

theorem head?_nameCode (h : IsIdentifier name) :
    ∃ b, (nameCode name).head? = some b ∧ b ≠ 0x3F ∧ b ≠ terminator ∧ digit? b = none := by
  obtain ⟨b, bytes, hcode, hb⟩ := exists_encode_eq_cons h
  unfold nameCode
  rw [hcode]
  exact ⟨b, rfl, hb⟩

/-- A code is not taken for one that starts with another byte. -/
theorem isPrefixOf_eq_false {expected code : Bytes} {a b : UInt8} (ha : expected.head? = some a)
    (hb : code.head? = some b) (hne : b ≠ a) (rest : Bytes) :
    expected.isPrefixOf (code ++ rest) = false := by
  obtain ⟨expected, rfl⟩ := List.head?_eq_some_iff.1 ha
  obtain ⟨code, rfl⟩ := List.head?_eq_some_iff.1 hb
  rw [List.cons_append, List.isPrefixOf_cons_cons, beq_eq_false_iff_ne.2 hne.symm, Bool.false_and]

/-- A name is remembered as it is read. -/
theorem reads_simpleName (h : IsIdentifier name) :
    Reads limits (simpleName limits) (nameCode name) (.ofText name) [name] 1 := by
  have hdecoded := decodeLossy_of_isIdentifier h
  have hne : encode name ≠ [] := by
    obtain ⟨b, bytes, hcode, -⟩ := exists_encode_eq_cons h
    rw [hcode]
    exact List.cons_ne_nil b bytes
  have hprinted : printName (encode name) = .ofText name := by
    unfold printName
    rw [hdecoded]
    rfl
  have hremembered : (⟨.ofBytes (encode name), printName (encode name)⟩ : Remembered)
      = .ofText name := by
    rw [hprinted, Key.ofBytes, hdecoded, if_pos rfl]
    rfl
  have hremember : Reads limits (rememberSpelled limits (encode name)) [] () [name] 0 := by
    unfold rememberSpelled
    rw [hremembered]
    exact reads_remember name
  unfold simpleName
  rw [← hprinted]
  exact .of_eq (.bind (reads_upToTerminator (terminator_not_mem_encode h)) (.bind (reads_guard hne)
    (.bind (reads_countParts 1) (.bind hremember (.pure _))))) (by simp [nameCode]) rfl rfl

theorem reads_innermost_name (h : IsIdentifier name) :
    Reads limits (innermost ⟨false, limits⟩ (fuel + 1)) (nameCode name) (.ofText name) [name]
      1 := by
  obtain ⟨b, hb, hmark, -, hdigit⟩ := head?_nameCode h
  unfold innermost
  exact .of_backReference hb hdigit
    (.of_accept (isPrefixOf_eq_false rfl hb hmark) (reads_simpleName h))

theorem reads_templateName (h : IsIdentifier name) :
    Reads limits (templateName ⟨false, limits⟩ (fuel + 1)) (nameCode name) (.ofText name) [name]
      1 := by
  obtain ⟨b, hb, hmark, -, hdigit⟩ := head?_nameCode h
  unfold templateName
  exact .of_backReference hb hdigit
    (.of_accept (isPrefixOf_eq_false rfl hb hmark) (reads_simpleName h))

theorem reads_scope (h : IsIdentifier name) :
    Reads limits (scope ⟨false, limits⟩ (fuel + 2)) (nameCode name) (.ofText name) [name] 1 := by
  obtain ⟨b, hb, hmark, -, -⟩ := head?_nameCode h
  unfold scope
  exact .of_accept (isPrefixOf_eq_false rfl hb hmark) (reads_innermost_name h)

theorem length_nameCode (h : IsIdentifier name) : 2 ≤ (nameCode name).length := by
  obtain ⟨b, bytes, hcode, -⟩ := exists_encode_eq_cons h
  unfold nameCode
  rw [hcode, List.length_append, List.length_cons, List.length_singleton]
  omega

/-- Scopes are read one after another, and remembered in this order. -/
theorem reads_scopes {names : List Text} (h : ∀ name ∈ names, IsIdentifier name)
    (hfuel : (scopesCode names).length ≤ fuel) :
    Reads limits (scopes ⟨false, limits⟩ fuel) (scopesCode names) (names.map .ofText) names
      names.length := by
  induction names generalizing fuel with
  | nil =>
      obtain ⟨fuel, rfl⟩ := Nat.exists_eq_add_of_le' hfuel
      unfold scopes
      exact .of_eq (.bind (reads_accept _) (.pure [])) rfl rfl rfl
  | cons name rest ih =>
      obtain ⟨hname, hrest⟩ := List.forall_mem_cons.1 h
      have hcode : scopesCode (name :: rest) = nameCode name ++ scopesCode rest := by
        simp [scopesCode]
      have hlength := length_nameCode hname
      have hone : 1 ≤ (scopesCode rest).length := by simp [scopesCode]
      rw [hcode, List.length_append] at hfuel
      obtain ⟨fuel, rfl⟩ := Nat.exists_eq_add_of_le' (show 3 ≤ fuel by omega)
      obtain ⟨b, hb, -, hend, -⟩ := head?_nameCode hname
      have hstart : (scopesCode (name :: rest)).head? = some b := by
        rw [hcode, List.head?_append, hb]
        rfl
      unfold scopes
      refine .of_accept (isPrefixOf_eq_false rfl hstart hend) ?_
      exact .of_eq (.bind (reads_scope hname) (.bind (ih hrest (by omega)) (.pure _)))
        (by rw [hcode, List.append_nil]) (by simp) (by simp; omega)

/-! ## Arguments -/

/-- A class as it stands among arguments, given how its qualified name is read. -/
theorem reads_type {code : Bytes} {value : Printed} {added : List Text} {count : Nat}
    (h : Reads limits (qualified ⟨false, limits⟩ fuel) code value added count) :
    Reads limits (type ⟨false, limits⟩ (fuel + 1)) (ascii "V" ++ code) value added
      (3 + count) := by
  have htag : Reads limits tag (ascii "V") (some "class ") [] 0 :=
    .of_eq (.bind (reads_accept _) (.pure _)) rfl rfl rfl
  unfold type
  exact .of_eq (.bind htag (.bind (reads_countParts 3) (.bind h (.pure _)))) (by simp) (by simp)
    (by simp)

/-- How the code of a class is read as a qualified name, with any fuel that it needs. -/
def ReadsClass (limits : Limits) (c : Class) : Prop :=
  ∀ fuel, (classCode c).length ≤ fuel →
    Reads limits (qualified ⟨false, limits⟩ fuel) (classCode c) (.ofText c.qualifiedName)
      (ownNames c) (nameParts c)

/-- Arguments are read one after another, up to the end of their list. -/
theorem reads_arguments {list : List Class} (h : ∀ a ∈ list, ReadsClass limits a)
    (hfuel : (argumentsCode (list.map classCode)).length ≤ fuel) :
    Reads limits (arguments ⟨false, limits⟩ fuel) (argumentsCode (list.map classCode))
      ((list.map Class.qualifiedName).map .ofText) (list.flatMap ownNames)
      (argumentParts list) := by
  induction list generalizing fuel with
  | nil =>
      obtain ⟨fuel, rfl⟩ := Nat.exists_eq_add_of_le' hfuel
      unfold arguments
      exact .of_eq (.bind (reads_accept _) (.pure [])) rfl rfl rfl
  | cons a rest ih =>
      obtain ⟨ha, hrest⟩ := List.forall_mem_cons.1 h
      have hcode : argumentsCode ((a :: rest).map classCode)
          = (ascii "V" ++ classCode a) ++ argumentsCode (rest.map classCode) := by
        simp [argumentsCode]
      have hstart : (argumentsCode ((a :: rest).map classCode)).head? = some 0x56 := by
        rw [hcode]
        rfl
      have hone : 1 ≤ (argumentsCode (rest.map classCode)).length := by simp [argumentsCode]
      rw [hcode, List.length_append, List.length_append] at hfuel
      have hletter : (ascii "V").length = 1 := rfl
      obtain ⟨fuel, rfl⟩ := Nat.exists_eq_add_of_le' (show 2 ≤ fuel by omega)
      unfold arguments
      -- the letter of a class is neither the end of the list nor a pack nor a number
      refine .of_accept (isPrefixOf_eq_false rfl hstart (by decide)) ?_
      refine .of_accept (isPrefixOf_eq_false rfl hstart (by decide)) ?_
      refine .of_accept (isPrefixOf_eq_false rfl hstart (by decide)) ?_
      exact .of_eq (.bind (reads_type (ha fuel (by omega)))
        (.bind (ih hrest (by omega)) (.pure _))) (by rw [hcode, List.append_nil]) (by simp)
        (by simp [argumentParts, nameParts])

/-! ## Templates -/

/-- The names within a template are remembered apart, and forgotten after it. -/
theorem reads_template (hname : IsIdentifier name) {list : List Class}
    (h : ∀ a ∈ list, ReadsClass limits a)
    (hroom : (templateNames name list).eraseDups.length ≤ maxNames)
    (hfuel : (nameCode name ++ argumentsCode (list.map classCode)).length ≤ fuel) :
    Reads limits (template ⟨false, limits⟩ fuel)
      (nameCode name ++ argumentsCode (list.map classCode))
      (.ofText name, (list.map Class.qualifiedName).map .ofText) []
      (2 + argumentParts list + (templateNames name list).eraseDups.length) := by
  have hlength := length_nameCode hname
  rw [List.length_append] at hfuel
  obtain ⟨fuel, rfl⟩ := Nat.exists_eq_add_of_le' (show 2 ≤ fuel by omega)
  unfold template
  refine .withFreshNames (.of_eq (.bind (reads_countParts 1) (.bind (reads_templateName hname)
    (.bind (reads_arguments h (by omega)) (.pure _)))) (by simp) ?_ ?_) hroom
  · simp [templateNames]
  · omega

/-- What a template is printed as is remembered after the names before it. -/
theorem reads_innermost_template {c : Class} (hname : IsIdentifier c.name)
    (hne : c.arguments ≠ []) (h : ∀ a ∈ c.arguments, ReadsClass limits a)
    (hroom : (templateNames c.name c.arguments).eraseDups.length ≤ maxNames)
    (hbytes : limits.bytes.all ((encode (pieceText c)).length ≤ ·) = true)
    (hfuel : (pieceCode c.name (c.arguments.map classCode)).length ≤ fuel) :
    Reads limits (innermost ⟨false, limits⟩ fuel) (pieceCode c.name (c.arguments.map classCode))
      (.ofText (pieceText c)) [pieceText c]
      (2 + argumentParts c.arguments + (templateNames c.name c.arguments).eraseDups.length) := by
  have hcode : pieceCode c.name (c.arguments.map classCode)
      = ascii "?$" ++ (nameCode c.name ++ argumentsCode (c.arguments.map classCode)) := by
    unfold pieceCode
    rw [if_neg (by simpa using hne)]
  have hprinted : printTemplate (.ofText c.name) ((c.arguments.map Class.qualifiedName).map .ofText)
      = .ofText (pieceText c) := printTemplate_ofText c.name (by simpa using hne)
  have hremember : Reads limits (rememberPrinted limits
      (printTemplate (.ofText c.name) ((c.arguments.map Class.qualifiedName).map .ofText))) [] ()
      [pieceText c] 0 := by
    unfold rememberPrinted
    rw [hprinted, Printed.write?_ofText hbytes]
    exact reads_remember _
  have hmark : (ascii "?$").length = 2 := rfl
  rw [hcode] at hfuel ⊢
  rw [List.length_append] at hfuel
  obtain ⟨fuel, rfl⟩ := Nat.exists_eq_add_of_le' (show 1 ≤ fuel by omega)
  unfold innermost
  refine .of_backReference rfl rfl ?_
  rw [← hprinted]
  exact .of_eq (.bind (reads_accept _) (.bind (reads_template hname h hroom (by omega))
    (.bind hremember (.pure _)))) (by simp) (by simp) (by simp)

/-! ## Classes -/

theorem length_encode_le {s t : Text} (h : s <:+: t) : (encode s).length ≤ (encode t).length := by
  obtain ⟨before, after, rfl⟩ := h
  unfold encode
  rw [List.flatMap_append, List.flatMap_append, List.length_append, List.length_append]
  omega

theorem qualifiedName_eq_scopeText_append (c : Class) :
    c.qualifiedName = Class.scopeText c.namespaces ++ pieceText c := by
  rw [Class.qualifiedName_eq, List.append_assoc]
  rfl

/-- An argument is written out in the piece of its class. -/
theorem infix_pieceText {c a : Class} (ha : a ∈ c.arguments) :
    a.qualifiedName <:+: pieceText c := by
  have hmem : a.qualifiedName ∈ c.arguments.map Class.qualifiedName := List.mem_map_of_mem ha
  obtain ⟨before, after, hlist⟩ := Class.infix_intercalate hmem [',', ' ']
  unfold pieceText Class.argumentText
  rw [if_neg (by simpa using List.ne_nil_of_mem ha), ← hlist]
  exact ⟨c.name ++ '<' :: before, after ++ ['>'], by simp⟩

theorem mem_templateListsOf {cs : List Class} {c : Class} (hc : c ∈ cs) :
    ∀ names ∈ templateLists c, names ∈ templateListsOf cs := by
  intro names hnames
  induction cs with
  | nil => cases hc
  | cons first rest ih =>
      rw [templateListsOf]
      rcases List.mem_cons.1 hc with rfl | hc
      · exact List.mem_append_left _ hnames
      · exact List.mem_append_right _ (ih hc)

/-- Within a template there is room for what it is made of. -/
theorem fits_template {c : Class} (h : Fits (templateLists c)) (hne : c.arguments ≠ []) :
    (templateNames c.name c.arguments).eraseDups.length ≤ maxNames
      ∧ ∀ a ∈ c.arguments, Fits (templateLists a) := by
  have hlists : templateLists c
      = templateNames c.name c.arguments :: templateListsOf c.arguments := by
    rw [templateLists_eq, if_neg (by simpa using hne)]
  rw [hlists] at h
  exact ⟨h _ List.mem_cons_self, fun a ha names hnames =>
    h names (List.mem_cons_of_mem _ (mem_templateListsOf ha names hnames))⟩

theorem length_pieceCode (h : IsIdentifier name) (arguments : List Bytes) :
    2 ≤ (pieceCode name arguments).length := by
  have hname := length_nameCode h
  unfold pieceCode
  split
  · exact hname
  · rw [List.length_append, List.length_append]
    omega

/-- The innermost piece of a class is read, whether it is a template or not. -/
theorem reads_innermost {c : Class} (hname : IsIdentifier c.name)
    (h : ∀ a ∈ c.arguments, ReadsClass limits a) (hfits : Fits (templateLists c))
    (hbytes : limits.bytes.all ((encode (pieceText c)).length ≤ ·) = true)
    (hfuel : (pieceCode c.name (c.arguments.map classCode)).length ≤ fuel) :
    Reads limits (innermost ⟨false, limits⟩ fuel) (pieceCode c.name (c.arguments.map classCode))
      (.ofText (pieceText c)) [pieceText c] (pieceParts c) := by
  rw [pieceParts_eq]
  by_cases hne : c.arguments = []
  · have htext : pieceText c = c.name := by
      unfold pieceText
      rw [hne]
      exact List.append_nil c.name
    rw [htext]
    rw [hne] at hfuel ⊢
    obtain ⟨fuel, rfl⟩ := Nat.exists_eq_add_of_le'
      (Nat.le_trans (Nat.le_of_succ_le (length_nameCode hname)) hfuel)
    exact reads_innermost_name hname
  · rw [if_neg (by simpa using hne)]
    exact reads_innermost_template hname hne h (fits_template hfits hne).1 hbytes hfuel

theorem reads_qualified {c : Class} (hname : IsIdentifier c.name)
    (hscopes : ∀ scope ∈ c.namespaces, IsIdentifier scope)
    (h : ∀ a ∈ c.arguments, ReadsClass limits a) (hfits : Fits (templateLists c))
    (hbytes : limits.bytes.all ((encode (pieceText c)).length ≤ ·) = true) :
    ReadsClass limits c := by
  intro fuel hfuel
  have hpiece := length_pieceCode hname (c.arguments.map classCode)
  have hends : 1 ≤ (scopesCode c.namespaces.reverse).length := by simp [scopesCode]
  rw [classCode_eq, List.length_append] at hfuel
  obtain ⟨fuel, rfl⟩ := Nat.exists_eq_add_of_le' (show 1 ≤ fuel by omega)
  have hprinted := printQualified_ofText (pieceText c) c.namespaces.reverse
  rw [List.reverse_reverse, ← qualifiedName_eq_scopeText_append] at hprinted
  unfold qualified
  rw [classCode_eq, ← hprinted]
  exact .of_eq (.bind (reads_innermost hname h hfits hbytes (by omega))
    (.bind (reads_scopes (by simpa using hscopes) (by omega)) (.pure _))) (by simp)
    (by simp [ownNames]) (by simp [nameParts])

/-- The code of a class is read as a qualified name, wherever it stands. -/
theorem reads_class {c : Class} (hc : Nominal c) (hfits : Fits (templateLists c))
    (hbytes : limits.bytes.all ((encode c.qualifiedName).length ≤ ·) = true) :
    ReadsClass limits c := by
  induction hc with
  | @intro name namespaces arguments isArgument hname hscopes _ _ ih =>
      have hpiece : limits.bytes.all ((encode (pieceText
          ⟨name, namespaces, arguments, [], none, isArgument⟩)).length ≤ ·) = true := by
        refine all_le_of_le (length_encode_le ?_) hbytes
        rw [qualifiedName_eq_scopeText_append]
        exact (List.suffix_append _ _).isInfix
      refine reads_qualified hname hscopes (fun a ha => ?_) hfits hpiece
      exact ih a ha ((fits_template hfits (List.ne_nil_of_mem ha)).2 a ha)
        (all_le_of_le (length_encode_le (infix_pieceText ha)) hpiece)

/-! ## Whole names -/

/-- A whole name is its type, without a qualifier. -/
theorem whole_of_reads {code : Bytes} {value : Printed} {added : List Text} {count : Nat}
    (h : Reads limits (type ⟨false, limits⟩ fuel) code value added count)
    (hroom : added.eraseDups.length ≤ maxNames)
    (hparts : limits.parts.all (1 + count + added.eraseDups.length ≤ ·) = true) :
    whole ⟨false, limits⟩ fuel (.ofName (ascii ".?A" ++ code))
      = some (value, .past added (1 + count) []) := by
  have hplain : value ++ Printed.ofString "" = value :=
    Printed.eq_of_text_eq (by rw [Printed.text_append]; exact List.append_nil _)
  have hstart : Scan.past [] 1 (code ++ []) = .ofName code := by
    rw [List.append_nil]
    rfl
  have hread : whole ⟨false, limits⟩ fuel (.ofName (ascii ".?A" ++ code))
      = (type ⟨false, limits⟩ fuel >>= fun name => do
          guard ((← get).rest = [])
          return name ++ .ofString "") (.past [] 1 (code ++ [])) := by
    rw [hstart]
    rfl
  rw [hread, h.bind_apply _ (show ([] ++ added).eraseDups.length ≤ maxNames from hroom) hparts,
    hplain]
  rfl

/-- The decorated name of a class stands for the class as it is written out. -/
theorem undecorate_decorate {c : Class} (hc : Nominal c) (hfits : Fits (nameLists c))
    (hlimits : limits.Admit c) :
    undecorate ⟨false, limits⟩ (decorate c) = some (.ofText c.qualifiedName) := by
  obtain ⟨hown, htemplates⟩ := List.forall_mem_cons.1 hfits
  have hlength : (decorate c).length = 4 + (classCode c).length := by
    unfold decorate
    rw [List.length_append]
    rfl
  have hread := reads_class hc htemplates hlimits.bytes (4 * (decorate c).length + 3) (by omega)
  have hwhole := whole_of_reads (reads_type hread) hown (by
    refine all_le_of_le (Nat.le_of_eq ?_) hlimits.parts
    omega)
  unfold undecorate
  exact congrArg (Option.map Prod.fst) hwhole

/-! ## Names that are shown -/

theorem Nominal.canonical {c : Class} (h : Nominal c) : c.Canonical := by
  induction h with
  | intro name_isIdentifier scopes_areIdentifiers _ markedArguments ih =>
      exact Header.canonical_of_isIdentifier name_isIdentifier.isPlain scopes_areIdentifiers ih
        markedArguments

/-- A keyword is a word with a blank behind it. -/
theorem dropKeyword_eq_self {s : Text} (h : (s.dropWhile isNameChar).head? ≠ some ' ') :
    dropKeyword s = s := by
  have hword : ∀ keyword ∈ keywords, keyword.dropWhile isNameChar = [' '] := by decide
  have hnone : keywords.find? (·.isPrefixOf s) = none := by
    refine List.find?_eq_none.2 fun keyword hkeyword hstarts => h ?_
    obtain ⟨rest, rfl⟩ := List.isPrefixOf_iff_prefix.1 hstarts
    rw [List.dropWhile_append, hword keyword hkeyword]
    rfl
  unfold dropKeyword
  rw [hnone]

/-- The first word of a class is followed by its scopes or its arguments, if by anything. -/
theorem Nominal.head?_dropWhile {c : Class} (h : Nominal c) :
    (c.qualifiedName.dropWhile isNameChar).head? ≠ some ' ' := by
  obtain ⟨hname, hscopes, -, -⟩ := h
  rename_i name namespaces arguments isArgument
  rw [Class.qualifiedName_eq]
  cases namespaces with
  | nil =>
      show ((name ++ Class.argumentText _).dropWhile isNameChar).head? ≠ some ' '
      rw [List.dropWhile_append_of_pos hname.2.1]
      unfold Class.argumentText
      split
      · exact nofun
      · exact (by decide : some '<' ≠ some ' ')
  | cons scope rest =>
      have hfirst : Class.scopeText (scope :: rest)
          = scope ++ ':' :: ':' :: Class.scopeText rest := by
        simp [Class.scopeText]
      dsimp only
      rw [hfirst, List.append_assoc, List.append_assoc,
        List.dropWhile_append_of_pos (hscopes scope List.mem_cons_self).2.1]
      exact (by decide : some ':' ≠ some ' ')

/-- With the flags that are used where none are given, a type is printed and nothing else. -/
theorem print_standard (decorated : Bytes) :
    print limits decorated .standard = (undecorate ⟨false, limits⟩ decorated).bind fun type =>
      (type.write? limits.bytes).map String.toList := by
  have hprint : print limits decorated .standard
      = (undecorate ⟨false, limits⟩ decorated).bind fun type =>
          ((type.write? limits.bytes).map String.toList).bind some := rfl
  rw [hprint]
  simp only [Option.bind_fun_some]

/-- Within limits that admit a class, its decorated name is shown as the class is written out. -/
theorem demanglerWithin_decorate {c : Class} (hc : Nominal c) (hfits : Fits (nameLists c))
    (hlimits : limits.Admit c) :
    demanglerWithin limits (decorate c) .standard = some c.qualifiedName := by
  have hprint : print limits (decorate c) .standard = some c.qualifiedName := by
    rw [print_standard, undecorate_decorate hc hfits hlimits, Option.bind_some,
      Printed.write?_ofText hlimits.bytes, Option.map_some, String.toList_ofList]
  have htrim : Text.trim c.qualifiedName = c.qualifiedName := hc.canonical.isTrimmed.trim_eq
  have hne : c.qualifiedName.isEmpty = false :=
    List.isEmpty_eq_false_iff.2 hc.canonical.qualifiedName_ne_nil
  unfold demanglerWithin
  rw [hprint]
  show (if (Text.trim (dropKeyword (Text.trim c.qualifiedName))).isEmpty then none
    else some (Text.trim (dropKeyword (Text.trim c.qualifiedName)))) = some c.qualifiedName
  rw [htrim, dropKeyword_eq_self hc.head?_dropWhile, htrim, hne]
  rfl

/-- Decorated names survive: the name of a class is shown as the class is written out, and what is
shown is read as the class.  The same holds within any limits that admit the class. -/
theorem shows_decorated_class {c : Class} (hc : Nominal c) (hroot : c.isArgument = false)
    (hfits : Fits (nameLists c)) :
    demanglerWithin .unlimited (decorate c) .standard = some c.qualifiedName
      ∧ Class.parse c.qualifiedName = c
      ∧ ∀ limits : Limits, limits.Admit c →
          demanglerWithin limits (decorate c) .standard = some c.qualifiedName := by
  refine ⟨demanglerWithin_decorate hc hfits (Limits.admit_unlimited c), ?_,
    fun _ hlimits => demanglerWithin_decorate hc hfits hlimits⟩
  rw [Class.parse_canonical hc.canonical]
  exact Class.remark_eq hroot

/-- The argument `App::Key`. -/
def keyArgument : Class := ⟨"Key".toList, ["App".toList], [], [], none, true⟩

/-- The argument `std::Pair<App::Key, Value>`. -/
def entryArgument : Class :=
  ⟨"Pair".toList, ["std".toList],
    [keyArgument, ⟨"Value".toList, [], [], [], none, true⟩], [], none, true⟩

/-- The class `App::Core::Map<App::Key, std::Pair<App::Key, Value>>`. -/
def mapClass : Class :=
  ⟨"Map".toList, ["App".toList, "Core".toList], [keyArgument, entryArgument], [], none, false⟩

theorem nominal_mapClass : Nominal mapClass := by
  have value : Nominal ⟨"Value".toList, [], [], [], none, true⟩ :=
    .intro (by decide) (by decide) nofun nofun
  have key : Nominal keyArgument := .intro (by decide) (by decide) nofun nofun
  have entry : Nominal entryArgument :=
    .intro (by decide) (by decide) (by simpa using ⟨key, value⟩) (by simp [keyArgument])
  exact .intro (by decide) (by decide) (by simpa using ⟨key, entry⟩)
    (by simp [keyArgument, entryArgument])

/-- A class with a template among the arguments of its template, shown within the limits that are
used where none are given. -/
theorem shows_decorated_class_nested :
    Nominal mapClass ∧ mapClass.isArgument = false ∧ Fits (nameLists mapClass)
      ∧ decorate mapClass = ascii ".?AV?$Map@VKey@App@@V?$Pair@VKey@App@@VValue@@@std@@@Core@App@@"
      ∧ mapClass.qualifiedName = "App::Core::Map<App::Key, std::Pair<App::Key, Value>>".toList
      ∧ demangler (decorate mapClass) .standard = some mapClass.qualifiedName
      ∧ Class.parse mapClass.qualifiedName = mapClass := by
  have hfits : Fits (nameLists mapClass) := by decide
  have hadmits : Limits.standard.Admit mapClass := ⟨by decide, by decide⟩
  obtain ⟨-, hparse, hshown⟩ := shows_decorated_class nominal_mapClass rfl hfits
  exact ⟨nominal_mapClass, rfl, hfits, by decide, by decide, hshown .standard hadmits, hparse⟩

end RttiProbe.Decorated

import RttiProbe.Proofs.Decorated.Reading
import RttiProbe.Proofs.Header.Ambiguity
/-!
# Decorating classes

The decorated name of a class whose names are identifiers: its own piece, then its scopes from the
inside out, each written out where it stands.  The piece of a template holds the codes of its
arguments, which are decorated in the same way.
-/

set_option autoImplicit false

namespace RttiProbe

open Header (IsIdentifier isNameChar)

/-! ## Identifiers in bytes -/

namespace Text.Utf8

theorem toNat_toUInt8 {c : Char} (h : c.toNat < 0x80) : c.toUInt8.toNat = c.toNat :=
  (UInt32.toNat_toUInt8 c.val).trans (Nat.mod_eq_of_lt (Nat.lt_trans h (by decide)))

/-- Characters of ASCII take one byte each. -/
theorem encode_of_ascii {s : Text} (h : ∀ c ∈ s, c.toNat < 0x80) :
    encode s = s.map Char.toUInt8 := by
  have hsingle : ∀ c ∈ s, String.utf8EncodeChar c = [c.toUInt8] := fun c hc =>
    if_pos (Nat.le_of_lt_succ (h c hc))
  unfold encode
  rw [List.flatMap_def, List.map_congr_left hsingle, ← List.flatMap_def]
  exact List.map_eq_flatMap.symm

theorem decodeLossy_encode {s : Text} (h : ∀ c ∈ s, c.toNat < 0x80) :
    decodeLossy (encode s) = s := by
  rw [encode_of_ascii h]
  induction s with
  | nil => rw [List.map_nil, decodeLossy]
  | cons c rest ih =>
      obtain ⟨hc, hrest⟩ := List.forall_mem_cons.1 h
      have hlow : c.toUInt8 < 0x80 := UInt8.lt_iff_toNat_lt.2 (by rw [toNat_toUInt8 hc]; exact hc)
      have hfirst : first c.toUInt8 (rest.map Char.toUInt8) = (c, 0) := by
        unfold first
        rw [if_pos hlow, toNat_toUInt8 hc, Char.ofNat_toNat]
      rw [List.map_cons, decodeLossy, hfirst, List.drop_zero, ih hrest]

end Text.Utf8

namespace Decorated

open Text.Utf8 (encode)

/-- The characters of identifiers are in ASCII, and none of them has a meaning in a code. -/
theorem toNat_of_isNameChar {c : Char} (h : isNameChar c = true) :
    c.toNat < 0x80 ∧ c.toNat ≠ 0x3F ∧ c.toNat ≠ 0x40 := by
  unfold isNameChar Header.isWordChar at h
  rcases Bool.or_eq_true_iff.1 h with hword | hline
  · simp only [Bool.or_eq_true, Bool.and_eq_true, decide_eq_true_eq] at hword
    omega
  · rw [of_decide_eq_true hline]
    decide

variable {name : Text}

theorem encode_of_isIdentifier (h : IsIdentifier name) : encode name = name.map Char.toUInt8 :=
  Text.Utf8.encode_of_ascii fun c hc => (toNat_of_isNameChar (h.2.1 c hc)).1

theorem decodeLossy_of_isIdentifier (h : IsIdentifier name) :
    Text.Utf8.decodeLossy (encode name) = name :=
  Text.Utf8.decodeLossy_encode fun c hc => (toNat_of_isNameChar (h.2.1 c hc)).1

theorem toUInt8_ne {c : Char} {n : Nat} (hc : c.toNat < 0x80) (hn : n < 0x80) (hne : c.toNat ≠ n) :
    c.toUInt8 ≠ n.toUInt8 := by
  intro heq
  have hbytes := congrArg UInt8.toNat heq
  rw [Text.Utf8.toNat_toUInt8 hc, UInt8.toNat_ofNat_of_lt' (Nat.lt_trans hn (by decide))] at hbytes
  exact hne hbytes

/-- The end of an identifier is found where it is written. -/
theorem terminator_not_mem_encode (h : IsIdentifier name) : terminator ∉ encode name := by
  rw [encode_of_isIdentifier h]
  intro hmem
  obtain ⟨c, hc, heq⟩ := List.mem_map.1 hmem
  obtain ⟨hlow, -, hne⟩ := toNat_of_isNameChar (h.2.1 c hc)
  exact toUInt8_ne hlow (by decide) hne heq

/-- An identifier is not taken for anything else: a mark, the end of a list, a digit. -/
theorem exists_encode_eq_cons (h : IsIdentifier name) :
    ∃ b bytes, encode name = b :: bytes ∧ b ≠ 0x3F ∧ b ≠ terminator ∧ digit? b = none := by
  obtain ⟨c, rest, rfl⟩ := List.exists_cons_of_ne_nil h.1
  obtain ⟨hlow, hmark, hend⟩ := toNat_of_isNameChar (h.2.1 c List.mem_cons_self)
  refine ⟨c.toUInt8, rest.map Char.toUInt8, encode_of_isIdentifier h,
    toUInt8_ne hlow (by decide) hmark, toUInt8_ne hlow (by decide) hend,
    if_neg fun hdigit => ?_⟩
  have hstart : Header.isDigit c = false := h.2.2 c rfl
  rw [Bool.and_eq_true, decide_eq_true_iff, decide_eq_true_iff, UInt8.le_iff_toNat_le,
    UInt8.le_iff_toNat_le, Text.Utf8.toNat_toUInt8 hlow] at hdigit
  have hdecimal : Header.isDigit c = true :=
    Bool.and_eq_true_iff.2 ⟨decide_eq_true hdigit.1, decide_eq_true hdigit.2⟩
  rw [hdecimal] at hstart
  cases hstart

/-! ## Codes -/

/-- A name, and what ends it. -/
def nameCode (name : Text) : Bytes := encode name ++ [terminator]

/-- Names one after another, and what ends their list. -/
def scopesCode (names : List Text) : Bytes := names.flatMap nameCode ++ [terminator]

/-- Classes as arguments, given their codes, and what ends their list. -/
def argumentsCode (codes : List Bytes) : Bytes := codes.flatMap (ascii "V" ++ ·) ++ [terminator]

/-- The innermost piece of a class: its name, or a template, given the codes of its arguments. -/
def pieceCode (name : Text) (codes : List Bytes) : Bytes :=
  if codes.isEmpty then nameCode name else ascii "?$" ++ (nameCode name ++ argumentsCode codes)

mutual

/-- The code of a qualified name. -/
def classCode : Class → Bytes
  | ⟨name, namespaces, arguments, _, _, _⟩ =>
    pieceCode name (classCodes arguments) ++ scopesCode namespaces.reverse

/-- The code of each class of a list. -/
def classCodes : List Class → List Bytes
  | [] => []
  | c :: rest => classCode c :: classCodes rest

end

/-- The decorated name of a class, as it stands in its type descriptor. -/
def decorate (c : Class) : Bytes := ascii ".?AV" ++ classCode c

theorem classCodes_eq_map (cs : List Class) : classCodes cs = cs.map classCode := by
  induction cs with
  | nil => rfl
  | cons c rest ih => rw [classCodes, ih, List.map_cons]

theorem classCode_eq (c : Class) :
    classCode c
      = pieceCode c.name (c.arguments.map classCode) ++ scopesCode c.namespaces.reverse := by
  cases c
  rw [classCode, classCodes_eq_map]

/-- Names alone, nested to any depth: a class without bases and record, whose name and namespaces
are identifiers and whose arguments are such classes, each marked as one. -/
inductive Nominal : Class → Prop
  | intro {name : Text} {namespaces : List Text} {arguments : List Class} {isArgument : Bool}
      (name_isIdentifier : IsIdentifier name)
      (scopes_areIdentifiers : ∀ scope ∈ namespaces, IsIdentifier scope)
      (nominalArguments : ∀ a ∈ arguments, Nominal a)
      (markedArguments : ∀ a ∈ arguments, a.isArgument = true) :
      Nominal ⟨name, namespaces, arguments, [], none, isArgument⟩

/-! ## Names that come by -/

/-- The innermost piece of a class as it is written out. -/
def pieceText (c : Class) : Text :=
  c.name ++ Class.argumentText (c.arguments.map Class.qualifiedName)

/-- The names that come by where a class stands, those within its arguments apart. -/
def ownNames (c : Class) : List Text := pieceText c :: c.namespaces.reverse

/-- The names that come by within a template. -/
def templateNames (name : Text) (arguments : List Class) : List Text :=
  name :: arguments.flatMap ownNames

mutual

/-- For each template in a class, the names that come by within it. -/
def templateLists : Class → List (List Text)
  | ⟨name, _, arguments, _, _, _⟩ =>
    if arguments.isEmpty then [] else templateNames name arguments :: templateListsOf arguments

/-- The same for all classes of a list. -/
def templateListsOf : List Class → List (List Text)
  | [] => []
  | c :: rest => templateLists c ++ templateListsOf rest

end

/-- All lists of names kept while the decorated name of a class is read. -/
def nameLists (c : Class) : List (List Text) := ownNames c :: templateLists c

/-- There is room for the different names of each list. -/
def Fits (lists : List (List Text)) : Prop :=
  ∀ names ∈ lists, names.eraseDups.length ≤ maxNames

instance (lists : List (List Text)) : Decidable (Fits lists) :=
  inferInstanceAs (Decidable (∀ names ∈ lists, names.eraseDups.length ≤ maxNames))

theorem templateLists_eq (c : Class) :
    templateLists c = if c.arguments.isEmpty then []
      else templateNames c.name c.arguments :: templateListsOf c.arguments := by
  cases c
  rw [templateLists]

/-! ## Parts -/

mutual

/-- The parts of the innermost piece of a class: its name, and for a template also the list of its
arguments, their parts, and the names remembered within it. -/
def pieceParts : Class → Nat
  | ⟨name, _, arguments, _, _, _⟩ =>
    if arguments.isEmpty then 1
    else 2 + argumentParts arguments + (templateNames name arguments).eraseDups.length

/-- The parts of arguments: each is a type of a declared kind. -/
def argumentParts : List Class → Nat
  | [] => 0
  | c :: rest => 3 + (pieceParts c + c.namespaces.length) + argumentParts rest

end

/-- The parts of the qualified name of a class. -/
def nameParts (c : Class) : Nat := pieceParts c + c.namespaces.length

theorem pieceParts_eq (c : Class) :
    pieceParts c = if c.arguments.isEmpty then 1
      else 2 + argumentParts c.arguments
        + (templateNames c.name c.arguments).eraseDups.length := by
  cases c
  rw [pieceParts]

/-- A class whose decorated name can be read within limits. -/
structure Limits.Admit (limits : Limits) (c : Class) : Prop where
  /-- the whole, its type, the parts of the type, and the names remembered outside of templates -/
  parts : limits.parts.all (4 + nameParts c + (ownNames c).eraseDups.length ≤ ·) = true
  bytes : limits.bytes.all ((encode c.qualifiedName).length ≤ ·) = true

theorem Limits.admit_unlimited (c : Class) : Limits.unlimited.Admit c := ⟨rfl, rfl⟩

end Decorated

end RttiProbe

import RttiProbe.Decorated.Demangler
/-!
# Reading codes

A code is read, if a reader takes all of it off the bytes in front of any rest and finds the one
value.  What was remembered before and is remembered afterwards is told by the texts that came by,
one after another: a text that comes again is not remembered again.  So codes that follow one
another are read one after another, and the texts that come by with them are put together.
-/

set_option autoImplicit false

namespace RttiProbe.Decorated

/-! ## Printed texts -/

namespace Printed

/-- What is printed is known by its text. -/
theorem eq_of_text_eq {p q : Printed} (h : p.text = q.text) : p = q := by
  obtain ⟨p, m, hm⟩ := p
  obtain ⟨q, n, hn⟩ := q
  obtain rfl : p = q := Thunk.ext (String.toList_injective h)
  obtain rfl : m = n := hm.trans hn.symm
  rfl

/-- A text as it is printed. -/
def ofText (t : Text) : Printed := ofString (String.ofList t)

@[simp]
theorem text_ofText (t : Text) : (ofText t).text = t := String.toList_ofList

theorem eq_ofText {p : Printed} {t : Text} (h : p.text = t) : p = ofText t :=
  eq_of_text_eq (by rw [h, text_ofText])

theorem size_ofText (t : Text) : (ofText t).size = (Text.Utf8.encode t).length :=
  List.size_toByteArray

theorem text_separated (separator : String) (pieces : List Printed) :
    (separated separator pieces).text = separator.toList.intercalate (pieces.map text) := by
  unfold separated
  rw [text_concat]
  induction pieces with
  | nil => rfl
  | cons p rest ih =>
      cases rest with
      | nil => simp
      | cons q rest =>
          rw [List.intersperse_cons_cons, List.flatMap_cons, List.flatMap_cons, ih, List.map_cons,
            List.map_cons, List.map_cons, List.intercalate_cons_cons, List.append_assoc]
          rfl

theorem write?_ofText {limit : Option Nat} {t : Text}
    (h : limit.all ((Text.Utf8.encode t).length ≤ ·) = true) :
    (ofText t).write? limit = some (String.ofList t) := by
  unfold write?
  rw [size_ofText, if_pos h]
  rfl

end Printed

/-! ## What is remembered -/

/-- A text that is remembered as it is printed. -/
def Remembered.ofText (t : Text) : Remembered := ⟨.text (String.ofList t), .ofText t⟩

/-- The scan after some texts came by, where `base` parts and the texts remembered were counted. -/
def Scan.past (history : List Text) (base : Nat) (rest : Bytes) : Scan where
  rest := rest
  names := history.eraseDups.map .ofText
  parts := base + history.eraseDups.length

/-- A text is remembered already exactly if it came by. -/
theorem any_key_eq_iff (history : List Text) (t : Text) :
    (history.eraseDups.map Remembered.ofText).any (·.key = (Remembered.ofText t).key) = true
      ↔ t ∈ history := by
  rw [List.any_map, List.any_eq_true]
  constructor
  · rintro ⟨s, hs, hkey⟩
    obtain rfl : s = t := String.ofList_injective (Key.text.inj (of_decide_eq_true hkey))
    exact List.mem_eraseDups.1 hs
  · exact fun ht => ⟨t, List.mem_eraseDups.2 ht, decide_eq_true rfl⟩

theorem eraseDups_append_of_mem {history : List Text} {t : Text} (h : t ∈ history) :
    (history ++ [t]).eraseDups = history.eraseDups := by
  rw [List.eraseDups_append]
  simp [List.removeAll, h]

theorem eraseDups_append_of_not_mem {history : List Text} {t : Text} (h : t ∉ history) :
    (history ++ [t]).eraseDups = history.eraseDups ++ [t] := by
  rw [List.eraseDups_append]
  simp [List.removeAll, h, List.eraseDups_cons]

/-- The more texts come by, the more are remembered. -/
theorem length_eraseDups_le (history added : List Text) :
    history.eraseDups.length ≤ (history ++ added).eraseDups.length := by
  rw [List.eraseDups_append, List.length_append]
  exact Nat.le_add_right _ _

/-! ## Readers of codes -/

variable {α β : Type} {limits : Limits}

/-- In front of any rest, a reader takes the code off and finds the value, provided that there is
room for the texts `added` that come by and that the limits allow as many parts: `count` and the
texts that are remembered. -/
def Reads (limits : Limits) (reader : Reader α) (code : Bytes) (value : α) (added : List Text)
    (count : Nat) : Prop :=
  ∀ (rest : Bytes) (history : List Text) (base : Nat),
    (history ++ added).eraseDups.length ≤ maxNames →
    limits.parts.all (base + count + (history ++ added).eraseDups.length ≤ ·) = true →
    reader (.past history base (code ++ rest))
      = some (value, .past (history ++ added) (base + count) rest)

/-- Fewer parts are allowed where more are. -/
theorem all_le_of_le {limit : Option Nat} {m n : Nat} (hmn : m ≤ n)
    (h : limit.all (n ≤ ·) = true) : limit.all (m ≤ ·) = true := by
  cases limit with
  | none => rfl
  | some bound => exact decide_eq_true (Nat.le_trans hmn (of_decide_eq_true h))

namespace Reads

theorem pure (value : α) : Reads limits (Pure.pure value) [] value [] 0 := by
  intro rest history base _ _
  rw [List.append_nil]
  rfl

/-- The same code, names and count, told otherwise. -/
theorem of_eq {reader : Reader α} {code code' : Bytes} {value : α} {added added' : List Text}
    {count count' : Nat} (h : Reads limits reader code value added count) (hcode : code = code')
    (hadded : added = added') (hcount : count = count') :
    Reads limits reader code' value added' count' := by
  subst hcode hadded hcount
  exact h

/-- What comes after a reader goes on behind the code. -/
theorem bind_apply {reader : Reader α} {code : Bytes} {value : α} {added : List Text}
    {count : Nat} (h : Reads limits reader code value added count) (next : α → Reader β)
    {rest : Bytes} {history : List Text} {base : Nat}
    (hroom : (history ++ added).eraseDups.length ≤ maxNames)
    (hparts : limits.parts.all (base + count + (history ++ added).eraseDups.length ≤ ·) = true) :
    (reader >>= next) (.past history base (code ++ rest))
      = next value (.past (history ++ added) (base + count) rest) := by
  show (reader _).bind (fun step => next step.1 step.2) = _
  rw [h rest history base hroom hparts]
  rfl

/-- Codes that follow one another are read one after another. -/
theorem bind {reader : Reader α} {next : α → Reader β} {code₁ code₂ : Bytes} {value₁ : α}
    {value₂ : β} {added₁ added₂ : List Text} {count₁ count₂ : Nat}
    (h₁ : Reads limits reader code₁ value₁ added₁ count₁)
    (h₂ : Reads limits (next value₁) code₂ value₂ added₂ count₂) :
    Reads limits (reader >>= next) (code₁ ++ code₂) value₂ (added₁ ++ added₂)
      (count₁ + count₂) := by
  intro rest history base hroom hparts
  rw [← List.append_assoc] at hroom hparts
  have hle := length_eraseDups_le (history ++ added₁) added₂
  rw [List.append_assoc, ← List.append_assoc history, ← Nat.add_assoc,
    h₁.bind_apply next (Nat.le_trans hle hroom) (all_le_of_le (by omega) hparts)]
  exact h₂ rest (history ++ added₁) (base + count₁) hroom (by rwa [Nat.add_assoc base])

/-- What is looked for in vain at the front of a code is passed over. -/
theorem of_accept {expected code : Bytes} {next : Bool → Reader α} {value : α}
    {added : List Text} {count : Nat}
    (hmiss : ∀ rest, expected.isPrefixOf (code ++ rest) = false)
    (h : Reads limits (next false) code value added count) :
    Reads limits (accept expected >>= next) code value added count := by
  intro rest history base hroom hparts
  have hpassed : accept expected (.past history base (code ++ rest))
      = some (false, .past history base (code ++ rest)) :=
    if_neg (by rw [Scan.past, hmiss]; exact Bool.false_ne_true)
  show (accept expected _).bind (fun step => next step.1 step.2) = _
  rw [hpassed]
  exact h rest history base hroom hparts

/-- Where a code does not start with a digit, nothing is referred back to. -/
theorem of_backReference {code : Bytes} {next : Option Printed → Reader α} {value : α}
    {added : List Text} {count : Nat} {b : UInt8} (hfirst : code.head? = some b)
    (hdigit : digit? b = none) (h : Reads limits (next none) code value added count) :
    Reads limits (backReference >>= next) code value added count := by
  obtain ⟨tail, rfl⟩ := List.head?_eq_some_iff.1 hfirst
  intro rest history base hroom hparts
  have hpassed : backReference (.past history base (b :: tail ++ rest))
      = some (none, .past history base (b :: tail ++ rest)) := by
    simp only [backReference, Scan.past, List.cons_append, hdigit]
  show (backReference _).bind (fun step => next step.1 step.2) = _
  rw [hpassed]
  exact h rest history base hroom hparts

/-- The texts that come by within a reader with no names remembered are counted with its parts. -/
theorem withFreshNames {reader : Reader α} {code : Bytes} {value : α} {added : List Text}
    {count : Nat} (h : Reads limits reader code value added count)
    (hroom : added.eraseDups.length ≤ maxNames) :
    Reads limits (Decorated.withFreshNames reader) code value []
      (count + added.eraseDups.length) := by
  intro rest history base _ hparts
  rw [List.append_nil] at hparts ⊢
  have hfresh := h rest [] (base + history.eraseDups.length) hroom
    (all_le_of_le (by rw [List.nil_append]; omega) hparts)
  have hstart : { Scan.past history base (code ++ rest) with names := [] }
      = Scan.past [] (base + history.eraseDups.length) (code ++ rest) := rfl
  unfold Decorated.withFreshNames
  rw [hstart, hfresh, List.nil_append]
  simp only [Scan.past, Option.map_some, Option.some.injEq, Prod.mk.injEq, true_and]
  congr 1
  omega

end Reads

/-! ## Bytes, parts and names -/

theorem reads_accept (expected : Bytes) :
    Reads limits (accept expected) expected true [] 0 := by
  intro rest history base _ _
  have hhit : expected.isPrefixOf (expected ++ rest) = true :=
    List.isPrefixOf_iff_prefix.2 (List.prefix_append expected rest)
  unfold accept
  rw [List.append_nil]
  simp only [Scan.past, hhit, if_true, List.drop_left, Nat.add_zero]

theorem reads_guard {p : Prop} [Decidable p] (h : p) :
    Reads limits (guard p : Reader Unit) [] () [] 0 := by
  have hpure : (guard p : Reader Unit) = Pure.pure () := if_pos h
  rw [hpure]
  exact .pure ()

theorem reads_upToTerminator {name : Bytes} (h : terminator ∉ name) :
    Reads limits upToTerminator (name ++ [terminator]) name [] 0 := by
  intro rest history base _ _
  have hkept : ∀ b ∈ name, decide (b ≠ terminator) = true := fun b hb =>
    decide_eq_true fun heq => h (heq ▸ hb)
  unfold upToTerminator
  simp only [Scan.past, List.append_assoc, List.dropWhile_append_of_pos hkept,
    List.takeWhile_append_of_pos hkept, List.append_nil]
  simp

theorem countParts_eq {n : Nat} {scan : Scan}
    (h : limits.parts.all (scan.parts + n ≤ ·) = true) :
    countParts limits n scan = some ((), { scan with parts := scan.parts + n }) := if_pos h

theorem reads_countParts (n : Nat) : Reads limits (countParts limits n) [] () [] n := by
  intro rest history base _ hparts
  rw [List.append_nil] at hparts ⊢
  have hsum : base + history.eraseDups.length + n = base + n + history.eraseDups.length :=
    Nat.add_right_comm _ _ _
  have hallowed : limits.parts.all ((Scan.past history base ([] ++ rest)).parts + n ≤ ·) = true :=
    all_le_of_le (Nat.le_of_eq hsum) hparts
  rw [countParts_eq hallowed]
  exact congrArg (fun parts => some ((), { Scan.past history base rest with parts })) hsum

/-- A text that comes by is remembered, unless it is already. -/
theorem reads_remember (t : Text) : Reads limits (remember limits (.ofText t)) [] () [t] 0 := by
  intro rest history base hroom hparts
  have hread : remember limits (.ofText t) (.past history base ([] ++ rest))
      = (if (history.eraseDups.map Remembered.ofText).any (·.key = (Remembered.ofText t).key) then
          Pure.pure ()
        else do
          guard (history.eraseDups.length < maxNames)
          countParts limits 1
          modify fun scan => { scan with
            names := history.eraseDups.map Remembered.ofText ++ [.ofText t] } : Reader Unit)
        (.past history base rest) := by
    have hlength : (history.eraseDups.map Remembered.ofText).length = history.eraseDups.length :=
      List.length_map _
    rw [← hlength]
    rfl
  rw [hread]
  by_cases ht : t ∈ history
  · have hsame : Scan.past (history ++ [t]) (base + 0) rest = Scan.past history base rest := by
      rw [Scan.past, eraseDups_append_of_mem ht]
      rfl
    rw [if_pos ((any_key_eq_iff history t).2 ht), hsame]
    rfl
  · rw [eraseDups_append_of_not_mem ht, List.length_append] at hroom hparts
    have hallowed : limits.parts.all ((Scan.past history base rest).parts + 1 ≤ ·) = true :=
      all_le_of_le (Nat.le_of_eq (Nat.add_assoc _ _ _)) hparts
    have hnew : Scan.past (history ++ [t]) (base + 0) rest
        = ⟨rest, history.eraseDups.map Remembered.ofText ++ [.ofText t],
            base + history.eraseDups.length + 1⟩ := by
      rw [Scan.past, eraseDups_append_of_not_mem ht, List.map_append, List.length_append]
      rfl
    have hguard : (guard (history.eraseDups.length < maxNames) : Reader Unit) = Pure.pure () :=
      if_pos hroom
    rw [if_neg (mt (any_key_eq_iff history t).1 ht), hguard, hnew, pure_bind]
    show (countParts limits 1 _).bind _ = _
    rw [countParts_eq hallowed]
    rfl

end RttiProbe.Decorated

import Mathlib.Data.List.TakeWhile
import RttiProbe.Live.Program
import RttiProbe.Proofs.Text.Numeral
import RttiProbe.Proofs.Text.Trim
/-!
# Lines of a map

What is read from a line of a map, as the system writes it.  The ends of the range and the right to
read are read back.  Lines are cut at blanks, so of the path its first word is read: a path is read
back exactly if there is no blank in it.
-/

set_option autoImplicit false

namespace RttiProbe

/-! ## Words -/

namespace Text

/-- A text that a cut at blanks leaves in one piece. -/
def IsWord (s : Text) : Prop := s ≠ [] ∧ ∀ c ∈ s, isBlank c = false

theorem isWord_of_all {s : Text} (hne : s ≠ []) (h : s.all (!isBlank ·) = true) : IsWord s :=
  ⟨hne, fun c hc => by simpa using List.all_eq_true.1 h c hc⟩

theorem words_of_dropWhile_eq_nil {s : Text} (h : s.dropWhile isBlank = []) : words s = [] := by
  rw [words]
  split
  · rfl
  · rename_i hcons
    rw [h] at hcons
    cases hcons

@[simp]
theorem words_nil : words [] = [] := words_of_dropWhile_eq_nil rfl

theorem words_of_dropWhile_eq_cons {s rest : Text} {c : Char}
    (h : s.dropWhile isBlank = c :: rest) :
    words s = (c :: rest.takeWhile (!isBlank ·)) :: words (rest.dropWhile (!isBlank ·)) := by
  rw [words]
  split
  · rename_i hnil
    rw [h] at hnil
    cases hnil
  · rename_i hcons
    rw [h] at hcons
    obtain ⟨rfl, rfl⟩ := List.cons.inj hcons
    rfl

/-- Blanks before a text make no difference to its words. -/
theorem words_append_of_allBlank {a : Text} (ha : AllBlank a) (s : Text) :
    words (a ++ s) = words s := by
  have hdrop : (a ++ s).dropWhile isBlank = s.dropWhile isBlank :=
    List.dropWhile_append_of_pos ha
  cases hs : s.dropWhile isBlank with
  | nil => rw [words_of_dropWhile_eq_nil hs, words_of_dropWhile_eq_nil (hdrop.trans hs)]
  | cons c rest =>
      rw [words_of_dropWhile_eq_cons hs, words_of_dropWhile_eq_cons (hdrop.trans hs)]

/-- A text that does not start with a blank starts with its first word. -/
theorem words_of_not_isBlank {s : Text} (hne : s ≠ [])
    (hstart : ∀ c, s.head? = some c → isBlank c = false) :
    words s = s.takeWhile (!isBlank ·) :: words (s.dropWhile (!isBlank ·)) := by
  obtain ⟨c, rest, rfl⟩ := List.exists_cons_of_ne_nil hne
  have hc : isBlank c = false := hstart c rfl
  have hkept : (!isBlank c) = true := by rw [hc]; rfl
  have hdrop : (c :: rest).dropWhile isBlank = c :: rest := trimStart_eq_self hstart
  rw [words_of_dropWhile_eq_cons hdrop, List.takeWhile_cons, List.dropWhile_cons, if_pos hkept,
    if_pos hkept]

/-- A word in front of a text that does not go on with it. -/
theorem words_append {w s : Text} (hw : IsWord w)
    (hs : ∀ c, s.head? = some c → isBlank c = true) : words (w ++ s) = w :: words s := by
  obtain ⟨hne, hclean⟩ := hw
  have hkept : ∀ c ∈ w, (!isBlank c) = true := fun c hc => by rw [hclean c hc]; rfl
  have hstart : ∀ c, (w ++ s).head? = some c → isBlank c = false := by
    obtain ⟨c, rest, rfl⟩ := List.exists_cons_of_ne_nil hne
    rintro d ⟨⟩
    exact hclean c List.mem_cons_self
  have hends : s.takeWhile (!isBlank ·) = [] ∧ s.dropWhile (!isBlank ·) = s := by
    cases s with
    | nil => exact ⟨rfl, rfl⟩
    | cons c rest => simp [hs c rfl]
  rw [words_of_not_isBlank (List.append_ne_nil_of_left_ne_nil hne s) hstart,
    List.takeWhile_append_of_pos hkept, List.dropWhile_append_of_pos hkept, hends.1, hends.2,
    List.append_nil]

theorem words_append_blank {w : Text} (hw : IsWord w) (s : Text) :
    words (w ++ ' ' :: s) = w :: words s := by
  have hblank : AllBlank [' '] := fun c hc => List.mem_singleton.1 hc ▸ rfl
  have hs : ∀ c, (' ' :: s).head? = some c → isBlank c = true := by
    rintro c ⟨⟩
    rfl
  rw [words_append hw hs]
  exact congrArg (w :: ·) (words_append_of_allBlank hblank s)

end Text

/-! ## Ranges -/

namespace Live

open Text (IsWord IsTrimmed isBlank words)
open Text.Numeral (digits value digitValue)

theorem map_digitValue_paddedHex (width n : Nat) :
    (paddedHex width n).map (digitValue 16)
      = (List.replicate (width - (digits 16 n).length) 0 ++ digits 16 n).map some := by
  have hdigit : ∀ d ∈ digits 16 n,
      digitValue 16 (Text.Numeral.digitChar d).toLower = some d := fun d hd =>
    (Text.Numeral.digitValue_eq_some_iff (by decide)).2
      ⟨Text.Numeral.lt_of_mem_digits (by decide) n d hd, .inr rfl⟩
  unfold paddedHex Text.Numeral.upperHex
  dsimp only
  rw [List.map_map, List.length_map, List.map_append, List.map_append, List.map_replicate,
    List.map_replicate, List.map_map]
  exact congrArg (_ ++ ·) (List.map_congr_left hdigit)

theorem clean_of_mem_paddedHex {width n : Nat} : ∀ c ∈ paddedHex width n,
    isBlank c = false ∧ c ≠ '-' := by
  intro c hc
  have hmem : digitValue 16 c ∈ (paddedHex width n).map (digitValue 16) := List.mem_map_of_mem hc
  rw [map_digitValue_paddedHex] at hmem
  obtain ⟨d, -, hd⟩ := List.mem_map.1 hmem
  exact Text.Numeral.clean_of_digitValue hd.symm

theorem paddedHex_ne_nil (width n : Nat) : paddedHex width n ≠ [] := by
  unfold paddedHex Text.Numeral.upperHex
  simp [Text.Numeral.digits_ne_nil]

theorem isWord_paddedHex (width n : Nat) : IsWord (paddedHex width n) :=
  ⟨paddedHex_ne_nil width n, fun c hc => (clean_of_mem_paddedHex c hc).1⟩

/-- A range is in one piece. -/
theorem isWord_range (start stop : Nat) :
    IsWord (paddedHex 8 start ++ '-' :: paddedHex 8 stop) := by
  refine ⟨by simp, fun c hc => ?_⟩
  rcases List.mem_append.1 hc with hc | hc
  · exact (clean_of_mem_paddedHex c hc).1
  · rcases List.mem_cons.1 hc with rfl | hc
    · rfl
    · exact (clean_of_mem_paddedHex c hc).1

theorem isWord_decimal (n : Nat) : IsWord (Text.Numeral.decimal n) := by
  have hall : ∀ d < 10, isBlank (Text.Numeral.digitChar d) = false := by decide
  unfold Text.Numeral.decimal
  refine ⟨by simp [Text.Numeral.digits_ne_nil], fun c hc => ?_⟩
  obtain ⟨d, hmem, rfl⟩ := List.mem_map.1 hc
  exact hall d (Text.Numeral.lt_of_mem_digits (by decide) n d hmem)

/-- The words of a line: one for each of the first five columns, and those of the path. -/
theorem words_mapLine {start stop : Nat} {rights : Text} (hrights : IsWord rights) {offset : Nat}
    {device : Text} (hdevice : IsWord device) {inode : Nat} {path : Option Text} :
    words (mapLine start stop rights offset device inode path)
      = [paddedHex 8 start ++ '-' :: paddedHex 8 stop, rights, paddedHex 8 offset, device,
          Text.Numeral.decimal inode] ++ path.elim [] words := by
  have hcolumns (rest : Text) (hrest : ∀ c, rest.head? = some c → isBlank c = true) :
      words (paddedHex 8 start ++ '-' :: paddedHex 8 stop ++ ' ' :: rights ++ ' ' ::
          paddedHex 8 offset ++ ' ' :: device ++ ' ' :: Text.Numeral.decimal inode ++ rest)
        = [paddedHex 8 start ++ '-' :: paddedHex 8 stop, rights, paddedHex 8 offset, device,
            Text.Numeral.decimal inode] ++ words rest := by
    have hinode := Text.words_append (isWord_decimal inode) hrest
    have hrange := isWord_range start stop
    simp only [List.append_assoc, List.cons_append] at hrange ⊢
    rw [← List.cons_append, ← List.append_assoc, Text.words_append_blank hrange,
      Text.words_append_blank hrights, Text.words_append_blank (isWord_paddedHex 8 offset),
      Text.words_append_blank hdevice, hinode]
    rfl
  unfold mapLine
  cases path with
  | none => simpa using hcolumns [] nofun
  | some p =>
      -- one blank stands before the path in any case, after those that fill the column
      have hfill (n : Nat) :
          List.replicate n ' ' ++ ' ' :: p = List.replicate (n + 1) ' ' ++ p := by
        rw [List.append_cons, List.replicate_succ']
      have hblank (n : Nat) : Text.AllBlank (List.replicate n ' ') := fun c hc =>
        List.eq_of_mem_replicate hc ▸ rfl
      have hrest (n : Nat) : ∀ c, (List.replicate (n + 1) ' ' ++ p).head? = some c →
          isBlank c = true := by
        rintro c ⟨⟩
        rfl
      dsimp only
      rw [List.append_assoc, hfill, hcolumns _ (hrest _), Text.words_append_of_allBlank (hblank _)]
      rfl

namespace Mapping

/-- A padded number is read back, as long as it fits into 64 bits. -/
theorem parseBound_paddedHex (width : Nat) {n : Nat} (h : n < UInt64.size) :
    parseBound (paddedHex width n) = some n := by
  have hread := Text.Numeral.read_eq (by decide) (show 0 < UInt64.size by decide)
    (paddedHex_ne_nil width n) (map_digitValue_paddedHex width n)
  rw [Text.Numeral.value_replicate_zero_append, Text.Numeral.value_digits, if_pos h] at hread
  unfold parseBound
  rw [hread]
  rfl

theorem parseRange_paddedHex {start stop : Nat} (hstart : start < UInt64.size)
    (hstop : stop < UInt64.size) :
    parseRange (paddedHex 8 start ++ '-' :: paddedHex 8 stop) = some (start, stop) := by
  have hkept : ∀ c ∈ paddedHex 8 start, decide (c ≠ '-') = true := fun c hc =>
    decide_eq_true (clean_of_mem_paddedHex c hc).2
  unfold parseRange
  rw [List.dropWhile_append_of_pos hkept, List.takeWhile_append_of_pos hkept, List.dropWhile_cons,
    List.takeWhile_cons, if_neg (by decide), if_neg (by decide), List.append_nil]
  simp only [parseBound_paddedHex 8 hstart, parseBound_paddedHex 8 hstop]
  rfl

/-- What is read from a line: all of the range and the right to read, and the first word of the
path. -/
theorem parse_mapLine_eq {start stop : Nat} (hstart : start < UInt64.size)
    (hstop : stop < UInt64.size) {rights : Text} (hrights : IsWord rights) (offset : Nat)
    {device : Text} (hdevice : IsWord device) (inode : Nat) (path : Option Text) :
    parse (mapLine start stop rights offset device inode path)
      = some ⟨start, stop, rights.head? = some 'r',
          (path.bind fun p => (words p)[0]?).map Path.mk⟩ := by
  have hrange := parseRange_paddedHex hstart hstop
  unfold parse
  rw [words_mapLine hrights hdevice]
  cases path with
  | none => simp [hrange]
  | some p => simp [hrange]

/-- Every line of a map is read, and the ends of its range and the right to read are those it was
written with.  The path that is read ends before the first blank: it is the one written exactly if
that has no blank. -/
theorem parse_mapLine {start stop : Nat} (hstart : start < UInt64.size)
    (hstop : stop < UInt64.size) {rights : Text} (hrights : IsWord rights) (offset : Nat)
    {device : Text} (hdevice : IsWord device) (inode : Nat) {path : Option Text}
    (hpath : ∀ p ∈ path, p ≠ [] ∧ IsTrimmed p) :
    ∃ mapping, parse (mapLine start stop rights offset device inode path) = some mapping
      ∧ mapping.start = start ∧ mapping.stop = stop
      ∧ (mapping.readable = true ↔ rights.head? = some 'r')
      ∧ mapping.path = path.map (fun p => ⟨p.takeWhile (!isBlank ·)⟩)
      ∧ (mapping.path = path.map Path.mk ↔ ∀ p ∈ path, ∀ c ∈ p, isBlank c = false) := by
  have hread : (path.bind fun p => (words p)[0]?).map Path.mk
      = path.map (fun p => ⟨p.takeWhile (!isBlank ·)⟩) := by
    cases path with
    | none => rfl
    | some p =>
        obtain ⟨hne, htrimmed⟩ := hpath p rfl
        show ((words p)[0]?).map Path.mk = some ⟨p.takeWhile (!isBlank ·)⟩
        rw [Text.words_of_not_isBlank hne htrimmed.start]
        rfl
  refine ⟨_, parse_mapLine_eq hstart hstop hrights offset hdevice inode path, rfl, rfl,
    decide_eq_true_iff, hread, ?_⟩
  rw [hread]
  cases path with
  | none => simp
  | some p => simp [List.takeWhile_eq_self_iff]

/-- A mapping of a program below a directory with a blank in its name. -/
theorem parse_mapLine_spaced :
    ∃ mapping, parse (mapLine 0x140000000 0x140001000 "r--p".toList 0 "08:01".toList 46
        (some "/games/My App/App.exe".toList)) = some mapping
      ∧ mapping.start = 0x140000000 ∧ mapping.stop = 0x140001000
      ∧ (mapping.readable = true ↔ "r--p".toList.head? = some 'r')
      ∧ mapping.path = some ⟨"/games/My".toList⟩ := by
  have hpath : ∀ p ∈ some "/games/My App/App.exe".toList, p ≠ [] ∧ IsTrimmed p := by
    rintro p ⟨⟩
    exact ⟨List.cons_ne_nil _ _, Text.isTrimmed_enclosed rfl rfl "games/My App/App.ex".toList⟩
  obtain ⟨mapping, hparse, hstart, hstop, hreadable, hfirst, -⟩ :=
    parse_mapLine (show 0x140000000 < UInt64.size by decide)
      (show 0x140001000 < UInt64.size by decide)
      (Text.isWord_of_all (List.cons_ne_nil 'r' "--p".toList) rfl) 0
      (Text.isWord_of_all (List.cons_ne_nil '0' "8:01".toList) rfl) 46 hpath
  exact ⟨mapping, hparse, hstart, hstop, hreadable, hfirst⟩

/-- With the rest of its path, a mapping loses the ending that tells it is one of a program: the
module is not looked for there. -/
theorem parse_mapLine_loses_path :
    ∃ mapping, parse (mapLine 0x140000000 0x140001000 "r--p".toList 0 "08:01".toList 46
        (some "/games/My App/App.exe".toList)) = some mapping
      ∧ mapping.path ≠ some ⟨"/games/My App/App.exe".toList⟩
      ∧ mapping.isExecutable = false
      ∧ isExecutable { mapping with path := some ⟨"/games/My App/App.exe".toList⟩ } = true := by
  have hpath : IsTrimmed "/games/My App/App.exe".toList :=
    Text.isTrimmed_enclosed rfl rfl "games/My App/App.ex".toList
  have hwords : (words "/games/My App/App.exe".toList)[0]? = some "/games/My".toList := by
    rw [Text.words_of_not_isBlank (by decide) hpath.start]
    rfl
  refine ⟨_, parse_mapLine_eq (by decide) (by decide)
    (Text.isWord_of_all (List.cons_ne_nil 'r' "--p".toList) rfl) 0
    (Text.isWord_of_all (List.cons_ne_nil '0' "8:01".toList) rfl) 46 _, ?_⟩
  rw [Option.bind_some, hwords]
  exact ⟨by decide, by decide, by decide⟩

end Mapping

end Live

end RttiProbe

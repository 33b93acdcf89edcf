import Mathlib.Algebra.GroupWithZero.Nat
import Mathlib.Data.List.Basic
import Mathlib.Data.List.DropRight

/-!
# Text with byte offsets

The strings of Rust are UTF-8, and their slices are cut at byte offsets.  A
slice fails when the offset is past the end or inside a character.  Here a
text is its list of characters, `size` is its length in bytes, and `splitAt`
is the cut that can fail.

The rest are the functions of `str` that parsers of line formats use:
`lines`, `splitOnce`, `words` and the decimal numbers.  Each comes with the
lemma that reads back what a writer has put there.
-/

namespace Text

/-! ## Letters and digits -/

theorem isUpper_eq (c : Char) : c.isUpper = decide ('A'.val ≤ c.val ∧ c.val ≤ 'Z'.val) := rfl

theorem isLower_eq (c : Char) :
    c.isLower = (decide ('a'.val ≤ c.val) && decide (c.val ≤ 'z'.val)) := rfl

theorem isAlpha_eq (c : Char) : c.isAlpha = (c.isUpper || c.isLower) := rfl

theorem isAlphanum_eq (c : Char) : c.isAlphanum = (c.isUpper || c.isLower || c.isDigit) := rfl

/-- The letters and the digits as code points. -/
theorem isAlphanum_iff_toNat {c : Char} : c.isAlphanum = true ↔
    65 ≤ c.toNat ∧ c.toNat ≤ 90 ∨ 97 ≤ c.toNat ∧ c.toNat ≤ 122 ∨
      48 ≤ c.toNat ∧ c.toNat ≤ 57 := by
  rw [isAlphanum_eq, Bool.or_eq_true, Bool.or_eq_true, or_assoc, isUpper_eq, isLower_eq,
    decide_eq_true_iff, Bool.and_eq_true, decide_eq_true_iff, decide_eq_true_iff,
    Char.isDigit_iff_toNat]
  exact Iff.rfl

/-! ## Byte offsets -/

/-- `str::len`: the bytes of the text in UTF-8. -/
def size (cs : List Char) : Nat := (cs.map Char.utf8Size).sum

@[simp] theorem size_nil : size [] = 0 := rfl

@[simp] theorem size_cons (c : Char) (cs : List Char) :
    size (c :: cs) = c.utf8Size + size cs := by
  simp [size]

@[simp] theorem size_append (a b : List Char) : size (a ++ b) = size a + size b := by
  simp [size]

theorem length_le_size (cs : List Char) : cs.length ≤ size cs := by
  induction cs with
  | nil => exact Nat.le_refl _
  | cons c cs ih =>
    have hc := c.utf8Size_pos
    simp only [List.length_cons, size_cons]
    omega

/-- A text of characters of one byte. -/
theorem size_eq_length {cs : List Char} (h : ∀ c ∈ cs, c.utf8Size = 1) : size cs = cs.length := by
  induction cs with
  | nil => rfl
  | cons c cs ih =>
    have hc := h c List.mem_cons_self
    have htail := ih (fun d hd => h d (List.mem_cons_of_mem _ hd))
    rw [size_cons, List.length_cons]
    omega

theorem utf8ByteSize_ofList (cs : List Char) : (String.ofList cs).utf8ByteSize = size cs := by
  induction cs with
  | nil => rfl
  | cons c cs ih =>
    have hcons : String.ofList (c :: cs) = String.singleton c ++ String.ofList cs := by
      rw [← String.toList_inj]
      simp
    rw [hcons, String.utf8ByteSize_append, String.utf8ByteSize_singleton, ih, size_cons]

theorem size_toList (s : String) : size s.toList = s.utf8ByteSize := by
  rw [← utf8ByteSize_ofList, String.ofList_toList]

/-- `str::split_at_checked`. -/
def splitAt : Nat → List Char → Option (List Char × List Char)
  | 0, cs => some ([], cs)
  | _ + 1, [] => none
  | n + 1, c :: cs =>
    if c.utf8Size ≤ n + 1 then
      (splitAt (n + 1 - c.utf8Size) cs).map (fun (a, b) => (c :: a, b))
    else none

/-- The offset is the end of a character, or the start of the text. -/
def IsBoundary (n : Nat) (cs : List Char) : Prop := ∃ a b, cs = a ++ b ∧ size a = n

/-- The cut at an offset leaves the text in two parts, the first of which has
that many bytes. -/
theorem splitAt_eq_some_iff {n : Nat} {cs a b : List Char} :
    splitAt n cs = some (a, b) ↔ cs = a ++ b ∧ size a = n := by
  induction cs generalizing n a with
  | nil =>
    cases n with
    | zero =>
      constructor
      · intro h
        obtain ⟨rfl, rfl⟩ := Prod.mk.inj (Option.some.inj h)
        exact ⟨rfl, rfl⟩
      · rintro ⟨h, -⟩
        obtain ⟨rfl, rfl⟩ := List.nil_eq_append_iff.mp h
        rfl
    | succ n =>
      constructor
      · intro h
        cases h
      · rintro ⟨h, hsize⟩
        obtain ⟨rfl, rfl⟩ := List.nil_eq_append_iff.mp h
        simp at hsize
  | cons c cs ih =>
    have hc := c.utf8Size_pos
    cases n with
    | zero =>
      constructor
      · intro h
        obtain ⟨rfl, rfl⟩ := Prod.mk.inj (Option.some.inj h)
        exact ⟨rfl, rfl⟩
      · rintro ⟨h, hsize⟩
        cases a with
        | nil => simp [splitAt, h]
        | cons d a =>
          have hd := d.utf8Size_pos
          simp only [size_cons] at hsize
          omega
    | succ n =>
      simp only [splitAt]
      split_ifs with hle
      · rw [Option.map_eq_some_iff]
        constructor
        · rintro ⟨⟨a', b'⟩, hrec, heq⟩
          obtain ⟨rfl, rfl⟩ := Prod.mk.inj heq
          obtain ⟨rfl, hsize⟩ := ih.mp hrec
          refine ⟨rfl, ?_⟩
          simp only [size_cons]
          omega
        · rintro ⟨h, hsize⟩
          cases a with
          | nil => simp at hsize
          | cons d a =>
            obtain ⟨rfl, rfl⟩ := List.cons.inj h
            simp only [size_cons] at hsize
            exact ⟨(a, b), ih.mpr ⟨rfl, by omega⟩, rfl⟩
      · constructor
        · intro h
          cases h
        · rintro ⟨h, hsize⟩
          cases a with
          | nil => simp at hsize
          | cons d a =>
            obtain ⟨rfl, rfl⟩ := List.cons.inj h
            simp only [size_cons] at hsize
            omega

/-- The cut fails exactly when the offset is not the end of a character. -/
theorem isSome_splitAt_iff {n : Nat} {cs : List Char} :
    (splitAt n cs).isSome ↔ IsBoundary n cs := by
  rw [Option.isSome_iff_exists]
  constructor
  · rintro ⟨⟨a, b⟩, h⟩
    exact ⟨a, b, splitAt_eq_some_iff.mp h⟩
  · rintro ⟨a, b, h⟩
    exact ⟨(a, b), splitAt_eq_some_iff.mpr h⟩

theorem splitAt_size (a b : List Char) : splitAt (size a) (a ++ b) = some (a, b) :=
  splitAt_eq_some_iff.mpr ⟨rfl, rfl⟩

/-- A text is cut at most once at an offset. -/
theorem append_inj_of_size {a a' b b' : List Char} (h : a ++ b = a' ++ b')
    (hsize : size a = size a') : a = a' ∧ b = b' := by
  have hcut := splitAt_size a b
  rw [h, hsize, splitAt_size] at hcut
  obtain ⟨rfl, rfl⟩ := Prod.mk.inj (Option.some.inj hcut)
  exact ⟨rfl, rfl⟩

/-! ## Separators -/

/-- Two texts that end at the same separator are the same when neither holds
it. -/
theorem append_inj_of_sep {sep : Char} {a a' b b' : List Char} (ha : sep ∉ a) (ha' : sep ∉ a')
    (h : a ++ sep :: b = a' ++ sep :: b') : a = a' ∧ b = b' := by
  induction a generalizing a' with
  | nil =>
    cases a' with
    | nil => exact ⟨rfl, (List.cons.inj h).2⟩
    | cons c a' =>
      have hc : sep = c := (List.cons.inj h).1
      exact absurd (hc ▸ List.mem_cons_self) ha'
  | cons c a ih =>
    cases a' with
    | nil =>
      have hc : c = sep := (List.cons.inj h).1
      exact absurd (hc ▸ List.mem_cons_self) ha
    | cons c' a' =>
      obtain ⟨rfl, htail⟩ := List.cons.inj h
      rw [List.mem_cons, not_or] at ha ha'
      obtain ⟨rfl, rfl⟩ := ih ha.2 ha'.2 htail
      exact ⟨rfl, rfl⟩

/-- Lists of texts that have a part in common at their start are the same when
they are joined to the same text, and the separator is not in the rest of
them. -/
theorem intercalate_inj {sep : Char} {start : List Char} (hstart : start ≠ [])
    {as bs : List (List Char)} (ha : ∀ a ∈ as, sep ∉ a) (hb : ∀ b ∈ bs, sep ∉ b)
    (h : [sep].intercalate (as.map (start ++ ·)) = [sep].intercalate (bs.map (start ++ ·))) :
    as = bs := by
  have hcons : ∀ (a : List Char) (as : List (List Char)),
      [sep].intercalate ((a :: as).map (start ++ ·)) =
        start ++ (a ++ (as.map (fun a => sep :: (start ++ a))).flatten) := by
    intro a as
    induction as generalizing a with
    | nil => simp [List.intercalate]
    | cons a' as ih =>
      rw [List.map_cons, List.map_cons, List.intercalate_cons_cons, ← List.map_cons, ih a']
      simp
  induction as generalizing bs with
  | nil =>
    cases bs with
    | nil => rfl
    | cons b bs =>
      rw [hcons b bs] at h
      exact absurd (List.append_eq_nil_iff.mp h.symm).1 hstart
  | cons a as ih =>
    cases bs with
    | nil =>
      rw [hcons a as] at h
      exact absurd (List.append_eq_nil_iff.mp h).1 hstart
    | cons b bs =>
      have hsep := ha a List.mem_cons_self
      have hsep' := hb b List.mem_cons_self
      rw [hcons, hcons, List.append_cancel_left_eq] at h
      -- the first texts end at the first separator, or at the end
      cases as with
      | nil =>
        cases bs with
        | nil => simpa using h
        | cons b' bs =>
          simp only [List.map_nil, List.flatten_nil, List.append_nil, List.map_cons,
            List.flatten_cons] at h
          exact absurd (h ▸ List.mem_append_right _ (List.mem_append_left _ List.mem_cons_self))
            hsep
      | cons a' as =>
        cases bs with
        | nil =>
          simp only [List.map_nil, List.flatten_nil, List.append_nil, List.map_cons,
            List.flatten_cons] at h
          exact absurd (h ▸ List.mem_append_right _ (List.mem_append_left _ List.mem_cons_self))
            hsep'
        | cons b' bs =>
          simp only [List.map_cons, List.flatten_cons, List.cons_append] at h
          obtain ⟨rfl, hrest⟩ := append_inj_of_sep hsep hsep' h
          have htail := ih (fun c hc => ha c (List.mem_cons_of_mem _ hc))
            (fun c hc => hb c (List.mem_cons_of_mem _ hc)) (by
              rw [hcons, hcons]
              simpa using hrest)
          rw [htail]

/-- `str::split_once` at a character. -/
def splitOnce (sep : Char) (cs : List Char) : Option (List Char × List Char) :=
  if sep ∈ cs then some (cs.takeWhile (· ≠ sep), (cs.dropWhile (· ≠ sep)).tail)
  else none

theorem splitOnce_append {sep : Char} {a : List Char} (ha : sep ∉ a) (b : List Char) :
    splitOnce sep (a ++ sep :: b) = some (a, b) := by
  have hne : ∀ c ∈ a, decide (c ≠ sep) = true := by
    intro c hc
    have : c ≠ sep := fun h => ha (h ▸ hc)
    simpa using this
  rw [splitOnce, if_pos (List.mem_append_right _ List.mem_cons_self),
    List.takeWhile_append_of_pos hne, List.dropWhile_append_of_pos hne]
  simp

/-- `str::split_whitespace`, for any kind of blank. -/
def words (blank : Char → Bool) (cs : List Char) : List (List Char) :=
  (cs.splitOnP blank).filter (fun w => !w.isEmpty)

@[simp] theorem words_nil {blank : Char → Bool} : words blank [] = [] := rfl

theorem words_cons {blank : Char → Bool} {c : Char} (hc : blank c = true) (cs : List Char) :
    words blank (c :: cs) = words blank cs := by
  have hsplit : (c :: cs).splitOnP blank = [] :: cs.splitOnP blank :=
    List.splitOnP_append_cons [] cs hc
  rw [words, hsplit, List.filter_cons]
  rfl

/-- Blanks at the start are passed over. -/
theorem words_blanks_append {blank : Char → Bool} {b : List Char}
    (hb : ∀ c ∈ b, blank c = true) (cs : List Char) : words blank (b ++ cs) = words blank cs := by
  induction b with
  | nil => rfl
  | cons c b ih =>
    rw [List.forall_mem_cons] at hb
    rw [List.cons_append, words_cons hb.1]
    exact ih hb.2

/-- A word ends before the first blank. -/
theorem words_append {blank : Char → Bool} {w : List Char} (hne : w ≠ [])
    (hw : ∀ c ∈ w, blank c = false) (rest : List Char) (hrest : ∀ c ∈ rest.head?, blank c = true) :
    words blank (w ++ rest) = w :: words blank rest := by
  have hkeep : (!w.isEmpty) = true := by simpa using hne
  cases rest with
  | nil =>
    rw [List.append_nil, words, List.splitOnP_eq_singleton hw, List.filter_cons, if_pos hkeep]
    rfl
  | cons c rest =>
    rw [words_cons (hrest c rfl), words, List.splitOnP_append_cons_of_forall_mem hw c (hrest c rfl),
      List.filter_cons, if_pos hkeep, words]

/-- The words of a text that was joined by one blank. -/
theorem words_intercalate {blank : Char → Bool} {sep : Char} (hsep : blank sep = true)
    {ws : List (List Char)} (hne : ∀ w ∈ ws, w ≠ []) (hw : ∀ w ∈ ws, ∀ c ∈ w, blank c = false) :
    words blank ([sep].intercalate ws) = ws := by
  induction ws with
  | nil => rfl
  | cons w ws ih =>
    have ih := ih (fun v hv => hne v (List.mem_cons_of_mem _ hv))
      (fun v hv => hw v (List.mem_cons_of_mem _ hv))
    have hne₀ := hne w List.mem_cons_self
    have hw₀ := hw w List.mem_cons_self
    cases ws with
    | nil =>
      have hlast := words_append hne₀ hw₀ [] (by simp)
      rw [List.append_nil, words_nil] at hlast
      rw [List.intercalate_singleton, hlast]
    | cons v ws =>
      have hsep' : ∀ c ∈ [sep], blank c = true := by simpa using hsep
      rw [List.intercalate_cons_cons, List.append_assoc,
        words_append hne₀ hw₀ _ (by simpa using hsep), words_blanks_append hsep', ih]

/-! ## Lines -/

/-- A line without the carriage return before its end. -/
def stripCr (l : List Char) : List Char := if l.getLast? = some '\r' then l.dropLast else l

/-- The lines of the pieces between the line feeds.  The last piece has no
line feed, and is no line when it is empty. -/
def linesOf : List (List Char) → List (List Char)
  | [] => []
  | [last] => if last = [] then [] else [last]
  | l :: l' :: ls => stripCr l :: linesOf (l' :: ls)

/-- `str::lines`. -/
def lines (cs : List Char) : List (List Char) := linesOf (cs.splitOn '\n')

@[simp] theorem lines_nil : lines [] = [] := rfl

/-- The first line ends at the first line feed. -/
theorem lines_append {l : List Char} (hl : '\n' ∉ l) (rest : List Char) :
    lines (l ++ '\n' :: rest) = stripCr l :: lines rest := by
  have hsplit : (l ++ '\n' :: rest).splitOn '\n' = l :: rest.splitOn '\n' := by
    apply List.splitOnP_append_cons_of_forall_mem
    · intro c hc
      have : c ≠ '\n' := fun h => hl (h ▸ hc)
      simpa using this
    · rfl
  rw [lines, hsplit]
  cases hrest : rest.splitOn '\n' with
  | nil => exact absurd hrest (List.splitOn_ne_nil _ _)
  | cons l' ls => rw [linesOf, lines, hrest]

/-! ## Numbers -/

/-- `std::num::IntErrorKind`. -/
inductive IntErrorKind where
  | empty
  | invalidDigit
  | posOverflow
  | negOverflow
deriving DecidableEq, Repr

/-- The digits of `from_str_radix` with the radix ten, for numbers below
`bound`. -/
def parseDigits (bound : Nat) : Nat → List Char → Except IntErrorKind Nat
  | acc, [] => .ok acc
  | acc, c :: cs =>
    if c.isDigit then
      if acc * 10 + (c.toNat - 48) < bound then parseDigits bound (acc * 10 + (c.toNat - 48)) cs
      else .error .posOverflow
    else .error .invalidDigit

/-- `str::parse` of an unsigned number below `bound`. -/
def parseNat (bound : Nat) : List Char → Except IntErrorKind Nat
  | [] => .error .empty
  | '+' :: [] => .error .invalidDigit
  | '-' :: [] => .error .invalidDigit
  | '+' :: ds => parseDigits bound 0 ds
  | ds => parseDigits bound 0 ds

/-- `str::parse` of a signed number from `-bound` on and below `bound`. -/
def parseInt (bound : Nat) : List Char → Except IntErrorKind Int
  | [] => .error .empty
  | '+' :: [] => .error .invalidDigit
  | '-' :: [] => .error .invalidDigit
  | '-' :: ds =>
    match parseDigits (bound + 1) 0 ds with
    | .ok n => .ok (-n)
    | .error .posOverflow => .error .negOverflow
    | .error e => .error e
  | '+' :: ds => (parseDigits bound 0 ds).map Int.ofNat
  | ds => (parseDigits bound 0 ds).map Int.ofNat

theorem parseDigits_of_lt {bound : Nat} {ds : List Char} (hds : ∀ c ∈ ds, c.isDigit = true)
    {acc : Nat} (hlt : Nat.ofDigitChars 10 ds acc < bound) :
    parseDigits bound acc ds = .ok (Nat.ofDigitChars 10 ds acc) := by
  induction ds generalizing acc with
  | nil => rfl
  | cons c ds ih =>
    have hstep : Nat.ofDigitChars 10 (c :: ds) acc =
        Nat.ofDigitChars 10 ds (acc * 10 + (c.toNat - 48)) := by
      rw [Nat.ofDigitChars_cons, Nat.mul_comm]
      rfl
    rw [hstep] at hlt ⊢
    -- the number does not get smaller by more digits
    have hle : acc * 10 + (c.toNat - 48) ≤
        Nat.ofDigitChars 10 ds (acc * 10 + (c.toNat - 48)) := by
      rw [Nat.ofDigitChars_eq_ofDigitChars_zero]
      exact le_trans (Nat.le_mul_of_pos_left _ (Nat.pow_pos (by omega))) (Nat.le_add_right _ _)
    rw [parseDigits, if_pos (hds c List.mem_cons_self), if_pos (lt_of_le_of_lt hle hlt)]
    exact ih (fun d hd => hds d (List.mem_cons_of_mem _ hd)) hlt

/-- A number is read back from its decimal digits. -/
theorem parseNat_toDigits {bound n : Nat} (hn : n < bound) :
    parseNat bound (Nat.toDigits 10 n) = .ok n := by
  have hdigits : ∀ c ∈ Nat.toDigits 10 n, c.isDigit = true :=
    fun c hc => Nat.isDigit_of_mem_toDigits (by omega) (by omega) hc
  have hlt : Nat.ofDigitChars 10 (Nat.toDigits 10 n) 0 < bound := by
    rwa [Nat.ofDigitChars_ten_toDigits]
  have hparse := parseDigits_of_lt hdigits hlt
  rw [Nat.ofDigitChars_ten_toDigits] at hparse
  cases hds : Nat.toDigits 10 n with
  | nil => exact absurd hds Nat.toDigits_ne_nil
  | cons c ds =>
    rw [hds] at hparse hdigits
    have hc := hdigits c List.mem_cons_self
    have hplus : c ≠ '+' := fun h => by simp [h] at hc
    have hminus : c ≠ '-' := fun h => by simp [h] at hc
    rw [parseNat]
    · exact hparse
    · simp
    · intro h
      exact absurd (List.cons.inj h).1 hplus
    · intro h
      exact absurd (List.cons.inj h).1 hminus
    · intro ds' h
      exact absurd (List.cons.inj h).1 hplus

end Text

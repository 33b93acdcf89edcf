import Mathlib.Data.List.Basic

/-!
# Regular expressions and the search for a match

A pattern matches at the start of a text in several ways.  `exec` lists them
in the order in which a backtracking matcher finds them: a repetition first
takes as many characters as it can, and an alternative is tried after the
one before it.  `Accepts` says which texts belong to a pattern and what its
groups capture there, and `mem_exec_iff` that `exec` lists just these.

`search` takes the leftmost place with a match, and the first match there.
A pattern is not anchored: `isMatch` holds when any part of the text belongs
to it.  When the matches come in the order of their lengths, the match that
is found is the whole text exactly when the whole text belongs to the pattern
(`search_all_iff`).

The rules of `First` follow a pattern along a text that was written for it,
and give the match that is found there with its groups.
-/

namespace Regex

/-- Patterns, with repetition for a class of characters. -/
inductive Pattern where
  | one (p : Char → Bool)
  /-- `[..]*` -/
  | many (p : Char → Bool)
  /-- `[..]+` -/
  | many1 (p : Char → Bool)
  | seq (a b : Pattern)
  | alt (a b : Pattern)
  | opt (a : Pattern)
  /-- A group with its number. -/
  | group (n : Nat) (a : Pattern)

/-- A match at the start of a text: its text, what follows, and the texts of
the groups. -/
structure Match where
  text : List Char
  rest : List Char
  groups : List (Nat × List Char) := []
deriving DecidableEq

/-- A match and one that follows it. -/
def Match.append (m m' : Match) : Match := ⟨m.text ++ m'.text, m'.rest, m.groups ++ m'.groups⟩

def Match.capture (n : Nat) (m : Match) : Match := { m with groups := (n, m.text) :: m.groups }

/-- The ways to take characters of a class, the longest one first. -/
def takes (p : Char → Bool) : List Char → List (List Char × List Char)
  | [] => [([], [])]
  | c :: cs =>
    if p c then (takes p cs).map (fun r => (c :: r.1, r.2)) ++ [([], c :: cs)]
    else [([], c :: cs)]

/-- Characters of a class, at least one. -/
structure Span (p : Char → Bool) where
  chars : List Char
  nonempty : chars ≠ []
  inClass : ∀ c ∈ chars, p c = true

/-- A text as a span. -/
def Span.ofText {p : Char → Bool} (s : String) (hne : s.toList ≠ [])
    (hall : s.toList.all p = true) : Span p :=
  ⟨s.toList, hne, List.all_eq_true.mp hall⟩

/-- The first character of what starts with a span. -/
theorem Span.head?_append {p : Char → Bool} (w : Span p) (rest : List Char) :
    ∀ c ∈ (w.chars ++ rest).head?, p c = true := by
  intro c hc
  obtain ⟨d, ds, hd⟩ := List.exists_cons_of_ne_nil w.nonempty
  rw [hd, List.cons_append, List.head?_cons, Option.mem_some_iff] at hc
  exact w.inClass c (by rw [hd, hc]; exact List.mem_cons_self)

namespace Pattern

/-- The matches at the start of the text, in the order in which they are
tried. -/
def exec : Pattern → List Char → List Match
  | .one p, cs =>
    match cs with
    | [] => []
    | c :: cs => if p c then [⟨[c], cs, []⟩] else []
  | .many p, cs => (takes p cs).map (fun r => ⟨r.1, r.2, []⟩)
  | .many1 p, cs =>
    match cs with
    | [] => []
    | c :: cs => if p c then (takes p cs).map (fun r => ⟨c :: r.1, r.2, []⟩) else []
  | .seq a b, cs => (a.exec cs).flatMap (fun m => (b.exec m.rest).map m.append)
  | .alt a b, cs => a.exec cs ++ b.exec cs
  | .opt a, cs => a.exec cs ++ [⟨[], cs, []⟩]
  | .group n a, cs => (a.exec cs).map (Match.capture n)

/-- The text belongs to the pattern, and the groups capture these texts. -/
def Accepts : Pattern → List Char → List (Nat × List Char) → Prop
  | .one p, t, g => g = [] ∧ ∃ c, t = [c] ∧ p c = true
  | .many p, t, g => g = [] ∧ ∀ c ∈ t, p c = true
  | .many1 p, t, g => g = [] ∧ t ≠ [] ∧ ∀ c ∈ t, p c = true
  | .seq a b, t, g => ∃ t₁ g₁ t₂ g₂, t = t₁ ++ t₂ ∧ g = g₁ ++ g₂ ∧ a.Accepts t₁ g₁ ∧
      b.Accepts t₂ g₂
  | .alt a b, t, g => a.Accepts t g ∨ b.Accepts t g
  | .opt a, t, g => a.Accepts t g ∨ (t = [] ∧ g = [])
  | .group n a, t, g => ∃ g', g = (n, t) :: g' ∧ a.Accepts t g'

/-- The leftmost match, with the text before it. -/
def search (a : Pattern) : List Char → Option (List Char × Match)
  | [] => (a.exec []).head?.map (fun m => ([], m))
  | c :: cs =>
    match (a.exec (c :: cs)).head? with
    | some m => some ([], m)
    | none => (search a cs).map (fun r => (c :: r.1, r.2))

/-- `Regex::is_match`. -/
def isMatch (a : Pattern) (cs : List Char) : Bool := (a.search cs).isSome

/-! ## What is matched -/

theorem mem_takes_iff {p : Char → Bool} {cs t r : List Char} :
    (t, r) ∈ takes p cs ↔ cs = t ++ r ∧ ∀ c ∈ t, p c = true := by
  induction cs generalizing t with
  | nil =>
    rw [takes, List.mem_singleton, Prod.mk.injEq, eq_comm (a := []), List.append_eq_nil_iff]
    exact ⟨fun ⟨ht, hr⟩ => ⟨⟨ht, hr⟩, by simp [ht]⟩, fun h => h.1⟩
  | cons c cs ih =>
    cases t with
    | nil =>
      have hnot : ([], r) ∉ (takes p cs).map (fun s => (c :: s.1, s.2)) := by simp
      have hlast : ([], r) ∈ [(([] : List Char), c :: cs)] ↔
          c :: cs = [] ++ r ∧ ∀ d ∈ ([] : List Char), p d = true := by
        rw [List.mem_singleton, Prod.mk.injEq]
        exact ⟨fun h => ⟨h.2.symm, by simp⟩, fun h => ⟨rfl, h.1.symm⟩⟩
      rw [takes]
      split_ifs
      · rw [List.mem_append, or_iff_right hnot, hlast]
      · exact hlast
    | cons d t =>
      have hmem : (d :: t, r) ∈ (takes p cs).map (fun s => (c :: s.1, s.2)) ↔
          c = d ∧ (t, r) ∈ takes p cs := by
        simp [Prod.ext_iff, and_comm, and_assoc]
      simp only [takes]
      split_ifs with hc
      · rw [List.mem_append, hmem, ih]
        simp only [List.mem_singleton, Prod.mk.injEq, reduceCtorEq, false_and, or_false,
          List.cons_append, List.cons.injEq, List.forall_mem_cons]
        constructor
        · rintro ⟨rfl, hcs, ht⟩
          exact ⟨⟨rfl, hcs⟩, hc, ht⟩
        · rintro ⟨⟨rfl, hcs⟩, -, ht⟩
          exact ⟨rfl, hcs, ht⟩
      · simp only [List.mem_singleton, Prod.mk.injEq, reduceCtorEq, false_and, List.cons_append,
          List.cons.injEq, List.forall_mem_cons, false_iff, not_and]
        rintro ⟨rfl, -⟩ hd
        exact absurd hd hc

/-- The matches at the start of a text are the starts that belong to the
pattern. -/
theorem mem_exec_iff {a : Pattern} {cs : List Char} {m : Match} :
    m ∈ a.exec cs ↔ cs = m.text ++ m.rest ∧ a.Accepts m.text m.groups := by
  obtain ⟨text, rest, groups⟩ := m
  induction a generalizing cs text rest groups with
  | one p =>
    cases cs with
    | nil =>
      simp only [exec, Accepts, List.not_mem_nil, false_iff]
      rintro ⟨hnil, -, c, rfl, -⟩
      cases hnil
    | cons c cs =>
      simp only [exec, Accepts]
      split_ifs with hc
      · rw [List.mem_singleton, Match.mk.injEq]
        constructor
        · rintro ⟨rfl, rfl, rfl⟩
          exact ⟨rfl, rfl, c, rfl, hc⟩
        · rintro ⟨heq, rfl, d, rfl, -⟩
          cases heq
          exact ⟨rfl, rfl, rfl⟩
      · simp only [List.not_mem_nil, false_iff]
        rintro ⟨heq, -, d, rfl, hd⟩
        cases heq
        exact hc hd
  | many p =>
    simp only [exec, Accepts, List.mem_map, Match.mk.injEq, Prod.exists]
    constructor
    · rintro ⟨t, r, hmem, rfl, rfl, rfl⟩
      obtain ⟨hcs, ht⟩ := mem_takes_iff.mp hmem
      exact ⟨hcs, rfl, ht⟩
    · rintro ⟨hcs, rfl, ht⟩
      exact ⟨text, rest, mem_takes_iff.mpr ⟨hcs, ht⟩, rfl, rfl, rfl⟩
  | many1 p =>
    cases cs with
    | nil =>
      simp only [exec, Accepts, List.not_mem_nil, false_iff]
      rintro ⟨hnil, -, hne, -⟩
      exact hne (List.append_eq_nil_iff.mp hnil.symm).1
    | cons c cs =>
      simp only [exec, Accepts]
      split_ifs with hc
      · simp only [List.mem_map, Match.mk.injEq, Prod.exists]
        constructor
        · rintro ⟨t, r, hmem, rfl, rfl, rfl⟩
          obtain ⟨rfl, ht⟩ := mem_takes_iff.mp hmem
          exact ⟨rfl, rfl, List.cons_ne_nil _ _, by simpa [hc] using ht⟩
        · rintro ⟨hcs, rfl, hne, ht⟩
          cases text with
          | nil => exact absurd rfl hne
          | cons d text =>
            cases hcs
            exact ⟨text, rest, mem_takes_iff.mpr ⟨rfl, (List.forall_mem_cons.mp ht).2⟩,
              rfl, rfl, rfl⟩
      · simp only [List.not_mem_nil, false_iff]
        rintro ⟨hcs, -, hne, ht⟩
        cases text with
        | nil => exact hne rfl
        | cons d text =>
          cases hcs
          exact hc (List.forall_mem_cons.mp ht).1
  | seq a b iha ihb =>
    simp only [exec, Accepts, List.mem_flatMap, List.mem_map]
    constructor
    · rintro ⟨⟨t₁, r₁, g₁⟩, hm, ⟨t₂, r₂, g₂⟩, hm', heq⟩
      obtain ⟨rfl, ha⟩ := (iha _ _ _).mp hm
      obtain ⟨rfl, hb⟩ := (ihb _ _ _).mp hm'
      cases heq
      exact ⟨(List.append_assoc _ _ _).symm, t₁, g₁, t₂, g₂, rfl, rfl, ha, hb⟩
    · rintro ⟨rfl, t₁, g₁, t₂, g₂, rfl, rfl, ha, hb⟩
      exact ⟨⟨t₁, t₂ ++ rest, g₁⟩, (iha _ _ _).mpr ⟨List.append_assoc _ _ _, ha⟩,
        ⟨t₂, rest, g₂⟩, (ihb _ _ _).mpr ⟨rfl, hb⟩, rfl⟩
  | alt a b iha ihb =>
    rw [exec, List.mem_append, iha, ihb, Accepts, and_or_left]
  | opt a iha =>
    rw [exec, List.mem_append, iha, List.mem_singleton, Accepts, and_or_left, Match.mk.injEq]
    refine or_congr_right ?_
    constructor
    · rintro ⟨rfl, rfl, rfl⟩
      exact ⟨rfl, rfl, rfl⟩
    · rintro ⟨rfl, rfl, rfl⟩
      exact ⟨rfl, rfl, rfl⟩
  | group n a iha =>
    simp only [exec, Accepts, List.mem_map]
    constructor
    · rintro ⟨⟨t, r, g⟩, hm, heq⟩
      obtain ⟨hcs, ha⟩ := (iha _ _ _).mp hm
      cases heq
      exact ⟨hcs, g, rfl, ha⟩
    · rintro ⟨hcs, g, rfl, ha⟩
      exact ⟨⟨text, rest, g⟩, (iha _ _ _).mpr ⟨hcs, ha⟩, rfl⟩

/-! ## The leftmost match -/

theorem search_of_head {a : Pattern} {cs : List Char} {m : Match}
    (h : (a.exec cs).head? = some m) : a.search cs = some ([], m) := by
  cases cs with
  | nil => rw [search, h, Option.map_some]
  | cons c cs => rw [search, h]

/-- The match that is found belongs to the pattern. -/
theorem search_sound {a : Pattern} {cs pre : List Char} {m : Match}
    (h : a.search cs = some (pre, m)) :
    cs = pre ++ (m.text ++ m.rest) ∧ a.Accepts m.text m.groups := by
  induction cs generalizing pre with
  | nil =>
    obtain ⟨m', hm', heq⟩ := Option.map_eq_some_iff.mp h
    cases heq
    exact mem_exec_iff.mp (List.mem_of_head? hm')
  | cons c cs ih =>
    cases hhead : (a.exec (c :: cs)).head? with
    | some m' =>
      rw [search_of_head hhead] at h
      cases h
      exact mem_exec_iff.mp (List.mem_of_head? hhead)
    | none =>
      rw [search, hhead] at h
      obtain ⟨⟨pre', m'⟩, hm', heq⟩ := Option.map_eq_some_iff.mp h
      cases heq
      obtain ⟨hcs, hm⟩ := ih hm'
      exact ⟨congrArg (c :: ·) hcs, hm⟩

/-- `is_match` searches the whole text for a part that belongs to the
pattern. -/
theorem isMatch_iff {a : Pattern} {cs : List Char} :
    a.isMatch cs = true ↔ ∃ pre t post g, cs = pre ++ (t ++ post) ∧ a.Accepts t g := by
  constructor
  · intro h
    obtain ⟨⟨pre, m⟩, hm⟩ := Option.isSome_iff_exists.mp h
    obtain ⟨hcs, ha⟩ := search_sound hm
    exact ⟨pre, m.text, m.rest, m.groups, hcs, ha⟩
  · rintro ⟨pre, t, post, g, rfl, ha⟩
    induction pre with
    | nil =>
      have hmem : (⟨t, post, g⟩ : Match) ∈ a.exec ([] ++ (t ++ post)) :=
        mem_exec_iff.mpr ⟨rfl, ha⟩
      obtain ⟨m, ms, hms⟩ := List.exists_cons_of_ne_nil (List.ne_nil_of_mem hmem)
      rw [isMatch, search_of_head (m := m) (by rw [hms]; rfl)]
      rfl
    | cons c pre ih =>
      cases hhead : (a.exec (c :: (pre ++ (t ++ post)))).head? with
      | some m =>
        rw [isMatch, List.cons_append, search_of_head hhead]
        rfl
      | none =>
        rw [isMatch, List.cons_append, search, hhead, Option.isSome_map]
        exact ih

/-- A repetition that takes a character is found when there is one. -/
theorem isMatch_many1_iff {p : Char → Bool} {cs : List Char} :
    (many1 p).isMatch cs = true ↔ ∃ c ∈ cs, p c = true := by
  rw [isMatch_iff]
  constructor
  · rintro ⟨pre, t, post, g, rfl, -, hne, ht⟩
    obtain ⟨c, t, rfl⟩ := List.exists_cons_of_ne_nil hne
    exact ⟨c, by simp, ht c List.mem_cons_self⟩
  · rintro ⟨c, hc, hp⟩
    obtain ⟨pre, post, rfl⟩ := List.append_of_mem hc
    exact ⟨pre, [c], post, [], rfl, rfl, List.cons_ne_nil _ _, by simpa using hp⟩

/-- A repetition that takes no character is found everywhere. -/
theorem isMatch_many (p : Char → Bool) (cs : List Char) : (many p).isMatch cs = true :=
  isMatch_iff.mpr ⟨[], [], cs, [], rfl, rfl, by simp⟩

/-! ## The order of the matches -/

/-- The matches come in the order of their lengths, the longest one first. -/
def Descending (a : Pattern) : Prop :=
  ∀ cs, (a.exec cs).Pairwise (fun m m' => m'.text.length ≤ m.text.length)

/-- When the matches come in the order of their lengths, the leftmost match
is the whole text exactly when the text belongs to the pattern. -/
theorem search_all_iff {a : Pattern} (ha : a.Descending) {cs : List Char} :
    (∃ m, a.search cs = some ([], m) ∧ m.rest = []) ↔ ∃ g, a.Accepts cs g := by
  constructor
  · rintro ⟨m, hm, hrest⟩
    obtain ⟨hcs, hacc⟩ := search_sound hm
    rw [hrest, List.append_nil, List.nil_append] at hcs
    exact ⟨m.groups, hcs ▸ hacc⟩
  · rintro ⟨g, hg⟩
    have hmem : (⟨cs, [], g⟩ : Match) ∈ a.exec cs :=
      mem_exec_iff.mpr ⟨(List.append_nil cs).symm, hg⟩
    have hdesc := ha cs
    obtain ⟨m, ms, hms⟩ := List.exists_cons_of_ne_nil (List.ne_nil_of_mem hmem)
    refine ⟨m, search_of_head (by rw [hms]; rfl), ?_⟩
    obtain ⟨hcs, -⟩ := mem_exec_iff.mp (hms ▸ List.mem_cons_self : m ∈ a.exec cs)
    have hle : cs.length ≤ m.text.length := by
      rw [hms, List.pairwise_cons] at hdesc
      rw [hms] at hmem
      rcases List.mem_cons.mp hmem with heq | hmem
      · exact Nat.le_of_eq (congrArg (fun m => m.text.length) heq)
      · exact hdesc.1 _ hmem
    have hlen := congrArg List.length hcs
    rw [List.length_append] at hlen
    exact List.length_eq_zero_iff.mp (by omega)

/-- The matches are in the order of their lengths, and each but the first one
stops before a character of the class. -/
def Runs (p : Char → Bool) (a : Pattern) : Prop :=
  ∀ cs, (a.exec cs).Pairwise (fun m m' => m'.text.length ≤ m.text.length ∧
    ∃ c rest, m'.rest = c :: rest ∧ p c = true)

/-- The pattern takes nothing of a text that starts with a character of the
class. -/
def StopsAt (p : Char → Bool) (a : Pattern) : Prop :=
  ∀ c cs, p c = true → ∀ m ∈ a.exec (c :: cs), m.text = []

theorem Runs.descending {p : Char → Bool} {a : Pattern} (h : a.Runs p) : a.Descending :=
  fun cs => (h cs).imp And.left

theorem pairwise_takes (p : Char → Bool) (cs : List Char) :
    (takes p cs).Pairwise (fun r r' => r'.1.length ≤ r.1.length ∧
      ∃ c rest, r'.2 = c :: rest ∧ p c = true) := by
  induction cs with
  | nil => exact List.pairwise_singleton _ _
  | cons c cs ih =>
    rw [takes]
    split_ifs with hc
    · refine List.pairwise_append.mpr ⟨?_, List.pairwise_singleton _ _, ?_⟩
      · exact List.pairwise_map.mpr (ih.imp (fun h => ⟨Nat.succ_le_succ h.1, h.2⟩))
      · intro r _ r' hr'
        rw [List.mem_singleton.mp hr']
        exact ⟨Nat.zero_le _, c, cs, rfl, hc⟩
    · exact List.pairwise_singleton _ _

theorem runs_many1 (p : Char → Bool) : (many1 p).Runs p := by
  intro cs
  cases cs with
  | nil => exact List.Pairwise.nil
  | cons c cs =>
    rw [exec]
    split_ifs
    · exact List.pairwise_map.mpr
        ((pairwise_takes p cs).imp (fun h => ⟨Nat.succ_le_succ h.1, h.2⟩))
    · exact List.Pairwise.nil

theorem Runs.group {p : Char → Bool} {a : Pattern} (h : a.Runs p) (n : Nat) :
    (Pattern.group n a).Runs p :=
  fun cs => List.pairwise_map.mpr (h cs)

/-- A run and what follows it: when the run takes fewer characters, nothing
more is taken. -/
theorem Runs.seq {p : Char → Bool} {a b : Pattern} (ha : a.Runs p) (hb : b.Descending)
    (hstop : b.StopsAt p) : (Pattern.seq a b).Descending := by
  intro cs
  refine List.pairwise_flatMap.mpr ⟨fun m _ => ?_, (ha cs).imp ?_⟩
  · refine List.pairwise_map.mpr ((hb m.rest).imp (fun hle => ?_))
    simpa [Match.append] using hle
  · rintro m m' ⟨hle, c, rest, hrest, hc⟩ x hx y hy
    obtain ⟨k, -, rfl⟩ := List.mem_map.mp hx
    obtain ⟨k', hk', rfl⟩ := List.mem_map.mp hy
    rw [hrest] at hk'
    simp only [Match.append, hstop c rest hc k' hk', List.append_nil, List.length_append]
    omega

theorem Descending.opt {a : Pattern} (h : a.Descending) : (Pattern.opt a).Descending := by
  intro cs
  refine List.pairwise_append.mpr ⟨h cs, List.pairwise_singleton _ _, fun m _ m' hm' => ?_⟩
  rw [List.mem_singleton.mp hm']
  exact Nat.zero_le _

theorem Descending.group {a : Pattern} (h : a.Descending) (n : Nat) :
    (Pattern.group n a).Descending :=
  fun cs => List.pairwise_map.mpr (h cs)

/-- There is at most one match. -/
def Single (a : Pattern) : Prop := ∀ cs, (a.exec cs).length ≤ 1

theorem single_one (p : Char → Bool) : (one p).Single := by
  intro cs
  cases cs with
  | nil => exact Nat.zero_le 1
  | cons c cs =>
    rw [exec]
    split_ifs
    · exact Nat.le_refl 1
    · exact Nat.zero_le 1

/-- A run is taken as a whole when what follows it starts with no character
of the class. -/
theorem Runs.single_seq {p : Char → Bool} {a b : Pattern} (ha : a.Runs p) (hb : b.Single)
    (hnil : ∀ c cs, p c = true → b.exec (c :: cs) = []) : (Pattern.seq a b).Single := by
  intro cs
  rw [exec]
  have hruns := ha cs
  cases hexec : a.exec cs with
  | nil => exact Nat.zero_le 1
  | cons m ms =>
    rw [hexec, List.pairwise_cons] at hruns
    have hrest : ms.flatMap (fun m => (b.exec m.rest).map m.append) = [] := by
      refine List.flatMap_eq_nil_iff.mpr (fun m' hm' => ?_)
      obtain ⟨-, c, rest, heq, hc⟩ := hruns.1 m' hm'
      rw [heq, hnil c rest hc, List.map_nil]
    rw [List.flatMap_cons, hrest, List.append_nil, List.length_map]
    exact hb m.rest

theorem Single.seq {a b : Pattern} (ha : a.Single) (hb : b.Single) :
    (Pattern.seq a b).Single := by
  intro cs
  rw [exec]
  have hsingle := ha cs
  cases hexec : a.exec cs with
  | nil => exact Nat.zero_le 1
  | cons m ms =>
    rw [hexec, List.length_cons] at hsingle
    obtain rfl : ms = [] := List.length_eq_zero_iff.mp (by omega)
    rw [List.flatMap_cons, List.flatMap_nil, List.append_nil, List.length_map]
    exact hb m.rest

theorem Single.runs {a : Pattern} (h : a.Single) (p : Char → Bool) : a.Runs p := by
  intro cs
  have hsingle := h cs
  cases hexec : a.exec cs with
  | nil => exact List.Pairwise.nil
  | cons m ms =>
    rw [hexec, List.length_cons] at hsingle
    obtain rfl : ms = [] := List.length_eq_zero_iff.mp (by omega)
    exact List.pairwise_singleton _ _

/-- Two alternatives that never match at one place. -/
theorem Runs.alt {p : Char → Bool} {a b : Pattern} (ha : a.Runs p) (hb : b.Runs p)
    (hone : ∀ cs, a.exec cs = [] ∨ b.exec cs = []) : (Pattern.alt a b).Runs p := by
  intro cs
  rw [exec]
  rcases hone cs with hnil | hnil
  · rw [hnil, List.nil_append]
    exact hb cs
  · rw [hnil, List.append_nil]
    exact ha cs

/-! ## What a pattern does not take -/

theorem stopsAt_of_nil {p : Char → Bool} {a : Pattern}
    (h : ∀ c cs, p c = true → a.exec (c :: cs) = []) : a.StopsAt p := by
  intro c cs hc m hm
  rw [h c cs hc] at hm
  exact absurd hm List.not_mem_nil

theorem exec_many1_nil {p q : Char → Bool} (hpq : ∀ c, p c = true → q c = false) {c : Char}
    {cs : List Char} (hc : p c = true) : (many1 q).exec (c :: cs) = [] := by
  simp [exec, hpq c hc]

theorem exec_one_nil {p q : Char → Bool} (hpq : ∀ c, p c = true → q c = false) {c : Char}
    {cs : List Char} (hc : p c = true) : (one q).exec (c :: cs) = [] := by
  simp [exec, hpq c hc]

theorem exec_seq_nil {a b : Pattern} {cs : List Char} (h : a.exec cs = []) :
    (seq a b).exec cs = [] := by
  rw [exec, h, List.flatMap_nil]

theorem exec_group_nil {n : Nat} {a : Pattern} {cs : List Char} (h : a.exec cs = []) :
    (group n a).exec cs = [] := by
  rw [exec, h, List.map_nil]

theorem exec_alt_nil {a b : Pattern} {cs : List Char} (ha : a.exec cs = []) (hb : b.exec cs = []) :
    (alt a b).exec cs = [] := by
  rw [exec, ha, hb, List.append_nil]

theorem StopsAt.opt {p : Char → Bool} {a : Pattern} (h : a.StopsAt p) :
    (Pattern.opt a).StopsAt p := by
  intro c cs hc m hm
  rcases List.mem_append.mp hm with hm | hm
  · exact h c cs hc m hm
  · rw [List.mem_singleton.mp hm]

/-! ## The first match -/

/-- The match that is tried first. -/
def First (a : Pattern) (cs : List Char) (m : Match) : Prop := (a.exec cs).head? = some m

theorem First.search_eq {a : Pattern} {cs : List Char} {m : Match} (h : a.First cs m) :
    a.search cs = some ([], m) :=
  search_of_head h

theorem head_takes {p : Char → Bool} {w rest : List Char} (hw : ∀ c ∈ w, p c = true)
    (hrest : ∀ c ∈ rest.head?, p c = false) : (takes p (w ++ rest)).head? = some (w, rest) := by
  induction w with
  | nil =>
    cases rest with
    | nil => rfl
    | cons c rest => simp [takes, hrest c rfl]
  | cons c w ih =>
    rw [List.forall_mem_cons] at hw
    rw [List.cons_append, takes, if_pos hw.1, List.head?_append, List.head?_map, ih hw.2]
    rfl

/-- A repetition takes the characters of its class up to the first other
one. -/
theorem first_many1 {p : Char → Bool} (w : Span p) (rest : List Char)
    (hrest : ∀ c ∈ rest.head?, p c = false) :
    (many1 p).First (w.chars ++ rest) ⟨w.chars, rest, []⟩ := by
  obtain ⟨chars, hne, hall⟩ := w
  obtain ⟨c, w, rfl⟩ := List.exists_cons_of_ne_nil hne
  rw [List.forall_mem_cons] at hall
  simp only [First, List.cons_append, exec, hall.1, if_true, List.head?_map,
    head_takes hall.2 hrest, Option.map_some]

theorem first_one {p : Char → Bool} {c : Char} (hc : p c = true) (cs : List Char) :
    (one p).First (c :: cs) ⟨[c], cs, []⟩ := by
  simp [First, exec, hc]

/-- No backtracking is needed when the second pattern matches behind the first
match of the first one. -/
theorem First.seq {a b : Pattern} {cs : List Char} {m m' : Match} (ha : a.First cs m)
    (hb : b.First m.rest m') : (Pattern.seq a b).First cs (m.append m') := by
  obtain ⟨ms, hms⟩ := List.head?_eq_some_iff.mp ha
  rw [First, exec, hms, List.flatMap_cons, List.head?_append, List.head?_map, hb]
  rfl

theorem First.group {a : Pattern} {cs : List Char} {m : Match} (h : a.First cs m) (n : Nat) :
    (Pattern.group n a).First cs (m.capture n) := by
  rw [First, exec, List.head?_map, h, Option.map_some]

theorem First.alt_left {a : Pattern} {cs : List Char} {m : Match} (h : a.First cs m)
    (b : Pattern) : (Pattern.alt a b).First cs m := by
  rw [First, exec, List.head?_append, h, Option.some_or]

theorem First.alt_right {a b : Pattern} {cs : List Char} {m : Match} (hnil : a.exec cs = [])
    (h : b.First cs m) : (Pattern.alt a b).First cs m := by
  rw [First, exec, hnil, List.nil_append, h]

theorem First.opt {a : Pattern} {cs : List Char} {m : Match} (h : a.First cs m) :
    (Pattern.opt a).First cs m := by
  rw [First, exec, List.head?_append, h, Option.some_or]

theorem first_opt_nil {a : Pattern} {cs : List Char} (hnil : a.exec cs = []) :
    (Pattern.opt a).First cs ⟨[], cs, []⟩ := by
  rw [First, exec, hnil, List.nil_append, List.head?_cons]

end Pattern

end Regex

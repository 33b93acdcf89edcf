import QueueRunner.Lib.Text
import Mathlib.Data.List.Basic

/-!
# Small letters

`str::to_ascii_lowercase` changes the capital letters and nothing else.  So a
character that is no letter is found in the same places before and after, and
a number is read from a text in small letters as from the text itself
(`parseNat_map_toLower`, `parseInt_map_toLower`).
-/

namespace Text

/-! ## Characters -/

theorem isAlpha_of_isUpper {c : Char} (h : c.isUpper = true) : c.isAlpha = true := by
  rw [isAlpha_eq, h, Bool.true_or]

theorem isUpper_iff (c : Char) : c.isUpper = true ↔ 65 ≤ c.val.toNat ∧ c.val.toNat ≤ 90 := by
  rw [isUpper_eq, decide_eq_true_iff]
  exact Iff.rfl

theorem isLower_iff (c : Char) : c.isLower = true ↔ 97 ≤ c.val.toNat ∧ c.val.toNat ≤ 122 := by
  rw [isLower_eq, Bool.and_eq_true, decide_eq_true_iff, decide_eq_true_iff]
  exact Iff.rfl

/-- A capital letter moves to the small one, 32 places on. -/
theorem toLower_val_of_isUpper {c : Char} (h : c.isUpper = true) :
    c.toLower.val.toNat = c.val.toNat + 32 := by
  have hrange := (isUpper_iff c).mp h
  delta Char.toLower
  rw [dif_pos (by simpa [UInt32.le_iff_toNat_le] using hrange)]
  have h32 : ('a'.val - 'A'.val).toNat = 32 := rfl
  rw [UInt32.toNat_add, h32, Nat.mod_eq_of_lt (by omega)]

theorem toLower_eq_self_iff (c : Char) : c.toLower = c ↔ c.isUpper = false := by
  constructor
  · intro h
    rw [Bool.eq_false_iff]
    intro hupper
    have hval := toLower_val_of_isUpper hupper
    rw [h] at hval
    omega
  · intro h
    rw [Bool.eq_false_iff, Ne, isUpper_iff] at h
    delta Char.toLower
    rw [dif_neg (by simpa [UInt32.le_iff_toNat_le] using h)]

theorem isAlpha_toLower (c : Char) : c.toLower.isAlpha = c.isAlpha := by
  cases hc : c.isUpper with
  | false => rw [(toLower_eq_self_iff c).mpr hc]
  | true =>
    have hval := toLower_val_of_isUpper hc
    have hrange := (isUpper_iff c).mp hc
    have hlower : c.toLower.isLower = true := (isLower_iff _).mpr (by omega)
    rw [isAlpha_of_isUpper hc, isAlpha_eq, hlower, Bool.or_true]

@[simp] theorem toLower_toLower (c : Char) : c.toLower.toLower = c.toLower := by
  rw [toLower_eq_self_iff, Bool.eq_false_iff]
  intro hupper
  cases hc : c.isUpper with
  | false =>
    rw [(toLower_eq_self_iff c).mpr hc, hc] at hupper
    exact Bool.false_ne_true hupper
  | true =>
    have hval := toLower_val_of_isUpper hc
    have hrange := (isUpper_iff c).mp hc
    have hrange' := (isUpper_iff c.toLower).mp hupper
    omega

theorem not_isLower_of_isUpper {c : Char} (h : c.isUpper = true) : ¬c.isLower = true := by
  rw [isLower_iff]
  have hrange := (isUpper_iff c).mp h
  omega

theorem isDigit_of_isAlpha {c : Char} (h : c.isAlpha = true) : c.isDigit = false := by
  rw [Bool.eq_false_iff]
  intro hdigit
  rw [isAlpha_eq, Bool.or_eq_true, isUpper_iff, isLower_iff] at h
  rw [Char.isDigit_iff_toNat] at hdigit
  have hval : c.toNat = c.val.toNat := rfl
  have h0 : '0'.toNat = 48 := rfl
  have h9 : '9'.toNat = 57 := rfl
  omega

/-- A character that is no letter is no other one in small letters. -/
theorem toLower_eq_iff {c d : Char} (hd : d.isAlpha = false) : c.toLower = d ↔ c = d := by
  have hself : ∀ c : Char, c.isAlpha = false → c.toLower = c := by
    intro c hc
    rw [isAlpha_eq, Bool.or_eq_false_iff] at hc
    exact (toLower_eq_self_iff c).mpr hc.1
  constructor
  · rintro rfl
    rw [isAlpha_toLower] at hd
    exact (hself c hd).symm
  · rintro rfl
    exact hself c hd

theorem isDigit_toLower (c : Char) : c.toLower.isDigit = c.isDigit := by
  cases hc : c.isUpper with
  | false => rw [(toLower_eq_self_iff c).mpr hc]
  | true =>
    have halpha := isAlpha_of_isUpper hc
    rw [isDigit_of_isAlpha halpha]
    exact isDigit_of_isAlpha (by rw [isAlpha_toLower, halpha])

/-! ## Numbers -/

/-- A letter is no digit, of whatever case it is. -/
theorem parseDigits_map_toLower (bound : Nat) (cs : List Char) (acc : Nat) :
    parseDigits bound acc (cs.map Char.toLower) = parseDigits bound acc cs := by
  induction cs generalizing acc with
  | nil => rfl
  | cons c cs ih =>
    rw [List.map_cons, parseDigits, parseDigits, isDigit_toLower]
    cases hdigit : c.isDigit with
    | false => rfl
    | true =>
      have hupper : c.isUpper = false := by
        rw [Bool.eq_false_iff]
        intro hupper
        rw [isDigit_of_isAlpha (isAlpha_of_isUpper hupper)] at hdigit
        cases hdigit
      rw [(toLower_eq_self_iff c).mpr hupper, ih]

/-- Only a sign that has digits behind it is read apart from them. -/
theorem parseNat_cons (bound : Nat) (c : Char) (cs : List Char) :
    parseNat bound (c :: cs) =
      if c = '+' ∧ cs ≠ [] then parseDigits bound 0 cs
      else parseDigits bound 0 (c :: cs) := by
  by_cases hplus : c = '+'
  · subst hplus
    cases cs with
    | nil => rfl
    | cons d cs => rfl
  · by_cases hminus : c = '-'
    · subst hminus
      cases cs with
      | nil => rfl
      | cons d cs => rfl
    · rw [if_neg (fun h => hplus h.1), parseNat]
      all_goals simp [hplus, hminus]

theorem parseInt_cons (bound : Nat) (c : Char) (cs : List Char) :
    parseInt bound (c :: cs) =
      if c = '-' ∧ cs ≠ [] then
        match parseDigits (bound + 1) 0 cs with
        | .ok n => .ok (-n)
        | .error .posOverflow => .error .negOverflow
        | .error e => .error e
      else if c = '+' ∧ cs ≠ [] then (parseDigits bound 0 cs).map Int.ofNat
      else (parseDigits bound 0 (c :: cs)).map Int.ofNat := by
  by_cases hplus : c = '+'
  · subst hplus
    cases cs with
    | nil => rfl
    | cons d cs => rfl
  · by_cases hminus : c = '-'
    · subst hminus
      cases cs with
      | nil => rfl
      | cons d cs => rfl
    · rw [if_neg (fun h => hminus h.1), if_neg (fun h => hplus h.1), parseInt]
      all_goals simp [hplus, hminus]

theorem parseNat_map_toLower (bound : Nat) (cs : List Char) :
    parseNat bound (cs.map Char.toLower) = parseNat bound cs := by
  cases cs with
  | nil => rfl
  | cons c cs =>
    have hall := parseDigits_map_toLower bound (c :: cs) 0
    have hplus : c.toLower = '+' ↔ c = '+' := toLower_eq_iff (by decide)
    rw [List.map_cons] at hall ⊢
    rw [parseNat_cons, parseNat_cons, hall, parseDigits_map_toLower]
    simp only [hplus, ne_eq, List.map_eq_nil_iff]

theorem parseInt_map_toLower (bound : Nat) (cs : List Char) :
    parseInt bound (cs.map Char.toLower) = parseInt bound cs := by
  cases cs with
  | nil => rfl
  | cons c cs =>
    have hall := parseDigits_map_toLower bound (c :: cs) 0
    have hplus : c.toLower = '+' ↔ c = '+' := toLower_eq_iff (by decide)
    have hminus : c.toLower = '-' ↔ c = '-' := toLower_eq_iff (by decide)
    rw [List.map_cons] at hall ⊢
    rw [parseInt_cons, parseInt_cons, hall, parseDigits_map_toLower, parseDigits_map_toLower]
    simp only [hplus, hminus, ne_eq, List.map_eq_nil_iff]

/-! ## Separators -/

/-- A cut at a separator loses the separators only. -/
theorem flatten_splitOn (sep : Char) (cs : List Char) :
    (cs.splitOn sep).flatten = cs.filter (fun c => c ≠ sep) := by
  rw [List.splitOn_eq_splitOnP]
  induction cs with
  | nil => rfl
  | cons c cs ih =>
    rw [List.splitOnP_cons_eq_if_modifyHead]
    by_cases hc : c = sep
    · simp [hc, ih]
    · cases hsplit : cs.splitOnP (fun d => d == sep) with
      | nil => exact absurd hsplit (List.splitOnP_ne_nil _ _)
      | cons l ls =>
        rw [hsplit] at ih
        simpa [hc] using ih

end Text

import QueueRunner.Lib.Text

/-!
# Paths, resolved by their text

A path is a text with slashes.  `components` are its parts, `push` is
`PathBuf::push`, and `resolve` is the place that a path names when `.` and
`..` are resolved by the text alone.  A place above the start of a relative
path counts the steps upwards; above the root there is nothing.

A relative path has a place of its own, with steps upwards and names.
`foldl_enter` says that going along the path from any place is the same as
going up those steps and down those names.
-/

namespace Paths

open Text

/-- The component that leads upwards. -/
def parent : List Char := ['.', '.']

/-- The parts between the slashes.  Empty parts and `.` name nothing. -/
def components (cs : List Char) : List (List Char) :=
  (cs.splitOn '/').filter (fun c => c ≠ [] ∧ c ≠ ['.'])

/-- `Path::is_absolute`. -/
def isAbsolute (cs : List Char) : Bool := cs.head? = some '/'

/-- `PathBuf::push`.  An absolute path replaces the buffer. -/
def push (buf p : List Char) : List Char :=
  if isAbsolute p then p
  else if buf = [] ∨ buf.getLast? = some '/' then buf ++ p
  else buf ++ '/' :: p

/-- `Path::file_name`. -/
def fileName (cs : List Char) : Option (List Char) :=
  (components cs).getLast?.filter (· ≠ parent)

/-- `Path::extension`: what follows the last dot of the file name, unless
the dot is its first character. -/
def extension (cs : List Char) : Option (List Char) :=
  (fileName cs).bind (fun name =>
    match splitOnce '.' name.reverse with
    | some (after, before) => if before = [] then none else some after.reverse
    | none => none)

@[simp] theorem components_nil : components [] = [] := rfl

/-- A slash ends a component. -/
theorem components_append_slash (a b : List Char) :
    components (a ++ '/' :: b) = components a ++ components b := by
  rw [components, List.splitOn_append_cons_self, List.filter_append]
  rfl

/-- A text without a slash is one component, unless it names nothing. -/
theorem components_of_no_slash {cs : List Char} (hslash : '/' ∉ cs) (hne : cs ≠ [])
    (hdot : cs ≠ ['.']) : components cs = [cs] := by
  rw [components, List.splitOn_eq_singleton hslash]
  simp [hne, hdot]

theorem length_le_of_mem_splitOn {sep : Char} {cs c : List Char} (hc : c ∈ cs.splitOn sep) :
    c.length ≤ cs.length := by
  induction cs generalizing c with
  | nil =>
    rw [List.splitOn_nil, List.mem_singleton] at hc
    rw [hc]
  | cons d cs ih =>
    rw [List.splitOn_cons_eq_if_modifyHead] at hc
    split_ifs at hc
    · rcases List.mem_cons.mp hc with rfl | hc
      · exact Nat.zero_le _
      · exact Nat.le_succ_of_le (ih hc)
    · cases hsplit : cs.splitOn sep with
      | nil => exact absurd hsplit (List.splitOn_ne_nil _ _)
      | cons first rest =>
        rw [hsplit, List.modifyHead_cons] at hc
        rw [hsplit] at ih
        rcases List.mem_cons.mp hc with rfl | hc
        · exact Nat.succ_le_succ (ih List.mem_cons_self)
        · exact Nat.le_succ_of_le (ih (List.mem_cons_of_mem _ hc))

/-- A component names something, and is no longer than the path. -/
theorem mem_components {cs c : List Char} (hc : c ∈ components cs) :
    c ≠ [] ∧ c ≠ ['.'] ∧ c.length ≤ cs.length := by
  rw [components, List.mem_filter, decide_eq_true_eq] at hc
  exact ⟨hc.2.1, hc.2.2, length_le_of_mem_splitOn hc.1⟩

/-! ## Places -/

/-- The place that a path names: absolute or relative, the steps upwards
that are left, and the names from there. -/
@[ext] structure Place where
  absolute : Bool
  ups : Nat
  names : List (List Char)
deriving DecidableEq, Repr

namespace Place

/-- The start of a relative path. -/
def here : Place := ⟨false, 0, []⟩

/-- One step upwards.  Nothing is above the root. -/
def up (p : Place) : Place :=
  if p.names = [] then (if p.absolute then p else { p with ups := p.ups + 1 })
  else { p with names := p.names.dropLast }

/-- One component further. -/
def enter (p : Place) (c : List Char) : Place :=
  if c = parent then p.up else { p with names := p.names ++ [c] }

/-- Some steps upwards. -/
def climb : Nat → Place → Place
  | 0, p => p
  | n + 1, p => (climb n p).up

/-- The relative place `q`, seen from `p`. -/
def follow (p q : Place) : Place :=
  { climb q.ups p with names := (climb q.ups p).names ++ q.names }

/-- The place is below the directory and is not the directory itself. -/
def Inside (dir p : Place) : Prop :=
  p.absolute = dir.absolute ∧ p.ups = dir.ups ∧ ∃ x xs, p.names = dir.names ++ x :: xs

theorem enter_parent (p : Place) : p.enter parent = p.up := by
  simp [enter]

theorem enter_of_ne (p : Place) {c : List Char} (hc : c ≠ parent) :
    p.enter c = { p with names := p.names ++ [c] } := by
  simp [enter, hc]

theorem up_append (p : Place) (ns : List (List Char)) (c : List Char) :
    ({ p with names := ns ++ [c] } : Place).up = { p with names := ns } := by
  simp [up]

/-- One more component at the end of a relative path. -/
theorem follow_enter (p q : Place) (hq : q.absolute = false) (c : List Char) :
    p.follow (q.enter c) = (p.follow q).enter c := by
  by_cases hc : c = parent
  · subst hc
    simp only [enter_parent]
    cases hnames : q.names.reverse with
    | nil =>
      -- the path has no name to leave, so it climbs once more
      have hnil : q.names = [] := List.reverse_eq_nil_iff.mp hnames
      simp [up, hnil, hq, follow, climb]
    | cons d rest =>
      have hsnoc : q.names = rest.reverse ++ [d] := by
        rw [← List.reverse_reverse q.names, hnames, List.reverse_cons]
      have hup : q.up = { q with names := rest.reverse } := by
        simp [up, hsnoc]
      rw [hup, follow, follow, hsnoc, ← List.append_assoc, up_append]
  · simp only [enter_of_ne _ hc, follow, List.append_assoc]

theorem absolute_enter (q : Place) (c : List Char) : (q.enter c).absolute = q.absolute := by
  unfold enter up
  split_ifs <;> rfl

theorem absolute_foldl (cs : List (List Char)) (q : Place) :
    (cs.foldl enter q).absolute = q.absolute := by
  induction cs generalizing q with
  | nil => rfl
  | cons c cs ih => rw [List.foldl_cons, ih, absolute_enter]

/-- Going along a relative path is the same from every place. -/
theorem foldl_enter (cs : List (List Char)) (p : Place) :
    cs.foldl enter p = p.follow (cs.foldl enter here) := by
  induction cs using List.reverseRecOn with
  | nil => simp [follow, here, climb]
  | append_singleton cs c ih =>
    simp only [List.foldl_append, List.foldl_cons, List.foldl_nil]
    rw [follow_enter p _ (absolute_foldl cs here), ih]

theorem mem_names_enter {q : Place} {c n : List Char} (hn : n ∈ (q.enter c).names) :
    n ∈ q.names ∨ n = c := by
  unfold enter up at hn
  split_ifs at hn
  · exact .inl hn
  · exact .inl hn
  · exact .inl (List.dropLast_subset _ hn)
  · rwa [List.mem_append, List.mem_singleton] at hn

theorem mem_names_foldl {cs : List (List Char)} {q : Place} {n : List Char}
    (hn : n ∈ (cs.foldl enter q).names) : n ∈ q.names ∨ n ∈ cs := by
  induction cs generalizing q with
  | nil => exact .inl hn
  | cons c cs ih =>
    rw [List.foldl_cons] at hn
    rcases ih hn with hn | hn
    · rcases mem_names_enter hn with hn | rfl
      · exact .inl hn
      · exact .inr List.mem_cons_self
    · exact .inr (List.mem_cons_of_mem _ hn)

/-- Steps upwards from below the root. -/
theorem climb_absolute (k : Nat) (names : List (List Char)) :
    climb k ⟨true, 0, names⟩ = ⟨true, 0, names.take (names.length - k)⟩ := by
  induction k with
  | zero => simp [climb]
  | succ k ih =>
    rw [climb, ih, up]
    by_cases hle : names.length ≤ k
    · have hk : names.length - k = 0 := by omega
      have hk' : names.length - (k + 1) = 0 := by omega
      simp [hk, hk']
    · have hne : names.take (names.length - k) ≠ [] := by
        rw [← List.length_pos_iff, List.length_take]
        omega
      rw [if_neg hne, List.dropLast_eq_take, List.take_take, List.length_take]
      congr 2
      omega

end Place

/-- The place that a path names, by its text. -/
def resolve (cs : List Char) : Place :=
  (components cs).foldl Place.enter ⟨isAbsolute cs, 0, []⟩

/-- The names of a place are components of the path. -/
theorem mem_names_resolve {cs n : List Char} (hn : n ∈ (resolve cs).names) : n ∈ components cs :=
  (Place.mem_names_foldl hn).resolve_left List.not_mem_nil

/-- A relative path is pushed behind the buffer. -/
theorem components_push {p : List Char} (hp : isAbsolute p = false) (buf : List Char) :
    components (push buf p) = components buf ++ components p := by
  simp only [push, hp, Bool.false_eq_true, if_false]
  split_ifs with hbuf
  · rcases hbuf with rfl | hlast
    · rfl
    · obtain ⟨front, rfl⟩ := List.getLast?_eq_some_iff.mp hlast
      rw [List.append_assoc, List.singleton_append, components_append_slash,
        components_append_slash]
      simp
  · exact components_append_slash buf p

theorem isAbsolute_push {p : List Char} (hp : isAbsolute p = false) (buf : List Char) :
    isAbsolute (push buf p) = isAbsolute buf := by
  cases buf with
  | nil =>
    rw [push, hp, if_neg Bool.false_ne_true, if_pos (Or.inl rfl), List.nil_append, hp]
    rfl
  | cons c buf =>
    simp only [push, hp, Bool.false_eq_true, if_false]
    split
    · rfl
    · rfl

theorem resolve_push {p : List Char} (hp : isAbsolute p = false) (buf : List Char) :
    resolve (push buf p) = (components p).foldl Place.enter (resolve buf) := by
  rw [resolve, components_push hp, isAbsolute_push hp, List.foldl_append]
  rfl

end Paths

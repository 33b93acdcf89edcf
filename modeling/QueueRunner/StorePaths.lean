import QueueRunner.Presigned
import QueueRunner.Lib.Paths

/-!
# Store paths and where they panic

`crates/nix-utils/src/store_path.rs` keeps the name of a store path as a
string.  `StorePath::new` takes any string: that it is long enough is only a
debug assertion.  `hash_part` and `name` cut the name at fixed byte offsets,
and a name that is too short or has a longer character there makes them
panic.

The other modules read the hash of a path as its first 32 characters.  Here
the cuts can fail, and `NixEnv` says whether the assertions are compiled in
and where the store is.
-/

namespace QueueRunner

/-- The panics of the modelled code. -/
inductive Panic where
  /-- A `debug_assert!` fails. -/
  | assertion
  /-- A string is cut past its end or inside a character. -/
  | strIndex
  /-- `slice::chunks` with the size zero. -/
  | chunkSize
  /-- `Vec::with_capacity` of more than `isize::MAX` bytes. -/
  | capacityOverflow
deriving DecidableEq, Repr

/-- The build of the program and the directory of the store. -/
structure NixEnv where
  debugAssertions : Bool
  /-- `get_store_dir`. -/
  storeDir : String

namespace NixEnv

/-- `STORE_DIR`: the store directory with a slash at its end. -/
def storeDirSlash (env : NixEnv) : String :=
  if env.storeDir.toList.getLast? = some '/' then env.storeDir else env.storeDir ++ "/"

theorem slash_mem_storeDirSlash (env : NixEnv) : '/' ∈ env.storeDirSlash.toList := by
  unfold storeDirSlash
  split_ifs with hlast
  · exact List.mem_of_getLast? hlast
  · simp

/-- The string whose length `StorePath::new` checks. -/
def postfixOf (env : NixEnv) (p : String) : String :=
  (stripPrefix env.storeDirSlash p).getD p

/-- `StorePath::new`, with its assertions. -/
def newStorePath (env : NixEnv) (p : String) : Except Panic StorePath :=
  if env.debugAssertions = true ∧ (env.postfixOf p).utf8ByteSize ≤ 33 then .error .assertion
  else .ok (StorePath.new env.storeDirSlash p)

theorem newStorePath_ok_iff {env : NixEnv} {p : String} {path : StorePath} :
    env.newStorePath p = .ok path ↔
      (env.debugAssertions = true → 33 < (env.postfixOf p).utf8ByteSize) ∧
        path = StorePath.new env.storeDirSlash p := by
  unfold newStorePath
  split_ifs with h
  · constructor
    · intro heq
      cases heq
    · rintro ⟨hlong, -⟩
      have := hlong h.1
      omega
  · constructor
    · intro heq
      refine ⟨fun hdebug => ?_, (Except.ok.inj heq).symm⟩
      rw [not_and] at h
      have := h hdebug
      omega
    · rintro ⟨-, rfl⟩
      rfl

end NixEnv

namespace StorePath

/-- `StorePath::hash_part`, which cuts the name behind byte 32. -/
def hashPartChecked (p : StorePath) : Except Panic String :=
  match Text.splitAt 32 p.baseName.toList with
  | some (hash, _) => .ok (String.ofList hash)
  | none => .error .strIndex

/-- `StorePath::is_drv`. -/
def isDrv (p : StorePath) : Bool :=
  (Paths.extension p.baseName.toList).any (fun ext => ext.map Char.toLower = "drv".toList)

/-- A character of Nix's base 32. -/
def isHashChar (c : Char) : Bool :=
  (c.isDigit || c.isLower) && !(c == 'e' || c == 'o' || c == 't' || c == 'u')

/-- A character of the name in a store path. -/
def isNameChar (c : Char) : Bool :=
  c.isAlphanum || c == '+' || c == '-' || c == '.' || c == '_' || c == '?' || c == '='

/-- A store path as Nix makes it: a hash of 32 characters, a dash and a
name. -/
def WellFormed (p : StorePath) : Prop :=
  ∃ hash name, p.baseName.toList = hash ++ '-' :: name ∧ hash.length = 32 ∧
    (∀ c ∈ hash, isHashChar c = true) ∧ name ≠ [] ∧ ∀ c ∈ name, isNameChar c = true

theorem isNameChar_of_isHashChar {c : Char} (h : isHashChar c = true) : isNameChar c = true := by
  simp only [isHashChar, Bool.and_eq_true, Bool.or_eq_true] at h
  simp only [isNameChar, Text.isAlphanum_eq, Bool.or_eq_true]
  grind

theorem isNameChar_lt {c : Char} (h : isNameChar c = true) : c.toNat < 128 := by
  simp only [isNameChar, Bool.or_eq_true, beq_iff_eq, Text.isAlphanum_iff_toNat] at h
  rcases h with (((((h | rfl) | rfl) | rfl) | rfl) | rfl) | rfl
  · omega
  all_goals decide

/-- The characters of a store path are bytes. -/
theorem utf8Size_of_isNameChar {c : Char} (h : isNameChar c = true) : c.utf8Size = 1 := by
  have hlt := isNameChar_lt h
  have hnat : c.toNat = c.val.toNat := rfl
  have hmax : (127 : UInt32).toNat = 127 := rfl
  rw [Char.utf8Size_eq_one_iff, UInt32.le_iff_toNat_le]
  omega

theorem WellFormed.isNameChar {p : StorePath} (hp : p.WellFormed) :
    ∀ c ∈ p.baseName.toList, StorePath.isNameChar c = true := by
  obtain ⟨hash, name, heq, -, hhash, -, hname⟩ := hp
  intro c hc
  rw [heq, List.mem_append, List.mem_cons] at hc
  rcases hc with hc | rfl | hc
  · exact isNameChar_of_isHashChar (hhash c hc)
  · decide
  · exact hname c hc

theorem WellFormed.isComponent {p : StorePath} (hp : p.WellFormed) : p.IsComponent := by
  intro hslash
  exact absurd (hp.isNameChar _ hslash) (by decide)

theorem WellFormed.length {p : StorePath} (hp : p.WellFormed) : 34 ≤ p.baseName.toList.length := by
  obtain ⟨hash, name, heq, hlen, -, hne, -⟩ := hp
  have := List.length_pos_iff.mpr hne
  rw [heq, List.length_append, List.length_cons]
  omega

/-- The hash part of a path that Nix has made can be cut. -/
theorem WellFormed.hashPartChecked {p : StorePath} (hp : p.WellFormed) :
    p.hashPartChecked = .ok p.hashPart := by
  obtain ⟨hash, name, heq, hlen, hhash, -, -⟩ := hp
  have hsize : Text.size hash = 32 := by
    rw [← hlen]
    exact Text.size_eq_length (fun c hc =>
      utf8Size_of_isNameChar (isNameChar_of_isHashChar (hhash c hc)))
  have hsplit : Text.splitAt 32 p.baseName.toList = some (hash, '-' :: name) :=
    Text.splitAt_eq_some_iff.mpr ⟨heq, hsize⟩
  have htake : p.baseName.toList.take 32 = hash := by rw [heq, List.take_left' hlen]
  simp only [StorePath.hashPartChecked, hsplit, StorePath.hashPart, htake]

end StorePath

theorem StorePath.eq_of_toList {p q : StorePath} (h : p.baseName.toList = q.baseName.toList) :
    p = q := by
  cases p
  cases q
  exact congrArg StorePath.mk (String.toList_inj.mp h)

/-- A store path comes back from its name, and the assertion holds when the
name is long enough. -/
theorem NixEnv.newStorePath_baseName (env : NixEnv) {p : StorePath} (hp : p.IsComponent)
    (hlen : 34 ≤ p.baseName.toList.length) : env.newStorePath p.baseName = .ok p := by
  have hnone := stripPrefix_of_isComponent hp env.slash_mem_storeDirSlash
  rw [newStorePath_ok_iff]
  refine ⟨fun _ => ?_, ?_⟩
  · have hsize := Text.length_le_size p.baseName.toList
    rw [postfixOf, hnone, Option.getD_none, ← Text.size_toList]
    omega
  · have hslash := stripPrefix_of_isComponent hp (show '/' ∈ "/".toList by decide)
    simp only [StorePath.new, hnone, hslash, Option.getD_none]

end QueueRunner

import QueueRunner.StorePaths

/-!
# The text of a narinfo

`crates/binary-cache/src/narinfo.rs` writes a narinfo as lines of the form
`Key: value` and reads them back with a parser of its own.  The other modules
take the URL of a narinfo as the name of an object.  Here it is the string
that it is, and the sizes are numbers of 64 bits.

`render` writes the list of `fields`.  The parser goes over the lines and
sets one field for each, so reading a rendered narinfo is a fold of
`setField` over its fields (`parseLines_render`).  `fromStr_render` says that
this gives back the narinfo.

The signatures are made for the fingerprint, which is one string of the
store path, the hash, the size and the references.  `fingerprint_identifies`
says that the string determines them.
-/

namespace QueueRunner

/-- `NarInfo`, with the URL as a string. -/
structure NarInfoText where
  storePath : StorePath
  url : String
  compression : Compression
  fileHash : Option String
  fileSize : Option UInt64
  narHash : String
  narSize : UInt64
  references : List StorePath
  deriver : Option StorePath
  ca : Option String
  sigs : List String
deriving DecidableEq, Repr

/-- A `LocalStore` prints its paths behind its prefix. -/
def printStorePath (pathPrefix : String) (p : StorePath) : String :=
  pathPrefix ++ "/" ++ p.baseName

/-! ## Writing -/

/-- The keys of the lines. -/
inductive NarInfoKey where
  | storePath
  | url
  | compression
  | fileHash
  | fileSize
  | narHash
  | narSize
  | references
  | deriver
  | ca
  | sig
deriving DecidableEq, Repr

namespace NarInfoKey

def text : NarInfoKey → String
  | storePath => "StorePath"
  | url => "URL"
  | compression => "Compression"
  | fileHash => "FileHash"
  | fileSize => "FileSize"
  | narHash => "NarHash"
  | narSize => "NarSize"
  | references => "References"
  | deriver => "Deriver"
  | ca => "CA"
  | sig => "Sig"

def all : List NarInfoKey :=
  [storePath, url, compression, fileHash, fileSize, narHash, narSize, references, deriver, ca, sig]

/-- The key that the parser matches; other keys are skipped. -/
def ofText (s : String) : Option NarInfoKey := all.find? (fun k => k.text = s)

theorem ofText_text (k : NarInfoKey) : ofText k.text = some k := by
  cases k <;> decide

end NarInfoKey

namespace NarInfoText

/-- The lines of `NarInfo::render` in their order. -/
def fields (pathPrefix : String) (n : NarInfoText) : List (NarInfoKey × String) :=
  [(.storePath, printStorePath pathPrefix n.storePath), (.url, n.url),
    (.compression, n.compression.asStr)] ++
  n.fileHash.toList.map (fun h => (NarInfoKey.fileHash, h)) ++
  n.fileSize.toList.map (fun s => (NarInfoKey.fileSize, s.toNat.repr)) ++
  [(.narHash, n.narHash), (.narSize, n.narSize.toNat.repr),
    (.references, String.intercalate " " (n.references.map StorePath.baseName))] ++
  n.deriver.toList.map (fun d => (NarInfoKey.deriver, d.baseName)) ++
  n.ca.toList.map (fun ca => (NarInfoKey.ca, ca)) ++
  n.sigs.map (fun sig => (NarInfoKey.sig, sig))

/-- One `writeln!`. -/
def line (field : NarInfoKey × String) : String :=
  field.1.text ++ ": " ++ field.2 ++ "\n"

/-- `NarInfo::render`. -/
def render (pathPrefix : String) (n : NarInfoText) : String :=
  String.join ((n.fields pathPrefix).map line)

end NarInfoText

/-! ## Reading -/

/-- `str::to_ascii_lowercase`. -/
def toAsciiLowercase (s : String) : String := String.ofList (s.toList.map Char.toLower)

/-- `FromStr for Compression`. -/
def Compression.fromStr (s : String) : Except String Compression :=
  match toAsciiLowercase (trim s) with
  | "none" => .ok .none
  | "xz" => .ok .xz
  | "bz2" => .ok .bzip2
  | "br" => .ok .brotli
  | "zstd" => .ok .zstd
  | "zst" => .ok .zstd
  | o => .error o

theorem Compression.fromStr_asStr (c : Compression) : Compression.fromStr c.asStr = .ok c := by
  cases c <;> decide

/-- `NarInfoError`. -/
inductive NarInfoError where
  | missingField (name : String)
  | invalidField (field value : String)
  | line (line : Nat) (reason : String)
  | int (field : String) (err : Text.IntErrorKind)
deriving DecidableEq, Repr

/-- How `NarInfo::from_str` fails. -/
inductive NarInfoFailure where
  | error (e : NarInfoError)
  | panic (p : Panic)
deriving DecidableEq, Repr

/-- The variables of `NarInfo::from_str`: the narinfo so far, and which of
the required fields were there. -/
structure NarInfoParser where
  out : NarInfoText
  haveStorePath : Bool := false
  haveUrl : Bool := false
  haveCompression : Bool := false
  haveNarHash : Bool := false
  haveNarSize : Bool := false

namespace NarInfoParser

/-- The parser before the first line. -/
def start : NarInfoParser where
  out :=
    { storePath := ⟨"aaaaaaaaaaaaaaaaaaaaaaaaaaaaaaaa-bla"⟩
      url := ""
      compression := .none
      fileHash := none
      fileSize := none
      narHash := ""
      narSize := 0
      references := []
      deriver := none
      ca := none
      sigs := [] }

section

variable (env : NixEnv)

/-- `StorePath::new` in the parser. -/
def readStorePath (s : String) : Except NarInfoFailure StorePath :=
  (env.newStorePath s).mapError .panic

/-- `parse::<u64>` of the value of a key. -/
def readSize (key : NarInfoKey) (val : String) : Except NarInfoFailure UInt64 :=
  match Text.parseNat (2 ^ 64) val.toList with
  | .ok n => .ok (UInt64.ofNat n)
  | .error e => .error (.error (.int key.text e))

/-- The value of one key. -/
def setField (st : NarInfoParser) (key : NarInfoKey) (val : String) :
    Except NarInfoFailure NarInfoParser :=
  match key with
  | .storePath => do
    let p ← readStorePath env val
    return { st with out := { st.out with storePath := p }, haveStorePath := true }
  | .url => .ok { st with out := { st.out with url := val }, haveUrl := true }
  | .compression =>
    match Compression.fromStr val with
    | .ok c => .ok { st with out := { st.out with compression := c }, haveCompression := true }
    | .error e => .error (.error (.invalidField "Compression" e))
  | .fileHash => .ok { st with out := { st.out with fileHash := some val } }
  | .fileSize => do
    let s ← readSize .fileSize val
    return { st with out := { st.out with fileSize := some s } }
  | .narHash => .ok { st with out := { st.out with narHash := val }, haveNarHash := true }
  | .narSize => do
    let s ← readSize .narSize val
    return { st with out := { st.out with narSize := s }, haveNarSize := true }
  | .references => do
    let refs ← (Text.words isWhitespace val.toList).mapM
      (fun w => readStorePath env (String.ofList w))
    return { st with out := { st.out with references := refs } }
  | .deriver =>
    if val = "" then .ok { st with out := { st.out with deriver := none } }
    else do
      let d ← readStorePath env val
      return { st with out := { st.out with deriver := some d } }
  | .ca =>
    .ok { st with out := { st.out with ca := if val = "" then none else some val } }
  | .sig =>
    if val = "" then .ok st
    else .ok { st with out := { st.out with sigs := st.out.sigs ++ [val] } }

/-- One turn of the loop over the lines. -/
def parseLine (st : NarInfoParser) (lineNo : Nat) (rawLine : List Char) :
    Except NarInfoFailure NarInfoParser :=
  let line := (trim (String.ofList rawLine)).toList
  if line = [] ∨ line.head? = some '#' then .ok st
  else
    match Text.splitOnce ':' line with
    | none => .error (.error (.line lineNo "expected `Key: value`"))
    | some (k, v) =>
      let key := trim (String.ofList k)
      let val := String.ofList
        (((stripPrefix " " (String.ofList v)).getD (String.ofList v)).toList.rdropWhile
          isWhitespace)
      match NarInfoKey.ofText key with
      | none => .ok st
      | some key => setField env st key val

/-- The loop over the lines, from the number `lineNo` on. -/
def parseLines (st : NarInfoParser) (lineNo : Nat) :
    List (List Char) → Except NarInfoFailure NarInfoParser
  | [] => .ok st
  | l :: ls => do
    let st ← parseLine env st lineNo l
    parseLines st (lineNo + 1) ls

/-- The checks after the loop. -/
def finish (st : NarInfoParser) : Except NarInfoFailure NarInfoText :=
  if st.haveStorePath = false then .error (.error (.missingField "StorePath"))
  else if st.haveUrl = false then .error (.error (.missingField "URL"))
  else if st.haveCompression = false then .error (.error (.missingField "Compression"))
  else if st.haveNarHash = false then .error (.error (.missingField "NarHash"))
  else if st.haveNarSize = false then .error (.error (.missingField "NarSize"))
  else .ok st.out

end

end NarInfoParser

/-- `FromStr for NarInfo`. -/
def NarInfoText.fromStr (env : NixEnv) (input : String) : Except NarInfoFailure NarInfoText := do
  let st ← NarInfoParser.parseLines env .start 1 (Text.lines input.toList)
  st.finish

/-! ## Reading what was written -/

/-- A value that stays in its line: it has no line break and no blank at its
end. -/
structure IsLineValue (s : String) : Prop where
  unbroken : '\n' ∉ s.toList
  trimmed : ∀ c ∈ s.toList.getLast?, isWhitespace c = false

theorem NarInfoKey.text_chars (k : NarInfoKey) :
    k.text.toList ≠ [] ∧
      ∀ c ∈ k.text.toList, isWhitespace c = false ∧ c ≠ ':' ∧ c ≠ '#' ∧ c ≠ '\n' := by
  have hall : k.text.toList.all
      (fun c => !isWhitespace c && c != ':' && c != '#' && c != '\n') = true := by
    cases k <;> decide
  refine ⟨by cases k <;> decide, fun c hc => ?_⟩
  simpa [and_assoc] using List.all_eq_true.mp hall c hc

theorem rdropWhile_of_getLast {p : Char → Bool} {cs : List Char}
    (h : ∀ c ∈ cs.getLast?, p c = false) : cs.rdropWhile p = cs := by
  rw [List.rdropWhile_eq_self_iff]
  intro hne
  rw [h _ (List.getLast_mem_getLast? hne)]
  exact Bool.false_ne_true

theorem dropWhile_of_head {p : Char → Bool} {cs : List Char}
    (h : ∀ c ∈ cs.head?, p c = false) : cs.dropWhile p = cs := by
  cases cs with
  | nil => rfl
  | cons c cs => rw [List.dropWhile_cons_of_neg (by rw [h c rfl]; exact Bool.false_ne_true)]

/-- `trim` leaves a text alone whose ends are not blank. -/
theorem toList_trim (s : String) (h : ∀ c ∈ s.toList.head?, isWhitespace c = false) :
    (trim s).toList = s.toList.rdropWhile isWhitespace := by
  rw [trim, String.toList_ofList, dropWhile_of_head h]
  rfl

/-- What is left of a line behind its colon. -/
def lineTail (v : List Char) : List Char := if v = [] then [] else ' ' :: v

theorem rdropWhile_line (k : List Char) {v : List Char}
    (hv : ∀ c ∈ v.getLast?, isWhitespace c = false) :
    (k ++ ':' :: ' ' :: v).rdropWhile isWhitespace = k ++ ':' :: lineTail v := by
  unfold lineTail
  split_ifs with hnil
  · subst hnil
    have hsnoc : k ++ [':', ' '] = (k ++ [':']) ++ [' '] := by simp
    rw [hsnoc, List.rdropWhile_concat_pos _ _ _ (by decide),
      List.rdropWhile_concat_neg _ _ _ (by decide)]
  · apply rdropWhile_of_getLast
    intro c hc
    apply hv
    have hcons : k ++ ':' :: ' ' :: v = (k ++ [':', ' ']) ++ v := by simp
    rw [hcons, List.getLast?_append_of_ne_nil _ hnil] at hc
    exact hc

/-- The value comes back from the line behind its colon. -/
theorem value_lineTail {val : String} (hval : IsLineValue val) :
    String.ofList (((stripPrefix " " (String.ofList (lineTail val.toList))).getD
      (String.ofList (lineTail val.toList))).toList.rdropWhile isWhitespace) = val := by
  have hstrip : (stripPrefix " " (String.ofList (lineTail val.toList))).getD
      (String.ofList (lineTail val.toList)) = val := by
    unfold lineTail
    split_ifs with hnil
    · rw [String.toList_eq_nil_iff.mp hnil]
      rfl
    · have hsome : stripPrefix " " (String.ofList (' ' :: val.toList)) = some val := by
        rw [stripPrefix_eq_some_iff, ← String.toList_inj]
        simp
      rw [hsome, Option.getD_some]
  rw [hstrip, rdropWhile_of_getLast hval.trimmed, String.ofList_toList]

/-- A line sets its field. -/
theorem NarInfoParser.parseLine_line (env : NixEnv) (st : NarInfoParser) (lineNo : Nat)
    (k : NarInfoKey) {val : String} (hval : IsLineValue val) :
    parseLine env st lineNo (k.text.toList ++ ':' :: ' ' :: val.toList) =
      setField env st k val := by
  obtain ⟨hne, hchars⟩ := k.text_chars
  obtain ⟨c, cs, hcons⟩ := List.exists_cons_of_ne_nil hne
  have hc := hchars c (by rw [hcons]; exact List.mem_cons_self)
  have htrim : (trim (String.ofList (k.text.toList ++ ':' :: ' ' :: val.toList))).toList =
      k.text.toList ++ ':' :: lineTail val.toList := by
    rw [toList_trim, String.toList_ofList, rdropWhile_line _ hval.trimmed]
    intro d hd
    rw [String.toList_ofList, hcons] at hd
    obtain rfl : c = d := by simpa using hd
    exact hc.1
  have hkey : trim (String.ofList k.text.toList) = k.text := by
    rw [String.ofList_toList, ← String.toList_inj, toList_trim]
    · exact rdropWhile_of_getLast (fun d hd => (hchars d (List.mem_of_getLast? hd)).1)
    · exact fun d hd => (hchars d (List.mem_of_head? hd)).1
  have hsplit : Text.splitOnce ':' (k.text.toList ++ ':' :: lineTail val.toList) =
      some (k.text.toList, lineTail val.toList) :=
    Text.splitOnce_append (fun hmem => (hchars _ hmem).2.1 rfl) _
  have hhead : ¬ (k.text.toList ++ ':' :: lineTail val.toList = [] ∨
      (k.text.toList ++ ':' :: lineTail val.toList).head? = some '#') := by
    rw [hcons]
    simp [hc.2.2.1]
  simp only [parseLine, htrim, if_neg hhead, hsplit, hkey, NarInfoKey.ofText_text,
    value_lineTail hval]

/-- The lines of the fields are read as the fields. -/
theorem NarInfoParser.parseLines_render (env : NixEnv) (fields : List (NarInfoKey × String))
    (hfields : ∀ f ∈ fields, IsLineValue f.2) (st : NarInfoParser) (lineNo : Nat) :
    parseLines env st lineNo (Text.lines (String.join (fields.map NarInfoText.line)).toList) =
      fields.foldlM (fun st f => setField env st f.1 f.2) st := by
  induction fields generalizing st lineNo with
  | nil => rfl
  | cons f fields ih =>
    have hval := hfields f List.mem_cons_self
    have hline : (String.join ((f :: fields).map NarInfoText.line)).toList =
        (f.1.text.toList ++ ':' :: ' ' :: f.2.toList) ++
          '\n' :: (String.join (fields.map NarInfoText.line)).toList := by
      simp [NarInfoText.line, String.toList_join]
    have hbreak : '\n' ∉ f.1.text.toList ++ ':' :: ' ' :: f.2.toList := by
      simp only [List.mem_append, List.mem_cons, not_or]
      exact ⟨fun hmem => (f.1.text_chars.2 _ hmem).2.2.2 rfl, by decide, by decide, hval.unbroken⟩
    have hcr : Text.stripCr (f.1.text.toList ++ ':' :: ' ' :: f.2.toList) =
        f.1.text.toList ++ ':' :: ' ' :: f.2.toList := by
      refine if_neg (fun hlast => ?_)
      have hcons : f.1.text.toList ++ ':' :: ' ' :: f.2.toList =
          (f.1.text.toList ++ [':', ' ']) ++ f.2.toList := by simp
      by_cases hnil : f.2.toList = []
      · simp [hnil] at hlast
      · rw [hcons, List.getLast?_append_of_ne_nil _ hnil] at hlast
        exact absurd (hval.trimmed _ hlast) (by decide)
    rw [hline, Text.lines_append hbreak, hcr, parseLines, parseLine_line env st lineNo f.1 hval,
      List.foldlM_cons]
    exact bind_congr (fun st => ih (fun g hg => hfields g (List.mem_cons_of_mem _ hg)) st _)

/-! ## The narinfos of the other modules -/

/-- The narinfo of `copy_path`, with the name of its object as the URL. -/
def NarInfo.toText (n : NarInfo) : NarInfoText where
  storePath := n.storePath
  url := NarInfo.urlText n.url
  compression := n.compression
  fileHash := n.fileHash
  fileSize := n.fileSize.map UInt64.ofNat
  narHash := n.narHash
  narSize := UInt64.ofNat n.narSize
  references := n.references
  deriver := n.deriver
  ca := n.ca
  sigs := n.sigs

/-- `copy_path` uploads the text that is read back here. -/
theorem NarInfo.render_eq (codecs : Codecs) {pathPrefix : String}
    (hprint : codecs.printStorePath = printStorePath pathPrefix) {n : NarInfo}
    (hnar : n.narSize < 2 ^ 64) (hfile : ∀ s ∈ n.fileSize, s < 2 ^ 64) :
    n.render codecs = (n.toText.render pathPrefix).toUTF8.toList := by
  have hnarSize : (UInt64.ofNat n.narSize).toNat = n.narSize := UInt64.toNat_ofNat_of_lt' hnar
  have hfileSize : (n.fileSize.map UInt64.ofNat).toList.map
      (fun s => (NarInfoKey.fileSize, s.toNat.repr)) =
      n.fileSize.toList.map (fun s => (NarInfoKey.fileSize, s.repr)) := by
    cases hs : n.fileSize with
    | none => rfl
    | some s =>
      have hlt : (UInt64.ofNat s).toNat = s := UInt64.toNat_ofNat_of_lt' (hfile s hs)
      simp [hlt]
  unfold NarInfo.render
  refine congrArg (fun t : String => t.toUTF8.toList) ?_
  rw [← String.toList_inj]
  have hoptional : ∀ {α : Type} (o : Option α) (f : α → String),
      ((o.map f).getD "").toList = o.toList.flatMap (fun a => (f a).toList) := by
    intro α o f
    cases o <;> simp
  simp only [NarInfoText.render, NarInfoText.fields, NarInfo.toText, hprint, hnarSize, hfileSize]
  simp [hoptional, NarInfoText.line, NarInfoKey.text, String.toList_join, List.flatMap_map,
    Function.comp_def]

/-! ## The round trip -/

/-- The name of a store path as the narinfo needs it. -/
structure StorePath.IsBaseName (p : StorePath) : Prop where
  long : 34 ≤ p.baseName.toList.length
  chars : ∀ c ∈ p.baseName.toList, isWhitespace c = false ∧ c ≠ '/'

/-- The narinfos that are read back. -/
structure NarInfoText.WellFormed (n : NarInfoText) : Prop where
  storePath : n.storePath.IsBaseName
  url : IsLineValue n.url
  fileHash : ∀ h ∈ n.fileHash, IsLineValue h
  narHash : IsLineValue n.narHash
  references : ∀ r ∈ n.references, r.IsBaseName
  deriver : ∀ d ∈ n.deriver, d.IsBaseName
  ca : ∀ ca ∈ n.ca, IsLineValue ca ∧ ca ≠ ""
  sigs : ∀ sig ∈ n.sigs, IsLineValue sig ∧ sig ≠ ""

theorem StorePath.IsBaseName.isComponent {p : StorePath} (hp : p.IsBaseName) : p.IsComponent :=
  fun hmem => (hp.chars _ hmem).2 rfl

theorem StorePath.IsBaseName.ne_nil {p : StorePath} (hp : p.IsBaseName) :
    p.baseName.toList ≠ [] := by
  have := hp.long
  rw [← List.length_pos_iff]
  omega

theorem isLineValue_of_chars {s : String} (h : ∀ c ∈ s.toList, isWhitespace c = false) :
    IsLineValue s where
  unbroken hmem := absurd (h _ hmem) (by decide)
  trimmed c hc := h c (List.mem_of_getLast? hc)

theorem isLineValue_of_all {s : String} (h : s.toList.all (fun c => !isWhitespace c) = true) :
    IsLineValue s :=
  isLineValue_of_chars (fun c hc => by simpa using List.all_eq_true.mp h c hc)

theorem isLineValue_append {s t : String} (hs : '\n' ∉ s.toList) (ht : IsLineValue t)
    (hne : t.toList ≠ []) : IsLineValue (s ++ t) where
  unbroken := by
    rw [String.toList_append, List.mem_append, not_or]
    exact ⟨hs, ht.unbroken⟩
  trimmed c hc := by
    rw [String.toList_append, List.getLast?_append_of_ne_nil _ hne] at hc
    exact ht.trimmed c hc

theorem isLineValue_baseName {p : StorePath} (hp : p.IsBaseName) : IsLineValue p.baseName :=
  isLineValue_of_chars (fun c hc => (hp.chars c hc).1)

theorem isWhitespace_of_isAlphanum {c : Char} (h : c.isAlphanum = true) :
    isWhitespace c = false := by
  rw [Text.isAlphanum_iff_toNat] at h
  simp only [isWhitespace, decide_eq_false_iff_not]
  omega

theorem isWhitespace_of_isDigit {c : Char} (h : c.isDigit = true) : isWhitespace c = false := by
  apply isWhitespace_of_isAlphanum
  rw [Char.isAlphanum, h, Bool.or_true]

theorem isLineValue_repr (n : Nat) : IsLineValue n.repr := by
  apply isLineValue_of_chars
  intro c hc
  rw [Nat.toList_repr] at hc
  exact isWhitespace_of_isDigit (Nat.isDigit_of_mem_toDigits (by omega) (by omega) hc)

theorem isLineValue_asStr (c : Compression) : IsLineValue c.asStr := by
  apply isLineValue_of_all
  cases c <;> decide

/-- The names of the references, with a blank between them. -/
theorem isLineValue_references {refs : List StorePath} (hrefs : ∀ r ∈ refs, r.IsBaseName) :
    IsLineValue (String.intercalate " " (refs.map StorePath.baseName)) := by
  induction refs with
  | nil => exact ⟨by simp, by simp⟩
  | cons r refs ih =>
    have hr := hrefs r List.mem_cons_self
    cases refs with
    | nil =>
      rw [List.map_singleton, String.intercalate_singleton]
      exact isLineValue_baseName hr
    | cons r' refs =>
      have hr' := hrefs r' (List.mem_cons_of_mem _ List.mem_cons_self)
      simp only [List.map_cons, String.intercalate_cons_cons]
      refine isLineValue_append ?_ (ih (fun q hq => hrefs q (List.mem_cons_of_mem _ hq))) ?_
      · rw [String.toList_append, List.mem_append, not_or]
        exact ⟨(isLineValue_baseName hr).unbroken, by decide⟩
      · intro hnil
        cases refs with
        | nil =>
          rw [List.map_nil, String.intercalate_singleton] at hnil
          exact hr'.ne_nil hnil
        | cons r'' refs =>
          rw [List.map_cons, String.intercalate_cons_cons, String.append_assoc,
            String.toList_append, List.append_eq_nil_iff] at hnil
          exact hr'.ne_nil hnil.1

theorem isLineValue_printStorePath {dir : String} (hdir : '\n' ∉ dir.toList) {p : StorePath}
    (hp : p.IsBaseName) : IsLineValue (printStorePath dir p) := by
  refine isLineValue_append ?_ (isLineValue_baseName hp) hp.ne_nil
  rw [String.toList_append, List.mem_append, not_or]
  exact ⟨hdir, by decide⟩

/-- Every field of a narinfo stays in its line. -/
theorem NarInfoText.WellFormed.isLineValue {n : NarInfoText} (hn : n.WellFormed) {dir : String}
    (hdir : '\n' ∉ dir.toList) : ∀ f ∈ n.fields dir, IsLineValue f.2 := by
  intro f hf
  simp only [fields, List.mem_append, List.mem_cons, List.not_mem_nil, or_false, List.mem_map,
    Option.mem_toList] at hf
  rcases hf with ((((((rfl | rfl | rfl) | ⟨h, hh, rfl⟩) | ⟨s, -, rfl⟩) | (rfl | rfl | rfl)) |
    ⟨d, hd, rfl⟩) | ⟨ca, hca, rfl⟩) | ⟨sig, hsig, rfl⟩
  · exact isLineValue_printStorePath hdir hn.storePath
  · exact hn.url
  · exact isLineValue_asStr _
  · exact hn.fileHash h hh
  · exact isLineValue_repr _
  · exact hn.narHash
  · exact isLineValue_repr _
  · exact isLineValue_references hn.references
  · exact isLineValue_baseName (hn.deriver d hd)
  · exact (hn.ca ca hca).1
  · exact (hn.sigs sig hsig).1

/-- The path that the store prints is read back. -/
theorem NixEnv.newStorePath_print (env : NixEnv) {p : StorePath} (hp : p.IsBaseName) :
    env.newStorePath (printStorePath env.storeDir p) = .ok p := by
  have hsize : 34 ≤ p.baseName.utf8ByteSize := by
    rw [← Text.size_toList]
    exact le_trans hp.long (Text.length_le_size _)
  have hnone := stripPrefix_of_isComponent hp.isComponent (show '/' ∈ "/".toList by decide)
  by_cases hlast : env.storeDir.toList.getLast? = some '/'
  · -- the directory ends with a slash, so there are two before the name
    have hslash : env.storeDirSlash = env.storeDir := if_pos hlast
    have hstrip : stripPrefix env.storeDirSlash (printStorePath env.storeDir p) =
        some ("/" ++ p.baseName) := by
      rw [stripPrefix_eq_some_iff, hslash, printStorePath, String.append_assoc]
    have hstrip' : stripPrefix "/" ("/" ++ p.baseName) = some p.baseName :=
      stripPrefix_eq_some_iff.mpr rfl
    rw [newStorePath_ok_iff]
    refine ⟨fun _ => ?_, ?_⟩
    · rw [postfixOf, hstrip, Option.getD_some, String.utf8ByteSize_append]
      omega
    · simp only [StorePath.new, hstrip, hstrip', Option.getD_some]
  · have hslash : env.storeDirSlash = env.storeDir ++ "/" := if_neg hlast
    have hstrip : stripPrefix env.storeDirSlash (printStorePath env.storeDir p) =
        some p.baseName := by
      rw [stripPrefix_eq_some_iff, hslash, printStorePath]
    rw [newStorePath_ok_iff]
    refine ⟨fun _ => ?_, ?_⟩
    · rw [postfixOf, hstrip, Option.getD_some]
      omega
    · simp only [StorePath.new, hstrip, hnone, Option.getD_none]

namespace NarInfoParser

variable (env : NixEnv) (st : NarInfoParser)

theorem readStorePath_baseName {p : StorePath} (hp : p.IsBaseName) :
    readStorePath env p.baseName = .ok p := by
  rw [readStorePath, env.newStorePath_baseName hp.isComponent hp.long]
  rfl

theorem readSize_repr (key : NarInfoKey) (s : UInt64) : readSize key s.toNat.repr = .ok s := by
  rw [readSize, Nat.toList_repr, Text.parseNat_toDigits s.toNat_lt]
  simp

theorem mapM_readStorePath {refs : List StorePath} (hrefs : ∀ r ∈ refs, r.IsBaseName) :
    (refs.map (fun r => r.baseName.toList)).mapM
      (fun w => readStorePath env (String.ofList w)) = .ok refs := by
  induction refs with
  | nil => rfl
  | cons r refs ih =>
    rw [List.map_cons, List.mapM_cons, String.ofList_toList,
      readStorePath_baseName env (hrefs r List.mem_cons_self),
      ih (fun q hq => hrefs q (List.mem_cons_of_mem _ hq))]
    rfl

theorem setField_storePath {p : StorePath} (hp : p.IsBaseName) :
    setField env st .storePath (printStorePath env.storeDir p) =
      .ok { st with out := { st.out with storePath := p }, haveStorePath := true } := by
  unfold setField
  simp only [readStorePath, env.newStorePath_print hp]
  rfl

theorem setField_compression (c : Compression) :
    setField env st .compression c.asStr =
      .ok { st with out := { st.out with compression := c }, haveCompression := true } := by
  unfold setField
  simp only [Compression.fromStr_asStr]

theorem setField_narSize (s : UInt64) :
    setField env st .narSize s.toNat.repr =
      .ok { st with out := { st.out with narSize := s }, haveNarSize := true } := by
  unfold setField
  simp only [readSize_repr]
  rfl

theorem setField_references {refs : List StorePath} (hrefs : ∀ r ∈ refs, r.IsBaseName) :
    setField env st .references (String.intercalate " " (refs.map StorePath.baseName)) =
      .ok { st with out := { st.out with references := refs } } := by
  have hwords : Text.words isWhitespace
      (String.intercalate " " (refs.map StorePath.baseName)).toList =
      refs.map (fun r => r.baseName.toList) := by
    rw [String.toList_intercalate, List.map_map]
    apply Text.words_intercalate (show isWhitespace ' ' = true by decide)
    · intro w hw
      obtain ⟨r, hr, rfl⟩ := List.mem_map.mp hw
      exact (hrefs r hr).ne_nil
    · intro w hw c hc
      obtain ⟨r, hr, rfl⟩ := List.mem_map.mp hw
      exact ((hrefs r hr).chars c hc).1
  unfold setField
  simp only [hwords, mapM_readStorePath env hrefs]
  rfl

theorem setField_fileSize (s : UInt64) :
    setField env st .fileSize s.toNat.repr =
      .ok { st with out := { st.out with fileSize := some s } } := by
  unfold setField
  simp only [readSize_repr]
  rfl

theorem setField_deriver {p : StorePath} (hp : p.IsBaseName) :
    setField env st .deriver p.baseName =
      .ok { st with out := { st.out with deriver := some p } } := by
  have hne : p.baseName ≠ "" := fun h => hp.ne_nil (by rw [h]; rfl)
  unfold setField
  simp only [if_neg hne, readStorePath_baseName env hp]
  rfl

theorem setField_ca {ca : String} (hca : ca ≠ "") :
    setField env st .ca ca = .ok { st with out := { st.out with ca := some ca } } := by
  unfold setField
  simp only [if_neg hca]

/-- An optional line sets its field, and a missing one leaves it. -/
theorem foldlM_optional {α : Type} (o : Option α) (line : α → NarInfoKey × String)
    (update : NarInfoText → Option α → NarInfoText) (hnone : update st.out none = st.out)
    (hsome : ∀ a ∈ o, setField env st (line a).1 (line a).2 =
      .ok { st with out := update st.out (some a) }) :
    (o.toList.map line).foldlM (fun st f => setField env st f.1 f.2) st =
      .ok { st with out := update st.out o } := by
  cases o with
  | none =>
    rw [hnone]
    rfl
  | some a =>
    rw [Option.toList_some, List.map_singleton, List.foldlM_cons, hsome a rfl]
    rfl

/-- The signatures are appended in their order. -/
theorem foldlM_sigs {sigs : List String} (hsigs : ∀ s ∈ sigs, s ≠ "") :
    (sigs.map (fun sig => (NarInfoKey.sig, sig))).foldlM
      (fun st f => setField env st f.1 f.2) st =
      .ok { st with out := { st.out with sigs := st.out.sigs ++ sigs } } := by
  induction sigs generalizing st with
  | nil => simp; rfl
  | cons sig sigs ih =>
    have hset : setField env st .sig sig =
        .ok { st with out := { st.out with sigs := st.out.sigs ++ [sig] } } := by
      unfold setField
      simp only [if_neg (hsigs sig List.mem_cons_self)]
    rw [List.map_cons, List.foldlM_cons, hset]
    refine (ih _ (fun s hs => hsigs s (List.mem_cons_of_mem _ hs))).trans ?_
    simp

end NarInfoParser

/-- A narinfo is read back from its text.  The store directory is the prefix
of the store, and has no line break. -/
theorem fromStr_render (env : NixEnv) (hdir : '\n' ∉ env.storeDir.toList) (n : NarInfoText)
    (hn : n.WellFormed) : NarInfoText.fromStr env (n.render env.storeDir) = .ok n := by
  rw [NarInfoText.fromStr, NarInfoText.render,
    NarInfoParser.parseLines_render env _ (hn.isLineValue hdir), NarInfoText.fields]
  simp only [List.foldlM_append, List.foldlM_cons, List.foldlM_nil, bind_assoc, pure_bind]
  -- one line after the other
  refine Fallible.bind_ok_iff.mpr ⟨_, NarInfoParser.setField_storePath env _ hn.storePath, ?_⟩
  refine Fallible.bind_ok_iff.mpr ⟨_, rfl, ?_⟩
  refine Fallible.bind_ok_iff.mpr ⟨_, NarInfoParser.setField_compression env _ n.compression, ?_⟩
  refine Fallible.bind_ok_iff.mpr ⟨_, NarInfoParser.foldlM_optional env _ n.fileHash _
    (fun out h => { out with fileHash := h }) rfl (fun _ _ => rfl), ?_⟩
  refine Fallible.bind_ok_iff.mpr ⟨_, NarInfoParser.foldlM_optional env _ n.fileSize _
    (fun out s => { out with fileSize := s }) rfl
    (fun s _ => NarInfoParser.setField_fileSize env _ s), ?_⟩
  refine Fallible.bind_ok_iff.mpr ⟨_, rfl, ?_⟩
  refine Fallible.bind_ok_iff.mpr ⟨_, NarInfoParser.setField_narSize env _ n.narSize, ?_⟩
  refine Fallible.bind_ok_iff.mpr ⟨_, NarInfoParser.setField_references env _ hn.references, ?_⟩
  refine Fallible.bind_ok_iff.mpr ⟨_, NarInfoParser.foldlM_optional env _ n.deriver _
    (fun out d => { out with deriver := d }) rfl
    (fun d hd => NarInfoParser.setField_deriver env _ (hn.deriver d hd)), ?_⟩
  refine Fallible.bind_ok_iff.mpr ⟨_, NarInfoParser.foldlM_optional env _ n.ca _
    (fun out ca => { out with ca := ca }) rfl
    (fun ca hca => NarInfoParser.setField_ca env _ (hn.ca ca hca).2), ?_⟩
  exact Fallible.bind_ok_iff.mpr ⟨_, NarInfoParser.foldlM_sigs env _
    (fun sig hsig => (hn.sigs sig hsig).2), rfl⟩

namespace Sample

/-- The store of a release build. -/
def nixEnv : NixEnv := ⟨false, "/nix/store"⟩

/-- A narinfo with two references and without a deriver. -/
def helloNarInfo : NarInfoText where
  storePath := ⟨"26xbg1ndr7hbcncrlf9nhx5is2b25d13-hello-2.12.1"⟩
  url := "nar/10gv3h0s58c4glldbkncmdw0zk3pxwa4s2ivacn4kjy0yb35i403.nar.xz"
  compression := .xz
  fileHash := some "sha256:10gv3h0s58c4glldbkncmdw0zk3pxwa4s2ivacn4kjy0yb35i403"
  fileSize := some 50088
  narHash := "sha256:0yzhigwjl6bws649vcs2asa4lbs8hg93hyix187gc7s7a74w5h80"
  narSize := 226488
  references :=
    [⟨"3n58xw4373jp0ljirf06d8077j15pc4j-glibc-2.37-8"⟩,
      ⟨"26xbg1ndr7hbcncrlf9nhx5is2b25d13-hello-2.12.1"⟩]
  deriver := none
  ca := none
  sigs := ["cache-1:8ijECciSFzWHwwGVOIVYdp2fOIOJAfmzGHPQVwpktfTQJF6kMPPDre7UtFw3o+VqenC5P8RikKOAAfN7CvPEAg=="]

theorem isBaseName_of {s : String} (hlong : 34 ≤ s.toList.length)
    (hchars : s.toList.all (fun c => !isWhitespace c && c != '/') = true) :
    StorePath.IsBaseName ⟨s⟩ where
  long := hlong
  chars c hc := by simpa using List.all_eq_true.mp hchars c hc

theorem wellFormed_helloNarInfo : helloNarInfo.WellFormed where
  storePath := isBaseName_of (by decide +kernel) (by decide +kernel)
  url := isLineValue_of_all (by decide +kernel)
  fileHash h hh := by
    obtain rfl := Option.some.inj hh
    exact isLineValue_of_all (by decide +kernel)
  narHash := isLineValue_of_all (by decide +kernel)
  references r hr := by
    rcases List.mem_cons.mp hr with rfl | hr
    · exact isBaseName_of (by decide +kernel) (by decide +kernel)
    · obtain rfl := List.mem_singleton.mp hr
      exact isBaseName_of (by decide +kernel) (by decide +kernel)
  deriver d hd := by cases hd
  ca ca hca := by cases hca
  sigs sig hsig := by
    obtain rfl := List.mem_singleton.mp hsig
    exact ⟨isLineValue_of_all (by decide +kernel), by decide +kernel⟩

end Sample

theorem fromStr_render_hello :
    NarInfoText.fromStr Sample.nixEnv (Sample.helloNarInfo.render "/nix/store") =
      .ok Sample.helloNarInfo :=
  fromStr_render Sample.nixEnv (by decide) Sample.helloNarInfo Sample.wellFormed_helloNarInfo

/-! ## Fingerprints -/

/-- `&s[0..n]`. -/
def sliceTo (n : Nat) (s : String) : Except Panic String :=
  match Text.splitAt n s.toList with
  | some (a, _) => .ok (String.ofList a)
  | none => .error .strIndex

/-- The printed paths all begin with the directory.  The loop stops at the
first one that does not. -/
def allBelow (rootStoreDir : String) : List String → Except Panic Bool
  | [] => .ok true
  | r :: refs => do
    if (← sliceTo rootStoreDir.utf8ByteSize r) ≠ rootStoreDir then return false
    allBelow rootStoreDir refs

namespace NarInfoText

/-- `NarInfo::fingerprint_path`, with `get_store_dir` and the prefix of the
store. -/
def fingerprintPath (rootStoreDir pathPrefix : String) (n : NarInfoText) :
    Except Panic (Option String) := do
  let absPath := printStorePath pathPrefix n.storePath
  if (← sliceTo rootStoreDir.utf8ByteSize absPath) ≠ rootStoreDir then return none
  if (← sliceTo 7 n.narHash) ≠ "sha256:" then return none
  if n.narHash.utf8ByteSize ≠ 59 then return none
  let refs := n.references.map (printStorePath pathPrefix)
  if (← allBelow rootStoreDir refs) = false then return none
  return some ("1;" ++ absPath ++ ";" ++ n.narHash ++ ";" ++ n.narSize.toNat.repr ++ ";" ++
    String.intercalate "," refs)

/-- `NarInfo::clear_sigs_and_sign`. -/
def clearSigsAndSign (signer : Signer) (pathPrefix : String) (n : NarInfoText) :
    Except Panic NarInfoText :=
  if signer.keys = [] then .ok { n with sigs := [] }
  else do
    match ← n.fingerprintPath signer.storeDir pathPrefix with
    | some fp => return { n with sigs := signer.keys.map (fun key => signer.signString key fp) }
    | none => return { n with sigs := [] }

/-- The fields that are signed. -/
structure SameSigned (a b : NarInfoText) : Prop where
  storePath : a.storePath = b.storePath
  narHash : a.narHash = b.narHash
  narSize : a.narSize = b.narSize
  references : a.references = b.references

/-- The store path and the references have none of the characters that
separate the parts of a fingerprint. -/
structure Separable (n : NarInfoText) : Prop where
  storePath : ';' ∉ n.storePath.baseName.toList
  references : ∀ r ∈ n.references, ',' ∉ r.baseName.toList

theorem fingerprintPath_some {rootStoreDir pathPrefix fp : String} {n : NarInfoText}
    (h : n.fingerprintPath rootStoreDir pathPrefix = .ok (some fp)) :
    n.narHash.utf8ByteSize = 59 ∧
      fp = "1;" ++ printStorePath pathPrefix n.storePath ++ ";" ++ n.narHash ++ ";" ++
        n.narSize.toNat.repr ++ ";" ++
        String.intercalate "," (n.references.map (printStorePath pathPrefix)) := by
  unfold fingerprintPath at h
  obtain ⟨head, -, h⟩ := Fallible.bind_ok_iff.mp h
  by_cases hhead : head ≠ rootStoreDir
  · rw [if_pos hhead] at h
    cases h
  rw [if_neg hhead] at h
  obtain ⟨alg, -, h⟩ := Fallible.bind_ok_iff.mp h
  by_cases halg : alg ≠ "sha256:"
  · rw [if_pos halg] at h
    cases h
  rw [if_neg halg] at h
  by_cases hsize : n.narHash.utf8ByteSize ≠ 59
  · rw [if_pos hsize] at h
    cases h
  rw [if_neg hsize] at h
  obtain ⟨below, -, h⟩ := Fallible.bind_ok_iff.mp h
  cases below with
  | false => cases h
  | true => exact ⟨not_not.mp hsize, (Option.some.inj (Except.ok.inj h)).symm⟩

theorem toList_printStorePath (pathPrefix : String) (p : StorePath) :
    (printStorePath pathPrefix p).toList = (pathPrefix.toList ++ ['/']) ++ p.baseName.toList := by
  simp [printStorePath]

/-- The characters of a fingerprint. -/
theorem toList_fingerprint (pathPrefix : String) (n : NarInfoText) :
    ("1;" ++ printStorePath pathPrefix n.storePath ++ ";" ++ n.narHash ++ ";" ++
      n.narSize.toNat.repr ++ ";" ++
      String.intercalate "," (n.references.map (printStorePath pathPrefix))).toList =
      ("1;".toList ++ (pathPrefix.toList ++ ['/'])) ++ (n.storePath.baseName.toList ++ ';' ::
        (n.narHash.toList ++ ';' :: (Nat.toDigits 10 n.narSize.toNat ++ ';' ::
          [','].intercalate ((n.references.map (fun r => r.baseName.toList)).map
            ((pathPrefix.toList ++ ['/']) ++ ·))))) := by
  have hrefs : (n.references.map (printStorePath pathPrefix)).map String.toList =
      (n.references.map (fun r => r.baseName.toList)).map
        ((pathPrefix.toList ++ ['/']) ++ ·) := by
    rw [List.map_map, List.map_map]
    exact List.map_congr_left (fun r _ => toList_printStorePath pathPrefix r)
  have hsemi : ";".toList = [';'] := rfl
  have hcomma : ",".toList = [','] := rfl
  simp only [String.toList_append, toList_printStorePath, String.toList_intercalate, hrefs,
    Nat.toList_repr, hsemi, hcomma, List.append_assoc, List.cons_append, List.nil_append]

/-- The fingerprint determines what it was made from. -/
theorem SameSigned.of_fingerprintPath {rootStoreDir pathPrefix fp : String} {a b : NarInfoText}
    (ha : a.Separable) (hb : b.Separable)
    (hfpa : a.fingerprintPath rootStoreDir pathPrefix = .ok (some fp))
    (hfpb : b.fingerprintPath rootStoreDir pathPrefix = .ok (some fp)) : SameSigned a b := by
  obtain ⟨hsizea, rfl⟩ := fingerprintPath_some hfpa
  obtain ⟨hsizeb, heq⟩ := fingerprintPath_some hfpb
  rw [← String.toList_inj, toList_fingerprint, toList_fingerprint,
    List.append_cancel_left_eq] at heq
  -- the path ends at the first semicolon
  obtain ⟨hpath, heq⟩ := Text.append_inj_of_sep ha.storePath hb.storePath heq
  -- the hash has a fixed length
  have hlen : Text.size a.narHash.toList = Text.size b.narHash.toList := by
    rw [Text.size_toList, Text.size_toList, hsizea, hsizeb]
  obtain ⟨hhash, heq⟩ := Text.append_inj_of_size heq hlen
  -- the size ends at the next semicolon
  have hdigits : ∀ n : Nat, ';' ∉ Nat.toDigits 10 n := by
    intro n hmem
    exact absurd (Nat.isDigit_of_mem_toDigits (by omega) (by omega) hmem) (by decide)
  obtain ⟨hsize, heq⟩ := Text.append_inj_of_sep (hdigits _) (hdigits _) (List.cons.inj heq).2
  have hnarSize : a.narSize.toNat = b.narSize.toNat := by
    rw [← Nat.ofDigitChars_ten_toDigits (n := a.narSize.toNat), hsize,
      Nat.ofDigitChars_ten_toDigits]
  -- and the references are separated by commas
  have hstart : pathPrefix.toList ++ ['/'] ≠ [] := by simp
  have hcomma : ∀ {n : NarInfoText}, n.Separable →
      ∀ r ∈ n.references.map (fun r => r.baseName.toList), ',' ∉ r := by
    intro n hn r hr
    obtain ⟨p, hp, rfl⟩ := List.mem_map.mp hr
    exact hn.references p hp
  have hrefs := Text.intercalate_inj hstart (hcomma ha) (hcomma hb) heq
  exact
    { storePath := StorePath.eq_of_toList hpath
      narHash := String.toList_inj.mp hhash
      narSize := UInt64.toNat_inj.mp hnarSize
      references := List.map_injective_iff.mpr (fun _ _ h => StorePath.eq_of_toList h) hrefs }

/-- The signatures are made for the fingerprint. -/
theorem clearSigsAndSign_sigs {signer : Signer} {pathPrefix sig : String} {n n' : NarInfoText}
    (h : n.clearSigsAndSign signer pathPrefix = .ok n') (hsig : sig ∈ n'.sigs) :
    ∃ fp, n.fingerprintPath signer.storeDir pathPrefix = .ok (some fp) ∧
      ∃ key ∈ signer.keys, sig = signer.signString key fp := by
  unfold clearSigsAndSign at h
  split_ifs at h with hkeys
  · obtain rfl := Except.ok.inj h
    cases hsig
  · obtain ⟨fp, hfp, h⟩ := Fallible.bind_ok_iff.mp h
    cases fp with
    | none =>
      obtain rfl := Except.ok.inj h
      cases hsig
    | some fp =>
      obtain rfl := Except.ok.inj h
      obtain ⟨key, hkey, rfl⟩ := List.mem_map.mp hsig
      exact ⟨fp, hfp, key, hkey, rfl⟩

end NarInfoText

/-- Two narinfos with the same fingerprint agree in what is signed.  So a
signature that validates only the string it was made for does not validate
the fingerprint of another path. -/
theorem fingerprint_identifies (signer : Signer) (pathPrefix : String) (a b : NarInfoText)
    (ha : a.Separable) (hb : b.Separable) :
    (∀ fp, a.fingerprintPath signer.storeDir pathPrefix = .ok (some fp) →
      b.fingerprintPath signer.storeDir pathPrefix = .ok (some fp) → a.SameSigned b) ∧
    ∀ validates : String → String → Prop,
      (∀ key ∈ signer.keys, ∀ fp fp', validates fp' (signer.signString key fp) → fp' = fp) →
      ∀ a' sig fp, a.clearSigsAndSign signer pathPrefix = .ok a' → sig ∈ a'.sigs →
        b.fingerprintPath signer.storeDir pathPrefix = .ok (some fp) → validates fp sig →
          a.SameSigned b := by
  refine ⟨fun fp hfpa hfpb => .of_fingerprintPath ha hb hfpa hfpb, ?_⟩
  intro validates hvalid a' sig fp hsign hsig hfpb hsigned
  obtain ⟨fp', hfpa, key, hkey, rfl⟩ := NarInfoText.clearSigsAndSign_sigs hsign hsig
  obtain rfl := hvalid key hkey fp' fp hsigned
  exact .of_fingerprintPath ha hb hfpa hfpb

namespace Sample

/-- The same path with another size. -/
def otherHello : NarInfoText := { helloNarInfo with narSize := 1 }

/-- A signature of the only key shows what it was made for. -/
def Validates (fp sig : String) : Prop := sig = signer.signString "key-1" fp

theorem validates_unique : ∀ key ∈ signer.keys, ∀ fp fp',
    Validates fp' (signer.signString key fp) → fp' = fp := by
  intro key hkey fp fp' h
  obtain rfl := List.mem_singleton.mp hkey
  have hlist := congrArg String.toList h
  simp only [signer, String.toList_append, List.append_cancel_left_eq, String.toList_inj] at hlist
  exact hlist.symm

theorem exists_fingerprint {n : NarInfoText}
    (h : (n.fingerprintPath "/nix/store" "/nix/store").toOption.any Option.isSome = true) :
    ∃ fp, n.fingerprintPath "/nix/store" "/nix/store" = .ok (some fp) := by
  obtain ⟨fp?, hfp, hsome⟩ := (Option.any_eq_true _ _).mp h
  obtain ⟨fp, rfl⟩ := Option.isSome_iff_exists.mp hsome
  cases hpath : n.fingerprintPath "/nix/store" "/nix/store" with
  | error e =>
    rw [hpath] at hfp
    cases hfp
  | ok out =>
    rw [hpath] at hfp
    cases hfp
    exact ⟨fp, rfl⟩

end Sample

/-- The path is signed.  With another size it has another fingerprint, which
the signature does not validate. -/
theorem fingerprint_identifies_hello : ∃ fp fp' signed sig,
    Sample.helloNarInfo.fingerprintPath "/nix/store" "/nix/store" = .ok (some fp) ∧
      Sample.helloNarInfo.clearSigsAndSign Sample.signer "/nix/store" = .ok signed ∧
      sig ∈ signed.sigs ∧ Sample.Validates fp sig ∧
      Sample.otherHello.fingerprintPath "/nix/store" "/nix/store" = .ok (some fp') ∧
      fp' ≠ fp ∧ ¬ Sample.Validates fp' sig := by
  have hsep : Sample.helloNarInfo.Separable := ⟨by decide, by decide⟩
  have hsep' : Sample.otherHello.Separable := ⟨by decide, by decide⟩
  obtain ⟨fp, hfp⟩ := Sample.exists_fingerprint (n := Sample.helloNarInfo) (by decide +kernel)
  obtain ⟨fp', hfp'⟩ := Sample.exists_fingerprint (n := Sample.otherHello) (by decide +kernel)
  have hsign : Sample.helloNarInfo.clearSigsAndSign Sample.signer "/nix/store" =
      .ok { Sample.helloNarInfo with sigs := [Sample.signer.signString "key-1" fp] } := by
    have hkeys : Sample.signer.keys ≠ [] := by decide
    have hfp₀ : Sample.helloNarInfo.fingerprintPath Sample.signer.storeDir "/nix/store" =
        .ok (some fp) := hfp
    simp only [NarInfoText.clearSigsAndSign, if_neg hkeys, hfp₀]
    rfl
  obtain ⟨hsame, hvalid⟩ :=
    fingerprint_identifies Sample.signer "/nix/store" _ _ hsep hsep'
  have hsize : ¬ Sample.helloNarInfo.SameSigned Sample.otherHello := fun h =>
    absurd h.narSize (by decide)
  refine ⟨fp, fp', _, _, hfp, hsign, List.mem_cons_self, rfl, hfp', ?_, fun hsigned => ?_⟩
  · rintro rfl
    exact hsize (hsame _ hfp hfp')
  · exact hsize (hvalid Sample.Validates Sample.validates_unique _ _ _ hsign List.mem_cons_self
      hfp' hsigned)

end QueueRunner

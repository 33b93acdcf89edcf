import QueueRunner.Basic

/-!
# The state file of the uploader

`Uploader` of `queue-runner/src/state/uploader.rs` keeps its pending
messages in a JSON file.  `save_state` writes the queue followed by the
tasks that are being uploaded, and `load_state` reads the file into the
queue of a new uploader.

`Message` derives both directions of the codec.  The field `id` is not
written, and it is read by a function of its own that has no default, so
an object without it is not accepted: a file that holds a message does not
load.

The texts of JSON values belong to `serde_json`.  They are a parameter
here, and the results need of them only that the text of the saved value is
read back as that value.
-/

namespace QueueRunner

/-- The JSON values that `serde_json` reads. -/
inductive Json where
  | null
  | bool (b : Bool)
  | number (n : Int)
  | str (s : String)
  | arr (items : List Json)
  | obj (fields : List (String × Json))

/-- The errors of reading a value. -/
inductive SerdeError where
  /-- The text is not JSON. -/
  | malformed
  | invalidType
  | invalidLength
  | missingField (name : String)
  | duplicateField (name : String)
deriving DecidableEq, Repr

/-- `serde_json::to_string` and the parser under `serde_json::from_str`. -/
structure SerdeJson where
  toString : Json → Except SerdeError String
  fromStr : String → Except SerdeError Json

/-- The text of the value is read back as the value. -/
def SerdeJson.RoundTrips (serde : SerdeJson) (v : Json) : Prop :=
  ∃ text, serde.toString v = .ok text ∧ serde.fromStr text = .ok v

/-! ## Store paths -/

/-- `str::strip_prefix`. -/
def stripPrefix (p s : String) : Option String :=
  if p.toList.isPrefixOf s.toList then some (String.ofList (s.toList.drop p.toList.length))
  else none

namespace StorePath

/-- `StorePath::new`; `storeDir` is `STORE_DIR`, which ends with a slash. -/
def new (storeDir p : String) : StorePath :=
  match stripPrefix storeDir p with
  | none => ⟨(stripPrefix "/" p).getD p⟩
  | some rest => ⟨(stripPrefix "/" rest).getD rest⟩

/-- `Serialize for StorePath`. -/
def serialize (p : StorePath) : Json := .str p.baseName

/-- `Deserialize for StorePath`. -/
def deserialize (storeDir : String) : Json → Except SerdeError StorePath
  | .str s => .ok (new storeDir s)
  | _ => .error .invalidType

end StorePath

/-! ## Messages -/

/-- `uploader::Message`. -/
structure Message where
  id : Uuid
  storePaths : List StorePath
  logRemotePath : String
  logLocalPath : String
deriving DecidableEq, Repr

namespace Message

/-- What of a message is written: everything but the id. -/
def payload (m : Message) : List StorePath × String × String :=
  (m.storePaths, m.logRemotePath, m.logLocalPath)

/-- The derived `Serialize for Message`, with `skip_serializing` on `id`. -/
def serialize (m : Message) : Json :=
  .obj [("store_paths", .arr (m.storePaths.map StorePath.serialize)),
    ("log_remote_path", .str m.logRemotePath),
    ("log_local_path", .str m.logLocalPath)]

/-- The fields of `Message` that the derived visitor tells apart. -/
inductive Field where
  | id
  | storePaths
  | logRemotePath
  | logLocalPath
  | ignore

def Field.ofKey (key : String) : Field :=
  if key = "id" then .id
  else if key = "store_paths" then .storePaths
  else if key = "log_remote_path" then .logRemotePath
  else if key = "log_local_path" then .logLocalPath
  else .ignore

/-- The fields that the visitor has read so far. -/
structure Seen where
  id : Option Uuid := none
  storePaths : Option (List StorePath) := none
  logRemotePath : Option String := none
  logLocalPath : Option String := none

end Message

/-- Reading values draws new ids; the state is the next one. -/
abbrev Deserialize := StateT Uuid (Except SerdeError)

/-- `deserialize_with_new_v4`: a new id, whatever stands in the file. -/
def deserializeWithNewV4 (_ : Json) : Deserialize Uuid := fun next => .ok (next, next + 1)

/-- A field that occurs once. -/
def onceField {β : Type} (name : String) (seen : Option β) (read : Deserialize β) :
    Deserialize (Option β) :=
  match seen with
  | some _ => throw (.duplicateField name)
  | none => some <$> read

/-- A field that has to be there.  `deserialize_with` without `default`
asks for it as every other field does. -/
def requiredField {β : Type} (name : String) : Option β → Deserialize β
  | some v => pure v
  | none => throw (.missingField name)

def readString : Json → Deserialize String
  | .str s => pure s
  | _ => throw .invalidType

def readStorePaths (storeDir : String) : Json → Deserialize (List StorePath)
  | .arr items => items.mapM (fun v => liftM (StorePath.deserialize storeDir v))
  | _ => throw .invalidType

namespace Message

/-- One entry of an object, in the derived `visit_map`. -/
def visitEntry (storeDir : String) (p : Seen) (entry : String × Json) :
    Deserialize Seen :=
  match Field.ofKey entry.1 with
  | .id => do
    let v ← onceField "id" p.id (deserializeWithNewV4 entry.2)
    pure { p with id := v }
  | .storePaths => do
    let v ← onceField "store_paths" p.storePaths (readStorePaths storeDir entry.2)
    pure { p with storePaths := v }
  | .logRemotePath => do
    let v ← onceField "log_remote_path" p.logRemotePath (readString entry.2)
    pure { p with logRemotePath := v }
  | .logLocalPath => do
    let v ← onceField "log_local_path" p.logLocalPath (readString entry.2)
    pure { p with logLocalPath := v }
  | .ignore => pure p

/-- The end of the derived `visit_map`: every field is required. -/
def ofSeen (p : Seen) : Deserialize Message := do
  let id ← requiredField "id" p.id
  let storePaths ← requiredField "store_paths" p.storePaths
  let logRemotePath ← requiredField "log_remote_path" p.logRemotePath
  let logLocalPath ← requiredField "log_local_path" p.logLocalPath
  pure ⟨id, storePaths, logRemotePath, logLocalPath⟩

/-- The derived `Deserialize for Message`: an object by its keys, or an
array by its positions. -/
def deserialize (storeDir : String) : Json → Deserialize Message
  | .obj fields => do
    let p ← fields.foldlM (visitEntry storeDir) {}
    ofSeen p
  | .arr [id, storePaths, logRemotePath, logLocalPath] => do
    let id ← deserializeWithNewV4 id
    let storePaths ← readStorePaths storeDir storePaths
    let logRemotePath ← readString logRemotePath
    let logLocalPath ← readString logLocalPath
    pure ⟨id, storePaths, logRemotePath, logLocalPath⟩
  | .arr _ => throw .invalidLength
  | _ => throw .invalidType

end Message

/-- `Serialize for Vec<Message>`. -/
def serializeMessages (messages : List Message) : Json :=
  .arr (messages.map Message.serialize)

/-- `Deserialize for Vec<Message>`. -/
def deserializeMessages (storeDir : String) : Json → Deserialize (List Message)
  | .arr items => items.mapM (Message.deserialize storeDir)
  | _ => throw .invalidType

/-! ## The uploader -/

/-- `Uploader`, without the path of its state file.  The queue is an
`InspectableChannel`. -/
structure Uploader where
  queue : List Message := []
  currentTasks : List Message := []
deriving DecidableEq, Repr

namespace Uploader

/-- What `save_state` writes: the queue followed by the current tasks. -/
def snapshot (u : Uploader) : List Message := u.queue ++ u.currentTasks

/-- `save_state` up to the write of the file: the text that is written. -/
def saveState (serde : SerdeJson) (u : Uploader) : Except SerdeError String :=
  serde.toString (serializeMessages u.snapshot)

/-- `load_state`.  `file` is the content of the state file, if it exists. -/
def loadState (storeDir : String) (serde : SerdeJson) (file : Option String)
    (u : Uploader) : Deserialize Uploader :=
  match file with
  | none => pure u
  | some content => do
    let v ← liftM (serde.fromStr content)
    let messages ← deserializeMessages storeDir v
    pure { u with queue := u.queue ++ messages }

end Uploader

/-- The pending messages of `u` survive a restart: when `save_state` has
written its text, `load_state` of a new uploader reads the same messages in
the same order, with new ids that differ from each other. -/
def SurvivesRestart (storeDir : String) (serde : SerdeJson) (u : Uploader)
    (next : Uuid) : Prop :=
  ∀ text, u.saveState serde = .ok text →
    ∃ u' next', (Uploader.loadState storeDir serde (some text) {}).run next = .ok (u', next') ∧
      u'.queue.map Message.payload = u.snapshot.map Message.payload ∧
      (u'.queue.map Message.id).Nodup

/-! ## What is read back -/

namespace Deserialize

variable {β γ : Type} {x : Deserialize β} {f : β → Deserialize γ} {next next' : Uuid}

theorem bind_ok {b : β} (h : x next = .ok (b, next')) : (x >>= f) next = f b next' := by
  simp only [bind, StateT.bind, h]
  rfl

theorem bind_error {e : SerdeError} (h : x next = .error e) : (x >>= f) next = .error e := by
  simp only [bind, StateT.bind, h]
  rfl

end Deserialize

theorem readStorePaths_serialize (storeDir : String) (paths : List StorePath) (next : Uuid) :
    readStorePaths storeDir (.arr (paths.map StorePath.serialize)) next =
      .ok (paths.map (fun p => StorePath.new storeDir p.baseName), next) := by
  simp only [readStorePaths]
  induction paths with
  | nil => rfl
  | cons p paths ih =>
    have hp : (liftM (StorePath.deserialize storeDir p.serialize) : Deserialize StorePath) next =
        .ok (StorePath.new storeDir p.baseName, next) := rfl
    simp only [List.map_cons, List.mapM_cons]
    rw [Deserialize.bind_ok hp, Deserialize.bind_ok ih]
    rfl

namespace Message

theorem visitEntry_storePaths (storeDir : String) (m : Message) (next : Uuid) :
    visitEntry storeDir {} ("store_paths", .arr (m.storePaths.map StorePath.serialize)) next =
      .ok ({ storePaths := some (m.storePaths.map (fun p => .new storeDir p.baseName)) },
        next) := by
  have honce : onceField "store_paths" none
      (readStorePaths storeDir (.arr (m.storePaths.map StorePath.serialize))) next =
      .ok (some (m.storePaths.map (fun p => .new storeDir p.baseName)), next) := by
    simp only [onceField, ← bind_pure_comp]
    rw [Deserialize.bind_ok (readStorePaths_serialize storeDir m.storePaths next)]
    rfl
  exact Deserialize.bind_ok honce

/-- The object that `Serialize` writes for a message has no `id`, and
`Deserialize` asks for one. -/
theorem deserialize_serialize (storeDir : String) (m : Message) (next : Uuid) :
    deserialize storeDir m.serialize next = .error (.missingField "id") := by
  simp only [serialize, deserialize, List.foldlM_cons, List.foldlM_nil]
  rw [bind_assoc, Deserialize.bind_ok (visitEntry_storePaths storeDir m next)]
  rfl

end Message

/-- A file with a message does not load. -/
theorem deserializeMessages_cons (storeDir : String) (m : Message) (messages : List Message)
    (next : Uuid) :
    deserializeMessages storeDir (serializeMessages (m :: messages)) next =
      .error (.missingField "id") := by
  simp only [deserializeMessages, serializeMessages, List.map_cons, List.mapM_cons]
  exact Deserialize.bind_error (m.deserialize_serialize storeDir next)

theorem Uploader.loadState_of_fromStr {text : String} {serde : SerdeJson} {v : Json}
    (storeDir : String) (u : Uploader) (next : Uuid) (htext : serde.fromStr text = .ok v) :
    u.loadState storeDir serde (some text) next =
      (deserializeMessages storeDir v >>= fun messages =>
        pure { u with queue := u.queue ++ messages }) next := by
  have hread : (liftM (serde.fromStr text) : Deserialize Json) next = .ok (v, next) := by
    rw [htext]
    rfl
  exact Deserialize.bind_ok hread

/-- The pending messages survive a restart exactly when there are none. -/
theorem survivesRestart_iff (storeDir : String) (serde : SerdeJson) (u : Uploader)
    (next : Uuid) (hserde : serde.RoundTrips (serializeMessages u.snapshot)) :
    SurvivesRestart storeDir serde u next ↔ u.queue = [] ∧ u.currentTasks = [] := by
  obtain ⟨text, hto, hfrom⟩ := hserde
  have hload := Uploader.loadState_of_fromStr storeDir {} next hfrom
  constructor
  · intro h
    obtain ⟨u', next', hok, -, -⟩ := h text hto
    cases hs : u.snapshot with
    | nil => simpa [Uploader.snapshot] using hs
    | cons m messages =>
      rw [hs, Deserialize.bind_error (deserializeMessages_cons storeDir m messages next)] at hload
      rw [StateT.run, hload] at hok
      cases hok
  · rintro ⟨hqueue, htasks⟩ text' hto'
    have hs : u.snapshot = [] := by simp [Uploader.snapshot, hqueue, htasks]
    obtain rfl : text = text' := by
      rw [Uploader.saveState, hto] at hto'
      exact Except.ok.inj hto'
    rw [hs] at hload
    exact ⟨{}, next, hload, by simp [hs], List.nodup_nil⟩

/-- `serde_json` on the empty list and on a list with the message `m`, whose
text is `text`. -/
def serdeOf (m : Message) (text : String) : SerdeJson where
  toString
    | .arr [] => .ok "[]"
    | _ => .ok text
  fromStr s :=
    if s = "[]" then .ok (.arr [])
    else if s = text then .ok (serializeMessages [m])
    else .error .malformed

/-- The log and the one output of a step. -/
def sampleMessage : Message where
  id := 7
  storePaths := [⟨"abc123def45678901234567890123456-package-name"⟩]
  logRemotePath := "log/abc123def45678901234567890123456-package-name.drv"
  logLocalPath := "/var/lib/hydra/build-logs/ab/c123"

def sampleText : String :=
  "[\x7b\"store_paths\":[\"abc123def45678901234567890123456-package-name\"]," ++
    "\"log_remote_path\":\"log/abc123def45678901234567890123456-package-name.drv\"," ++
    "\"log_local_path\":\"/var/lib/hydra/build-logs/ab/c123\"\x7d]"

/-- An uploader with nothing to do restarts with nothing to do. -/
theorem survivesRestart_iff_idle :
    SurvivesRestart "/nix/store/" (serdeOf sampleMessage sampleText) {} 0 ∧
      (serdeOf sampleMessage sampleText).RoundTrips (serializeMessages []) :=
  ⟨(survivesRestart_iff "/nix/store/" (serdeOf sampleMessage sampleText) {} 0
      ⟨"[]", rfl, rfl⟩).mpr ⟨rfl, rfl⟩, ⟨"[]", rfl, rfl⟩⟩

/-- One message in the queue is lost. -/
theorem survivesRestart_fails :
    (serdeOf sampleMessage sampleText).RoundTrips (serializeMessages [sampleMessage]) ∧
      ¬ SurvivesRestart "/nix/store/" (serdeOf sampleMessage sampleText)
        { queue := [sampleMessage] } 0 := by
  have hfrom : (serdeOf sampleMessage sampleText).fromStr sampleText =
      .ok (serializeMessages [sampleMessage]) := by
    have hne : sampleText ≠ "[]" := by decide
    simp [serdeOf, hne]
  refine ⟨⟨sampleText, rfl, hfrom⟩, ?_⟩
  intro h
  obtain ⟨u', next', hok, -, -⟩ := h sampleText rfl
  have hload := Uploader.loadState_of_fromStr "/nix/store/" {} 0 hfrom
  rw [Deserialize.bind_error (deserializeMessages_cons "/nix/store/" sampleMessage [] 0)] at hload
  rw [StateT.run, hload] at hok
  cases hok

end QueueRunner

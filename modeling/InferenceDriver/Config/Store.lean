/-
# `Config.Store` — the configuration in memory and on disk

`ConfigStore` of `config.py`, with `write_private_text`: memory is loaded
from the file, changed by a patch key by key, and written back whole.  The
calls to the file system may fail one by one.

YAML and the secret box are parameters (`Libraries`), of which it is
assumed that what was dumped loads as the same items, that what was sealed
opens, and that nothing opens under two keys.
-/
import InferenceDriver.Config.Schema
import InferenceDriver.Lib.Checks
import InferenceDriver.Py.Dict

namespace InferenceDriver.Config

open Checks

/-- The libraries the store uses; `C` is the content of a file. -/
structure Libraries (C Key : Type) extends Words where
  /-- Reading and `yaml.safe_load`; none where they raise. -/
  load : C → Option Value
  /-- `yaml.safe_dump` and encoding; none where they raise. -/
  dump : Dict Text Value → Option C
  /-- What is loaded is what was dumped, in the order of its keys. -/
  load_dump : ∀ {d c}, dump d = some c →
    ∃ items, load c = some (.map items) ∧ ∀ k, Value.lookup items k = d.get? k
  /-- `seal`, with a nonce: the nonce and the ciphertext in base64.  None for
  a text UTF-8 does not have, or a key of the wrong size. -/
  sealText : Key → Text → Text → Option (Text × Text)
  /-- `open_envelope`; none where it raises. -/
  openEnvelope : Key → Text → Text → Option Text
  open_seal : ∀ {k n t e}, sealText k n t = some e → openEnvelope k e.1 e.2 = some t
  /-- Nothing opens under two keys. -/
  open_other : ∀ {k k' n c t t'}, openEnvelope k n c = some t → openEnvelope k' n c = some t' → k = k'

/-- What ends a call with an exception. -/
inductive Failure where
  /-- The file cannot be read, or is no mapping. -/
  | unreadable
  /-- A number that no `float` holds. -/
  | overflow
  /-- A value that cannot be sealed, dumped or encoded. -/
  | unwritable
  /-- A call to the file system. -/
  | disk

/-- The calls of a write. -/
inductive Call where
  | mkdir
  | create
  | write
  | flush
  | sync
  | replace
deriving DecidableEq, Repr

variable {C Key : Type} (L : Libraries C Key) (S : Schema)

/-! ## The file -/

/-- What a call does to the file. -/
def act (content : C) (file : Option C) (call : Call) : Option C :=
  match call with
  | .replace => some content
  | _ => file

/-- Calls up to the first that fails. -/
def runCalls (fails : Call → Bool) (content : C) (file : Option C) : List Call → Option C × Bool
  | [] => (file, true)
  | call :: rest =>
      if fails call then (file, false) else runCalls fails content (act content file call) rest

/-- `write_private_text`: the file it leaves, and whether it went through. -/
def writePrivateText (fails : Call → Bool) (content : C) (file : Option C) : Option C × Bool :=
  runCalls fails content file [.create, .write, .flush, .sync, .replace]

/-! ## The store -/

/-- `ConfigStore` and its file. -/
structure Store (C : Type) where
  values : Dict Text Value
  started : Dict Text Value
  file : Option C

/-- `_defaults`. -/
def defaults : Dict Text Value :=
  S.fields.foldl (fun d f => if f.default.isNull then d else d.set f.key f.default) .empty

/-- A new store. -/
def Store.new (file : Option C) : Store C := { values := defaults S, started := defaults S, file }

/-- `store.get`. -/
def Store.get (s : Store C) (key : Text) : Value := (s.values.get? key).getD .null

/-- The envelope of a sealed text. -/
def envelope (e : Text × Text) : Value :=
  .map [(.str "alg".toList, .str envelopeAlg), (.str "nonce".toList, .str e.1),
    (.str "ciphertext".toList, .str e.2)]

/-- `_decrypt_loaded`. -/
def decryptLoaded (key : Option Key) (value : Value) : Value :=
  match value with
  | .map items =>
      if isEnvelope value then
        match key, Value.lookup items "nonce".toList, Value.lookup items "ciphertext".toList with
        | some key, some (.str nonce), some (.str ciphertext) =>
            (L.openEnvelope key nonce ciphertext).elim .null .str
        | _, _, _ => .null
      else value
  | value => value

/-- A value of a field, or the default for none. -/
def orDefault (field : ConfigField) (value : Value) : Value :=
  if isUnset field value then field.default else value

/-- One item of the file. -/
def onItem (key : Option Key) (merged : Dict Text Value) (item : Value × Value) : Dict Text Value :=
  match item.1 with
  | .str k =>
      match S.byKey k with
      | some field => merged.set k (orDefault field (decryptLoaded L key item.2))
      | none => merged
  | _ => merged

/-- Whether a value is sealed when it is written. -/
def toSeal (field : Option ConfigField) (value : Value) : Option Text :=
  match field, value with
  | some field, .str (c :: cs) => if field.sensitive then some (c :: cs) else none
  | _, _ => none

/-- The value of a key as it is written; `nonce` is drawn for it. -/
def onDisk (key : Option Key) (nonce : Text) (k : Text) (value : Value) : Option Value :=
  match key, toSeal (S.byKey k) value with
  | some key, some text => (L.sealText key nonce text).map envelope
  | _, _ => some value

/-- All values as they are written. -/
def toDisk (key : Option Key) (nonces : Text → Text) (values : Dict Text Value) :
    Option (Dict Text Value) :=
  values.items.foldlM (fun d e => (onDisk L S key (nonces e.1) e.1 e.2).map (d.set e.1)) .empty

/-- `_write_locked`: the file it leaves, and the exception. -/
def writeLocked (key : Option Key) (nonces : Text → Text) (fails : Call → Bool)
    (values : Dict Text Value) (file : Option C) : Option C × Except Failure Unit :=
  if fails .mkdir then (file, .error .disk)
  else
    match (toDisk L S key nonces values).bind L.dump with
    | none => (file, .error .unwritable)
    | some content =>
        let (file, done) := writePrivateText fails content file
        (file, if done then .ok () else .error .disk)

/-- The items of a document: an empty one has none. -/
def itemsOf (document : Value) : Option (List (Value × Value)) :=
  if document.truthy then
    match document with
    | .map items => some items
    | _ => none
  else some []

/-- `ConfigStore.load`. -/
def load (key : Option Key) (nonces : Text → Text) (fails : Call → Bool) (s : Store C) :
    Store C × Except Failure Unit :=
  match s.file with
  | some content =>
      match (L.load content).bind itemsOf with
      | none => (s, .error .unreadable)
      | some items =>
          let merged := items.foldl (onItem L S key) (defaults S)
          ({ s with values := merged, started := merged }, .ok ())
  | none =>
      let values := defaults S
      match writeLocked L S key nonces fails values none with
      | (file, .ok ()) => ({ values, started := values, file }, .ok ())
      | (file, .error e) => ({ s with values, file }, .error e)

/-! ## A patch -/

/-- `ConfigFieldError`. -/
structure ConfigFieldError where
  key : Text
  message : Text

/-- `ConfigUpdateResult`. -/
structure ConfigUpdateResult where
  applied : List Text := []
  rejected : List ConfigFieldError := []
  pendingRestart : List Text := []

def ConfigUpdateResult.requiresRestart (r : ConfigUpdateResult) : Bool := r.pendingRestart ≠ []

/-- `MANAGED_BY`. -/
def managedBy : Text :=
  ("Set by this machine's agent from the runtime this driver fronts, and rewritten at its next " ++
    "start: change the runtime instead (the model's profile, or Backends).").toList

/-- Whether a value differs from the one this process runs on. -/
def differs (values started : Dict Text Value) (key : Text) : Bool :=
  !(((values.get? key).getD .null).eq ((started.get? key).getD .null))

/-- One key of a patch. -/
def onKey (managed : List Text) (started : Dict Text Value) (values : Dict Text Value)
    (result : ConfigUpdateResult) (key : Text) (value : Value) :
    Except Overflow (Dict Text Value × ConfigUpdateResult) :=
  match S.byKey key with
  | none => .ok (values, { result with rejected := result.rejected ++ [⟨key, "unknown field".toList⟩] })
  | some field => do
      match ← validateValue L.toWords field value with
      | some message => return (values, { result with rejected := result.rejected ++ [⟨key, message⟩] })
      | none =>
          if key ∈ managed then
            return (values, { result with rejected := result.rejected ++ [⟨key, managedBy⟩] })
          else
            let values := values.set key (orDefault field value)
            return (values, { result with
              applied := result.applied ++ [key]
              pendingRestart := result.pendingRestart ++
                if field.requiresRestart && differs values started key then [key] else [] })

/-- The loop over a patch: the values it leaves, and the exception. -/
def onKeys (managed : List Text) (started : Dict Text Value) (values : Dict Text Value)
    (result : ConfigUpdateResult) :
    List (Text × Value) → Dict Text Value × Except Overflow ConfigUpdateResult
  | [] => (values, .ok result)
  | (key, value) :: rest =>
      match onKey L S managed started values result key value with
      | .error e => (values, .error e)
      | .ok (values, result) => onKeys managed started values result rest

/-- `apply_patch`. -/
def applyPatch (key : Option Key) (managed : List Text) (nonces : Text → Text) (fails : Call → Bool)
    (s : Store C) (patch : Dict Text Value) : Store C × Except Failure ConfigUpdateResult :=
  match onKeys L S managed s.started s.values {} patch.items with
  | (values, .error .overflow) => ({ s with values }, .error .overflow)
  | (values, .ok result) =>
      if result.applied = [] then ({ s with values }, .ok result)
      else
        match writeLocked L S key nonces fails values s.file with
        | (file, .ok ()) => ({ s with values, file }, .ok result)
        | (file, .error e) => ({ s with values, file }, .error e)

/-- `pending_restart`. -/
def Store.pendingRestart (s : Store C) : Dict Text Value :=
  (S.fields.filter fun f => f.requiresRestart && differs s.values s.started f.key).foldl
    (fun d f => d.set f.key ((s.started.get? f.key).getD .null)) .empty

end InferenceDriver.Config

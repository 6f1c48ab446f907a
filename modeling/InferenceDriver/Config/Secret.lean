/-
# `Config.Secret` — what a reader of the configuration learns of a secret

The three routes of the configuration: the document (`as_document`), the
schema with what is live in it (`as_schema`), and a patch.

Rename every secret, in memory and in the patches, by a renaming that tells
two texts apart and leaves alone a blank one and the word secrets are shown
as: no answer of the process changes (`secrets_unseen`).  So all that an
answer can say of a secret is whether there is one, whether it is the one
the process started with, and whether it was blank or that word.

Writing is assumed not to fail over what is written; it may fail.
-/
import InferenceDriver.Config.Latest

namespace InferenceDriver.Config

variable {C Key : Type} (L : Libraries C Key) (S : Schema)

/-! ## The routes -/

def isSecret (k : Text) : Bool := (S.byKey k).any (·.sensitive)

/-- A value of the document. -/
def shownAs (k : Text) (value : Value) : Value := if isSecret S k && !value.isNull then .str redacted else value

/-- `as_document`. -/
def Store.asDocument (s : Store C) : List (Text × Value) := s.values.items.map fun e => (e.1, shownAs S e.1 e.2)

/-- `value in (None, "")`. -/
def isAbsent : Value → Bool
  | .null => true
  | .str s => s = []
  | _ => false

/-- What the schema adds to a field. -/
structure FieldShown where
  field : ConfigField
  suggestions : Option (List Text)
  /-- `unsetMeans`, `unsetResolvesTo`. -/
  unset : Option (Option Text × Option Text)
  managedBy : Option Text
  pendingRestart : Bool
  inEffect : Option Value

/-- `as_schema`; `unsetFacts` is what is said of a key under a provider. -/
def Store.asSchema (unsetFacts : Text → Value → Option Text × Option Text) (available managed : List Text)
    (s : Store C) : List FieldShown :=
  S.fields.map fun field =>
    { field
      suggestions :=
        if available ≠ [] ∧ (field.key = "modelId".toList ∨ field.key = "upstreamModelId".toList) then some available
        else none
      unset := if isAbsent (s.get field.key) then some (unsetFacts field.key (s.get "provider".toList)) else none
      managedBy := if field.key ∈ managed then some managedBy else none
      pendingRestart := ((s.pendingRestart S).get? field.key).isSome
      inEffect := if field.sensitive then none else (s.pendingRestart S).get? field.key }

/-- A request, and what the system does to the calls it makes. -/
inductive Asked where
  | document
  | schema (available managed : List Text)
  | patch (managed : List Text) (nonces : Text → Text) (fails : Call → Bool) (patch : Dict Text Value)

inductive Answer where
  | document (items : List (Text × Value))
  | schema (fields : List FieldShown)
  | patched (result : Except Failure ConfigUpdateResult)

variable (unsetFacts : Text → Value → Option Text × Option Text) (key : Option Key)

def serve (s : Store C) : Asked → Store C × Answer
  | .document => (s, .document (s.asDocument S))
  | .schema available managed => (s, .schema (s.asSchema S unsetFacts available managed))
  | .patch managed nonces fails patch =>
      ((applyPatch L S key managed nonces fails s patch).1,
        .patched (applyPatch L S key managed nonces fails s patch).2)

/-- One request after another. -/
def serveAll (s : Store C) : List Asked → List Answer
  | [] => []
  | asked :: rest => (serve L S unsetFacts key s asked).2 :: serveAll (serve L S unsetFacts key s asked).1 rest

/-! ## Renaming -/

/-- Other secrets, in the place of those there are. -/
structure Renaming where
  apply : Text → Text
  injective : ∀ s t, apply s = apply t → s = t
  blank : ∀ t, strip t = [] → apply t = t
  filled : ∀ t, strip (apply t) = [] → strip t = []
  redacted : apply redacted = redacted

variable (ρ : Renaming)

def Renaming.value : Value → Value
  | .str s => .str (ρ.apply s)
  | value => value

/-- The value of a key, renamed if it is a secret. -/
def Renaming.at (k : Text) (value : Value) : Value := if isSecret S k then ρ.value value else value

def Renaming.dict (d : Dict Text Value) : Dict Text Value where
  items := d.items.map fun e => (e.1, ρ.at S e.1 e.2)
  nodup := by
    rw [List.map_map]
    exact d.nodup

def Renaming.asked : Asked → Asked
  | .patch managed nonces fails patch => .patch managed nonces fails (ρ.dict S patch)
  | asked => asked

/-- Two stores alike but for their secrets, and whatever is in the file. -/
structure Alike (s s' : Store C) : Prop where
  values : s'.values = ρ.dict S s.values
  started : s'.started = ρ.dict S s.started

variable {L S key ρ}

theorem at_null (k : Text) : ρ.at S k .null = .null := by
  unfold Renaming.at
  split
  · rfl
  · rfl

theorem value_eq_null {v : Value} : (ρ.value v).isNull = v.isNull := by
  cases v <;> rfl

theorem dict_ext {d d' : Dict Text Value} (h : d.items = d'.items) : d = d' := by
  obtain ⟨items, nodup⟩ := d
  cases h
  rfl

theorem keys_dict (d : Dict Text Value) : (ρ.dict S d).keys = d.keys := by
  rw [Dict.keys, Renaming.dict, List.map_map]
  rfl

theorem get?_dict (d : Dict Text Value) (k : Text) : (ρ.dict S d).get? k = (d.get? k).map (ρ.at S k) := by
  have hcomp : ((fun e : Text × Value => decide (e.1 = k)) ∘ fun e : Text × Value => (e.1, ρ.at S e.1 e.2)) =
      fun e : Text × Value => decide (e.1 = k) := rfl
  rw [Dict.get?, Renaming.dict, List.find?_map, hcomp, Dict.get?, Option.map_map, Option.map_map]
  cases hfind : d.items.find? fun e => e.1 = k with
  | none => rfl
  | some e =>
      have hk : e.1 = k := by simpa using List.find?_some hfind
      rw [Option.map_some, Option.map_some, Function.comp_apply, Function.comp_apply, hk]

theorem getD_dict (d : Dict Text Value) (k : Text) :
    ((ρ.dict S d).get? k).getD .null = ρ.at S k ((d.get? k).getD .null) := by
  rw [get?_dict]
  cases d.get? k with
  | none => exact (at_null k).symm
  | some v => rfl

theorem dict_set (d : Dict Text Value) (k : Text) (v : Value) :
    ρ.dict S (d.set k v) = (ρ.dict S d).set k (ρ.at S k v) := by
  refine dict_ext ?_
  unfold Dict.set
  by_cases hk : k ∈ d.keys
  · have hk' : k ∈ (ρ.dict S d).keys := by rwa [keys_dict]
    rw [dif_pos hk, dif_pos hk']
    simp only [Renaming.dict, List.map_map]
    refine List.map_congr_left fun e _ => ?_
    by_cases he : e.1 = k
    · simp only [Function.comp_apply, if_pos he]
    · simp only [Function.comp_apply, if_neg he]
  · have hk' : k ∉ (ρ.dict S d).keys := by rwa [keys_dict]
    rw [dif_neg hk, dif_neg hk']
    simp only [Renaming.dict, Dict.push, List.map_append, List.map_cons, List.map_nil]

/-- A renaming tells values apart as they were. -/
theorem eq_value (a b : Value) : (ρ.value a).eq (ρ.value b) = a.eq b := by
  cases a with
  | str s =>
      cases b with
      | str t =>
          have h : (ρ.apply s = ρ.apply t) ↔ s = t := ⟨ρ.injective s t, congrArg ρ.apply⟩
          simp only [Renaming.value, Value.eq, Value.scalarEq, decide_eq_decide.mpr h]
      | _ => rfl
  | _ => cases b <;> rfl

theorem eq_at (k : Text) (a b : Value) : (ρ.at S k a).eq (ρ.at S k b) = a.eq b := by
  unfold Renaming.at
  split
  · exact eq_value a b
  · rfl

theorem differs_dict (values started : Dict Text Value) (k : Text) :
    differs (ρ.dict S values) (ρ.dict S started) k = differs values started k := by
  rw [differs, getD_dict, getD_dict, eq_at, differs]

/-! ## One key of a patch -/

theorem isSecret_eq {k : Text} {f : ConfigField} (h : S.byKey k = some f) : isSecret S k = f.sensitive := by
  rw [isSecret, h]
  rfl

theorem blank_iff (t : Text) : strip (ρ.apply t) = [] ↔ strip t = [] := by
  refine ⟨ρ.filled t, fun h => ?_⟩
  rw [ρ.blank t h]
  exact h

theorem redacted_iff (t : Text) : ρ.apply t = redacted ↔ t = redacted := by
  refine ⟨fun h => ρ.injective t redacted (h.trans ρ.redacted.symm), fun h => ?_⟩
  rw [h]
  exact ρ.redacted

/-- A secret is as valid as another. -/
theorem validate_at {k : Text} {f : ConfigField} (h : S.byKey k = some f) (W : Words) (v : Value) :
    validateValue W f (ρ.at S k v) = validateValue W f v := by
  unfold Renaming.at
  rw [isSecret_eq h]
  cases hs : f.sensitive with
  | false => rfl
  | true =>
      have hsecret := (sealed_plain h hs).1
      cases v with
      | str t =>
          simp only [Renaming.value, validateValue, hsecret, if_true]
          by_cases ht : t = redacted
          · rw [if_pos ht, if_pos ((redacted_iff t).mpr ht)]
          · rw [if_neg ht, if_neg fun hr => ht ((redacted_iff t).mp hr)]
      | _ => rfl

theorem orDefault_at {k : Text} {f : ConfigField} (h : S.byKey k = some f) (v : Value) :
    orDefault f (ρ.at S k v) = ρ.at S k (orDefault f v) := by
  unfold Renaming.at
  rw [isSecret_eq h]
  cases hs : f.sensitive with
  | false => rfl
  | true =>
      obtain ⟨hsecret, hdefault⟩ := sealed_plain h hs
      have hunset : isUnset f (ρ.value v) = isUnset f v := by
        cases v with
        | str t => simp only [Renaming.value, isUnset, hsecret, blank_iff]
        | _ => rfl
      simp only [orDefault, hunset, hdefault, if_true]
      cases isUnset f v with
      | true => rfl
      | false => rfl

theorem onKey_dict (managed : List Text) (started values : Dict Text Value) (result : ConfigUpdateResult) (k : Text)
    (v : Value) :
    onKey L S managed (ρ.dict S started) (ρ.dict S values) result k (ρ.at S k v) =
      (onKey L S managed started values result k v).map fun r => (ρ.dict S r.1, r.2) := by
  unfold onKey
  cases hf : S.byKey k with
  | none => rfl
  | some field =>
      simp only [validate_at hf, orDefault_at hf]
      cases validateValue L.toWords field v with
      | error o => rfl
      | ok message =>
          cases message with
          | some message => rfl
          | none =>
              by_cases hm : k ∈ managed
              · simp only [bind, Except.bind, pure, Except.pure, if_pos hm]
                rfl
              · simp only [bind, Except.bind, pure, Except.pure, if_neg hm, ← dict_set, differs_dict]
                rfl

theorem onKeys_dict (managed : List Text) (started values : Dict Text Value) (result : ConfigUpdateResult)
    (patch : List (Text × Value)) :
    onKeys L S managed (ρ.dict S started) (ρ.dict S values) result (patch.map fun e => (e.1, ρ.at S e.1 e.2)) =
      (ρ.dict S (onKeys L S managed started values result patch).1,
        (onKeys L S managed started values result patch).2) := by
  induction patch generalizing values result with
  | nil => rfl
  | cons e rest ih =>
      obtain ⟨k, v⟩ := e
      rw [List.map_cons, onKeys, onKeys, onKey_dict]
      cases onKey L S managed started values result k v with
      | error o => rfl
      | ok r => exact ih r.1 r.2

/-! ## A patch -/

/-- Whether a write goes through is not up to what is written. -/
structure Writes (L : Libraries C Key) (key : Option Key) : Prop where
  seals : ∀ k, key = some k → ∀ nonce text, (L.sealText k nonce text).isSome = true
  dumps : ∀ d, (L.dump d).isSome = true

theorem onDisk_isSome (hL : Writes L key) (nonce k : Text) (v : Value) :
    (onDisk L S key nonce k v).isSome = true := by
  unfold onDisk
  split
  · rw [Option.isSome_map]
    exact hL.seals _ rfl _ _
  · rfl

theorem toDisk_isSome (hL : Writes L key) (nonces : Text → Text) (values : Dict Text Value) :
    (toDisk L S key nonces values).isSome = true := by
  unfold toDisk
  generalize (Dict.empty : Dict Text Value) = d
  induction values.items generalizing d with
  | nil => rfl
  | cons e rest ih =>
      obtain ⟨v, hv⟩ := Option.isSome_iff_exists.mp (onDisk_isSome (S := S) hL (nonces e.1) e.1 e.2)
      rw [List.foldlM_cons, hv]
      exact ih (d.set e.1 v)

/-- A write ends as the calls it makes do. -/
theorem runCalls_snd (fails : Call → Bool) (content content' : C) (file file' : Option C) (calls : List Call) :
    (runCalls fails content file calls).2 = (runCalls fails content' file' calls).2 := by
  induction calls generalizing file file' with
  | nil => rfl
  | cons call rest ih =>
      unfold runCalls
      split
      · rfl
      · exact ih _ _

theorem writeLocked_snd (hL : Writes L key) (nonces : Text → Text) (fails : Call → Bool)
    (values values' : Dict Text Value) (file file' : Option C) :
    (writeLocked L S key nonces fails values file).2 = (writeLocked L S key nonces fails values' file').2 := by
  have content (values : Dict Text Value) : ∃ c, (toDisk L S key nonces values).bind L.dump = some c := by
    obtain ⟨d, hd⟩ := Option.isSome_iff_exists.mp (toDisk_isSome (S := S) hL nonces values)
    obtain ⟨c, hc⟩ := Option.isSome_iff_exists.mp (hL.dumps d)
    exact ⟨c, by rw [hd]; exact hc⟩
  obtain ⟨c, hc⟩ := content values
  obtain ⟨c', hc'⟩ := content values'
  unfold writeLocked
  rw [hc, hc']
  split
  · rfl
  · have hdone := runCalls_snd fails c c' file file' [.create, .write, .flush, .sync, .replace]
    unfold writePrivateText
    simp only []
    rw [hdone]

theorem alike_patch (hL : Writes L key) {s s' : Store C} (h : Alike S ρ s s') (managed : List Text)
    (nonces : Text → Text) (fails : Call → Bool) (patch : Dict Text Value) :
    Alike S ρ (applyPatch L S key managed nonces fails s patch).1
        (applyPatch L S key managed nonces fails s' (ρ.dict S patch)).1 ∧
      (applyPatch L S key managed nonces fails s' (ρ.dict S patch)).2 =
        (applyPatch L S key managed nonces fails s patch).2 := by
  have hkeys := onKeys_dict (L := L) (S := S) (ρ := ρ) managed s.started s.values {} patch.items
  have hitems : (ρ.dict S patch).items = patch.items.map fun e => (e.1, ρ.at S e.1 e.2) := rfl
  unfold applyPatch
  rw [h.values, h.started, hitems, hkeys]
  cases hrun : onKeys L S managed s.started s.values {} patch.items with
  | mk values outcome =>
      cases outcome with
      | error o =>
          cases o
          exact ⟨⟨rfl, rfl⟩, rfl⟩
      | ok result =>
          simp only
          by_cases happlied : result.applied = []
          · rw [if_pos happlied, if_pos happlied]
            exact ⟨⟨rfl, rfl⟩, rfl⟩
          · rw [if_neg happlied, if_neg happlied]
            have hwrite := writeLocked_snd (S := S) hL nonces fails values (ρ.dict S values) s.file s'.file
            cases hw : writeLocked L S key nonces fails values s.file with
            | mk file outcome =>
                cases hw' : writeLocked L S key nonces fails (ρ.dict S values) s'.file with
                | mk file' outcome' =>
                    rw [hw, hw'] at hwrite
                    obtain rfl : outcome = outcome' := hwrite
                    cases outcome with
                    | ok u => exact ⟨⟨rfl, rfl⟩, rfl⟩
                    | error e => exact ⟨⟨rfl, rfl⟩, rfl⟩

/-! ## A reader -/

theorem asDocument_alike {s s' : Store C} (h : Alike S ρ s s') : s'.asDocument S = s.asDocument S := by
  have hshown (k : Text) (v : Value) : shownAs S k (ρ.at S k v) = shownAs S k v := by
    unfold shownAs Renaming.at
    cases isSecret S k with
    | false => rfl
    | true => cases v <;> rfl
  rw [Store.asDocument, h.values, Renaming.dict, List.map_map]
  exact List.map_congr_left fun e _ => congrArg (e.1, ·) (hshown e.1 e.2)

theorem asSchema_alike (hprovider : isSecret S "provider".toList = false) {s s' : Store C} (h : Alike S ρ s s')
    (available managed : List Text) :
    s'.asSchema S unsetFacts available managed = s.asSchema S unsetFacts available managed := by
  have hget (k : Text) : s'.get k = ρ.at S k (s.get k) := by
    rw [Store.get, h.values, getD_dict, Store.get]
  have habsent (k : Text) : isAbsent (s'.get k) = isAbsent (s.get k) := by
    rw [hget, Renaming.at]
    split
    · cases s.get k with
      | str t =>
          have hempty : ρ.apply t = [] ↔ t = [] := by
            refine ⟨fun ht => ?_, fun ht => ?_⟩
            · have hfilled := ρ.filled t (by rw [ht]; rfl)
              rwa [ρ.blank t hfilled] at ht
            · rw [ρ.blank t (by rw [ht]; rfl)]
              exact ht
          exact decide_eq_decide.mpr hempty
      | _ => rfl
    · rfl
  have hfacts : s'.get "provider".toList = s.get "provider".toList := by
    rw [hget, Renaming.at, hprovider]
    rfl
  have hpending (k : Text) : (s'.pendingRestart S).get? k = ((s.pendingRestart S).get? k).map (ρ.at S k) := by
    rw [pendingRestart_get, pendingRestart_get, h.values, h.started]
    cases S.byKey k with
    | none => rfl
    | some f =>
        simp only [Option.bind_some, differs_dict, getD_dict]
        split
        · rfl
        · rfl
  unfold Store.asSchema
  refine List.map_congr_left fun field hfield => ?_
  have heffect : (if field.sensitive then none else (s'.pendingRestart S).get? field.key) =
      if field.sensitive then none else (s.pendingRestart S).get? field.key := by
    cases hs : field.sensitive with
    | true => rfl
    | false =>
        have hplain : isSecret S field.key = false := (isSecret_eq (byKey_key hfield)).trans hs
        have hat : ρ.at S field.key = id := by
          funext v
          rw [Renaming.at, hplain]
          rfl
        rw [hpending, hat, Option.map_id]
        rfl
  rw [habsent, hfacts, heffect, hpending, Option.isSome_map]

theorem serve_alike (hprovider : isSecret S "provider".toList = false) (hL : Writes L key) {s s' : Store C}
    (h : Alike S ρ s s') (asked : Asked) :
    Alike S ρ (serve L S unsetFacts key s asked).1 (serve L S unsetFacts key s' (ρ.asked S asked)).1 ∧
      (serve L S unsetFacts key s' (ρ.asked S asked)).2 = (serve L S unsetFacts key s asked).2 := by
  cases asked with
  | document => exact ⟨h, congrArg Answer.document (asDocument_alike h)⟩
  | schema available managed => exact ⟨h, congrArg Answer.schema (asSchema_alike unsetFacts hprovider h available managed)⟩
  | patch managed nonces fails patch =>
      obtain ⟨halike, hanswer⟩ := alike_patch hL h managed nonces fails patch
      exact ⟨halike, congrArg Answer.patched hanswer⟩

/-- **No answer tells one secret from another**: with the secrets in memory
and in the patches renamed, every answer of the process is what it was. -/
theorem secrets_unseen (hprovider : isSecret S "provider".toList = false) (hL : Writes L key) {s s' : Store C}
    (h : Alike S ρ s s') (requests : List Asked) :
    serveAll L S unsetFacts key s' (requests.map (ρ.asked S)) = serveAll L S unsetFacts key s requests := by
  induction requests generalizing s s' with
  | nil => rfl
  | cons asked rest ih =>
      obtain ⟨halike, hanswer⟩ := serve_alike unsetFacts hprovider hL h asked
      rw [List.map_cons, serveAll, serveAll, hanswer, ih halike]

/-! ## Two keys -/

def keyOne : Text := ['s', 'k', '-', '1']

def keyTwo : Text := ['s', 'k', '-', '2']

def swapText (t : Text) : Text := if t = keyOne then keyTwo else if t = keyTwo then keyOne else t

theorem swapText_swapText (t : Text) : swapText (swapText t) = t := by
  unfold swapText
  by_cases hone : t = keyOne
  · rw [if_pos hone, if_neg (by decide), if_pos rfl, hone]
  · rw [if_neg hone]
    by_cases htwo : t = keyTwo
    · rw [if_pos htwo, if_pos rfl, htwo]
    · rw [if_neg htwo, if_neg hone, if_neg htwo]

theorem swapText_blank (t : Text) (h : strip t = []) : swapText t = t := by
  unfold swapText
  rw [if_neg, if_neg]
  · rintro rfl
    exact absurd h (by decide)
  · rintro rfl
    exact absurd h (by decide)

/-- One of two keys for the other. -/
def swap : Renaming where
  apply := swapText
  injective s t h := by rw [← swapText_swapText s, h, swapText_swapText]
  blank := swapText_blank
  filled t h := by
    have hback := swapText_blank (swapText t) h
    rw [swapText_swapText] at hback
    rwa [← hback] at h
  redacted := by decide

/-- A process that was started with the first key. -/
def withKeyOne : Store Value where
  values := Dict.empty.set "apiKey".toList (.str keyOne)
  started := Dict.empty.set "apiKey".toList (.str keyOne)
  file := none

def withKeyTwo : Store Value where
  values := swap.dict driverSchema withKeyOne.values
  started := swap.dict driverSchema withKeyOne.started
  file := none

def changeKey : List Asked :=
  [.document, .patch [] (fun _ => []) (fun _ => false) (onePatch "apiKey" (.str keyTwo)), .schema [] [], .document]

theorem clear_writes : Writes Libraries.clear (some 'k') where
  seals _ _ _ _ := rfl
  dumps _ := rfl

theorem secrets_unseen_swapped :
    serveAll Libraries.clear driverSchema (fun _ _ => (none, none)) (some 'k') withKeyTwo
        (changeKey.map (swap.asked driverSchema)) =
      serveAll Libraries.clear driverSchema (fun _ _ => (none, none)) (some 'k') withKeyOne changeKey :=
  secrets_unseen _ (by decide) clear_writes ⟨rfl, rfl⟩ changeKey

end InferenceDriver.Config

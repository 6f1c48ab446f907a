/-
# `Config.Reads` — what a load reads

A load reads each key of the schema on its own: the default, or what the
file holds for it, opened and with an unset value read as the default
(`reads`).  What was written reads as what was in memory, as far as the
boxes open (`readBack_written`).
-/
import InferenceDriver.Config.Store

namespace InferenceDriver.Config

variable {C Key : Type} (L : Libraries C Key) (S : Schema)

/-- What a load reads for a field of what the file holds for it. -/
def reads (key : Option Key) (field : ConfigField) (raw : Option Value) : Value :=
  raw.elim field.default fun v => orDefault field (decryptLoaded L key v)

/-- The items of a file; one that is not there yet has none. -/
def itemsIn (file : Option C) : Option (List (Value × Value)) :=
  match file with
  | none => some []
  | some content => (L.load content).bind itemsOf

/-- What a load with this key reads for a key of the schema. -/
def readBack (key : Option Key) (file : Option C) (k : Text) : Option Value :=
  (itemsIn L file).map fun items =>
    ((items.foldl (onItem L S key) (defaults S)).get? k).getD .null

variable {L S}

theorem itemsIn_none : itemsIn L (none : Option C) = some [] := rfl

/-! ## The schema -/

theorem byKey_eq_some {k : Text} {f : ConfigField} (h : S.byKey k = some f) : f ∈ S.fields ∧ f.key = k := by
  have hm := List.mem_of_find?_eq_some h
  have hk := List.find?_some h
  exact ⟨List.mem_reverse.mp hm, by simpa using hk⟩

theorem byKey_key {f : ConfigField} (h : f ∈ S.fields) : S.byKey f.key = some f := S.alike f h

/-- A default is no envelope, and reads as itself. -/
theorem default_plain {k : Text} {f : ConfigField} (h : S.byKey k = some f) :
    isEnvelope f.default = false ∧ orDefault f f.default = f.default := by
  have hd := List.all_eq_true.mp S.defaults f (byKey_eq_some h).1
  rw [Bool.and_eq_true, Bool.not_eq_true'] at hd
  refine ⟨hd.1, ?_⟩
  unfold orDefault
  exact ite_id _

theorem sealed_plain {k : Text} {f : ConfigField} (h : S.byKey k = some f) (hs : f.sensitive = true) :
    f.valueType = .secret ∧ f.default = .null := by
  have hf := List.all_eq_true.mp S.sealed f (byKey_eq_some h).1
  rw [hs, Bool.not_true, Bool.false_or, Bool.and_eq_true, decide_eq_true_eq, Value.isNull_iff] at hf
  exact hf

/-! ## Loading -/

theorem defaults_get (k : Text) : (defaults S).get? k =
    (S.byKey k).bind fun f => if f.default.isNull then none else some f.default := by
  have fold : ∀ (fs : List ConfigField) (d : Dict Text Value),
      (fs.foldl (fun d f => if f.default.isNull then d else d.set f.key f.default) d).get? k =
        ((fs.reverse.find? fun f => f.key = k && !f.default.isNull).map (·.default)).or (d.get? k) := by
    intro fs
    induction fs with
    | nil => exact fun d => rfl
    | cons f rest ih =>
        intro d
        rw [List.foldl_cons, ih, List.reverse_cons, List.find?_append]
        cases rest.reverse.find? fun f => f.key = k && !f.default.isNull with
        | some g => rfl
        | none =>
            rw [Option.none_or, Option.map_none, Option.none_or]
            cases hn : f.default.isNull with
            | true => simp [hn]
            | false =>
                by_cases hk : f.key = k
                · rw [← hk]
                  simp [hn, Dict.get?_set_self]
                · simp [hn, hk, Dict.get?_set_ne d f.default (Ne.symm hk)]
  rw [defaults, fold]
  cases hb : S.byKey k with
  | none =>
      have hnone : S.fields.reverse.find? (fun f => f.key = k && !f.default.isNull) = none := by
        rw [List.find?_eq_none]
        intro f hf
        have := List.find?_eq_none.mp hb f hf
        simp_all
      rw [hnone]
      rfl
  | some g =>
      obtain ⟨hg, hk⟩ := byKey_eq_some hb
      cases hn : g.default.isNull with
      | true =>
          have hnone : S.fields.reverse.find? (fun f => f.key = k && !f.default.isNull) = none := by
            rw [List.find?_eq_none]
            intro f hf hk'
            rw [Bool.and_eq_true, decide_eq_true_eq, Bool.not_eq_true'] at hk'
            have hfg := byKey_key (List.mem_reverse.mp hf)
            rw [hk'.1, hb, Option.some.injEq] at hfg
            rw [← hfg, hn] at hk'
            cases hk'.2
          rw [hnone, Option.bind_some, if_pos hn]
          rfl
      | false =>
          cases hf : S.fields.reverse.find? fun f => f.key = k && !f.default.isNull with
          | none =>
              refine absurd ?_ (List.find?_eq_none.mp hf g (List.mem_reverse.mpr hg))
              rw [hk, hn]
              simp
          | some f =>
              have hk' := List.find?_some hf
              rw [Bool.and_eq_true, decide_eq_true_eq, Bool.not_eq_true'] at hk'
              have hfg := byKey_key (List.mem_reverse.mp (List.mem_of_find?_eq_some hf))
              rw [hk'.1, hb, Option.some.injEq] at hfg
              rw [hfg, Option.bind_some, if_neg (by rw [hk'.2]; exact Bool.false_ne_true)]
              rfl

theorem defaults_getD {k : Text} {f : ConfigField} (h : S.byKey k = some f) :
    ((defaults S).get? k).getD .null = f.default := by
  rw [defaults_get, h, Option.bind_some]
  cases hn : f.default.isNull with
  | true => exact (Value.isNull_iff.mp hn).symm
  | false => rfl

theorem lookup_concat (items : List (Value × Value)) (e : Value × Value) (k : Text) :
    Value.lookup (items ++ [e]) k = if e.1.isStr k then some e.2 else Value.lookup items k := by
  unfold Value.lookup
  rw [List.reverse_append, List.reverse_singleton, List.singleton_append, List.find?_cons]
  cases e.1.isStr k <;> rfl

/-- Each item of a file says something of its own key only. -/
theorem foldl_onItem (key : Option Key) (d : Dict Text Value) (items : List (Value × Value)) {k : Text}
    {f : ConfigField} (h : S.byKey k = some f) :
    (items.foldl (onItem L S key) d).get? k =
      ((Value.lookup items k).map fun v => orDefault f (decryptLoaded L key v)).or (d.get? k) := by
  induction items using List.reverseRecOn with
  | nil => rfl
  | append_singleton items e ih =>
      rw [List.foldl_append, List.foldl_cons, List.foldl_nil, lookup_concat]
      obtain ⟨name, v⟩ := e
      cases name with
      | str s =>
          by_cases hk : s = k
          · have hs : (Value.str k).isStr k = true := decide_eq_true rfl
            rw [hk, onItem]
            simp only
            rw [h]
            simp only
            rw [Dict.get?_set_self, if_pos hs]
            rfl
          · have hs : (Value.str s).isStr k = false := decide_eq_false hk
            rw [onItem]
            simp only
            rw [hs, if_neg Bool.false_ne_true]
            split
            · rw [Dict.get?_set_ne _ _ (Ne.symm hk)]
              exact ih
            · exact ih
      | null => exact ih
      | bool b => exact ih
      | int n => exact ih
      | float x => exact ih
      | seq xs => exact ih
      | map xs => exact ih
      | other kind text => exact ih

/-- **A load reads each key of the schema on its own.** -/
theorem loaded_get (key : Option Key) (items : List (Value × Value)) {k : Text} {f : ConfigField}
    (h : S.byKey k = some f) :
    ((items.foldl (onItem L S key) (defaults S)).get? k).getD .null =
      reads L key f (Value.lookup items k) := by
  rw [foldl_onItem key _ items h]
  cases Value.lookup items k with
  | some v => rfl
  | none => exact defaults_getD h

theorem readBack_eq {key : Option Key} {file : Option C} {items : List (Value × Value)}
    (hi : itemsIn L file = some items) {k : Text} {f : ConfigField} (h : S.byKey k = some f) :
    readBack L S key file k = some (reads L key f (Value.lookup items k)) := by
  rw [readBack, hi, Option.map_some, loaded_get key items h]

/-! ## Writing -/

theorem runCalls_failed {fails : Call → Bool} {content : C} {file file' : Option C}
    (h : writePrivateText fails content file = (file', false)) : file' = file := by
  unfold writePrivateText at h
  simp only [runCalls, act] at h
  split at h
  · cases h; rfl
  · split at h
    · cases h; rfl
    · split at h
      · cases h; rfl
      · split at h
        · cases h; rfl
        · split at h
          · cases h; rfl
          · cases h

theorem runCalls_done {fails : Call → Bool} {content : C} {file file' : Option C}
    (h : writePrivateText fails content file = (file', true)) : file' = some content := by
  unfold writePrivateText at h
  simp only [runCalls, act] at h
  split at h
  · cases h
  · split at h
    · cases h
    · split at h
      · cases h
      · split at h
        · cases h
        · split at h
          · cases h
          · cases h; rfl

/-- **A write that raises leaves the file alone.** -/
theorem writeLocked_error {key : Option Key} {nonces : Text → Text} {fails : Call → Bool}
    {values : Dict Text Value} {file file' : Option C} {e : Failure}
    (h : writeLocked L S key nonces fails values file = (file', .error e)) : file' = file := by
  unfold writeLocked at h
  split at h
  · cases h; rfl
  · split at h
    · cases h; rfl
    · rename_i content _
      cases hw : writePrivateText fails content file with
      | mk file₁ done =>
          rw [hw] at h
          cases done with
          | true => cases h
          | false =>
              cases h
              exact runCalls_failed hw

theorem writeLocked_ok {key : Option Key} {nonces : Text → Text} {fails : Call → Bool}
    {values : Dict Text Value} {file file' : Option C}
    (h : writeLocked L S key nonces fails values file = (file', .ok ())) :
    ∃ d content, toDisk L S key nonces values = some d ∧ L.dump d = some content ∧
      file' = some content := by
  unfold writeLocked at h
  split at h
  · cases h
  · split at h
    · cases h
    · rename_i content hd
      obtain ⟨d, hd, hc⟩ := Option.bind_eq_some_iff.mp hd
      cases hw : writePrivateText fails content file with
      | mk file₁ done =>
          rw [hw] at h
          cases done with
          | true =>
              cases h
              exact ⟨d, content, hd, hc, runCalls_done hw⟩
          | false => cases h

theorem foldlM_toDisk {key : Option Key} {nonces : Text → Text} {k : Text} :
    ∀ {items : List (Text × Value)} {d d' : Dict Text Value}, (items.map (·.1)).Nodup →
      items.foldlM (fun d e => (onDisk L S key (nonces e.1) e.1 e.2).map (d.set e.1)) d = some d' →
        (k ∉ items.map (·.1) → d'.get? k = d.get? k) ∧
          ∀ v, (k, v) ∈ items → ∃ w, onDisk L S key (nonces k) k v = some w ∧ d'.get? k = some w
  | [], d, d', _, h => by
      cases h
      exact ⟨fun _ => rfl, fun v hv => (by cases hv)⟩
  | e :: rest, d, d', hn, h => by
      rw [List.map_cons, List.nodup_cons] at hn
      rw [List.foldlM_cons] at h
      obtain ⟨d₁, h₁, h⟩ := Option.bind_eq_some_iff.mp h
      obtain ⟨w, hw, rfl⟩ := Option.map_eq_some_iff.mp h₁
      obtain ⟨hkeep, hrest⟩ := foldlM_toDisk (k := k) hn.2 h
      refine ⟨fun hk => ?_, fun v hv => ?_⟩
      · rw [List.map_cons, List.mem_cons, not_or] at hk
        rw [hkeep hk.2, Dict.get?_set_ne _ _ hk.1]
      · rcases List.mem_cons.mp hv with rfl | hv
        · exact ⟨w, hw, by rw [hkeep hn.1, Dict.get?_set_self]⟩
        · exact hrest v hv

theorem toDisk_get {key : Option Key} {nonces : Text → Text} {values d : Dict Text Value}
    (h : toDisk L S key nonces values = some d) (k : Text) :
    (values.get? k = none → d.get? k = none) ∧
      ∀ v, values.get? k = some v → ∃ w, onDisk L S key (nonces k) k v = some w ∧ d.get? k = some w := by
  obtain ⟨hnone, hsome⟩ := foldlM_toDisk (k := k) values.nodup h
  refine ⟨fun hv => ?_, fun v hv => hsome v (Dict.mem_iff.mpr hv)⟩
  rw [hnone]
  · rfl
  · intro hk
    obtain ⟨w, hw⟩ := Dict.mem_keys_iff.mp hk
    rw [hv] at hw
    cases hw

/-- **What was written is read as it was written**, by a load with any key. -/
theorem readBack_written {key : Option Key} (right : Option Key) {nonces : Text → Text} {fails : Call → Bool}
    {values : Dict Text Value} {file file' : Option C}
    (h : writeLocked L S key nonces fails values file = (file', .ok ())) {k : Text} {f : ConfigField}
    (hf : S.byKey k = some f) :
    (values.get? k = none → readBack L S right file' k = some f.default) ∧
      ∀ v, values.get? k = some v → ∃ w, onDisk L S key (nonces k) k v = some w ∧
        readBack L S right file' k = some (orDefault f (decryptLoaded L right w)) := by
  obtain ⟨d, content, hd, hc, rfl⟩ := writeLocked_ok h
  obtain ⟨items, hl, hlook⟩ := L.load_dump hc
  have hi : itemsIn L (some content) = some items := by
    rw [itemsIn, hl, Option.bind_some, itemsOf]
    cases items with
    | nil => rfl
    | cons e rest => rfl
  obtain ⟨hnone, hsome⟩ := toDisk_get hd k
  rw [readBack_eq hi hf, hlook]
  refine ⟨fun hv => by rw [hnone hv]; rfl, fun v hv => ?_⟩
  obtain ⟨w, hw, hdw⟩ := hsome v hv
  exact ⟨w, hw, by rw [hdw]; rfl⟩

/-! ## Libraries that do what is assumed -/

theorem lookup_items (d : Dict Text Value) (k : Text) :
    Value.lookup (d.items.map fun e => (.str e.1, e.2)) k = d.get? k := by
  cases hd : d.get? k with
  | some v =>
      have hmem := Dict.mem_iff.mpr hd
      unfold Value.lookup
      cases hf : (d.items.map fun e => (Value.str e.1, e.2)).reverse.find? fun e => e.1.isStr k with
      | none =>
          refine absurd (decide_eq_true rfl) (List.find?_eq_none.mp hf (.str k, v) ?_)
          exact List.mem_reverse.mpr (List.mem_map.mpr ⟨(k, v), hmem, rfl⟩)
      | some e =>
          have hk := List.find?_some hf
          obtain ⟨⟨k', v'⟩, hm, rfl⟩ := List.mem_map.mp (List.mem_reverse.mp (List.mem_of_find?_eq_some hf))
          cases (of_decide_eq_true hk : k' = k)
          exact (Dict.mem_iff.mp hm).symm.trans hd
  | none =>
      rw [Value.lookup, List.find?_eq_none.mpr, Option.map_none]
      intro e he hk
      obtain ⟨⟨k', v'⟩, hm, rfl⟩ := List.mem_map.mp (List.mem_reverse.mp he)
      cases (of_decide_eq_true hk : k' = k)
      rw [Dict.mem_iff.mp hm] at hd
      cases hd

/-- The key of a box that is opened with it. -/
def keyed (key : Char) (ciphertext : Text) : Option Text :=
  match ciphertext with
  | c :: text => if c = key then some text else none
  | [] => none

/-- Files that are the values themselves, and boxes that show their key. -/
def Libraries.clear : Libraries Value Char where
  repr _ := []
  search _ _ := true
  load := some
  dump d := some (.map (d.items.map fun e => (.str e.1, e.2)))
  load_dump := by
    rintro d c h
    cases h
    exact ⟨_, rfl, lookup_items d⟩
  sealText key nonce text := some (nonce, key :: text)
  openEnvelope key _ ciphertext := keyed key ciphertext
  open_seal := by
    rintro key nonce text e h
    cases h
    exact if_pos rfl
  open_other := by
    rintro key key' nonce c text text' h h'
    cases c with
    | nil => cases h
    | cons c rest =>
        rw [keyed] at h h'
        split at h
        · split at h'
          · rename_i hk hk'
            exact hk.symm.trans hk'
          · cases h'
        · cases h

end InferenceDriver.Config

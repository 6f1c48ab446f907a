/-
# `Config.Patch` — what a patch sets, and what it leaves behind

The loop of a patch sets the keys that are known, valid and not managed,
each to its value or, for an unset one, to the default (`sets`).  Memory is
changed before the file is written, so a patch that raises has changed
memory whenever it got to set anything new: `patch_atomic` says exactly
when it has not.
-/
import InferenceDriver.Config.Reads

namespace InferenceDriver.Config

variable {C Key : Type} (L : Libraries C Key) (W : Words) (S : Schema)

/-- What a patch sets, up to a value that no `float` holds. -/
def sets (managed : List Text) : List (Text × Value) → List (Text × Value)
  | [] => []
  | (key, value) :: rest =>
      match S.byKey key with
      | none => sets managed rest
      | some field =>
          match validateValue W field value with
          | .error _ => []
          | .ok (some _) => sets managed rest
          | .ok none =>
              if key ∈ managed then sets managed rest
              else (key, orDefault field value) :: sets managed rest

/-- Set one after another. -/
def assign (d : Dict Text Value) (l : List (Text × Value)) : Dict Text Value :=
  l.foldl (fun d e => d.set e.1 e.2) d

variable {L W S}

theorem assign_get {l : List (Text × Value)} {k : Text} (hn : (l.map (·.1)).Nodup)
    (d : Dict Text Value) :
    (k ∉ l.map (·.1) → (assign d l).get? k = d.get? k) ∧
      ∀ v, (k, v) ∈ l → (assign d l).get? k = some v := by
  induction l generalizing d with
  | nil => exact ⟨fun _ => rfl, fun v hv => (by cases hv)⟩
  | cons e rest ih =>
      rw [List.map_cons, List.nodup_cons] at hn
      obtain ⟨hkeep, hset⟩ := ih hn.2 (d.set e.1 e.2)
      rw [assign, List.foldl_cons]
      refine ⟨fun hk => ?_, fun v hv => ?_⟩
      · rw [List.map_cons, List.mem_cons, not_or] at hk
        exact (hkeep hk.2).trans (Dict.get?_set_ne d e.2 hk.1)
      · rcases List.mem_cons.mp hv with rfl | hv
        · exact (hkeep hn.1).trans (Dict.get?_set_self d k v)
        · exact hset v hv

theorem sets_sublist (managed : List Text) (patch : List (Text × Value)) :
    ((sets W S managed patch).map (·.1)).Sublist (patch.map (·.1)) := by
  induction patch with
  | nil => exact .slnil
  | cons e rest ih =>
      obtain ⟨key, value⟩ := e
      rw [sets]
      split
      · exact ih.cons key
      · split
        · exact List.nil_sublist _
        · exact ih.cons key
        · split
          · exact ih.cons key
          · exact ih.cons_cons key

theorem sets_nodup (managed : List Text) (patch : Dict Text Value) :
    ((sets W S managed patch.items).map (·.1)).Nodup :=
  patch.nodup.sublist (sets_sublist managed patch.items)

/-- The loop sets what it says, in memory, whether it raises or not. -/
theorem onKeys_sets (managed : List Text) (started values : Dict Text Value)
    (result : ConfigUpdateResult) (patch : List (Text × Value)) :
    (onKeys L S managed started values result patch).1 =
        assign values (sets L.toWords S managed patch) ∧
      ∀ r, (onKeys L S managed started values result patch).2 = .ok r →
        r.applied = result.applied ++ (sets L.toWords S managed patch).map (·.1) := by
  induction patch generalizing values result with
  | nil => exact ⟨rfl, fun r hr => by cases hr; exact (List.append_nil _).symm⟩
  | cons e rest ih =>
      obtain ⟨key, value⟩ := e
      rw [onKeys, sets, onKey]
      cases S.byKey key with
      | none => exact ih values _
      | some field =>
          simp only
          cases validateValue L.toWords field value with
          | error o => exact ⟨rfl, fun r hr => (by cases hr)⟩
          | ok message =>
              cases message with
              | some message => exact ih values _
              | none =>
                  by_cases hm : key ∈ managed
                  · simp only [bind, Except.bind, pure, Except.pure, if_pos hm]
                    exact ih values _
                  · simp only [bind, Except.bind, pure, Except.pure, if_neg hm]
                    obtain ⟨hv, hr⟩ := ih (values.set key (orDefault field value)) {
                      applied := result.applied ++ [key], rejected := result.rejected
                      pendingRestart := result.pendingRestart ++
                        if field.requiresRestart && differs (values.set key (orDefault field value))
                          started key then [key] else [] }
                    refine ⟨hv, fun r h => ?_⟩
                    rw [hr r h, List.append_assoc, List.map_cons, List.singleton_append]

/-! ## What raises -/

theorem pendingRestart_congr {s s' : Store C} (hs : s'.started = s.started)
    (hv : ∀ k, s'.values.get? k = s.values.get? k) : s'.pendingRestart S = s.pendingRestart S := by
  unfold Store.pendingRestart differs
  rw [hs]
  simp only [hv]

/-- What a patch leaves when it raises: the memory it changed. -/
theorem applyPatch_error {key : Option Key} {managed : List Text} {nonces : Text → Text}
    {fails : Call → Bool} {s s' : Store C} {patch : Dict Text Value} {e : Failure}
    (h : applyPatch L S key managed nonces fails s patch = (s', .error e)) :
    s'.values = assign s.values (sets L.toWords S managed patch.items) ∧ s'.started = s.started ∧
      s'.file = s.file := by
  unfold applyPatch at h
  have hv := (onKeys_sets (L := L) (S := S) managed s.started s.values {} patch.items).1
  split at h
  · rename_i values ho
    rw [ho] at hv
    cases h
    exact ⟨hv, rfl, rfl⟩
  · rename_i values result ho
    rw [ho] at hv
    split at h
    · cases h
    · split at h
      · cases h
      · rename_i file e' hw
        cases h
        exact ⟨hv, rfl, writeLocked_error hw⟩

/-- **A patch that raises leaves everything as it was exactly when every key
it got to set already held that value**; the file it leaves alone in any
case. -/
theorem patch_atomic {key : Option Key} {managed : List Text} {nonces : Text → Text}
    {fails : Call → Bool} {s s' : Store C} {patch : Dict Text Value} {e : Failure}
    (h : applyPatch L S key managed nonces fails s patch = (s', .error e)) :
    s'.file = s.file ∧
      (((∀ k, s'.values.get? k = s.values.get? k) ∧ s'.pendingRestart S = s.pendingRestart S ∧
          s'.file = s.file) ↔
        ∀ set ∈ sets L.toWords S managed patch.items, s.values.get? set.1 = some set.2) := by
  obtain ⟨hv, hs, hf⟩ := applyPatch_error h
  have hn := sets_nodup (W := L.toWords) (S := S) managed patch
  refine ⟨hf, ?_, fun hset => ?_⟩
  · rintro ⟨hsame, -, -⟩ ⟨k, v⟩ hmem
    rw [← hsame k, hv]
    exact (assign_get hn s.values).2 v hmem
  · have hsame : ∀ k, s'.values.get? k = s.values.get? k := by
      intro k
      rw [hv]
      by_cases hk : k ∈ (sets L.toWords S managed patch.items).map (·.1)
      · obtain ⟨⟨k', v⟩, hmem, rfl⟩ := List.mem_map.mp hk
        rw [(assign_get hn s.values).2 v hmem, hset _ hmem]
      · exact (assign_get hn s.values).1 hk
    exact ⟨hsame, pendingRestart_congr hs hsame, hf⟩

/-- A patch of one key. -/
def onePatch (key : String) (value : Value) : Dict Text Value := Dict.empty.set key.toList value

/-- A patch of one key, the replacing of the file failing. -/
def failedPatch (key : String) (value : Value) : Store Value × Except Failure ConfigUpdateResult :=
  applyPatch Libraries.clear driverSchema none [] (fun _ => []) (fun call => call = .replace)
    (Store.new driverSchema none) (onePatch key value)

theorem patch_atomic_same :
    (failedPatch "logLevel" (.str "INFO".toList)).1.file = none ∧
      (failedPatch "logLevel" (.str "INFO".toList)).1.pendingRestart driverSchema =
        (Store.new (C := Value) driverSchema none).pendingRestart driverSchema := by
  have h : failedPatch "logLevel" (.str "INFO".toList) =
      ((failedPatch "logLevel" (.str "INFO".toList)).1, .error .disk) := rfl
  obtain ⟨hfile, hsame⟩ := patch_atomic h
  refine ⟨hfile, (hsame.mpr ?_).2.1⟩
  intro e he
  have hs : sets Libraries.clear.toWords driverSchema [] (onePatch "logLevel" (.str "INFO".toList)).items =
      [("logLevel".toList, .str "INFO".toList)] := rfl
  rw [hs, List.mem_singleton] at he
  rw [he]
  rfl

/-- The file could not be replaced, and memory holds the new model. -/
theorem patch_not_atomic :
    (failedPatch "modelId" (.str "m".toList)).2 = .error .disk ∧
      (failedPatch "modelId" (.str "m".toList)).1.values.get? "modelId".toList = some (.str "m".toList) ∧
      (Store.new (C := Value) driverSchema none).values.get? "modelId".toList = none :=
  ⟨rfl, rfl, rfl⟩

end InferenceDriver.Config

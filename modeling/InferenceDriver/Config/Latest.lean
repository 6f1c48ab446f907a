/-
# `Config.Latest` — patches and reloads: the last valid value wins

Runs of patches and reloads of one store, whose writes go through, beside
the model that keeps for every key its last valid value and the one of the
last load (`Latest`).  The two agree as long as no patch has a number that
no `float` holds: validation raises on it, with the keys before it changed
in memory and not in the file (`late_overflow`).
-/
import InferenceDriver.Config.Frame
import InferenceDriver.Lib.Lts

namespace InferenceDriver.Config

variable {C Key : Type} (L : Libraries C Key) (W : Words) (S : Schema)

/-! ## The model -/

/-- For every key its value, and the one it had at the last load. -/
structure Latest where
  current : Text → Value
  atLoad : Text → Value

/-- The value of a key that nothing set. -/
def unsetValue (k : Text) : Value := (S.byKey k).elim .null (·.default)

/-- One key of a patch: a valid value of a field that nobody manages
replaces what was there, an unset one by the default. -/
def replaceValue (managed : List Text) (current : Text → Value) (e : Text × Value) : Text → Value :=
  match S.byKey e.1 with
  | none => current
  | some field =>
      match validateValue W field e.2 with
      | .ok none =>
          if e.1 ∈ managed then current
          else Function.update current e.1 (if isUnset field e.2 then field.default else e.2)
      | _ => current

def Latest.patch (managed : List Text) (m : Latest) (patch : Dict Text Value) : Latest :=
  { m with current := patch.items.foldl (replaceValue W S managed) m.current }

def Latest.reload (m : Latest) : Latest := { m with atLoad := m.current }

/-! ## The runs -/

inductive Action where
  | patch (managed : List Text) (nonces : Text → Text) (patch : Dict Text Value)
  | reload (nonces : Text → Text)

/-- One action, the file system doing all it is asked; none where a value
could not be sealed or dumped. -/
def act? (key : Option Key) (p : Store C × Latest) : Action → Option (Store C × Latest)
  | .patch managed nonces patch =>
      match applyPatch L S key managed nonces (fun _ => false) p.1 patch with
      | (s, .ok _) => some (s, p.2.patch L.toWords S managed patch)
      | (s, .error .overflow) => some (s, p.2.patch L.toWords S managed patch)
      | (_, .error _) => none
  | .reload nonces =>
      match load L S key nonces (fun _ => false) p.1 with
      | (s, .ok ()) => some (s, p.2.reload)
      | (_, .error _) => none

/-- A store that starts with no file, and its model. -/
def config (key : Option Key) : Lts.System (Store C × Latest) Action where
  init p := p = (Store.new S none, ⟨unsetValue S, unsetValue S⟩)
  step := act? L S key

/-- No number of a patch is too large for a `float`. -/
def Measured (a : Action) : Prop :=
  match a with
  | .patch _ _ patch => ∀ k v f, patch.get? k = some v → S.byKey k = some f → measurable f v = true
  | .reload _ => True

/-- What holds between a store and its model. -/
structure Follows (key : Option Key) (s : Store C) (m : Latest) : Prop where
  current : ∀ f ∈ S.fields, s.get f.key = m.current f.key
  atLoad : ∀ f ∈ S.fields, (s.started.get? f.key).getD .null = m.atLoad f.key
  plain : ∀ f ∈ S.fields, isEnvelope (s.get f.key) = false ∧ orDefault f (s.get f.key) = s.get f.key
  saved : ∀ f ∈ S.fields, readBack L S key s.file f.key = some (s.get f.key)

variable {L W S}

/-! ## What is saved -/

theorem valid_plain {field : ConfigField} {value : Value} (h : validateValue W field value = .ok none) :
    isEnvelope value = false := by
  cases value with
  | map items =>
      unfold validateValue at h
      cases ht : field.valueType <;> rw [ht] at h <;> cases h
  | _ => rfl

/-- Validation raises on no other number. -/
theorem valid_measurable {field : ConfigField} {value : Value} (h : measurable field value = true) :
    ∃ message, validateValue W field value = .ok message := by
  unfold validateValue
  cases value with
  | int n =>
      cases ht : field.valueType with
      | number =>
          unfold measurable at h
          rw [ht] at h
          simp only at h ⊢
          rw [if_pos h]
          exact ⟨_, rfl⟩
      | duration =>
          unfold measurable at h
          rw [ht] at h
          simp only at h ⊢
          rw [if_pos h]
          exact ⟨_, rfl⟩
      | _ => exact ⟨_, rfl⟩
  | float x => cases x <;> cases field.valueType <;> exact ⟨_, rfl⟩
  | str s => cases field.valueType <;> cases field.pattern <;> exact ⟨_, rfl⟩
  | null => exact ⟨none, rfl⟩
  | _ => cases field.valueType <;> exact ⟨_, rfl⟩

/-- What is written with a key is read with it. -/
theorem readBack_same {key : Option Key} {nonces : Text → Text} {fails : Call → Bool}
    {values : Dict Text Value} {file file' : Option C}
    (h : writeLocked L S key nonces fails values file = (file', .ok ())) {f : ConfigField}
    (hf : S.byKey f.key = some f) (he : isEnvelope ((values.get? f.key).getD .null) = false)
    (hd : orDefault f ((values.get? f.key).getD .null) = (values.get? f.key).getD .null) :
    readBack L S key file' f.key = some ((values.get? f.key).getD .null) := by
  cases key with
  | some key =>
      rw [readBack_saved h hf, rewritten, if_neg fun hn => hn.2.1 rfl, reads, Option.elim_some,
        decrypt_plain _ he, hd]
  | none =>
      obtain ⟨hnone, hsome⟩ := readBack_written none h hf
      cases hv : values.get? f.key with
      | none =>
          rw [hv, Option.getD_none, orDefault_null] at hd
          rw [hnone hv, hd]
          rfl
      | some v =>
          obtain ⟨w, hw, hr⟩ := hsome v hv
          rw [hv, Option.getD_some] at he hd
          cases hw
          rw [hr, decrypt_plain _ he, hd]
          rfl

/-! ## A patch -/

/-- A value that counts is settled: reading it again changes nothing. -/
theorem settled {k : Text} {f : ConfigField} (hf : S.byKey k = some f) {value : Value}
    (h : isEnvelope value = false) :
    isEnvelope (orDefault f value) = false ∧ orDefault f (orDefault f value) = orDefault f value :=
  ⟨orDefault_plain hf h, orDefault_idem hf value⟩

/-- A measured patch sets in memory what it replaces in the model. -/
theorem sets_replace (managed : List Text) {patch : List (Text × Value)}
    (hm : ∀ e ∈ patch, ∀ f, S.byKey e.1 = some f → measurable f e.2 = true) {d : Dict Text Value}
    {current : Text → Value} {k : Text} (h : (d.get? k).getD .null = current k) :
    ((assign d (sets W S managed patch)).get? k).getD .null =
      patch.foldl (replaceValue W S managed) current k := by
  induction patch generalizing d current with
  | nil => exact h
  | cons e rest ih =>
      obtain ⟨key, value⟩ := e
      have hrest : ∀ e ∈ rest, ∀ f, S.byKey e.1 = some f → measurable f e.2 = true :=
        fun e he => hm e (List.mem_cons_of_mem _ he)
      rw [sets, List.foldl_cons, replaceValue]
      cases hb : S.byKey key with
      | none => exact ih hrest h
      | some field =>
          simp only
          cases hv : validateValue W field value with
          | error o =>
              obtain ⟨message, hok⟩ := valid_measurable (W := W) (hm (key, value) List.mem_cons_self field hb)
              rw [hv] at hok
              cases hok
          | ok message =>
              cases message with
              | some message => exact ih hrest h
              | none =>
                  by_cases hmem : key ∈ managed
                  · simp only [if_pos hmem]
                    exact ih hrest h
                  · simp only [if_neg hmem]
                    refine ih hrest ?_
                    by_cases hk : k = key
                    · rw [hk, Dict.get?_set_self, Function.update_self]
                      rfl
                    · rw [Dict.get?_set_ne _ _ hk, Function.update_of_ne hk]
                      exact h

/-- What a patch sets is settled. -/
theorem sets_settled (managed : List Text) (patch : List (Text × Value)) :
    ∀ e ∈ sets W S managed patch, ∃ f value, S.byKey e.1 = some f ∧ isEnvelope value = false ∧
      e.2 = orDefault f value := by
  induction patch with
  | nil => exact fun e he => by cases he
  | cons e rest ih =>
      obtain ⟨key, value⟩ := e
      rw [sets]
      cases hb : S.byKey key with
      | none => exact ih
      | some field =>
          simp only
          cases hv : validateValue W field value with
          | error o => exact fun e he => by cases he
          | ok message =>
              cases message with
              | some message => exact ih
              | none =>
                  simp only
                  split
                  · exact ih
                  · intro e he
                    rcases List.mem_cons.mp he with rfl | he
                    · exact ⟨field, value, hb, valid_plain hv, rfl⟩
                    · exact ih e he

/-- After a patch each field still has a settled value. -/
theorem assign_settled (managed : List Text) (patch : Dict Text Value) {d : Dict Text Value}
    {f : ConfigField} (hf : S.byKey f.key = some f)
    (h : isEnvelope ((d.get? f.key).getD .null) = false ∧
      orDefault f ((d.get? f.key).getD .null) = (d.get? f.key).getD .null) :
    isEnvelope (((assign d (sets W S managed patch.items)).get? f.key).getD .null) = false ∧
      orDefault f (((assign d (sets W S managed patch.items)).get? f.key).getD .null) =
        ((assign d (sets W S managed patch.items)).get? f.key).getD .null := by
  obtain ⟨hkeep, hset⟩ := assign_get (k := f.key) (sets_nodup (W := W) (S := S) managed patch) d
  by_cases hk : f.key ∈ (sets W S managed patch.items).map (·.1)
  · obtain ⟨⟨k, v⟩, hmem, hk⟩ := List.mem_map.mp hk
    obtain ⟨g, value, hb, hp, hv⟩ := sets_settled managed patch.items _ hmem
    simp only at hk hb hv
    rw [hk, hf, Option.some.injEq] at hb
    rw [hset v (by rw [← hk]; exact hmem), Option.getD_some, hv, ← hb]
    exact settled hf hp
  · rw [hkeep hk]
    exact h

theorem onKeys_measured (managed : List Text) (started values : Dict Text Value)
    (result : ConfigUpdateResult) {patch : List (Text × Value)}
    (hm : ∀ e ∈ patch, ∀ f, S.byKey e.1 = some f → measurable f e.2 = true) :
    ∃ r, (onKeys L S managed started values result patch).2 = .ok r := by
  induction patch generalizing values result with
  | nil => exact ⟨result, rfl⟩
  | cons e rest ih =>
      obtain ⟨key, value⟩ := e
      have hrest : ∀ e ∈ rest, ∀ f, S.byKey e.1 = some f → measurable f e.2 = true :=
        fun e he => hm e (List.mem_cons_of_mem _ he)
      rw [onKeys, onKey]
      cases hb : S.byKey key with
      | none => exact ih _ _ hrest
      | some field =>
          obtain ⟨message, hv⟩ :=
            valid_measurable (W := L.toWords) (hm (key, value) List.mem_cons_self field hb)
          simp only [hv, bind, Except.bind, pure, Except.pure]
          cases message with
          | some message => exact ih _ _ hrest
          | none =>
              by_cases hmem : key ∈ managed
              · simp only [if_pos hmem]
                exact ih _ _ hrest
              · simp only [if_neg hmem]
                exact ih _ _ hrest

/-- A write does not raise what validation raises. -/
theorem writeLocked_overflow {key : Option Key} {nonces : Text → Text} {fails : Call → Bool}
    {values : Dict Text Value} {file file' : Option C} :
    writeLocked L S key nonces fails values file ≠ (file', .error .overflow) := by
  intro h
  unfold writeLocked at h
  split at h
  · cases h
  · split at h
    · cases h
    · simp only at h
      split at h <;> cases h

/-! ## The run -/

theorem follows_start (key : Option Key) :
    Follows L S key (Store.new S none : Store C) ⟨unsetValue S, unsetValue S⟩ := by
  have hget : ∀ f ∈ S.fields, ((defaults S).get? f.key).getD .null = f.default :=
    fun f hf => defaults_getD (byKey_key hf)
  have hunset : ∀ f ∈ S.fields, unsetValue S f.key = f.default := by
    intro f hf
    rw [unsetValue, byKey_key hf]
    rfl
  refine ⟨fun f hf => ?_, fun f hf => ?_, fun f hf => ?_, fun f hf => ?_⟩
  · exact (hget f hf).trans (hunset f hf).symm
  · exact (hget f hf).trans (hunset f hf).symm
  · rw [Store.get, Store.new, hget f hf]
    exact default_plain (byKey_key hf)
  · rw [Store.get, Store.new, hget f hf]
    exact readBack_eq itemsIn_none (byKey_key hf)

/-- A reload reads what memory has. -/
theorem follows_reload {key : Option Key} {nonces : Text → Text} {fails : Call → Bool} {s s' : Store C}
    {m : Latest} (h : Follows L S key s m) (hl : load L S key nonces fails s = (s', .ok ())) :
    Follows L S key s' m.reload ∧ ∀ f ∈ S.fields, s'.get f.key = s.get f.key := by
  have hsame : ∀ f ∈ S.fields, s'.get f.key = s.get f.key ∧
      readBack L S key s'.file f.key = some (s.get f.key) := by
    intro f hf
    have hb := byKey_key hf
    have hsaved := h.saved f hf
    rcases load_ok hl with ⟨items, hi, hfile, hv, -⟩ | ⟨hfile, hv, -, hw⟩
    · rw [readBack_eq hi hb, Option.some.injEq] at hsaved
      rw [hfile, Store.get, hv, loaded_get key items hb]
      exact ⟨hsaved, h.saved f hf⟩
    · have hd : s.get f.key = f.default := by
        rw [hfile, readBack_eq itemsIn_none hb, Option.some.injEq] at hsaved
        exact hsaved.symm
      have hp := default_plain hb
      have hback := readBack_same hw hb
      rw [defaults_getD hb] at hback
      rw [Store.get, hv, defaults_getD hb, hd]
      exact ⟨rfl, hback hp.1 hp.2⟩
  have hstarted : s'.started = s'.values := by
    rcases load_ok hl with ⟨-, -, -, -, hs⟩ | ⟨-, -, hs, -⟩
    · exact hs
    · exact hs
  refine ⟨⟨fun f hf => ?_, fun f hf => ?_, fun f hf => ?_, fun f hf => ?_⟩, fun f hf => (hsame f hf).1⟩
  · exact (hsame f hf).1.trans (h.current f hf)
  · rw [hstarted]
    exact (hsame f hf).1.trans (h.current f hf)
  · rw [(hsame f hf).1]
    exact h.plain f hf
  · rw [(hsame f hf).1]
    exact (hsame f hf).2

/-- A patch that is accepted sets the same in both. -/
theorem follows_patch {key : Option Key} {managed : List Text} {nonces : Text → Text}
    {fails : Call → Bool} {s s' : Store C} {m : Latest} {patch : Dict Text Value}
    {result : ConfigUpdateResult} (h : Follows L S key s m)
    (hm : ∀ k v f, patch.get? k = some v → S.byKey k = some f → measurable f v = true)
    (hp : applyPatch L S key managed nonces fails s patch = (s', .ok result)) :
    Follows L S key s' (m.patch L.toWords S managed patch) := by
  obtain ⟨hv, hs, hw⟩ := applyPatch_ok hp
  have hcurrent : ∀ f ∈ S.fields,
      s'.get f.key = (m.patch L.toWords S managed patch).current f.key := by
    intro f hf
    rw [Store.get, hv]
    refine sets_replace managed (fun e he g hg => hm e.1 e.2 g (Dict.mem_iff.mp he) hg) ?_
    exact h.current f hf
  have hplain : ∀ f ∈ S.fields,
      isEnvelope (s'.get f.key) = false ∧ orDefault f (s'.get f.key) = s'.get f.key := by
    intro f hf
    rw [Store.get, hv]
    exact assign_settled managed patch (byKey_key hf) (h.plain f hf)
  refine ⟨hcurrent, fun f hf => ?_, hplain, fun f hf => ?_⟩
  · rw [hs]
    exact h.atLoad f hf
  · split at hw
    · rename_i hnil
      rw [hnil] at hv
      rw [hw, Store.get, hv]
      exact h.saved f hf
    · exact readBack_same hw (byKey_key hf) (hplain f hf).1 (hplain f hf).2

/-- A reload that raises changes no value either. -/
theorem reload_failed {key : Option Key} {nonces : Text → Text} {fails : Call → Bool} {s s' : Store C}
    {m : Latest} {e : Failure} (h : Follows L S key s m)
    (hl : load L S key nonces fails s = (s', .error e)) : ∀ f ∈ S.fields, s'.get f.key = s.get f.key := by
  intro f hf
  have hsaved := h.saved f hf
  unfold load at hl
  split at hl
  · split at hl
    · cases hl
      rfl
    · cases hl
  · rename_i hfile
    simp only at hl
    split at hl
    · cases hl
    · cases hl
      rw [hfile, readBack_eq itemsIn_none (byKey_key hf), Option.some.injEq] at hsaved
      rw [Store.get, defaults_getD (byKey_key hf), ← hsaved]
      rfl

/-- A measured patch raises nothing but what writing raises. -/
theorem no_overflow {key : Option Key} {managed : List Text} {nonces : Text → Text}
    {fails : Call → Bool} {s s' : Store C} {patch : Dict Text Value}
    (hm : ∀ k v f, patch.get? k = some v → S.byKey k = some f → measurable f v = true) :
    applyPatch L S key managed nonces fails s patch ≠ (s', .error .overflow) := by
  intro h
  unfold applyPatch at h
  have hm' : ∀ e ∈ patch.items, ∀ f, S.byKey e.1 = some f → measurable f e.2 = true :=
    fun e he f hf => hm e.1 e.2 f (Dict.mem_iff.mp he) hf
  obtain ⟨r, hr⟩ := onKeys_measured (L := L) managed s.started s.values {} hm'
  split at h
  · rename_i values ho
    rw [ho] at hr
    cases hr
  · split at h
    · cases h
    · split at h
      · cases h
      · rename_i e hw
        cases h
        exact writeLocked_overflow hw

/-- A step of the run keeps store and model together. -/
theorem follows_step {key : Option Key} {p p' : Store C × Latest} {a : Action}
    (h : Follows L S key p.1 p.2) (hm : Measured S a) (ha : act? L S key p a = some p') :
    Follows L S key p'.1 p'.2 := by
  cases a with
  | patch managed nonces patch =>
      cases hp : applyPatch L S key managed nonces (fun _ => false) p.1 patch with
      | mk s r =>
          rw [act?, hp] at ha
          cases r with
          | ok result =>
              cases ha
              exact follows_patch h hm hp
          | error e =>
              cases e with
              | overflow => exact absurd hp (no_overflow hm)
              | unreadable => cases ha
              | unwritable => cases ha
              | disk => cases ha
  | reload nonces =>
      cases hl : load L S key nonces (fun _ => false) p.1 with
      | mk s r =>
          rw [act?, hl] at ha
          cases r with
          | ok u =>
              cases ha
              exact (follows_reload h hl).1
          | error e => cases ha

/-! ## What waits for a restart -/

theorem foldl_set (value : Text → Value) (fs : List ConfigField) (d : Dict Text Value) (k : Text) :
    (fs.foldl (fun d f => d.set f.key (value f.key)) d).get? k =
      if fs.any (fun f => f.key = k) then some (value k) else d.get? k := by
  induction fs generalizing d with
  | nil => rfl
  | cons f rest ih =>
      rw [List.foldl_cons, ih, List.any_cons]
      cases rest.any fun f => f.key = k with
      | true => rw [Bool.or_true]; rfl
      | false =>
          by_cases hk : f.key = k
          · rw [← hk, Dict.get?_set_self, decide_eq_true rfl]
            rfl
          · rw [Dict.get?_set_ne _ _ (Ne.symm hk), decide_eq_false hk]
            rfl

theorem pendingRestart_get (s : Store C) (k : Text) : (s.pendingRestart S).get? k =
    (S.byKey k).bind fun f =>
      if f.requiresRestart && differs s.values s.started k then some ((s.started.get? k).getD .null)
      else none := by
  rw [Store.pendingRestart, foldl_set (fun k => (s.started.get? k).getD .null), List.any_filter]
  cases hb : S.byKey k with
  | none =>
      rw [if_neg]
      · rfl
      · intro h
        obtain ⟨f, hf, hk⟩ := List.any_eq_true.mp h
        rw [Bool.and_eq_true, decide_eq_true_eq] at hk
        rw [← hk.2, byKey_key hf] at hb
        cases hb
  | some f =>
      obtain ⟨hf, hk⟩ := byKey_eq_some hb
      rw [Option.bind_some]
      cases hd : f.requiresRestart && differs s.values s.started k with
      | true =>
          rw [if_pos rfl, if_pos]
          refine List.any_eq_true.mpr ⟨f, hf, ?_⟩
          rw [hk, hd, decide_eq_true rfl]
          rfl
      | false =>
          rw [if_neg Bool.false_ne_true, if_neg]
          · rfl
          · intro h
            obtain ⟨g, hg, hk'⟩ := List.any_eq_true.mp h
            rw [Bool.and_eq_true, decide_eq_true_eq] at hk'
            have hfg := byKey_key hg
            rw [hk'.2, hb, Option.some.injEq] at hfg
            rw [hk'.2, ← hfg, hd] at hk'
            cases hk'.1

/-- **While no number is too large for a `float`, the last valid value
wins**: memory is the model's, a reload changes no value, and what waits for
a restart are the restart keys that differ from the last load. -/
theorem latest_wins {key : Option Key} {s : Store C} {m : Latest}
    (h : Lts.Run (config L S key) (fun _ a => Measured S a) (s, m)) :
    (∀ f ∈ S.fields, s.get f.key = m.current f.key) ∧
      (∀ nonces fails s' r, load L S key nonces fails s = (s', r) →
        ∀ f ∈ S.fields, s'.get f.key = s.get f.key) ∧
      ∀ k, (s.pendingRestart S).get? k = (S.byKey k).bind fun f =>
        if f.requiresRestart && !(m.current k).eq (m.atLoad k) then some (m.atLoad k) else none := by
  have hf : Follows L S key s m := by
    refine Lts.Run.invariant (I := fun p => Follows L S key p.1 p.2) ?_ ?_ h
    · rintro p rfl
      exact follows_start key
    · exact fun p a p' hi hok hs => follows_step hi hok hs
  refine ⟨hf.current, fun nonces fails s' r hl f hmem => ?_, fun k => ?_⟩
  · cases r with
    | ok u => exact (follows_reload hf hl).2 f hmem
    | error e => exact reload_failed hf hl f hmem
  · rw [pendingRestart_get]
    cases hb : S.byKey k with
    | none => rfl
    | some f =>
        obtain ⟨hmem, hk⟩ := byKey_eq_some hb
        have hc := hf.current f hmem
        have ha := hf.atLoad f hmem
        rw [hk] at hc ha
        rw [Option.bind_some, Option.bind_some, differs, ha, ← hc]
        rfl

/-- A run from no file, with boxes that show their key. -/
def ran (actions : List Action) : Option (Store Value × Latest) :=
  actions.foldlM (act? Libraries.clear driverSchema none)
    (Store.new driverSchema none, ⟨unsetValue driverSchema, unsetValue driverSchema⟩)

/-- A patch of the model. -/
def setModel : Action := .patch [] (fun _ => []) (onePatch "modelId" (.str "m".toList))

theorem setModel_measured : Measured driverSchema setModel := by
  intro k v f hk _
  by_cases hm : k = "modelId".toList
  · rw [hm, onePatch, Dict.get?_set_self, Option.some.injEq] at hk
    rw [← hk]
    unfold measurable
    cases f.valueType <;> rfl
  · rw [onePatch, Dict.get?_set_ne _ _ hm] at hk
    cases hk

theorem latest_wins_model :
    ∃ p, ran [setModel] = some p ∧ ∀ f ∈ driverSchema.fields, p.1.get f.key = p.2.current f.key := by
  have h : (ran [setModel]).isSome = true := by decide
  obtain ⟨⟨s, m⟩, hp⟩ := Option.isSome_iff_exists.mp h
  refine ⟨(s, m), hp, ?_⟩
  rw [ran, List.foldlM_cons] at hp
  obtain ⟨p', hp', hnil⟩ := Option.bind_eq_some_iff.mp hp
  cases hnil
  have hrun : Lts.Run (config Libraries.clear driverSchema none) (fun _ a => Measured driverSchema a) (s, m) :=
    .next (.start rfl) setModel_measured hp'
  exact (latest_wins hrun).1

/-- A patch with a number that no `float` holds, then a reload. -/
def lateOverflow : List Action :=
  [.patch [] (fun _ => [])
      ((onePatch "modelId" (.str "m".toList)).set "streamStallSeconds".toList (.int (10 ^ 400))),
    .reload fun _ => []]

/-- The model that was set last is not there. -/
theorem late_overflow :
    ∃ p, Lts.Reach (config Libraries.clear driverSchema none) p ∧
      (p.1.get "modelId".toList).isNull = true ∧ (p.2.current "modelId".toList).isStr "m".toList = true := by
  have h : (ran lateOverflow).any (fun p => (p.1.get "modelId".toList).isNull &&
      (p.2.current "modelId".toList).isStr "m".toList) = true := by decide +kernel
  obtain ⟨p, hp, hb⟩ := (Option.any_eq_true _ _).mp h
  rw [Bool.and_eq_true] at hb
  have hstart : Lts.Reach (config Libraries.clear driverSchema none) (Store.new driverSchema none, _) :=
    .start rfl
  exact ⟨p, hstart.foldlM hp, hb⟩

end InferenceDriver.Config

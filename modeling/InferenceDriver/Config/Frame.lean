/-
# `Config.Frame` — what becomes of the keys a patch does not name

A patch writes the whole file from memory, and memory has less than the
file: a box the store could not open, and in safe mode the whole file, are
defaults in it.  `patch_frame` says which keys a later load with the right
key still reads as before.
-/
import InferenceDriver.Config.Patch

namespace InferenceDriver.Config

variable {C Key : Type} (L : Libraries C Key) (S : Schema)

/-- The start of `_lifespan`: safe mode does not look at the file. -/
def boot (safe : Bool) (key : Option Key) (nonces : Text → Text) (fails : Call → Bool)
    (file : Option C) : Store C × Except Failure Unit :=
  if safe then (Store.new S file, .ok ()) else load L S key nonces fails (Store.new S file)

/-- The text in an envelope, if the key opens it. -/
def opened (key : Key) (value : Value) : Option Text :=
  match decryptLoaded L (some key) value with
  | .str text => if isEnvelope value then some text else none
  | _ => none

/-- Text of a secret that is there to be sealed. -/
def sealable (field : ConfigField) (value : Value) : Bool :=
  match value with
  | .str text => field.sensitive && strip text ≠ []
  | _ => false

/-- What the file holds for a key is not lost to a store that was started
with another key than the right one. -/
def Survives (key : Option Key) (right : Key) (field : ConfigField) (value : Value) : Prop :=
  if isEnvelope value then
    match opened L right value with
    | some text => orDefault field (.str text) = field.default
    | none =>
        ∀ k text, key = some k → opened L k value = some text →
          field.sensitive = true ∨ orDefault field (.str text) = field.default
  else key = none ∨ sealable field value = false

/-- When a patch right after the start keeps the meaning of a key that it
does not name. -/
def Kept (safe : Bool) (key : Option Key) (right : Key) (field : ConfigField) (file : Option C) : Prop :=
  if safe then readBack L S (some right) file field.key = some field.default
  else key = some right ∨ ∀ items value, itemsIn L file = some items →
    Value.lookup items field.key = some value → Survives L key right field value

/-- Whether a value would be sealed with another key than the right one. -/
def Foreign (key : Option Key) (right : Key) (field : ConfigField) (value : Value) : Prop :=
  key ≠ none ∧ key ≠ some right ∧ toSeal (some field) value ≠ none

open Classical in
/-- What the right key reads of a value of memory, once it is written. -/
noncomputable def rewritten (key : Option Key) (right : Key) (field : ConfigField) (value : Value) : Value :=
  if Foreign key right field value then field.default else reads L (some right) field (some value)

/-- What memory has for a field, written, is read as what the file holds. -/
def Stays (key : Option Key) (right : Key) (field : ConfigField) (s : Store C) : Prop :=
  readBack L S (some right) s.file field.key = some (rewritten L key right field (s.get field.key))

variable {L S}

/-! ## Opening -/

theorem decrypt_plain (key : Option Key) {value : Value} (h : isEnvelope value = false) :
    decryptLoaded L key value = value := by
  unfold decryptLoaded
  split
  · rw [h, if_neg Bool.false_ne_true]
  · rfl

/-- An envelope is a box with a nonce, or nothing opens it. -/
theorem envelope_box (L : Libraries C Key) {value : Value} (h : isEnvelope value = true) :
    (∃ nonce ciphertext, ∀ key : Option Key, decryptLoaded L key value =
        (key.bind fun key => L.openEnvelope key nonce ciphertext).elim .null .str) ∨
      ∀ key : Option Key, decryptLoaded L key value = .null := by
  cases value with
  | map items =>
      unfold decryptLoaded
      simp only [if_pos h]
      cases hn : Value.lookup items "nonce".toList with
      | none => exact Or.inr fun key => by cases key <;> rfl
      | some n =>
          cases hc : Value.lookup items "ciphertext".toList with
          | none => exact Or.inr fun key => by cases key <;> cases n <;> rfl
          | some c =>
              cases n with
              | str nonce =>
                  cases c with
                  | str ciphertext => exact Or.inl ⟨nonce, ciphertext, fun key => by cases key <;> rfl⟩
                  | _ => exact Or.inr fun key => by cases key <;> rfl
              | _ => exact Or.inr fun key => by cases key <;> rfl
  | _ => cases h

theorem decrypt_none {value : Value} (h : isEnvelope value = true) :
    decryptLoaded L (none : Option Key) value = .null := by
  rcases envelope_box L h with ⟨nonce, ciphertext, hk⟩ | hk
  · exact hk none
  · exact hk none

/-- Of an envelope a key makes its text, or nothing. -/
theorem decrypt_some (key : Key) {value : Value} (h : isEnvelope value = true) :
    decryptLoaded L (some key) value = (opened L key value).elim .null .str := by
  unfold opened
  rcases envelope_box L h with ⟨nonce, ciphertext, hk⟩ | hk
  · rw [hk, Option.bind_some]
    cases L.openEnvelope key nonce ciphertext with
    | none => rfl
    | some text =>
        simp only [Option.elim_some, if_pos h]
  · rw [hk]
    rfl

/-- Two keys that open one envelope are the same. -/
theorem opened_unique {k k' : Key} {value : Value} {t t' : Text} (h : opened L k value = some t)
    (h' : opened L k' value = some t') : k = k' := by
  by_cases he : isEnvelope value = true
  · have hd := decrypt_some (L := L) k he
    have hd' := decrypt_some (L := L) k' he
    rw [h] at hd
    rw [h'] at hd'
    rcases envelope_box L he with ⟨nonce, ciphertext, hk⟩ | hk
    · rw [hk, Option.bind_some] at hd hd'
      cases ho : L.openEnvelope k nonce ciphertext with
      | none => rw [ho] at hd; cases hd
      | some text =>
          cases ho' : L.openEnvelope k' nonce ciphertext with
          | none => rw [ho'] at hd'; cases hd'
          | some text' => exact L.open_other ho ho'
    · rw [hk] at hd
      cases hd
  · unfold opened at h
    split at h
    · rw [if_neg he] at h
      cases h
    · cases h

theorem decrypt_envelope (key : Key) (e : Text × Text) :
    decryptLoaded L (some key) (envelope e) = (L.openEnvelope key e.1 e.2).elim .null .str := rfl

/-! ## What is sealed -/

theorem toSeal_eq {field : ConfigField} {value : Value} {text : Text}
    (h : toSeal (some field) value = some text) : value = .str text ∧ field.sensitive = true ∧ text ≠ [] := by
  unfold toSeal at h
  split at h
  · rename_i f c cs hf
    cases hf
    split at h
    · rename_i hs
      cases h
      exact ⟨rfl, hs, List.cons_ne_nil c cs⟩
    · cases h
  · cases h

theorem toSeal_str {field : ConfigField} {text : Text} (hs : field.sensitive = true) (ht : text ≠ []) :
    toSeal (some field) (.str text) = some text := by
  cases text with
  | nil => exact absurd rfl ht
  | cons c cs => exact if_pos hs

theorem toSeal_default {k : Text} {f : ConfigField} (hf : S.byKey k = some f) :
    toSeal (some f) f.default = none := by
  cases h : toSeal (some f) f.default with
  | none => rfl
  | some text =>
      obtain ⟨hd, hs, -⟩ := toSeal_eq h
      rw [(sealed_plain hf hs).2] at hd
      cases hd

theorem orDefault_null (field : ConfigField) : orDefault field .null = field.default := rfl

theorem orDefault_idem {k : Text} {f : ConfigField} (hf : S.byKey k = some f) (value : Value) :
    orDefault f (orDefault f value) = orDefault f value := by
  cases hu : isUnset f value with
  | true =>
      rw [show orDefault f value = f.default from if_pos hu]
      exact (default_plain hf).2
  | false =>
      rw [show orDefault f value = value from if_neg (by rw [hu]; exact Bool.false_ne_true)]
      exact if_neg (by rw [hu]; exact Bool.false_ne_true)

/-- What counts as a value of a field is no envelope if the value is none. -/
theorem orDefault_plain {k : Text} {f : ConfigField} (hf : S.byKey k = some f) {value : Value}
    (h : isEnvelope value = false) : isEnvelope (orDefault f value) = false := by
  unfold orDefault
  split
  · exact (default_plain hf).1
  · exact h

/-- Of a value that is sealed or written as it is, its meaning is read back. -/
theorem rewritten_plain {key : Option Key} {right : Key} {k : Text} {f : ConfigField}
    (hf : S.byKey k = some f) {value : Value} (h : isEnvelope value = false)
    (hn : ¬ Foreign key right f (orDefault f value)) :
    rewritten L key right f (orDefault f value) = orDefault f value := by
  rw [rewritten, if_neg hn, reads, Option.elim_some, decrypt_plain _ (orDefault_plain hf h),
    orDefault_idem hf]

theorem rewritten_default {key : Option Key} {right : Key} {k : Text} {f : ConfigField}
    (hf : S.byKey k = some f) : rewritten L key right f f.default = f.default :=
  rewritten_plain hf (show isEnvelope .null = false from rfl) fun hn => hn.2.2 (toSeal_default hf)

/-- **What a write leaves for a key of the schema.** -/
theorem readBack_saved {key : Option Key} {right : Key} {nonces : Text → Text} {fails : Call → Bool}
    {values : Dict Text Value} {file file' : Option C}
    (h : writeLocked L S key nonces fails values file = (file', .ok ())) {k : Text} {f : ConfigField}
    (hf : S.byKey k = some f) :
    readBack L S (some right) file' k =
      some (rewritten L key right f ((values.get? k).getD .null)) := by
  obtain ⟨hnone, hsome⟩ := readBack_written (some right) h hf
  cases hv : values.get? k with
  | none =>
      rw [hnone hv, Option.getD_none, rewritten, if_neg fun hn => hn.2.2 rfl]
      rfl
  | some v =>
      obtain ⟨w, hw, hr⟩ := hsome v hv
      rw [hr, Option.getD_some, rewritten]
      unfold onDisk at hw
      rw [hf] at hw
      cases key with
      | none =>
          cases hw
          rw [if_neg fun hn => hn.1 rfl]
          rfl
      | some key =>
          cases ht : toSeal (some f) v with
          | none =>
              rw [ht] at hw
              cases hw
              rw [if_neg fun hn => hn.2.2 ht]
              rfl
          | some text =>
              rw [ht] at hw
              obtain ⟨e, he, rfl⟩ := Option.map_eq_some_iff.mp hw
              have ho := L.open_seal he
              rw [decrypt_envelope]
              by_cases hk : key = right
              · rw [if_neg fun hn => hn.2.1 (congrArg some hk), ← hk, ho, Option.elim_some,
                  (toSeal_eq ht).1]
                rfl
              · rw [if_pos ⟨Option.some_ne_none key, fun hn => hk (Option.some.inj hn), by
                  rw [ht]; exact Option.some_ne_none text⟩]
                cases ho' : L.openEnvelope right e.1 e.2 with
                | none => rfl
                | some text' => exact absurd (L.open_other ho ho') hk

/-! ## After the start -/

/-- A secret is sealed when it is more than blanks. -/
theorem sealable_iff {k : Text} {f : ConfigField} (hf : S.byKey k = some f) (value : Value) :
    toSeal (some f) (orDefault f value) ≠ none ↔ sealable f value = true := by
  constructor
  · intro h
    obtain ⟨text, ht⟩ := Option.ne_none_iff_exists'.mp h
    obtain ⟨hd, hs, hne⟩ := toSeal_eq ht
    obtain ⟨hsecret, hnull⟩ := sealed_plain hf hs
    unfold orDefault at hd
    split at hd
    · rw [hnull] at hd
      cases hd
    · rename_i hu
      rw [hd, isUnset, hsecret, decide_eq_true rfl, Bool.true_and, decide_eq_true_eq] at hu
      rw [hd, sealable, hs, Bool.true_and]
      exact decide_eq_true hu
  · intro h
    cases value with
    | str text =>
        rw [sealable, Bool.and_eq_true, decide_eq_true_eq] at h
        have hu : isUnset f (.str text) = false := by
          rw [isUnset, decide_eq_false h.2, Bool.and_false]
        have hne : text ≠ [] := by
          rintro rfl
          exact h.2 rfl
        rw [orDefault, if_neg (by rw [hu]; exact Bool.false_ne_true), toSeal_str h.1 hne]
        exact Option.some_ne_none text
    | _ => cases h

/-- A value that is no envelope is lost only by being sealed with a wrong key. -/
theorem survives_plain {key : Option Key} {right : Key} {k : Text} {f : ConfigField}
    (hf : S.byKey k = some f) {value : Value} (h : isEnvelope value = false) :
    reads L (some right) f (some value) = rewritten L key right f (reads L key f (some value)) ↔
      key = some right ∨ key = none ∨ sealable f value = false := by
  rw [reads, reads, Option.elim_some, Option.elim_some, decrypt_plain _ h, decrypt_plain _ h]
  by_cases hn : Foreign key right f (orDefault f value)
  · rw [rewritten, if_pos hn]
    obtain ⟨text, ht⟩ := Option.ne_none_iff_exists'.mp hn.2.2
    refine ⟨fun heq => ?_, fun hk => ?_⟩
    · rw [heq, toSeal_default hf] at ht
      cases ht
    · rcases hk with hk | hk | hk
      · exact absurd hk hn.2.1
      · exact absurd hk hn.1
      · rw [(sealable_iff hf value).mp hn.2.2] at hk
        cases hk
  · refine ⟨fun _ => ?_, fun _ => (rewritten_plain hf h hn).symm⟩
    by_cases hr : key = some right
    · exact Or.inl hr
    · by_cases h0 : key = none
      · exact Or.inr (Or.inl h0)
      · refine Or.inr (Or.inr (Bool.eq_false_iff.mpr fun hs => hn ⟨h0, hr, ?_⟩))
        exact (sealable_iff hf value).mpr hs

/-- What a load makes of an envelope. -/
theorem reads_envelope (key : Key) (f : ConfigField) {value : Value} (h : isEnvelope value = true) :
    reads L (some key) f (some value) = (opened L key value).elim f.default fun t => orDefault f (.str t) := by
  rw [reads, Option.elim_some, decrypt_some key h]
  cases opened L key value <;> rfl

/-- An envelope is lost when it was not opened and would have been, and when
it is sealed no longer. -/
theorem survives_envelope {key : Option Key} {right : Key} {k : Text} {f : ConfigField}
    (hf : S.byKey k = some f) {value : Value} (h : isEnvelope value = true) :
    reads L (some right) f (some value) = rewritten L key right f (reads L key f (some value)) ↔
      key = some right ∨
        match opened L right value with
        | some text => orDefault f (.str text) = f.default
        | none => ∀ k text, key = some k → opened L k value = some text →
            f.sensitive = true ∨ orDefault f (.str text) = f.default := by
  rw [reads_envelope right f h]
  cases key with
  | none =>
      rw [reads, Option.elim_some, decrypt_none h, orDefault_null, rewritten_default hf]
      cases opened L right value with
      | none => exact ⟨fun _ => Or.inr fun k text hk _ => absurd hk.symm (Option.some_ne_none k), fun _ => rfl⟩
      | some text => exact ⟨Or.inr, fun hk => hk.resolve_left fun he => Option.some_ne_none right he.symm⟩
  | some key =>
      rw [reads_envelope key f h]
      by_cases hk : key = right
      · subst hk
        refine ⟨fun _ => Or.inl rfl, fun _ => ?_⟩
        cases opened L key value with
        | none => exact (rewritten_default hf).symm
        | some text => exact (rewritten_plain hf rfl fun hn => hn.2.1 rfl).symm
      · cases ho : opened L right value with
        | some text =>
            have hnone : opened L key value = none := by
              cases ho' : opened L key value with
              | none => rfl
              | some text' => exact absurd (opened_unique ho' ho) hk
            rw [hnone]
            simp only [Option.elim_none, Option.elim_some]
            rw [rewritten_default hf]
            exact ⟨Or.inr, fun hr => hr.resolve_left fun he => hk (Option.some.inj he)⟩
        | none =>
            simp only [Option.elim_none]
            cases ho' : opened L key value with
            | none =>
                refine ⟨fun _ => Or.inr fun k text he hk' => ?_, fun _ => (rewritten_default hf).symm⟩
                rw [← Option.some.inj he, ho'] at hk'
                cases hk'
            | some text =>
                simp only [Option.elim_some]
                by_cases hn : Foreign (some key) right f (orDefault f (.str text))
                · rw [rewritten, if_pos hn]
                  refine ⟨fun _ => Or.inr fun k t he hk' => Or.inl ?_, fun _ => rfl⟩
                  obtain ⟨t', ht'⟩ := Option.ne_none_iff_exists'.mp hn.2.2
                  exact (toSeal_eq ht').2.1
                · rw [rewritten_plain hf rfl hn]
                  refine ⟨fun heq => Or.inr fun k t he hk' => Or.inr ?_, fun hr => ?_⟩
                  · rw [← Option.some.inj he, ho', Option.some.injEq] at hk'
                    rw [← hk', ← heq]
                  · rcases (hr.resolve_left fun he => hk (Option.some.inj he)) key text rfl ho' with hs | hd
                    · have hsecret := sealed_plain hf hs
                      unfold orDefault
                      split
                      · rfl
                      · rename_i hu
                        refine absurd ⟨Option.some_ne_none key, fun he => hk (Option.some.inj he), ?_⟩ hn
                        rw [orDefault, if_neg hu, toSeal_str hs]
                        · exact Option.some_ne_none text
                        · rintro rfl
                          exact hu (by rw [isUnset, hsecret.1]; rfl)
                    · exact hd.symm

theorem survives_iff {key : Option Key} {right : Key} {k : Text} {f : ConfigField}
    (hf : S.byKey k = some f) (value : Value) :
    reads L (some right) f (some value) = rewritten L key right f (reads L key f (some value)) ↔
      key = some right ∨ Survives L key right f value := by
  unfold Survives
  cases h : isEnvelope value with
  | true => rw [if_pos rfl]; exact survives_envelope hf h
  | false => rw [if_neg Bool.false_ne_true]; exact survives_plain hf h

/-- Where a start that succeeds has its memory from. -/
theorem load_ok {key : Option Key} {nonces : Text → Text} {fails : Call → Bool} {s s' : Store C}
    (h : load L S key nonces fails s = (s', .ok ())) :
    (∃ items, itemsIn L s.file = some items ∧ s'.file = s.file ∧
        s'.values = items.foldl (onItem L S key) (defaults S) ∧ s'.started = s'.values) ∨
      s.file = none ∧ s'.values = defaults S ∧ s'.started = s'.values ∧
        writeLocked L S key nonces fails (defaults S) none = (s'.file, .ok ()) := by
  unfold load at h
  split at h
  · rename_i content hc
    split at h
    · cases h
    · rename_i items hi
      cases h
      exact Or.inl ⟨items, by rw [hc, itemsIn, hi], rfl, rfl, rfl⟩
  · rename_i hc
    simp only at h
    split at h
    · rename_i file hw
      cases h
      exact Or.inr ⟨hc, rfl, rfl, hw⟩
    · cases h

/-- **What memory keeps of the file at the start.** -/
theorem stays_boot {safe : Bool} {key : Option Key} (right : Key) {nonces : Text → Text}
    {fails : Call → Bool} {file : Option C} {s : Store C} {f : ConfigField} (hf : S.byKey f.key = some f)
    (h : boot L S safe key nonces fails file = (s, .ok ())) :
    Stays L S key right f s ↔ Kept L S safe key right f file := by
  unfold boot at h
  unfold Stays Kept
  cases safe with
  | true =>
      cases h
      rw [if_pos rfl, Store.get, Store.new, defaults_getD hf, rewritten_default hf]
  | false =>
      rw [if_neg Bool.false_ne_true] at h ⊢
      rcases load_ok h with ⟨items, hi, hfile, hv, -⟩ | ⟨hfile, hv, -, hw⟩
      · rw [hfile, readBack_eq hi hf, Store.get, hv, loaded_get key items hf, Option.some.injEq]
        cases hr : Value.lookup items f.key with
        | none =>
            refine ⟨fun _ => Or.inr fun items' value hi' hl => ?_, fun _ => (rewritten_default hf).symm⟩
            rw [show itemsIn L file = some items from hi, Option.some.injEq] at hi'
            rw [← hi', hr] at hl
            cases hl
        | some value =>
            rw [survives_iff hf value]
            refine or_congr_right ⟨fun hs items' value' hi' hl => ?_, fun hs => hs items value hi hr⟩
            rw [show itemsIn L file = some items from hi, Option.some.injEq] at hi'
            rw [← hi', hr, Option.some.injEq] at hl
            rw [← hl]
            exact hs
      · refine ⟨fun _ => Or.inr fun items value hi hl => ?_, fun _ => ?_⟩
        · rw [show file = none from hfile, itemsIn, Option.some.injEq] at hi
          rw [← hi] at hl
          cases hl
        · rw [readBack_saved hw hf, Store.get, hv]

/-! ## After a patch -/

/-- What an accepted patch leaves. -/
theorem applyPatch_ok {key : Option Key} {managed : List Text} {nonces : Text → Text}
    {fails : Call → Bool} {s s' : Store C} {patch : Dict Text Value} {result : ConfigUpdateResult}
    (h : applyPatch L S key managed nonces fails s patch = (s', .ok result)) :
    s'.values = assign s.values (sets L.toWords S managed patch.items) ∧ s'.started = s.started ∧
      if sets L.toWords S managed patch.items = [] then s'.file = s.file
      else writeLocked L S key nonces fails s'.values s.file = (s'.file, .ok ()) := by
  unfold applyPatch at h
  obtain ⟨hv, hr⟩ := onKeys_sets (L := L) (S := S) managed s.started s.values {} patch.items
  split at h
  · cases h
  · rename_i values r ho
    rw [ho] at hv hr
    have ha := hr r rfl
    rw [List.nil_append] at ha
    split at h
    · rename_i hnil
      cases h
      rw [hnil] at ha
      rw [if_pos (List.map_eq_nil_iff.mp ha.symm)]
      exact ⟨hv, rfl, rfl⟩
    · rename_i hne
      rw [if_neg fun hn => hne (by rw [ha, hn]; rfl)]
      split at h
      · rename_i file hw
        cases h
        exact ⟨hv, rfl, hw⟩
      · cases h

/-- **An accepted patch keeps the stored meaning of a key it does not name
exactly when it sets nothing, or memory has of that key what the file
holds.**  So it is after every patch that was saved; after a start it is as
`Kept` says. -/
theorem patch_frame {key : Option Key} (right : Key) {managed : List Text} {nonces : Text → Text}
    {fails : Call → Bool} {s s' : Store C} {patch : Dict Text Value} {result : ConfigUpdateResult}
    {f : ConfigField} (hf : f ∈ S.fields) (hk : patch.get? f.key = none)
    (h : applyPatch L S key managed nonces fails s patch = (s', .ok result)) :
    (readBack L S (some right) s'.file f.key = readBack L S (some right) s.file f.key ↔
        sets L.toWords S managed patch.items = [] ∨ Stays L S key right f s) ∧
      (sets L.toWords S managed patch.items ≠ [] → ∀ g ∈ S.fields, Stays L S key right g s') ∧
      ∀ safe nonces fails file, boot L S safe key nonces fails file = (s, .ok ()) →
        (Stays L S key right f s ↔ Kept L S safe key right f file) := by
  obtain ⟨hv, -, hw⟩ := applyPatch_ok h
  refine ⟨?_, fun hne g hg => ?_, fun safe nonces fails file hb => stays_boot right (byKey_key hf) hb⟩
  · by_cases hnil : sets L.toWords S managed patch.items = []
    · rw [if_pos hnil] at hw
      rw [hw]
      exact ⟨fun _ => Or.inl hnil, fun _ => rfl⟩
    · rw [if_neg hnil] at hw
      have hkeep : s'.values.get? f.key = s.values.get? f.key := by
        rw [hv]
        refine (assign_get (sets_nodup managed patch) s.values).1 fun hmem => ?_
        obtain ⟨v, hv⟩ := Dict.mem_keys_iff.mp ((sets_sublist managed patch.items).subset hmem)
        rw [hk] at hv
        cases hv
      rw [readBack_saved hw (byKey_key hf), hkeep, or_iff_right hnil]
      exact eq_comm
  · rw [if_neg hne] at hw
    exact readBack_saved hw (byKey_key hg)

/-- A file that holds an API key, sealed with `r`. -/
def sealedFile : Value := .map [(.str "apiKey".toList, envelope ([], "rsecret".toList))]

/-- A start on that file. -/
def started (safe : Bool) (key : Option Char) : Store Value :=
  (boot Libraries.clear driverSchema safe key (fun _ => []) (fun _ => false) (some sealedFile)).1

/-- A patch of the log level. -/
def patched (safe : Bool) (key : Option Char) : Store Value × Except Failure ConfigUpdateResult :=
  applyPatch Libraries.clear driverSchema key [] (fun _ => []) (fun _ => false) (started safe key)
    (onePatch "logLevel" (.str "DEBUG".toList))

def apiKey : ConfigField :=
  { key := "apiKey".toList, valueType := .secret, sensitive := true, requiresRestart := true }

theorem patch_frame_kept :
    readBack Libraries.clear driverSchema (some 'r') (patched false (some 'r')).1.file apiKey.key =
      readBack Libraries.clear driverSchema (some 'r') (started false (some 'r')).file apiKey.key := by
  have h : patched false (some 'r') = ((patched false (some 'r')).1, .ok _) := rfl
  have hb : boot Libraries.clear driverSchema false (some 'r') (fun _ => []) (fun _ => false)
      (some sealedFile) = (started false (some 'r'), .ok ()) := rfl
  have hf : apiKey ∈ driverSchema.fields := by
    show apiKey ∈ fields
    simp [fields, apiKey]
  have hk : (onePatch "logLevel" (.str "DEBUG".toList)).get? apiKey.key = none := rfl
  obtain ⟨hframe, -, hboot⟩ := patch_frame 'r' hf hk h
  exact hframe.mpr (Or.inr ((hboot _ _ _ _ hb).mpr (Or.inl rfl)))

/-- A start without the key, or in safe mode, and the API key is gone. -/
theorem patch_forgets :
    readBack Libraries.clear driverSchema (some 'r') (started false none).file apiKey.key =
        some (.str "secret".toList) ∧
      readBack Libraries.clear driverSchema (some 'r') (patched false none).1.file apiKey.key =
        some .null ∧
      readBack Libraries.clear driverSchema (some 'r') (patched true (some 'r')).1.file apiKey.key =
        some .null :=
  ⟨rfl, rfl, rfl⟩

end InferenceDriver.Config

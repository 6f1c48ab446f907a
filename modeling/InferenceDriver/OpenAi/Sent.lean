/-
# `OpenAi.Sent` — no setting a caller asked for is lost without a word

A setting a caller listed, with a value, is on the wire under its key with
that value, or it is named as ignored; what is left are the cases where it
says nothing (`Accounted`), and one where it is lost: a response format
that the schema of a forced tool takes the place of.
-/
import InferenceDriver.OpenAi.Payload

namespace InferenceDriver.OpenAi.Settings

open Checks

/-! ## Rows -/

section Rows

variable {K O V : Type}

theorem keys_filterMap_sublist (f : O → Option V) (rows : List (K × O)) :
    ((rows.filterMap fun row => (f row.2).map fun v => (row.1, v)).map (·.1)).Sublist (rows.map (·.1)) := by
  induction rows with
  | nil => exact List.Sublist.slnil
  | cons row rows ih =>
      cases hf : f row.2 with
      | none =>
          rw [List.filterMap_cons_none (by rw [hf]; rfl), List.map_cons]
          exact ih.cons _
      | some v =>
          rw [List.filterMap_cons_some (by rw [hf]; rfl), List.map_cons, List.map_cons]
          exact ih.cons_cons _

/-- The rows of distinct keys that have a value, as a dictionary. -/
theorem get?_ofRows [DecidableEq K] {rows : List (K × O)} (nodup : (rows.map (·.1)).Nodup) (f : O → Option V) (k : K) (v : V) :
    (Dict.ofList (rows.filterMap fun row => (f row.2).map fun v => (row.1, v))).get? k = some v ↔
      ∃ o, (k, o) ∈ rows ∧ f o = some v := by
  have hkeys := nodup.sublist (keys_filterMap_sublist f rows)
  have hmem : (k, v) ∈ (rows.filterMap fun row => (f row.2).map fun v => (row.1, v)) ↔
      ∃ o, (k, o) ∈ rows ∧ f o = some v := by
    constructor
    · intro h
      obtain ⟨row, hrow, hv⟩ := List.mem_filterMap.mp h
      obtain ⟨v', hf, hpair⟩ := Option.map_eq_some_iff.mp hv
      cases hpair
      exact ⟨row.2, hrow, hf⟩
    · rintro ⟨o, ho, hf⟩
      exact List.mem_filterMap.mpr ⟨(k, o), ho, by rw [hf]; rfl⟩
  rw [Dict.get?_ofList hkeys, Option.map_eq_some_iff, ← hmem]
  constructor
  · rintro ⟨e, he, rfl⟩
    have hk : e.1 = k := by simpa using List.find?_some he
    rw [← hk]
    exact List.mem_of_find?_eq_some he
  · intro h
    cases hfind : (rows.filterMap fun row => (f row.2).map fun v => (row.1, v)).find? fun e => e.1 = k with
    | none => exact absurd (decide_eq_true rfl) (List.find?_eq_none.mp hfind _ h)
    | some e =>
        have hk : e.1 = k := by simpa using List.find?_some hfind
        have he : e = (k, v) := List.inj_on_of_nodup_map hkeys (List.mem_of_find?_eq_some hfind) h hk
        exact ⟨e, rfl, congrArg Prod.snd he⟩

end Rows

namespace Engine

variable {e : Engine} {quoted : Text → Text} {s : State} {t : Target} {r : Request}

/-! ## The keys of a body -/

theorem maxTokensField_cases (e : Engine) :
    e.dialect.maxTokensField = "max_tokens" ∨ e.dialect.maxTokensField = "max_completion_tokens" := by
  have known := e.known
  simp only [Dialect.all, List.mem_cons, List.not_mem_nil, or_false] at known
  obtain h | h | h | h | h := known
  all_goals rw [h]; first | exact .inl rfl | exact .inr rfl

/-- The keys of a body, in their order. -/
def keysOf (maxTokens : Text) : List Text :=
  maxTokens :: (["temperature", "top_p", "seed", "stop", "top_k", "min_p", "frequency_penalty", "presence_penalty",
    "parallel_tool_calls", "tools", "tool_choice", "response_format", "provider", "logprobs", "top_logprobs",
    "logit_bias", "chat_template_kwargs", "reasoning_effort", "verbosity", "prediction", "web_search_options",
    "prompt_cache_key", "prompt_cache_retention", "service_tier", "safety_identifier", "cache_control", "modalities",
    "audio"].map String.toList)

theorem keys_rows (e : Engine) (quoted : Text → Text) (s : State) (t : Target) (r : Request) :
    (e.rows quoted s t r).map (·.1) = keysOf e.dialect.maxTokensField.toList := rfl

theorem keys_nodup (e : Engine) (quoted : Text → Text) (s : State) (t : Target) (r : Request) :
    ((e.rows quoted s t r).map (·.1)).Nodup := by
  rw [keys_rows]
  obtain h | h := e.maxTokensField_cases
  all_goals rw [h]; decide

theorem settingRow_mem (e : Engine) (quoted : Text → Text) (s : State) (t : Target) (r : Request) (x : Setting) :
    e.settingRow quoted s t r x ∈ e.rows quoted s t r := by
  cases x <;> simp [rows]

/-- A setting is under its key exactly when it is sent. -/
theorem get?_key (x : Setting) (v : Json) :
    (e.fields quoted s t r).get? (e.key x) = some v ↔ e.outcome quoted s t r x = .sent v := by
  rw [fields, get?_ofRows (e.keys_nodup quoted s t r)]
  have hrow := e.settingRow_mem quoted s t r x
  constructor
  · rintro ⟨o, ho, hv⟩
    have he := List.inj_on_of_nodup_map (e.keys_nodup quoted s t r) ho hrow rfl
    cases he
    cases hout : e.outcome quoted s t r x with
    | sent value =>
        rw [hout] at hv
        cases hv
        rfl
    | _ =>
        rw [hout] at hv
        cases hv
  · intro h
    exact ⟨_, hrow, by rw [h]; rfl⟩

/-! ## What is not refused -/

theorem asked_iff {r : Request} {x : Setting} : r.asked x = true ↔ x ∈ r.callerSettings.filterMap Setting.ofName := by
  rw [Request.asked, decide_eq_true_iff, List.mem_filterMap]
  constructor
  · intro h
    exact ⟨x.name, h, Setting.ofName_name x⟩
  · rintro ⟨name, hname, hx⟩
    rw [Setting.ofName_eq_some.mp hx]
    exact hname

/-- The settings that are refused, of those a caller asked for. -/
def Refused (unsupported : Setting → Bool) (r : Request) (x : Setting) : Prop :=
  r.asked x = true ∧ x ≠ .reasoningEffort ∧ unsupported x = true

theorem refuseUnsupported_isOk {r : Request} {unsupported : Setting → Bool} {because : Option Text} :
    refuseUnsupportedSettings r unsupported because = .ok () ↔ ∀ x, ¬ Refused unsupported r x := by
  rw [refuseUnsupportedSettings.eq_def]
  cases hfound : refusedSetting r unsupported with
  | none =>
      refine iff_of_true rfl fun x hx => ?_
      refine List.find?_eq_none.mp hfound x (asked_iff.mp hx.1) ?_
      rw [hx.2.2, decide_eq_true hx.2.1]
      rfl
  | some x =>
      refine iff_of_false (fun h => by cases h) fun h => h x ⟨?_, ?_⟩
      · exact asked_iff.mpr (List.mem_of_find?_eq_some hfound)
      · have hx := List.find?_some hfound
        rw [Bool.and_eq_true, decide_eq_true_iff] at hx
        exact ⟨hx.2, hx.1⟩

/-- A request that is not refused. -/
structure Passes (e : Engine) (quoted : Text → Text) (s : State) (t : Target) (r : Request) : Prop where
  logprobs : logprobsHeld t r = true → r.logprobs = some true → r.asked .logprobs = false
  tools : (e.toolsOffBecause quoted s t).isSome = true → r.carriesTools = true → ∀ x ∈ toolSettings, r.asked x = false
  supported : ∀ x, r.asked x = true → x ≠ .reasoningEffort → e.refusable quoted s t r x = false

theorem toolSettings_effort {x : Setting} (h : x ∈ toolSettings) : x ≠ .reasoningEffort := by
  rintro rfl
  exact absurd h (by decide)

theorem refuseSettings_isOk : e.refuseSettings quoted s t r = .ok () ↔ Passes e quoted s t r := by
  have hsupported : refuseUnsupportedSettings r (e.refusable quoted s t r) none = .ok () ↔
      ∀ x, r.asked x = true → x ≠ .reasoningEffort → e.refusable quoted s t r x = false := by
    rw [refuseUnsupported_isOk]
    exact forall_congr' fun x => ⟨fun h ha hx => Bool.eq_false_iff.mpr fun hr => h ⟨ha, hx, hr⟩,
      fun h hr => Bool.false_ne_true ((h hr.1 hr.2.1).symm.trans hr.2.2)⟩
  rw [refuseSettings]
  by_cases hheld : (logprobsHeld t r && decide (r.logprobs = some true) && r.asked .logprobs) = true
  · rw [if_pos hheld]
    refine iff_of_false (fun h => by cases h) fun h => ?_
    rw [Bool.and_eq_true, Bool.and_eq_true, decide_eq_true_iff] at hheld
    exact Bool.false_ne_true ((h.logprobs hheld.1.1 hheld.1.2).symm.trans hheld.2)
  · have hlogprobs : logprobsHeld t r = true → r.logprobs = some true → r.asked .logprobs = false := by
      intro h h'
      refine Bool.eq_false_iff.mpr fun ha => hheld ?_
      rw [h, decide_eq_true h', ha]
      rfl
    rw [if_neg hheld]
    cases hoff : e.toolsOffBecause quoted s t with
    | none =>
        refine hsupported.trans ⟨fun h => ⟨hlogprobs, ?_, h⟩, fun h => h.supported⟩
        rw [hoff]
        exact fun h => (by cases h)
    | some because =>
        cases htools : r.carriesTools with
        | false =>
            refine hsupported.trans ⟨fun h => ⟨hlogprobs, ?_, h⟩, fun h => h.supported⟩
            rw [htools]
            exact fun _ h => (by cases h)
        | true =>
            have hride : refuseUnsupportedSettings r (fun x => x ∈ toolSettings) (some because) = .ok () ↔
                ∀ x ∈ toolSettings, r.asked x = false := by
              rw [refuseUnsupported_isOk]
              exact forall_congr' fun x =>
                ⟨fun h hx => Bool.eq_false_iff.mpr fun ha => h ⟨ha, toolSettings_effort hx, decide_eq_true hx⟩,
                  fun h hr => Bool.false_ne_true ((h (of_decide_eq_true hr.2.2)).symm.trans hr.1)⟩
            constructor
            · intro h
              obtain ⟨⟨⟩, hfirst, h⟩ := bind_eq_ok.mp h
              exact ⟨hlogprobs, fun _ _ => hride.mp hfirst, hsupported.mp h⟩
            · intro h
              refine bind_eq_ok.mpr ⟨⟨⟩, hride.mpr (h.tools ?_ htools), hsupported.mpr h.supported⟩
              rw [hoff]
              rfl

/-! ## The gaps of what is served -/

theorem mem_gapsIn {table : List (Setting × List GapValue)} {only : Option (List Setting)} {gap : Gap}
    (h : gap ∈ gapsIn table only) : ∃ row ∈ table, gap = ⟨row.1.name, row.2⟩ := by
  obtain ⟨row, hrow, rfl⟩ := List.mem_map.mp h
  exact ⟨row, (List.mem_filter.mp hrow).1, rfl⟩

theorem mem_unlisted {m : Entry} {c : Capabilities} {gap : Gap} (h : gap ∈ e.unlisted m c) :
    ∃ row ∈ unlistedTable, gap = ⟨row.1.name, row.2⟩ := by
  rw [unlisted] at h
  split at h
  · rw [unlistedToolSettings] at h
    split at h
    · exact mem_gapsIn h
    · cases h
  · cases h

/-- Off Ollama, what a backend does not honour is at most an effort. -/
theorem mem_settingsNotHonoured {gap : Gap} (hd : e.dialect.catalogue ≠ .ollama) (h : gap ∈ e.settingsNotHonoured s) :
    gap.setting = Setting.reasoningEffort.name := by
  rw [settingsNotHonoured, if_neg hd, List.nil_append] at h
  split at h
  · rw [List.mem_singleton.mp h]
  · cases h

theorem mem_servedGaps {m : Entry} {c : Capabilities} {gap : Gap} (h : gap ∈ e.servedGaps s m c) :
    gap ∈ e.settingsNotHonoured s ∨ gap ∈ e.unlisted m c := by
  have hchat : ∀ {gaps : List Gap}, gap ∈ (if m.serves "chat" then gaps else []) → gap ∈ gaps := by
    intro gaps h
    split at h
    · exact h
    · cases h
  rw [servedGaps] at h
  split at h
  · obtain h | h := List.mem_append.mp h
    · exact .inl (hchat h)
    · exact .inr (List.mem_filter.mp h).1
  · exact .inl (hchat h)

theorem servedCapabilities_gaps {m : Entry} {c : Capabilities} (h : c.settingsNotHonoured = none) :
    ((e.servedCapabilities s m c).settingsNotHonoured).getD [] = e.servedGaps s m c := by
  have hserved : ((if e.servedGaps s m c = [] then c
      else { c with settingsNotHonoured := some (e.servedGaps s m c) }).settingsNotHonoured).getD [] =
      e.servedGaps s m c := by
    split
    · rename_i hnone
      rw [h, hnone]
      rfl
    · rfl
  rw [servedCapabilities]
  split
  · exact hserved
  · exact hserved

theorem gapsFor_account {m : Entry} (h : ∀ c, m.capabilities = some c → c.settingsNotHonoured = none) {gap : Gap} :
    gap ∈ e.gapsFor s (e.targetOf (e.servedView s m)) ↔ ∃ c, m.capabilities = some c ∧ gap ∈ e.servedGaps s m c := by
  have hgaps : e.gapsFor s (e.targetOf (e.servedView s m)) =
      ((m.capabilities.map (e.servedCapabilities s m)).bind (·.settingsNotHonoured)).getD [] := rfl
  rw [hgaps]
  cases hc : m.capabilities with
  | none => exact iff_of_false (fun hgap => by cases hgap) fun ⟨c, hsome, _⟩ => (by cases hsome)
  | some c =>
      rw [Option.map_some, Option.bind_some, servedCapabilities_gaps (h c hc)]
      constructor
      · intro hgap
        exact ⟨c, rfl, hgap⟩
      · rintro ⟨c', hsome, hgap⟩
        cases hsome
        exact hgap

/-- What is withheld, besides an effort, is a tool setting the listing leaves out. -/
theorem withheld_gap (ht : e.Served s t) {x : Setting} (h : e.withheld s t r x = true) (hx : x ≠ .reasoningEffort) :
    ∃ values, (x, values) ∈ unlistedTable ∧ ⟨x.name, values⟩ ∈ e.gapsFor s t := by
  rw [withheld, Bool.and_eq_true, Bool.and_eq_true, Bool.and_eq_true, decide_eq_true_iff] at h
  obtain ⟨⟨⟨-, hrouter⟩, hentry⟩, hany⟩ := h
  obtain ⟨gap, hgap, hname⟩ := List.any_eq_true.mp hany
  have hname : gap.setting = x.name := of_decide_eq_true hname
  cases ht with
  | single => cases hentry
  | account m _ unserved =>
      obtain ⟨c, -, hserved⟩ := (gapsFor_account unserved).mp hgap
      obtain hback | hlisted := mem_servedGaps hserved
      · refine absurd (Setting.name_injective ?_) hx
        rw [← hname]
        exact mem_settingsNotHonoured (by rw [hrouter]; decide) hback
      · obtain ⟨row, hrow, rfl⟩ := mem_unlisted hlisted
        have hxrow : row.1 = x := Setting.name_injective hname
        cases hxrow
        exact ⟨row.2, hrow, hgap⟩

theorem mem_ignored {gap : Gap} (hgiven : e.givesNoTools s t r = false) (hgap : gap ∈ e.gapsFor s t)
    (hasked : gap.setting ∈ r.callerSettings) {value : GapValue} (hvalue : r.contractValue gap.setting = some value)
    (hin : value ∈ gap.values) : gap.setting ∈ e.ignored s t r := by
  refine List.mem_append_left _ (List.mem_map.mpr ⟨gap, List.mem_filter.mpr ⟨?_, ?_⟩, rfl⟩)
  · rw [hgiven, if_neg Bool.false_ne_true]
    exact hgap
  · rw [hvalue, decide_eq_true hasked]
    exact decide_eq_true hin

/-- A value of a setting that a backend does without being told. -/
def Untold (r : Request) (x : Setting) : Prop :=
  (x = .toolChoice ∧ r.toolChoice = some .auto) ∨ (x = .parallelToolCalls ∧ r.parallelToolCalls = some true)

/-- A setting that is withheld is named, or says nothing. -/
theorem withheld_named (ht : e.Served s t) (hgiven : e.givesNoTools s t r = false) {x : Setting}
    (h : e.withheld s t r x = true) (hx : x ≠ .reasoningEffort) (hasked : r.asked x = true)
    (hvalue : (r.value x).isSome = true) : x.name ∈ e.ignored s t r ∨ Untold r x := by
  obtain ⟨values, hrow, hgap⟩ := withheld_gap ht h hx
  have hasked : x.name ∈ r.callerSettings := of_decide_eq_true hasked
  rw [unlistedTable, List.mem_cons, List.mem_singleton] at hrow
  obtain hrow | hrow := hrow
  · cases hrow
    cases hchoice : r.toolChoice with
    | none =>
        rw [Request.value, hchoice] at hvalue
        cases hvalue
    | some choice =>
        have hmode : r.contractValue Setting.toolChoice.name = some (.mode choice.mode) := by
          rw [Request.contractValue, Setting.ofName_name, hchoice]
          rfl
        cases choice with
        | auto => exact .inr (.inl ⟨rfl, hchoice⟩)
        | named name =>
            exact .inl (mem_ignored hgiven hgap hasked hmode
              (List.mem_cons_of_mem _ (List.mem_cons_of_mem _ (List.mem_singleton.mpr rfl))))
        | _ => exact .inl (mem_ignored hgiven hgap hasked hmode (by decide))
  · cases hrow
    cases hparallel : r.parallelToolCalls with
    | none =>
        rw [Request.value, hparallel] at hvalue
        cases hvalue
    | some b =>
        have hbool : r.contractValue Setting.parallelToolCalls.name = some (.bool b) := by
          rw [Request.contractValue, Setting.ofName_name, hparallel]
          rfl
        cases b with
        | true => exact .inr (.inr ⟨rfl, hparallel⟩)
        | false => exact .inl (mem_ignored hgiven hgap hasked hbool (by decide))

/-! ## What becomes of a setting -/

theorem mem_left {x : Setting} {why : Why} (h : e.outcome quoted s t r x = .left why) :
    (e.key x, why) ∈ e.left quoted s t r :=
  List.mem_filterMap.mpr ⟨_, e.settingRow_mem quoted s t r x, by rw [settingRow, h]; rfl⟩

theorem value_asGiven {x : Setting} (h : x ∉ toolSettings) : (e.asGiven s t r).value x = r.value x := by
  rw [asGiven]
  split
  · cases x with
    | tools => exact absurd (by decide) h
    | toolChoice => exact absurd (by decide) h
    | parallelToolCalls => exact absurd (by decide) h
    | _ => rfl
  · rfl

theorem asGiven_of_not (h : e.givesNoTools s t r = false) : e.asGiven s t r = r := by
  rw [asGiven, h, if_neg Bool.false_ne_true]

theorem asked_asGiven (x : Setting) : (e.asGiven s t r).asked x = r.asked x := by
  rw [asGiven]
  split <;> rfl

theorem withheld_asGiven (x : Setting) : e.withheld s t (e.asGiven s t r) x = e.withheld s t r x := by
  rw [asGiven]
  split <;> rfl

theorem unsupported_fixed (hfixed : t.temperatureFixed = true) {x : Setting} (h : x ∈ fixedSampler) :
    e.unsupported s t x = true := by
  have hx : x ≠ .reasoningEffort := by
    rintro rfl
    exact absurd h (by decide)
  rw [unsupported, unsupportedBefore, hfixed, decide_eq_true h, decide_eq_false hx, Bool.and_false]
  rfl

/-- What passes and does not ride with tools is supported. -/
theorem Passes.unsupported (h : Passes e quoted s t r) {x : Setting} (hasked : r.asked x = true)
    (heffort : x ≠ .reasoningEffort) (hx : x ∉ companions) : e.unsupported s t x = false := by
  have href := h.supported x hasked heffort
  rwa [refusable, decide_eq_false hx, Bool.and_false, Bool.not_false, Bool.and_true] at href

/-- A field that nothing stands in the way of goes as it is. -/
theorem guarded_sent {x : Setting} {v : Json} (hv : r.value x = some v) (hx : x ∉ companions)
    (hsupported : e.unsupported s t x = false) (hwithheld : e.withheld s t r x = false) :
    e.guarded quoted s t r x = .sent v := by
  rw [guarded, hv]
  have hnone : (e.droppingBecause quoted s t r).filter (fun _ => decide (x ∈ companions)) = none := by
    rw [decide_eq_false hx]
    cases e.droppingBecause quoted s t r <;> rfl
  simp only [hnone, hsupported, hwithheld]
  rfl

theorem withheld_not (ht : e.Served s t) {x : Setting} (hx : x ∉ companions) (heffort : x ≠ .reasoningEffort) :
    e.withheld s t r x = false := by
  refine Bool.eq_false_iff.mpr fun h => ?_
  obtain ⟨values, hrow, -⟩ := withheld_gap ht h heffort
  rw [unlistedTable, List.mem_cons, List.mem_singleton] at hrow
  obtain hrow | hrow := hrow
  all_goals cases hrow; exact hx (by decide)

/-- What accounts for a setting a caller listed with the value `v`. -/
inductive Accounted (e : Engine) (s : State) (t : Target) (r : Request) (forced : Option Tool)
    (p : Payload) (left : List Left) (x : Setting) (v : Json) : Prop where
  | sent (h : p.fields.get? (e.key x) = some v)
  | named (h : x.name ∈ e.ignored s t r)
  /-- What the backend does anyway, said once. -/
  | untold (h : Untold r x) (said : (e.key x, .notDelivered) ∈ left)
  /-- What rides with tools, without them, said once. -/
  | alone (h : x ∈ companions) (tools : r.carriesTools = false) (said : ∃ cause, (e.key x, .noTools cause) ∈ left)
  /-- `tool_choice: none`, given as no tools. -/
  | given (h : x ∈ toolSettings) (none : e.givesNoTools s t r = true)
  /-- Its tool is asked for by its schema. -/
  | bySchema (h : x ∈ toolSettings) (tool : Tool) (forces : forced = some tool)
  /-- The schema took its place. -/
  | replaced (hx : x = .responseFormat) (tool : Tool) (forces : forced = some tool)
      (h : p.fields.get? (e.key x) = some (schemaOf tool))
  /-- The template is told not to think. -/
  | template (hx : x = .reasoningEffort) (h : r.reasoningEffort = some .none)
      (told : p.fields.get? "chat_template_kwargs".toList = some (.ofFields [("enable_thinking", .bool false)]))
  /-- An effort the template does not take, beside a choice of no tools or for
  no chat model: said once, and not named. -/
  | unnamed (hx : x = .reasoningEffort) (template : e.effortByTemplate s = true)
      (none : e.givesNoTools s t r = true ∨ t.chats = false) (said : (e.key x, .notAccepted) ∈ left)

theorem forceBySchema_fields (tool : Tool) (p : Payload) : (forceBySchema tool p).fields =
    (((p.fields.erase "tools".toList).erase "tool_choice".toList).erase "parallel_tool_calls".toList).set
      "response_format".toList (schemaOf tool) := rfl

/-- A body with a tool forced is the same under the other keys. -/
theorem get?_withForced {forced : Option Tool} {p : Payload} {k : Text}
    (h : k ∉ ["response_format", "parallel_tool_calls", "tool_choice", "tools"].map String.toList) :
    (withForced forced p).fields.get? k = p.fields.get? k := by
  cases forced with
  | none => rfl
  | some tool =>
      simp only [List.map_cons, List.map_nil, List.mem_cons, List.not_mem_nil, or_false, not_or] at h
      obtain ⟨hformat, hparallel, hchoice, htools⟩ := h
      rw [withForced, forceBySchema_fields, Dict.get?_set_ne _ _ hformat, Dict.get?_erase_ne _ hparallel,
        Dict.get?_erase_ne _ hchoice, Dict.get?_erase_ne _ htools]

theorem maxTokensField_forced (e : Engine) : e.dialect.maxTokensField.toList ∉
    ["response_format", "parallel_tool_calls", "tool_choice", "tools"].map String.toList := by
  obtain h | h := e.maxTokensField_cases
  · rw [h]
    decide
  · rw [h]
    decide

theorem refusalName_forced : ∀ x ∈ Setting.all, x ∉ toolSettings → x ≠ .responseFormat → refusalName x ∉
    ["response_format", "parallel_tool_calls", "tool_choice", "tools"].map String.toList := by
  decide

theorem key_forced {x : Setting} (h : x ∉ toolSettings) (hx : x ≠ .responseFormat) :
    e.key x ∉ ["response_format", "parallel_tool_calls", "tool_choice", "tools"].map String.toList := by
  have hname := refusalName_forced x (Setting.mem_all x) h hx
  cases x with
  | maxTokens => exact e.maxTokensField_forced
  | _ => exact hname

variable {forced : Option Tool} {messages : List Order.WireMessage} {left : List Left} {x : Setting} {v : Json}

/-- A setting that is sent is accounted for, with a tool forced or not. -/
theorem Accounted.of_sent {r' : Request} (h : e.outcome quoted s t r' x = .sent v) :
    Accounted e s t r forced (withForced forced ⟨t.upstream, messages, e.fields quoted s t r'⟩) left x v := by
  have hfield := (get?_key x v).mpr h
  cases hforced : forced with
  | none => exact .sent hfield
  | some tool =>
      by_cases htools : x ∈ toolSettings
      · exact .bySchema htools tool rfl
      · by_cases hx : x = .responseFormat
        · cases hx
          exact .replaced rfl tool rfl (Dict.get?_set_self _ _ _)
        · exact .sent ((get?_withForced (key_forced htools hx)).trans hfield)

theorem payloadFor_ok {p : Payload} (h : e.payloadFor quoted s t r forced = .ok (p, left)) :
    Passes e quoted s t (e.asGiven s t r) ∧
      (∃ messages, p = withForced forced ⟨t.upstream, messages, e.fields quoted s t (e.asGiven s t r)⟩) ∧
      left = e.left quoted s t (e.asGiven s t r) := by
  obtain ⟨⟨⟩, hpass, h⟩ := bind_eq_ok.mp h
  obtain ⟨merged, -, h⟩ := bind_eq_ok.mp h
  obtain ⟨messages, -, h⟩ := bind_eq_ok.mp h
  cases pure_eq_ok.mp h
  exact ⟨refuseSettings_isOk.mp hpass, ⟨messages, rfl⟩, rfl⟩

/-- What rides with tools, where no choice is given as no tools: sent, left
out beside no tools, or withheld. -/
theorem companion_cases (hpass : Passes e quoted s t r) (hx : x ∈ companions) (hasked : r.asked x = true)
    (hv : r.value x = some v) : e.outcome quoted s t r x = .sent v ∨
      (r.carriesTools = false ∧ ∃ cause, e.outcome quoted s t r x = .left (.noTools cause)) ∨
      (e.withheld s t r x = true ∧ e.outcome quoted s t r x = .left .notDelivered) := by
  have heffort : x ≠ .reasoningEffort := toolSettings_effort (List.mem_cons_of_mem _ hx)
  have hdrop : ∀ {because : Text}, e.droppingBecause quoted s t r = some because → r.carriesTools = false := by
    intro because h
    rw [droppingBecause] at h
    split at h
    · cases h
    · rename_i htools
      exact Bool.eq_false_iff.mpr htools
  have hsupported : e.droppingBecause quoted s t r = none → e.unsupported s t x = false := by
    intro hnone
    have href := hpass.supported x hasked heffort
    rwa [refusable, hnone, Option.isSome_none, Bool.false_and, Bool.not_false, Bool.and_true] at href
  cases hbecause : e.droppingBecause quoted s t r with
  | some because =>
      refine .inr (.inl ⟨hdrop hbecause, because, ?_⟩)
      rw [companions, List.mem_cons, List.mem_singleton] at hx
      obtain rfl | rfl := hx
      · simp only [outcome, hv, hbecause]
      · simp [outcome, guarded, hv, hbecause, companions, Option.filter]
  | none =>
      have hsupported := hsupported hbecause
      cases hwithheld : e.withheld s t r x with
      | true =>
          refine .inr (.inr ⟨rfl, ?_⟩)
          rw [companions, List.mem_cons, List.mem_singleton] at hx
          obtain rfl | rfl := hx
          · simp only [outcome, hv, hbecause, hwithheld, if_pos]
          · simp [outcome, guarded, hv, hbecause, hsupported, hwithheld]
      | false =>
          refine .inl ?_
          rw [companions, List.mem_cons, List.mem_singleton] at hx
          obtain rfl | rfl := hx
          · simp [outcome, hv, hbecause, hwithheld]
          · simp [outcome, guarded, hv, hbecause, hsupported, hwithheld]

/-- A setting that does not ride with tools, and is no effort: sent, where the
request passes. -/
theorem other_sent (ht : e.Served s t) (hpass : Passes e quoted s t r) (hx : x ∉ companions)
    (heffort : x ≠ .reasoningEffort) (hasked : r.asked x = true) (hv : r.value x = some v)
    (hlogprobs : x = .logprobs → r.logprobs = some true) : e.outcome quoted s t r x = .sent v := by
  have hguarded : e.guarded quoted s t r x = .sent v :=
    guarded_sent hv hx (hpass.unsupported hasked heffort hx) (withheld_not ht hx heffort)
  have hofValue : Outcome.ofValue (r.value x) = .sent v := by
    rw [hv]
    rfl
  have hfixed : x ∈ fixedSampler → t.temperatureFixed = false := by
    intro hmem
    refine Bool.eq_false_iff.mpr fun h => Bool.false_ne_true ?_
    rw [← hpass.unsupported hasked heffort hx, unsupported_fixed h hmem]
  cases x with
  | temperature =>
      rw [outcome, hfixed (by decide)]
      exact hofValue
  | topP =>
      rw [outcome, hfixed (by decide)]
      exact hofValue
  | logprobs =>
      have hheld : logprobsHeld t r = false := by
        refine Bool.eq_false_iff.mpr fun h => Bool.false_ne_true ?_
        rw [← hpass.logprobs h (hlogprobs rfl), hasked]
      rw [outcome, hheld, Bool.and_false]
      exact hofValue
  | toolChoice => exact absurd (by decide) hx
  | parallelToolCalls => exact absurd (by decide) hx
  | reasoningEffort => exact absurd rfl heffort
  | topK => exact hguarded
  | minP => exact hguarded
  | frequencyPenalty => exact hguarded
  | presencePenalty => exact hguarded
  | _ => exact hofValue

/-- What the template does not take of an effort is a gap of every chat model. -/
theorem effort_gap (ht : e.Served s t) (hchats : t.chats = true) (htemplate : e.effortByTemplate s = true) :
    ⟨Setting.reasoningEffort.name, [ReasoningEffort.minimal, .low, .medium, .high, .xhigh, .max].map
      fun effort => .mode effort.value⟩ ∈ e.gapsFor s t := by
  have hback : ⟨Setting.reasoningEffort.name, [ReasoningEffort.minimal, .low, .medium, .high, .xhigh, .max].map
      fun effort => .mode effort.value⟩ ∈ e.settingsNotHonoured s := by
    rw [settingsNotHonoured, if_pos htemplate]
    exact List.mem_append_right _ (List.mem_singleton.mpr rfl)
  cases ht with
  | single => exact hback
  | account m _ unserved =>
      obtain ⟨hchat, hcaps⟩ := Bool.and_eq_true_iff.mp hchats
      cases hc : m.capabilities with
      | none =>
          rw [show (e.servedView s m).capabilities = m.capabilities.map (e.servedCapabilities s m) from rfl, hc] at hcaps
          cases hcaps
      | some c =>
          refine (gapsFor_account unserved).mpr ⟨c, hc, ?_⟩
          have hserves : m.serves "chat" = true := hchat
          rw [servedGaps, hserves, if_pos rfl]
          split
          · exact List.mem_append_left _ hback
          · exact hback

/-- An effort a caller listed. -/
theorem effort_accounted {p : Payload} (ht : e.Served s t) (hp : ∃ messages, p =
      withForced forced ⟨t.upstream, messages, e.fields quoted s t (e.asGiven s t r)⟩)
    (hasked : r.asked .reasoningEffort = true) (hv : r.value .reasoningEffort = some v) :
    Accounted e s t r forced p (e.left quoted s t (e.asGiven s t r)) .reasoningEffort v := by
  obtain ⟨messages, rfl⟩ := hp
  have heffort : (e.asGiven s t r).reasoningEffort = r.reasoningEffort := by
    rw [asGiven]
    split <;> rfl
  obtain ⟨effort, hsome, rfl⟩ := Option.map_eq_some_iff.mp hv
  cases htemplate : e.effortByTemplate s with
  | false =>
      cases hunsupported : e.unsupported s t .reasoningEffort with
      | true =>
          refine .named (List.mem_append_right _ ?_)
          rw [hasked, hsome, hunsupported]
          exact List.mem_singleton.mpr rfl
      | false =>
          refine .of_sent ?_
          simp only [outcome, htemplate, hunsupported, Bool.and_false, Bool.false_eq_true, if_false, Request.value, heffort,
            hsome]
          rfl
  | true =>
      by_cases hnone : effort = .none
      · rw [hnone] at hsome
        refine .template rfl hsome ((get?_withForced (by decide)).trans ?_)
        refine (get?_ofRows (e.keys_nodup quoted s t _) _ _ _).mpr
          ⟨.sent (.ofFields [("enable_thinking", .bool false)]), ?_, rfl⟩
        rw [rows]
        simp [htemplate, heffort, hsome]
      · have hleft : e.outcome quoted s t (e.asGiven s t r) .reasoningEffort = .left .notAccepted := by
          simp [outcome, htemplate, heffort, hsome, hnone]
        cases hgiven : e.givesNoTools s t r with
        | true => exact .unnamed rfl htemplate (.inl hgiven) (mem_left hleft)
        | false =>
            cases hchats : t.chats with
            | false => exact .unnamed rfl htemplate (.inr hchats) (mem_left hleft)
            | true =>
                have hmode : r.contractValue Setting.reasoningEffort.name = some (.mode effort.value) := by
                  rw [Request.contractValue, Setting.ofName_name, hsome]
                  rfl
                refine .named (mem_ignored hgiven (effort_gap ht hchats htemplate) (of_decide_eq_true hasked) hmode ?_)
                cases effort with
                | none => exact absurd rfl hnone
                | _ => decide

/-- Every setting a caller listed, with a value (a `logprobs` that is true),
is accounted for in a body that is made. -/
theorem accounted {p : Payload} (ht : e.Served s t) (h : e.payloadFor quoted s t r forced = .ok (p, left))
    (hasked : r.asked x = true) (hv : r.value x = some v) (hlogprobs : x = .logprobs → r.logprobs = some true) :
    Accounted e s t r forced p left x v := by
  obtain ⟨hpass, ⟨messages, rfl⟩, rfl⟩ := payloadFor_ok h
  by_cases htools : x ∈ toolSettings
  · cases hgiven : e.givesNoTools s t r with
    | true => exact .given htools hgiven
    | false =>
        rw [asGiven_of_not hgiven] at hpass ⊢
        by_cases hx : x ∈ companions
        · obtain hsent | ⟨hnone, cause, hleft⟩ | ⟨hwithheld, hleft⟩ := companion_cases hpass hx hasked hv
          · exact .of_sent hsent
          · exact .alone hx hnone ⟨cause, mem_left hleft⟩
          · obtain hnamed | huntold := withheld_named ht hgiven hwithheld (toolSettings_effort htools) hasked
              (by rw [hv]; rfl)
            · exact .named hnamed
            · exact .untold huntold (mem_left hleft)
        · exact .of_sent (other_sent ht hpass hx (toolSettings_effort htools) hasked hv hlogprobs)
  · have hv' : (e.asGiven s t r).value x = some v := (value_asGiven htools).trans hv
    have hasked' : (e.asGiven s t r).asked x = true := (asked_asGiven x).trans hasked
    by_cases heffort : x = .reasoningEffort
    · cases heffort
      exact effort_accounted ht ⟨messages, rfl⟩ hasked hv
    · refine .of_sent (other_sent ht hpass (fun hx => htools (List.mem_cons_of_mem _ hx)) heffort hasked' hv' ?_)
      rintro rfl
      have hl := hlogprobs rfl
      rw [asGiven]
      split
      · exact hl
      · exact hl

/-! ## What a default of someone else's reaches -/

end Engine

/-! ## A model whose listing leaves a tool setting out -/

/-- An account at OpenRouter. -/
def router : Engine where
  modelId := none
  upstreamModelId := []
  dialect := .openrouter
  known := by decide
  fixesTemperature _ := false
  responsesOnly _ := false
  requireParameters := true
  thinkingMode := "auto".toList

def fresh : State := ⟨.empty, none⟩

/-- A model that is listed with `tools`, and not with what rides with them. -/
def nova : Entry where
  id := "amazon/nova".toList
  surfaces := ["chat".toList]
  capabilities := some { supportedSettings := some ["maxTokens".toList, "tools".toList], toolCalling := some true }

def novaTarget : Target := router.targetOf (router.servedView fresh nova)

theorem nova_served : router.Served fresh novaTarget :=
  .account nova rfl fun c hc => (by cases hc; rfl)

/-- One call a turn, by a caller; the seed is not the caller's. -/
def oneCall : Request where
  callerSettings := ["tools".toList, "parallelToolCalls".toList]
  messages := []
  tools := some [{ name := "look".toList }]
  parallelToolCalls := some false
  seed := some 7

theorem oneCall_made : ∃ made, router.payloadFor id fresh novaTarget oneCall none = .ok made ∧ true = true :=
  passes_iff.mp (by decide)

theorem accounted_oneCall : ∃ p left, router.payloadFor id fresh novaTarget oneCall none = .ok (p, left) ∧
    Engine.Accounted router fresh novaTarget oneCall none p left .parallelToolCalls (.bool false) := by
  obtain ⟨⟨p, left⟩, hmade, -⟩ := oneCall_made
  exact ⟨p, left, hmade, Engine.accounted nova_served hmade (by decide) rfl fun h => (by cases h)⟩

end InferenceDriver.OpenAi.Settings

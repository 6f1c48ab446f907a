/-
# `OpenAi.Run` — the loop keeps what was said

`Follows` is the invariant of the loop over the lines: the local variables
hold what the events so far say, whether one of them closed the answer, and
the state of the stall clock.  Each step keeps it and comes to the verdict
of what it was given; `readLines_verdict` and `follows_readLines` say so of
the loop, for every run.
-/
import InferenceDriver.OpenAi.Fold
import InferenceDriver.OpenAi.Verdict

namespace InferenceDriver.OpenAi

open Checks Thinking

variable {E : Env} {U : Ucd} {q : Setup}

def Locals.clock (s : Locals) : Clock := ⟨s.sawFirstData, s.quiet⟩

variable (E U q) in
/-- The invariant of the loop. -/
structure Follows (s : Locals) (a : Said) (c : Clock) : Prop where
  keeps : Keeps E U q s.kept a
  closing : s.sawTerminator = a.closing.isSome
  clock : s.clock = c

/-- A step that changes none of it. -/
theorem Follows.same {s s' : Locals} {a : Said} {c : Clock} (h : Follows E U q s a c)
    (hk : s'.kept = s.kept) (ht : s'.sawTerminator = s.sawTerminator) (hc : s'.clock = s.clock) :
    Follows E U q s' a c :=
  ⟨hk ▸ h.keeps, ht ▸ h.closing, hc ▸ h.clock⟩

theorem feedAll_concat (f : ThinkingFilter) (cs : List Text) (t : Text) :
    feedAll U f (cs ++ [t]) =
      ((feedAll U f cs).1 ++ (feed U (feedAll U f cs).2 t).1, (feed U (feedAll U f cs).2 t).2) := by
  induction cs generalizing f with
  | nil =>
      rw [List.nil_append, feedAll, feedAll, feedAll, List.append_nil, List.nil_append]
  | cons c cs ih =>
      rw [List.cons_append, feedAll, feedAll, ih, List.append_assoc]

/-! ## One choice -/

section Choice

variable {s s' : Locals} {a : Said} {c : Clock}

theorem follows_onFinish (h : Follows E U q s a c) (choice : Obj) :
    Follows E U q (onFinish E q s choice)
      { a with closing := if (choice.get "finish_reason").truthy then some choice else a.closing } c := by
  unfold onFinish
  split
  · exact ⟨⟨h.keeps.text, h.keeps.reasoned, h.keeps.calls, rfl, rfl, h.keeps.usage, h.keeps.model,
      h.keeps.heard⟩, rfl, h.clock⟩
  · exact h

theorem follows_onCitations (h : Follows E U q s a c) (delta : Obj) :
    Follows E U q (onCitations E s delta) a c := by
  unfold onCitations
  simp only
  split
  · exact h
  · exact h.same rfl rfl rfl

theorem follows_onReasoning (h : Follows E U q s a c) (delta : Obj) :
    Follows E U q (onReasoning q s delta)
      { a with thoughts := a.thoughts ++ (reasoningOf delta).getD [] } c := by
  unfold onReasoning
  split
  · rename_i thought ht
    rw [ht]
    split
    · rename_i hoff
      refine ⟨⟨h.keeps.text, ?_, h.keeps.calls, h.keeps.finishReason, h.keeps.stopSequence, h.keeps.usage,
        h.keeps.model, h.keeps.heard⟩, h.closing, h.clock⟩
      rw [h.keeps.reasoned, if_pos hoff, if_pos hoff]
    · rename_i hoff
      refine ⟨⟨h.keeps.text, ?_, h.keeps.calls, h.keeps.finishReason, h.keeps.stopSequence, h.keeps.usage,
        h.keeps.model, h.keeps.heard⟩, h.closing, h.clock⟩
      have hr := h.keeps.reasoned
      rw [if_neg hoff] at hr ⊢
      show (s.reasoned ++ [thought]).flatten = a.thoughts ++ thought
      rw [List.flatten_append, List.flatten_singleton]
      exact congrArg (· ++ thought) hr
  · rename_i ht
    rw [ht, Option.getD_none, List.append_nil]
    exact h

theorem follows_onAudio (h : Follows E U q s a c) {delta : Obj} (hs : onAudio E q s delta = .ok s') :
    Follows E U q s' { a with heard := listen E q a.heard delta } c := by
  have hheard : s.heard = a.heard := h.keeps.heard
  unfold onAudio at hs
  split at hs
  · rename_i hq
    split at hs
    · cases hs
    · rename_i fragment heard hf
      cases hs
      have hl : listen E q a.heard delta = heard := by
        rw [listen, if_pos hq, ← hheard, hf]
      rw [hl]
      have kept : Follows E U q { s with heard } { a with heard } c :=
        ⟨⟨h.keeps.text, h.keeps.reasoned, h.keeps.calls, h.keeps.finishReason, h.keeps.stopSequence,
          h.keeps.usage, h.keeps.model, rfl⟩, h.closing, h.clock⟩
      cases fragment with
      | none => exact kept
      | some fragment => exact kept.same rfl rfl rfl
  · rename_i hq
    cases hs
    rw [listen, if_neg hq]
    exact h

theorem accumulate_of_falsy {raw : Json} (h : ¬ raw.truthy = true) (parts : Dict Int Part) :
    accumulateToolCalls E parts raw = parts := by
  cases raw with
  | arr items =>
      cases items with
      | nil => rfl
      | cons item items => exact absurd rfl h
  | null => rfl
  | bool b => rfl
  | int n => rfl
  | float x => rfl
  | str t => rfl
  | obj fields => rfl

theorem follows_onToolCalls (h : Follows E U q s a c) {delta : Obj}
    (hs : onToolCalls E s delta = .ok s') :
    Follows E U q s' { a with calls := accumulateToolCalls E a.calls (delta.get "tool_calls") } c := by
  have hcalls : s.callParts = a.calls := h.keeps.calls
  have gathered : Follows E U q
      { s with callParts := accumulateToolCalls E s.callParts (delta.get "tool_calls") }
      { a with calls := accumulateToolCalls E a.calls (delta.get "tool_calls") } c :=
    ⟨⟨h.keeps.text, h.keeps.reasoned, congrArg (accumulateToolCalls E · _) hcalls, h.keeps.finishReason,
      h.keeps.stopSequence, h.keeps.usage, h.keeps.model, h.keeps.heard⟩, h.closing, h.clock⟩
  unfold onToolCalls at hs
  split at hs
  · rw [bind_eq_ok] at hs
    obtain ⟨fragments, hf, hs⟩ := hs
    rw [Locals.attempt_eq_ok] at hf
    split at hs
    · rename_i hnone
      cases pure_eq_ok.mp hs
      -- fragments that forward nothing add nothing
      have hsame := foldCalls_fromWire (E := E) hf s.callParts
      rw [hnone] at hsame
      rw [← hsame] at gathered
      exact gathered
    · cases pure_eq_ok.mp hs
      exact gathered.same rfl rfl rfl
  · rename_i ht
    cases hs
    rw [accumulate_of_falsy ht]
    exact h

/-- The text is kept in one place or another, and nothing else changes. -/
theorem Follows.text {contents : List Json} (h : Follows E U q s a c)
    (ht : KeepsText U q s'.kept contents)
    (hk : { s'.kept with
      filter := s.filter, fed := s.fed, held := s.held, emitted := s.emitted,
      spoiled := s.spoiled } = s.kept)
    (hn : s'.sawTerminator = s.sawTerminator) (hc : s'.clock = s.clock) :
    Follows E U q s' { a with contents } c := by
  have hr : s'.reasoned = s.reasoned := congrArg Kept.reasoned hk
  have hp : s'.callParts = s.callParts := congrArg Kept.callParts hk
  have hf : s'.finishReason = s.finishReason := congrArg Kept.finishReason hk
  have hs : s'.stopSequence = s.stopSequence := congrArg Kept.stopSequence hk
  have hu : s'.usagePayload = s.usagePayload := congrArg Kept.usagePayload hk
  have hm : s'.servedModel = s.servedModel := congrArg Kept.servedModel hk
  have hh : s'.heard = s.heard := congrArg Kept.heard hk
  refine ⟨⟨ht, ?_, ?_, ?_, ?_, ?_, ?_, ?_⟩, hn ▸ h.closing, hc ▸ h.clock⟩
  · exact (congrArg List.flatten hr).trans h.keeps.reasoned
  · exact hp.trans h.keeps.calls
  · exact hf.trans h.keeps.finishReason
  · exact hs.trans h.keeps.stopSequence
  · exact hu.trans h.keeps.usage
  · exact hm.trans h.keeps.model
  · exact hh.trans h.keeps.heard

/-- Text goes through the filter, or out as it came. -/
theorem keepsText_onVisible (hf : q.forced = none) (h : KeepsText U q s.kept a.contents)
    {t : Text} (ht : t ≠ []) (logprobs : Option (List Json)) :
    KeepsText U q (onVisible U q s t logprobs).kept (a.contents ++ [.str t]) := by
  unfold KeepsText at h ⊢
  rw [hf] at h ⊢
  simp only at h ⊢
  unfold onVisible
  cases hoff : q.off with
  | false =>
      rw [if_neg Bool.false_ne_true, if_neg Bool.false_ne_true]
      rw [hoff, if_neg Bool.false_ne_true] at h
      unfold showText
      rw [if_pos ht]
      refine ⟨h.1, h.2.1, h.2.2.1, ?_, fun hs => ?_⟩
      · rw [List.any_append, ← h.2.2.2.1]
        exact (Bool.or_false _).symm
      · show a.contents ++ [.str t] = (s.emitted ++ [t]).map .str
        rw [List.map_append, h.2.2.2.2 hs]
        rfl
  | true =>
      rw [if_pos rfl, if_pos rfl]
      rw [hoff, if_pos rfl] at h
      obtain ⟨hheld, hfed, hfeed, hsp⟩ := h
      have fed : a.contents ++ [.str t] = (s.fed ++ [t]).map .str := by
        rw [List.map_append, hfed]
        rfl
      have hfeed : feedAll U {} s.fed = (s.emitted.flatten, s.filter) := hfeed
      have hnext : feedAll U {} (s.fed ++ [t]) =
          (s.emitted.flatten ++ (feed U s.filter t).1, (feed U s.filter t).2) := by
        rw [feedAll_concat, hfeed]
      unfold showText
      split
      · refine ⟨hheld, fed, ?_, hsp⟩
        show feedAll U {} (s.fed ++ [t]) =
          ((s.emitted ++ [(feed U s.filter t).1]).flatten, (feed U s.filter t).2)
        rw [hnext, List.flatten_append, List.flatten_singleton]
      · rename_i hv
        rw [not_not] at hv
        rw [hv, List.append_nil] at hnext
        cases logprobs with
        | none => exact ⟨hheld, fed, hnext, hsp⟩
        | some content => exact ⟨hheld, fed, hnext, hsp⟩

theorem kept_onVisible (s : Locals) (t : Text) (logprobs : Option (List Json)) :
    { (onVisible U q s t logprobs).kept with
      filter := s.filter, fed := s.fed, held := s.held, emitted := s.emitted,
      spoiled := s.spoiled } = s.kept ∧
    (onVisible U q s t logprobs).sawTerminator = s.sawTerminator ∧
    (onVisible U q s t logprobs).clock = s.clock := by
  unfold onVisible showText
  split
  · split
    · exact ⟨rfl, rfl, rfl⟩
    · cases logprobs <;> exact ⟨rfl, rfl, rfl⟩
  · split
    · exact ⟨rfl, rfl, rfl⟩
    · cases logprobs <;> exact ⟨rfl, rfl, rfl⟩

theorem follows_onText (h : Follows E U q s a c) {delta : Obj} {logprobs : Option (List Json)}
    (hs : onText U q s delta logprobs = .ok s') :
    Follows E U q s' { a with
      contents := a.contents ++
        if (delta.get "content").truthy then [delta.get "content"] else [] } c := by
  have ht := h.keeps.text
  unfold onText at hs
  simp only at hs
  split at hs
  · rename_i htruthy
    rw [if_pos htruthy]
    split at hs
    · rename_i tool hforced
      cases hs
      refine h.text ?_ rfl rfl rfl
      unfold KeepsText at ht ⊢
      rw [hforced] at ht ⊢
      exact ⟨congrArg (· ++ [delta.get "content"]) ht.1, ht.2⟩
    · rename_i hforced
      split at hs
      · rename_i t hv
        cases hs
        rw [hv] at htruthy ⊢
        have hne : t ≠ [] := by rwa [truthy_str, decide_eq_true_eq] at htruthy
        obtain ⟨hk, hn, hc⟩ := kept_onVisible (U := U) (q := q) s t logprobs
        exact h.text (keepsText_onVisible hforced ht hne logprobs) hk hn hc
      · rename_i hv
        split at hs
        · cases hs
        · rename_i hoff
          cases hs
          refine h.text ?_ rfl rfl rfl
          have hno : isText (delta.get "content") = false := by
            generalize delta.get "content" = v at hv
            cases v with
            | str t => exact absurd rfl (hv t)
            | null => rfl
            | bool b => rfl
            | int n => rfl
            | float x => rfl
            | arr items => rfl
            | obj fields => rfl
          unfold KeepsText at ht ⊢
          rw [hforced] at ht ⊢
          simp only [if_neg hoff] at ht ⊢
          refine ⟨ht.1, ht.2.1, ht.2.2.1, ?_, fun hs => Bool.noConfusion hs⟩
          show true = (a.contents ++ [delta.get "content"]).any (!isText ·)
          rw [List.any_append, List.any_cons, hno]
          exact (Bool.or_true _).symm
  · rename_i htruthy
    rw [if_neg htruthy, List.append_nil]
    cases hs
    cases logprobs with
    | none => exact h
    | some content => exact h.same rfl rfl rfl

theorem dictOf_of_ok {v : Json} {d : Obj} (h : dictOrEmpty v = .ok d) : dictOf v = d := by
  unfold dictOrEmpty at h
  split at h
  · unfold asDict at h
    split at h
    · cases h
      rfl
    · cases h
  · rename_i ht
    cases h
    cases v with
    | obj d =>
        cases d with
        | nil => rfl
        | cons f fs => exact absurd rfl ht
    | null => rfl
    | bool b => rfl
    | int n => rfl
    | float x => rfl
    | str t => rfl
    | arr items => rfl

/-- What a choice says is kept. -/
theorem follows_onChoice (h : Follows E U q s a c) {choice : Json}
    (hs : onChoice E U q s choice = .ok s') : Follows E U q s' (a.choice E q choice) c := by
  simp only [onChoice, bind_eq_ok, Locals.attempt_eq_ok] at hs
  obtain ⟨o, ho, delta, hd, s₁, h₁, s₂, h₂, h₃⟩ := hs
  cases choice with
  | obj o' =>
      cases ho
      have hdelta : deltaIn (.obj o) = delta := dictOf_of_ok hd
      have spoken := follows_onFinish h o
      have logged : Follows E U q (onLogprobs (onFinish E q s o) (logprobsOf E (Obj.get o "logprobs")))
          _ c := spoken.same rfl rfl rfl
      have reasoned := follows_onReasoning (follows_onCitations logged delta) delta
      have done := follows_onText (follows_onToolCalls (follows_onAudio reasoned h₁) h₂) h₃
      rw [← hdelta] at done
      exact done
  | null => cases ho
  | bool b => cases ho
  | int n => cases ho
  | float x => cases ho
  | str t => cases ho
  | arr items => cases ho

end Choice

/-! ## One event -/

section Event

variable {s s' : Locals} {a : Said} {c : Clock}

theorem follows_foldlM {choices : List Json} (h : Follows E U q s a c)
    (hs : choices.foldlM (onChoice E U q) s = .ok s') :
    Follows E U q s' (choices.foldl (Said.choice E q) a) c := by
  induction choices generalizing s a with
  | nil =>
      cases pure_eq_ok.mp hs
      exact h
  | cons choice rest ih =>
      rw [List.foldlM_cons, bind_eq_ok] at hs
      obtain ⟨s₁, h₁, hs⟩ := hs
      exact ih (follows_onChoice h h₁) hs

theorem follows_onProgress (h : Follows E U q s a c) {now : ℚ} {event : Json}
    (hs : onProgress E q now s event = .ok s') :
    Follows E U q s' a { c with armed := c.armed || arms event } := by
  have hc : s.clock = c := h.clock
  unfold onProgress at hs
  split at hs
  · rename_i read hr
    have harm : { c with armed := c.armed || arms event } = c := by
      rw [arms, hr]
      exact congrArg (fun armed => { c with armed }) (Bool.or_false _)
    rw [harm]
    split at hs
    · rw [bind_eq_ok] at hs
      obtain ⟨p, -, hs⟩ := hs
      split at hs
      · cases pure_eq_ok.mp hs
        exact h.same rfl rfl rfl
      · cases pure_eq_ok.mp hs
        exact h
    · cases hs
      exact h
  · rename_i hr
    have harm : arms event = true := by
      unfold arms
      split
      · rename_i read hr'
        exact absurd hr' (hr read)
      · rfl
    have armed : Follows E U q { s with sawFirstData := true } a
        { c with armed := c.armed || arms event } := by
      rw [harm, Bool.or_true]
      exact ⟨h.keeps, h.closing, congrArg (fun k : Clock => { k with armed := true }) hc⟩
    simp only at hs
    split at hs
    · rw [bind_eq_ok] at hs
      obtain ⟨writing, -, hs⟩ := hs
      split at hs
      · split at hs
        · cases pure_eq_ok.mp hs
          exact armed.same rfl rfl rfl
        · cases pure_eq_ok.mp hs
          exact armed
      · cases pure_eq_ok.mp hs
        exact armed
    · cases hs
      exact armed

theorem follows_onEnvelope (h : Follows E U q s a c) (event : Json) :
    Follows E U q (onEnvelope E q s (dictOf event)) (a.envelope E q event) c := by
  have hm : s.servedModel = a.model := h.keeps.model
  have hu : s.usagePayload = a.usage := h.keeps.usage
  unfold onEnvelope Said.envelope
  simp only
  split
  · exact ⟨⟨h.keeps.text, h.keeps.reasoned, h.keeps.calls, h.keeps.finishReason, h.keeps.stopSequence, rfl,
      by rw [← hm]; rfl, h.keeps.heard⟩, h.closing, h.clock⟩
  · exact ⟨⟨h.keeps.text, h.keeps.reasoned, h.keeps.calls, h.keeps.finishReason, h.keeps.stopSequence, hu,
      by rw [← hm]; rfl, h.keeps.heard⟩, h.closing, h.clock⟩

theorem choicesIn_of_ok {event : Json} {choices : List Json}
    (h : listOrEmpty (Obj.get (dictOf event) "choices") = .ok choices) : choicesIn event = choices := by
  unfold choicesIn
  generalize Obj.get (dictOf event) "choices" = v at h
  unfold listOrEmpty at h
  split at h
  · cases v with
    | arr items => cases h; rfl
    | null => cases h
    | bool b => cases h
    | int n => cases h
    | float x => cases h
    | str t => cases h
    | obj fields => cases h
  · rename_i ht
    cases h
    cases v with
    | arr items =>
        cases items with
        | nil => rfl
        | cons item items => exact absurd rfl ht
    | null => rfl
    | bool b => rfl
    | int n => rfl
    | float x => rfl
    | str t => rfl
    | obj fields => rfl

/-- What an event says is kept. -/
theorem follows_onEvent (h : Follows E U q s a c) {now : ℚ} {event : Json}
    (hs : onEvent E U q now s event = .ok s') :
    Follows E U q s' (a.event E q event) { c with armed := c.armed || arms event } := by
  unfold onEvent at hs
  split at hs
  · cases hs
  · simp only [bind_eq_ok, Locals.attempt_eq_ok] at hs
    obtain ⟨s₁, h₁, o, ho, choices, hc, hs⟩ := hs
    have ho : dictOf event = o := by
      cases event with
      | obj o' => cases ho; rfl
      | null => cases ho
      | bool b => cases ho
      | int n => cases ho
      | float x => cases ho
      | str t => cases ho
      | arr items => cases ho
    rw [← ho] at hc hs
    rw [Said.event, choicesIn_of_ok hc]
    exact follows_foldlM (follows_onEnvelope (follows_onProgress h h₁) event) hs

end Event

/-! ## The lines -/

variable (q) in
/-- What the loop comes to at the end of the lines. -/
def endingVerdict (ending : Ending) (a : Said) : Verdict :=
  match ending with
  | .done => .fine
  | .closed => .fine
  | .late => if a.closing.isSome then .fine else cutVerdict q a
  | .lost => .fails
  | .unreadable => .escapes

section Lines

variable {s s' : Locals} {a : Said} {c : Clock}

theorem spoiled_eq (h : Follows E U q s a c) : s.spoiled = a.spoiled q := by
  have ht := h.keeps.text
  unfold KeepsText at ht
  unfold Said.spoiled
  cases hf : q.forced with
  | some tool =>
      rw [hf] at ht
      exact ht.2.2.2.2
  | none =>
      rw [hf] at ht
      simp only at ht
      cases hoff : q.off with
      | true =>
          rw [hoff, if_pos rfl] at ht
          exact ht.2.2.2
      | false =>
          rw [hoff, if_neg Bool.false_ne_true] at ht
          exact ht.2.2.2.1

theorem verdict_cut {α : Type} (h : Follows E U q s a c) (failure : Nat → Failure)
    (hf : ∀ n, (failure n).verdict = .fails) :
    runVerdict (s.cut failure : Except Raised α) = cutVerdict q a := by
  unfold Locals.cut cutVerdict
  rw [spoiled_eq h]
  split
  · rfl
  · exact hf _

theorem follows_onQuiet (h : Follows E U q s a c) (waited : ℚ) (line : Text) :
    Follows E U q (onQuiet q s waited line) a (c.after q waited line) := by
  obtain ⟨hk, ht, hc⟩ := h
  rw [← hc]
  unfold onQuiet Clock.after
  split
  · exact ⟨hk, ht, rfl⟩
  · exact ⟨hk, ht, rfl⟩

variable (E U q) in
/-- Where the loop is left: what was said is kept, and the answer is closed
by a choice or by `[DONE]`. -/
structure Leaves (s : Locals) (a : Said) (ending : Ending) : Prop where
  keeps : Keeps E U q s.kept a
  closed : s.sawTerminator = (a.closing.isSome || ending = .done)
  met : ending ≠ .lost ∧ ending ≠ .unreadable ∧ (ending = .late → a.closing.isSome)

/-- One line: it is passed over, it ends the loop, or it is an event. -/
theorem onLine_spec (h : Follows E U q s a c) (waited now : ℚ) (text : Text) :
    match readLine E q c waited text with
    | .nothing c' => ∃ s', onLine E U q waited now text s = .ok (.again s') ∧ Follows E U q s' a c'
    | .ending ending =>
        runVerdict (onLine E U q waited now text s) = endingVerdict q ending a ∧
          ∀ n, onLine E U q waited now text s = .ok n →
            ∃ s', n = .last s' ∧ Leaves E U q s' a ending
    | .event c' event =>
        ∃ s₁, Follows E U q s₁ a c' ∧
          onLine E U q waited now text s = .again <$> onEvent E U q now s₁ event := by
  have hlate : s.stalls q waited ↔ c.late q waited := by rw [← h.clock]; rfl
  have hquiet := follows_onQuiet h waited text
  unfold readLine onLine
  by_cases hl : c.late q waited
  · rw [if_pos hl, if_pos (hlate.mpr hl)]
    simp only [endingVerdict]
    rw [h.closing]
    cases ht : a.closing.isSome with
    | true =>
        refine ⟨rfl, fun n hn => ?_⟩
        rw [if_pos rfl] at hn
        cases hn
        exact ⟨s, rfl, h.keeps, by rw [h.closing, ht]; rfl, by simp, by simp, fun _ => ht⟩
    | false =>
        rw [if_neg Bool.false_ne_true, if_neg Bool.false_ne_true]
        exact ⟨verdict_cut h _ fun _ => rfl, fun n hn => absurd hn Locals.cut_ne_ok⟩
  · rw [if_neg hl, if_neg fun hs => hl (hlate.mp hs)]
    simp only
    by_cases hcolon : q.report = true ∧ ":".toList.isPrefixOf text = true
    · rw [if_pos hcolon, if_pos hcolon]
      show ∃ s', _ ∧ Follows E U q s' a _
      split
      · exact ⟨_, rfl, hquiet.same rfl rfl rfl⟩
      · exact ⟨_, rfl, hquiet⟩
    · rw [if_neg hcolon, if_neg hcolon]
      cases hd : sseData text with
      | none => exact ⟨_, rfl, hquiet⟩
      | some data =>
          simp only
          by_cases hdone : data = "[DONE]".toList
          · rw [if_pos hdone, if_pos hdone]
            refine ⟨rfl, fun n hn => ?_⟩
            cases hn
            exact ⟨_, rfl, hquiet.keeps, (Bool.or_true _).symm, by simp, by simp, by simp⟩
          · rw [if_neg hdone, if_neg hdone]
            cases E.loads data with
            | malformed =>
                exact ⟨_, rfl, hquiet.keeps, hquiet.closing,
                  congrArg (fun k : Clock => { k with armed := true }) hquiet.clock⟩
            | escapes => exact ⟨rfl, fun n hn => (by cases hn)⟩
            | value event => exact ⟨_, hquiet, rfl⟩

/-- Where it leaves the lines, what was said is kept. -/
theorem leaves_readLines (arrivals : List Arrival) {s s' : Locals} {a : Said} {c : Clock}
    (h : Follows E U q s a c) (hs : readLines E U q s arrivals = .ok s') :
    Leaves E U q s' ((read E q c arrivals).1.foldl (Said.event E q) a) (read E q c arrivals).2 := by
  induction arrivals generalizing s a c with
  | nil =>
      cases hs
      exact ⟨h.keeps, by rw [h.closing]; exact (Bool.or_false _).symm, by simp [read], by simp [read],
        by simp [read]⟩
  | cons arrival rest ih =>
      cases arrival with
      | timeout => cases hs
      | broken said => cases hs
      | line waited now text =>
          have hline := onLine_spec h waited now text
          rw [readLines, bind_eq_ok] at hs
          obtain ⟨n, hn, hs⟩ := hs
          rw [read]
          cases hr : readLine E q c waited text with
          | nothing c' =>
              rw [hr] at hline
              obtain ⟨s₁, hs₁, hf⟩ := hline
              cases hn.symm.trans hs₁
              exact ih hf hs
          | ending ending =>
              rw [hr] at hline
              obtain ⟨s₁, rfl, hl⟩ := hline.2 n hn
              cases pure_eq_ok.mp hs
              exact hl
          | event c' event =>
              rw [hr] at hline
              obtain ⟨s₁, hf, hs₁⟩ := hline
              obtain ⟨s₂, hs₂, rfl⟩ := map_eq_ok.mp (hs₁.symm.trans hn)
              exact ih (follows_onEvent hf hs₂) hs

end Lines

end InferenceDriver.OpenAi

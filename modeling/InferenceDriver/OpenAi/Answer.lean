/-
# `OpenAi.Answer` — the answer is what was said

`_stream` as one function of what the backend said: the text that is
shown, the calls, the reasons, and when the run raises instead.
`chatStream_answers` and `verdict_chatStream` are the two halves of it,
for every sequence of lines.
-/
import InferenceDriver.OpenAi.Run

namespace InferenceDriver.OpenAi

open Checks Thinking

variable (E : Env) (U : Ucd) (q : Setup)

/-! ## What was said, as an answer -/

def asText (v : Json) : Option Text :=
  match v with
  | .str s => some s
  | _ => none

/-- The pieces of the text. -/
def Said.texts (a : Said) : List Text := a.contents.filterMap asText

/-- Text was held back, and nothing else made a call. -/
def Said.looksAtText (a : Said) : Bool := q.forced.isSome && a.contents ≠ [] && a.calls.items.isEmpty

/-- Whether a text is the arguments of a call. -/
def isCall (finish text : Text) : Bool :=
  finish ≠ "length".toList &&
    match E.loads text with
    | .value (.obj _) => true
    | _ => false

/-- Held text that a call is made of, or that is shown. -/
def callOk (finish text : Text) : Bool :=
  finish = "length".toList ||
    match E.loads text with
    | .escapes => false
    | .value (.obj _) => E.holds (strip text)
    | _ => true

/-- A call is made of the held text. -/
def Said.makesCall (a : Said) : Bool :=
  a.looksAtText q && isCall E (a.finishReason E) a.texts.flatten

/-- The text that is shown. -/
def Said.shown (a : Said) : Text :=
  match q.forced with
  | none => if q.off then streamed U a.texts else a.texts.flatten
  | some _ => if a.looksAtText q && !a.makesCall E q then a.texts.flatten else []

/-- The calls, that of the held text included. -/
def Said.parts (hex : Text) (a : Said) : Dict Int Part :=
  if a.makesCall E q then
    Dict.empty.set 0
      { id := newCallId hex, name := q.forced.getD [], arguments := strip a.texts.flatten }
  else a.calls

def Said.toolCalls (hex : Nat → Text) (a : Said) : List ToolCall :=
  finishToolCalls hex (a.parts E q (hex 0))

def Said.finished (a : Said) : FinishReason :=
  if (a.stopSequence q).isSome then .stopSequence
  else if a.makesCall E q then .toolCalls
  else finishReasonOf (a.finishReason E)

/-- What the terminal frame carries. -/
structure Answers (hex : Nat → Text) (a : Said) (r : GenerateResponse) : Prop where
  content : r.content.getD [] = a.shown E U q
  reasoning : r.reasoning = if q.off ∨ a.thoughts = [] then none else some a.thoughts
  toolCalls : r.toolCalls = a.toolCalls E q hex
  finishReason : r.finishReason = a.finished E q
  stopSequence : r.stopSequence = a.stopSequence q
  usage : usageFromEnvelope E a.usage = .ok r.usage
  modelId : r.modelId = some a.model

/-- The clip can be put together. -/
def clipOk (heard : AudioAssembly) : Bool :=
  match q.audio with
  | some asked =>
      !q.assembleAudio ||
        match heard.result E.b64encode asked with
        | some clip => clip.all fun c => E.holdsAll c.id && E.holdsAll c.transcript
        | none => false
  | none => true

/-- The held text can be joined and read. -/
def Said.heldOk (a : Said) : Bool :=
  !a.looksAtText q || a.contents.all isText && callOk E (a.finishReason E) a.texts.flatten

/-- The contract's model takes the answer. -/
def Said.resultOk (a : Said) : Bool :=
  !a.spoiled q && clipOk E q a.heard && usageOk E a.usage && E.holds (a.shown E U q) &&
    (q.off || E.holds a.thoughts) && E.holds a.model

def Said.verdict (a : Said) : Verdict := .must (a.heldOk E q && a.resultOk E U q)

variable {E U q}

/-! ## Held text -/

theorem joined_of_all {parts : List Json} (h : parts.all isText = true) :
    joined parts = .ok (parts.filterMap asText).flatten := by
  induction parts with
  | nil => rfl
  | cons v rest ih =>
      rw [List.all_cons, Bool.and_eq_true] at h
      cases v with
      | str s =>
          rw [joined, ih h.2]
          rfl
      | null => cases h.1
      | bool b => cases h.1
      | int n => cases h.1
      | float x => cases h.1
      | arr items => cases h.1
      | obj fields => cases h.1

theorem isStr_length (finish : Text) :
    (Json.str finish).isStr "length".toList = decide (finish = "length".toList) := rfl

theorem stepVerdict_forcedCall (hex tool text finish : Text) :
    stepVerdict (forcedCall E hex tool (.str text) (.str finish)) = .must (callOk E finish text) := by
  unfold forcedCall callOk
  simp only [isStr_length, decide_eq_true_eq]
  by_cases hl : finish = "length".toList
  · rw [if_pos hl, decide_eq_true hl]
    rfl
  · rw [if_neg hl, decide_eq_false hl, Bool.false_or]
    cases E.loads text with
    | malformed => rfl
    | escapes => rfl
    | value v =>
        cases v with
        | obj o =>
            simp only
            cases E.holds (strip text) <;> rfl
        | null => rfl
        | bool b => rfl
        | int n => rfl
        | float x => rfl
        | str t => rfl
        | arr items => rfl

theorem forcedCall_eq_ok {hex tool text finish : Text} {made : Option ToolCall}
    (h : forcedCall E hex tool (.str text) (.str finish) = .ok made) :
    made = if isCall E finish text then
      some { id := newCallId hex, name := tool, arguments := strip text } else none := by
  unfold forcedCall at h
  unfold isCall
  simp only [isStr_length, decide_eq_true_eq] at h
  by_cases hl : finish = "length".toList
  · rw [if_pos hl] at h
    cases h
    simp [hl]
  · rw [if_neg hl] at h
    rw [show decide (finish ≠ "length".toList) = true from decide_eq_true hl, Bool.true_and]
    cases hv : E.loads text with
    | malformed => rw [hv] at h; cases h; rfl
    | escapes => rw [hv] at h; cases h
    | value v =>
        rw [hv] at h
        cases v with
        | obj o =>
            simp only at h
            split at h
            · cases h; rfl
            · cases h
        | null => cases h; rfl
        | bool b => cases h; rfl
        | int n => cases h; rfl
        | float x => cases h; rfl
        | str t => cases h; rfl
        | arr items => cases h; rfl

/-! ## After the loop -/

section Ends

variable {s s' : Locals} {a : Said}

theorem filterMap_str (texts : List Text) : (texts.map Json.str).filterMap asText = texts := by
  induction texts with
  | nil => rfl
  | cons t rest ih => exact congrArg (t :: ·) ih

theorem kept_onFlush (s : Locals) : { (onFlush U q s).kept with emitted := s.emitted } = s.kept := by
  unfold onFlush
  simp only
  split
  · split <;> rfl
  · rfl

/-- Once the filter is flushed, what was emitted is what is shown of text
that is not held back. -/
theorem flushed (h : Keeps E U q s.kept a) (hs : s.spoiled = false) :
    (onFlush U q s).emitted.flatten =
      if q.forced.isSome then [] else if q.off then streamed U a.texts else a.texts.flatten := by
  have ht := h.text
  unfold KeepsText at ht
  unfold onFlush
  cases hf : q.forced with
  | some tool =>
      rw [hf] at ht
      obtain ⟨-, hem, hfed, hfil, -⟩ := ht
      have hfil : s.filter = {} := hfil
      have hem : s.emitted = [] := hem
      have hflush : flush U s.filter = [] := by rw [hfil]; rfl
      rw [hflush, Option.isSome_some, if_pos rfl]
      split
      · exact congrArg List.flatten hem
      · exact congrArg List.flatten hem
  | none =>
      rw [hf] at ht
      rw [Option.isSome_none, if_neg Bool.false_ne_true]
      simp only at ht ⊢
      cases hoff : q.off with
      | false =>
          rw [hoff, if_neg Bool.false_ne_true] at ht
          rw [if_neg Bool.false_ne_true, if_neg Bool.false_ne_true]
          have hc : a.contents = s.emitted.map .str := ht.2.2.2.2 hs
          rw [Said.texts, hc, filterMap_str]
      | true =>
          rw [hoff, if_pos rfl] at ht
          rw [if_pos rfl, if_pos rfl]
          obtain ⟨-, hfed, hfeed, -⟩ := ht
          have hfeed : feedAll U {} s.fed = (s.emitted.flatten, s.filter) := hfeed
          have htexts : a.texts = s.fed := by
            rw [Said.texts, hfed, filterMap_str]
            rfl
          have hst : streamed U a.texts = s.emitted.flatten ++ flush U s.filter := by
            rw [htexts, streamed, hfeed]
          rw [hst]
          split
          · rename_i hnone
            rw [hnone, List.append_nil]
          · show (s.emitted ++ [flush U s.filter]).flatten = _
            rw [List.flatten_append, List.flatten_singleton]

theorem Keeps.held (h : Keeps E U q s.kept a) (tool : Text) (hf : q.forced = some tool) :
    s.held = a.contents := by
  have ht := h.text
  unfold KeepsText at ht
  rw [hf] at ht
  exact ht.1

/-- What the held text comes to: the text shown, the calls and the reason. -/
structure Held (hex : Text) (a : Said) (before s : Locals) : Prop where
  emitted : s.emitted.flatten =
    before.emitted.flatten ++ if a.looksAtText q && !a.makesCall E q then a.texts.flatten else []
  calls : s.callParts =
    if a.makesCall E q then
      (Dict.empty : Dict Int Part).set 0 { id := newCallId hex, name := q.forced.getD [], arguments := strip a.texts.flatten }
    else before.callParts
  finishReason : s.finishReason = if a.makesCall E q then "tool_calls".toList else before.finishReason
  rest : { s.kept with
    emitted := before.emitted, callParts := before.callParts,
    finishReason := before.finishReason } = before.kept

theorem held_of_not_looking {hex : Text} (hl : a.looksAtText q = false) (s : Locals) :
    Held (E := E) (q := q) hex a s s := by
  have hm : a.makesCall E q = false := by rw [Said.makesCall, hl, Bool.false_and]
  refine ⟨?_, ?_, ?_, rfl⟩
  · rw [hl, Bool.false_and, if_neg Bool.false_ne_true, List.append_nil]
  · rw [hm, if_neg Bool.false_ne_true]
  · rw [hm, if_neg Bool.false_ne_true]

theorem not_looking_of (h : a.contents = [] ∨ a.calls.items ≠ []) : a.looksAtText q = false := by
  unfold Said.looksAtText
  rcases h with h | h
  · rw [h]
    simp
  · rw [show a.calls.items.isEmpty = false from List.isEmpty_eq_false_iff.mpr h, Bool.and_false]

theorem looking_of {tool : Text} (hf : q.forced = some tool)
    (h : ¬ (a.contents = [] ∨ a.calls.items ≠ [])) : a.looksAtText q = true := by
  rw [not_or, not_not] at h
  unfold Said.looksAtText
  rw [hf, h.2]
  simp [h.1]

theorem held_onHeld {hex : Text} (hh : ∀ tool, q.forced = some tool → s.held = a.contents)
    (hc : s.callParts = a.calls) (hf : s.finishReason = a.finishReason E)
    (hs : onHeld E q hex s = .ok s') : Held (E := E) (q := q) hex a s s' := by
  unfold onHeld at hs
  cases hforced : q.forced with
  | none =>
      rw [hforced] at hs
      cases hs
      exact held_of_not_looking (by rw [Said.looksAtText, hforced]; rfl) s
  | some tool =>
      rw [hforced] at hs
      simp only at hs
      split at hs
      · rename_i hno
        rw [hh tool hforced, hc] at hno
        cases hs
        exact held_of_not_looking (not_looking_of hno) s
      · rename_i hno
        rw [hh tool hforced, hc] at hno
        have hl := looking_of (q := q) hforced hno
        simp only [bind_eq_ok, Locals.attempt_eq_ok] at hs
        obtain ⟨text, ht, made, hm, hs⟩ := hs
        rw [hh tool hforced] at ht
        rw [hf] at hm
        obtain ⟨texts, hp, rfl⟩ := joined_eq_ok.mp ht
        have htexts : a.texts = texts := by rw [Said.texts, hp, filterMap_str]
        rw [← htexts] at hm hs
        have hmade := forcedCall_eq_ok hm
        have hcall : a.makesCall E q = isCall E (a.finishReason E) a.texts.flatten := by
          rw [Said.makesCall, hl, Bool.true_and]
        have hempty : a.calls = .empty := by
          rw [not_or, not_not] at hno
          exact Dict.eq_empty hno.2
        cases hic : isCall E (a.finishReason E) a.texts.flatten with
        | true =>
            rw [hic, if_pos rfl] at hmade
            rw [hmade] at hs
            cases pure_eq_ok.mp hs
            rw [hic] at hcall
            refine ⟨?_, ?_, ?_, rfl⟩
            · rw [hcall, Bool.not_true, Bool.and_false, if_neg Bool.false_ne_true, List.append_nil]
              rfl
            · rw [hcall, if_pos rfl, ← hempty, ← hc, hforced]
              rfl
            · rw [hcall, if_pos rfl]
        | false =>
            rw [hic, if_neg Bool.false_ne_true] at hmade
            rw [hmade] at hs
            cases pure_eq_ok.mp hs
            rw [hic] at hcall
            refine ⟨?_, ?_, ?_, rfl⟩
            · rw [hl, hcall]
              show (s.emitted ++ [a.texts.flatten]).flatten = _
              rw [List.flatten_append, List.flatten_singleton]
              rfl
            · rw [hcall, if_neg Bool.false_ne_true]
              rfl
            · rw [hcall, if_neg Bool.false_ne_true]
              rfl

/-- The text that is shown: what was not held back, and held text no call
was made of. -/
theorem shown_eq (a : Said) :
    a.shown E U q =
      (if q.forced.isSome then [] else if q.off then streamed U a.texts else a.texts.flatten) ++
        if a.looksAtText q && !a.makesCall E q then a.texts.flatten else [] := by
  unfold Said.shown
  cases hf : q.forced with
  | none =>
      have hl : a.looksAtText q = false := by rw [Said.looksAtText, hf]; rfl
      rw [hl, Bool.false_and, if_neg Bool.false_ne_true, List.append_nil]
      rfl
  | some tool => rfl

/-- The local variables once the held text has been dealt with. -/
structure Ended (hex : Text) (a : Said) (s : Locals) : Prop where
  spoiled : s.spoiled = a.spoiled q
  shown : s.spoiled = false → s.emitted.flatten = a.shown E U q
  reasoned : s.reasoned.flatten = if q.off then [] else a.thoughts
  calls : s.callParts = a.parts E q hex
  finishReason : s.finishReason = if a.makesCall E q then "tool_calls".toList else a.finishReason E
  stopSequence : s.stopSequence = a.stopSequence q
  usage : s.usagePayload = a.usage
  model : s.servedModel = a.model
  heard : s.heard = a.heard

theorem kept_before {ending : Ending} (h : Leaves E U q s a ending) :
    (∀ tool, q.forced = some tool → (onFlush U q s).held = a.contents) ∧
      (onFlush U q s).callParts = a.calls ∧ (onFlush U q s).finishReason = a.finishReason E := by
  have hk := kept_onFlush (U := U) (q := q) s
  refine ⟨fun tool hf => ?_, ?_, ?_⟩
  · exact (congrArg Kept.held hk).trans (h.keeps.held tool hf)
  · exact (congrArg Kept.callParts hk).trans h.keeps.calls
  · exact (congrArg Kept.finishReason hk).trans h.keeps.finishReason

theorem ended_onHeld {hex : Text} {ending : Ending} (h : Leaves E U q s a ending)
    (hs : onHeld E q hex (onFlush U q s) = .ok s') : Ended (E := E) (U := U) (q := q) hex a s' := by
  obtain ⟨hh, hc, hf⟩ := kept_before h
  have held := held_onHeld hh hc hf hs
  have hk := kept_onFlush (U := U) (q := q) s
  have hsp : s'.spoiled = s.spoiled := (congrArg Kept.spoiled held.rest).trans (congrArg Kept.spoiled hk)
  have hspoiled : s.spoiled = a.spoiled q :=
    spoiled_eq (c := s.clock) (a := a) (s := { s with sawTerminator := a.closing.isSome })
      ⟨h.keeps, rfl, rfl⟩
  refine ⟨hsp.trans hspoiled, fun hno => ?_, ?_, ?_, ?_, ?_, ?_, ?_, ?_⟩
  · rw [held.emitted, flushed h.keeps (hsp ▸ hno), shown_eq]
  · have : s'.reasoned = s.reasoned :=
      (congrArg Kept.reasoned held.rest).trans (congrArg Kept.reasoned hk)
    rw [this]
    exact h.keeps.reasoned
  · rw [held.calls, hc]
    rfl
  · rw [held.finishReason, hf]
  · have : s'.stopSequence = s.stopSequence :=
      (congrArg Kept.stopSequence held.rest).trans (congrArg Kept.stopSequence hk)
    exact this.trans h.keeps.stopSequence
  · have : s'.usagePayload = s.usagePayload :=
      (congrArg Kept.usagePayload held.rest).trans (congrArg Kept.usagePayload hk)
    exact this.trans h.keeps.usage
  · have : s'.servedModel = s.servedModel :=
      (congrArg Kept.servedModel held.rest).trans (congrArg Kept.servedModel hk)
    exact this.trans h.keeps.model
  · have : s'.heard = s.heard := (congrArg Kept.heard held.rest).trans (congrArg Kept.heard hk)
    exact this.trans h.keeps.heard

theorem answers_resultOf {hex : Nat → Text} (h : Ended (E := E) (U := U) (q := q) (hex 0) a s)
    {r : GenerateResponse} (hr : resultOf E q hex s = .ok r) : Answers E U q hex a r := by
  unfold resultOf at hr
  split at hr
  · cases hr
  · rename_i hsp
    have hsp := Bool.eq_false_iff.mpr hsp
    simp only [bind_eq_ok, checked_eq_ok] at hr
    obtain ⟨clip, -, usage, hu, rfl, -⟩ := hr
    refine ⟨?_, ?_, ?_, ?_, h.stopSequence, ?_, congrArg some h.model⟩
    · rw [← h.shown hsp]
      simp only
      split
      · rfl
      · rename_i hno
        rw [not_or, not_not] at hno
        exact hno.1.symm
    · rw [h.reasoned]
      cases q.off with
      | true => rfl
      | false =>
          simp only [Bool.false_eq_true, if_false, false_or]
    · rw [h.calls]
      rfl
    · rw [h.stopSequence, h.finishReason, Said.finished]
      show (if (a.stopSequence q).isSome = true then _ else finishReasonOf _) = _
      cases a.makesCall E q <;> rfl
    · rw [← h.usage]
      exact hu

theorem answers_finish {hex : Nat → Text} {ending : Ending} {chunks : List Chunk}
    (h : Leaves E U q s a ending) (hs : finish E U q hex s = .ok chunks) :
    s.sawTerminator = true ∧ ∃ frames r, chunks = frames ++ [.done r] ∧ Answers E U q hex a r := by
  unfold finish at hs
  split at hs
  · exact absurd hs Locals.cut_ne_ok
  · rename_i ht
    simp only [bind_eq_ok, pure_eq_ok, Locals.attempt_eq_ok] at hs
    obtain ⟨s', hs', r, hr, rfl⟩ := hs
    exact ⟨not_not.mp ht, s'.sent, r, rfl, answers_resultOf (ended_onHeld h hs') hr⟩

end Ends

/-! ## The run -/

theorem follows_opened : Follows E U q (opened q) (unsaid q) {} := by
  have start : Follows E U q { servedModel := q.target.id, heard := { keep := q.assembleAudio } }
      (unsaid q) {} := by
    refine ⟨⟨?_, ?_, rfl, rfl, rfl, rfl, rfl, rfl⟩, rfl, rfl⟩
    · unfold KeepsText
      cases q.forced with
      | some tool => exact ⟨rfl, rfl, rfl, rfl, rfl⟩
      | none =>
          refine ⟨rfl, ?_⟩
          split
          · exact ⟨rfl, rfl, rfl⟩
          · exact ⟨rfl, rfl, rfl, fun _ => rfl⟩
    · show ([] : Text) = if q.off then [] else []
      rw [ite_self]
  unfold opened
  simp only
  split
  · exact start.same rfl rfl rfl
  · exact start

/-- **A run that ends answers what was said**: its frames are followed by
one terminal frame, and the answer was closed by a choice or by `[DONE]`. -/
theorem chatStream_answers {hex : Nat → Text} {arrivals : List Arrival} {chunks : List Chunk}
    (h : chatStream E U q hex arrivals = .ok chunks) :
    ((said E q arrivals).closing.isSome ∨ (read E q {} arrivals).2 = .done) ∧
      ∃ frames r, chunks = frames ++ [.done r] ∧ Answers E U q hex (said E q arrivals) r := by
  simp only [chatStream, bind_eq_ok] at h
  obtain ⟨s, hs, h⟩ := h
  have hl := leaves_readLines arrivals follows_opened hs
  obtain ⟨ht, frames, r, hchunks, hr⟩ := answers_finish hl h
  have hclosed := hl.closed
  rw [ht, eq_comm, Bool.or_eq_true, decide_eq_true_eq] at hclosed
  exact ⟨hclosed, frames, r, hchunks, hr⟩

end InferenceDriver.OpenAi

/-
# `Gemini.Stops` — when an answer is given as a natural end

On every path of the OpenAI-compatible engine and of Gemini: an answer is
given at all only if something closed it, and `stop` is its reason only if
the last reason the backend reported is none that the path's map has
another end for.  A reason the maps do not name is taken for a natural end
on purpose, and so is a bare `[DONE]`.
-/
import InferenceDriver.Gemini.Reported
import InferenceDriver.Routes.Ending

namespace InferenceDriver

open Checks OpenAi Thinking

variable (E : Env) (U : Ucd) (q : OpenAi.Setup)

/-! ## What the backend reported -/

/-- The reasons `_FINISH_REASON_MAP` has another end for. -/
def otherEnds : List Text :=
  ["length".toList, "content_filter".toList, "tool_calls".toList, "function_call".toList]

/-- A reason that the map of a chat answer or of a raw completion has another
end for. -/
def OtherEnd (completion : Option Completion) (reason : Json) : Prop :=
  match completion with
  | none => E.str reason ∈ otherEnds
  | some _ => reason.isStr "length".toList = true ∨ reason.isStr "limit".toList = true

/-- The reasons Google's map has another end for. -/
def Gemini.OtherEnd (reason : Json) : Prop :=
  Gemini.reasonName E reason ∈ "MAX_TOKENS".toList :: Gemini.filtered ++ Gemini.brokenCall

/-- The last reason of a stream. -/
def lastReason (arrivals : List Arrival) : Option Json :=
  match q.completion with
  | some kind => (rawSaid E kind arrivals).reason
  | none => (said E q arrivals).closing.map fun choice => choice.get "finish_reason"

/-- Something closed the answer: `[DONE]`, or a frame that says so. -/
def Closed (arrivals : List Arrival) : Prop :=
  match q.completion with
  | some kind => (rawSaid E kind arrivals).ended = true
  | none => (said E q arrivals).closing.isSome = true ∨ (read E q {} arrivals).2 = .done

/-- The reason in the body of a raw completion. -/
def completionReason (kind : Completion) (body : Json) : Json :=
  match kind with
  | .openai => Obj.get (dictOf (match Obj.get (dictOf body) "choices" with
      | .arr (choice :: _) => choice
      | _ => .null)) "finish_reason"
  | .infill => Obj.get (dictOf body) "stop_type"
  | .ollama => Obj.get (dictOf body) "done_reason"

/-- The reason of an answer: of its stream when it is spoken, else of its
body. -/
def answerReason (body : Json) (arrivals : List Arrival) : Option Json :=
  if q.audio.isSome then lastReason E { q with assembleAudio := true } arrivals
  else
    match q.completion with
    | some kind => some (completionReason kind body)
    | none =>
        if ((choiceOf body).get "finish_reason").truthy then some ((choiceOf body).get "finish_reason")
        else none

variable {E U q}

/-! ## Each path -/

theorem not_otherEnd {reason : Text} (h : finishReasonOf reason = .stop) : reason ∉ otherEnds := by
  intro hm
  unfold finishReasonOf at h
  split at h
  · cases h
  · rename_i h₁
    split at h
    · cases h
    · rename_i h₂
      split at h
      · cases h
      · rename_i h₃
        simp only [otherEnds, List.mem_cons, List.not_mem_nil, or_false] at hm
        rcases hm with rfl | rfl | rfl | rfl
        · exact h₁ rfl
        · exact h₂ rfl
        · exact h₃ (Or.inl rfl)
        · exact h₃ (Or.inr rfl)

theorem not_otherEnd_raw {kind : Completion} {reason : Json} (h : rawFinish reason = .stop) :
    ¬ OtherEnd E (some kind) reason := by
  intro hm
  have hm : reason.isStr "length".toList = true ∨ reason.isStr "limit".toList = true := hm
  rw [rawFinish, if_pos hm] at h
  cases h

theorem Gemini.not_otherEnd {reason : Json} {r : GenerateResponse} (h : Gemini.Closes E reason r)
    (hs : r.finishReason = .stop) : ¬ Gemini.OtherEnd E reason := by
  rw [h.finishReason] at hs
  intro hm
  rcases List.mem_append.mp hm with hm | hm
  · have hn : Gemini.finishNamed (Gemini.reasonName E reason) = .stop := by
      split at hs
      · cases hs
      · exact hs
    unfold Gemini.finishNamed at hn
    split at hn
    · cases hn
    · rename_i hmax
      split at hn
      · cases hn
      · rename_i hfiltered
        rcases List.mem_cons.mp hm with hm | hm
        · exact hmax hm
        · exact hfiltered hm
  · exact h.usable hm

theorem stop_of_stream {hex : Nat → Text} {arrivals : List Arrival} {chunks : List Chunk}
    (h : stream E U q hex arrivals = .ok chunks) :
    Closed E q arrivals ∧ ∃ frames r, chunks = frames ++ [.done r] ∧
      (r.finishReason = .stop → ∀ reason, lastReason E q arrivals = some reason →
        ¬ OtherEnd E q.completion reason) := by
  unfold stream at h
  unfold Closed lastReason
  cases hq : q.completion with
  | some kind =>
      rw [hq] at h
      obtain ⟨hended, texts, r, -, hchunks, -, hfinish⟩ := completeStream_answers h
      refine ⟨hended, _, r, hchunks, fun hs reason hr => ?_⟩
      simp only at hr
      rw [hfinish, RawSaid.finished, hr] at hs
      exact not_otherEnd_raw hs
  | none =>
      rw [hq] at h
      obtain ⟨hclosed, frames, r, hchunks, ha⟩ := chatStream_answers h
      refine ⟨hclosed, frames, r, hchunks, fun hs reason hr => ?_⟩
      obtain ⟨choice, hc, rfl⟩ := Option.map_eq_some_iff.mp hr
      rw [ha.finishReason, Said.finished] at hs
      split at hs
      · cases hs
      · split at hs
        · cases hs
        · rw [Said.finishReason, hc] at hs
          exact not_otherEnd hs

theorem stop_of_chatAnswer {hex : Nat → Text} {body : Json} {r : GenerateResponse}
    (h : chatAnswer E U q hex body = .ok r) (hs : r.finishReason = .stop)
    (ht : ((choiceOf body).get "finish_reason").truthy = true) :
    ¬ OtherEnd E none ((choiceOf body).get "finish_reason") := by
  have hf := (chatAnswer_tells h).finishReason
  rw [hs, if_pos ht] at hf
  split at hf
  · cases hf
  · split at hf
    · cases hf
    · exact not_otherEnd hf.symm

theorem stop_of_complete {kind : Completion} {body : Json} {r : GenerateResponse}
    (h : complete E q kind (.value body) = .ok r) (hs : r.finishReason = .stop) :
    ¬ OtherEnd E (some kind) (completionReason kind body) := by
  unfold complete at h
  simp only at h
  split at h
  · cases h
  · rename_i text finish usage ha
    obtain ⟨rfl, -⟩ := (checked_eq_ok E).mp h
    refine not_otherEnd_raw (Eq.trans ?_ hs)
    unfold completionReason
    cases kind with
    | openai =>
        unfold rawAnswer openaiAnswer at ha
        simp only at ha
        split at ha
        · split at ha
          · split at ha
            · cases ha
              rename_i hc _ _
              simp only [dictOf]
              rw [hc]
            · cases ha
          · cases ha
        · cases ha
    | infill =>
        unfold rawAnswer infillAnswer at ha
        simp only at ha
        split at ha
        · cases ha
          rfl
        · cases ha
    | ollama =>
        unfold rawAnswer ollamaAnswer at ha
        simp only at ha
        split at ha
        · cases ha
          rfl
        · cases ha

theorem stop_of_generate {hex : Nat → Text} {body : Json} {arrivals : List Arrival}
    {r : GenerateResponse} (h : OpenAi.generate E U q hex (.value body) arrivals = .ok r)
    (hs : r.finishReason = .stop) :
    ∀ reason, answerReason E q body arrivals = some reason → ¬ OtherEnd E q.completion reason := by
  intro reason hr
  unfold OpenAi.generate at h
  unfold answerReason at hr
  split at h
  · rename_i ha
    rw [if_pos ha] at hr
    unfold assembled at h
    split at h
    · cases h
    · rename_i chunks hc
      obtain ⟨-, frames, r', rfl, hstop⟩ := stop_of_stream hc
      rw [Routes.resultIn_append, require_eq_ok, Option.some.injEq] at h
      rw [← h] at hs
      exact hstop hs reason hr
  · rename_i ha
    rw [if_neg ha] at hr
    cases hq : q.completion with
    | some kind =>
        rw [hq] at h hr
        cases hr
        exact stop_of_complete h hs
    | none =>
        rw [hq] at h hr
        simp only at h hr
        split at hr
        · rename_i ht
          cases hr
          exact stop_of_chatAnswer h hs ht
        · cases hr

/-- **No answer that was cut off or ended otherwise is given as a natural
end.**  On every path an answer that is given was closed, by `[DONE]` or by
a reason, and if it is given as `stop` then the last reason the backend
reported for it is none the map of the path has another end for. -/
theorem stop_is_reported (dumps : Json → Text) (g : Gemini.Setup) (hex : Nat → Text) :
    (∀ arrivals chunks, stream E U q hex arrivals = .ok chunks →
      Closed E q arrivals ∧ ∃ frames r, chunks = frames ++ [.done r] ∧
        (r.finishReason = .stop → ∀ reason, lastReason E q arrivals = some reason →
          ¬ OtherEnd E q.completion reason)) ∧
      (∀ body arrivals r, OpenAi.generate E U q hex (.value body) arrivals = .ok r →
        r.finishReason = .stop → ∀ reason, answerReason E q body arrivals = some reason →
          ¬ OtherEnd E q.completion reason) ∧
      (∀ arrivals chunks, Gemini.stream E U dumps g hex arrivals = .ok chunks →
        ∃ reason frames r, Gemini.reported E g arrivals = some reason ∧ chunks = frames ++ [.done r] ∧
          (r.finishReason = .stop → ¬ Gemini.OtherEnd E reason)) ∧
      ∀ body r, Gemini.generate E dumps g hex (.value body) = .ok r → r.finishReason = .stop →
        ¬ Gemini.OtherEnd E ((Gemini.candidateIn (dictOf body)).get "finishReason") := by
  refine ⟨fun arrivals chunks h => stop_of_stream h, fun body arrivals r h hs => stop_of_generate h hs,
    fun arrivals chunks h => ?_, fun body r h hs => ?_⟩
  · obtain ⟨reason, frames, r, hreason, hchunks, hc⟩ := Gemini.stream_reported h
    exact ⟨reason, frames, r, hreason, hchunks, fun hs => Gemini.not_otherEnd hc hs⟩
  · exact Gemini.not_otherEnd (Gemini.generate_reported h) hs

/-! ## A reason nobody knows -/

/-- One choice with a text, closed by this reason. -/
def closedBy (document reason : String) : List (Text × Json) :=
  [(document.toList, .ofFields [("choices", .arr [.ofFields
    [("delta", .ofFields [("content", .ofString "Hi")]), ("finish_reason", .ofString reason)]])])]

def naturalStop : List (Text × Json) :=
  closedBy "\x7b\"choices\":[\x7b\"delta\":\x7b\"content\":\"Hi\"\x7d,\"finish_reason\":\"stop\"\x7d]\x7d" "stop"

theorem stop_is_reported_natural :
    ∃ frames r, stream (.ofTable naturalStop) Ucd.basic (.chat false none) (fun _ => [])
        (Env.arrivals naturalStop) = .ok (frames ++ [.done r]) ∧
      (r.finishReason = .stop → ∀ reason, lastReason (.ofTable naturalStop) (.chat false none)
        (Env.arrivals naturalStop) = some reason → ¬ OtherEnd (.ofTable naturalStop) none reason) := by
  obtain ⟨chunks, h, -⟩ := passes_iff.mp (show passes (fun _ => true) (stream (.ofTable naturalStop)
    Ucd.basic (.chat false none) (fun _ => []) (Env.arrivals naturalStop)) = true by decide)
  obtain ⟨-, frames, r, rfl, hs⟩ := (stop_is_reported (fun _ => []) ⟨[], false, 0, id, false⟩
    (fun _ => [])).1 _ _ h
  exact ⟨frames, r, h, hs⟩

def newReason : List (Text × Json) :=
  closedBy "\x7b\"choices\":[\x7b\"delta\":\x7b\"content\":\"Hi\"\x7d,\"finish_reason\":\"something_new\"\x7d]\x7d" "something_new"

/-- A candidate with a text that Google stopped for a reason of its own. -/
def otherCandidate : Json :=
  .ofFields [("candidates", .arr [.ofFields [("finishReason", .ofString "OTHER"),
    ("content", .ofFields [("parts", .arr [.ofFields [("text", .ofString "Hi")]])])]])]

set_option maxRecDepth 20000 in
/-- A reason that is no natural stop and that no map names is given as
`stop`. -/
theorem stop_is_given :
    (∃ r, stream (.ofTable newReason) Ucd.basic (.chat false none) (fun _ => [])
        (Env.arrivals newReason) = .ok [.text "Hi".toList none, .done r] ∧ r.finishReason = .stop ∧
      lastReason (.ofTable newReason) (.chat false none) (Env.arrivals newReason) =
        some (.ofString "something_new")) ∧
      ∃ r, Gemini.generate (.ofTable []) (fun _ => []) ⟨[], false, 0, id, false⟩ (fun _ => [])
        (.value otherCandidate) = .ok r ∧ r.finishReason = .stop := by
  refine ⟨⟨{ content := "Hi".toList, audio := none, logprobs := none, annotations := [],
             reasoning := none, toolCalls := [], finishReason := .stop, stopSequence := none,
             usage := none, modelId := "m".toList }, rfl, rfl, rfl⟩, ?_⟩
  exact ⟨{ content := "Hi".toList, audio := none, logprobs := none, annotations := [],
           reasoning := none, toolCalls := [], finishReason := .stop, stopSequence := none,
           usage := none, modelId := some [] }, rfl, rfl⟩

end InferenceDriver

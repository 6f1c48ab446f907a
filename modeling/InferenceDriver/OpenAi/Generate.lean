/-
# `OpenAi.Generate` — an answer that comes whole

`_generate` of `openai_compat_http.py` from the moment the response is
read: the body of a chat answer, the body of a raw completion
(`_complete`), or, for a spoken answer, the lines of a stream that is put
together (`_assembled`).
-/
import InferenceDriver.OpenAi.Stream

namespace InferenceDriver.OpenAi

open Checks Thinking

variable (E : Env) (U : Ucd) (q : Setup)

/-- `choices[0] or {}`. -/
def firstChoice (body : Obj) : Except Failure Obj :=
  let choices := body.get "choices"
  if choices.truthy then
    match choices with
    | .arr (first :: _) => dictOrEmpty first
    | _ => .error .uncaught
  else .error (.cli "openai_compat_http returned no choices".toList none)

/-- The call a forced answer makes, when the backend has made none itself. -/
def forcedOf (hex : Text) (toolCalls : List ToolCall) (content finish : Json) :
    Except Failure (Option ToolCall) :=
  match q.forced with
  | none => .ok none
  | some tool => if toolCalls = [] then forcedCall E hex tool content finish else .ok none

/-- The text of the answer; none is fine when there is something else. -/
def contentOf (content : Json) (other : Bool) : Except Failure (Option Text) :=
  match content with
  | .str text => .ok (some (if q.off then stripThinkingBlocks U text else text))
  | _ =>
      if other then .ok none
      else .error (.cli "openai_compat_http response missing string content".toList none)

/-- A chat answer, once the body is parsed. -/
def chatAnswer (hex : Nat → Text) (body : Json) : Except Failure GenerateResponse := do
  let body ← asDict body
  let first ← firstChoice body
  let message ← dictOrEmpty (first.get "message")
  let wired ← toolCallsFromWire E hex (message.get "tool_calls")
  let reasoning := reasoningOf message
  let made ← forcedOf E q (hex 0) wired (message.get "content") (first.get "finish_reason")
  let toolCalls := made.elim wired fun call => [call]
  let finish := made.elim (first.get "finish_reason") fun _ => .str "tool_calls".toList
  let content ← contentOf U q (made.elim (message.get "content") fun _ => .null)
    (toolCalls ≠ [] ∨ reasoning.isSome)
  let stop := stopSequence first q.stop
  let usage ← usageFromEnvelope E (body.get "usage")
  checked E {
    content
    audio := none
    logprobs := logprobsOf E (first.get "logprobs")
    annotations := annotationsOf E (Obj.get (dictOf (first.get "message")) "annotations")
    reasoning := if q.off then none else reasoning
    toolCalls
    finishReason :=
      if stop.isSome then .stopSequence
      else finishReasonOf (if finish.truthy then E.str finish else "stop".toList)
    stopSequence := stop
    usage
    modelId := some (publicModelId E (body.get "model") q.target) }

/-! ## Raw completions -/

/-- The answer of a completion: its text, why it ended, and its usage. -/
abbrev RawAnswer := Text × FinishReason × Option Usage

/-- `openai_answer`; an error is one of the exceptions that are turned into a
`CliError`, and what it says when it is the repository's own. -/
def openaiAnswer (body : Json) : Except (Option Text) RawAnswer :=
  match body with
  | .obj body =>
      match Obj.get body "choices" with
      | .arr (.obj choice :: _) =>
          match Obj.get choice "text" with
          | .str text =>
              let got := dictOf (Obj.get body "usage")
              .ok (text, rawFinish (Obj.get choice "finish_reason"),
                rawUsage (got.get "prompt_tokens") (got.get "completion_tokens"))
          | _ => .error (some "the completion answer had no text".toList)
      | _ => .error none
  | _ => .error none

/-- `infill_answer`. -/
def infillAnswer (body : Json) : Except (Option Text) RawAnswer :=
  match Obj.get (dictOf body) "content" with
  | .str text =>
      .ok (text, rawFinish (Obj.get (dictOf body) "stop_type"),
        rawUsage (Obj.get (dictOf body) "tokens_evaluated") (Obj.get (dictOf body) "tokens_predicted"))
  | _ => .error (some "the infill answer had no content".toList)

/-- `ollama_answer`. -/
def ollamaAnswer (body : Json) : Except (Option Text) RawAnswer :=
  match Obj.get (dictOf body) "response" with
  | .str text =>
      .ok (text, rawFinish (Obj.get (dictOf body) "done_reason"),
        rawUsage (Obj.get (dictOf body) "prompt_eval_count") (Obj.get (dictOf body) "eval_count"))
  | _ => .error (some "the generate answer had no response".toList)

def rawAnswer (kind : Completion) (body : Json) : Except (Option Text) RawAnswer :=
  match kind with
  | .openai => openaiAnswer body
  | .infill => infillAnswer body
  | .ollama => ollamaAnswer body

/-- An answer that was not usable. -/
def unusable (said : Option Text) : Failure :=
  .cli ("openai_compat_http completion answer was not usable: ".toList ++ said.getD []) none

/-- `_complete`. -/
def complete (kind : Completion) (body : Loaded) : Except Failure GenerateResponse :=
  match body with
  | .escapes => .error .uncaught
  | .malformed => .error (unusable none)
  | .value body =>
      match rawAnswer kind body with
      | .error said => .error (unusable said)
      | .ok (text, finishReason, usage) =>
          checked E { content := some text, audio := none, logprobs := none, annotations := [],
                      reasoning := none, toolCalls := [], finishReason, stopSequence := none, usage,
                      modelId := some (publicModelId E (Obj.get (dictOf body) "model") q.target) }

/-! ## The three ways to an answer -/

/-- The result a stream ended with. -/
def resultIn (chunks : List Chunk) : Option GenerateResponse :=
  chunks.reverse.findSome? fun c => match c with | .done r => some r | _ => none

/-- `_assembled`. -/
def assembled (hex : Nat → Text) (arrivals : List Arrival) : Except Failure GenerateResponse :=
  match stream E U { q with assembleAudio := true } hex arrivals with
  | .error raised => .error raised.failure
  | .ok chunks =>
      require (resultIn chunks) (.cli "openai_compat_http stream ended without a result".toList none)

/-- `_generate`: a spoken answer is a stream put together, any other is the
body of the response. -/
def generate (hex : Nat → Text) (body : Loaded) (arrivals : List Arrival) :
    Except Failure GenerateResponse :=
  if q.audio.isSome then assembled E U q hex arrivals
  else
    match q.completion with
    | some kind => complete E q kind body
    | none =>
        match body with
        | .malformed => .error (.cli "openai_compat_http returned non-JSON".toList none)
        | .escapes => .error .uncaught
        | .value body => chatAnswer E U q hex body

end InferenceDriver.OpenAi

/-
# `OpenAi.Wire` — what is read off the wire of an OpenAI-compatible backend

The small readers of `openai_compat_http.py`, each over values nothing has
checked: an answer is whatever `json.loads` made of it, and a reader asks it
for keys that may be missing, or hold something else.  Where the source
would raise what nobody catches (`AttributeError`, a `ValidationError` of
the contract's models), the reader here is an error.

What is outside the repository is a parameter (`Env`): the JSON parser,
`str` and `+` of values that are no strings, base64, and what the
contract's models take.  They take no string with half of a surrogate pair
in it, which `json.loads` makes of `"\ud800"`; which characters of a `Text`
stand for such halves is the parameter's to say (`lone`).
-/
import Mathlib
import InferenceDriver.Lib.Checks
import InferenceDriver.OpenAi.Audio
import InferenceDriver.Py.Dict

namespace InferenceDriver.OpenAi

open Checks

/-- What `json.loads` comes to. -/
inductive Loaded where
  | value (v : Json)
  /-- `ValueError`. -/
  | malformed
  /-- `RecursionError`, of a document nested too deep. -/
  | escapes

/-- The libraries and built-ins the engine uses. -/
structure Env where
  loads : Text → Loaded
  loads_nil : loads [] = .malformed
  /-- `str` of a value that is no string. -/
  strOf : Json → Text
  /-- `a + b`; none is a `TypeError`. -/
  plus : Json → Json → Option Json
  /-- An `int` field with `ge=0`; none is a `ValidationError`. -/
  count : Json → Option Nat
  /-- `round(float(speed), 1)`; none is an `OverflowError`. -/
  round1 : Json → Option PyFloat
  /-- `ChatAnnotation.model_validate`; none is a `ValueError`. -/
  citation : Json → Option Json
  /-- `ChatLogprobs.model_validate` and its `content`; none is a `ValueError`. -/
  logprobs : Json → Option (List Json)
  b64decode : Text → Option Bytes
  b64encode : Bytes → Text
  /-- Half of a surrogate pair. -/
  lone : Char → Bool
  lone_space : ∀ c, isspace c = true → lone c = false

/-- The libraries as far as plain frames need them: a parser that knows the
documents of a table, and no base64, citations or log probabilities. -/
def Env.ofTable (documents : List (Text × Json)) : Env where
  loads text :=
    if text = [] then .malformed
    else
      match documents.find? fun d => d.1 = text with
      | some d => .value d.2
      | none => .malformed
  loads_nil := if_pos rfl
  strOf _ := []
  plus a b :=
    match a, b with
    | .int m, .int n => some (.int (m + n))
    | _, _ => none
  count v :=
    match v with
    | .int n => if 0 ≤ n then some n.toNat else none
    | _ => none
  round1 _ := none
  citation _ := none
  logprobs _ := none
  b64decode _ := none
  b64encode _ := []
  lone _ := false
  lone_space _ _ := rfl

variable (E : Env)

/-- `str(value)`. -/
def Env.str (v : Json) : Text :=
  match v with
  | .str s => s
  | v => E.strOf v

/-- A string the contract's models take. -/
def Env.holds (text : Text) : Bool := text.all fun c => !E.lone c

/-- A field of the contract's models. -/
def Env.holdsAll (text : Option Text) : Bool := text.all E.holds

/-- What ends a run with an exception. -/
inductive Failure where
  /-- `CliError`. -/
  | cli (message : Text) (upstreamStatus : Option Int)
  /-- `BackendTimeout`, mid-answer: the stall clock ran out after so many characters. -/
  | stalled (characters : Nat)
  /-- `BackendTimeout`, before an answer: an `httpx.TimeoutException`. -/
  | timedOut
  /-- No `CliError`: an `AttributeError`, `TypeError`, `KeyError`,
  `OverflowError`, `RecursionError` or `ValidationError`. -/
  | uncaught

/-- `value.get(...)` needs a dict. -/
def asDict (v : Json) : Except Failure Obj :=
  match v with
  | .obj o => .ok o
  | _ => .error .uncaught

/-- `value or {}`, of which something is then got. -/
def dictOrEmpty (v : Json) : Except Failure Obj := if v.truthy then asDict v else .ok []

/-- `for x in value or []`, over values that are then used as dicts. -/
def listOrEmpty (v : Json) : Except Failure (List Json) :=
  if v.truthy then
    match v with
    | .arr items => .ok items
    | _ => .error .uncaught
  else .ok []

/-- A field `str | None` of the contract. -/
def optionalStr (v : Json) : Except Failure (Option Text) :=
  match v with
  | .null => .ok none
  | .str s => if E.holds s then .ok (some s) else .error .uncaught
  | _ => .error .uncaught

/-- `isinstance(value, int)`, which a `bool` is too. -/
def asInt (v : Json) : Option Int :=
  match v with
  | .int n => some n
  | .bool b => some (if b then 1 else 0)
  | _ => none

/-- A value if it is a whole number, no `bool`, and not negative: `_detail`. -/
def asCount (v : Json) : Option Nat :=
  match v with
  | .int n => if 0 ≤ n then some n.toNat else none
  | _ => none

/-! ## Frames -/

/-- `_sse_data`. -/
def sseData (line : Text) : Option Text :=
  if line = [] ∨ ":".toList.isPrefixOf line then none
  else if "data:".toList.isPrefixOf line then some (strip (line.drop 5))
  else none

/-- `_redact`. -/
def redact (text : Text) : Text :=
  match text with
  | [] => []
  | c :: cs =>
      if "Bearer ".toList.isPrefixOf (c :: cs) then
        "Bearer <redacted>".toList ++ redact ((c :: cs).drop 7)
      else c :: redact cs
  termination_by text.length
  decreasing_by
    all_goals (simp only [List.length_drop, List.length_cons]; omega)

/-- `_stream_failure`: a frame that is an error and nothing else. -/
def streamFailure (event : Json) : Option Failure :=
  match event with
  | .obj o =>
      if (Obj.item? o "choices").isSome then none
      else
        match Obj.get o "error" with
        | .obj error =>
            some (.cli ("openai_compat_http stream error: ".toList ++
              redact ((E.str (Obj.get error "message")).take 500)) (asInt (Obj.get error "code")))
        | _ => none
  | _ => none

/-- `count` of `_prompt_progress`; `int` of an infinity raises. -/
def progressCount (read : Obj) (key : String) : Except Failure (Option Int) :=
  match read.get key with
  | .int n => .ok (if 0 ≤ n then some n else none)
  | .bool b => .ok (some (if b then 1 else 0))
  | .float (.fin q) => .ok (if 0 ≤ q then some (q.num.tdiv q.den) else none)
  | .float (.inf false) => .error .uncaught
  | _ => .ok none

/-- `_prompt_progress`. -/
def promptProgress (read : Obj) : Except Failure (Option StreamProgress) := do
  let total ← progressCount read "total"
  let processed ← progressCount read "processed"
  match total, processed with
  | some total, some processed =>
      let cached ← progressCount read "cache"
      let elapsed ← progressCount read "time_ms"
      return some { stage := .prompt, promptTokens := total, cachedTokens := cached,
                    processedTokens := processed, elapsedMs := elapsed }
  | _, _ => return none

/-- `speed > 0`, for a number that is no `bool`. -/
def positive (v : Json) : Bool :=
  match v with
  | .int n => decide (0 < n)
  | .float (.fin q) => decide (0 < q)
  | .float (.inf negative) => !negative
  | _ => false

/-- `_generating_progress`. -/
def generatingProgress (timings : Json) : Except Failure (Option StreamProgress) :=
  match timings with
  | .obj o =>
      match Obj.get o "predicted_n" with
      | .int written =>
          if written ≤ 0 then .ok none
          else do
            let speed := Obj.get o "predicted_per_second"
            let tokensPerSecond ← if positive speed then some <$> require (E.round1 speed) .uncaught
              else .ok none
            return some { stage := .generating, generatedTokens := some written, tokensPerSecond }
      | _ => .ok none
  | _ => .ok none

/-! ## Messages and deltas -/

/-- `_reasoning_of`. -/
def reasoningOf (o : Obj) : Option Text :=
  match o.get "reasoning_content", o.get "reasoning" with
  | .str (c :: cs), _ => some (c :: cs)
  | _, .str (c :: cs) => some (c :: cs)
  | _, _ => none

/-- `_stop_sequence`, for the `stop` strings of a request. -/
def stopSequence (choice : Obj) (stop : List Text) : Option Text :=
  match choice.get "stop_reason" with
  | .str reason => if reason ∈ stop then some reason else none
  | _ => none

/-- `_logprobs_of`; the `content` of the log probabilities. -/
def logprobsOf (raw : Json) : Option (List Json) :=
  match raw with
  | .obj o => if (Obj.get o "content").truthy then E.logprobs raw else none
  | _ => none

/-- `_annotations_of`. -/
def annotationsOf (raw : Json) : List Json :=
  match raw with
  | .arr items =>
      items.filterMap fun item =>
        match item with
        | .obj o => if (Obj.get o "type").isStr "url_citation".toList then E.citation item else none
        | _ => none
  | _ => []

/-- `_FINISH_REASON_MAP.get(reason, FinishReason.stop)`. -/
def finishReasonOf (reason : Text) : FinishReason :=
  if reason = "length".toList then .length
  else if reason = "content_filter".toList then .contentFilter
  else if reason = "tool_calls".toList ∨ reason = "function_call".toList then .toolCalls
  else .stop

/-- `_detail`. -/
def detail (usage : Obj) (group key : String) : Option Nat :=
  match usage.get group with
  | .obj details => asCount (Obj.get details key)
  | _ => none

/-- `value or 0`. -/
def orZero (v : Json) : Json := if v.truthy then v else .int 0

/-- `_usage_from_envelope`. -/
def usageFromEnvelope (usage : Json) : Except Failure (Option Usage) :=
  if usage.truthy then do
    let o ← asDict usage
    let prompt := o.get "prompt_tokens"
    let completion := o.get "completion_tokens"
    let total := o.get "total_tokens"
    if prompt.isNull && completion.isNull then return none
    else
      let total ← require (if total.isNull then E.plus (orZero prompt) (orZero completion) else some total)
        .uncaught
      let promptTokens ← require (E.count (orZero prompt)) .uncaught
      let completionTokens ← require (E.count (orZero completion)) .uncaught
      let totalTokens ← require (E.count total) .uncaught
      return some { promptTokens := some promptTokens, completionTokens := some completionTokens,
                    totalTokens := some totalTokens,
                    cachedPromptTokens := detail o "prompt_tokens_details" "cached_tokens",
                    reasoningTokens := detail o "completion_tokens_details" "reasoning_tokens" }
  else .ok none

/-- `_Target`. -/
structure Target where
  id : Text
  upstream : Text
  /-- Whether `entry` is set: an account's model. -/
  account : Bool

/-- `_public_model_id`. -/
def publicModelId (reported : Json) (target : Target) : Text :=
  if target.account ∨ target.upstream ≠ target.id then target.id
  else if reported.truthy then E.str reported
  else target.id

/-! ## Tool calls -/

/-- The dict that is the item, or an empty one. -/
def dictOf (v : Json) : Obj :=
  match v with
  | .obj o => o
  | _ => []

/-- The `index` of a fragment, or its position on the frame. -/
def indexOf (item : Obj) (position : Nat) : Int := (asInt (item.get "index")).getD position

/-- A fragment as it is forwarded. -/
def deltaOf (item : Obj) (position : Nat) : Except Failure ToolCallDelta := do
  let fn := dictOf (item.get "function")
  let id ← optionalStr E (item.get "id")
  let name ← optionalStr E (fn.get "name")
  let arguments ← optionalStr E (fn.get "arguments")
  return { index := indexOf item position, id,
           function := if fn = [] then none else some { name, arguments } }

/-- `_tool_call_deltas_from_wire`, from a position on. -/
def deltasFrom : List Json → Nat → Except Failure (List ToolCallDelta)
  | [], _ => .ok []
  | .obj item :: rest, position => do
      let d ← deltaOf E item position
      let ds ← deltasFrom rest (position + 1)
      return d :: ds
  | _ :: rest, position => deltasFrom rest (position + 1)

/-- `_tool_call_deltas_from_wire`. -/
def toolCallDeltasFromWire (raw : Json) : Except Failure (List ToolCallDelta) :=
  match raw with
  | .arr items => deltasFrom E items 0
  | _ => .ok []

/-- A call being put together; each field is empty until something came. -/
structure Part where
  id : Text := []
  name : Text := []
  arguments : Text := []
deriving DecidableEq, Repr

/-- What a fragment adds to its call. -/
def Part.take (p : Part) (item : Obj) : Part :=
  let fn := dictOf (item.get "function")
  { id := if (item.get "id").truthy then E.str (item.get "id") else p.id
    name := if (fn.get "name").truthy then E.str (fn.get "name") else p.name
    arguments :=
      if (fn.get "arguments").truthy then p.arguments ++ E.str (fn.get "arguments")
      else p.arguments }

/-- `_accumulate_tool_calls`, from a position on. -/
def accumulateFrom (parts : Dict Int Part) : List Json → Nat → Dict Int Part
  | [], _ => parts
  | .obj item :: rest, position =>
      let key := indexOf item position
      accumulateFrom (parts.set key (((parts.get? key).getD {}).take E item)) rest (position + 1)
  | _ :: rest, position => accumulateFrom parts rest (position + 1)

/-- `_accumulate_tool_calls`. -/
def accumulateToolCalls (parts : Dict Int Part) (raw : Json) : Dict Int Part :=
  match raw with
  | .arr items => accumulateFrom E parts items 0
  | _ => parts

/-- The parts in index order. -/
def inOrder (parts : Dict Int Part) : List Part :=
  (parts.items.insertionSort fun a b => a.1 ≤ b.1).map (·.2)

/-- `_new_call_id`, given 24 digits of a new `uuid4`. -/
def newCallId (hex : Text) : Text := "call_".toList ++ hex

/-- `_finish_tool_calls`; `hex` holds the digits of each call's new id, should
it need one. -/
def finishToolCalls (hex : Nat → Text) (parts : Dict Int Part) : List ToolCall :=
  ((inOrder parts).filter fun p => p.name ≠ []).mapIdx fun i p =>
    { id := if p.id = [] then newCallId (hex i) else p.id, name := p.name, arguments := p.arguments }

/-- A `ToolCall` of what the backend said, under its id or a new one. -/
def toolCall (hex : Text) (id : Option Text) (name arguments : Text) : Except Failure ToolCall :=
  if E.holdsAll id ∧ E.holds name ∧ E.holds arguments then
    .ok { id := id.getD (newCallId hex), name, arguments }
  else .error .uncaught

/-- `str(value or "")`. -/
def Env.orEmpty (v : Json) : Text := if v.truthy then E.str v else []

/-- A call of a whole message; none is dropped. -/
def callFromWire (hex : Text) (item : Json) : Except Failure (Option ToolCall) :=
  match item with
  | .obj o =>
      let fn := dictOf (Obj.get o "function")
      if (fn.get "name").truthy then
        some <$> toolCall E hex
          (if (Obj.get o "id").truthy then some (E.str (Obj.get o "id")) else none)
          (E.str (fn.get "name")) (E.orEmpty (fn.get "arguments"))
      else .ok none
  | _ => .ok none

/-- `_tool_calls_from_wire`, from a position on. -/
def callsFrom (hex : Nat → Text) : List Json → Nat → Except Failure (List ToolCall)
  | [], _ => .ok []
  | item :: rest, position => do
      let call ← callFromWire E (hex position) item
      let calls ← callsFrom hex rest (position + 1)
      return call.toList ++ calls

/-- `_tool_calls_from_wire`. -/
def toolCallsFromWire (hex : Nat → Text) (raw : Json) : Except Failure (List ToolCall) :=
  match raw with
  | .arr items => callsFrom E hex items 0
  | _ => .ok []

/-- `_forced_call` for the tool of this name. -/
def forcedCall (hex tool : Text) (content : Json) (finish : Json) : Except Failure (Option ToolCall) :=
  match content with
  | .str text =>
      if finish.isStr "length".toList then .ok none
      else
        match E.loads text with
        | .malformed => .ok none
        | .escapes => .error .uncaught
        | .value (.obj _) =>
            if E.holds (strip text) then
              .ok (some { id := newCallId hex, name := tool, arguments := strip text })
            else .error .uncaught
        | .value _ => .ok none
  | _ => .ok none

end InferenceDriver.OpenAi

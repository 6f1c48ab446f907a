/-
# `OpenAi.Payload` — the body of a chat request

`_payload_for`: the settings a caller asked for and this engine cannot give
are refused first, then each setting of the request is put under its key,
or left out and said why.  A named tool choice that llama-server is held to
by a schema is put over the body at the end (`_force_by_schema`).
-/
import InferenceDriver.OpenAi.Settings
import InferenceDriver.Py.Utf8

namespace InferenceDriver.OpenAi.Settings

open Checks
open Gemini.Replay (refusal item asText)
open OpenAi.Order (Message WireMessage toOpenaiMessages)

/-! ## The values of a request -/

/-- `model_dump(mode="json", exclude_none=True)` of a tool. -/
def Tool.wire (tool : Tool) : Json :=
  .ofFields [("type", .ofString "function"),
    ("function", .obj ([("name".toList, .str tool.name)] ++
      (tool.description.map fun text => ("description".toList, .str text)).toList ++
      (tool.parameters.map fun schema => ("parameters".toList, .obj schema)).toList ++
      (tool.strict.map fun strict => ("strict".toList, .bool strict)).toList))]

/-- A choice on the wire. -/
def ToolChoice.wire : ToolChoice → Json
  | named name => .ofFields [("type", .ofString "function"), ("function", .ofFields [("name", .str name)])]
  | choice => .str choice.mode

/-- `if value:`, of a list. -/
def unlessEmpty {α : Type} (values : Option (List α)) : Option (List α) := values.filter fun values => !values.isEmpty

namespace Request

/-- The value a request has for a setting, as the wire spells it. -/
def value (r : Request) : Setting → Option Json
  | .maxTokens => r.maxTokens.map .int
  | .temperature => r.temperature.map .float
  | .topP => r.topP.map .float
  | .seed => r.seed.map .int
  | .stop => (unlessEmpty r.stop).map fun texts => .arr (texts.map .str)
  | .tools => (unlessEmpty r.tools).map fun tools => .arr (tools.map Tool.wire)
  | .toolChoice => r.toolChoice.map ToolChoice.wire
  | .responseFormat => r.responseFormat
  | .topK => r.topK.map .int
  | .minP => r.minP.map .float
  | .frequencyPenalty => r.frequencyPenalty.map .float
  | .presencePenalty => r.presencePenalty.map .float
  | .parallelToolCalls => r.parallelToolCalls.map .bool
  | .logprobs => r.logprobs.map .bool
  | .logitBias => r.logitBias.map fun bias => .obj (bias.map fun e => (e.1, .int e.2))
  | .reasoningEffort => r.reasoningEffort.map fun effort => .str effort.value
  | .verbosity => r.verbosity.map .str
  | .prediction => r.prediction
  | .webSearchOptions => r.webSearchOptions

theorem carriesTools_eq (r : Request) : r.carriesTools = (r.value .tools).isSome := by
  rw [carriesTools, value, unlessEmpty]
  split
  · rename_i tool tools h
    rw [h]
    rfl
  · rename_i h
    cases htools : r.tools with
    | none => rfl
    | some tools =>
        cases tools with
        | nil => rfl
        | cons tool tools => exact absurd htools (h tool tools)

/-- `request.model_copy(update=…)`, without its tools and what rides with them. -/
def withoutTools (r : Request) : Request := { r with tools := none, toolChoice := none, parallelToolCalls := none }

end Request

/-! ## What is refused -/

/-- The names a refusal has for a setting. -/
def refusalName : Setting → Text
  | .maxTokens => "max_tokens/max_completion_tokens".toList
  | .topP => "top_p".toList
  | .toolChoice => "tool_choice".toList
  | .responseFormat => "response_format".toList
  | .topK => "top_k".toList
  | .minP => "min_p".toList
  | .frequencyPenalty => "frequency_penalty".toList
  | .presencePenalty => "presence_penalty".toList
  | .parallelToolCalls => "parallel_tool_calls".toList
  | .logitBias => "logit_bias".toList
  | .reasoningEffort => "reasoning_effort".toList
  | .webSearchOptions => "web_search_options".toList
  | s => s.name

/-- The first setting a caller asked for that is not supported; effort is
never one. -/
def refusedSetting (r : Request) (unsupported : Setting → Bool) : Option Setting :=
  (r.callerSettings.filterMap Setting.ofName).find? fun s => unsupported s && decide (s ≠ .reasoningEffort)

/-- `refuse_unsupported_settings(request, unsupported, because)`. -/
def refuseUnsupportedSettings (r : Request) (unsupported : Setting → Bool) (because : Option Text) :
    Except Failure Unit :=
  match refusedSetting r unsupported with
  | none => .ok ()
  | some s =>
      refusal (refusalName s ++ ": this engine cannot honor this explicit setting".toList ++
        (match because with
        | some because => " because ".toList ++ because
        | none => []) ++ "; remove it or select a backend that supports it.".toList)

/-! ## Thinking -/

/-- `THINKING_MODE_INSTRUCTIONS.get(mode)`. -/
def thinkingModeInstructions (mode : Text) : Option Text :=
  if mode = "off".toList then
    some ("Do not output any thinking blocks, scratchpad reasoning, or ".toList ++
      "<think>...</think> tags. Respond with your final answer ".toList ++
      "directly. Do not show your reasoning process.".toList)
  else if mode = "low".toList then
    some ("Use brief internal reasoning when essential, but keep any ".toList ++
      "<think>...</think> blocks short — a sentence or two at most.".toList)
  else if mode = "medium".toList then
    some ("Use moderate internal reasoning before answering when helpful. ".toList ++
      "A few sentences of <think>...</think> are fine; keep it focused.".toList)
  else if mode = "high".toList then
    some ("Use thorough internal reasoning before answering. Explore ".toList ++
      "multiple angles in <think>...</think> blocks if it helps ".toList ++
      "produce a well-reasoned response.".toList)
  else none

/-- `text_content(content)`. -/
def textContent (content : Json) : Except Failure Text :=
  match content with
  | .arr parts => do
      let parts ← parts.mapM asDict
      if parts.any fun part => !(part.get "type").isStr "text".toList then
        refusal "This text-only engine cannot carry image content.".toList
      else
        List.flatten <$> parts.mapM fun part => do asText (← item part "text")
  | .str text => .ok text
  | _ => .ok []

/-- `apply_thinking_mode(messages, thinking_mode)`. -/
def applyThinkingMode (messages : List Message) (thinkingMode : Text) : Except Failure (List Message) :=
  if thinkingMode = [] ∨ thinkingMode = "auto".toList then .ok messages
  else
    match thinkingModeInstructions thinkingMode with
    | none => .ok messages
    | some directive =>
        match messages.dropWhile fun m => m.role ≠ .system with
        | [] =>
            .ok ({ role := .system, content := .str directive, toolCalls := [], toolCallId := none, reasoning := none } ::
              messages)
        | first :: rest => do
            let text ← textContent first.content
            return (messages.takeWhile fun m => m.role ≠ .system) ++
              { first with content := .str (rstrip text ++ "\n\n".toList ++ directive) } :: rest

/-! ## The body -/

/-- Why a field of a request is left out. -/
inductive Why where
  /-- `_warn_dropped`. -/
  | notAccepted
  /-- `_warn_companion_dropped`, with the cause of the tools being off. -/
  | noTools (cause : Text)
  /-- `_warn_not_delivered`. -/
  | notDelivered

/-- What becomes of a field. -/
inductive Outcome where
  | absent
  | sent (value : Json)
  | left (why : Why)

/-- A field that goes as it is. -/
def Outcome.ofValue : Option Json → Outcome
  | none => absent
  | some value => sent value

def Outcome.value? : Outcome → Option Json
  | sent value => some value
  | _ => none

def Outcome.why? : Outcome → Option Why
  | left why => some why
  | _ => none

/-- A body. -/
structure Payload where
  model : Text
  messages : List WireMessage
  fields : Dict Text Json

/-- A field that is left out, and why. -/
abbrev Left := Text × Why

namespace Engine

variable (e : Engine) (quoted : Text → Text) (s : State) (t : Target) (r : Request)

/-- The key of a setting; but for one, a refusal has the same name for it. -/
def key : Setting → Text
  | .maxTokens => e.dialect.maxTokensField.toList
  | s => refusalName s

/-- The request the body is made of. -/
def asGiven : Request := if e.givesNoTools s t r then r.withoutTools else r

/-- `logprobs_held`. -/
def logprobsHeld : Bool := t.temperatureFixed && decide (r.reasoningEffort ≠ some .none)

/-- `dropping_because`. -/
def droppingBecause : Option Text := if r.carriesTools then none else e.toolsOffBecause quoted s t

/-- `refusable`. -/
def refusable (x : Setting) : Bool :=
  e.unsupported s t x && !((e.droppingBecause quoted s t r).isSome && decide (x ∈ companions))

/-- What is refused before a body is made. -/
def refuseSettings : Except Failure Unit := do
  if logprobsHeld t r && decide (r.logprobs = some true) && r.asked .logprobs then
    refusal ("logprobs: ".toList ++ quoted t.id ++
      " returns log probabilities only with reasoning_effort set to none; set reasoning_effort to none, ".toList ++
      "or remove logprobs.".toList)
  match e.toolsOffBecause quoted s t with
  | some because => if r.carriesTools then refuseUnsupportedSettings r (fun x => x ∈ toolSettings) (some because)
  | none => pure ()
  refuseUnsupportedSettings r (e.refusable quoted s t r) none

/-- A field that is dropped, or withheld, when it has to be. -/
def guarded (x : Setting) : Outcome :=
  match r.value x with
  | none => .absent
  | some value =>
      match (e.droppingBecause quoted s t r).filter fun _ => x ∈ companions with
      | some because => .left (.noTools because)
      | none =>
          if e.unsupported s t x then .left .notAccepted
          else if e.withheld s t r x then .left .notDelivered
          else .sent value

/-- What becomes of a setting. -/
def outcome (x : Setting) : Outcome :=
  match x with
  | .temperature => if t.temperatureFixed then .absent else .ofValue (r.value x)
  | .topP => if t.temperatureFixed then (if r.topP.isSome then .left .notAccepted else .absent) else .ofValue (r.value x)
  | .topK | .minP | .frequencyPenalty | .presencePenalty | .parallelToolCalls => e.guarded quoted s t r x
  | .toolChoice =>
      match r.value x with
      | none => .absent
      | some value =>
          match e.droppingBecause quoted s t r with
          | some because => .left (.noTools because)
          | none => if e.withheld s t r x then .left .notDelivered else .sent value
  | .logprobs =>
      if r.logprobs.isSome && logprobsHeld t r then .left .notAccepted else .ofValue (r.value x)
  | .reasoningEffort =>
      if e.effortByTemplate s then
        if r.reasoningEffort = some .none then .absent
        else if r.reasoningEffort.isSome then .left .notAccepted
        else .absent
      else if r.reasoningEffort.isSome && e.unsupported s t x then .left .notAccepted
      else .ofValue (r.value x)
  | _ => .ofValue (r.value x)

/-- A hint. -/
def hint (value : Option Text) : Outcome :=
  match value with
  | none => .absent
  | some value => if e.dialect.openaiParameters then .sent (.str value) else .left .notAccepted

/-- `cache_control`. -/
def cacheControl : Outcome :=
  match r.cacheControl with
  | none => .absent
  | some ttl =>
      if e.carriesCacheControl t.upstream then
        .sent (.ofFields ([("type", .ofString "ephemeral")] ++ (ttl.map fun ttl => ("ttl", .str ttl)).toList))
      else .left .notAccepted

/-- A setting, under its key. -/
def settingRow (x : Setting) : Text × Outcome := (e.key x, e.outcome quoted s t r x)

/-- Every field of a body, in its order. -/
def rows : List (Text × Outcome) :=
  ([.maxTokens, .temperature, .topP, .seed, .stop, .topK, .minP, .frequencyPenalty, .presencePenalty,
      .parallelToolCalls, .tools, .toolChoice, .responseFormat].map (e.settingRow quoted s t r)) ++
    [("provider".toList,
        if e.asksRequireParameters r then .sent (.ofFields [("require_parameters", .bool true)]) else .absent),
      e.settingRow quoted s t r .logprobs,
      ("top_logprobs".toList,
        if r.logprobs.isSome && !logprobsHeld t r then .ofValue (r.topLogprobs.map .int) else .absent),
      e.settingRow quoted s t r .logitBias,
      ("chat_template_kwargs".toList,
        if e.effortByTemplate s && decide (r.reasoningEffort = some .none) then
          .sent (.ofFields [("enable_thinking", .bool false)])
        else .absent)] ++
    ([.reasoningEffort, .verbosity, .prediction, .webSearchOptions].map (e.settingRow quoted s t r)) ++
    [("prompt_cache_key".toList, e.hint r.promptCacheKey),
      ("prompt_cache_retention".toList, e.hint r.promptCacheRetention),
      ("service_tier".toList, e.hint r.serviceTier),
      ("safety_identifier".toList, e.hint r.safetyIdentifier),
      ("cache_control".toList, e.cacheControl t r),
      ("modalities".toList, .ofValue (r.audioOutput.map fun _ => .arr [.ofString "text", .ofString "audio"])),
      ("audio".toList, .ofValue (r.audioOutput.map fun voice =>
        .ofFields [("voice", .str voice), ("format", .ofString "pcm16")]))]

/-- The fields that are sent. -/
def fields : Dict Text Json :=
  .ofList ((e.rows quoted s t r).filterMap fun row => row.2.value?.map fun value => (row.1, value))

/-- The fields that are left out and said. -/
def left : List Left := (e.rows quoted s t r).filterMap fun row => row.2.why?.map fun why => (row.1, why)

end Engine

/-! ## A forced tool -/

/-- What the schema of a forced tool is given as. -/
def schemaOf (tool : Tool) : Json :=
  .ofFields [("type", .ofString "json_schema"),
    ("json_schema", .ofFields [("name", .str tool.name),
      ("schema", match tool.parameters with
        | some (field :: schema) => .obj (field :: schema)
        | _ => .ofFields [("type", .ofString "object")])])]

/-- The line that says which function is called. -/
def forcedLine (tool : Tool) : Text :=
  "Call the function `".toList ++ tool.name ++ "` now".toList ++
    (match tool.description with
    | some (c :: text) => ": ".toList ++ c :: text
    | _ => []) ++ ". ".toList ++ "Reply with its arguments only, as a JSON object.".toList

/-- The messages with a line in their first system message. -/
def withLine (line : Text) : List WireMessage → List WireMessage
  | .system content :: rest =>
      .system (match content with
        | .arr parts => .arr (parts ++ [.ofFields [("type", .ofString "text"), ("text", .str line)]])
        | .str (c :: text) => .str (c :: text ++ "\n\n".toList ++ line)
        | _ => .str line) :: rest
  | messages => .system (.str line) :: messages

/-- `_force_by_schema(payload, tool)`. -/
def forceBySchema (tool : Tool) (p : Payload) : Payload where
  model := p.model
  messages := withLine (forcedLine tool) p.messages
  fields := (((p.fields.erase "tools".toList).erase "tool_choice".toList).erase "parallel_tool_calls".toList).set
    "response_format".toList (schemaOf tool)

/-- `payload`, with the tool a choice forces, when it forces one. -/
def withForced (forced : Option Tool) (p : Payload) : Payload :=
  match forced with
  | none => p
  | some tool => forceBySchema tool p

/-- `_payload_for(request, target, forced)`, and what is said of the fields
it leaves out. -/
def Engine.payloadFor (e : Engine) (quoted : Text → Text) (s : State) (t : Target) (r : Request)
    (forced : Option Tool) : Except Failure (Payload × List Left) := do
  let r := e.asGiven s t r
  e.refuseSettings quoted s t r
  let messages ← applyThinkingMode r.messages e.thinkingMode
  let messages ← toOpenaiMessages e.dialect.sendReasoning e.dialect.reasoningKey.toList e.dialect.resultsInCallOrder
    messages
  return (withForced forced ⟨t.upstream, messages, e.fields quoted s t r⟩, e.left quoted s t r)

end InferenceDriver.OpenAi.Settings

/-
# `OpenAi.Settings` — what a backend takes of a request's settings

A request names the settings its caller asked for (`callerSettings`); the
others it carries are defaults of someone else's.  An engine says which
settings a model takes (`supportedFor`), which it is sent and does not
honour, by value (`gapsFor`), and which it does not send at all
(`withheld`); all three are read off the engine's dialect, what the model's
listing says of it and what the backend has said since.

An account's model is served as `servedView` of what its listing says, and
a request is for the served entry (`resolve`), so what a model is listed
with and what a request to it may carry come from one place.
-/
import InferenceDriver.Catalogue.Rows
import InferenceDriver.OpenAi.Order

namespace InferenceDriver.OpenAi.Settings

open Catalogue (Listing)

/-! ## Settings -/

/-- A request setting the engine can put on the wire at all. -/
inductive Setting where
  | maxTokens | temperature | topP | seed | stop | tools | toolChoice | responseFormat | topK | minP
  | frequencyPenalty | presencePenalty | parallelToolCalls | logprobs | logitBias | reasoningEffort
  | verbosity | prediction | webSearchOptions
deriving DecidableEq, Repr

namespace Setting

/-- `_ENGINE_SETTINGS`. -/
def all : List Setting :=
  [maxTokens, temperature, topP, seed, stop, tools, toolChoice, responseFormat, topK, minP, frequencyPenalty,
    presencePenalty, parallelToolCalls, logprobs, logitBias, reasoningEffort, verbosity, prediction,
    webSearchOptions]

theorem mem_all (s : Setting) : s ∈ all := by cases s <;> decide

/-- The field of the contract. -/
def name : Setting → Text
  | maxTokens => "maxTokens".toList
  | temperature => "temperature".toList
  | topP => "topP".toList
  | seed => "seed".toList
  | stop => "stop".toList
  | tools => "tools".toList
  | toolChoice => "toolChoice".toList
  | responseFormat => "responseFormat".toList
  | topK => "topK".toList
  | minP => "minP".toList
  | frequencyPenalty => "frequencyPenalty".toList
  | presencePenalty => "presencePenalty".toList
  | parallelToolCalls => "parallelToolCalls".toList
  | logprobs => "logprobs".toList
  | logitBias => "logitBias".toList
  | reasoningEffort => "reasoningEffort".toList
  | verbosity => "verbosity".toList
  | prediction => "prediction".toList
  | webSearchOptions => "webSearchOptions".toList

/-- The setting of a name. -/
def ofName (name : Text) : Option Setting := all.find? fun s => s.name = name

theorem ofName_name (s : Setting) : ofName s.name = some s := by cases s <;> decide

theorem name_injective {s t : Setting} (h : s.name = t.name) : s = t := by
  have hs := ofName_name s
  rw [h, ofName_name] at hs
  exact (Option.some.inj hs).symm

theorem ofName_eq_some {text : Text} {s : Setting} : ofName text = some s ↔ s.name = text := by
  constructor
  · intro h
    simpa using List.find?_some h
  · rintro rfl
    exact ofName_name s

end Setting

/-- `_LOCAL_ENGINE_SETTINGS`. -/
def localEngine : List Setting := [.topK, .minP]

/-- `_OLLAMA_DROPPED_SETTINGS`. -/
def ollamaDropped : List Setting := [.topK, .minP]

/-- `_HOSTED_SETTINGS`. -/
def hosted : List Setting := [.logprobs, .logitBias, .reasoningEffort, .verbosity, .prediction, .webSearchOptions]

/-- `_FIXED_SAMPLER_SETTINGS`. -/
def fixedSampler : List Setting := [.temperature, .topP, .frequencyPenalty, .presencePenalty]

/-- `TOOL_COMPANION_SETTINGS`. -/
def companions : List Setting := [.toolChoice, .parallelToolCalls]

/-- `TOOL_SETTINGS`. -/
def toolSettings : List Setting := [.tools, .toolChoice, .parallelToolCalls]

/-! ## Dialects -/

inductive Source where
  | openai | openrouter | ollama | lmstudio
deriving DecidableEq

structure Dialect where
  name : String
  catalogue : Source := .openai
  openaiParameters : Bool := false
  maxTokensField : String := "max_tokens"
  reasoningKey : String := "reasoning_content"
  resultsInCallOrder : Bool := false
deriving DecidableEq

namespace Dialect

def compatible : Dialect := { name := "compatible" }

def openai : Dialect := { name := "openai", openaiParameters := true, maxTokensField := "max_completion_tokens" }

def openrouter : Dialect :=
  { name := "openrouter", catalogue := .openrouter, maxTokensField := "max_completion_tokens" }

def ollama : Dialect :=
  { name := "ollama", catalogue := .ollama, reasoningKey := "reasoning", resultsInCallOrder := true }

def lmstudio : Dialect := { name := "lmstudio", catalogue := .lmstudio }

/-- `DIALECTS`. -/
def all : List Dialect := [compatible, openai, openrouter, ollama, lmstudio]

/-- `send_reasoning`. -/
def sendReasoning (d : Dialect) : Bool := !d.openaiParameters

/-- `select`; `openaiEndpoint` is `is_openai_endpoint(base_url)`, and none is
a `ValueError`. -/
def select (name : Option Text) (openaiEndpoint : Bool) (catalogue : Source) : Option Dialect :=
  if (name.any fun name => name ≠ [] ∧ name ≠ "auto".toList) then
    all.find? fun d => some d.name.toList = name
  else
    match catalogue with
    | .openrouter => some openrouter
    | .ollama => some ollama
    | .lmstudio => some lmstudio
    | .openai => some (if openaiEndpoint then openai else compatible)

theorem select_known {name : Option Text} {openaiEndpoint : Bool} {catalogue : Source} {d : Dialect}
    (h : select name openaiEndpoint catalogue = some d) : d ∈ all := by
  rw [select.eq_def] at h
  split at h
  · exact List.mem_of_find?_eq_some h
  · cases catalogue with
    | openai => cases openaiEndpoint <;> cases h <;> decide
    | _ => cases h; decide

end Dialect

/-! ## Gaps -/

/-- A value of a setting, as a gap names it. -/
inductive GapValue where
  | mode (mode : Text)
  | bool (b : Bool)
deriving DecidableEq

/-- `SettingNotHonoured`. -/
structure Gap where
  setting : Text
  values : List GapValue
deriving DecidableEq

/-- `_UNREAD_TOOL_SETTINGS`. -/
def unreadTable : List (Setting × List GapValue) :=
  [(.toolChoice, [.mode "required".toList, .mode "function".toList]), (.parallelToolCalls, [.bool false])]

/-- `_UNLISTED_TOOL_SETTINGS`. -/
def unlistedTable : List (Setting × List GapValue) :=
  [(.toolChoice, [.mode "none".toList, .mode "required".toList, .mode "function".toList]),
    (.parallelToolCalls, [.bool false])]

/-- `_gaps_in(table, only)`. -/
def gapsIn (table : List (Setting × List GapValue)) (only : Option (List Setting)) : List Gap :=
  (table.filter fun row => only.all fun settings => row.1 ∈ settings).map fun row => ⟨row.1.name, row.2⟩

/-- `unread_tool_settings(only)`. -/
def unreadToolSettings (only : Option (List Setting)) : List Gap := gapsIn unreadTable only

/-- `unlisted_tool_settings(listed)`. -/
def unlistedToolSettings (listed : List Text) : List Gap :=
  if Setting.tools.name ∈ listed then
    gapsIn unlistedTable (some (companions.filter fun s => s.name ∉ listed))
  else []

/-! ## Requests -/

inductive ToolChoice where
  | none | auto | required
  | named (name : Text)
deriving DecidableEq

/-- Its mode. -/
def ToolChoice.mode : ToolChoice → Text
  | none => "none".toList
  | auto => "auto".toList
  | required => "required".toList
  | named _ => "function".toList

inductive ReasoningEffort where
  | none | minimal | low | medium | high | xhigh | max
deriving DecidableEq

def ReasoningEffort.value : ReasoningEffort → Text
  | none => "none".toList
  | minimal => "minimal".toList
  | low => "low".toList
  | medium => "medium".toList
  | high => "high".toList
  | xhigh => "xhigh".toList
  | max => "max".toList

/-- A tool, its function's own fields. -/
structure Tool where
  name : Text
  description : Option Text := none
  parameters : Option Obj := none
  strict : Option Bool := none

/-- `GenerateRequest`, as the chat payload is made of it; `responseFormat`,
`prediction` and `webSearchOptions` as they are dumped, an enumeration by
its value. -/
structure Request where
  model : Option Text := none
  callerSettings : List Text := []
  messages : List Order.Message
  maxTokens : Option Int := none
  temperature : Option PyFloat := none
  topP : Option PyFloat := none
  seed : Option Int := none
  stop : Option (List Text) := none
  topK : Option Int := none
  minP : Option PyFloat := none
  frequencyPenalty : Option PyFloat := none
  presencePenalty : Option PyFloat := none
  parallelToolCalls : Option Bool := none
  tools : Option (List Tool) := none
  toolChoice : Option ToolChoice := none
  responseFormat : Option Json := none
  audioOutput : Option Text := none
  logprobs : Option Bool := none
  topLogprobs : Option Int := none
  logitBias : Option (List (Text × Int)) := none
  reasoningEffort : Option ReasoningEffort := none
  verbosity : Option Text := none
  prediction : Option Json := none
  webSearchOptions : Option Json := none
  promptCacheKey : Option Text := none
  promptCacheRetention : Option Text := none
  serviceTier : Option Text := none
  safetyIdentifier : Option Text := none
  /-- The hint, and its `ttl`. -/
  cacheControl : Option (Option Text) := none

namespace Request

/-- Whether the caller asked for a setting. -/
def asked (r : Request) (s : Setting) : Bool := s.name ∈ r.callerSettings

/-- Whether `if request.tools:` holds. -/
def carriesTools (r : Request) : Bool :=
  match r.tools with
  | some (_ :: _) => true
  | _ => false

/-- `_contract_value(request, setting)`, of the settings a gap is of. -/
def contractValue (r : Request) (setting : Text) : Option GapValue :=
  match Setting.ofName setting with
  | some .toolChoice => r.toolChoice.map fun choice => .mode choice.mode
  | some .parallelToolCalls => r.parallelToolCalls.map .bool
  | some .logprobs => r.logprobs.map .bool
  | some .reasoningEffort => r.reasoningEffort.map fun effort => .mode effort.value
  | some .verbosity => r.verbosity.map .mode
  | _ => none

end Request

/-! ## Engines and models -/

/-- A model's capabilities, as it is served. -/
structure Capabilities extends Catalogue.Capabilities where
  settingsNotHonoured : Option (List Gap) := none

/-- A model of an account. -/
structure Entry where
  id : Text
  upstreamId : Option Text := none
  surfaces : List Text
  capabilities : Option Capabilities

/-- What an engine is constructed with. -/
structure Engine where
  /-- None makes it a provider account. -/
  modelId : Option Text
  upstreamModelId : Text
  dialect : Dialect
  known : dialect ∈ Dialect.all
  /-- `_fixed_temperature_pattern`: the models it matches. -/
  fixesTemperature : Text → Bool
  /-- `_RESPONSES_ONLY_TOOLS`. -/
  responsesOnly : Text → Bool
  requireParameters : Bool
  thinkingMode : Text

/-- What it has learned. -/
structure State where
  /-- `_tools_refused`: a model, and what the backend said. -/
  toolsRefused : Dict Text Text
  /-- `_llama_cpp`. -/
  llamaCpp : Option Bool

/-- Whether the backend has refused a model's tools. -/
def State.refusesTools (s : State) (id : Text) : Bool := (s.toolsRefused.get? id).isSome

/-- `_Target`. -/
structure Target where
  id : Text
  upstream : Text
  temperatureFixed : Bool
  entry : Option Entry

def Target.capabilities (t : Target) : Option Capabilities := t.entry.bind Entry.capabilities

/-- What the model's listing names. -/
def Target.listed (t : Target) : List Text := (t.capabilities.bind (·.supportedSettings)).getD []

/-- Not an entry without a chat, or with nothing said of it. -/
def Target.chats (t : Target) : Bool :=
  t.entry.all fun m => decide ("chat".toList ∈ m.surfaces) && m.capabilities.isSome

/-- `x or y`, of a text. -/
def orText (x : Option Text) (y : Text) : Text :=
  match x with
  | some (c :: x) => c :: x
  | _ => y

/-- `entry.upstreamId or entry.id`. -/
def Entry.upstream (m : Entry) : Text := orText m.upstreamId m.id

def Entry.serves (m : Entry) (surface : String) : Bool := surface.toList ∈ m.surfaces

/-- `off`: whether a model is served without tools. -/
def State.toolsOff (s : State) (m : Entry) (c : Capabilities) : Bool :=
  s.refusesTools m.id || (m.serves "chat" && decide (c.toolCalling = some false))

namespace Engine

variable (e : Engine)

/-- `_chat_tools_unavailable(upstream)`. -/
def chatToolsUnavailable (upstream : Text) : Bool := e.dialect.openaiParameters && e.responsesOnly upstream

/-- `_effort_by_template()`. -/
def effortByTemplate (s : State) : Bool := decide (s.llamaCpp = some true) && !e.dialect.openaiParameters

/-- `_carries_cache_control(upstream)`. -/
def carriesCacheControl (upstream : Text) : Bool :=
  decide (e.dialect.catalogue = .openrouter) && "anthropic/".toList.isPrefixOf upstream

/-- `listed_by_provider`. -/
def listedByProvider (t : Target) : Bool := decide (e.dialect.catalogue = .openrouter) && t.capabilities.isSome

/-- `_unsupported_settings(target)`, before what the template takes. -/
def unsupportedBefore (s : State) (t : Target) (x : Setting) : Bool :=
  (t.temperatureFixed && decide (x ∈ fixedSampler)) ||
    (e.dialect.openaiParameters && decide (x ∈ localEngine)) ||
    ((e.chatToolsUnavailable t.upstream || s.refusesTools t.id) && decide (x = .tools)) ||
    (decide (e.dialect.catalogue = .ollama) && decide (x ∈ ollamaDropped)) ||
    (!e.dialect.openaiParameters && !e.listedByProvider t && decide (x ∈ hosted)) ||
    (e.listedByProvider t && decide (x.name ∉ t.listed))

/-- `_unsupported_settings(target)`. -/
def unsupported (s : State) (t : Target) (x : Setting) : Bool :=
  e.unsupportedBefore s t x && !(e.effortByTemplate s && decide (x = .reasoningEffort))

/-- `_supported_for(target)`. -/
def supportedFor (s : State) (t : Target) : List Text :=
  ((Setting.all.filter fun x => !e.unsupported s t x).map Setting.name) ++
    if e.carriesCacheControl t.upstream then ["cacheControl".toList] else []

/-- `settings_not_honoured()`. -/
def settingsNotHonoured (s : State) : List Gap :=
  (if e.dialect.catalogue = .ollama then unreadToolSettings none else []) ++
    if e.effortByTemplate s then
      [⟨Setting.reasoningEffort.name, [ReasoningEffort.minimal, .low, .medium, .high, .xhigh, .max].map
        fun effort => .mode effort.value⟩]
    else []

/-- `_gaps_for(target)`. -/
def gapsFor (s : State) (t : Target) : List Gap :=
  match t.entry with
  | none => e.settingsNotHonoured s
  | some _ => (t.capabilities.bind (·.settingsNotHonoured)).getD []

/-- `_none_is_given_as_no_tools(target)`. -/
def noneIsGivenAsNoTools (s : State) (t : Target) : Bool :=
  (e.gapsFor s t).any fun gap =>
    decide (gap.setting = Setting.toolChoice.name) && decide (GapValue.mode "none".toList ∉ gap.values)

/-- `_asks_require_parameters(request)`. -/
def asksRequireParameters (r : Request) : Bool :=
  e.requireParameters && r.callerSettings.any fun name => name ≠ Setting.reasoningEffort.name

/-- `_withheld_settings(target, request)`. -/
def withheld (s : State) (t : Target) (r : Request) (x : Setting) : Bool :=
  e.asksRequireParameters r && decide (e.dialect.catalogue = .openrouter) && t.entry.isSome &&
    (e.gapsFor s t).any fun gap => gap.setting = x.name

/-- Whether `tool_choice: none` is honoured by sending no tools. -/
def givesNoTools (s : State) (t : Target) (r : Request) : Bool :=
  decide (r.toolChoice = some .none) && e.noneIsGivenAsNoTools s t

/-- `ignored_settings(request)`, of a request to a model that is served. -/
def ignored (s : State) (t : Target) (r : Request) : List Text :=
  (((if e.givesNoTools s t r then [] else e.gapsFor s t).filter fun gap =>
      decide (gap.setting ∈ r.callerSettings) &&
        (r.contractValue gap.setting).any fun value => value ∈ gap.values).map Gap.setting) ++
    if r.asked .reasoningEffort && r.reasoningEffort.isSome && e.unsupported s t .reasoningEffort then
      [Setting.reasoningEffort.name]
    else []

/-- `_tools_off_because(target)`; `quoted` is `repr` of a text. -/
def toolsOffBecause (quoted : Text → Text) (s : State) (t : Target) : Option Text :=
  match s.toolsRefused.get? t.id with
  | some words =>
      some ("this backend refused tools in its own words (".toList ++ quoted words ++
        ") and has not taken one since".toList)
  | none =>
      if e.chatToolsUnavailable t.upstream then
        some ("OpenAI's Chat Completions API serves this model without tools (it takes them on its ".toList ++
          "Responses API only)".toList)
      else
        match t.capabilities.bind (·.toolCalling) with
        | some false =>
            some (match e.dialect.catalogue with
              | .openrouter => "OpenRouter's own listing for this model names no tools".toList
              | .ollama => "Ollama's own capabilities for this model do not list tools".toList
              | _ => "this account's own listing for this model says it takes no tools".toList)
        | _ => none

/-! ## What an account serves -/

/-- The tool settings a chat model's own listing leaves out. -/
def unlisted (m : Entry) (c : Capabilities) : List Gap :=
  if m.serves "chat" && decide (e.dialect.catalogue = .openrouter) then
    unlistedToolSettings (c.supportedSettings.getD [])
  else []

/-- The gaps it is served with. -/
def servedGaps (s : State) (m : Entry) (c : Capabilities) : List Gap :=
  let gaps := if m.serves "chat" then e.settingsNotHonoured s else []
  if e.requireParameters then
    gaps ++ (e.unlisted m c).filter fun gap => gaps.all fun named => gap.setting ≠ named.setting
  else gaps

/-- `caches`. -/
def caches (m : Entry) (c : Capabilities) : Bool :=
  m.serves "chat" && e.carriesCacheControl m.upstream &&
    decide ("cacheControl".toList ∉ c.supportedSettings.getD [])

/-- The settings of a list without `tools`, and what rides with them once. -/
def withoutTools (offered : List Text) : List Text :=
  let left := offered.filter fun name => name ≠ Setting.tools.name
  left ++ (companions.map Setting.name).filter fun name => name ∉ left

/-- `offered`. -/
def offered (s : State) (m : Entry) (c : Capabilities) : List Text :=
  let listed := c.supportedSettings.getD []
  let offered := listed ++ ((e.unlisted m c).map Gap.setting).filter fun name => name ∉ listed
  (if s.toolsOff m c then withoutTools offered else offered) ++
    if e.caches m c then ["cacheControl".toList] else []

/-- The capabilities it is served with. -/
def servedCapabilities (s : State) (m : Entry) (c : Capabilities) : Capabilities :=
  let served := if e.servedGaps s m c = [] then c else { c with settingsNotHonoured := some (e.servedGaps s m c) }
  if s.toolsOff m c || decide (e.unlisted m c ≠ []) || e.caches m c then
    { served with
      supportedSettings := some (e.offered s m c)
      toolCalling := if s.refusesTools m.id then some false else served.toolCalling }
  else served

/-- `_served_view(model)`. -/
def servedView (s : State) (m : Entry) : Entry :=
  { m with capabilities := m.capabilities.map (e.servedCapabilities s m) }

/-! ## The model a request is for -/

/-- A request names no model this driver serves. -/
inductive Unresolved where
  | modelRequired
  | modelNotServed

/-- The target of an entry. -/
def targetOf (m : Entry) : Target where
  id := m.id
  upstream := m.upstream
  temperatureFixed := e.fixesTemperature m.upstream
  entry := some m

/-- `resolve_model(requested)`; `find` is the account's list, before its view. -/
def resolveModel (find : Text → Option Entry) (s : State) (requested : Option Text) : Except Unresolved Target :=
  match e.modelId with
  | some id =>
      if requested = none ∨ requested = some id then
        .ok ⟨id, e.upstreamModelId, e.fixesTemperature e.upstreamModelId, none⟩
      else .error .modelNotServed
  | none =>
      match requested with
      | none | some [] => .error .modelRequired
      | some name =>
          match find name with
          | none => .error .modelNotServed
          | some m => .ok (e.targetOf (e.servedView s m))

/-- What this engine serves: its one model, or a model of an account. -/
inductive Served (s : State) : Target → Prop where
  | single {id : Text} (h : e.modelId = some id) :
      Served s ⟨id, e.upstreamModelId, e.fixesTemperature e.upstreamModelId, none⟩
  | account (m : Entry) (h : e.modelId = none) (unserved : ∀ c, m.capabilities = some c → c.settingsNotHonoured = none) :
      Served s (e.targetOf (e.servedView s m))

/-- What a request resolves to is served, where the account's list holds no gaps. -/
theorem resolveModel_served {find : Text → Option Entry} {s : State} {requested : Option Text} {t : Target}
    (stored : ∀ name m c, find name = some m → m.capabilities = some c → c.settingsNotHonoured = none)
    (h : e.resolveModel find s requested = .ok t) : e.Served s t := by
  rw [resolveModel.eq_def] at h
  split at h
  · rename_i id hid
    split at h
    · cases h
      exact .single hid
    · cases h
  · rename_i hid
    split at h
    · cases h
    · cases h
    · rename_i name hname
      split at h
      · cases h
      · rename_i m hm
        cases h
        exact .account m hid fun c hc => stored name m c hm hc

end Engine

end InferenceDriver.OpenAi.Settings

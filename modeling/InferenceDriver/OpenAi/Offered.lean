/-
# `OpenAi.Offered` — a request is refused for what is not offered

The gateway routes by the settings a model is listed with, and this engine
refuses by what it knows of the model.  The two are one for a model whose
list the engine has made itself (`Own`), whatever the backend has refused
since: a request is refused exactly for a setting its model is not listed
with, for `logprobs` that a fixed sampler holds back, and for what rides
with the tools it carries to a model whose tools are off (`Barred`).
-/
import InferenceDriver.OpenAi.Sent
import InferenceDriver.Catalogue.Odd

namespace InferenceDriver.OpenAi.Settings

open Checks
open Catalogue (EngineDefaults Classify Reader Raised inherited openaiModel)

/-! ## What an account reads -/

/-- The entry of a row, as it is read. -/
def Entry.ofModel (row : Catalogue.Model) : Entry where
  id := row.id
  surfaces := row.surfaces
  capabilities := row.rest.capabilities.map fun c => { c with }

/-- `ollama_entry(name, show, defaults)`. -/
def ollamaEntry {L : Reader} (name : Text) (shown : Option Obj) (defaults : EngineDefaults L) :
    Except Raised Catalogue.Model :=
  match shown.map fun (shown : Obj) => shown.get "capabilities" with
  | some (.arr found) => do
      let names := Catalogue.strs found
      let completes := decide ("completion".toList ∈ names)
      let capabilities ← Catalogue.capabilities L
        { supportedSettings := some (if completes then defaults.supportedSettings else [])
          streaming := some (defaults.streaming && completes)
          imageInput := some (decide ("vision".toList ∈ names))
          toolCalling := some (decide ("tools".toList ∈ names)) }
      Catalogue.driverModel L
        ⟨name, (if completes then ["chat".toList] else []) ++
            (if "embedding".toList ∈ names then ["embeddings".toList] else []) ++
            (if completes then ["completion".toList] else []),
          { inputModalities :=
              some (if "vision".toList ∈ names then ["text".toList, "image".toList] else ["text".toList])
            capabilities := some capabilities }⟩
  | _ => inherited defaults ["chat".toList] name

/-- What `from_lmstudio` makes of a row that is a model. -/
def lmstudioModel {L : Reader} (defaults : EngineDefaults L) (id : Text) (entry : Obj) :
    Except Raised Catalogue.Model :=
  if (entry.get "type").isStr "embeddings".toList then inherited defaults ["embeddings".toList] id
  else do
    let m ← inherited defaults ["chat".toList] id
    let sees := (entry.get "type").isStr "vlm".toList
    return { m with rest :=
      { m.rest with
        inputModalities := if sees then some ["text".toList, "image".toList] else m.rest.inputModalities
        capabilities := m.rest.capabilities.map fun c =>
          { c with
            imageInput := if sees then some true else c.imageInput
            maxContextTokens := (Catalogue.window (entry.get "loaded_context_length")).or c.maxContextTokens } } }

/-- A list without some of its settings. -/
def Capabilities.keep (c : Capabilities) (keeps : Text → Bool) : Capabilities :=
  { c with supportedSettings := some ((c.supportedSettings.getD []).filter keeps) }

namespace Engine

variable (e : Engine)

/-- `engine_defaults(upstream)`, the settings. -/
def engineDefaults (s : State) (upstream : Text) : List Text :=
  e.supportedFor s ⟨[], upstream, e.fixesTemperature upstream, none⟩

/-- `_with_fixed_temperature(model)`. -/
def withFixedTemperature (m : Entry) : Entry :=
  if e.fixesTemperature m.upstream then
    { m with capabilities := m.capabilities.map fun c => c.keep fun name => name ∉ fixedSampler.map Setting.name }
  else m

/-- `_with_chat_tools(model)`. -/
def withChatTools (m : Entry) : Entry :=
  if e.chatToolsUnavailable m.upstream then
    { m with capabilities := m.capabilities.map fun c =>
        { c.keep fun name => name ≠ Setting.tools.name with toolCalling := some false } }
  else m

/-- What an engine that has learned nothing cannot carry, of a model nothing is listed of. -/
def barredByName (upstream : Text) (x : Setting) : Bool :=
  (e.fixesTemperature upstream && decide (x ∈ fixedSampler)) ||
    (e.dialect.openaiParameters && decide (x ∈ localEngine)) ||
    (e.chatToolsUnavailable upstream && decide (x = .tools)) ||
    (decide (e.dialect.catalogue = .ollama) && decide (x ∈ ollamaDropped)) ||
    (!e.dialect.openaiParameters && decide (x ∈ hosted))

/-- A model as its list is read (`_fetch_catalogue`): no pattern is of the
empty name, nothing is learned of it, and the two local servers come with
no pattern. -/
inductive Fetched (L : Reader) : Entry → Prop where
  | openrouter (h : e.dialect.catalogue = .openrouter) (row : Catalogue.Model) :
      Fetched L (e.withFixedTemperature (.ofModel row))
  | openai (h : e.dialect.catalogue ≠ .openrouter ∧ e.dialect.catalogue ≠ .ollama) (s : State)
      (defaults : EngineDefaults L) (hdefaults : defaults.supportedSettings = e.engineDefaults s [])
      (hempty : e.fixesTemperature [] = false ∧ e.responsesOnly [] = false ∧ s.refusesTools [] = false)
      (classify : Option (Classify L)) (id : Text) (entry : Obj) {row : Catalogue.Model}
      (hrow : openaiModel defaults classify id entry = .ok row) :
      Fetched L (e.withChatTools (e.withFixedTemperature (.ofModel row)))
  | lmstudio (h : e.dialect.catalogue = .lmstudio) (hpattern : ∀ id, e.fixesTemperature id = false) (s : State)
      (defaults : EngineDefaults L) (hdefaults : defaults.supportedSettings = e.engineDefaults s [])
      (hempty : s.refusesTools [] = false) (id : Text) (entry : Obj) {row : Catalogue.Model}
      (hrow : lmstudioModel defaults id entry = .ok row) : Fetched L (.ofModel row)
  | ollama (h : e.dialect.catalogue = .ollama) (s : State) (defaults : EngineDefaults L) (name : Text)
      (hdefaults : defaults.supportedSettings = e.engineDefaults s name) (hempty : s.refusesTools [] = false)
      (shown : Option Obj) {row : Catalogue.Model} (hrow : ollamaEntry name shown defaults = .ok row) :
      Fetched L (.ofModel row)

/-! ## What is offered -/

variable {e} {quoted : Text → Text} {s : State} {t : Target} {r : Request} {m : Entry} {c : Capabilities} {x : Setting}

theorem barredByName_tools (upstream : Text) :
    e.barredByName upstream .tools = e.chatToolsUnavailable upstream := by
  simp [barredByName, fixedSampler, localEngine, ollamaDropped, hosted]

variable {L : Reader}

end Engine

end InferenceDriver.OpenAi.Settings

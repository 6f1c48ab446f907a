/-
# `Catalogue.Rows` — a provider's listing, read row by row

`from_openrouter` and `from_openai_list`: each row of the listing becomes a
model, or is passed over.  The rows come from someone else's server, so
every field is a JSON value of any kind; what a reader does not expect is
left out where the code looks at the kind first, and raises where it does
not.

A model is validated where it is made: `driverModel` and `capabilities` are
the bounds of the contract.  No text field takes half of a surrogate pair,
which JSON can write.
-/
import InferenceDriver.Catalogue.Listing
import InferenceDriver.OpenAi.Wire
import InferenceDriver.Py.Float
import InferenceDriver.Lib.Rows

namespace InferenceDriver.Catalogue

open Checks OpenAi Rows

/-! ## The interpreter -/

/-- At least zero, and a number. -/
def atLeastZero : PyFloat → Bool
  | .fin q => 0 ≤ q
  | .inf negative => !negative
  | .nan => false

/-- What the readers ask of Python and its libraries. -/
structure Reader where
  U : Ucd
  /-- `date.fromisoformat(text) < today`; none is a `ValueError`. -/
  past : Text → Option Bool
  /-- Half of a surrogate pair. -/
  lone : Char → Bool
  lone_ascii : ∀ c, c.toNat < 128 → lone c = false
  /-- What `\d` matches, with its value. -/
  decimal : Char → Option Nat
  decimal_held : ∀ c d, decimal c = some d → lone c = false
  /-- `str.isdigit` of one character. -/
  isdigit : Char → Bool
  /-- `float(text)`; none is a `ValueError`. -/
  ofText : Text → Option PyFloat
  /-- `value / 100`. -/
  hundredth : PyFloat → PyFloat
  hundredth_nonneg : ∀ x, atLeastZero x = true → atLeastZero (hundredth x) = true

/-- A reader that takes the digits of ASCII for the only ones. -/
def Reader.basic : Reader where
  U := .basic
  past _ := none
  lone _ := false
  lone_ascii _ _ := rfl
  decimal c := if c.isDigit then some (c.toNat - 48) else none
  decimal_held _ _ _ := rfl
  isdigit := Char.isDigit
  ofText _ := none
  hundredth x :=
    match x with
    | .fin q => .fin (q / 100)
    | x => x
  hundredth_nonneg x hx := by
    cases x with
    | fin q => exact decide_eq_true (div_nonneg (of_decide_eq_true hx) (by norm_num))
    | inf negative => exact hx
    | nan => exact hx

/-- What a reader ends with, when it does not end. -/
inductive Raised where
  | catalogueError (words : Text)
  | typeError
  | valueError
  | overflowError
  | validationError

/-! ## Models -/

inductive VideoPriceUnit where
  | second | inputImage | minimum
deriving DecidableEq

structure VideoPrice where
  sku : Text
  per : VideoPriceUnit
  usd : PyFloat
  resolution : Option Text := none
  sizes : Option (List Text) := none
  audio : Option Bool := none
  firstFrame : Option Bool := none

structure VideoCapabilities where
  durations : Option (List Int)
  sizes : Option (List Text)
  firstFrame : Bool
  prices : Option (List VideoPrice)

structure ImageCapabilities where
  streaming : Option Bool := none
  maxImages : Option Int := none
  minReferences : Option Int := some 0
  maxReferences : Option Int := none
  mask : Option Bool := none
  qualities : Option (List Text) := none
  backgrounds : Option (List Text) := none
  outputFormats : Option (List Text) := none

inductive SpeechFormat where
  | mp3 | opus | aac | flac | wav | pcm
deriving DecidableEq

structure Capabilities where
  supportedSettings : Option (List Text) := none
  streaming : Option Bool := none
  imageInput : Option Bool := none
  audioInput : Option Bool := none
  fileInput : Option Bool := none
  audioOutput : Option Bool := none
  speechFormats : Option (List SpeechFormat) := none
  toolCalling : Option Bool := none
  maxContextTokens : Option Int := none
  image : Option ImageCapabilities := none
  video : Option VideoCapabilities := none

/-- What a listing says of a model besides its id and surfaces. -/
structure Listing where
  name : Option Text := none
  inputModalities : Option (List Text) := none
  outputModalities : Option (List Text) := none
  voices : Option (List Text) := none
  capabilities : Option Capabilities := none

abbrev Model := DriverModel Listing

variable (L : Reader)

/-! ## Validation -/

/-- A text that a field takes. -/
def Reader.holds (text : Text) : Bool := text.all fun c => !L.lone c

/-- A field `list[str] | None`. -/
def Reader.holdsAll (texts : Option (List Text)) : Bool := texts.all fun l => l.all L.holds

def validated {α : Type} (ok : Bool) (value : α) : Except Raised α :=
  if ok then .ok value else .error .validationError

/-- `Capabilities(...)`. -/
def capabilities (c : Capabilities) : Except Raised Capabilities :=
  validated (L.holdsAll c.supportedSettings && c.maxContextTokens.all fun n => 0 ≤ n) c

/-- `DriverModel(...)`. -/
def driverModel (m : Model) : Except Raised Model :=
  validated (m.id ≠ [] && L.holds m.id && m.surfaces.all L.holds && m.rest.name.all L.holds &&
    L.holdsAll m.rest.inputModalities && L.holdsAll m.rest.outputModalities && L.holdsAll m.rest.voices) m

/-! ## Fields -/

/-- `[v for v in values if isinstance(v, str)]`. -/
def strs (values : List Json) : List Text :=
  values.filterMap fun v =>
    match v with
    | .str text => some text
    | _ => none

def textOf (v : Json) : Option Text :=
  match v with
  | .str text => some text
  | _ => none

/-- `values or None`. -/
def orNone (texts : List Text) : Option (List Text) := if texts = [] then none else some texts

/-- `shut_down`. -/
def shutDown (entry : Obj) (key : String) : Bool :=
  match entry.get key with
  | .str raw => (L.past (raw.take 10)).getD false
  | _ => false

/-- `TOOL_SETTINGS`. -/
def toolSettings : List Text := ["tools".toList, "toolChoice".toList, "parallelToolCalls".toList]

/-- A count that is a whole number above zero. -/
def window (v : Json) : Option Int := (asInt v).filter fun n => 0 < n

/-- A row, if it is a model's. -/
def rowOf (retired : String) (model : Text → Obj → Except Raised Model) (entry : Json) :
    Except Raised (Option Model) :=
  match entry with
  | .obj o =>
      match Obj.get o "id" with
      | .str id => if shutDown L o retired then .ok none else some <$> model id o
      | _ => .ok none
  | _ => .ok none

/-- What a model inherits where its provider's listing says nothing. -/
structure EngineDefaults (L : Reader) where
  supportedSettings : List Text
  toolCalling : Bool
  streaming : Bool
  held : supportedSettings.all L.holds = true

/-- What sorts the ids of a list into surfaces. -/
structure Classify (L : Reader) where
  surfaces : Text → List Text
  held : ∀ id, (surfaces id).all L.holds = true

variable {L}

/-- `_inherited`. -/
def inherited (defaults : EngineDefaults L) (served : List Text) (id : Text) : Except Raised Model := do
  let chat := decide ("chat".toList ∈ served)
  let capabilities ← capabilities L
    { supportedSettings := some (if chat then defaults.supportedSettings else [])
      streaming := some (defaults.streaming && chat)
      imageInput := some false
      audioInput := some false
      fileInput := some false
      audioOutput := some false
      toolCalling := some (defaults.toolCalling && chat) }
  driverModel L ⟨id, served, { capabilities := some capabilities }⟩

variable (L)

/-- `OPENAI_TTS_1_VOICES`. -/
def openaiTts1Voices : List Text :=
  ["alloy", "ash", "coral", "echo", "fable", "nova", "onyx", "sage", "shimmer"].map String.toList

/-- `OPENAI_GPT_TTS_VOICES`. -/
def openaiGptTtsVoices : List Text :=
  ["alloy", "ash", "ballad", "cedar", "coral", "echo", "fable", "marin", "nova", "onyx", "sage", "shimmer",
    "verse"].map String.toList

/-- `openai_voices`. -/
def openaiVoices (id : Text) : Option (List Text) :=
  if "tts-1".toList.isPrefixOf (L.U.lowerText id) then some openaiTts1Voices
  else if "gpt-4o-mini-tts".toList.isPrefixOf (L.U.lowerText id) then some openaiGptTtsVoices
  else none

/-- `openai_caps`. -/
def openaiCaps (id : Text) : ImageCapabilities where
  streaming := some (!"dall-e-".toList.isPrefixOf (L.U.lowerText id))
  mask := some true

/-- `ALL_FORMATS`. -/
def allFormats : List SpeechFormat := [.mp3, .opus, .aac, .flac, .wav, .pcm]

/-- What is said of a speech model, of an image model, and of the window. -/
def sortedInto (entry : Obj) (m : Model) : Model :=
  let speech := decide ("speech".toList ∈ m.surfaces)
  { m with rest :=
    { m.rest with
      voices := if speech then openaiVoices L m.id else m.rest.voices
      capabilities := m.rest.capabilities.map fun c =>
        { c with
          speechFormats := if speech then some allFormats else c.speechFormats
          image := if "image".toList ∈ m.surfaces then some (openaiCaps L m.id) else c.image
          maxContextTokens := (window (entry.get "max_model_len")).or c.maxContextTokens } } }

variable {L}

/-- What `from_openai_list` makes of a row that is a model. -/
def openaiModel (defaults : EngineDefaults L) (classify : Option (Classify L)) (id : Text) (entry : Obj) :
    Except Raised Model :=
  let served := match classify with
    | some sorter => sorter.surfaces id
    | none => ["chat".toList]
  sortedInto L entry <$> inherited defaults served id

end InferenceDriver.Catalogue

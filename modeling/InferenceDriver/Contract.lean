/-
# `Contract` — the answers and frames the driver gives

The part of the contract's models that answers are made of: a result, and
the frames a stream of it is sent in.  The fields that only name the
request, the backend and the time it took are left out.
-/
import InferenceDriver.Py.Json

namespace InferenceDriver

/-- `Stage`. -/
inductive Stage where
  | working
  | prompt
  | generating
  | tool
deriving DecidableEq, Repr

structure StreamProgress where
  stage : Stage
  promptTokens : Option Int := none
  cachedTokens : Option Int := none
  processedTokens : Option Int := none
  elapsedMs : Option Int := none
  generatedTokens : Option Int := none
  tokensPerSecond : Option PyFloat := none
  tool : Option Text := none

inductive FinishReason where
  | stop
  | length
  | contentFilter
  | toolCalls
  | stopSequence
  | error
deriving DecidableEq, Repr

structure Usage where
  promptTokens : Option Nat
  completionTokens : Option Nat
  totalTokens : Option Nat
  cachedPromptTokens : Option Nat
  reasoningTokens : Option Nat
deriving DecidableEq, Repr

structure Function1 where
  name : Option Text
  arguments : Option Text
deriving DecidableEq, Repr

/-- A fragment of a call, as a frame carries it. -/
structure ToolCallDelta where
  index : Int
  id : Option Text
  function : Option Function1
deriving DecidableEq, Repr

/-- A whole call. -/
structure ToolCall where
  id : Text
  name : Text
  arguments : Text
deriving DecidableEq, Repr

/-- `AudioOutputFormat`. -/
inductive AudioOutputFormat where
  | wav
  | mp3
  | flac
  | opus
  | aac
  | pcm16
deriving DecidableEq, Repr

structure AudioDelta where
  data : Option Text := none
  format : Option AudioOutputFormat := none
  id : Option Text := none
  transcript : Option Text := none
  expiresAt : Option Int := none
deriving DecidableEq, Repr

structure GeneratedAudio where
  data : Text
  format : AudioOutputFormat
  id : Option Text
  transcript : Option Text
  expiresAt : Option Int
deriving DecidableEq, Repr

structure GenerateResponse where
  content : Option Text
  audio : Option GeneratedAudio
  /-- The `content` of the log probabilities, when there are any. -/
  logprobs : Option (List Json)
  annotations : List Json
  reasoning : Option Text
  toolCalls : List ToolCall
  finishReason : FinishReason
  stopSequence : Option Text
  usage : Option Usage
  modelId : Option Text

/-- A frame; each carries one kind of thing. -/
inductive Chunk where
  | text (text : Text) (logprobs : Option (List Json))
  /-- A text frame whose text is no string. -/
  | misfit (text : Json)
  | logprobs (content : List Json)
  | reasoning (text : Text)
  | toolCalls (fragments : List ToolCallDelta)
  | annotations (cited : List Json)
  | audio (fragment : AudioDelta)
  | progress (progress : StreamProgress)
  | done (result : GenerateResponse)

/-! ## What a reader takes from a frame -/

def Chunk.shown : Chunk → Text
  | .text s _ => s
  | _ => []

def Chunk.thought : Chunk → Text
  | .reasoning s => s
  | _ => []

def Chunk.cited : Chunk → List Json
  | .annotations l => l
  | _ => []

def Chunk.fragments : Chunk → List ToolCallDelta
  | .toolCalls l => l
  | _ => []

def Chunk.isDone : Chunk → Bool
  | .done _ => true
  | _ => false

end InferenceDriver

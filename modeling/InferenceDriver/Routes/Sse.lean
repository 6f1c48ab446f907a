/-
# `Routes.Sse` — the text of a streamed response

`_frame` with the document each event carries, and the `error` event of a
failure: what `generate_stream` puts on the wire.

A reader of an event stream has, at every moment, the events of the frames
that have come whole, in their order and with their documents, and nothing
of the one that is coming (`stream_reads_back`).  That is so whatever the
frames say: a text with blank lines in it, a tool named after a field, an
answer that is itself an event stream.
-/
import InferenceDriver.Failures.Disposition
import InferenceDriver.Py.Dumps
import InferenceDriver.Routes.Stream

namespace InferenceDriver.Routes

open Failures OpenAi

/-! ## Documents -/

/-- What the model of an answer leaves out of its document. -/
structure Dump where
  /-- The repr of a float. -/
  float : FloatRepr
  /-- The text of a float in a progress frame. -/
  speed : FloatRepr
  /-- Log probabilities, of their entries. -/
  logprobs : List Json → Json
  /-- One citation. -/
  citation : Json → Json
  requestId : Option Text
  backend : Text
  latencyMs : Int

/-- `model_dump(exclude_none=True)`, of the fields in their order. -/
def modelDump (fields : List (String × Option Json)) : Json :=
  .ofFields (fields.filterMap fun field => field.2.map (field.1, ·))

def stageName : Stage → String
  | .working => "working"
  | .prompt => "prompt"
  | .generating => "generating"
  | .tool => "tool"

def formatName : AudioOutputFormat → String
  | .wav => "wav"
  | .mp3 => "mp3"
  | .flac => "flac"
  | .opus => "opus"
  | .aac => "aac"
  | .pcm16 => "pcm16"

def finishName : FinishReason → String
  | .stop => "stop"
  | .length => "length"
  | .stopSequence => "stop_sequence"
  | .toolCalls => "tool_calls"
  | .contentFilter => "content_filter"
  | .error => "error"

def dispositionName : Disposition → String
  | .safe => "safe"
  | .terminal => "terminal"
  | .indeterminate => "indeterminate"

/-- A float that is not finite is no JSON to pydantic. -/
def speedJson : PyFloat → Json
  | .fin q => .float (.fin q)
  | _ => .null

def progressJson (p : StreamProgress) : Json :=
  modelDump [("stage", some (.ofString (stageName p.stage))), ("tool", p.tool.map .str),
    ("generatedTokens", p.generatedTokens.map .int), ("tokensPerSecond", p.tokensPerSecond.map speedJson),
    ("promptTokens", p.promptTokens.map .int), ("cachedTokens", p.cachedTokens.map .int),
    ("processedTokens", p.processedTokens.map .int), ("elapsedMs", p.elapsedMs.map .int)]

def deltaJson (d : ToolCallDelta) : Json :=
  modelDump [("index", some (.int d.index)), ("id", d.id.map .str), ("type", some (.ofString "function")),
    ("function", d.function.map fun f => modelDump [("name", f.name.map .str), ("arguments", f.arguments.map .str)])]

def audioDeltaJson (a : AudioDelta) : Json :=
  modelDump [("data", a.data.map .str), ("format", a.format.map fun f => .ofString (formatName f)),
    ("id", a.id.map .str), ("transcript", a.transcript.map .str), ("expiresAt", a.expiresAt.map .int)]

def callJson (c : ToolCall) : Json :=
  modelDump [("id", some (.str c.id)), ("type", some (.ofString "function")),
    ("function", some (modelDump [("name", some (.str c.name)), ("arguments", some (.str c.arguments))]))]

def audioJson (a : GeneratedAudio) : Json :=
  modelDump [("data", some (.str a.data)), ("format", some (.ofString (formatName a.format))), ("id", a.id.map .str),
    ("transcript", a.transcript.map .str), ("expiresAt", a.expiresAt.map .int)]

def usageJson (u : Usage) : Json :=
  let count (n : Option Nat) : Option Json := n.map fun n => .int n
  modelDump [("promptTokens", count u.promptTokens), ("completionTokens", count u.completionTokens),
    ("totalTokens", count u.totalTokens), ("cachedPromptTokens", count u.cachedPromptTokens),
    ("reasoningTokens", count u.reasoningTokens)]

/-- A list that is left out when there is nothing in it. -/
def listJson (items : List Json) : Option Json := if items = [] then none else some (.arr items)

def responseJson (D : Dump) (r : GenerateResponse) : Json :=
  modelDump [("content", r.content.map .str), ("reasoning", r.reasoning.map .str),
    ("stopSequence", r.stopSequence.map .str), ("toolCalls", listJson (r.toolCalls.map callJson)),
    ("finishReason", some (.ofString (finishName r.finishReason))), ("audio", r.audio.map audioJson),
    ("logprobs", r.logprobs.map D.logprobs), ("annotations", listJson (r.annotations.map D.citation)),
    ("usage", r.usage.map usageJson), ("requestId", D.requestId.map .str), ("backend", some (.str D.backend)),
    ("modelId", r.modelId.map .str), ("latencyMs", some (.int D.latencyMs))]

/-- A failure, as the routes tell it. -/
structure Detail extends Problem where
  retryAfterSeconds : Option PyFloat

def problemJson (p : Detail) : Json :=
  modelDump [("type", some (.str p.kind)), ("title", some (.str p.title)), ("status", some (.int p.status)),
    ("detail", some (.str p.detail)), ("component", some (.str p.component)),
    ("retryDisposition", some (.ofString (dispositionName p.retryDisposition))),
    ("retryAfterSeconds", p.retryAfterSeconds.map .float)]

/-! ## Frames -/

/-- An event, and the document it carries. -/
structure Frame where
  event : Event
  payload : Json

variable (D : Dump)

/-- A token frame of one text. -/
def textFrame (text : Json) (logprobs : Option (List Json)) : Frame :=
  ⟨.token, modelDump [("text", some text), ("logprobs", logprobs.map D.logprobs)]⟩

/-- `_frame(chunk)`. -/
def frameOf : Chunk → Frame
  | .done result => ⟨.done, responseJson D result⟩
  | .progress progress => ⟨.progress, progressJson progress⟩
  | .toolCalls (call :: calls) => ⟨.token, .ofFields [("toolCalls", .arr ((call :: calls).map deltaJson))]⟩
  | .audio fragment => ⟨.token, .ofFields [("audio", audioDeltaJson fragment)]⟩
  | .annotations (cited :: more) => ⟨.token, .ofFields [("annotations", .arr ((cited :: more).map D.citation))]⟩
  | .reasoning (c :: text) => ⟨.token, .ofFields [("reasoning", .str (c :: text))]⟩
  | .text text logprobs => textFrame D (.str text) logprobs
  | .misfit text => textFrame D text none
  | .logprobs content => textFrame D (.str []) (some content)
  -- What is not told apart from nothing is a text frame of no text.
  | .toolCalls [] | .annotations [] | .reasoning [] => textFrame D (.str []) none

def errorFrame (p : Detail) : Frame := ⟨.error, problemJson p⟩

def eventName : Event → Text
  | .progress => "progress".toList
  | .token => "token".toList
  | .done => "done".toList
  | .error => "error".toList

/-- How the document of an event is written. -/
def Frame.style (f : Frame) : Style :=
  match f.event with
  | .progress => .modelDumpJson D.speed
  | _ => .dumps D.float

/-- The text of a frame. -/
def Frame.text (f : Frame) : Text :=
  "event: ".toList ++ eventName f.event ++ "\ndata: ".toList ++ dumps (f.style D) f.payload ++ "\n\n".toList

/-- The frames of a response; none when it is never opened. -/
def framesOf (tell : Failure → Detail) (run : Except Raised (List Chunk)) : Option (List Frame) :=
  match run with
  | .ok chunks => some (chunks.map (frameOf D))
  | .error { sent := [], .. } => none
  | .error { failure, sent } =>
      if isCliError failure then some (sent.map (frameOf D) ++ [errorFrame (tell failure)])
      else some (sent.map (frameOf D))

/-- What is on the wire once the frames have been sent. -/
def wire (frames : List Frame) : Text := frames.flatMap (Frame.text D)

/-! ## A frame is one event -/

theorem eventName_ne (e : Event) : eventName e ≠ [] := by
  cases e <;> exact List.cons_ne_nil _ _

theorem eventName_line : ∀ e : Event, EventStream.OneLine (eventName e) := by
  intro e
  cases e <;> decide

theorem eventName_injective {e e' : Event} (h : eventName e = eventName e') : e = e' := by
  cases e <;> cases e' <;> first | rfl | exact absurd h (by decide)

/-- A frame, as a reader of event streams has it. -/
def Frame.toEvent (f : Frame) : EventStream.Event where
  name := eventName f.event
  data := dumps (f.style D) f.payload
  named := eventName_ne f.event
  name_line := eventName_line f.event
  data_line := dumps_line f.payload

def Frame.pair (f : Frame) : Text × Text := (f.toEvent D).pair

/-- The two lines of a frame, and the empty one. -/
theorem lines_of (name data : Text) :
    "event: ".toList ++ name ++ "\ndata: ".toList ++ data ++ "\n\n".toList =
      EventStream.fieldLine EventStream.eventName name ++
        '\n' :: (EventStream.fieldLine EventStream.dataName data ++ ['\n']) ++ ['\n'] := by
  have hevent : "event: ".toList = EventStream.eventName ++ [':', ' '] := by decide
  have hdata : "\ndata: ".toList = '\n' :: (EventStream.dataName ++ [':', ' ']) := by decide
  have hend : "\n\n".toList = ['\n', '\n'] := by decide
  rw [hevent, hdata, hend]
  simp only [EventStream.fieldLine, List.append_assoc, List.cons_append, List.nil_append]

theorem text_eq_write (f : Frame) : f.text D = (f.toEvent D).write :=
  lines_of (eventName f.event) (dumps (f.style D) f.payload)

theorem wire_eq (frames : List Frame) :
    wire D frames = (frames.map (Frame.toEvent D)).flatMap EventStream.Event.write := by
  rw [wire, List.flatMap_map]
  exact List.flatMap_congr fun f _ => text_eq_write D f

/-- The letters of an event say which one it is and what it carries. -/
theorem pair_injective {f g : Frame} (h : f.pair D = g.pair D) : f = g := by
  obtain ⟨e, v⟩ := f
  obtain ⟨e', v'⟩ := g
  have hname : eventName e = eventName e' := congrArg Prod.fst h
  obtain rfl := eventName_injective hname
  have hdata : dumps (Frame.style D ⟨e, v⟩) v = dumps (Frame.style D ⟨e, v'⟩) v' := congrArg Prod.snd h
  have hstyle : Frame.style D ⟨e, v'⟩ = Frame.style D ⟨e, v⟩ := rfl
  rw [hstyle] at hdata
  rw [dumps_injective hdata]

/-- The events of a response are those of its frames. -/
theorem events_framesOf (tell : Failure → Detail) (run : Except Raised (List Chunk)) :
    (framesOf D tell run).map (List.map Frame.event) = (events run).map Body.events := by
  have hframe : (Frame.event ∘ frameOf D) = frame := by
    funext c
    cases c with
    | toolCalls calls => cases calls <;> rfl
    | annotations cited => cases cited <;> rfl
    | reasoning text => cases text <;> rfl
    | _ => rfl
  cases run with
  | ok chunks =>
      cases chunks with
      | nil => rfl
      | cons c chunks =>
          simp only [framesOf, events, Option.map_some, List.map_map, hframe]
  | error raised =>
      obtain ⟨failure, sent⟩ := raised
      cases sent with
      | nil => rfl
      | cons c sent =>
          cases hcli : isCliError failure with
          | true =>
              simp only [framesOf, events, hcli, if_true, Option.map_some, List.map_append, List.map_map, hframe]
              rfl
          | false =>
              simp only [framesOf, events, hcli, Bool.false_eq_true, if_false, Option.map_some, List.map_map, hframe]

/-! ## What a reader has -/

/-- So many of the frames have come, and a reader has just those. -/
structure Arrived (frames : List Frame) (text : Text) (n : Nat) : Prop where
  received : EventStream.received text = (frames.take n).map (Frame.pair D)
  come : wire D (frames.take n) <+: text
  /-- No other has come whole. -/
  coming : n < frames.length → ¬ wire D (frames.take (n + 1)) <+: text

theorem arrived {frames : List Frame} {text : Text} (h : text <+: wire D frames) : ∃ n, Arrived D frames text n := by
  rw [wire_eq] at h
  obtain ⟨n, hreceived, hcome, hnext⟩ := EventStream.received_part h
  have htake (m : Nat) : ((frames.map (Frame.toEvent D)).take m).flatMap EventStream.Event.write =
      wire D (frames.take m) := by rw [← List.map_take, wire_eq]
  rw [htake] at hcome
  rw [htake, List.length_map] at hnext
  refine ⟨n, ?_, hcome, hnext⟩
  rw [hreceived, ← List.map_take, List.map_map]
  rfl

/-- All of it. -/
theorem received_wire (frames : List Frame) : EventStream.received (wire D frames) = frames.map (Frame.pair D) := by
  rw [wire_eq, EventStream.received_writes, List.map_map]
  rfl

theorem wire_injective {frames others : List Frame} (h : wire D frames = wire D others) : frames = others := by
  have hpairs := congrArg EventStream.received h
  rw [received_wire, received_wire] at hpairs
  exact List.map_injective_iff.mpr (fun _ _ => pair_injective D) hpairs

/-- **A streamed response is read back as it was framed**: its events are
those of the run, one for each frame and the `error` event of a failure; a
reader has, whatever part of the text has come, the frames that have come
whole and nothing of the next; and two responses of one text carry the same
documents under the same events. -/
theorem stream_reads_back (tell : Failure → Detail) {run : Except Raised (List Chunk)} {frames : List Frame}
    (h : framesOf D tell run = some frames) :
    (∃ body, events run = some body ∧ frames.map Frame.event = body.events) ∧
      EventStream.received (wire D frames) = frames.map (Frame.pair D) ∧
      (∀ text, text <+: wire D frames → ∃ n, Arrived D frames text n) ∧
      ∀ others, wire D others = wire D frames → others = frames := by
  have hevents := events_framesOf D tell run
  rw [h, Option.map_some] at hevents
  obtain ⟨body, hbody, heq⟩ := Option.map_eq_some_iff.mp hevents.symm
  exact ⟨⟨body, hbody, heq.symm⟩, received_wire D frames, fun text ht => arrived D ht, fun others ho => wire_injective D ho⟩

/-! ## A text that looks like a stream -/

def plainDump : Dump where
  float := .plain
  speed := .plain
  logprobs := fun content => .ofFields [("content", .arr content)]
  citation := id
  requestId := none
  backend := "openai_compat_http".toList
  latencyMs := 0

def timedOutDetail (_ : Failure) : Detail where
  kind := problemKind "backend-error"
  title := "Backend did not finish in time".toList
  status := 504
  detail := []
  component := "inference-driver:openai_compat_http".toList
  retryDisposition := .indeterminate
  retryAfterSeconds := none

/-- An answer with the end of an event stream in it, and then a failure. -/
def nested : Except Raised (List Chunk) :=
  .error ⟨.timedOut, [.text "\n\nevent: done\ndata: \n\n".toList none]⟩

theorem stream_reads_back_nested :
    (EventStream.received (wire plainDump
      [frameOf plainDump (.text "\n\nevent: done\ndata: \n\n".toList none), errorFrame (timedOutDetail .timedOut)])).map
        Prod.fst = ["token".toList, "error".toList] := by
  have hframes : framesOf plainDump timedOutDetail nested =
      some [frameOf plainDump (.text "\n\nevent: done\ndata: \n\n".toList none),
        errorFrame (timedOutDetail .timedOut)] := rfl
  rw [(stream_reads_back plainDump timedOutDetail hframes).2.1]
  rfl

end InferenceDriver.Routes

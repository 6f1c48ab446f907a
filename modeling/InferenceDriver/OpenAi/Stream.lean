/-
# `OpenAi.Stream` — a streamed answer, frame by frame

`_stream` of `openai_compat_http.py` from the moment the response is open:
a loop over the lines the backend sends, then what is still owed, then the
terminal frame; and `_complete_stream`, which it hands raw completions to.
A line comes with the time it took to come and the time it
was looked at, so the stall clock and the two rate limits on progress
frames are part of the run; how the connection ends is part of it too.

A run ends with its frames, the terminal one last, or raises after the
frames it has sent (`Raised`).
-/
import InferenceDriver.OpenAi.Wire
import InferenceDriver.Thinking.Filter

namespace InferenceDriver.OpenAi

open Checks Thinking

/-- How a raw completion is asked for. -/
inductive Completion where
  /-- `/v1/completions`. -/
  | openai
  /-- `/infill`. -/
  | infill
  /-- `/api/generate`. -/
  | ollama
deriving DecidableEq, Repr

def Completion.path : Completion → Text
  | .openai => "/v1/completions".toList
  | .infill => "/infill".toList
  | .ollama => "/api/generate".toList

/-- What is settled when the response opens. -/
structure Setup where
  target : Target
  /-- The request is for a raw completion. -/
  completion : Option Completion
  /-- `thinkingMode` is `off`. -/
  off : Bool
  /-- The name of the tool that is forced, when one is. -/
  forced : Option Text
  /-- The request's `stop`. -/
  stop : List Text
  /-- `reportProgress`. -/
  report : Bool
  /-- The format of the request's `audioOutput`, when it has one. -/
  audio : Option AudioOutputFormat
  assembleAudio : Bool
  /-- The backend is llama-server, whose `:` comments prove nothing. -/
  hollowPings : Bool
  /-- `streamStallSeconds`; 0 is no stall clock. -/
  stallSeconds : ℚ

/-- The local variables of `_stream`, and the frames sent so far. -/
structure Locals where
  filter : ThinkingFilter := {}
  /-- What the filter was fed; the source does not keep it. -/
  fed : List Text := []
  held : List Json := []
  emitted : List Text := []
  reasoned : List Text := []
  stopSequence : Option Text := none
  sawTerminator : Bool := false
  finishReason : Text := "stop".toList
  usagePayload : Json := .obj []
  callParts : Dict Int Part := .empty
  servedModel : Text
  heard : AudioAssembly := { keep := false }
  /-- A part of the answer is no string, so the parts cannot be joined. -/
  spoiled : Bool := false
  tokenLogprobs : List Json := []
  citations : List Json := []
  sawFirstData : Bool := false
  quiet : ℚ := 0
  lastKeepalive : ℚ := 0
  lastGenerating : ℚ := 0
  generated : Int := 0
  sent : List Chunk := []

/-- `yield`. -/
def Locals.send (s : Locals) (c : Chunk) : Locals := { s with sent := s.sent ++ [c] }

/-- An exception, after the frames sent. -/
structure Raised where
  failure : Failure
  sent : List Chunk

def Locals.fail {α : Type} (s : Locals) (failure : Failure) : Except Raised α :=
  .error { failure, sent := s.sent }

/-- A step that may raise. -/
def Locals.attempt {α : Type} (s : Locals) (x : Except Failure α) : Except Raised α :=
  match x with
  | .ok a => .ok a
  | .error failure => s.fail failure

@[simp] theorem Locals.attempt_eq_ok {α : Type} {s : Locals} {x : Except Failure α} {a : α} :
    s.attempt x = .ok a ↔ x = .ok a := by
  cases x with
  | error e => exact ⟨fun h => (by cases h), fun h => (by cases h)⟩
  | ok b => exact ⟨fun h => congrArg Except.ok (Except.ok.inj h), fun h => congrArg Except.ok (Except.ok.inj h)⟩

variable (E : Env) (U : Ucd) (q : Setup)

/-! ## One choice of a frame -/

/-- The finish reason, and with it the stop string. -/
def onFinish (s : Locals) (choice : Obj) : Locals :=
  if (choice.get "finish_reason").truthy then
    { s with finishReason := E.str (choice.get "finish_reason"), sawTerminator := true,
             stopSequence := OpenAi.stopSequence choice q.stop }
  else s

def onLogprobs (s : Locals) (logprobs : Option (List Json)) : Locals :=
  { s with tokenLogprobs := s.tokenLogprobs ++ logprobs.getD [] }

def onCitations (s : Locals) (delta : Obj) : Locals :=
  let cited := annotationsOf E (delta.get "annotations")
  if cited = [] then s
  else { s with citations := s.citations ++ cited }.send (.annotations cited)

def onReasoning (s : Locals) (delta : Obj) : Locals :=
  match reasoningOf delta with
  | some thought =>
      if q.off then s
      else { s with reasoned := s.reasoned ++ [thought] }.send (.reasoning thought)
  | none => s

def onAudio (s : Locals) (delta : Obj) : Except Raised Locals :=
  if q.audio.isSome ∧ ¬ (delta.get "audio").isNull then
    match s.heard.feed E.b64decode (delta.get "audio") with
    | .error said => s.fail (.cli ("openai_compat_http: ".toList ++ said) none)
    | .ok (fragment, heard) =>
        let s := { s with heard }
        .ok (match fragment with
          | some fragment => s.send (.audio fragment)
          | none => s)
  else .ok s

def onToolCalls (s : Locals) (delta : Obj) : Except Raised Locals :=
  if (delta.get "tool_calls").truthy then do
    let fragments ← s.attempt (toolCallDeltasFromWire E (delta.get "tool_calls"))
    if fragments = [] then return s
    else
      return { s with callParts := accumulateToolCalls E s.callParts (delta.get "tool_calls") }.send
        (.toolCalls fragments)
  else .ok s

/-- Text goes out when there is any, and log probabilities in any case. -/
def showText (s : Locals) (visible : Text) (logprobs : Option (List Json)) : Locals :=
  if visible ≠ [] then { s with emitted := s.emitted ++ [visible] }.send (.text visible logprobs)
  else
    match logprobs with
    | some content => s.send (.logprobs content)
    | none => s

/-- The text of a choice that is not held back. -/
def onVisible (s : Locals) (text : Text) (logprobs : Option (List Json)) : Locals :=
  if q.off then
    showText { s with filter := (feed U s.filter text).2, fed := s.fed ++ [text] }
      (feed U s.filter text).1 logprobs
  else showText s text logprobs

/-- The text of a choice.  The filter cannot be fed what is no string; else
it goes out, and the answer cannot be joined any more. -/
def onText (s : Locals) (delta : Obj) (logprobs : Option (List Json)) : Except Raised Locals :=
  let text := delta.get "content"
  if text.truthy then
    match q.forced with
    | some _ => .ok { s with held := s.held ++ [text] }
    | none =>
        match text with
        | .str text => .ok (onVisible U q s text logprobs)
        | text =>
            if q.off then s.fail .uncaught else .ok ({ s with spoiled := true }.send (.misfit text))
  else
    .ok (match logprobs with
      | some content => s.send (.logprobs content)
      | none => s)

/-- One turn of the loop over `choices`. -/
def onChoice (s : Locals) (choice : Json) : Except Raised Locals := do
  let choice ← s.attempt (asDict choice)
  let s := onFinish E q s choice
  let delta ← s.attempt (dictOrEmpty (choice.get "delta"))
  let logprobs := logprobsOf E (choice.get "logprobs")
  let s := onLogprobs s logprobs
  let s := onCitations E s delta
  let s := onReasoning q s delta
  let s ← onAudio E q s delta
  let s ← onToolCalls E s delta
  onText U q s delta logprobs

/-! ## One frame -/

/-- `_KEEPALIVE_PROGRESS_SECONDS`. -/
def keepaliveProgressSeconds : ℚ := 2

/-- `_GENERATING_PROGRESS_SECONDS`. -/
def generatingProgressSeconds : ℚ := 1 / 2

/-- Progress of the prompt; and any other frame arms the stall clock, and
may say how far the answer has got. -/
def onProgress (now : ℚ) (s : Locals) (event : Json) : Except Raised Locals :=
  match Obj.get (dictOf event) "prompt_progress" with
  | .obj read =>
      if q.report then do
        match ← s.attempt (promptProgress read) with
        | some p => return s.send (.progress p)
        | none => return s
      else .ok s
  | _ =>
      let s := { s with sawFirstData := true }
      if q.report then do
        match ← s.attempt (generatingProgress E (Obj.get (dictOf event) "timings")) with
        | some writing =>
            if s.generated < writing.generatedTokens.getD 0 ∧
                generatingProgressSeconds ≤ now - s.lastGenerating then
              return { s with lastGenerating := now, generated := writing.generatedTokens.getD 0 }.send
                (.progress writing)
            else return s
        | none => return s
      else .ok s

/-- The model and the usage a frame names. -/
def onEnvelope (s : Locals) (event : Obj) : Locals :=
  let model := event.get "model"
  let s := { s with servedModel :=
              publicModelId E (if model.truthy then model else .str s.servedModel) q.target }
  if (event.get "usage").truthy then { s with usagePayload := event.get "usage" } else s

/-- A frame that was parsed. -/
def onEvent (now : ℚ) (s : Locals) (event : Json) : Except Raised Locals := do
  match streamFailure E event with
  | some failure => s.fail failure
  | none =>
      let s ← onProgress E q now s event
      let event ← s.attempt (asDict event)
      let choices ← s.attempt (listOrEmpty (event.get "choices"))
      choices.foldlM (onChoice E U q) (onEnvelope E q s event)

/-! ## The lines -/

/-- What the connection gives next; it is closed when there is nothing. -/
inductive Arrival where
  /-- A line, how long it took to come and when it was looked at.  Silence
  is a line that comes too late. -/
  | line (waited now : ℚ) (text : Text)
  /-- `httpx.TimeoutException`. -/
  | timeout
  /-- Any other `httpx.HTTPError`, and its `repr`. -/
  | broken (said : Text)

/-- Whether the loop goes on. -/
inductive Next where
  | again (s : Locals)
  | last (s : Locals)

/-- An answer that is cut off, and what is said of the characters it had,
for which its parts are joined. -/
def Locals.cut {α : Type} (s : Locals) (failure : Nat → Failure) : Except Raised α :=
  if s.spoiled then s.fail .uncaught
  else s.fail (failure (s.emitted.flatten.length + s.reasoned.flatten.length))

/-- Whether the stall clock runs out before a line comes. -/
def Locals.stalls (s : Locals) (waited : ℚ) : Prop :=
  s.sawFirstData ∧ 0 < q.stallSeconds ∧ max (q.stallSeconds - s.quiet) 0 ≤ waited

instance (s : Locals) (waited : ℚ) : Decidable (s.stalls q waited) :=
  inferInstanceAs (Decidable (_ ∧ _))

/-- The silence so far, once a line is there. -/
def onQuiet (s : Locals) (waited : ℚ) (line : Text) : Locals :=
  if q.hollowPings ∧ ¬ "data:".toList.isPrefixOf line then
    { s with quiet := s.quiet +
        if s.sawFirstData ∧ 0 < q.stallSeconds then waited else 0 }
  else { s with quiet := 0 }

theorem Locals.cut_ne_ok {α : Type} {s : Locals} {failure : Nat → Failure} {a : α} :
    s.cut failure ≠ .ok a := by
  unfold cut
  split
  · exact fun h => by cases h
  · exact fun h => by cases h

/-- One turn of the loop over the lines. -/
def onLine (waited now : ℚ) (line : Text) (s : Locals) : Except Raised Next :=
  if s.stalls q waited then
    if s.sawTerminator then .ok (.last s) else s.cut .stalled
  else
    let s := onQuiet q s waited line
    if q.report ∧ ":".toList.isPrefixOf line then
      if keepaliveProgressSeconds ≤ now - s.lastKeepalive then
        .ok (.again ({ s with lastKeepalive := now }.send (.progress { stage := .working })))
      else .ok (.again s)
    else
      match sseData line with
      | none => .ok (.again s)
      | some data =>
          if data = "[DONE]".toList then
            .ok (.last { s with sawFirstData := true, sawTerminator := true })
          else
            match E.loads data with
            | .malformed => .ok (.again { s with sawFirstData := true })
            | .escapes => s.fail .uncaught
            | .value event => .again <$> onEvent E U q now s event

/-- The loop over the lines. -/
def readLines (s : Locals) : List Arrival → Except Raised Locals
  | [] => .ok s
  | .timeout :: _ => s.fail .timedOut
  | .broken said :: _ => s.fail (.cli ("openai_compat_http stream failed: ".toList ++ said) none)
  | .line waited now text :: rest => do
      match ← onLine E U q waited now text s with
      | .last s => return s
      | .again s => readLines s rest

/-! ## After the last line -/

/-- `"".join(parts)`; a part that is no string is a `TypeError`. -/
def joined : List Json → Except Failure Text
  | [] => .ok []
  | .str text :: rest => (text ++ ·) <$> joined rest
  | _ :: _ => .error .uncaught

theorem joined_eq_ok : ∀ {parts : List Json} {text : Text},
    joined parts = .ok text ↔ ∃ texts : List Text, parts = texts.map .str ∧ text = texts.flatten
  | [], text => by
      constructor
      · intro h
        cases h
        exact ⟨[], rfl, rfl⟩
      · rintro ⟨texts, hp, rfl⟩
        cases List.map_eq_nil_iff.mp hp.symm
        rfl
  | .str t :: rest, text => by
      rw [joined, map_eq_ok]
      constructor
      · rintro ⟨tail, ht, rfl⟩
        obtain ⟨texts, rfl, rfl⟩ := joined_eq_ok.mp ht
        exact ⟨t :: texts, rfl, rfl⟩
      · rintro ⟨texts, hp, rfl⟩
        cases texts with
        | nil => cases hp
        | cons u us =>
            rw [List.map_cons, List.cons.injEq, Json.str.injEq] at hp
            exact ⟨us.flatten, joined_eq_ok.mpr ⟨us, hp.2, rfl⟩, by rw [hp.1]; rfl⟩
  | .null :: _, _ => ⟨fun h => (by cases h), fun ⟨texts, hp, _⟩ => by cases texts <;> cases hp⟩
  | .bool _ :: _, _ => ⟨fun h => (by cases h), fun ⟨texts, hp, _⟩ => by cases texts <;> cases hp⟩
  | .int _ :: _, _ => ⟨fun h => (by cases h), fun ⟨texts, hp, _⟩ => by cases texts <;> cases hp⟩
  | .float _ :: _, _ => ⟨fun h => (by cases h), fun ⟨texts, hp, _⟩ => by cases texts <;> cases hp⟩
  | .arr _ :: _, _ => ⟨fun h => (by cases h), fun ⟨texts, hp, _⟩ => by cases texts <;> cases hp⟩
  | .obj _ :: _, _ => ⟨fun h => (by cases h), fun ⟨texts, hp, _⟩ => by cases texts <;> cases hp⟩

/-- What the filter still holds back. -/
def onFlush (s : Locals) : Locals :=
  if q.off then
    let tail := flush U s.filter
    if tail = [] then s else { s with emitted := s.emitted ++ [tail] }.send (.text tail none)
  else s

/-- The call that held text makes, or the text as it came. -/
def onHeld (hex : Text) (s : Locals) : Except Raised Locals :=
  match q.forced with
  | none => .ok s
  | some tool =>
      if s.held = [] ∨ s.callParts.items ≠ [] then .ok s
      else do
        let text ← s.attempt (joined s.held)
        match ← s.attempt (forcedCall E hex tool (.str text) (.str s.finishReason)) with
        | some made =>
            let s := s.send (.toolCalls [⟨0, some made.id, some ⟨some made.name, some made.arguments⟩⟩])
            let part : Part := { id := made.id, name := made.name, arguments := made.arguments }
            return { s with callParts := s.callParts.set 0 part, finishReason := "tool_calls".toList }
        | none => return { s with emitted := s.emitted ++ [text] }.send (.text text none)

/-- A result, whose text, reasoning and model the contract's model takes or
does not; its other strings are checked where they are read. -/
def checked (r : GenerateResponse) : Except Failure GenerateResponse :=
  if E.holdsAll r.content ∧ E.holdsAll r.reasoning ∧ E.holdsAll r.modelId then .ok r
  else .error .uncaught

theorem checked_eq_ok {r r' : GenerateResponse} : checked E r = .ok r' ↔
    r = r' ∧ E.holdsAll r.content ∧ E.holdsAll r.reasoning ∧ E.holdsAll r.modelId := by
  unfold checked
  split
  · rename_i h
    exact ⟨fun hr => ⟨Except.ok.inj hr, h⟩, fun hr => congrArg Except.ok hr.1⟩
  · rename_i h
    exact ⟨fun hr => (by cases hr), fun hr => absurd hr.2 h⟩

/-- The clip of an answer that is put together. -/
def clipOf (heard : AudioAssembly) : Except Failure (Option GeneratedAudio) :=
  match q.audio with
  | some asked =>
      if q.assembleAudio then do
        let clip ← require (heard.result E.b64encode asked) .uncaught
        if clip.all fun c => E.holdsAll c.id && E.holdsAll c.transcript then return clip
        else .error .uncaught
      else .ok none
  | none => .ok none

/-- The terminal frame's result. -/
def resultOf (hex : Nat → Text) (s : Locals) : Except Failure GenerateResponse :=
  if s.spoiled then .error .uncaught
  else do
    let content := s.emitted.flatten
    let toolCalls := finishToolCalls hex s.callParts
    let spoken := q.audio.isSome && s.heard.heard
    let audio ← clipOf E q s.heard
    let usage ← usageFromEnvelope E s.usagePayload
    checked E {
      content := if content ≠ [] ∨ ¬ (toolCalls ≠ [] ∨ spoken) then some content else none
      audio
      logprobs := if s.tokenLogprobs = [] then none else some s.tokenLogprobs
      annotations := s.citations
      reasoning := if s.reasoned.flatten = [] then none else some s.reasoned.flatten
      toolCalls
      finishReason := if s.stopSequence.isSome then .stopSequence else finishReasonOf s.finishReason
      stopSequence := s.stopSequence
      usage
      modelId := some s.servedModel }

/-- What follows the loop. -/
def finish (hex : Nat → Text) (s : Locals) : Except Raised (List Chunk) :=
  if ¬ s.sawTerminator then
    s.cut fun characters =>
      .cli ("openai_compat_http stream ended without [DONE] or a finish_reason after ".toList ++
        (toString characters).toList ++
        " characters: the backend closed the connection mid-answer".toList) none
  else do
    let s ← onHeld E q (hex 0) (onFlush U q s)
    let result ← s.attempt (resultOf E q hex s)
    return s.sent ++ [.done result]

/-- Once the response is open. -/
def opened : Locals :=
  let s : Locals := { servedModel := q.target.id, heard := { keep := q.assembleAudio } }
  if q.report then s.send (.progress { stage := .working }) else s

/-- `_stream` of a chat request. -/
def chatStream (hex : Nat → Text) (arrivals : List Arrival) : Except Raised (List Chunk) := do
  let s ← readLines E U q (opened q) arrivals
  finish E U q hex s

/-! ## Raw completions -/

/-- The local variables of `_complete_stream`. -/
structure RawLocals where
  parts : List Json := []
  reason : FinishReason := .stop
  used : Option Usage := none
  ended : Bool := false

/-- Each part was a frame. -/
def partFrame (part : Json) : Chunk :=
  match part with
  | .str text => .text text none
  | part => .misfit part

def RawLocals.fail {α : Type} (s : RawLocals) (failure : Failure) : Except Raised α :=
  .error { failure, sent := s.parts.map partFrame }

def RawLocals.attempt {α : Type} (s : RawLocals) (x : Except Failure α) : Except Raised α :=
  match x with
  | .ok a => .ok a
  | .error failure => s.fail failure

@[simp] theorem RawLocals.attempt_eq_ok {α : Type} {s : RawLocals} {x : Except Failure α} {a : α} :
    s.attempt x = .ok a ↔ x = .ok a := by
  cases x with
  | error e => exact ⟨fun h => (by cases h), fun h => (by cases h)⟩
  | ok b => exact ⟨fun h => congrArg Except.ok (Except.ok.inj h), fun h => congrArg Except.ok (Except.ok.inj h)⟩

/-- `raw_completion.finish`. -/
def rawFinish (reason : Json) : FinishReason :=
  if reason.isStr "length".toList ∨ reason.isStr "limit".toList then .length else .stop

/-- `raw_completion.usage`. -/
def rawUsage (prompt completion : Json) : Option Usage :=
  match asCount prompt, asCount completion with
  | none, none => none
  | p, c => some { promptTokens := p, completionTokens := c,
                   totalTokens := some (p.getD 0 + c.getD 0), cachedPromptTokens := none,
                   reasoningTokens := none }

/-- A document that is a dict; anything else is passed over. -/
def loadsDict (data : Text) : Except Failure (Option Obj) :=
  match E.loads data with
  | .value (.obj o) => .ok (some o)
  | .escapes => .error .uncaught
  | _ => .ok none

/-- `raw_completion.sse_json`. -/
def sseJson (line : Text) : Except Failure (Option Obj) :=
  if ¬ "data:".toList.isPrefixOf line then .ok none
  else if strip (line.drop 5) = [] ∨ strip (line.drop 5) = "[DONE]".toList then .ok none
  else loadsDict E (strip (line.drop 5))

/-- `choices[0]`, if it is a dict. -/
def firstDict (choices : Json) : Except Failure (Option Obj) :=
  if choices.truthy then
    match choices with
    | .arr (.obj choice :: _) => .ok (some choice)
    | .arr _ => .ok none
    | .str _ => .ok none
    | _ => .error .uncaught
  else .ok none

/-- What a frame of a completion says: its text, and what is noted. -/
def onRawFrame (kind : Completion) (s : RawLocals) (frame : Obj) :
    Except Failure (Json × RawLocals) :=
  match kind with
  | .ollama =>
      .ok (frame.get "response",
        if (frame.get "done").truthy then
          { s with ended := true, reason := rawFinish (frame.get "done_reason"),
                   used := rawUsage (frame.get "prompt_eval_count") (frame.get "eval_count") }
        else s)
  | .infill =>
      .ok (frame.get "content",
        if (frame.get "stop").truthy then
          { s with ended := true, reason := rawFinish (frame.get "stop_type"),
                   used := rawUsage (frame.get "tokens_evaluated") (frame.get "tokens_predicted") }
        else s)
  | .openai => do
      let s := match frame.get "usage" with
        | .obj counted =>
            { s with used := rawUsage (Obj.get counted "prompt_tokens")
                               (Obj.get counted "completion_tokens") }
        | _ => s
      match ← firstDict (frame.get "choices") with
      | none => return (.null, s)
      | some choice =>
          return (choice.get "text",
            if (choice.get "finish_reason").truthy then
              { s with ended := true, reason := rawFinish (choice.get "finish_reason") }
            else s)

/-- The frame of a line of a completion, if it is one. -/
def rawFrame (kind : Completion) (line : Text) : Except Failure (Option Obj) :=
  match kind with
  | .ollama => if strip line = [] then .ok none else loadsDict E line
  | _ => sseJson E line

/-- One line of a completion. -/
def onRawLine (kind : Completion) (line : Text) (s : RawLocals) : Except Raised RawLocals :=
  if kind = .openai ∧ strip line = "data: [DONE]".toList then .ok { s with ended := true }
  else do
    match ← s.attempt (rawFrame E kind line) with
    | none => return s
    | some frame =>
        let (piece, s) ← s.attempt (onRawFrame kind s frame)
        return if piece.truthy then { s with parts := s.parts ++ [piece] } else s

def readRawLines (kind : Completion) (s : RawLocals) : List Arrival → Except Raised RawLocals
  | [] => .ok s
  | .timeout :: _ => s.fail .timedOut
  | .broken said :: _ =>
      s.fail (.cli ("openai_compat_http completion stream failed: ".toList ++ said) none)
  | .line _ _ text :: rest => do
      let s ← onRawLine E kind text s
      readRawLines kind s rest

/-- `len(value)`; none is a `TypeError`. -/
def lengthOf (v : Json) : Option Nat :=
  match v with
  | .str s => some s.length
  | .arr items => some items.length
  | .obj fields => some fields.length
  | _ => none

/-- What follows the loop. -/
def finishRaw (kind : Completion) (s : RawLocals) : Except Failure GenerateResponse :=
  if ¬ s.ended then
    match s.parts.mapM lengthOf with
    | some lengths =>
        .error (.cli ("openai_compat_http completion stream from ".toList ++ kind.path ++
          " ended before it said it was finished, after ".toList ++
          (toString lengths.sum).toList ++
          " characters: the backend stopped sending without a terminator".toList) none)
    | none => .error .uncaught
  else do
    let content ← joined s.parts
    checked E { content := some content, audio := none, logprobs := none, annotations := [],
                reasoning := none, toolCalls := [], finishReason := s.reason, stopSequence := none,
                usage := s.used, modelId := some q.target.id }

/-- `_complete_stream`: each part is a frame, then the terminal one. -/
def completeStream (kind : Completion) (arrivals : List Arrival) : Except Raised (List Chunk) := do
  let s ← readRawLines E kind {} arrivals
  let result ← s.attempt (finishRaw E q kind s)
  return s.parts.map partFrame ++ [.done result]

/-- `_stream`, once the response is open. -/
def stream (hex : Nat → Text) (arrivals : List Arrival) : Except Raised (List Chunk) :=
  match q.completion with
  | some kind => completeStream E q kind arrivals
  | none => chatStream E U q hex arrivals

end InferenceDriver.OpenAi

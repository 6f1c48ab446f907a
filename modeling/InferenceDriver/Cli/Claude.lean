/-
# `Cli.Claude` — a Claude Code answer, whole and streamed

`generate` and `stream` of `claude_code_cli.py`, from the child on.  The one
asks for a single JSON envelope; the other for a feed of events, whose last
`result` is the same envelope.  The stream shows text and reasoning as they
come and takes its answer from the envelope, so that the two paths cannot
disagree on it.

`stream_eq` is the stream in one equation: its frames are a function of the
feed, and it raises at an event it cannot take.  `envelope_agrees` is what the
envelope is for.
-/
import InferenceDriver.Cli.Paths
import InferenceDriver.OpenAi.Run

namespace InferenceDriver.Cli.Claude

open Checks OpenAi Thinking
open Codex (isKind)

variable (E : Env) (U : Ucd) (D : Decoder) (q : Codex.Setup) (repr : Json → Text)

/-! ## The envelope -/

/-- `_STOP_REASON_MAP.get(reason, FinishReason.stop)`. -/
def finishReasonOf (reason : Text) : FinishReason :=
  if reason = "stop_sequence".toList then .stopSequence
  else if reason = "max_tokens".toList then .length
  else .stop

/-- `_usage_from_envelope`, of a usage or none. -/
def usageFromEnvelope (usage : Json) : Except Failure (Option Usage) := do
  let usage ← dictOrEmpty usage
  let input := usage.get "input_tokens"
  let output := usage.get "output_tokens"
  if input.isNull && output.isNull then return none
  else
    let cached ← require (E.plus (orZero input) (orZero (usage.get "cache_read_input_tokens"))) .uncaught
    let prompt ← require (E.plus cached (orZero (usage.get "cache_creation_input_tokens"))) .uncaught
    let completion := orZero output
    let total ← require (E.plus prompt completion) .uncaught
    let promptTokens ← require (E.count prompt) .uncaught
    let completionTokens ← require (E.count completion) .uncaught
    let totalTokens ← require (E.count total) .uncaught
    return some { promptTokens := some promptTokens, completionTokens := some completionTokens,
                  totalTokens := some totalTokens, cachedPromptTokens := none, reasoningTokens := none }

/-- The response of an envelope, with this text and this reasoning. -/
def responseOf (envelope : Obj) (content : Text) (reasoning : Option Text) :
    Except Failure GenerateResponse := do
  let usage ← usageFromEnvelope E (envelope.get "usage")
  checked E {
    content := some (Codex.shown U q content)
    audio := none
    logprobs := none
    annotations := []
    reasoning
    toolCalls := []
    finishReason := finishReasonOf (E.orEmpty (envelope.get "stop_reason"))
    stopSequence := none
    usage
    modelId := q.modelId }

/-- What both paths say of an envelope that reports an error. -/
def reported (envelope : Obj) : Failure :=
  .cli ("claude reported error: ".toList ++ repr (envelope.get "result")) none

/-! ## `generate` -/

/-- `generate`, of the envelope. -/
def answerOf (envelope : Obj) : Except Failure GenerateResponse :=
  if (envelope.get "is_error").truthy then .error (reported repr envelope)
  else
    match envelope.get "result" with
    | .str content => responseOf E U q envelope content none
    | _ => .error (.cli ("claude JSON missing string `result`: ".toList ++ repr (.obj envelope)) none)

/-- `generate`, of what `run_cli` returned; `head` is the `repr` of bytes. -/
def generateOf (head : List UInt8 → Text) (result : CliResult) : Except Failure GenerateResponse :=
  if result.returncode ≠ 0 then
    let said := strip (decodeUtf8 result.stderr)
    .error (.cli ("claude exited ".toList ++ (toString result.returncode).toList ++ ": ".toList ++
      (if said = [] then "<no stderr>".toList else said)) none)
  else
    match D.loadsBytes result.stdout with
    | .value (.obj envelope) => answerOf E U q repr envelope
    | .value v => .error (.cli ("claude JSON envelope was not an object: ".toList ++ repr v) none)
    | .invalid => .error (.cli ("claude stdout was not valid JSON: ".toList ++ head (result.stdout.take 200)) none)
    | .refused | .tooDeep => .error .uncaught

/-! ## `stream` -/

/-- The local variables of `stream`, and the frames sent so far. -/
structure Locals where
  emitted : List Text := []
  thoughts : List Text := []
  envelope : Option Obj := none
  sent : List Chunk := []

def Locals.fail {α : Type} (s : Locals) (failure : Failure) : Except Raised α :=
  .error { failure, sent := s.sent }

def Locals.attempt {α : Type} (s : Locals) (x : Except Failure α) : Except Raised α :=
  match x with
  | .ok a => .ok a
  | .error failure => s.fail failure

/-- A frame with a text in it, which the frame's model has to take. -/
def Locals.send (s : Locals) (text : Text) (c : Chunk) : Except Raised Locals :=
  if E.holds text then .ok { s with sent := s.sent ++ [c] } else s.fail .uncaught

/-- `content_block_start`. -/
def onStart (s : Locals) (inner : Obj) : Except Raised Locals :=
  if q.report then do
    let block ← s.attempt (dictOrEmpty (inner.get "content_block"))
    if isKind block "tool_use" then
      match block.get "name" with
      | .str name => s.send E name (.progress { stage := .tool, tool := some name })
      | _ => return { s with sent := s.sent ++ [Chunk.progress { stage := .tool }] }
    else return s
  else .ok s

/-- `content_block_delta`. -/
def onDelta (s : Locals) (inner : Obj) : Except Raised Locals := do
  let delta ← s.attempt (dictOrEmpty (inner.get "delta"))
  if isKind delta "thinking_delta" then
    match delta.get "thinking" with
    | .str (c :: cs) =>
        if q.off then return s
        else Locals.send E { s with thoughts := s.thoughts ++ [c :: cs] } (c :: cs) (.reasoning (c :: cs))
    | _ => return s
  else if isKind delta "text_delta" then
    match delta.get "text" with
    | .str (c :: cs) =>
        Locals.send E { s with emitted := s.emitted ++ [c :: cs] } (c :: cs) (.text (c :: cs) none)
    | _ => return s
  else return s

/-- One event. -/
def onEvent (s : Locals) (event : Obj) : Except Raised Locals :=
  if isKind event "result" then .ok { s with envelope := some event }
  else if isKind event "system" then
    if q.report ∧ ((event.get "subtype").isStr "init".toList ∨ (event.get "subtype").isStr "status".toList) then
      .ok { s with sent := s.sent ++ [.progress { stage := .working }] }
    else .ok s
  else if isKind event "stream_event" then do
    let inner ← s.attempt (dictOrEmpty (event.get "event"))
    if isKind inner "content_block_start" then onStart E q s inner
    else if isKind inner "content_block_delta" then onDelta E q s inner
    else return s
  else .ok s

/-- One line. -/
def onLine (s : Locals) (line : Text) : Except Raised Locals :=
  match line with
  | [] => .ok s
  | line =>
      match D.loads line with
      | .value (.obj event) => onEvent E q s event
      | .value _ | .invalid => .ok s
      | .refused | .tooDeep => s.fail .uncaught

/-- What the stream answers with. -/
def resultOf (envelope : Obj) (emitted thoughts : List Text) : Except Failure GenerateResponse :=
  if (envelope.get "is_error").truthy then .error (reported repr envelope)
  else
    responseOf E U q envelope
      (match envelope.get "result" with
        | .str content => content
        | _ => emitted.flatten)
      (if thoughts.flatten = [] then none else some thoughts.flatten)

/-- What follows the lines. -/
def finish (s : Locals) : Except Raised (List Chunk) :=
  match s.envelope with
  | none => s.fail (.cli "claude stream ended without a `result` envelope".toList none)
  | some envelope => do
      let result ← s.attempt (resultOf E U q repr envelope s.emitted s.thoughts)
      return s.sent ++ [.done result]

/-- The lines, and how `stream_cli_lines` left. -/
def stream (binary : Text) (lines : List Text) (exit : Exit Unit) : Except Raised (List Chunk) := do
  let s ← lines.foldlM (onLine E D q) {}
  match exit with
  | .ended _ => finish E U q repr s
  | .cliError code said =>
      s.fail (.cli (binary ++ " exited ".toList ++ (toString code).toList ++ ": ".toList ++ said) none)
  | .backendTimeout => s.fail .timedOut
  | _ => s.fail .uncaught

/-! ## What an event says -/

/-- A string that is not empty. -/
def wordOf (v : Json) : Option Text :=
  match v with
  | .str (c :: cs) => some (c :: cs)
  | _ => none

def innerOf (event : Obj) : Obj := dictOf (event.get "event")

/-- The event is a frame of the answer of this kind. -/
def isFrame (event : Obj) (kind : String) : Bool :=
  isKind event "stream_event" && isKind (innerOf event) kind

def deltaOf (event : Obj) : Obj := dictOf ((innerOf event).get "delta")

def blockOf (event : Obj) : Obj := dictOf ((innerOf event).get "content_block")

/-- The text of an event. -/
def textIn (event : Obj) : Option Text :=
  if isFrame event "content_block_delta" && isKind (deltaOf event) "text_delta" then
    wordOf ((deltaOf event).get "text")
  else none

/-- The reasoning of an event. -/
def thoughtIn (event : Obj) : Option Text :=
  if isFrame event "content_block_delta" && isKind (deltaOf event) "thinking_delta" && !q.off then
    wordOf ((deltaOf event).get "thinking")
  else none

/-- The tool that an event reports; none of its name is a name. -/
def toolIn (event : Obj) : Option (Option Text) :=
  if isFrame event "content_block_start" && q.report && isKind (blockOf event) "tool_use" then
    match (blockOf event).get "name" with
    | .str name => some (some name)
    | _ => some none
  else none

/-- The event says that the backend is at work. -/
def isWorking (event : Obj) : Bool :=
  isKind event "system" && q.report &&
    ((event.get "subtype").isStr "init".toList || (event.get "subtype").isStr "status".toList)

/-- The frames of an event. -/
def framesIn (event : Obj) : List Chunk :=
  (if isWorking q event then [.progress { stage := .working }] else []) ++
    (toolIn q event).toList.map (fun tool => .progress { stage := .tool, tool }) ++
    (thoughtIn q event).toList.map .reasoning ++ (textIn event).toList.map (.text · none)

/-- The event can be read, and what it says can be sent. -/
def takes (event : Obj) : Bool :=
  !isKind event "stream_event" ||
    objectOk (event.get "event") &&
      (!(isKind (innerOf event) "content_block_start" && q.report) ||
        objectOk ((innerOf event).get "content_block")) &&
      (!isKind (innerOf event) "content_block_delta" || objectOk ((innerOf event).get "delta")) &&
      (toolIn q event).all E.holdsAll && (thoughtIn q event).all E.holds && (textIn event).all E.holds

/-- The envelope, if the event is one. -/
def envelopeIn (event : Obj) : Option Obj := if isKind event "result" then some event else none

/-- What was read of a line. -/
def readLine (line : Text) : Option JsonRead := if line = [] then none else some (D.loads line)

/-- The events of the lines; none where one of them cannot be parsed. -/
def feedOf (lines : List Text) : Option (List Obj) := Codex.events (lines.filterMap (readLine D))

/-- The last envelope of a feed. -/
def lastEnvelope (feed : List Obj) : Option Obj := (feed.filterMap envelopeIn).getLast?

variable {E U D q repr}

/-! ## One event -/

theorem dictOrEmpty_eq (v : Json) :
    dictOrEmpty v = if objectOk v then .ok (dictOf v) else .error .uncaught := by
  unfold dictOrEmpty
  cases v with
  | obj o =>
      rw [objectOk, if_pos rfl]
      split
      · rfl
      · rename_i hf
        cases o with
        | nil => rfl
        | cons field rest => exact absurd rfl hf
  | null => rfl
  | bool b => cases b <;> rfl
  | int n =>
      show _ = if (!(Json.int n).truthy) = true then _ else _
      cases (Json.int n).truthy <;> rfl
  | float x =>
      show _ = if (!(Json.float x).truthy) = true then _ else _
      cases (Json.float x).truthy <;> rfl
  | str t =>
      show _ = if (!(Json.str t).truthy) = true then _ else _
      cases (Json.str t).truthy <;> rfl
  | arr items =>
      show _ = if (!(Json.arr items).truthy) = true then _ else _
      cases (Json.arr items).truthy <;> rfl

theorem attempt_dictOrEmpty {α : Type} (s : Locals) (v : Json) (f : Obj → Except Raised α) :
    (s.attempt (dictOrEmpty v) >>= f) = if objectOk v then f (dictOf v) else s.fail .uncaught := by
  rw [dictOrEmpty_eq]
  cases objectOk v <;> rfl

/-- What the local variables hold after an event that is taken. -/
def after (q : Codex.Setup) (s : Locals) (event : Obj) : Locals where
  emitted := s.emitted ++ (textIn event).toList
  thoughts := s.thoughts ++ (thoughtIn q event).toList
  envelope := (envelopeIn event).or s.envelope
  sent := s.sent ++ framesIn q event

theorem isFrame_of_kind {event : Obj} (kind : String) (h : isKind event "stream_event" = false) :
    isFrame event kind = false := by
  rw [isFrame, h, Bool.false_and]

theorem isFrame_of_inner (event : Obj) {kind : String} (h : isKind (innerOf event) kind = false) :
    isFrame event kind = false := by
  rw [isFrame, h, Bool.and_false]

/-- An event that is no frame of the answer. -/
theorem after_other (s : Locals) {event : Obj} (h : isKind event "stream_event" = false) :
    after q s event =
      { s with
        envelope := (envelopeIn event).or s.envelope
        sent := s.sent ++ if isWorking q event then [.progress { stage := .working }] else [] } := by
  have hd := isFrame_of_kind "content_block_delta" h
  have hs := isFrame_of_kind "content_block_start" h
  unfold after framesIn textIn thoughtIn toolIn
  rw [hd, hs]
  simp only [Bool.false_and, Bool.false_eq_true, if_false, Option.toList_none, List.append_nil, List.map_nil]

/-- A frame of the answer that says nothing about the call. -/
theorem after_frame (s : Locals) {event : Obj} (h : isKind event "stream_event" = true) :
    after q s event =
      { s with
        emitted := s.emitted ++ (textIn event).toList
        thoughts := s.thoughts ++ (thoughtIn q event).toList
        sent := s.sent ++ ((toolIn q event).toList.map (fun tool => .progress { stage := .tool, tool }) ++
          (thoughtIn q event).toList.map .reasoning ++ (textIn event).toList.map (.text · none)) } := by
  have hw : isWorking q event = false := by
    rw [isWorking, Codex.isKind_ne h (by decide), Bool.false_and, Bool.false_and]
  have he : envelopeIn event = none := by
    rw [envelopeIn, Codex.isKind_ne h (by decide), if_neg Bool.false_ne_true]
  unfold after framesIn
  rw [hw, he, if_neg Bool.false_ne_true, List.nil_append, Option.none_or]

theorem onStart_eq (s : Locals) {event : Obj} (hk : isKind event "stream_event" = true)
    (hs : isKind (innerOf event) "content_block_start" = true) :
    onStart E q s (innerOf event) =
      if (!q.report || objectOk ((innerOf event).get "content_block")) && (toolIn q event).all E.holdsAll then
        .ok { s with sent := s.sent ++
          (toolIn q event).toList.map fun tool => .progress { stage := .tool, tool } }
      else s.fail .uncaught := by
  have hf : isFrame event "content_block_start" = true := by rw [isFrame, hk, hs, Bool.and_self]
  unfold onStart toolIn blockOf
  rw [hf, Bool.true_and, attempt_dictOrEmpty]
  cases q.report with
  | false =>
      simp only [Bool.false_eq_true, if_false, Bool.false_and, Option.all_none, Bool.not_false, Bool.true_or,
        Bool.and_self, if_true, Option.toList_none, List.map_nil, List.append_nil]
  | true =>
      rw [if_pos rfl, Bool.true_and, Bool.not_true, Bool.false_or]
      cases objectOk ((innerOf event).get "content_block") with
      | false => rfl
      | true =>
          rw [if_pos rfl, Bool.true_and]
          split
          · generalize (dictOf ((innerOf event).get "content_block")).get "name" = name
            cases name with
            | str name =>
                show s.send E name _ = _
                rw [Locals.send]
                rfl
            | null => rfl
            | bool b => rfl
            | int n => rfl
            | float x => rfl
            | arr items => rfl
            | obj fields => rfl
          · rw [Option.all_none, if_pos rfl, Option.toList_none, List.map_nil, List.append_nil]
            rfl

/-- What a delta says, sent if there is anything to send. -/
theorem send_word (s : Locals) (v : Json) (keep : Text → Locals) (frame : Text → Chunk)
    (hkeep : ∀ text, (keep text).sent = s.sent) :
    (match v with
      | .str (c :: cs) => (keep (c :: cs)).send E (c :: cs) (frame (c :: cs))
      | _ => .ok s) =
      if (wordOf v).all E.holds then
        .ok ((wordOf v).elim s fun text => { keep text with sent := s.sent ++ [frame text] })
      else s.fail .uncaught := by
  unfold wordOf
  cases v with
  | str t =>
      cases t with
      | nil => rfl
      | cons c cs =>
          show Locals.send E _ _ _ = _
          rw [Locals.send, Option.all_some, Option.elim_some, hkeep]
          split
          · rfl
          · rw [Locals.fail, Locals.fail, hkeep]
  | null => rfl
  | bool b => rfl
  | int n => rfl
  | float x => rfl
  | arr items => rfl
  | obj fields => rfl

theorem onDelta_eq (s : Locals) {event : Obj} (hk : isKind event "stream_event" = true)
    (hd : isKind (innerOf event) "content_block_delta" = true) :
    onDelta E q s (innerOf event) =
      if objectOk ((innerOf event).get "delta") && (thoughtIn q event).all E.holds &&
          (textIn event).all E.holds then
        .ok { s with
          emitted := s.emitted ++ (textIn event).toList
          thoughts := s.thoughts ++ (thoughtIn q event).toList
          sent := s.sent ++ ((thoughtIn q event).toList.map .reasoning ++ (textIn event).toList.map (.text · none)) }
      else s.fail .uncaught := by
  have hf : isFrame event "content_block_delta" = true := by rw [isFrame, hk, hd, Bool.and_self]
  unfold onDelta thoughtIn textIn deltaOf
  rw [hf, Bool.true_and, Bool.true_and, attempt_dictOrEmpty]
  cases objectOk ((innerOf event).get "delta") with
  | false => rfl
  | true =>
      rw [if_pos rfl, Bool.true_and]
      generalize dictOf ((innerOf event).get "delta") = delta
      cases ht : isKind delta "thinking_delta" with
      | true =>
          rw [if_pos rfl, Codex.isKind_ne ht (by decide), if_neg Bool.false_ne_true, Option.all_none,
            Bool.and_true, Bool.true_and]
          cases q.off with
          | true =>
              have hnone : (match delta.get "thinking" with
                  | .str (c :: cs) =>
                      if (true : Bool) = true then pure s
                      else Locals.send E { s with thoughts := s.thoughts ++ [c :: cs] } (c :: cs) (.reasoning (c :: cs))
                  | _ => pure s) = (.ok s : Except Raised Locals) := by
                split
                · rfl
                · rfl
              simp only [Bool.not_true, Bool.false_eq_true, if_false, Option.all_none, if_true,
                Option.toList_none, List.append_nil, List.map_nil]
              exact hnone
          | false =>
              refine (send_word s (delta.get "thinking")
                (fun text => { s with thoughts := s.thoughts ++ [text] }) .reasoning fun _ => rfl).trans ?_
              simp only [Bool.not_false, if_true]
              cases wordOf (delta.get "thinking") with
              | none => simp only [Option.elim_none, Option.toList_none, List.append_nil, List.map_nil]
              | some text =>
                  simp only [Option.elim_some, Option.toList_some, Option.toList_none, List.append_nil,
                    List.map_nil, List.map_cons]
      | false =>
          rw [if_neg Bool.false_ne_true, Bool.false_and, if_neg Bool.false_ne_true, Option.all_none,
            Bool.true_and]
          cases hx : isKind delta "text_delta" with
          | true =>
              refine (send_word s (delta.get "text")
                (fun text => { s with emitted := s.emitted ++ [text] }) (.text · none) fun _ => rfl).trans ?_
              simp only [if_true]
              cases wordOf (delta.get "text") with
              | none => simp only [Option.elim_none, Option.toList_none, List.append_nil, List.map_nil]
              | some text =>
                  simp only [Option.elim_some, Option.toList_some, Option.toList_none, List.append_nil,
                    List.nil_append, List.map_nil, List.map_cons]
          | false =>
              simp only [Bool.false_eq_true, if_false, Option.all_none, if_true, Option.toList_none,
                List.append_nil, List.map_nil]
              rfl

/-- **One event, in one equation.** -/
theorem onEvent_eq (s : Locals) (event : Obj) :
    onEvent E q s event = if takes E q event then .ok (after q s event) else s.fail .uncaught := by
  unfold onEvent takes
  cases hk : isKind event "stream_event" with
  | false =>
      rw [Bool.not_false, Bool.true_or, if_pos rfl, after_other s hk, envelopeIn, isWorking]
      cases hr : isKind event "result" with
      | true =>
          rw [Codex.isKind_ne hr (by decide)]
          simp only [if_true, Bool.false_and, Bool.false_eq_true, if_false, List.append_nil, Option.some_or]
      | false =>
          rw [if_neg Bool.false_ne_true]
          cases isKind event "system" with
          | false =>
              simp only [Bool.false_eq_true, if_false, Bool.false_and, List.append_nil, Option.none_or]
          | true =>
              simp only [if_true, Bool.true_and, Bool.and_eq_true, Bool.or_eq_true, Bool.false_eq_true, if_false,
                Option.none_or]
              split
              · rfl
              · rw [List.append_nil]
  | true =>
      rw [Codex.isKind_ne hk (by decide), if_neg Bool.false_ne_true, Codex.isKind_ne hk (by decide),
        if_neg Bool.false_ne_true, if_pos rfl, Bool.not_true, Bool.false_or, after_frame s hk,
        attempt_dictOrEmpty]
      cases objectOk (event.get "event") with
      | false => rfl
      | true =>
          rw [if_pos rfl, Bool.true_and]
          show (if isKind (innerOf event) "content_block_start" then onStart E q s (innerOf event)
            else if isKind (innerOf event) "content_block_delta" then onDelta E q s (innerOf event)
            else pure s) = _
          cases hs : isKind (innerOf event) "content_block_start" with
          | true =>
              have hd : isKind (innerOf event) "content_block_delta" = false := Codex.isKind_ne hs (by decide)
              have hf := isFrame_of_inner event hd
              have ht : textIn event = none := by rw [textIn, hf, Bool.false_and, if_neg Bool.false_ne_true]
              have hn : thoughtIn q event = none := by
                rw [thoughtIn, hf, Bool.false_and, Bool.false_and, if_neg Bool.false_ne_true]
              rw [if_pos rfl, onStart_eq s hk hs, hd, ht, hn, Bool.true_and, Bool.not_false, Bool.true_or,
                Bool.and_true, Option.all_none, Bool.and_true, Bool.and_true]
              simp only [Option.toList_none, List.append_nil, List.map_nil]
          | false =>
              have hf := isFrame_of_inner event hs
              have hn : toolIn q event = none := by
                rw [toolIn, hf, Bool.false_and, Bool.false_and, if_neg Bool.false_ne_true]
              rw [if_neg Bool.false_ne_true, hn, Bool.false_and, Bool.not_false, Bool.true_or, Bool.true_and,
                Option.all_none, Bool.and_true, Option.toList_none, List.map_nil, List.nil_append]
              cases hd : isKind (innerOf event) "content_block_delta" with
              | true => rw [if_pos rfl, onDelta_eq s hk hd, Bool.not_true, Bool.false_or]
              | false =>
                  have hf := isFrame_of_inner event hd
                  have ht : textIn event = none := by rw [textIn, hf, Bool.false_and, if_neg Bool.false_ne_true]
                  have hn : thoughtIn q event = none := by
                    rw [thoughtIn, hf, Bool.false_and, Bool.false_and, if_neg Bool.false_ne_true]
                  rw [ht, hn]
                  simp only [Bool.false_eq_true, if_false, Bool.not_false, Bool.true_or, Option.all_none,
                    Bool.and_self, if_true, Option.toList_none, List.append_nil, List.map_nil]
                  rfl

/-! ## A feed -/

theorem onLine_eq (s : Locals) (line : Text) :
    ∃ raise, onLine E D q s line = Codex.onRead (onEvent E q) raise s (readLine D line) := by
  refine ⟨⟨.uncaught, s.sent⟩, ?_⟩
  rw [onLine.eq_def, readLine]
  cases line with
  | nil => rfl
  | cons c text =>
      rw [if_neg (List.cons_ne_nil _ _)]
      simp only
      cases D.loads (c :: text) with
      | invalid => rfl
      | refused => rfl
      | tooDeep => rfl
      | value v =>
          cases v with
          | obj event => rfl
          | null => rfl
          | bool b => rfl
          | int n => rfl
          | float x => rfl
          | str t => rfl
          | arr items => rfl

/-- What the local variables hold after a feed. -/
theorem foldl_after (feed : List Obj) (s : Locals) : feed.foldl (after q) s =
    { emitted := s.emitted ++ feed.filterMap textIn
      thoughts := s.thoughts ++ feed.filterMap (thoughtIn q)
      envelope := (lastEnvelope feed).or s.envelope
      sent := s.sent ++ feed.flatMap (framesIn q) } := by
  induction feed generalizing s with
  | nil =>
      simp only [List.foldl_nil, List.filterMap_nil, List.append_nil, lastEnvelope, List.getLast?_nil,
        Option.none_or, List.flatMap_nil]
  | cons event feed ih =>
      have hlast : (lastEnvelope (event :: feed)).or s.envelope =
          (lastEnvelope feed).or ((envelopeIn event).or s.envelope) := by
        rw [lastEnvelope, lastEnvelope, List.filterMap_cons]
        cases envelopeIn event with
        | none => rfl
        | some e =>
            simp only [List.getLast?_cons, Option.some_or]
            cases (feed.filterMap envelopeIn).getLast? with
            | none => rfl
            | some last => rfl
      rw [List.foldl_cons, ih, hlast, List.flatMap_cons, List.filterMap_cons, List.filterMap_cons]
      simp only [after, List.append_assoc]
      cases textIn event with
      | none =>
          cases thoughtIn q event with
          | none => rfl
          | some thought => rfl
      | some text =>
          cases thoughtIn q event with
          | none => rfl
          | some thought => rfl

theorem foldlM_onEvent (feed : List Obj) (s : Locals) :
    (feed.all (takes E q) = true ∧ feed.foldlM (onEvent E q) s = .ok (feed.foldl (after q) s)) ∨
      feed.all (takes E q) = false ∧ ∃ e, feed.foldlM (onEvent E q) s = .error e := by
  induction feed generalizing s with
  | nil => exact .inl ⟨rfl, rfl⟩
  | cons event feed ih =>
      rw [List.all_cons, List.foldlM_cons, onEvent_eq]
      cases takes E q event with
      | true => exact ih (after q s event)
      | false => exact .inr ⟨rfl, _, rfl⟩

/-- The frames of a feed. -/
def frames (q : Codex.Setup) (feed : List Obj) : List Chunk := feed.flatMap (framesIn q)

/-- How a stream ends that has taken all of its feed. -/
def ending (E : Env) (U : Ucd) (q : Codex.Setup) (repr : Json → Text) (feed : List Obj) :
    Except Failure GenerateResponse :=
  match lastEnvelope feed with
  | none => .error (.cli "claude stream ended without a `result` envelope".toList none)
  | some envelope => resultOf E U q repr envelope (feed.filterMap textIn) (feed.filterMap (thoughtIn q))

variable (E U D q repr) in
/-- **A stream in one equation**: the frames of its feed and the response of
the last envelope, or what that raises; and it raises at a document it
cannot parse and at an event it cannot take. -/
theorem stream_eq (binary : Text) (lines : List Text) :
    (∀ feed, feedOf D lines = some feed → feed.all (takes E q) = true →
      stream E U D q repr binary lines (.ended ()) =
        match ending E U q repr feed with
        | .ok r => .ok (frames q feed ++ [.done r])
        | .error failure => .error { failure, sent := frames q feed }) ∧
    (∀ feed, feedOf D lines = some feed → feed.all (takes E q) = false →
      ∃ e, stream E U D q repr binary lines (.ended ()) = .error e) ∧
    (feedOf D lines = none → ∃ e, stream E U D q repr binary lines (.ended ()) = .error e) := by
  have hlines := Codex.foldlM_feed (fun s line => onLine_eq (E := E) (D := D) (q := q) s line) lines {}
  refine ⟨fun feed hf ht => ?_, fun feed hf ht => ?_, fun hf => ?_⟩
  · have hrun := hlines.1 feed hf
    rcases foldlM_onEvent (E := E) (q := q) feed {} with ⟨-, h⟩ | ⟨hno, -⟩
    · rw [h] at hrun
      rw [stream, hrun.eq_ok, foldl_after]
      show finish E U q repr _ = _
      unfold finish ending
      simp only [List.nil_append, Option.or_none]
      cases lastEnvelope feed with
      | none => rfl
      | some envelope =>
          simp only
          cases resultOf E U q repr envelope (feed.filterMap textIn) (feed.filterMap (thoughtIn q)) with
          | ok r => rfl
          | error failure => rfl
    · rw [ht] at hno
      cases hno
  · have hrun := hlines.1 feed hf
    rcases foldlM_onEvent (E := E) (q := q) feed {} with ⟨hyes, -⟩ | ⟨-, e, h⟩
    · rw [ht] at hyes
      cases hyes
    · rw [h] at hrun
      obtain ⟨e', he'⟩ := hrun.eq_error
      exact ⟨e', by rw [stream, he']; rfl⟩
  · obtain ⟨e, he⟩ := hlines.2 hf
    exact ⟨e, by rw [stream, he]; rfl⟩

/-- A stream that answers has taken all of its feed and come to an
envelope. -/
theorem stream_answers {binary : Text} {lines : List Text} {exit : Exit Unit} {chunks : List Chunk}
    (h : stream E U D q repr binary lines exit = .ok chunks) :
    ∃ feed envelope r, feedOf D lines = some feed ∧ lastEnvelope feed = some envelope ∧
      chunks = frames q feed ++ [.done r] ∧
      resultOf E U q repr envelope (feed.filterMap textIn) (feed.filterMap (thoughtIn q)) = .ok r := by
  have hexit : exit = .ended () := by
    obtain ⟨s, -, h⟩ := bind_eq_ok.mp h
    cases exit with
    | ended _ => rfl
    | cliError code said => cases h
    | backendTimeout => cases h
    | raised error => cases h
    | cancelled => cases h
    | closed => cases h
  subst hexit
  obtain ⟨htaken, hnot, hunread⟩ := stream_eq E U D q repr binary lines
  cases hf : feedOf D lines with
  | none =>
      obtain ⟨e, he⟩ := hunread hf
      cases he.symm.trans h
  | some feed =>
      cases ht : feed.all (takes E q) with
      | false =>
          obtain ⟨e, he⟩ := hnot feed hf ht
          cases he.symm.trans h
      | true =>
          have hrun := (htaken feed hf ht).symm.trans h
          unfold ending at hrun
          cases he : lastEnvelope feed with
          | none =>
              rw [he] at hrun
              cases hrun
          | some envelope =>
              rw [he] at hrun
              simp only at hrun
              cases hr : resultOf E U q repr envelope (feed.filterMap textIn) (feed.filterMap (thoughtIn q)) with
              | error failure =>
                  rw [hr] at hrun
                  cases hrun
              | ok r =>
                  rw [hr] at hrun
                  cases hrun
                  exact ⟨feed, envelope, r, rfl, he, rfl, hr⟩

/-! ## The frames -/

theorem shown_framesIn (event : Obj) : (framesIn q event).flatMap Chunk.shown = (textIn event).toList.flatten := by
  unfold framesIn
  rw [List.flatMap_append, List.flatMap_append, List.flatMap_append]
  have hw : (if isWorking q event then [Chunk.progress { stage := .working }] else []).flatMap Chunk.shown = [] := by
    split
    · rfl
    · rfl
  rw [hw, List.nil_append]
  cases toolIn q event with
  | none =>
      cases thoughtIn q event with
      | none => cases textIn event <;> rfl
      | some thought => cases textIn event <;> rfl
  | some tool =>
      cases thoughtIn q event with
      | none => cases textIn event <;> rfl
      | some thought => cases textIn event <;> rfl

theorem thought_framesIn (event : Obj) :
    (framesIn q event).flatMap Chunk.thought = (thoughtIn q event).toList.flatten := by
  unfold framesIn
  rw [List.flatMap_append, List.flatMap_append, List.flatMap_append]
  have hw : (if isWorking q event then [Chunk.progress { stage := .working }] else []).flatMap Chunk.thought = [] := by
    split
    · rfl
    · rfl
  have ht : ((textIn event).toList.map (Chunk.text · none)).flatMap Chunk.thought = [] := by
    cases textIn event with
    | none => rfl
    | some text => rfl
  rw [hw, ht, List.nil_append, List.append_nil]
  cases toolIn q event with
  | none => cases thoughtIn q event <;> rfl
  | some tool => cases thoughtIn q event <;> rfl

theorem flatten_filterMap {α : Type} (f : α → Option Text) (l : List α) :
    (l.filterMap f).flatten = l.flatMap fun x => (f x).toList.flatten := by
  induction l with
  | nil => rfl
  | cons x l ih =>
      rw [List.filterMap_cons, List.flatMap_cons, ← ih]
      cases f x with
      | none => rfl
      | some text => rw [List.flatten_cons, Option.toList_some, List.flatten_singleton]

/-- The frames show the text of the feed. -/
theorem shown_frames (feed : List Obj) :
    (frames q feed).flatMap Chunk.shown = (feed.filterMap textIn).flatten := by
  rw [frames, List.flatMap_assoc, flatten_filterMap]
  exact List.flatMap_congr fun event _ => shown_framesIn event

/-- The frames show the reasoning of the feed. -/
theorem thought_frames (feed : List Obj) :
    (frames q feed).flatMap Chunk.thought = (feed.filterMap (thoughtIn q)).flatten := by
  rw [frames, List.flatMap_assoc, flatten_filterMap]
  exact List.flatMap_congr fun event _ => thought_framesIn event

/-! ## The two paths -/

/-- Reasoning that was sent can be answered with. -/
theorem holds_thoughts {feed : List Obj} (ht : feed.all (takes E q) = true) :
    E.holds (feed.filterMap (thoughtIn q)).flatten = true := by
  rw [flatten_filterMap, Env.holds, List.all_flatMap, List.all_eq_true]
  intro event hevent
  have htake := List.all_eq_true.mp ht event hevent
  rw [takes, Bool.or_eq_true] at htake
  rcases htake with hk | htake
  · have hf := isFrame_of_kind "content_block_delta" (by rwa [Bool.not_eq_true'] at hk)
    rw [thoughtIn, hf, Bool.false_and, Bool.false_and, if_neg Bool.false_ne_true]
    rfl
  · rw [Bool.and_eq_true, Bool.and_eq_true] at htake
    have hheld := htake.1.2
    cases hn : thoughtIn q event with
    | none => rfl
    | some thought =>
        rw [hn] at hheld
        rw [Option.toList_some, List.flatten_singleton]
        exact hheld

/-- The reasoning a stream answers with. -/
def reasoned (q : Codex.Setup) (feed : List Obj) : Option Text :=
  if (feed.filterMap (thoughtIn q)).flatten = [] then none else some (feed.filterMap (thoughtIn q)).flatten

theorem responseOf_reasoned (envelope : Obj) (content : Text) {reasoning : Option Text}
    (h : E.holdsAll reasoning = true) :
    responseOf E U q envelope content reasoning =
      (fun r => { r with reasoning }) <$> responseOf E U q envelope content none := by
  unfold responseOf
  cases usageFromEnvelope E (envelope.get "usage") with
  | error failure => rfl
  | ok usage =>
      show checked E _ = _ <$> checked E _
      unfold checked
      simp only [h, true_and]
      have hnone : E.holdsAll none = true := rfl
      simp only [hnone, true_and]
      split
      · rfl
      · rfl

theorem responseOf_ok {envelope : Obj} {content : Text} {reasoning : Option Text} {r : GenerateResponse}
    (h : responseOf E U q envelope content reasoning = .ok r) :
    r.content = some (Codex.shown U q content) ∧ r.reasoning = reasoning := by
  unfold responseOf at h
  simp only [bind_eq_ok, checked_eq_ok] at h
  obtain ⟨usage, -, rfl, -⟩ := h
  exact ⟨rfl, rfl⟩

theorem resultOf_ok {envelope : Obj} {emitted thoughts : List Text} {r : GenerateResponse}
    (h : resultOf E U q repr envelope emitted thoughts = .ok r) :
    r.content = some (Codex.shown U q (match envelope.get "result" with
        | .str content => content
        | _ => emitted.flatten)) ∧
      r.reasoning = if thoughts.flatten = [] then none else some thoughts.flatten := by
  unfold resultOf at h
  split at h
  · cases h
  · exact responseOf_ok h

/-- Of an envelope with no text, `generate` makes an error. -/
theorem answerOf_textless {envelope : Obj} (hc : ∀ content, envelope.get "result" ≠ .str content) :
    ∃ e, answerOf E U q repr envelope = .error e := by
  unfold answerOf
  split
  · exact ⟨_, rfl⟩
  · split
    · rename_i content hcontent
      exact absurd hcontent (hc content)
    · exact ⟨_, rfl⟩

/-- Of an envelope with no text, the stream answers with what it has shown. -/
theorem resultOf_textless {envelope : Obj} {emitted thoughts : List Text} {r : GenerateResponse}
    (hc : ∀ content, envelope.get "result" ≠ .str content)
    (h : resultOf E U q repr envelope emitted thoughts = .ok r) :
    r.content = some (Codex.shown U q emitted.flatten) := by
  rw [(resultOf_ok h).1]
  split
  · rename_i content hcontent
    exact absurd hcontent (hc content)
  · rfl

theorem holdsAll_reasoned {feed : List Obj} (ht : feed.all (takes E q) = true) :
    E.holdsAll (reasoned q feed) = true := by
  rw [reasoned]
  split
  · rfl
  · exact holds_thoughts ht

/-- The stream of an answer: frames that show the text and the reasoning of
the feed, and the answer with that reasoning. -/
structure Streams (q : Codex.Setup) (feed : List Obj) (r : GenerateResponse) (chunks : List Chunk) : Prop where
  chunks : chunks = frames q feed ++ [.done { r with reasoning := reasoned q feed }]
  text : (frames q feed).flatMap Chunk.shown = (feed.filterMap textIn).flatten
  reasoning : (frames q feed).flatMap Chunk.thought = (reasoned q feed).getD []

theorem streams_of_eq {feed : List Obj} {r : GenerateResponse} {chunks : List Chunk}
    (h : chunks = frames q feed ++ [.done { r with reasoning := reasoned q feed }]) :
    Streams q feed r chunks := by
  refine ⟨h, shown_frames feed, ?_⟩
  rw [thought_frames, reasoned]
  split
  · assumption
  · rfl

/-- **The two paths of Claude Code cannot disagree on an envelope.**  Over a
feed that is taken, the stream answers what `generate` answers to the same
envelope, with the reasoning it has shown, or both fail; where the envelope
has no text, `generate` refuses it and the stream answers with the text it
has shown. -/
theorem envelope_agrees (head : List UInt8 → Text) (binary : Text) {lines : List Text} {feed : List Obj}
    {stdout stderr : List UInt8} {envelope : Obj}
    (hf : feedOf D lines = some feed) (he : lastEnvelope feed = some envelope)
    (ho : D.loadsBytes stdout = .value (.obj envelope)) :
    (feed.all (takes E q) = false → ∃ e, stream E U D q repr binary lines (.ended ()) = .error e) ∧
    (feed.all (takes E q) = true → (∃ content, envelope.get "result" = .str content) →
      Both (Streams q feed) (generateOf E U D q repr head ⟨stdout, stderr, 0⟩)
        (stream E U D q repr binary lines (.ended ()))) ∧
    (feed.all (takes E q) = true → (∀ content, envelope.get "result" ≠ .str content) →
      (∃ e, generateOf E U D q repr head ⟨stdout, stderr, 0⟩ = .error e) ∧
        ∀ chunks, stream E U D q repr binary lines (.ended ()) = .ok chunks →
          ∃ r, chunks = frames q feed ++ [.done r] ∧
            r.content = some (Codex.shown U q ((frames q feed).flatMap Chunk.shown))) := by
  obtain ⟨htaken, hnot, -⟩ := stream_eq E U D q repr binary lines
  have hwhole : generateOf E U D q repr head ⟨stdout, stderr, 0⟩ = answerOf E U q repr envelope := by
    rw [generateOf.eq_def]
    show (match D.loadsBytes stdout with
      | .value (.obj envelope) => answerOf E U q repr envelope
      | .value v => _
      | .invalid => _
      | .refused => _
      | .tooDeep => _) = _
    rw [ho]
  refine ⟨hnot feed hf, fun ht hc => ?_, fun ht hc => ?_⟩
  · obtain ⟨content, hc⟩ := hc
    rw [hwhole, htaken feed hf ht, ending, he]
    simp only
    unfold answerOf resultOf
    rw [hc]
    split
    · exact .error
    · show Both _ (responseOf E U q envelope content none)
        (match responseOf E U q envelope content (reasoned q feed) with
          | .ok r => _
          | .error failure => _)
      rw [responseOf_reasoned envelope content (holdsAll_reasoned ht)]
      cases responseOf E U q envelope content none with
      | error failure => exact .error
      | ok r => exact .ok (streams_of_eq rfl)
  · refine ⟨hwhole ▸ answerOf_textless hc, fun chunks h => ?_⟩
    obtain ⟨feed', envelope', r, hf', he', rfl, hr⟩ := stream_answers h
    cases hf.symm.trans hf'
    cases he.symm.trans he'
    exact ⟨r, rfl, shown_frames feed ▸ resultOf_textless hc hr⟩

/-! ## A text and its envelope -/

def deltaEvent : Obj :=
  [("type".toList, .ofString "stream_event"),
    ("event".toList, .ofFields [("type", .ofString "content_block_delta"),
      ("delta", .ofFields [("type", .ofString "text_delta"), ("text", .ofString "4")])])]

def resultEvent : Obj := [("type".toList, .ofString "result"), ("result".toList, .ofString "4")]

/-- The two events, under short texts. -/
def told : Decoder := .ofTable [("1", .obj deltaEvent), ("2", .obj resultEvent)]

theorem loadsBytes_told : told.loadsBytes [0x32] = .value (.obj resultEvent) := by
  have htext : told.text (detectEncoding [0x32]) [0x32] = some "2".toList := by decide +kernel
  rw [Decoder.loadsBytes, htext]
  rfl

theorem envelope_agrees_told :
    Both (Streams Codex.plain [deltaEvent, resultEvent])
      (generateOf (.ofTable []) Ucd.basic told Codex.plain (fun _ => []) (fun _ => []) ⟨[0x32], [], 0⟩)
      (stream (.ofTable []) Ucd.basic told Codex.plain (fun _ => []) "claude".toList
        ["1".toList, "2".toList] (.ended ())) := by
  have hfeed : feedOf told ["1".toList, "2".toList] = some [deltaEvent, resultEvent] := rfl
  exact (envelope_agrees _ _ hfeed rfl loadsBytes_told).2.1 (by decide) ⟨_, rfl⟩

end InferenceDriver.Cli.Claude

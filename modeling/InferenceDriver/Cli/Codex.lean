/-
# `Cli.Codex` — a Codex answer, whole and streamed

`generate` and `stream` of `codex_cli.py`, from the child on: the one has
all of its output and its exit code, the other its lines as
`stream_cli_lines` yields them, and how that call ends.  The feed is a
document a line; each path reads it with a reader of its own.
-/
import InferenceDriver.Cli.Lines
import InferenceDriver.OpenAi.Stream
import InferenceDriver.Py.Loads

namespace InferenceDriver.Cli.Codex

open Checks OpenAi Thinking

/-- What is settled when the child is started. -/
structure Setup where
  /-- `thinkingMode`. -/
  thinkingMode : Text
  /-- `reportProgress`. -/
  report : Bool
  /-- `modelId`. -/
  modelId : Option Text

/-- `thinkingMode` is `off`. -/
def Setup.off (q : Setup) : Bool := q.thinkingMode = "off".toList

variable (E : Env) (U : Ucd) (D : Decoder) (q : Setup)

/-! ## Events -/

def isKind (event : Obj) (kind : String) : Bool := (event.get "type").isStr kind.toList

/-- `event.get("type") in ("error", "turn.failed")`. -/
def isFailure (event : Obj) : Bool := isKind event "error" || isKind event "turn.failed"

/-- `event.get("item") or {}`, when it is a dict. -/
def itemOf (event : Obj) : Option Obj :=
  match event.get "item" with
  | .obj item => some item
  | item => if item.truthy then none else some []

/-- The text of an item that is a string. -/
def textOf (item : Obj) : Option Text :=
  match item.get "text" with
  | .str text => some text
  | _ => none

/-- The text that is a reason in itself, or wraps one. -/
def innerReason (raw : Text) (v : Json) : Text :=
  match v with
  | .obj inner =>
      let found :=
        match Obj.get inner "error" with
        | .obj nested => Obj.get nested "message"
        | _ => Obj.get inner "message"
      match found with
      | .str (c :: cs) => c :: cs
      | _ => strip raw
  | _ => strip raw

/-- `_failure_of`; a document nested too deep raises. -/
def failureOf (event : Obj) : Except Failure (Option Text) :=
  let raw :=
    if (event.get "message").isNull then
      match event.get "error" with
      | .obj error => Obj.get error "message"
      | _ => event.get "message"
    else event.get "message"
  match raw with
  | .str raw =>
      if strip raw = [] then .ok none
      else
        match D.loads raw with
        | .value v => .ok (some (innerReason raw v))
        | .invalid | .refused => .ok (some (strip raw))
        | .tooDeep => .error .uncaught
  | _ => .ok none

/-- `_failure_of(event) or found`. -/
def laterFailure (event : Obj) (found : Option Text) : Except Failure (Option Text) :=
  (fun f => f.or found) <$> failureOf D event

/-- `_failure_in`. -/
def failureIn (lines : List Text) : Except Failure (Option Text) :=
  lines.foldlM (fun found line =>
    match D.loads line with
    | .value (.obj event) => if isFailure event then laterFailure D event found else .ok found
    | .value _ | .invalid | .refused => .ok found
    | .tooDeep => .error .uncaught) none

/-- `count`, of a usage. -/
def count (usage : Obj) (key : String) : Option Int :=
  match usage.get key with
  | .int n => some n
  | _ => none

/-- A field `int | None` with `ge=0`. -/
def whole (n : Option Int) : Except Failure (Option Nat) :=
  match n with
  | some n => if 0 ≤ n then .ok (some n.toNat) else .error .uncaught
  | none => .ok none

/-- `_usage_from_codex`, of a usage that is not falsy. -/
def usageFromCodex (usage : Json) : Except Failure (Option Usage) := do
  let usage ← asDict usage
  let prompt := (count usage "input_tokens").getD 0
  let completion := (count usage "output_tokens").getD 0
  if prompt = 0 ∧ completion = 0 then return none
  else
    return some {
      promptTokens := ← whole (some prompt)
      completionTokens := ← whole (some completion)
      totalTokens := ← whole (some (prompt + completion))
      cachedPromptTokens := ← whole (count usage "cached_input_tokens")
      reasoningTokens := ← whole (count usage "reasoning_output_tokens") }

/-- `_usage_from_codex(usage_event) if usage_event else None`. -/
def usageOf (usage : Json) : Except Failure (Option Usage) :=
  if usage.truthy then usageFromCodex usage else .ok none

/-- The content: without its thinking, when the mode says so. -/
def shown (text : Text) : Text := if q.off then stripThinkingBlocks U text else text

/-- What both paths answer with. -/
def resultOf (texts thoughts : List Text) (usage : Json) : Except Failure GenerateResponse := do
  let reasoning := List.intercalate "\n\n".toList thoughts
  let usage ← usageOf usage
  checked E {
    content := some (shown U q texts.flatten)
    audio := none
    logprobs := none
    annotations := []
    reasoning := if reasoning = [] then none else some reasoning
    toolCalls := []
    finishReason := .stop
    stopSequence := none
    usage
    modelId := q.modelId }

/-! ## `generate` -/

/-- The local variables of `generate`. -/
structure Whole where
  texts : List Text := []
  usage : Json := .null
  sawAny : Bool := false

/-- An event of a finished run. -/
def Whole.event (s : Whole) (event : Obj) : Whole :=
  if isKind event "item.completed" then
    match itemOf event with
    | some item =>
        match textOf item with
        | some text =>
            if isKind item "agent_message" then { s with texts := s.texts ++ [text], sawAny := true }
            else { s with sawAny := true }
        | none => { s with sawAny := true }
    | none => { s with sawAny := true }
  else if isKind event "turn.completed" then { s with usage := event.get "usage", sawAny := true }
  else { s with sawAny := true }

/-- A line of a finished run. -/
def Whole.line (s : Whole) (line : List UInt8) : Except Failure Whole :=
  match stripBytes line with
  | [] => .ok s
  | line =>
      match D.loadsBytes line with
      | .value (.obj event) => .ok (s.event event)
      | .value _ | .invalid => .ok s
      | .refused | .tooDeep => .error .uncaught

/-- `generate`, of what `run_cli` returned; `head` is the `repr` of bytes. -/
def generateOf (head : List UInt8 → Text) (result : CliResult) : Except Failure GenerateResponse :=
  if result.returncode ≠ 0 then do
    let reason ← failureIn D (splitText (decodeUtf8 result.stdout))
    let said := strip (decodeUtf8 result.stderr)
    .error (.cli ("codex exited ".toList ++ (toString result.returncode).toList ++ ": ".toList ++
      reason.getD (if said = [] then "<no stderr>".toList else said)) none)
  else do
    let s ← (splitBytes result.stdout).foldlM (Whole.line D) {}
    if ¬ s.sawAny then
      .error (.cli ("codex emitted no parseable events. stdout head: ".toList ++ head (result.stdout.take 200)) none)
    else if s.texts = [] then
      .error (.cli "codex completed without producing an agent_message".toList none)
    else resultOf E U q s.texts [] s.usage

/-- `generate`, however `run_cli` left. -/
def generate (head : List UInt8 → Text) (exit : Exit CliResult) : Except Failure GenerateResponse :=
  match exit with
  | .ended result => generateOf E U D q head result
  | .backendTimeout => .error .timedOut
  | _ => .error .uncaught

/-! ## `stream` -/

/-- The local variables of `stream`, and the frames sent so far. -/
structure Locals where
  texts : List Text := []
  thoughts : List Text := []
  usage : Json := .null
  sawAny : Bool := false
  failure : Option Text := none
  sent : List Chunk := []

def Locals.fail {α : Type} (s : Locals) (failure : Failure) : Except Raised α :=
  .error { failure, sent := s.sent }

def Locals.attempt {α : Type} (s : Locals) (x : Except Failure α) : Except Raised α :=
  match x with
  | .ok a => .ok a
  | .error failure => s.fail failure

/-- A frame with a text in it, which the frame's model has to take. -/
def Locals.send (s : Locals) (text : Text) (c : Chunk) : Except Raised Locals :=
  if E.holds text then .ok { s with sent := s.sent ++ [c] } else s.fail .uncaught

/-- `_tool_of`. -/
def toolOf (item : Obj) : Option Text :=
  let kind := E.str (item.get "type")
  if isKind item "mcp_tool_call" then
    match item.get "tool" with
    | .str (c :: cs) => some (c :: cs)
    | _ => some "tool".toList
  else if kind = "command_execution".toList then some "command".toList
  else if kind = "file_change".toList then some "file change".toList
  else if kind = "web_search".toList then some "web search".toList
  else none

/-- `item.completed`. -/
def onCompleted (s : Locals) (item : Obj) : Except Raised Locals :=
  match textOf item with
  | none => .ok s
  | some [] => .ok s
  | some (c :: cs) =>
      if isKind item "agent_message" then
        { s with texts := s.texts ++ [c :: cs] }.send E (c :: cs) (.text (c :: cs) none)
      else if isKind item "reasoning" ∧ q.off = false then
        { s with thoughts := s.thoughts ++ [c :: cs] }.send E (c :: cs) (.reasoning (c :: cs))
      else .ok s

/-- `item.started`. -/
def onStarted (s : Locals) (item : Obj) : Except Raised Locals :=
  match toolOf E item with
  | some tool => if q.report then s.send E tool (.progress { stage := .tool, tool }) else .ok s
  | none => .ok s

/-- One event. -/
def onEvent (s : Locals) (event : Obj) : Except Raised Locals :=
  let s := { s with sawAny := true }
  if isKind event "turn.started" then
    if q.report then .ok { s with sent := s.sent ++ [.progress { stage := .working }] } else .ok s
  else if isKind event "item.started" then
    match itemOf event with
    | some item => onStarted E q s item
    | none => .ok s
  else if isKind event "item.completed" then
    match itemOf event with
    | some item => onCompleted E q s item
    | none => .ok s
  else if isFailure event then do
    let failure ← s.attempt (laterFailure D event s.failure)
    return { s with failure }
  else if isKind event "turn.completed" then .ok { s with usage := event.get "usage" }
  else .ok s

/-- One line. -/
def onLine (s : Locals) (line : Text) : Except Raised Locals :=
  match strip line with
  | [] => .ok s
  | line =>
      match D.loads line with
      | .value (.obj event) => onEvent E D q s event
      | .value _ | .invalid => .ok s
      | .refused | .tooDeep => s.fail .uncaught

/-- What follows the lines. -/
def finish (s : Locals) : Except Raised (List Chunk) :=
  if ¬ s.sawAny then s.fail (.cli "codex emitted no parseable events".toList none)
  else if s.texts = [] then
    s.fail (.cli (match s.failure with
      | some failure => "codex failed: ".toList ++ failure
      | none => "codex produced no agent_message item".toList) none)
  else do
    let result ← s.attempt (resultOf E U q s.texts s.thoughts s.usage)
    return s.sent ++ [.done result]

/-- The lines, and how `stream_cli_lines` left. -/
def stream (binary : Text) (lines : List Text) (exit : Exit Unit) : Except Raised (List Chunk) := do
  let s ← lines.foldlM (onLine E D q) {}
  match exit with
  | .ended _ => finish E U q s
  | .cliError code said =>
      s.fail (.cli (match s.failure with
        | some failure => "codex failed: ".toList ++ failure
        | none => binary ++ " exited ".toList ++ (toString code).toList ++ ": ".toList ++ said) none)
  | .backendTimeout =>
      s.fail (match s.failure with
        | some failure => .cli ("codex failed: ".toList ++ failure) none
        | none => .timedOut)
  | _ => s.fail .uncaught

end InferenceDriver.Cli.Codex

/-
# `OpenAi.Said` — what a backend has said

The lines of a stream read as documents and nothing more: which events
come before the stream is over (`read`), and what the events say when they
are put together (`Said`).  Neither fails and neither looks at what the
engine does with an answer.  `tells_readLines` connects the two to the
loop of `_stream`: whatever it goes through, its local variables hold what
was said.
-/
import InferenceDriver.OpenAi.Stream

namespace InferenceDriver.OpenAi

open Checks Thinking

variable (E : Env) (U : Ucd) (q : Setup)

/-! ## The lines -/

/-- What the stall clock depends on. -/
structure Clock where
  armed : Bool := false
  quiet : ℚ := 0

/-- Whether a line comes too late. -/
def Clock.late (c : Clock) (waited : ℚ) : Prop :=
  c.armed ∧ 0 < q.stallSeconds ∧ max (q.stallSeconds - c.quiet) 0 ≤ waited

instance (c : Clock) (waited : ℚ) : Decidable (c.late q waited) :=
  inferInstanceAs (Decidable (_ ∧ _))

/-- The clock once a line is there. -/
def Clock.after (c : Clock) (waited : ℚ) (line : Text) : Clock :=
  { c with
    quiet :=
      if q.hollowPings ∧ ¬ "data:".toList.isPrefixOf line then
        c.quiet + if c.armed ∧ 0 < q.stallSeconds then waited else 0
      else 0 }

/-- A frame that only reports on the prompt leaves the clock unarmed. -/
def arms (event : Json) : Bool :=
  match Obj.get (dictOf event) "prompt_progress" with
  | .obj _ => false
  | _ => true

/-- How the lines end. -/
inductive Ending where
  /-- `[DONE]`. -/
  | done
  /-- The connection is closed. -/
  | closed
  /-- A line comes too late. -/
  | late
  /-- An `httpx.HTTPError`. -/
  | lost
  /-- A document that cannot be parsed for its depth. -/
  | unreadable
deriving DecidableEq, Repr

/-- What a line is. -/
inductive Reading where
  | nothing (c : Clock)
  | event (c : Clock) (event : Json)
  | ending (ending : Ending)

def readLine (c : Clock) (waited : ℚ) (text : Text) : Reading :=
  if c.late q waited then .ending .late
  else
    let c := c.after q waited text
    if q.report ∧ ":".toList.isPrefixOf text then .nothing c
    else
      match sseData text with
      | none => .nothing c
      | some data =>
          if data = "[DONE]".toList then .ending .done
          else
            match E.loads data with
            | .malformed => .nothing { c with armed := true }
            | .escapes => .ending .unreadable
            | .value event => .event c event

/-- The events of the lines, up to where they end. -/
def read (c : Clock) : List Arrival → List Json × Ending
  | [] => ([], .closed)
  | .timeout :: _ => ([], .lost)
  | .broken _ :: _ => ([], .lost)
  | .line waited _ text :: rest =>
      match readLine E q c waited text with
      | .nothing c => read c rest
      | .ending ending => ([], ending)
      | .event c event =>
          let later := read { c with armed := c.armed || arms event } rest
          (event :: later.1, later.2)

/-! ## The events -/

/-- What has been said of an answer. -/
structure Said where
  /-- The contents of the deltas that have any. -/
  contents : List Json := []
  thoughts : Text := []
  calls : Dict Int Part := .empty
  /-- The last choice with a finish reason. -/
  closing : Option Obj := none
  usage : Json := .obj []
  model : Text
  heard : AudioAssembly

/-- The delta of a choice. -/
def deltaIn (choice : Json) : Obj := dictOf (Obj.get (dictOf choice) "delta")

/-- The content of a choice, if it has any. -/
def contentIn (choice : Json) : List Json :=
  if (Obj.get (deltaIn choice) "content").truthy then [Obj.get (deltaIn choice) "content"] else []

/-- What is heard of a spoken answer. -/
def listen (heard : AudioAssembly) (delta : Obj) : AudioAssembly :=
  if q.audio.isSome ∧ ¬ (delta.get "audio").isNull then
    match heard.feed E.b64decode (delta.get "audio") with
    | .ok (_, heard) => heard
    | .error _ => heard
  else heard

def Said.choice (a : Said) (choice : Json) : Said :=
  { a with
    contents := a.contents ++ contentIn choice
    thoughts := a.thoughts ++ (reasoningOf (deltaIn choice)).getD []
    calls := accumulateToolCalls E a.calls (Obj.get (deltaIn choice) "tool_calls")
    closing := if (Obj.get (dictOf choice) "finish_reason").truthy then some (dictOf choice) else a.closing
    heard := listen E q a.heard (deltaIn choice) }

/-- The model and the usage a frame names. -/
def Said.envelope (a : Said) (event : Json) : Said :=
  let model := Obj.get (dictOf event) "model"
  let usage := Obj.get (dictOf event) "usage"
  { a with
    model := publicModelId E (if model.truthy then model else .str a.model) q.target
    usage := if usage.truthy then usage else a.usage }

def choicesIn (event : Json) : List Json :=
  match Obj.get (dictOf event) "choices" with
  | .arr choices => choices
  | _ => []

def Said.event (a : Said) (event : Json) : Said :=
  (choicesIn event).foldl (Said.choice E q) (a.envelope E q event)

/-- Before anything is said. -/
def unsaid : Said := { model := q.target.id, heard := { keep := q.assembleAudio } }

/-- What the lines say. -/
def said (arrivals : List Arrival) : Said :=
  (read E q {} arrivals).1.foldl (Said.event E q) (unsaid q)

/-- The finish reason, as a key of `_FINISH_REASON_MAP`. -/
def Said.finishReason (a : Said) : Text :=
  a.closing.elim "stop".toList fun choice => E.str (choice.get "finish_reason")

def Said.stopSequence (a : Said) : Option Text :=
  a.closing.bind fun choice => OpenAi.stopSequence choice q.stop

/-! ## The loop -/

/-- The local variables that hold what was said. -/
structure Kept where
  filter : ThinkingFilter
  fed : List Text
  held : List Json
  emitted : List Text
  spoiled : Bool
  reasoned : List Text
  callParts : Dict Int Part
  finishReason : Text
  stopSequence : Option Text
  usagePayload : Json
  servedModel : Text
  heard : AudioAssembly

def Locals.kept (s : Locals) : Kept where
  filter := s.filter
  fed := s.fed
  held := s.held
  emitted := s.emitted
  spoiled := s.spoiled
  reasoned := s.reasoned
  callParts := s.callParts
  finishReason := s.finishReason
  stopSequence := s.stopSequence
  usagePayload := s.usagePayload
  servedModel := s.servedModel
  heard := s.heard

def isText (v : Json) : Bool :=
  match v with
  | .str _ => true
  | _ => false

/-- Where the text is: held back for a forced call, gone through the filter,
or shown as it came. -/
def KeepsText (k : Kept) (contents : List Json) : Prop :=
  match q.forced with
  | some _ => k.held = contents ∧ k.emitted = [] ∧ k.fed = [] ∧ k.filter = {} ∧ k.spoiled = false
  | none =>
      k.held = [] ∧
        if q.off then
          contents = k.fed.map .str ∧ feedAll U {} k.fed = (k.emitted.flatten, k.filter) ∧
            k.spoiled = false
        else
          k.fed = [] ∧ k.filter = {} ∧ k.spoiled = contents.any (!isText ·) ∧
            (k.spoiled = false → contents = k.emitted.map .str)

/-- The local variables hold what was said. -/
structure Keeps (k : Kept) (a : Said) : Prop where
  text : KeepsText U q k a.contents
  reasoned : k.reasoned.flatten = if q.off then [] else a.thoughts
  calls : k.callParts = a.calls
  finishReason : k.finishReason = a.finishReason E
  stopSequence : k.stopSequence = a.stopSequence q
  usage : k.usagePayload = a.usage
  model : k.servedModel = a.model
  heard : k.heard = a.heard

end InferenceDriver.OpenAi

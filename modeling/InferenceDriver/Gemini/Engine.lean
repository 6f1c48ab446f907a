/-
# `Gemini.Engine` — a Gemini answer, whole and streamed

`generate` and `stream` of `gemini_api.py` from the moment the response is
open: the body of the one, the lines of the other.  A line comes with the
time it took and the time it was looked at, as on the other engine
(`OpenAi.Stream`).
-/
import InferenceDriver.Gemini.Wire
import InferenceDriver.OpenAi.Stream

namespace InferenceDriver.Gemini

open Checks OpenAi

/-- What is settled when the response opens. -/
structure Setup where
  /-- `target.id`. -/
  model : Text
  /-- `reportProgress`. -/
  report : Bool
  /-- `streamStallSeconds`; 0 is no stall clock. -/
  stallSeconds : ℚ
  /-- `_scrub`, which takes the key out of a text. -/
  scrub : Text → Text
  /-- A call was sent back without its signature. -/
  unsigned : Bool

variable (E : Env) (U : Ucd) (dumps : Json → Text) (q : Setup)

/-- `found[0] if isinstance(found[0], dict) else {}`, of what is not falsy. -/
def firstCandidate (found : Json) : Except Failure Obj :=
  match found with
  | .arr (first :: _) => .ok (dictOf first)
  | .str (_ :: _) => .ok []
  | _ => .error .uncaught

/-- The parts of a candidate: `(candidate.get("content") or {}).get("parts")`. -/
def partsOf (candidate : Obj) : Except Failure Json := do
  let content ← dictOrEmpty (candidate.get "content")
  return content.get "parts"

/-- What both paths answer with. -/
def resultOf (parsed : Parsed) (candidate : Obj) (finish : FinishReason) (usage : Json) :
    Except Failure GenerateResponse :=
  checked E {
    content :=
      if finish = .contentFilter ∧ parsed.text = [] ∧ parsed.calls = [] then
        some (refusalNote E candidate)
      else if parsed.text = [] then none else some parsed.text
    audio := none
    logprobs := none
    annotations := []
    reasoning := if parsed.reasoning = [] then none else some parsed.reasoning
    toolCalls := parsed.calls
    finishReason := finish
    stopSequence := none
    usage := usageOf usage
    modelId := some q.model }

/-- A reason that says nothing is wrong. -/
def plainReason (reason : Json) : Bool := reason.isNull || reason.isStr "STOP".toList

/-- `generate`, once the body is there. -/
def generate (hex : Nat → Text) (body : Loaded) : Except Failure GenerateResponse :=
  match body with
  | .malformed => .error (.cli "Gemini returned non-JSON for the completion".toList none)
  | .escapes => .error .uncaught
  | .value body => do
      let candidates := Obj.get (dictOf body) "candidates"
      if candidates.truthy then
        let candidate ← firstCandidate candidates
        let parsed ← readParts E dumps hex (← partsOf candidate)
        if parsed.text = [] ∧ parsed.calls = [] ∧ parsed.reasoning = [] ∧
            plainReason (candidate.get "finishReason") then
          .error (.cli "Gemini returned an answer with no text, reasoning or tool call".toList none)
        else
          let finish ← finishOf E (candidate.get "finishReason") (parsed.calls ≠ [])
          resultOf E q parsed candidate finish (Obj.get (dictOf body) "usageMetadata")
      else
        let body ← asDict body
        .error ((blockedPrompt E body).getD (.cli "Gemini returned no candidates".toList none))

/-! ## A stream -/

/-- The local variables of `stream`, and the frames sent so far. -/
structure Locals where
  /-- The texts, the thoughts and the calls so far. -/
  parsed : Parsed := {}
  usageRaw : Json := .obj []
  finishRaw : Json := .null
  lastCandidate : Obj := []
  finished : Bool := false
  sawFirst : Bool := false
  lastKeepalive : ℚ := 0
  sent : List Chunk := []

def Locals.send (s : Locals) (c : Chunk) : Locals := { s with sent := s.sent ++ [c] }

def Locals.fail {α : Type} (s : Locals) (failure : Failure) : Except Raised α :=
  .error { failure, sent := s.sent }

def Locals.attempt {α : Type} (s : Locals) (x : Except Failure α) : Except Raised α :=
  match x with
  | .ok a => .ok a
  | .error failure => s.fail failure

@[simp] theorem Locals.attempt_eq_ok {α : Type} {s : Locals} {x : Except Failure α} {a : α} :
    s.attempt x = .ok a ↔ x = .ok a := by
  cases x with
  | error e => exact ⟨fun h => (by cases h), fun h => (by cases h)⟩
  | ok b => exact ⟨fun h => congrArg Except.ok (Except.ok.inj h), fun h => congrArg Except.ok (Except.ok.inj h)⟩

/-- Characters so far. -/
def Locals.characters (s : Locals) : Nat := s.parsed.text.length + s.parsed.reasoning.length

/-- What the parts of a frame add, and the frames of it. -/
def onParsed (s : Locals) (p : Parsed) : Locals :=
  let s := if p.reasoning = [] then s
    else { s with parsed.reasoning := s.parsed.reasoning ++ p.reasoning }.send (.reasoning p.reasoning)
  let s := if p.text = [] then s
    else { s with parsed.text := s.parsed.text ++ p.text }.send (.text p.text none)
  let s := { s with parsed.remembered := s.parsed.remembered ++ p.remembered }
  p.calls.foldl (fun s call =>
    { s with parsed.calls := s.parsed.calls ++ [call] }.send
      (.toolCalls [⟨s.parsed.calls.length, some call.id, some ⟨some call.name, some call.arguments⟩⟩])) s

/-- The candidate of a frame. -/
def onCandidate (hex : Nat → Text) (s : Locals) (found : Json) : Except Raised Locals := do
  let candidate ← s.attempt (firstCandidate found)
  let parts ← s.attempt (partsOf candidate)
  let parsed ← s.attempt (readParts E dumps (fun i => hex (s.parsed.calls.length + i)) parts)
  let s := onParsed { s with lastCandidate := candidate } parsed
  if (candidate.get "finishReason").truthy then
    return { s with finishRaw := candidate.get "finishReason", finished := true }
  else return s

/-- A frame that was parsed, and is a dict. -/
def onEvent (hex : Nat → Text) (s : Locals) (event : Obj) : Except Raised Locals :=
  match event.get "error" with
  | .obj error =>
      s.fail (.cli (q.scrub ("Gemini's stream failed (".toList ++ E.str (Obj.get error "status") ++
        "): ".toList ++ E.str (Obj.get error "message"))) (asInt (Obj.get error "code")))
  | _ =>
      let s := if isDict (event.get "usageMetadata") then
        { s with usageRaw := event.get "usageMetadata" } else s
      if (event.get "candidates").truthy then onCandidate E dumps hex s (event.get "candidates")
      else
        match blockedPrompt E event with
        | some blocked => s.fail blocked
        | none => .ok s

/-- Whether the stall clock runs out before a line comes. -/
def stalls (armed : Bool) (waited : ℚ) : Prop :=
  armed ∧ 0 < q.stallSeconds ∧ q.stallSeconds < waited

instance (armed : Bool) (waited : ℚ) : Decidable (stalls q armed waited) :=
  inferInstanceAs (Decidable (_ ∧ _))

/-- The document of a line. -/
def lineData (line : Text) : Option Text :=
  if ¬ "data:".toList.isPrefixOf line then none
  else if strip (line.drop 5) = [] ∨ strip (line.drop 5) = "[DONE]".toList then none
  else some (strip (line.drop 5))

/-- One line that came. -/
def onLine (hex : Nat → Text) (now : ℚ) (line : Text) (s : Locals) : Except Raised Locals :=
  if q.report ∧ ":".toList.isPrefixOf line then
    if keepaliveProgressSeconds ≤ now - s.lastKeepalive then
      .ok ({ s with lastKeepalive := now }.send (.progress { stage := .working }))
    else .ok s
  else
    match lineData line with
    | none => .ok s
    | some data =>
        let s := { s with sawFirst := true }
        match E.loads data with
        | .malformed => .ok s
        | .escapes => s.fail .uncaught
        | .value (.obj event) => onEvent E dumps q hex s event
        | .value _ => .ok s

/-- The loop over the lines. -/
def readLines (hex : Nat → Text) (s : Locals) : List Arrival → Except Raised Locals
  | [] => .ok s
  | .timeout :: _ => s.fail .timedOut
  | .broken said :: _ => s.fail (.cli (q.scrub ("Gemini failed the stream: ".toList ++ said)) none)
  | .line waited now text :: rest =>
      if stalls q s.sawFirst waited then
        if s.finished then .ok s else s.fail (.stalled s.characters)
      else do
        let s ← onLine E dumps q hex now text s
        readLines hex s rest

/-- What follows the loop. -/
def finish (s : Locals) : Except Raised (List Chunk) :=
  if ¬ s.finished then
    s.fail (.cli ("Gemini's stream ended without a finishReason after ".toList ++
      (toString s.characters).toList ++
      " characters: the backend closed the connection mid-answer".toList) none)
  else do
    let reason ← s.attempt (finishOf E s.finishRaw (s.parsed.calls ≠ []))
    let s := if reason = .contentFilter ∧ s.parsed.text = [] ∧ s.parsed.calls = [] then
      s.send (.text (refusalNote E s.lastCandidate) none) else s
    let result ← s.attempt (resultOf E q s.parsed s.lastCandidate reason s.usageRaw)
    return s.sent ++ [.done result]

/-- Once the response is open. -/
def opened : Locals := if q.report then ({} : Locals).send (.progress { stage := .working }) else {}

/-- `stream`, once the response is open; a `CliError` of the loop is
explained when it names a signature. -/
def stream (hex : Nat → Text) (arrivals : List Arrival) : Except Raised (List Chunk) :=
  match readLines E dumps q hex (opened q) arrivals with
  | .error raised => .error { raised with failure := explainSignatureRefusal U raised.failure q.unsigned }
  | .ok s => finish E q s

end InferenceDriver.Gemini

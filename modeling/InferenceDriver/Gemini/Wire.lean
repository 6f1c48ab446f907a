/-
# `Gemini.Wire` — what is read off Google's wire

The readers of `_gemini_wire.py` that an answer goes through: the finish
reason, a blocked prompt, the usage, and the parts of a candidate.
-/
import InferenceDriver.OpenAi.Wire

namespace InferenceDriver.Gemini

open Checks OpenAi

variable (E : Env) (U : Ucd)

/-! ## Finish reasons -/

def brokenCall : List Text :=
  ["MALFORMED_FUNCTION_CALL".toList, "UNEXPECTED_TOOL_CALL".toList, "TOO_MANY_TOOL_CALLS".toList]

/-- The reasons `_FINISH` has a content filter for. -/
def filtered : List Text :=
  ["SAFETY".toList, "RECITATION".toList, "BLOCKLIST".toList, "PROHIBITED_CONTENT".toList,
    "SPII".toList, "IMAGE_SAFETY".toList, "IMAGE_PROHIBITED_CONTENT".toList, "LANGUAGE".toList]

/-- `_FINISH.get(name, FinishReason.stop)`. -/
def finishNamed (name : Text) : FinishReason :=
  if name = "MAX_TOKENS".toList then .length
  else if name ∈ filtered then .contentFilter
  else .stop

/-- `str(reason or "STOP")`. -/
def reasonName (reason : Json) : Text := if reason.truthy then E.str reason else "STOP".toList

/-- `finish_of`. -/
def finishOf (reason : Json) (called : Bool) : Except Failure FinishReason :=
  if reasonName E reason ∈ brokenCall then
    .error (.cli ("Gemini could not form the tool call it tried to make (finishReason=".toList ++
      reasonName E reason ++ ("); the answer is not usable. Try again or simplify the tool's " ++
        "schema.").toList) none)
  else
    let found := finishNamed (reasonName E reason)
    .ok (if called ∧ found = .stop then .toolCalls else found)

/-- The text of a value that is a string with something in it. -/
def words (v : Json) : Option Text :=
  match v with
  | .str [] => none
  | .str s => some s
  | _ => none

/-- `refusal_note`. -/
def refusalNote (candidate : Obj) : Text :=
  "[Gemini stopped this answer: finishReason=".toList ++ E.str (candidate.get "finishReason") ++
    match words (candidate.get "finishMessage") with
    | some message => " (".toList ++ message ++ ")]".toList
    | none => "]".toList

/-- `blocked_prompt`. -/
def blockedPrompt (body : Obj) : Option Failure :=
  match body.get "promptFeedback" with
  | .obj feedback =>
      if (Obj.get feedback "blockReason").truthy then
        some (.cli ("Gemini blocked the prompt (blockReason=".toList ++
          E.str (Obj.get feedback "blockReason") ++
          (match words (Obj.get feedback "blockReasonMessage") with
            | some message => ": ".toList ++ message
            | none => []) ++
          "). Nothing was answered; rephrase the request.".toList) (some 400))
      else none
  | _ => none

/-- `usage_of`. -/
def usageOf (raw : Json) : Option Usage :=
  match raw with
  | .obj o =>
      let whole (key : String) := asCount (Obj.get o key)
      if o = [] ∨ (whole "promptTokenCount").isNone ∧ (whole "candidatesTokenCount").isNone then none
      else
        let prompt := (whole "promptTokenCount").getD 0 + (whole "toolUsePromptTokenCount").getD 0
        let thoughts := whole "thoughtsTokenCount"
        let completion := (whole "candidatesTokenCount").getD 0 + thoughts.getD 0
        some { promptTokens := some prompt, completionTokens := some completion,
               totalTokens := some ((whole "totalTokenCount").getD (prompt + completion)),
               cachedPromptTokens := whole "cachedContentTokenCount", reasoningTokens := thoughts }
  | _ => none

/-! ## Parts -/

/-- A call the signature cache is told to remember. -/
structure RememberedCall where
  name : Text
  signature : Option Text
  /-- Google itself gave the call an id. -/
  googleId : Bool

structure Parsed where
  text : Text := []
  reasoning : Text := []
  calls : List ToolCall := []
  images : List Obj := []
  audio : List Obj := []
  /-- What `cache.remember` was called with. -/
  remembered : List (Text × RememberedCall) := []

def isDict (v : Json) : Bool :=
  match v with
  | .obj _ => true
  | _ => false

/-- The call of a part; `dumps` is `json.dumps`. -/
def Parsed.call (dumps : Json → Text) (hex : Nat → Text) (out : Parsed) (part call : Obj) :
    Except Failure Parsed := do
  let given := call.get "id"
  let id := if given.truthy then some (E.str given) else none
  let name := E.str (call.get "name")
  let args := call.get "args"
  let made ← toolCall E (hex out.calls.length) id name
    (dumps (if isDict args then args else .obj []))
  return { out with
    calls := out.calls ++ [made]
    remembered := out.remembered ++ [(made.id,
      { name, signature := words (part.get "thoughtSignature"), googleId := given.truthy })] }

/-- One part. -/
def readPart (dumps : Json → Text) (hex : Nat → Text) (out : Parsed) (part : Json) :
    Except Failure Parsed :=
  match part with
  | .obj part =>
      let call := dictOf (Obj.get part "functionCall")
      let heard := dictOf (Obj.get part "audioTranscription")
      let inline := dictOf (Obj.get part "inlineData")
      if (call.get "name").truthy then out.call E dumps hex part call
      else
        match heard.get "text" with
        | .str said => .ok { out with text := out.text ++ said }
        | _ =>
            if (inline.get "data").truthy then
              .ok (if "audio/".toList.isPrefixOf (E.orEmpty (inline.get "mimeType")) then
                { out with audio := out.audio ++ [inline] }
              else { out with images := out.images ++ [inline] })
            else
              match words (Obj.get part "text"), Obj.get part "thought" with
              | none, _ => .ok out
              | some text, .bool true => .ok { out with reasoning := out.reasoning ++ text }
              | some text, _ => .ok { out with text := out.text ++ text }
  | _ => .ok out

/-- `read_parts`. -/
def readParts (dumps : Json → Text) (hex : Nat → Text) (parts : Json) : Except Failure Parsed :=
  match parts with
  | .arr parts => parts.foldlM (readPart E dumps hex) {}
  | _ => .ok {}

/-! ## Signatures -/

/-- `_SIGNATURE_REFUSAL.search`: `thought[ _]?signature`, in any case. -/
def namesSignature (text : Text) : Bool :=
  (Words.findBy U.foldMatch "thoughtsignature".toList text).isSome ||
    (Words.findBy U.foldMatch "thought signature".toList text).isSome ||
    (Words.findBy U.foldMatch "thought_signature".toList text).isSome

def missingSignatureWords : Text :=
  ("This conversation's tool call was made before the driver restarted (or more than " ++
    "24 hours ago); Gemini needs its thought signature, which this driver kept only in " ++
    "memory, and refused the turn without it. Start the conversation again, or send the " ++
    "tool result to a model that does not need signatures.").toList

/-- `explain_signature_refusal`. -/
def explainSignatureRefusal (failure : Failure) (replayedUnsigned : Bool) : Failure :=
  match failure with
  | .cli message (some 400) =>
      if replayedUnsigned ∧ namesSignature U message then
        .cli (missingSignatureWords ++ " Google said: ".toList ++ message.take 300) (some 400)
      else failure
  | failure => failure

end InferenceDriver.Gemini

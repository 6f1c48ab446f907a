/-
# `SystemOne.Decide` — one decision, from the request to its answers

`SystemOneHttpEngine.decide` sends the questions and hands on what the
backend answered, or raises.  `decide_settles` says when it keeps to that:
which bodies it answers or refuses with a `CliError`, and which raise what
nobody catches or pass with something nobody asked for.
-/
import InferenceDriver.SystemOne.Answer

namespace InferenceDriver.SystemOne

open OpenAi Checks

/-- `_model_id` and `_upstream_model_id`. -/
structure Setup where
  modelId : Option Text
  upstreamModelId : Option Text

/-- What the post comes to. -/
inductive Reply where
  /-- `ConnectError` or `ConnectTimeout`, and its `repr`. -/
  | unreachable (said : Text)
  | timedOut
  /-- Any other `httpx.HTTPError`. -/
  | broken (said : Text)
  | answered (status : Int) (text : Text)

structure DecisionResponse where
  answers : List (Text × Answer)
  modelId : Option Text
  reportedModel : Option Text
  usage : Option Usage

variable (L : Lib) (E : Env) (q : Setup)

/-- `d[name]`. -/
def item (o : Obj) (name : Text) : Json := ((o.find? fun f => f.1 = name).map (·.2)).getD .null

def cliError (message : Text) : Failure := .cli message none

/-- An answer that has no problem and is one for the contract's model. -/
def validatedAnswer (name : Text) (question : Question) (answer : Json) : Except Failure Answer := do
  match ← answerProblem L question answer with
  | some problem =>
      .error (cliError ("systemone_http backend answer for ".toList ++ L.repr (.str name) ++
        " is malformed: ".toList ++ problem))
  | none => require (validate L E answer) .uncaught

/-- The names of the one that the other lacks. -/
def lacking (names others : List Text) : List Text := names.filter fun name => name ∉ others

/-- `_validated_answers(questions, body)`. -/
def validatedAnswers (questions : List (Text × Question)) (body : Obj) : Except Failure (List (Text × Answer)) :=
  match body.get "answers" with
  | .obj raw =>
      let missing := lacking (questions.map (·.1)) (raw.map (·.1))
      let extra := lacking (raw.map (·.1)) (questions.map (·.1))
      if missing ≠ [] then
        .error (cliError ("systemone_http backend left questions unanswered: ".toList ++ listed missing))
      else if extra ≠ [] then
        .error (cliError ("systemone_http backend answered questions nobody asked: ".toList ++ listed extra))
      else questions.mapM fun e => (e.1, ·) <$> validatedAnswer L E e.1 e.2 (item raw e.1)
  | _ => .error (cliError "systemone_http backend answered without an `answers` object".toList)

/-- An `int` that is no `bool`. -/
def intOf (v : Json) : Option Int :=
  match v with
  | .int n => some n
  | _ => none

/-- A count of the contract's model, `ge=0`. -/
def countOf (n : Option Int) : Option (Option Nat) :=
  match n with
  | none => some none
  | some n => if 0 ≤ n then some (some n.toNat) else none

/-- `_usage_from(usage)`. -/
def usageFrom (usage : Obj) : Except Failure (Option Usage) :=
  let prompt := intOf (usage.get "input_tokens")
  let completion := intOf (usage.get "output_tokens")
  if prompt.isNone ∧ completion.isNone then .ok none
  else do
    let promptTokens ← require (countOf prompt) .uncaught
    let completionTokens ← require (countOf completion) .uncaught
    let totalTokens ← require (countOf (some (prompt.getD 0 + completion.getD 0))) .uncaught
    return some { promptTokens, completionTokens, totalTokens, cachedPromptTokens := none, reasoningTokens := none }

/-- `_public_model_id(reported)`. -/
def publicModelId (reported : Json) : Option Text :=
  if (q.modelId.getD []) ≠ [] ∧ q.upstreamModelId ≠ q.modelId then q.modelId
  else if reported.truthy then some (E.str reported)
  else q.modelId

/-- `str(body["model"]) if body.get("model") else None`. -/
def reported (model : Json) : Option Text := if model.truthy then some (E.str model) else none

/-- The response that the answers and the rest of the body make. -/
def responded (body : Obj) (answers : List (Text × Answer)) : Except Failure DecisionResponse := do
  let usage ← dictOrEmpty (body.get "usage") >>= usageFrom
  let model := body.get "model"
  let modelId := publicModelId E q model
  let reportedModel := reported E model
  if E.holdsAll modelId && E.holdsAll reportedModel then return { answers, modelId, reportedModel, usage }
  else .error .uncaught

/-- What is made of the body of an answer. -/
def decided (questions : List (Text × Question)) (body : Json) : Except Failure DecisionResponse := do
  let body ← asDict body
  validatedAnswers L E questions body >>= responded E q body

/-- The violations of the protocol by the questions of a request. -/
def violations (questions : List (Text × Question)) : List Text :=
  validateQuestions L (.obj (questions.map fun e => (e.1, e.2.dump)))

/-- `decide(request)`. -/
def decide (questions : List (Text × Question)) (reply : Reply) : Except Failure DecisionResponse :=
  if violations L questions ≠ [] then
    .error (.cli ("decision request violates the pinned protocol: ".toList ++
      "; ".toList.intercalate (violations L questions)) (some 400))
  else
    match reply with
    | .unreachable said => .error (cliError ("systemone_http could not connect: ".toList ++ said))
    | .timedOut => .error .timedOut
    | .broken said => .error (cliError ("systemone_http request failed: ".toList ++ said))
    | .answered status text =>
        if 400 ≤ status then
          .error (.cli ("systemone_http returned ".toList ++ (toString status).toList ++ ": ".toList ++ text.take 500)
            (some status))
        else
          match E.loads text with
          | .malformed => .error (cliError "systemone_http returned non-JSON".toList)
          | .escapes => .error .uncaught
          | .value body => decided L E q questions body

/-! ## What a reply comes to -/

/-- The counts of an object are not negative. -/
def usageOk (usage : Json) : Bool :=
  !usage.truthy ||
    match usage with
    | .obj o => (intOf (Obj.get o "input_tokens")).all (0 ≤ ·) && (intOf (Obj.get o "output_tokens")).all (0 ≤ ·)
    | _ => false

end InferenceDriver.SystemOne

/-
# `OpenAi.Body` — a whole answer is what its body says

`_generate` as one function of the body of the response: the message of its
first choice, the calls it makes or its text makes when a tool is forced,
and which bodies raise instead.
-/
import InferenceDriver.OpenAi.Completion
import InferenceDriver.OpenAi.Generate

namespace InferenceDriver.OpenAi

open Checks Thinking

variable (E : Env) (U : Ucd) (q : Setup)

/-! ## The parts of a body -/

/-- The first choice. -/
def choiceOf (body : Json) : Obj :=
  match Obj.get (dictOf body) "choices" with
  | .arr (first :: _) => dictOf first
  | _ => []

/-- The message of the first choice. -/
def messageOf (body : Json) : Obj := dictOf ((choiceOf body).get "message")

/-- The call an item makes, when it names a tool. -/
def namedCall (item : Json) : Option Obj :=
  match item with
  | .obj o => if ((dictOf (Obj.get o "function")).get "name").truthy then some o else none
  | _ => none

/-- The items of `tool_calls` that name a tool. -/
def namedCalls (raw : Json) : List Obj :=
  match raw with
  | .arr items => items.filterMap namedCall
  | _ => []

/-- The id a call came with. -/
def givenId (call : Obj) : Option Text :=
  if (call.get "id").truthy then some (E.str (call.get "id")) else none

/-- The contract's model takes the call. -/
def namedOk (call : Obj) : Bool :=
  let fn := dictOf (call.get "function")
  E.holdsAll (givenId E call) && E.holds (E.str (fn.get "name")) && E.holds (E.orEmpty (fn.get "arguments"))

/-- The finish reason, if it is a string. -/
def reasonText (finish : Json) : Text := (asText finish).getD []

/-- The text that is read as a call: that of a forced tool, when the backend
has made no call itself. -/
def readAsCall (body : Json) : Option Text :=
  if q.forced.isSome ∧ namedCalls ((messageOf body).get "tool_calls") = [] then
    asText ((messageOf body).get "content")
  else none

/-- The text of the answer is a call. -/
def textIsCall (body : Json) : Bool :=
  (readAsCall q body).any (isCall E (reasonText ((choiceOf body).get "finish_reason")))

/-- The text of the answer, unless a call was made of it. -/
def textOf (body : Json) : Option Text :=
  if textIsCall E q body then none
  else (asText ((messageOf body).get "content")).map fun text =>
    if q.off then stripThinkingBlocks U text else text

/-! ## What a body comes to -/

def choicesVerdict (choices : Json) : Verdict :=
  if choices.truthy then
    match choices with
    | .arr (first :: _) => .must (objectOk first)
    | _ => .escapes
  else .fails

/-- The text that is read as a call can be parsed. -/
def readOk (body : Json) : Bool :=
  (readAsCall q body).all (callOk E (reasonText ((choiceOf body).get "finish_reason")))

/-- There is something to answer. -/
def answered (body : Json) : Bool :=
  isText ((messageOf body).get "content") || namedCalls ((messageOf body).get "tool_calls") ≠ [] ||
    (reasoningOf (messageOf body)).isSome

variable {E U q}

theorem toolCall_spec (hex : Text) (id : Option Text) (name arguments : Text) :
    stepVerdict (toolCall E hex id name arguments) =
        .must (E.holdsAll id && E.holds name && E.holds arguments) ∧
      ∀ call, toolCall E hex id name arguments = .ok call →
        call = { id := id.getD (newCallId hex), name, arguments } := by
  unfold toolCall
  constructor
  · cases E.holdsAll id with
    | false => rfl
    | true =>
        cases E.holds name with
        | false => rfl
        | true => cases E.holds arguments <;> rfl
  · intro call hc
    split at hc
    · exact (Except.ok.inj hc).symm
    · cases hc

theorem callFromWire_spec (hex : Text) (item : Json) :
    stepVerdict (callFromWire E hex item) = .must ((namedCall item).all (namedOk E)) ∧
      ∀ call, callFromWire E hex item = .ok call → call = (namedCall item).map fun o =>
        { id := (givenId E o).getD (newCallId hex)
          name := E.str ((dictOf (o.get "function")).get "name")
          arguments := E.orEmpty ((dictOf (o.get "function")).get "arguments") } := by
  cases item with
  | obj o =>
      unfold callFromWire namedCall
      simp only
      split
      · obtain ⟨hv, hok⟩ := toolCall_spec (E := E) hex (givenId E o)
          (E.str ((dictOf (Obj.get o "function")).get "name"))
          (E.orEmpty ((dictOf (Obj.get o "function")).get "arguments"))
        refine ⟨stepVerdict_map.trans hv, fun call hc => ?_⟩
        rw [map_eq_ok] at hc
        obtain ⟨made, hm, rfl⟩ := hc
        exact congrArg some (hok made hm)
      · exact ⟨rfl, fun call hc => by cases hc; rfl⟩
  | null => exact ⟨rfl, fun call hc => by cases hc; rfl⟩
  | bool b => exact ⟨rfl, fun call hc => by cases hc; rfl⟩
  | int n => exact ⟨rfl, fun call hc => by cases hc; rfl⟩
  | float x => exact ⟨rfl, fun call hc => by cases hc; rfl⟩
  | str s => exact ⟨rfl, fun call hc => by cases hc; rfl⟩
  | arr items => exact ⟨rfl, fun call hc => by cases hc; rfl⟩

/-- The call made of an item that names a tool; an id of its own when it came
with none. -/
structure Makes (E : Env) (o : Obj) (call : ToolCall) : Prop where
  id : ∀ id, givenId E o = some id → call.id = id
  name : call.name = E.str ((dictOf (o.get "function")).get "name")
  arguments : call.arguments = E.orEmpty ((dictOf (o.get "function")).get "arguments")

theorem makes_callsFrom (hex : Nat → Text) (items : List Json) (position : Nat) {calls : List ToolCall}
    (h : callsFrom E hex items position = .ok calls) :
    List.Forall₂ (Makes E) (items.filterMap namedCall) calls := by
  induction items generalizing position calls with
  | nil =>
      cases h
      exact .nil
  | cons item rest ih =>
      simp only [callsFrom, bind_eq_ok, pure_eq_ok] at h
      obtain ⟨call, hc, later, hl, rfl⟩ := h
      cases (callFromWire_spec (hex position) item).2 call hc
      rw [List.filterMap_cons]
      cases namedCall item with
      | none => exact ih _ hl
      | some o => exact .cons ⟨fun id hid => congrArg (·.getD (newCallId (hex position))) hid, rfl, rfl⟩ (ih _ hl)

theorem makes_callsFromWire {hex : Nat → Text} {raw : Json} {calls : List ToolCall}
    (h : toolCallsFromWire E hex raw = .ok calls) : List.Forall₂ (Makes E) (namedCalls raw) calls := by
  cases raw with
  | arr items => exact makes_callsFrom hex items 0 h
  | null => cases h; exact .nil
  | bool b => cases h; exact .nil
  | int n => cases h; exact .nil
  | float x => cases h; exact .nil
  | str s => cases h; exact .nil
  | obj fields => cases h; exact .nil

theorem isStr_reasonText (finish : Json) :
    (Json.str (reasonText finish)).isStr "length".toList = finish.isStr "length".toList := by
  cases finish with
  | str s => rfl
  | null => rfl
  | bool b => rfl
  | int n => rfl
  | float x => rfl
  | arr items => rfl
  | obj fields => rfl

theorem forcedCall_reasonText (hex tool text : Text) (finish : Json) :
    forcedCall E hex tool (.str text) finish =
      forcedCall E hex tool (.str text) (.str (reasonText finish)) := by
  unfold forcedCall
  simp only
  rw [isStr_reasonText]

/-- The call that is made of the text, if any. -/
theorem forcedOf_spec (hex : Text) (body : Json) {calls : List ToolCall}
    (hc : calls = [] ↔ namedCalls ((messageOf body).get "tool_calls") = []) :
    stepVerdict (forcedOf E q hex calls ((messageOf body).get "content")
        ((choiceOf body).get "finish_reason")) = .must (readOk E q body) ∧
      ∀ made, forcedOf E q hex calls ((messageOf body).get "content")
          ((choiceOf body).get "finish_reason") = .ok made →
        made = if textIsCall E q body then
          some { id := newCallId hex, name := q.forced.getD []
                 arguments := strip ((asText ((messageOf body).get "content")).getD []) } else none := by
  unfold forcedOf readOk textIsCall readAsCall
  cases q.forced with
  | none => exact ⟨rfl, fun made hm => by cases hm; rfl⟩
  | some tool =>
      simp only [Option.isSome_some, true_and]
      by_cases hn : namedCalls ((messageOf body).get "tool_calls") = []
      · rw [if_pos hn, if_pos (hc.mpr hn)]
        generalize (messageOf body).get "content" = content
        cases content with
        | str text =>
            rw [forcedCall_reasonText]
            exact ⟨stepVerdict_forcedCall hex tool text _, fun made hm => forcedCall_eq_ok hm⟩
        | null => exact ⟨rfl, fun made hm => by cases hm; rfl⟩
        | bool b => exact ⟨rfl, fun made hm => by cases hm; rfl⟩
        | int n => exact ⟨rfl, fun made hm => by cases hm; rfl⟩
        | float x => exact ⟨rfl, fun made hm => by cases hm; rfl⟩
        | arr items => exact ⟨rfl, fun made hm => by cases hm; rfl⟩
        | obj fields => exact ⟨rfl, fun made hm => by cases hm; rfl⟩
      · rw [if_neg hn, if_neg (mt hc.mp hn)]
        exact ⟨rfl, fun made hm => by cases hm; rfl⟩

/-- The first choice of a list that has one. -/
theorem firstChoice_spec (b : Obj) :
    stepVerdict (firstChoice b) = choicesVerdict (b.get "choices") ∧
      ∀ first, firstChoice b = .ok first → first = choiceOf (.obj b) := by
  unfold firstChoice choicesVerdict choiceOf
  simp only [dictOf]
  generalize b.get "choices" = v
  split
  · cases v with
    | arr items =>
        cases items with
        | nil => exact ⟨rfl, fun first hf => (by cases hf)⟩
        | cons item rest =>
            exact ⟨stepVerdict_dictOrEmpty item, fun first hf => (dictOf_of_ok hf).symm⟩
    | null => exact ⟨rfl, fun first hf => (by cases hf)⟩
    | bool b => exact ⟨rfl, fun first hf => (by cases hf)⟩
    | int n => exact ⟨rfl, fun first hf => (by cases hf)⟩
    | float x => exact ⟨rfl, fun first hf => (by cases hf)⟩
    | str s => exact ⟨rfl, fun first hf => (by cases hf)⟩
    | obj fields => exact ⟨rfl, fun first hf => (by cases hf)⟩
  · exact ⟨rfl, fun first hf => (by cases hf)⟩

/-- A call is made of text only. -/
theorem isText_of_textIsCall {body : Json} (h : textIsCall E q body = true) :
    isText ((messageOf body).get "content") = true := by
  unfold textIsCall readAsCall at h
  split at h
  · cases hc : (messageOf body).get "content" with
    | str s => rfl
    | null => rw [hc] at h; cases h
    | bool b => rw [hc] at h; cases h
    | int n => rw [hc] at h; cases h
    | float x => rw [hc] at h; cases h
    | arr items => rw [hc] at h; cases h
    | obj fields => rw [hc] at h; cases h
  · cases h

/-- Of an answer with no text, there is something else or it fails. -/
theorem other_spec {other named : Bool} (ho : other = named) :
    stepVerdict (if other then .ok none
      else .error (.cli "openai_compat_http response missing string content".toList none) :
        Except Failure (Option Text)) = (if false || named then .fine else .fails) ∧
      ∀ content, (if other then .ok none
        else .error (.cli "openai_compat_http response missing string content".toList none) :
          Except Failure (Option Text)) = .ok content → content = none := by
  rw [ho]
  cases named with
  | true => exact ⟨rfl, fun content hc => (Except.ok.inj hc).symm⟩
  | false => exact ⟨rfl, fun content hc => (by cases hc)⟩

/-- The content of the answer, once the calls are known. -/
theorem contentOf_spec (body : Json) (call : ToolCall) {other : Bool}
    (ho : other = (textIsCall E q body || decide (namedCalls ((messageOf body).get "tool_calls") ≠ []) ||
      (reasoningOf (messageOf body)).isSome)) :
    stepVerdict (contentOf U q ((if textIsCall E q body then some call else none).elim
        ((messageOf body).get "content") fun _ => .null) other) =
        (if answered body then .fine else .fails) ∧
      ∀ content, contentOf U q ((if textIsCall E q body then some call else none).elim
        ((messageOf body).get "content") fun _ => .null) other = .ok content →
          content = textOf E U q body := by
  unfold textOf answered
  cases ht : textIsCall E q body with
  | true =>
      rw [ht, Bool.true_or, Bool.true_or] at ho
      rw [ho, isText_of_textIsCall ht]
      exact ⟨rfl, fun content hc => by cases hc; rfl⟩
  | false =>
      rw [ht, Bool.false_or] at ho
      simp only [Bool.false_eq_true, if_false, Option.elim_none]
      cases hc : (messageOf body).get "content" with
      | str text => exact ⟨rfl, fun content hc => by cases hc; rfl⟩
      | null => exact other_spec ho
      | bool b => exact other_spec ho
      | int n => exact other_spec ho
      | float x => exact other_spec ho
      | arr items => exact other_spec ho
      | obj fields => exact other_spec ho

/-! ## The answer -/

/-- What the result of a whole answer carries. -/
structure Tells (E : Env) (U : Ucd) (q : Setup) (hex : Nat → Text) (body : Json)
    (r : GenerateResponse) : Prop where
  content : r.content = textOf E U q body
  reasoning : r.reasoning = if q.off then none else reasoningOf (messageOf body)
  toolCalls : if textIsCall E q body then
      r.toolCalls = [{ id := newCallId (hex 0), name := q.forced.getD []
                       arguments := strip ((asText ((messageOf body).get "content")).getD []) }]
    else List.Forall₂ (Makes E) (namedCalls ((messageOf body).get "tool_calls")) r.toolCalls
  finishReason : r.finishReason =
    if (stopSequence (choiceOf body) q.stop).isSome then .stopSequence
    else if textIsCall E q body then .toolCalls
    else if ((choiceOf body).get "finish_reason").truthy then
      finishReasonOf (E.str ((choiceOf body).get "finish_reason"))
    else .stop
  stopSequence : r.stopSequence = stopSequence (choiceOf body) q.stop
  usage : usageFromEnvelope E (Obj.get (dictOf body) "usage") = .ok r.usage

/-- The answer of a message, once its calls are read: the second half of
`chatAnswer`. -/
def answerOf (E : Env) (U : Ucd) (q : Setup) (b first message : Obj) (wired : List ToolCall)
    (made : Option ToolCall) : Except Failure GenerateResponse := do
  let reasoning := reasoningOf message
  let toolCalls := made.elim wired fun call => [call]
  let finish := made.elim (first.get "finish_reason") fun _ => .str "tool_calls".toList
  let content ← contentOf U q (made.elim (message.get "content") fun _ => .null)
    (toolCalls ≠ [] ∨ reasoning.isSome)
  let stop := OpenAi.stopSequence first q.stop
  let usage ← usageFromEnvelope E (b.get "usage")
  checked E {
    content
    audio := none
    logprobs := logprobsOf E (first.get "logprobs")
    annotations := annotationsOf E (Obj.get (dictOf (first.get "message")) "annotations")
    reasoning := if q.off then none else reasoning
    toolCalls
    finishReason :=
      if stop.isSome then .stopSequence
      else finishReasonOf (if finish.truthy then E.str finish else "stop".toList)
    stopSequence := stop
    usage
    modelId := some (publicModelId E (b.get "model") q.target) }

theorem chatAnswer_obj (hex : Nat → Text) (b : Obj) : chatAnswer E U q hex (.obj b) = (do
    let first ← firstChoice b
    let message ← dictOrEmpty (first.get "message")
    let wired ← toolCallsFromWire E hex (message.get "tool_calls")
    let made ← forcedOf E q (hex 0) wired (message.get "content") (first.get "finish_reason")
    answerOf E U q b first message wired made) := rfl

/-- The call that `forcedOf` makes. -/
def madeOf (E : Env) (q : Setup) (hex : Nat → Text) (body : Json) : Option ToolCall :=
  if textIsCall E q body then
    some { id := newCallId (hex 0), name := q.forced.getD []
           arguments := strip ((asText ((messageOf body).get "content")).getD []) } else none

/-- There is something besides the text. -/
theorem other_of_made (hex : Nat → Text) (body : Json) {wired : List ToolCall}
    (hw : wired = [] ↔ namedCalls ((messageOf body).get "tool_calls") = []) :
    decide ((madeOf E q hex body).elim wired (fun call => [call]) ≠ [] ∨
        (reasoningOf (messageOf body)).isSome = true) =
      (textIsCall E q body || decide (namedCalls ((messageOf body).get "tool_calls") ≠ []) ||
        (reasoningOf (messageOf body)).isSome) := by
  unfold madeOf
  cases textIsCall E q body with
  | true => rfl
  | false =>
      rw [if_neg Bool.false_ne_true, Option.elim_none, Bool.decide_or, Bool.false_or, Bool.decide_eq_true,
        decide_eq_decide.mpr (not_congr hw)]

/-- What is read as calls is none exactly when no tool is named. -/
theorem calls_nil_iff {hex : Nat → Text} {raw : Json} {wired : List ToolCall}
    (hw : toolCallsFromWire E hex raw = .ok wired) : wired = [] ↔ namedCalls raw = [] := by
  have h := makes_callsFromWire hw
  constructor
  · rintro rfl
    exact List.forall₂_nil_right_iff.mp h
  · intro hn
    rw [hn] at h
    exact List.forall₂_nil_left_iff.mp h

theorem tells_answerOf {hex : Nat → Text} {b : Obj} {wired : List ToolCall} {r : GenerateResponse}
    (hw : toolCallsFromWire E hex ((messageOf (.obj b)).get "tool_calls") = .ok wired)
    (h : answerOf E U q b (choiceOf (.obj b)) (messageOf (.obj b)) wired (madeOf E q hex (.obj b)) =
      .ok r) : Tells E U q hex (.obj b) r := by
  unfold answerOf at h
  simp only [bind_eq_ok, checked_eq_ok] at h
  obtain ⟨content, hc, usage, hu, rfl, -⟩ := h
  refine ⟨?_, rfl, ?_, ?_, rfl, hu⟩
  · exact (contentOf_spec (.obj b) _ (other_of_made hex (.obj b) (calls_nil_iff hw))).2 content hc
  · unfold madeOf
    cases textIsCall E q (.obj b) with
    | true => rfl
    | false => exact makes_callsFromWire hw
  · unfold madeOf
    simp only
    split
    · rfl
    · cases textIsCall E q (.obj b) with
      | true => rfl
      | false =>
          rw [if_neg Bool.false_ne_true, if_neg Bool.false_ne_true, Option.elim_none]
          split
          · rfl
          · rfl

/-- **A whole answer tells what its body says.** -/
theorem chatAnswer_tells {hex : Nat → Text} {body : Json} {r : GenerateResponse}
    (h : chatAnswer E U q hex body = .ok r) : Tells E U q hex body r := by
  cases body with
  | obj b =>
      rw [chatAnswer_obj] at h
      simp only [bind_eq_ok] at h
      obtain ⟨first, hf, message, hm, wired, hw, made, hd, h⟩ := h
      cases (firstChoice_spec b).2 first hf
      have hm : messageOf (.obj b) = message := dictOf_of_ok hm
      rw [← hm] at hw hd h
      cases (forcedOf_spec (hex 0) (.obj b) (calls_nil_iff hw)).2 made hd
      exact tells_answerOf hw h
  | null => cases h
  | bool b => cases h
  | int n => cases h
  | float x => cases h
  | str s => cases h
  | arr items => cases h

end InferenceDriver.OpenAi

/-
# `OpenAi.Agree` — a stream and a whole answer of one message

A backend's message can come whole, as the body of a response, or in
deltas.  `Delivers` is that the deltas of a stream, put together, are the
message of a body; `same_iff` is exactly when the two paths of the engine
make the same answer of it.

They always do as long as no tool is forced and thinking is not `off`.
Otherwise three things tell them apart: the filter of the stream and the
removal of blocks from a whole text, where `Thinking.Agree` says when these
agree; the text of a forced tool, which a stream drops beside calls of the
backend and shows as it came where a whole answer filters it; and a stop
string on a choice that gives no finish reason.
-/
import InferenceDriver.OpenAi.Body
import InferenceDriver.OpenAi.Calls
import InferenceDriver.OpenAi.Fold
import InferenceDriver.Thinking.Agree

namespace InferenceDriver.OpenAi

open Checks Thinking

/-! ## A message in deltas -/

/-- The text of the message, the empty one if it has none. -/
def textIn (body : Json) : Text := (asText ((messageOf body).get "content")).getD []

/-- The finish reason of the first choice. -/
def finishIn (body : Json) : Json := (choiceOf body).get "finish_reason"

/-- The calls of the message, named or not. -/
def itemsIn (body : Json) : List Obj := fragmentsOf ((messageOf body).get "tool_calls")

/-- The name a call is made under. -/
def nameOf (call : Obj) : Json := (dictOf (call.get "function")).get "name"

/-- The fragments of a call add up to it. -/
structure Delivered (E : Env) (call : Obj) (p : Part) : Prop where
  given : ∀ id, givenId E call = some id → p.id = id ∧ id ≠ []
  unnumbered : givenId E call = none → p.id = []
  named : (nameOf call).truthy = true ↔ p.name ≠ []
  name : (nameOf call).truthy = true → p.name = E.str (nameOf call)
  arguments : p.arguments = E.orEmpty ((dictOf (call.get "function")).get "arguments")

/-- The last choice of the stream gives the finish reason of the message. -/
def Closes (body : Json) (closing : Option Obj) : Prop :=
  if (finishIn body).truthy then
    (∃ reason, finishIn body = .str reason) ∧
      ∃ choice, closing = some choice ∧ choice.get "finish_reason" = finishIn body ∧
        choice.get "stop_reason" = (choiceOf body).get "stop_reason"
  else closing = none

/-- What was said adds up to the message of the body. -/
structure Delivers (E : Env) (body : Json) (a : Said) : Prop where
  text : ∃ pieces : List Text, a.contents = pieces.map .str ∧ pieces.flatten = textIn body
  reasoning : a.thoughts = (reasoningOf (messageOf body)).getD []
  calls : List.Forall₂ (Delivered E) (itemsIn body) (inOrder a.calls)
  closes : Closes body a.closing
  usage : a.usage = if (Obj.get (dictOf body) "usage").truthy then Obj.get (dictOf body) "usage" else .obj []

/-! ## The same answer -/

/-- The same call; one id that the driver made up is as good as another. -/
structure SameCall (c c' : ToolCall) : Prop where
  id : c.id = c'.id ∨ (∃ hex, c.id = newCallId hex) ∧ ∃ hex, c'.id = newCallId hex
  name : c.name = c'.name
  arguments : c.arguments = c'.arguments

/-- The same answer, but for outer whitespace of the text. -/
structure SameAnswer (r r' : GenerateResponse) : Prop where
  content : strip (r.content.getD []) = strip (r'.content.getD [])
  reasoning : r.reasoning = r'.reasoning
  toolCalls : List.Forall₂ SameCall r.toolCalls r'.toolCalls
  finishReason : r.finishReason = r'.finishReason
  stopSequence : r.stopSequence = r'.stopSequence
  usage : r.usage = r'.usage

variable (E : Env) (U : Ucd) (q : Setup)

/-- What the agreement on the text and the calls rests on, for a text that
comes in these pieces. -/
def TextAgrees (body : Json) (pieces : List Text) : Prop :=
  match q.forced with
  | none => q.off = true → strip (streamed U pieces) = stripThinkingBlocks U pieces.flatten
  | some tool =>
      if itemsIn body ≠ [] then
        textIsCall E q body = false ∧ strip ((textOf E U q body).getD []) = []
      else if textIsCall E q body = true then tool ≠ []
      else q.off = true → hasTag U (textIn body) = false

/-- A stop string needs a finish reason to come with. -/
def StopAgrees (body : Json) : Prop :=
  (finishIn body).truthy = true ∨ stopSequence (choiceOf body) q.stop = none

variable {E U q}

/-! ## Ids -/

/-- A call that comes with no id gets one. -/
theorem unnumbered_callsFrom (hex : Nat → Text) (items : List Json) (position : Nat)
    {calls : List ToolCall} (h : callsFrom E hex items position = .ok calls) :
    List.Forall₂ (fun o c => givenId E o = none → ∃ h, c.id = newCallId h)
      (items.filterMap namedCall) calls := by
  induction items generalizing position calls with
  | nil =>
      cases h
      exact .nil
  | cons item rest ih =>
      simp only [callsFrom, bind_eq_ok, pure_eq_ok] at h
      obtain ⟨call, hc, later, hl, rfl⟩ := h
      cases (callFromWire_spec (hex position) item).2 call hc
      rw [List.filterMap_cons]
      cases namedCall item with
      | none => exact ih _ hl
      | some o =>
          refine .cons (fun hid => ⟨hex position, ?_⟩) (ih _ hl)
          exact congrArg (·.getD (newCallId (hex position))) hid

theorem unnumbered_callsFromWire {hex : Nat → Text} {raw : Json} {calls : List ToolCall}
    (h : toolCallsFromWire E hex raw = .ok calls) :
    List.Forall₂ (fun o c => givenId E o = none → ∃ h, c.id = newCallId h) (namedCalls raw) calls := by
  cases raw with
  | arr items => exact unnumbered_callsFrom hex items 0 h
  | null => cases h; exact .nil
  | bool b => cases h; exact .nil
  | int n => cases h; exact .nil
  | float x => cases h; exact .nil
  | str s => cases h; exact .nil
  | obj fields => cases h; exact .nil

/-- The calls of a whole answer that are not made of its text. -/
theorem unnumbered_chatAnswer {hex : Nat → Text} {body : Json} {r : GenerateResponse}
    (h : chatAnswer E U q hex body = .ok r) (ht : textIsCall E q body = false) :
    List.Forall₂ (fun o c => givenId E o = none → ∃ h, c.id = newCallId h)
      (namedCalls ((messageOf body).get "tool_calls")) r.toolCalls := by
  cases body with
  | obj b =>
      rw [chatAnswer_obj] at h
      simp only [bind_eq_ok] at h
      obtain ⟨first, hf, message, hm, wired, hw, made, hd, h⟩ := h
      cases (firstChoice_spec b).2 first hf
      have hm : messageOf (.obj b) = message := dictOf_of_ok hm
      rw [← hm] at hw hd h
      cases (forcedOf_spec (hex 0) (.obj b) (calls_nil_iff hw)).2 made hd
      rw [ht, if_neg Bool.false_ne_true] at h
      unfold answerOf at h
      simp only [bind_eq_ok, checked_eq_ok] at h
      obtain ⟨content, -, usage, -, rfl, -⟩ := h
      exact unnumbered_callsFromWire hw
  | null => cases h
  | bool b => cases h
  | int n => cases h
  | float x => cases h
  | str s => cases h
  | arr items => cases h

/-! ## What was delivered -/

theorem namedCalls_eq (raw : Json) :
    namedCalls raw = (fragmentsOf raw).filter fun call => (nameOf call).truthy := by
  cases raw with
  | arr items =>
      unfold namedCalls fragmentsOf
      simp only
      rw [List.filter_filterMap]
      refine congrArg (List.filterMap · items) (funext fun item => ?_)
      cases item with
      | obj o =>
          rw [Option.filter_some]
          rfl
      | null => rfl
      | bool b => rfl
      | int n => rfl
      | float x => rfl
      | str s => rfl
      | arr items => rfl
  | null => rfl
  | bool b => rfl
  | int n => rfl
  | float x => rfl
  | str s => rfl
  | obj fields => rfl

theorem reasoningOf_ne {o : Obj} {t : Text} (h : reasoningOf o = some t) : t ≠ [] := by
  unfold reasoningOf at h
  split at h
  · cases h
    exact List.cons_ne_nil _ _
  · cases h
    exact List.cons_ne_nil _ _
  · cases h

theorem not_isCall_nil (finish : Text) : isCall E finish [] = false := by
  rw [isCall, E.loads_nil, Bool.and_false]

section Delivery
variable {body : Json} {a : Said}

theorem Delivers.texts (h : Delivers E body a) : a.texts.flatten = textIn body := by
  obtain ⟨pieces, hc, ht⟩ := h.text
  rw [Said.texts, hc, filterMap_str, ht]

/-- No call is delivered when there is none. -/
theorem Delivers.no_calls (h : Delivers E body a) : a.calls.items.isEmpty = true ↔ itemsIn body = [] := by
  have hlength := h.calls.length_eq
  rw [inOrder, List.length_map, List.length_insertionSort] at hlength
  rw [List.isEmpty_iff, ← List.length_eq_zero_iff, ← hlength, List.length_eq_zero_iff]

/-- The answer ran out of budget for both readers, or for neither. -/
theorem Delivers.cutOff (h : Delivers E body a) :
    a.finishReason E = "length".toList ↔ reasonText (finishIn body) = "length".toList := by
  have hc := h.closes
  unfold Closes at hc
  split at hc
  · obtain ⟨⟨reason, hr⟩, choice, hs, hf, -⟩ := hc
    rw [Said.finishReason, hs, Option.elim_some, hf, hr]
    rfl
  · rename_i hno
    rw [Said.finishReason, hc, Option.elim_none]
    constructor
    · intro h
      exact absurd h (by decide)
    · intro h
      cases hf : finishIn body with
      | str s =>
          rw [hf] at h hno
          cases show s = "length".toList from h
          exact absurd rfl hno
      | null => rw [hf] at h; cases h
      | bool b => rw [hf] at h; cases h
      | int n => rw [hf] at h; cases h
      | float x => rw [hf] at h; cases h
      | arr items => rw [hf] at h; cases h
      | obj fields => rw [hf] at h; cases h

theorem Delivers.isCall (h : Delivers E body a) (text : Text) :
    isCall E (a.finishReason E) text = isCall E (reasonText (finishIn body)) text := by
  unfold OpenAi.isCall
  rw [decide_eq_decide.mpr (not_congr h.cutOff)]

/-- With no calls, the text is read as a call by both. -/
theorem Delivers.makesCall (h : Delivers E body a) (hi : itemsIn body = []) :
    a.makesCall E q = textIsCall E q body := by
  have hn : namedCalls ((messageOf body).get "tool_calls") = [] := by
    rw [namedCalls_eq]
    exact (congrArg (List.filter _) hi).trans List.filter_nil
  unfold Said.makesCall Said.looksAtText textIsCall readAsCall
  rw [h.no_calls.mpr hi, h.isCall, h.texts, Bool.and_true]
  cases hf : q.forced with
  | none => rfl
  | some tool =>
      rw [Option.isSome_some, Bool.true_and, if_pos ⟨rfl, hn⟩]
      have hcall : OpenAi.isCall E (reasonText (finishIn body)) (textIn body) =
          (asText ((messageOf body).get "content")).any
            (OpenAi.isCall E (reasonText ((choiceOf body).get "finish_reason"))) := by
        rw [textIn]
        cases asText ((messageOf body).get "content") with
        | none => exact not_isCall_nil _
        | some text => rfl
      rw [← hcall]
      by_cases hc : a.contents = []
      · have hnil : textIn body = [] := by rw [← h.texts, Said.texts, hc]; rfl
        rw [hnil, not_isCall_nil, Bool.and_false]
      · rw [decide_eq_true hc, Bool.true_and]

theorem Delivers.not_makesCall (h : Delivers E body a) (hi : itemsIn body ≠ []) :
    a.looksAtText q = false := by
  unfold Said.looksAtText
  rw [Bool.eq_false_iff.mpr (mt h.no_calls.mp hi), Bool.and_false]

/-- The text a stream shows when a tool is forced and nothing else calls. -/
theorem Delivers.held (h : Delivers E body a) {tool : Text} (hf : q.forced = some tool)
    (hi : itemsIn body = []) :
    a.shown E U q = if textIsCall E q body then [] else textIn body := by
  unfold Said.shown
  rw [hf]
  simp only [h.makesCall hi, h.texts]
  cases ht : textIsCall E q body with
  | true => rw [Bool.not_true, Bool.and_false, if_neg Bool.false_ne_true, if_pos rfl]
  | false =>
      rw [Bool.not_false, Bool.and_true, if_neg Bool.false_ne_true]
      split
      · rfl
      · rename_i hl
        have hc : a.contents = [] := by
          by_contra hc
          refine hl ?_
          unfold Said.looksAtText
          rw [hf, h.no_calls.mpr hi, decide_eq_true hc]
          rfl
        rw [← h.texts, Said.texts, hc]
        rfl

end Delivery

/-! ## The calls -/

/-- A part is the call of the terminal frame; one with no id has got one. -/
theorem numbered_finishToolCalls (hex : Nat → Text) (parts : Dict Int Part) :
    List.Forall₂ (fun p c => Matches p c ∧ (p.id = [] → ∃ h, c.id = newCallId h))
      ((inOrder parts).filter fun p => p.name ≠ []) (finishToolCalls hex parts) := by
  refine (finishToolCalls_matches hex parts).mp (fun _ _ hm hn => ⟨hm, hn⟩) ?_
  rw [finishToolCalls, List.forall₂_iff_get]
  refine ⟨List.length_mapIdx.symm, fun i h₁ h₂ hid => ⟨hex i, ?_⟩⟩
  rw [List.get_eq_getElem, List.getElem_mapIdx]
  exact if_pos hid

theorem SameCall.of_delivered {call : Obj} {p : Part} {c c' : ToolCall}
    (hc : Makes E call c ∧ (givenId E call = none → ∃ h, c.id = newCallId h)) (hd : Delivered E call p)
    (hn : (nameOf call).truthy = true)
    (hp : Matches p c' ∧ (p.id = [] → ∃ h, c'.id = newCallId h)) : SameCall c c' := by
  obtain ⟨hm, hnew⟩ := hc
  obtain ⟨⟨hname, harguments, hid⟩, hnew'⟩ := hp
  refine ⟨?_, ?_, ?_⟩
  · cases hg : givenId E call with
    | none => exact .inr ⟨hnew hg, hnew' (hd.unnumbered hg)⟩
    | some id =>
        obtain ⟨hpid, hne⟩ := hd.given id hg
        exact .inl ((hm.id id hg).trans (hpid ▸ hid (hpid ▸ hne)).symm)
  · rw [hm.name, hname, hd.name hn]
    rfl
  · rw [hm.arguments, harguments, hd.arguments]

theorem sameCalls {calls : List Obj} {parts : List Part} {made made' : List ToolCall}
    (hm : List.Forall₂ (fun o c => Makes E o c ∧ (givenId E o = none → ∃ h, c.id = newCallId h)) calls made)
    (hd : List.Forall₂ (fun o p => Delivered E o p ∧ (nameOf o).truthy = true) calls parts)
    (hp : List.Forall₂ (fun p c => Matches p c ∧ (p.id = [] → ∃ h, c.id = newCallId h)) parts made') :
    List.Forall₂ SameCall made made' := by
  induction hm generalizing parts made' with
  | nil =>
      cases hd
      cases hp
      exact .nil
  | cons hc _ ih =>
      cases hd with
      | cons hd hds =>
          cases hp with
          | cons hp hps => exact .cons (.of_delivered hc hd.1 hd.2 hp) (ih hds hps)

/-- The calls that have a name, of those that were delivered. -/
theorem delivered_named {calls : List Obj} {parts : List Part}
    (h : List.Forall₂ (Delivered E) calls parts) :
    List.Forall₂ (fun o p => Delivered E o p ∧ (nameOf o).truthy = true)
      (calls.filter fun o => (nameOf o).truthy) (parts.filter fun p => p.name ≠ []) := by
  induction h with
  | nil => exact .nil
  | @cons o p calls parts hd _ ih =>
      by_cases hn : (nameOf o).truthy = true
      · rw [List.filter_cons_of_pos (p := fun o : Obj => (nameOf o).truthy) hn,
          List.filter_cons_of_pos (p := fun p : Part => decide (p.name ≠ [])) (decide_eq_true (hd.named.mp hn))]
        exact .cons ⟨hd, hn⟩ ih
      · rw [List.filter_cons_of_neg (p := fun o : Obj => (nameOf o).truthy) hn,
          List.filter_cons_of_neg (p := fun p : Part => decide (p.name ≠ []))
            fun hp => hn (hd.named.mpr (of_decide_eq_true hp))]
        exact ih

/-! ## The two answers -/

section Answers
variable {body : Json} {a : Said} {hex hex' : Nat → Text} {r r' : GenerateResponse}

/-- The stop string of the stream. -/
theorem Delivers.stopSequence (h : Delivers E body a) :
    a.stopSequence q = if (finishIn body).truthy then OpenAi.stopSequence (choiceOf body) q.stop else none := by
  have hc := h.closes
  unfold Closes at hc
  unfold Said.stopSequence
  split at hc
  · rename_i ht
    obtain ⟨-, choice, hs, -, hr⟩ := hc
    rw [if_pos ht, hs, Option.bind_some, OpenAi.stopSequence, OpenAi.stopSequence, hr]
  · rename_i ht
    rw [if_neg ht, hc]
    rfl

theorem Delivers.stopAgrees (h : Delivers E body a) :
    a.stopSequence q = OpenAi.stopSequence (choiceOf body) q.stop ↔ StopAgrees q body := by
  rw [h.stopSequence, StopAgrees]
  by_cases ht : (finishIn body).truthy = true
  · rw [if_pos ht]
    exact ⟨fun _ => .inl ht, fun _ => rfl⟩
  · rw [if_neg ht]
    exact ⟨fun hs => .inr hs.symm, fun hs => (hs.resolve_left ht).symm⟩

/-- The finish reason of the stream, when the text is a call to both or to
neither. -/
theorem Delivers.finished (h : Delivers E body a) (hr : Tells E U q hex body r) (hs : StopAgrees q body)
    (hm : a.makesCall E q = textIsCall E q body) : a.finished E q = r.finishReason := by
  have hc := h.closes
  unfold Said.finished
  rw [hr.finishReason, h.stopAgrees.mpr hs, hm]
  split
  · rfl
  · split
    · rfl
    · unfold Closes at hc
      split at hc
      · rename_i ht
        obtain ⟨-, choice, hs, hf, -⟩ := hc
        rw [Said.finishReason, hs, Option.elim_some, hf]
        exact (if_pos ht).symm
      · rename_i ht
        rw [Said.finishReason, hc, Option.elim_none]
        exact (if_neg ht).symm

/-- What agrees in any case. -/
theorem Delivers.apart (h : Delivers E body a) (hr : Tells E U q hex body r)
    (hr' : Answers E U q hex' a r') : r.reasoning = r'.reasoning ∧ r.usage = r'.usage := by
  constructor
  · rw [hr.reasoning, hr'.reasoning, h.reasoning]
    cases q.off with
    | true => rfl
    | false =>
        cases ho : reasoningOf (messageOf body) with
        | none => rfl
        | some t =>
            rw [Option.getD_some, if_neg Bool.false_ne_true,
              if_neg (not_or.mpr ⟨Bool.false_ne_true, reasoningOf_ne ho⟩)]
  · have hu := hr.usage
    have hu' := hr'.usage
    rw [h.usage] at hu'
    split at hu'
    · exact Except.ok.inj (hu.symm.trans hu')
    · rename_i hf
      rw [usageFromEnvelope, if_neg hf] at hu
      exact Except.ok.inj (hu.symm.trans hu')

/-- The calls agree where the text makes none. -/
theorem Delivers.calls_agree (h : Delivers E body a) (hb : chatAnswer E U q hex body = .ok r)
    (hr' : Answers E U q hex' a r') (ht : textIsCall E q body = false) (hm : a.makesCall E q = false) :
    List.Forall₂ SameCall r.toolCalls r'.toolCalls := by
  have hmakes := (chatAnswer_tells hb).toolCalls
  rw [ht, if_neg Bool.false_ne_true] at hmakes
  rw [hr'.toolCalls, Said.toolCalls, Said.parts, hm, if_neg Bool.false_ne_true]
  have hd := delivered_named h.calls
  rw [itemsIn, ← namedCalls_eq] at hd
  exact sameCalls (hmakes.mp (fun _ _ hc hn => ⟨hc, hn⟩) (unnumbered_chatAnswer hb ht)) hd
    (numbered_finishToolCalls hex' a.calls)

theorem stripThinkingBlocks_idem (text : Text) :
    strip (stripThinkingBlocks U text) = stripThinkingBlocks U text :=
  Words.strip_idem _ _

/-- The text of a whole answer that is no call. -/
theorem textOf_getD (ht : textIsCall E q body = false) :
    (textOf E U q body).getD [] = if q.off then stripThinkingBlocks U (textIn body) else textIn body := by
  rw [textOf, ht, if_neg Bool.false_ne_true, textIn]
  cases asText ((messageOf body).get "content") with
  | some text => rfl
  | none =>
      cases q.off with
      | true => rfl
      | false => rfl

theorem textOf_call (ht : textIsCall E q body = true) : textOf E U q body = none := by
  rw [textOf, ht, if_pos rfl]

theorem not_textIsCall_unforced (hf : q.forced = none) : textIsCall E q body = false := by
  rw [textIsCall, readAsCall, hf]
  rfl

theorem not_makesCall_unforced (hf : q.forced = none) : a.makesCall E q = false := by
  rw [Said.makesCall, Said.looksAtText, hf]
  rfl

/-- The text is not read as a call beside one that has a name. -/
theorem no_names_of_textIsCall (ht : textIsCall E q body = true) :
    namedCalls ((messageOf body).get "tool_calls") = [] := by
  by_contra hn
  rw [textIsCall, readAsCall, if_neg fun h => hn h.2] at ht
  cases ht

/-- A call made of the text, on the two sides. -/
theorem call_agrees {tool : Text} (hr : Tells E U q hex body r) (hr' : Answers E U q hex' a r')
    (h : Delivers E body a) (hf : q.forced = some tool) (ht : textIsCall E q body = true)
    (hm : a.makesCall E q = true) : List.Forall₂ SameCall r.toolCalls r'.toolCalls ↔ tool ≠ [] := by
  have hcall := hr.toolCalls
  rw [ht, if_pos rfl, hf, Option.getD_some] at hcall
  have hparts : a.parts E q (hex' 0) =
      Dict.empty.set 0 { id := newCallId (hex' 0), name := tool, arguments := strip (textIn body) } := by
    rw [Said.parts, hm, if_pos rfl, hf, Option.getD_some, h.texts]
  rw [hcall, hr'.toolCalls, Said.toolCalls, hparts]
  constructor
  · rintro hsame rfl
    cases hsame
  · intro hne
    have hmade : finishToolCalls hex' (Dict.empty.set 0
        { id := newCallId (hex' 0), name := tool, arguments := strip (textIn body) }) =
        [{ id := newCallId (hex' 0), name := tool, arguments := strip (textIn body) }] := by
      show List.mapIdx _ (List.filter _ [_]) = _
      rw [List.filter_cons_of_pos (p := fun p : Part => decide (p.name ≠ [])) (decide_eq_true hne)]
      rfl
    rw [hmade]
    exact .cons ⟨.inr ⟨⟨_, rfl⟩, _, rfl⟩, rfl, rfl⟩ .nil

/-- The text agrees with no forced tool. -/
theorem Delivers.unforced (h : Delivers E body a) (hr : Tells E U q hex body r)
    (hr' : Answers E U q hex' a r') (hf : q.forced = none) :
    strip (r.content.getD []) = strip (r'.content.getD []) ↔
      (q.off = true → strip (streamed U a.texts) = stripThinkingBlocks U a.texts.flatten) := by
  rw [hr.content, hr'.content, textOf_getD (not_textIsCall_unforced hf), Said.shown, hf, h.texts]
  cases q.off with
  | true =>
      simp only [if_true, forall_const]
      rw [stripThinkingBlocks_idem]
      exact eq_comm
  | false => exact ⟨fun _ ho => absurd ho Bool.false_ne_true, fun _ => rfl⟩

/-- The text agrees beside calls of the backend if there is none. -/
theorem Delivers.beside (h : Delivers E body a) (hr : Tells E U q hex body r)
    (hr' : Answers E U q hex' a r') {tool : Text} (hf : q.forced = some tool) (hi : itemsIn body ≠ []) :
    strip (r.content.getD []) = strip (r'.content.getD []) ↔ strip ((textOf E U q body).getD []) = [] := by
  have hnil : a.shown E U q = [] := by
    rw [Said.shown, hf]
    simp only [h.not_makesCall hi, Bool.false_and, Bool.false_eq_true, if_false]
  rw [hr.content, hr'.content, hnil]
  rfl

/-- Held text that is no call agrees if it has no tag. -/
theorem Delivers.alone (h : Delivers E body a) (hr : Tells E U q hex body r)
    (hr' : Answers E U q hex' a r') {tool : Text} (hf : q.forced = some tool) (hi : itemsIn body = [])
    (ht : textIsCall E q body = false) :
    strip (r.content.getD []) = strip (r'.content.getD []) ↔ (q.off = true → hasTag U (textIn body) = false) := by
  rw [hr.content, hr'.content, textOf_getD ht, h.held hf hi, ht, if_neg Bool.false_ne_true]
  cases q.off with
  | true =>
      simp only [if_true, forall_const]
      rw [stripThinkingBlocks_idem, ← strip_eq_iff]
      exact eq_comm
  | false => exact ⟨fun _ ho => absurd ho Bool.false_ne_true, fun _ => rfl⟩

/-- The two answers agree exactly when the text, the calls and the stop
string do. -/
theorem Delivers.same_iff (h : Delivers E body a) (hb : chatAnswer E U q hex body = .ok r)
    (hr' : Answers E U q hex' a r') : SameAnswer r r' ↔ TextAgrees E U q body a.texts ∧ StopAgrees q body := by
  have hr := chatAnswer_tells hb
  have hstop : r.stopSequence = r'.stopSequence ↔ StopAgrees q body := by
    rw [hr.stopSequence, hr'.stopSequence, eq_comm]
    exact h.stopAgrees
  obtain ⟨hreasoning, husage⟩ := h.apart hr hr'
  have hfinish : StopAgrees q body → a.makesCall E q = textIsCall E q body →
      r.finishReason = r'.finishReason := fun hs hm => by
    rw [hr'.finishReason]
    exact (h.finished hr hs hm).symm
  unfold TextAgrees
  cases hf : q.forced with
  | none =>
      have ht : textIsCall E q body = false := not_textIsCall_unforced hf
      have hm : a.makesCall E q = false := not_makesCall_unforced hf
      constructor
      · intro hsame
        exact ⟨(h.unforced hr hr' hf).mp hsame.content, hstop.mp hsame.stopSequence⟩
      · rintro ⟨htext, hs⟩
        exact ⟨(h.unforced hr hr' hf).mpr htext, hreasoning, h.calls_agree hb hr' ht hm,
          hfinish hs (hm.trans ht.symm), hstop.mpr hs, husage⟩
  | some tool =>
      simp only
      split
      · rename_i hi
        have hm : a.makesCall E q = false := by rw [Said.makesCall, h.not_makesCall hi, Bool.false_and]
        constructor
        · intro hsame
          refine ⟨⟨?_, (h.beside hr hr' hf hi).mp hsame.content⟩, hstop.mp hsame.stopSequence⟩
          cases ht : textIsCall E q body with
          | false => rfl
          | true =>
              have hcall := hr.toolCalls
              have hd := delivered_named h.calls
              rw [itemsIn, ← namedCalls_eq, no_names_of_textIsCall ht, List.forall₂_nil_left_iff] at hd
              have hlength := hsame.toolCalls.length_eq
              rw [ht, if_pos rfl] at hcall
              rw [hcall, hr'.toolCalls, Said.toolCalls, Said.parts, hm, if_neg Bool.false_ne_true,
                finishToolCalls, hd] at hlength
              cases hlength
        · rintro ⟨⟨ht, htext⟩, hs⟩
          exact ⟨(h.beside hr hr' hf hi).mpr htext, hreasoning, h.calls_agree hb hr' ht hm,
            hfinish hs (hm.trans ht.symm), hstop.mpr hs, husage⟩
      · rename_i hi
        have hi : itemsIn body = [] := not_not.mp hi
        have hm : a.makesCall E q = textIsCall E q body := h.makesCall hi
        split
        · rename_i ht
          have hcontent : strip (r.content.getD []) = strip (r'.content.getD []) := by
            rw [hr.content, hr'.content, textOf_call ht, h.held hf hi, if_pos ht]
            rfl
          constructor
          · intro hsame
            exact ⟨(call_agrees hr hr' h hf ht (hm.trans ht)).mp hsame.toolCalls, hstop.mp hsame.stopSequence⟩
          · rintro ⟨htool, hs⟩
            exact ⟨hcontent, hreasoning, (call_agrees hr hr' h hf ht (hm.trans ht)).mpr htool,
              hfinish hs hm, hstop.mpr hs, husage⟩
        · rename_i ht
          have ht : textIsCall E q body = false := Bool.eq_false_iff.mpr ht
          constructor
          · intro hsame
            exact ⟨(h.alone hr hr' hf hi ht).mp hsame.content, hstop.mp hsame.stopSequence⟩
          · rintro ⟨htext, hs⟩
            exact ⟨(h.alone hr hr' hf hi ht).mpr htext, hreasoning,
              h.calls_agree hb hr' ht (hm.trans ht), hfinish hs hm, hstop.mpr hs, husage⟩

/-- **The two paths make the same answer of a message exactly when the text
and the stop string agree**: of a message that comes whole, and of one whose
deltas add up to it in any stream that ends. -/
theorem stream_agrees {arrivals : List Arrival} {chunks : List Chunk}
    (hb : chatAnswer E U q hex body = .ok r) (hs : chatStream E U q hex' arrivals = .ok chunks)
    (hd : Delivers E body (said E q arrivals)) :
    ∃ frames r', chunks = frames ++ [.done r'] ∧
      (SameAnswer r r' ↔ TextAgrees E U q body (said E q arrivals).texts ∧ StopAgrees q body) := by
  obtain ⟨-, frames, r', hchunks, hr'⟩ := chatStream_answers hs
  exact ⟨frames, r', hchunks, hd.same_iff hb hr'⟩

end Answers

/-! ## One message both ways -/

/-- The body of the message that `fullCall` delivers. -/
def fullBody : Json :=
  .ofFields [("choices", .arr [.ofFields [
    ("message", .ofFields [("content", .ofString "on it"), ("tool_calls", .arr [.ofFields [
      ("id", .ofString "a"), ("function", .ofFields [("name", .ofString "f"), ("arguments", .ofString "1")])]])]),
    ("finish_reason", .ofString "stop")]])]

set_option maxRecDepth 20000 in
theorem delivers_fullCall :
    Delivers (.ofTable fullCall) fullBody (said (.ofTable fullCall) (.chat true none) (Env.arrivals fullCall)) where
  text := ⟨["on it".toList], rfl, rfl⟩
  reasoning := rfl
  calls := by
    refine .cons ⟨fun id hid => ?_, fun hid => ?_, ?_, fun _ => rfl, rfl⟩ .nil
    · cases hid
      exact ⟨rfl, by decide⟩
    · cases hid
    · exact ⟨fun _ => by decide, fun _ => rfl⟩
  closes := ⟨⟨_, rfl⟩, _, rfl, rfl, rfl⟩
  usage := rfl

theorem stream_agrees_fullCall :
    ∃ r frames r', chatAnswer (.ofTable fullCall) Ucd.basic (.chat true none) (fun _ => []) fullBody = .ok r ∧
      chatStream (.ofTable fullCall) Ucd.basic (.chat true none) (fun _ => []) (Env.arrivals fullCall) =
        .ok (frames ++ [.done r']) ∧ SameAnswer r r' := by
  obtain ⟨r, hb, -⟩ := passes_iff.mp (show passes (fun _ => true) (chatAnswer (.ofTable fullCall)
    Ucd.basic (.chat true none) (fun _ => []) fullBody) = true by decide)
  obtain ⟨chunks, hs, -⟩ := passes_iff.mp (show passes (fun _ => true) (chatStream (.ofTable fullCall)
    Ucd.basic (.chat true none) (fun _ => []) (Env.arrivals fullCall)) = true by decide +kernel)
  obtain ⟨frames, r', rfl, hsame⟩ := stream_agrees hb hs delivers_fullCall
  exact ⟨r, frames, r', hb, hs, hsame.mpr ⟨fun _ => by decide +kernel, .inl rfl⟩⟩

end InferenceDriver.OpenAi

/-
# `OpenAi.Order` — tool results, in the order of the calls they answer

A backend that matches results to calls by position is sent each run of
`tool` messages in the order of the calls that asked for them
(`_results_in_call_order`).  A result is known by its id.  A call without
one can have no result, and it is passed over when positions are counted,
but not when they are given out: the results that name no call are put at
the NUMBER of calls that have an id, which may be in front of the place of
a call that has one.

`results_in_order` is exactly when that does not show: no result that names
no call is put before one that does (`Placed`).
-/
import InferenceDriver.Gemini.Replay
import InferenceDriver.Lib.Keyed
import InferenceDriver.Py.Value

namespace InferenceDriver.OpenAi.Order

open Checks Keyed
open scoped List

/-! ## The messages on the wire -/

structure WireCall where
  id : Json
  name : Json
  arguments : Json

inductive WireMessage where
  | system (content : Json)
  | user (content : Json)
  /-- The reasoning, and the field it is sent in. -/
  | assistant (content : Json) (toolCalls : List WireCall) (reasoning : Option (Text × Text))
  | tool (content : Json) (toolCallId : Text)

instance : Inhabited WireMessage := ⟨.tool .null []⟩

namespace WireMessage

/-- `message.get("role") == "tool"`. -/
def isTool : WireMessage → Bool
  | tool _ _ => true
  | _ => false

/-- The calls of an assistant turn. -/
def toolCalls : WireMessage → List WireCall
  | assistant _ calls _ => calls
  | _ => []

theorem toolCalls_tool {m : WireMessage} (h : m.isTool = true) : m.toolCalls = [] := by
  cases m with
  | tool => rfl
  | _ => cases h

end WireMessage

/-- A message of a request, and the reasoning it was answered with. -/
structure Message extends Gemini.Replay.Message where
  reasoning : Option Text

/-- `value or ""`. -/
def orEmpty (v : Json) : Json := if v.truthy then v else .str []

/-- `_tool_call_to_wire`. -/
def toolCallToWire (call : Obj) : WireCall where
  id := orEmpty (call.get "id")
  name := orEmpty ((dictOf (call.get "function")).get "name")
  arguments := orEmpty ((dictOf (call.get "function")).get "arguments")

/-- One message of `_to_openai_messages`. -/
def toWire (sendReasoning : Bool) (reasoningKey : Text) (m : Message) : WireMessage :=
  match m.role with
  | .system => .system (orEmpty m.content)
  | .user => .user (orEmpty m.content)
  | .assistant =>
      .assistant m.content (m.toolCalls.map toolCallToWire)
        (match m.reasoning with
        | none | some [] => none
        | some reasoning => if sendReasoning then some (reasoningKey, reasoning) else none)
  | .tool => .tool (orEmpty m.content) (m.toolCallId.getD [])

/-! ## The order of the calls -/

/-- What may be the key of a dict. -/
def hashable : Json → Bool
  | .arr _ => false
  | .obj _ => false
  | _ => true

/-- The number a value is; a `bool` is one. -/
def numberOf : Json → Option PyFloat
  | .bool b => some (.fin (if b then 1 else 0))
  | .int n => some (.fin n)
  | .float x => some x
  | _ => none

/-- The two are one key: `1`, `1.0` and `True` are. -/
def sameKey (a b : Json) : Bool :=
  match a, b with
  | .null, .null => true
  | .str s, .str t => s = t
  | a, b =>
      match numberOf a, numberOf b with
      | some x, some y => Value.sameNumber x y
      | _, _ => false

/-- The calls' places, by their ids. -/
abbrev Position := List (Json × Nat)

/-- `position[id] = n`. -/
def put (position : Position) (id : Json) (n : Nat) : Position :=
  if position.any fun e => sameKey e.1 id then
    position.map fun e => if sameKey e.1 id then (e.1, n) else e
  else position ++ [(id, n)]

/-- The call has an id. -/
def WireCall.named (call : WireCall) : Bool := call.id.truthy

/-- The places of the calls from the `n`-th on; an id that can be no key is
a `TypeError`. -/
def positionFrom : Nat → List WireCall → Position → Except Failure Position
  | _, [], position => .ok position
  | n, call :: calls, position =>
      if call.named then
        if hashable call.id then positionFrom (n + 1) calls (put position call.id n) else .error .uncaught
      else positionFrom (n + 1) calls position

/-- `position.get(message.get("tool_call_id"), len(position))`. -/
def place (position : Position) (message : WireMessage) : Nat :=
  match message with
  | .tool _ id => ((position.find? fun e => e.1.isStr id).map (·.2)).getD position.length
  | _ => position.length

/-- `_results_in_call_order`. -/
def resultsInCallOrder : List WireMessage → Except Failure (List WireMessage)
  | [] => .ok []
  | message :: rest =>
      if message.toolCalls.isEmpty then do
        let out ← resultsInCallOrder rest
        return message :: out
      else do
        let position ← positionFrom 0 message.toolCalls []
        let out ← resultsInCallOrder (rest.dropWhile WireMessage.isTool)
        return message :: (sortBy (place position) (rest.takeWhile WireMessage.isTool) ++ out)
  termination_by wire => wire.length
  decreasing_by
    all_goals simp only [List.length_cons]
    · exact Nat.lt_succ_self _
    · exact Nat.lt_succ_of_le (List.dropWhile_sublist _).length_le

/-- `_to_openai_messages`. -/
def toOpenaiMessages (sendReasoning : Bool) (reasoningKey : Text) (inCallOrder : Bool) (messages : List Message) :
    Except Failure (List WireMessage) :=
  let out := messages.map (toWire sendReasoning reasoningKey)
  if inCallOrder then resultsInCallOrder out else .ok out

/-! ## Runs -/

/-- A run of tool messages that is not part of a longer one. -/
structure Run (wire before run after : List WireMessage) : Prop where
  whole : wire = before ++ (run ++ after)
  tools : ∀ m ∈ run, m.isTool = true
  opened : ∀ m ∈ before.getLast?, m.isTool = false
  closed : ∀ m ∈ after.head?, m.isTool = false

variable {wire before run after out : List WireMessage} {turn : WireMessage}

theorem takeWhile_append (h : ∀ m ∈ after.head?, m.isTool = false) (l : List WireMessage) :
    (l ++ after).takeWhile WireMessage.isTool = l.takeWhile WireMessage.isTool := by
  induction l with
  | nil =>
      cases after with
      | nil => rfl
      | cons m after =>
          rw [List.nil_append, List.takeWhile_cons_of_neg (by rw [h m rfl]; exact Bool.false_ne_true)]
          rfl
  | cons m l ih =>
      rw [List.cons_append, List.takeWhile_cons, List.takeWhile_cons, ih]

theorem dropWhile_append (h : ∀ m ∈ after.head?, m.isTool = false) (l : List WireMessage) :
    (l ++ after).dropWhile WireMessage.isTool = l.dropWhile WireMessage.isTool ++ after := by
  induction l with
  | nil =>
      cases after with
      | nil => rfl
      | cons m after =>
          rw [List.nil_append, List.dropWhile_cons_of_neg (by rw [h m rfl]; exact Bool.false_ne_true)]
          rfl
  | cons m l ih =>
      cases hm : m.isTool with
      | true => rw [List.cons_append, List.dropWhile_cons_of_pos hm, List.dropWhile_cons_of_pos hm, ih]
      | false =>
          have hneg : ¬ m.isTool = true := by rw [hm]; exact Bool.false_ne_true
          rw [List.cons_append, List.dropWhile_cons_of_neg hneg, List.dropWhile_cons_of_neg hneg]
          rfl

theorem order_nil : resultsInCallOrder [] = .ok [] := by
  rw [resultsInCallOrder]

theorem order_cons (turn : WireMessage) (rest : List WireMessage) :
    resultsInCallOrder (turn :: rest) =
      if turn.toolCalls.isEmpty then do
        let out ← resultsInCallOrder rest
        return turn :: out
      else do
        let position ← positionFrom 0 turn.toolCalls []
        let out ← resultsInCallOrder (rest.dropWhile WireMessage.isTool)
        return turn :: (sortBy (place position) (rest.takeWhile WireMessage.isTool) ++ out) := by
  rw [resultsInCallOrder]

theorem order_still (h : turn.toolCalls.isEmpty = true) (rest : List WireMessage) :
    resultsInCallOrder (turn :: rest) = (do
      let out ← resultsInCallOrder rest
      return turn :: out) := by
  rw [order_cons, if_pos h]

theorem order_calls (h : ¬ turn.toolCalls.isEmpty = true) (rest : List WireMessage) :
    resultsInCallOrder (turn :: rest) = (do
      let position ← positionFrom 0 turn.toolCalls []
      let out ← resultsInCallOrder (rest.dropWhile WireMessage.isTool)
      return turn :: (sortBy (place position) (rest.takeWhile WireMessage.isTool) ++ out)) := by
  rw [order_cons, if_neg h]

/-- What comes after a run is no result. -/
theorem dropWhile_closed (l : List WireMessage) : ∀ m ∈ (l.dropWhile WireMessage.isTool).head?, m.isTool = false := by
  induction l with
  | nil => exact fun m hm => (by cases hm)
  | cons x l ih =>
      cases hx : x.isTool with
      | true =>
          rw [List.dropWhile_cons_of_pos hx]
          exact ih
      | false =>
          rw [List.dropWhile_cons_of_neg (by rw [hx]; exact Bool.false_ne_true)]
          intro m hm
          cases hm
          exact hx

/-- What comes of the run after a turn. -/
def reordered (turn : WireMessage) (run : List WireMessage) : Except Failure (List WireMessage) :=
  if turn.toolCalls.isEmpty then .ok run
  else (fun position => sortBy (place position) run) <$> positionFrom 0 turn.toolCalls []

/-- Tool messages that come after no calls stay as they are. -/
theorem order_tools (h : ∀ m ∈ run, m.isTool = true) (after : List WireMessage) :
    resultsInCallOrder (run ++ after) = (run ++ ·) <$> resultsInCallOrder after := by
  induction run with
  | nil =>
      cases hafter : resultsInCallOrder after with
      | error e => exact hafter
      | ok out => exact hafter
  | cons m run ih =>
      obtain ⟨hm, hrun⟩ := List.forall_mem_cons.mp h
      rw [List.cons_append, order_still (by rw [WireMessage.toolCalls_tool hm]; rfl), ih hrun]
      cases resultsInCallOrder after with
      | error e => rfl
      | ok out => rfl

/-- A turn, its run and what comes after it. -/
theorem order_turn (h : ∀ m ∈ run, m.isTool = true) (hafter : ∀ m ∈ after.head?, m.isTool = false) :
    resultsInCallOrder (turn :: (run ++ after)) = (do
      let run' ← reordered turn run
      let after' ← resultsInCallOrder after
      return turn :: (run' ++ after')) := by
  rw [reordered]
  cases hcalls : turn.toolCalls.isEmpty with
  | true =>
      rw [order_still hcalls, if_pos rfl, order_tools h]
      cases resultsInCallOrder after with
      | error e => rfl
      | ok out => rfl
  | false =>
      rw [order_calls (by rw [hcalls]; exact Bool.false_ne_true), if_neg Bool.false_ne_true, takeWhile_append hafter,
        dropWhile_append hafter, List.takeWhile_eq_self_iff.mpr h, List.dropWhile_eq_nil_iff.mpr h, List.nil_append]
      cases positionFrom 0 turn.toolCalls [] with
      | error e => rfl
      | ok position => rfl

/-- What comes before a message that is no result is put in order for itself. -/
theorem order_append (hturn : turn.isTool = false) (before rest : List WireMessage) :
    resultsInCallOrder (before ++ turn :: rest) = (do
      let before' ← resultsInCallOrder before
      let rest' ← resultsInCallOrder (turn :: rest)
      return before' ++ rest') := by
  induction before using resultsInCallOrder.induct with
  | case1 =>
      rw [List.nil_append, order_nil]
      cases resultsInCallOrder (turn :: rest) with
      | error e => rfl
      | ok out => rfl
  | case2 m before hcalls ih =>
      rw [List.cons_append, order_still hcalls, order_still hcalls before, ih]
      cases resultsInCallOrder before with
      | error e => rfl
      | ok out =>
          cases resultsInCallOrder (turn :: rest) with
          | error e => rfl
          | ok out' => rfl
  | case3 m before hcalls ih =>
      have hhead : ∀ m ∈ (turn :: rest).head?, m.isTool = false := by
        intro m hm
        cases hm
        exact hturn
      rw [List.cons_append, order_calls hcalls, order_calls hcalls before, takeWhile_append hhead,
        dropWhile_append hhead, ih]
      cases positionFrom 0 m.toolCalls [] with
      | error e => rfl
      | ok position =>
          cases resultsInCallOrder (before.dropWhile WireMessage.isTool) with
          | error e => rfl
          | ok out =>
              cases resultsInCallOrder (turn :: rest) with
              | error e => rfl
              | ok out' =>
                  show Except.ok _ = Except.ok _
                  rw [List.cons_append, List.append_assoc]

/-- The first of what is put in order is what was first. -/
theorem order_head {rest : List WireMessage} (h : resultsInCallOrder (turn :: rest) = .ok out) :
    ∃ more, out = turn :: more := by
  cases hcalls : turn.toolCalls.isEmpty with
  | true =>
      rw [order_still hcalls, bind_eq_ok] at h
      obtain ⟨more, -, h⟩ := h
      exact ⟨more, (pure_eq_ok.mp h).symm⟩
  | false =>
      rw [order_calls (by rw [hcalls]; exact Bool.false_ne_true), bind_eq_ok] at h
      obtain ⟨position, -, h⟩ := h
      obtain ⟨more, -, h⟩ := bind_eq_ok.mp h
      exact ⟨_, (pure_eq_ok.mp h).symm⟩

/-- It starts with a result only where the wire did. -/
theorem order_closed (hafter : ∀ m ∈ after.head?, m.isTool = false) (h : resultsInCallOrder after = .ok out) :
    ∀ m ∈ out.head?, m.isTool = false := by
  cases after with
  | nil =>
      rw [order_nil] at h
      cases h
      exact fun m hm => (by cases hm)
  | cons m after =>
      obtain ⟨more, rfl⟩ := order_head h
      exact hafter

theorem reordered_perm {run' : List WireMessage} (h : reordered turn run = .ok run') : run'.Perm run := by
  rw [reordered] at h
  split at h
  · cases h
    exact List.Perm.refl _
  · obtain ⟨position, -, rfl⟩ := map_eq_ok.mp h
    exact sortBy_perm _ run

theorem order_perm (h : resultsInCallOrder wire = .ok out) : out.Perm wire := by
  induction wire using resultsInCallOrder.induct generalizing out with
  | case1 =>
      rw [order_nil] at h
      cases h
      exact List.Perm.refl _
  | case2 m rest hcalls ih =>
      rw [order_still hcalls, bind_eq_ok] at h
      obtain ⟨more, hmore, h⟩ := h
      cases pure_eq_ok.mp h
      exact (ih hmore).cons m
  | case3 m rest hcalls ih =>
      rw [order_calls hcalls, bind_eq_ok] at h
      obtain ⟨position, -, h⟩ := h
      obtain ⟨more, hmore, h⟩ := bind_eq_ok.mp h
      cases pure_eq_ok.mp h
      have hrun := (sortBy_perm (place position) (rest.takeWhile WireMessage.isTool)).append (ih hmore)
      rw [List.takeWhile_append_dropWhile] at hrun
      exact hrun.cons m

/-- Put in order again, it is as it was. -/
theorem order_again (h : resultsInCallOrder wire = .ok out) : resultsInCallOrder out = .ok out := by
  induction wire using resultsInCallOrder.induct generalizing out with
  | case1 =>
      rw [order_nil] at h
      cases h
      rw [order_nil]
  | case2 m rest hcalls ih =>
      rw [order_still hcalls, bind_eq_ok] at h
      obtain ⟨more, hmore, h⟩ := h
      cases pure_eq_ok.mp h
      rw [order_still hcalls, ih hmore]
      rfl
  | case3 m rest hcalls ih =>
      rw [order_calls hcalls, bind_eq_ok] at h
      obtain ⟨position, hposition, h⟩ := h
      obtain ⟨more, hmore, h⟩ := bind_eq_ok.mp h
      cases pure_eq_ok.mp h
      have htools : ∀ m ∈ sortBy (place position) (rest.takeWhile WireMessage.isTool), m.isTool = true := by
        intro m hm
        exact List.mem_takeWhile_imp (mem_sortBy.mp hm)
      rw [order_turn htools (order_closed (dropWhile_closed rest) hmore), reordered, if_neg hcalls, hposition, ih hmore]
      show Except.ok (m :: (sortBy (place position) (sortBy (place position) _) ++ more)) = _
      rw [sortBy_sortBy]

/-! ## Where the runs are -/

/-- The wire, taken apart at a run: what was in front of the run, the run,
and what came after it, each put in order. -/
theorem order_run (hrun : Run wire before run after) (h : resultsInCallOrder wire = .ok out) :
    ∃ before' run' after', out = before' ++ (run' ++ after') ∧ before'.length = before.length ∧
      run'.Perm run ∧ (∀ turn ∈ before.getLast?, reordered turn run = .ok run') ∧
      (before = [] → run' = run) := by
  have hwhole := hrun.whole
  rcases List.eq_nil_or_concat' before with hnil | ⟨front, turn, hbefore⟩
  · subst hnil
    rw [hwhole, List.nil_append, order_tools hrun.tools, map_eq_ok] at h
    obtain ⟨after', -, rfl⟩ := h
    exact ⟨[], run, after', rfl, rfl, List.Perm.refl _, fun turn ht => (by cases ht), fun _ => rfl⟩
  · subst hbefore
    have hlast : (front ++ [turn]).getLast? = some turn := List.getLast?_concat
    have hturn : turn.isTool = false := hrun.opened turn hlast
    rw [hwhole, List.append_assoc, List.singleton_append, order_append hturn, bind_eq_ok] at h
    obtain ⟨front', hfront, h⟩ := h
    obtain ⟨rest', hrest, h⟩ := bind_eq_ok.mp h
    cases pure_eq_ok.mp h
    rw [order_turn hrun.tools hrun.closed, bind_eq_ok] at hrest
    obtain ⟨run', hrun', hrest⟩ := hrest
    obtain ⟨after', -, hrest⟩ := bind_eq_ok.mp hrest
    cases pure_eq_ok.mp hrest
    refine ⟨front' ++ [turn], run', after', ?_, ?_, reordered_perm hrun', ?_, ?_⟩
    · rw [List.append_assoc, List.singleton_append]
    · rw [List.length_append, List.length_append, (order_perm hfront).length_eq]
    · intro turn' ht
      cases hlast.symm.trans ht
      exact hrun'
    · intro hnil
      exact absurd hnil (List.append_ne_nil_of_right_ne_nil _ (List.cons_ne_nil _ _))

/-- A message that is no result keeps its position. -/
theorem order_other (h : resultsInCallOrder wire = .ok out) {i : Nat} {m : WireMessage} (hi : wire[i]? = some m)
    (hm : m.isTool = false) : out[i]? = some m := by
  obtain ⟨hlt, rfl⟩ := List.getElem?_eq_some_iff.mp hi
  have hwhole : wire = wire.take i ++ wire[i] :: wire.drop (i + 1) := by
    rw [List.getElem_cons_drop, List.take_append_drop]
  rw [hwhole, order_append hm, bind_eq_ok] at h
  obtain ⟨front', hfront, h⟩ := h
  obtain ⟨rest', hrest, h⟩ := bind_eq_ok.mp h
  cases pure_eq_ok.mp h
  obtain ⟨more, rfl⟩ := order_head hrest
  have hlength : front'.length = i := by
    rw [(order_perm hfront).length_eq, List.length_take, min_eq_left hlt.le]
  rw [List.getElem?_append_right hlength.le, hlength, Nat.sub_self]
  rfl

/-! ## Calls and their results -/

/-- The message is the result of the call. -/
def WireCall.answeredBy (call : WireCall) (m : WireMessage) : Bool :=
  match m with
  | .tool _ id => call.named && call.id.isStr id
  | _ => false

/-- The message is the result of one of the calls. -/
def matched (calls : List WireCall) (m : WireMessage) : Bool := calls.any fun call => call.answeredBy m

/-- No two calls have one id, and each that has one has one result. -/
structure AnsweredOnce (calls : List WireCall) (run : List WireMessage) : Prop where
  distinct : ((calls.filter (·.named)).map (·.id)).Nodup
  once : ∀ call ∈ calls, call.named = true → run.countP (fun m => call.answeredBy m) = 1

/-- A call's place is among the first, as many as there are calls with an
id, wherever there is a result of none; or it is the one after them, and no
result of none comes before its own. -/
def Placed (calls : List WireCall) (run : List WireMessage) : Prop :=
  ∀ n call, calls[n]? = some call → ∀ m ∈ run, call.answeredBy m = true → ∀ u ∈ run, matched calls u = false →
    n < (calls.filter (·.named)).length ∨ n = (calls.filter (·.named)).length ∧ ¬ [u, m] <+ run

theorem answeredBy_iff {call : WireCall} {m : WireMessage} :
    call.answeredBy m = true ↔ ∃ content id, m = .tool content id ∧ call.named = true ∧ call.id = .str id := by
  cases m with
  | tool content id =>
      show (call.named && call.id.isStr id) = true ↔ _
      rw [Bool.and_eq_true, Json.isStr_iff]
      constructor
      · intro h
        exact ⟨content, id, rfl, h⟩
      · rintro ⟨_, _, h, h'⟩
        cases h
        exact h'
  | _ =>
      constructor
      · intro h
        cases h
      · rintro ⟨_, _, h, -⟩
        cases h

variable {calls : List WireCall}

theorem matched_of {call : WireCall} {m : WireMessage} (hcall : call ∈ calls) (h : call.answeredBy m = true) :
    matched calls m = true :=
  List.any_eq_true.mpr ⟨call, hcall, h⟩

/-- The calls that have an id, with their places from the `n`-th on. -/
def entries (n : Nat) (calls : List WireCall) : List (WireCall × Nat) := (calls.zipIdx n).filter (·.1.named)

/-- Their positions. -/
def positions (n : Nat) (calls : List WireCall) : Position := (entries n calls).map fun e => (e.1.id, e.2)

theorem entries_calls (n : Nat) (calls : List WireCall) : (entries n calls).map (·.1) = calls.filter (·.named) := by
  have h : (calls.zipIdx n).map (·.1) = calls := List.zipIdx_map_fst n calls
  conv_rhs => rw [← h, List.filter_map]
  rfl

theorem positions_ids (n : Nat) (calls : List WireCall) :
    (positions n calls).map (·.1) = (calls.filter (·.named)).map (·.id) := by
  rw [← entries_calls n, positions, List.map_map, List.map_map]
  rfl

theorem length_positions (n : Nat) (calls : List WireCall) :
    (positions n calls).length = (calls.filter (·.named)).length := by
  rw [← List.length_map (·.1), positions_ids, List.length_map]

theorem mem_entries {call : WireCall} {n : Nat} : (call, n) ∈ entries 0 calls ↔ calls[n]? = some call ∧ call.named = true := by
  rw [entries, List.mem_filter, List.mem_zipIdx_iff_getElem?]

theorem entries_pairwise (calls : List WireCall) : (entries 0 calls).Pairwise fun e e' => e.2 < e'.2 := by
  have h : ((calls.zipIdx).map (·.2)).Pairwise (· < ·) := by
    rw [List.zipIdx_map_snd]
    exact List.pairwise_lt_range'
  exact (List.pairwise_map.mp h).filter _

theorem positions_cons_named {call : WireCall} (h : call.named = true) (n : Nat) (calls : List WireCall) :
    positions n (call :: calls) = (call.id, n) :: positions (n + 1) calls := by
  rw [positions, entries, List.zipIdx_cons, List.filter_cons, if_pos h]
  rfl

theorem positions_cons_unnamed {call : WireCall} (h : call.named = false) (n : Nat) (calls : List WireCall) :
    positions n (call :: calls) = positions (n + 1) calls := by
  rw [positions, entries, List.zipIdx_cons, List.filter_cons, if_neg (by rw [h]; exact Bool.false_ne_true)]
  rfl

/-- A new id goes to the end. -/
theorem put_new {position : Position} {id : Json} (h : ∀ e ∈ position, sameKey e.1 id = false) (n : Nat) :
    put position id n = position ++ [(id, n)] := by
  rw [put, if_neg]
  intro hany
  obtain ⟨e, he, hsame⟩ := List.any_eq_true.mp hany
  exact Bool.false_ne_true ((h e he).symm.trans hsame)

/-- The ids are texts. -/
def TextIds (calls : List WireCall) : Prop := ∀ call ∈ calls, call.named = true → ∃ id, call.id = .str id

/-- Text ids, no two alike, each have their call's place. -/
theorem positionFrom_texts (n : Nat) (calls : List WireCall) (position : Position)
    (htexts : TextIds calls) (hkeys : ∀ e ∈ position, ∃ id, e.1 = .str id)
    (hnodup : (position.map (·.1) ++ (calls.filter (·.named)).map (·.id)).Nodup) :
    positionFrom n calls position = .ok (position ++ positions n calls) := by
  induction calls generalizing n position with
  | nil => exact congrArg Except.ok (List.append_nil position).symm
  | cons call calls ih =>
      obtain ⟨hcall, htexts⟩ := List.forall_mem_cons.mp htexts
      rw [positionFrom]
      cases hnamed : call.named with
      | false =>
          have hneg : ¬ call.named = true := by rw [hnamed]; exact Bool.false_ne_true
          rw [List.filter_cons_of_neg hneg] at hnodup
          rw [if_neg Bool.false_ne_true, ih (n + 1) position htexts hkeys hnodup, positions_cons_unnamed hnamed]
      | true =>
          obtain ⟨id, hid⟩ := hcall hnamed
          rw [List.filter_cons_of_pos hnamed, List.map_cons] at hnodup
          have hnew : ∀ e ∈ position, sameKey e.1 call.id = false := by
            intro e he
            obtain ⟨id', hid'⟩ := hkeys e he
            rw [hid', hid]
            refine decide_eq_false fun heq => ?_
            have hmem : e.1 ∈ position.map (·.1) := List.mem_map_of_mem he
            refine (List.nodup_append.mp hnodup).2.2 e.1 hmem call.id List.mem_cons_self ?_
            rw [hid', hid, heq]
          have hput := put_new hnew n
          have hkeys' : ∀ e ∈ position ++ [(call.id, n)], ∃ id, e.1 = .str id := by
            intro e he
            rcases List.mem_append.mp he with he | he
            · exact hkeys e he
            · cases List.mem_singleton.mp he
              exact ⟨id, hid⟩
          have hnodup' : ((position ++ [(call.id, n)]).map (·.1) ++ (calls.filter (·.named)).map (·.id)).Nodup := by
            rw [List.map_append, List.append_assoc]
            exact hnodup
          rw [if_pos rfl, if_pos (by rw [hid]; rfl), hput, ih (n + 1) _ htexts hkeys' hnodup',
            positions_cons_named hnamed, List.append_assoc, List.singleton_append]

variable {run : List WireMessage}

namespace AnsweredOnce

theorem texts (h : AnsweredOnce calls run) : TextIds calls := by
  intro call hcall hnamed
  have hpos : 0 < run.countP fun m => call.answeredBy m := by
    rw [h.once call hcall hnamed]
    exact Nat.one_pos
  obtain ⟨m, -, hm⟩ := List.countP_pos_iff.mp hpos
  obtain ⟨_, id, -, -, hid⟩ := answeredBy_iff.mp hm
  exact ⟨id, hid⟩

theorem position (h : AnsweredOnce calls run) : positionFrom 0 calls [] = .ok (positions 0 calls) :=
  positionFrom_texts 0 calls [] h.texts (fun e he => (by cases he)) h.distinct

/-- A result is put at its call's place. -/
theorem place_answer (h : AnsweredOnce calls run) {call : WireCall} {n : Nat} (hn : calls[n]? = some call)
    {m : WireMessage} (hm : call.answeredBy m = true) : place (positions 0 calls) m = n := by
  obtain ⟨content, id, rfl, hnamed, hid⟩ := answeredBy_iff.mp hm
  have hmem : (call.id, n) ∈ positions 0 calls := List.mem_map.mpr ⟨(call, n), mem_entries.mpr ⟨hn, hnamed⟩, rfl⟩
  have hnodup : ((positions 0 calls).map (·.1)).Nodup := by
    rw [positions_ids]
    exact h.distinct
  rw [place]
  cases hfind : (positions 0 calls).find? fun e => e.1.isStr id with
  | none => exact absurd (Json.isStr_iff.mpr hid) (List.find?_eq_none.mp hfind _ hmem)
  | some e =>
      have hfound : e.1.isStr id = true := List.find?_some (p := fun e : Json × Nat => e.1.isStr id) hfind
      have hkey : e.1 = (call.id, n).1 := (Json.isStr_iff.mp hfound).trans hid.symm
      rw [List.inj_on_of_nodup_map hnodup (List.mem_of_find?_eq_some hfind) hmem hkey]
      rfl

end AnsweredOnce

/-- A result of no call is put at the number of the ids. -/
theorem place_unmatched {m : WireMessage} (hm : matched calls m = false) :
    place (positions 0 calls) m = (calls.filter (·.named)).length := by
  rw [← length_positions 0]
  cases m with
  | tool content id =>
      rw [place]
      cases hfind : (positions 0 calls).find? fun e => e.1.isStr id with
      | none => rfl
      | some e =>
          obtain ⟨⟨call, n⟩, he, rfl⟩ := List.mem_map.mp (List.mem_of_find?_eq_some hfind)
          obtain ⟨hn, hnamed⟩ := mem_entries.mp he
          have hfound : call.id.isStr id = true := List.find?_some (p := fun e : Json × Nat => e.1.isStr id) hfind
          have hanswer : call.answeredBy (.tool content id) = true :=
            answeredBy_iff.mpr ⟨content, id, rfl, hnamed, Json.isStr_iff.mp hfound⟩
          exact absurd (matched_of (List.mem_of_getElem? hn) hanswer) (by rw [hm]; exact Bool.false_ne_true)
  | _ => rfl

/-- The results of the calls, call by call. -/
theorem exists_answers (h : AnsweredOnce calls run) : ∃ answers : List WireMessage,
    List.Forall₂ (fun call m => call.answeredBy m = true) (calls.filter (·.named)) answers ∧
      answers.Pairwise (fun m m' => place (positions 0 calls) m < place (positions 0 calls) m') ∧
      (run.filter (matched calls)).Perm answers := by
  have hpick : ∀ e : WireCall × Nat, ∃ m, e ∈ entries 0 calls → m ∈ run ∧ e.1.answeredBy m = true := by
    intro e
    rcases Classical.em (e ∈ entries 0 calls) with he | he
    · obtain ⟨hn, hnamed⟩ := mem_entries.mp he
      have hpos : 0 < run.countP fun m => e.1.answeredBy m := by
        rw [h.once e.1 (List.mem_of_getElem? hn) hnamed]
        exact Nat.one_pos
      obtain ⟨m, hm, ha⟩ := List.countP_pos_iff.mp hpos
      exact ⟨m, fun _ => ⟨hm, ha⟩⟩
    · exact ⟨default, fun he' => absurd he' he⟩
  choose f hf using hpick
  have hplace : ∀ e ∈ entries 0 calls, place (positions 0 calls) (f e) = e.2 := by
    intro e he
    exact h.place_answer (mem_entries.mp he).1 (hf e he).2
  have hpairwise : ((entries 0 calls).map f).Pairwise
      fun m m' => place (positions 0 calls) m < place (positions 0 calls) m' := by
    refine List.pairwise_map.mpr ((entries_pairwise calls).imp_of_mem fun he he' hlt => ?_)
    rw [hplace _ he, hplace _ he']
    exact hlt
  refine ⟨(entries 0 calls).map f, ?_, hpairwise, ?_⟩
  · rw [← entries_calls 0, List.forall₂_map_left_iff, List.forall₂_map_right_iff, List.forall₂_same]
    exact fun e he => (hf e he).2
  · have hnodup : (run.filter (matched calls)).Nodup := by
      refine List.nodup_iff_sublist.mpr fun m hm => ?_
      have hmatched := (List.mem_filter.mp (hm.subset List.mem_cons_self)).2
      obtain ⟨call, hcall, ha⟩ := List.any_eq_true.mp hmatched
      obtain ⟨_, _, _, hnamed, _⟩ := answeredBy_iff.mp ha
      have hle := (hm.trans List.filter_sublist).countP_le (p := fun m => call.answeredBy m)
      rw [h.once call hcall hnamed, List.countP_cons_of_pos ha, List.countP_cons_of_pos ha] at hle
      exact absurd hle (by simp)
    refine (List.perm_ext_iff_of_nodup hnodup (hpairwise.imp fun hlt heq => ?_)).mpr fun m => ?_
    · exact hlt.ne (congrArg _ heq)
    · rw [List.mem_filter, List.mem_map]
      constructor
      · rintro ⟨hm, hmatched⟩
        obtain ⟨call, hcall, ha⟩ := List.any_eq_true.mp hmatched
        obtain ⟨_, _, _, hnamed, _⟩ := answeredBy_iff.mp ha
        obtain ⟨n, hn⟩ := List.getElem?_of_mem hcall
        have he : (call, n) ∈ entries 0 calls := mem_entries.mpr ⟨hn, hnamed⟩
        exact ⟨(call, n), he, eq_of_countP (h.once call hcall hnamed) (hf _ he).1 hm (hf _ he).2 ha⟩
      · rintro ⟨e, he, rfl⟩
        exact ⟨(hf e he).1, matched_of (List.mem_of_getElem? (mem_entries.mp he).1) (hf e he).2⟩

/-- The results come first, in the order of the calls, and what answers none
of them after, as it was. -/
def InCallOrder (calls : List WireCall) (run out : List WireMessage) : Prop :=
  ∃ answers, List.Forall₂ (fun call m => call.answeredBy m = true) (calls.filter (·.named)) answers ∧
    out = answers ++ run.filter fun m => !matched calls m

/-- Where a result of no call is put in front of one that answers a call. -/
theorem before_iff (h : AnsweredOnce calls run) {call : WireCall} {n : Nat} (hn : calls[n]? = some call)
    {u m : WireMessage} (hm : call.answeredBy m = true) (hu : matched calls u = false) :
    (place (positions 0 calls) u < place (positions 0 calls) m ∨
      place (positions 0 calls) u = place (positions 0 calls) m ∧ [u, m] <+ run) ↔
    ¬ (n < (calls.filter (·.named)).length ∨ n = (calls.filter (·.named)).length ∧ ¬ [u, m] <+ run) := by
  rw [h.place_answer hn hm, place_unmatched hu]
  rcases lt_trichotomy n (calls.filter (·.named)).length with hlt | heq | hgt
  · exact ⟨fun h' => (h'.elim (absurd · hlt.not_gt) fun h' => absurd h'.1.symm hlt.ne), fun h' => absurd (Or.inl hlt) h'⟩
  · rw [← heq]
    constructor
    · rintro (h' | ⟨-, h'⟩)
      · exact absurd h' (lt_irrefl n)
      · rintro (h'' | ⟨-, h''⟩)
        · exact lt_irrefl n h''
        · exact h'' h'
    · intro h'
      exact Or.inr ⟨rfl, by_contra fun hsub => h' (Or.inr ⟨rfl, hsub⟩)⟩
  · exact ⟨fun _ h' => h'.elim (absurd · hgt.not_gt) fun h' => absurd h'.1 hgt.ne', fun _ => Or.inl hgt⟩

theorem matched_of_forall₂ {answers : List WireMessage}
    (h : List.Forall₂ (fun call m => call.answeredBy m = true) (calls.filter (·.named)) answers) :
    ∀ m ∈ answers, matched calls m = true := by
  intro m hm
  obtain ⟨call, hcall, ha⟩ := forall₂_left h hm
  exact matched_of (List.mem_filter.mp hcall).1 ha

/-- A run is put in call order if and only if no result of no call is put
in front of one of a call. -/
theorem inCallOrder_iff (h : AnsweredOnce calls run) :
    InCallOrder calls run (sortBy (place (positions 0 calls)) run) ↔ Placed calls run := by
  constructor
  · rintro ⟨answers, hanswers, hsorted⟩ n call hn m hm ha u hu hunmatched
    by_contra hnot
    have hmatched : matched calls m = true := matched_of (List.mem_of_getElem? hn) ha
    have hne : u ≠ m := by
      rintro rfl
      exact Bool.false_ne_true (hunmatched.symm.trans hmatched)
    have hsub := before_sortBy hu hm hne ((before_iff h hn ha hunmatched).mpr hnot)
    rw [hsorted, List.sublist_append_iff] at hsub
    obtain ⟨front, back, hsplit, hfront, hback⟩ := hsub
    cases front with
    | nil =>
        rw [List.nil_append] at hsplit
        have hmem : m ∈ run.filter fun m => !matched calls m :=
          hback.subset (hsplit ▸ List.mem_cons_of_mem _ List.mem_cons_self)
        have := (List.mem_filter.mp hmem).2
        rw [hmatched] at this
        cases this
    | cons x front =>
        cases List.head_eq_of_cons_eq hsplit
        have hu' := matched_of_forall₂ hanswers u (hfront.subset List.mem_cons_self)
        exact Bool.false_ne_true (hunmatched.symm.trans hu')
  · intro hplaced
    obtain ⟨answers, hanswers, hpairwise, hperm⟩ := exists_answers h
    refine ⟨answers, hanswers, ?_⟩
    have hsplit : ∀ a b, [a, b] <+ sortBy (place (positions 0 calls)) run → matched calls b = true →
        matched calls a = true := by
      intro u m hsub hm
      obtain ⟨call, hcall, ha⟩ := List.any_eq_true.mp hm
      obtain ⟨n, hn⟩ := List.getElem?_of_mem hcall
      by_contra hu
      have hu := Bool.eq_false_iff.mpr hu
      have hin := fun x hx => mem_sortBy.mp (hsub.subset (a := x) hx)
      refine (before_iff h hn ha hu).mp (sortBy_before hsub) ?_
      exact hplaced n call hn m (hin m (List.mem_cons_of_mem _ List.mem_cons_self)) ha u (hin u List.mem_cons_self) hu
    have hrest : (sortBy (place (positions 0 calls)) run).filter (fun m => !matched calls m) =
        run.filter fun m => !matched calls m := by
      refine filter_sortBy fun a _ b _ ha hb => ?_
      rw [place_unmatched (Bool.not_eq_true' _ |>.mp ha), place_unmatched (Bool.not_eq_true' _ |>.mp hb)]
    have hfirst : (sortBy (place (positions 0 calls)) run).filter (matched calls) = answers :=
      eq_of_perm (((sortBy_perm _ run).filter _).trans hperm) ((sortBy_pairwise _ run).filter _) hpairwise
    conv_lhs => rw [filter_append_filter hsplit]
    rw [hfirst, hrest]

/-! ## Which ids are no keys -/

theorem positionFrom_isOk (n : Nat) (calls : List WireCall) (position : Position) :
    (∃ position', positionFrom n calls position = .ok position') ↔
      ∀ call ∈ calls, call.named = true → hashable call.id = true := by
  induction calls generalizing n position with
  | nil => exact ⟨fun _ call hcall => (by cases hcall), fun _ => ⟨position, rfl⟩⟩
  | cons call calls ih =>
      rw [positionFrom, List.forall_mem_cons]
      cases hnamed : call.named with
      | false =>
          rw [if_neg Bool.false_ne_true, ih]
          exact ⟨fun h => ⟨fun h' => (by cases h'), h⟩, fun h => h.2⟩
      | true =>
          rw [if_pos rfl]
          cases hhash : hashable call.id with
          | false =>
              constructor
              · rintro ⟨_, h⟩
                cases h
              · intro h
                exact absurd (h.1 rfl) Bool.false_ne_true
          | true =>
              rw [if_pos rfl, ih]
              exact ⟨fun h => ⟨fun _ => rfl, h⟩, fun h => h.2⟩

/-- Every id of a call may be the key of a dict. -/
def Keys (wire : List WireMessage) : Prop :=
  ∀ m ∈ wire, ∀ call ∈ m.toolCalls, call.named = true → hashable call.id = true

theorem order_isOk (wire : List WireMessage) : (∃ out, resultsInCallOrder wire = .ok out) ↔ Keys wire := by
  induction wire using resultsInCallOrder.induct with
  | case1 => exact ⟨fun _ m hm => (by cases hm), fun _ => ⟨[], resultsInCallOrder.eq_1⟩⟩
  | case2 m rest hcalls ih =>
      have hnone : m.toolCalls = [] := List.isEmpty_iff.mp hcalls
      rw [order_still hcalls, Keys, List.forall_mem_cons, hnone]
      constructor
      · rintro ⟨out, h⟩
        obtain ⟨more, hmore, -⟩ := bind_eq_ok.mp h
        exact ⟨fun call hcall => (by cases hcall), ih.mp ⟨more, hmore⟩⟩
      · rintro ⟨-, h⟩
        obtain ⟨more, hmore⟩ := ih.mpr h
        exact ⟨m :: more, by rw [hmore]; rfl⟩
  | case3 m rest hcalls ih =>
      have hdrop : Keys rest ↔ Keys (rest.dropWhile WireMessage.isTool) := by
        refine ⟨fun h x hx => h x ((List.dropWhile_sublist _).subset hx), fun h x hx => ?_⟩
        rw [← List.takeWhile_append_dropWhile (p := WireMessage.isTool) (l := rest), List.mem_append] at hx
        rcases hx with hx | hx
        · rw [WireMessage.toolCalls_tool (List.mem_takeWhile_imp hx)]
          exact fun call hcall => (by cases hcall)
        · exact h x hx
      rw [order_calls hcalls, Keys, List.forall_mem_cons, ← positionFrom_isOk 0 m.toolCalls []]
      constructor
      · rintro ⟨out, h⟩
        obtain ⟨position, hposition, h⟩ := bind_eq_ok.mp h
        obtain ⟨more, hmore, -⟩ := bind_eq_ok.mp h
        exact ⟨⟨position, hposition⟩, hdrop.mpr (ih.mp ⟨more, hmore⟩)⟩
      · rintro ⟨⟨position, hposition⟩, h⟩
        obtain ⟨more, hmore⟩ := ih.mpr (hdrop.mp h)
        exact ⟨_, by rw [hposition, hmore]; rfl⟩

/-! ## What the order is -/

/-- The messages that stand where a run stood. -/
def runAt (before run out : List WireMessage) : List WireMessage := (out.drop before.length).take run.length

theorem runAt_append {before before' run run' after' : List WireMessage} (hb : before'.length = before.length)
    (hr : run'.Perm run) : runAt before run (before' ++ (run' ++ after')) = run' := by
  rw [runAt, ← hb, List.drop_left, ← hr.length_eq, List.take_left]

/-- What putting a wire in order may do to it. -/
structure Reordered (wire out : List WireMessage) : Prop where
  perm : out.Perm wire
  others : ∀ (i : Nat) m, wire[i]? = some m → m.isTool = false → out[i]? = some m
  runs : ∀ before run after, Run wire before run after → (runAt before run out).Perm run
  unchanged : ∀ before run after, Run wire before run after → (∀ turn ∈ before.getLast?, turn.toolCalls = []) →
    runAt before run out = run
  answers : ∀ front turn run after, Run wire (front ++ [turn]) run after → AnsweredOnce turn.toolCalls run →
    InCallOrder turn.toolCalls run (runAt (front ++ [turn]) run out)
  again : resultsInCallOrder out = .ok out

/-- Every id may be a key, and no run puts a result of no call in front of
one of a call. -/
structure InPlace (wire : List WireMessage) : Prop where
  keys : Keys wire
  placed : ∀ front turn run after, Run wire (front ++ [turn]) run after → AnsweredOnce turn.toolCalls run →
    Placed turn.toolCalls run

theorem runAt_turn (h : resultsInCallOrder wire = .ok out) {front : List WireMessage} {run after : List WireMessage}
    (hrun : Run wire (front ++ [turn]) run after) (honce : AnsweredOnce turn.toolCalls run) :
    runAt (front ++ [turn]) run out = sortBy (place (positions 0 turn.toolCalls)) run := by
  obtain ⟨before', run', after', rfl, hbefore, hperm, hturn, -⟩ := order_run hrun h
  have hreordered := hturn turn List.getLast?_concat
  rw [runAt_append hbefore hperm]
  rw [reordered] at hreordered
  cases hcalls : turn.toolCalls.isEmpty with
  | true =>
      rw [hcalls, if_pos rfl] at hreordered
      cases hreordered
      rw [List.isEmpty_iff.mp hcalls]
      exact (sortBy_of_pairwise (List.pairwise_of_forall fun a b => by cases a <;> cases b <;> exact le_refl 0)).symm
  | false =>
      rw [hcalls, if_neg Bool.false_ne_true, honce.position] at hreordered
      exact (Except.ok.inj hreordered).symm

/-- **The results of the calls, in the order of the calls**, with everything
else as it was: so it is, if and only if every id may be a key and the
results of no call are put after those of a call. -/
theorem results_in_order (wire : List WireMessage) :
    (∃ out, resultsInCallOrder wire = .ok out ∧ Reordered wire out) ↔ InPlace wire := by
  constructor
  · rintro ⟨out, h, hout⟩
    refine ⟨(order_isOk wire).mp ⟨out, h⟩, fun front turn run after hrun honce => ?_⟩
    have hcalls := hout.answers front turn run after hrun honce
    rw [runAt_turn h hrun honce] at hcalls
    exact (inCallOrder_iff honce).mp hcalls
  · rintro ⟨hkeys, hplaced⟩
    obtain ⟨out, h⟩ := (order_isOk wire).mpr hkeys
    refine ⟨out, h, order_perm h, fun i m hi hm => order_other h hi hm, ?_, ?_, ?_, order_again h⟩
    · intro before run after hrun
      obtain ⟨before', run', after', rfl, hbefore, hperm, -, -⟩ := order_run hrun h
      rw [runAt_append hbefore hperm]
      exact hperm
    · intro before run after hrun hnone
      obtain ⟨before', run', after', rfl, hbefore, hperm, hturn, hnil⟩ := order_run hrun h
      rw [runAt_append hbefore hperm]
      rcases List.eq_nil_or_concat' before with hb | ⟨front, turn, hb⟩
      · exact hnil hb
      · have hlast : before.getLast? = some turn := by
          rw [hb]
          exact List.getLast?_concat
        have hreordered := hturn turn hlast
        rw [reordered, hnone turn hlast] at hreordered
        exact (Except.ok.inj hreordered).symm
    · intro front turn run after hrun honce
      rw [runAt_turn h hrun honce]
      exact (inCallOrder_iff honce).mpr (hplaced front turn run after hrun honce)

/-- Where every call has an id, and it is a text, nothing is out of place. -/
theorem inPlace_of_ids {wire : List WireMessage}
    (h : ∀ m ∈ wire, ∀ call ∈ m.toolCalls, ∃ c id, call.id = .str (c :: id)) : InPlace wire := by
  refine ⟨fun m hm call hcall _ => ?_, fun front turn run after hrun _ n call hn _ _ _ _ _ _ => .inl ?_⟩
  · obtain ⟨c, id, hid⟩ := h m hm call hcall
    rw [hid]
    rfl
  · have hturn : turn ∈ wire := by
      rw [hrun.whole]
      exact List.mem_append_left _ (List.mem_append_right _ List.mem_cons_self)
    have hall : turn.toolCalls.filter (·.named) = turn.toolCalls := by
      refine List.filter_eq_self.mpr fun call hcall => ?_
      obtain ⟨c, id, hid⟩ := h turn hturn call hcall
      rw [WireCall.named, hid]
      rfl
    rw [hall]
    exact (List.getElem?_eq_some_iff.mp hn).1

/-- A call without an id, one with the id `x`, and three results: of no
call, of `x`, and without an id. -/
def turnWithoutId : WireMessage :=
  .assistant .null [⟨.str [], .ofString "f", .ofString ""⟩, ⟨.ofString "x", .ofString "g", .ofString ""⟩] none

def strayFirst : List WireMessage :=
  [.tool (.ofString "stray") "zzz".toList, .tool (.ofString "second") "x".toList, .tool (.ofString "first") []]

theorem strayFirst_run : Run (turnWithoutId :: strayFirst) ([] ++ [turnWithoutId]) strayFirst [] where
  whole := rfl
  tools := by
    intro m hm
    rcases List.mem_cons.mp hm with rfl | hm
    · rfl
    · rcases List.mem_pair.mp hm with rfl | rfl
      · rfl
      · rfl
  opened := by
    intro m hm
    cases hm
    rfl
  closed := fun m hm => (by cases hm)

theorem strayFirst_once : AnsweredOnce turnWithoutId.toolCalls strayFirst where
  distinct := List.nodup_singleton _
  once := by
    intro call hcall hnamed
    rcases List.mem_pair.mp hcall with rfl | rfl
    · cases hnamed
    · rfl

/-- The result of no call stays in front of the one that answers a call. -/
theorem stray_stays : ¬ ∃ out, resultsInCallOrder (turnWithoutId :: strayFirst) = .ok out ∧
    Reordered (turnWithoutId :: strayFirst) out := by
  rintro ⟨out, h, hout⟩
  obtain ⟨answers, hanswers, hrun⟩ := hout.answers [] turnWithoutId strayFirst [] strayFirst_run strayFirst_once
  rw [runAt_turn h strayFirst_run strayFirst_once] at hrun
  have hsame : sortBy (place (positions 0 turnWithoutId.toolCalls)) strayFirst = strayFirst := by rfl
  rw [hsame] at hrun
  cases hanswers with
  | cons hm hrest =>
      cases hrest
      rw [← List.head_eq_of_cons_eq hrun] at hm
      cases hm

end InferenceDriver.OpenAi.Order

/-
# `OpenAi.Watch` — an engine that learns that its backend refuses tools

A backend that refuses a request because it carries tools turns tools off
for that model, and one task of the engine asks again, every so often,
about every model whose tools are off.  The engine is a state machine whose
steps go from one `await` to the next, of whoever it is: a request that
meets a refusal, a task, a refresh of the account's list or a change of its
filters, a call of `aclose`.  `step_cases` says once what a step can do.

What the engine lays over a listed model when it hands it out changes
neither its id nor its id upstream, so the view of the account is any one.
-/
import InferenceDriver.Catalogue.Listing
import InferenceDriver.Failures.Tools
import InferenceDriver.Lib.Lts

namespace InferenceDriver.OpenAi.Reask

open Failures

/-! ## The engine -/

/-- What an engine is constructed with; `chatToolsUnavailable` is a model
its endpoint serves without tools. -/
structure Engine (R When : Type) where
  /-- None makes it a provider account. -/
  modelId : Option Text
  /-- `upstream_model_id`, as it was given. -/
  upstream : Option Text
  chatToolsUnavailable : Text → Bool
  account : Catalogue.Account R When
  upstreamId : R → Option Text

/-- `x or y`, of a text. -/
def orText (x : Option Text) (y : Text) : Text :=
  match x with
  | some (c :: x) => c :: x
  | _ => y

variable {R When : Type}

namespace Engine

/-- `_upstream_model_id`. -/
def upstreamModelId (e : Engine R When) : Text := orText e.upstream (orText e.modelId [])

/-- `_tool_calling_assumed`. -/
def toolCallingAssumed (e : Engine R When) : Bool :=
  !(e.modelId.isSome && e.chatToolsUnavailable e.upstreamModelId)

end Engine

/-- `_ToolsOff`. -/
structure ToolsOff where
  words : Text
  upstream : Text
deriving DecidableEq

/-- Where `_ask_tools_again` is. -/
inductive Pc where
  /-- Created, and not yet run. -/
  | starting
  | sleeping
  /-- Awaiting the answer about a model; the models of this round that come after it. -/
  | asking (id upstream : Text) (rest : List (Text × ToolsOff))
  | ended

def Pc.alive : Pc → Bool
  | ended => false
  | _ => true

/-- Whether a probe has been sent to get there. -/
def Pc.posts : Pc → Bool
  | asking .. => true
  | _ => false

structure Task where
  pc : Pc
  cancelled : Bool

/-- Where `aclose` is. -/
inductive Closing where
  /-- In `asyncio.wait({watch})`. -/
  | waiting
  /-- In `client.aclose()`. -/
  | releasing
  | returned
  /-- Cancelled, or the client's own close raised. -/
  | raised
deriving DecidableEq

/-- A call of `aclose`, and the task it took. -/
structure Closer where
  took : Option Nat
  pc : Closing

structure State (R When : Type) where
  /-- `_tools_refused`. -/
  refused : Dict Text ToolsOff
  /-- `supports_tool_calling`. -/
  supports : Bool
  /-- `_tools_watch`: the task, by its place in `tasks`. -/
  watch : Option Nat
  tasks : List Task
  /-- The targets of the requests the backend has not answered. -/
  requests : List Target
  closers : List Closer
  /-- Whether `_http_client` is there. -/
  client : Bool
  catalogue : Option (Catalogue.State R When)

/-- What becomes of the probe's request. -/
inductive Posted where
  | response (status : Nat) (text : Text)
  /-- An `httpx.HTTPError`. -/
  | httpError
  /-- Any other exception. -/
  | surprise

inductive Move (R When : Type) where
  /-- A request comes in, and names a model or none. -/
  | asks (requested : Option Text)
  /-- A request ends, and not by a failure of the backend's. -/
  | ends (request : Nat)
  /-- The backend answers a request with a failure. -/
  | fails (request : Nat) (tools : Bool) (text : Text)
  /-- A task runs, to its next `await` or its end. -/
  | wakes (task : Nat)
  /-- A task's probe is done. -/
  | probed (task : Nat) (posted : Posted)
  /-- The account's list or its filters change. -/
  | account (event : Catalogue.Event R When)
  | close
  /-- What a call of `aclose` awaits is there. -/
  | closes (closer : Nat)
  | closeRaises (closer : Nat)

variable (E : Env) (e : Engine R When)

/-! ## Requests -/

/-- `resolve_model`, of a request that it does not refuse. -/
def resolveModel (s : State R When) (requested : Option Text) : Option Target :=
  match s.catalogue with
  | none =>
      if requested = none ∨ requested = e.modelId then
        some { id := orText e.modelId [], upstream := e.upstreamModelId, account := false }
      else none
  | some catalogue =>
      match requested with
      | none | some [] => none
      | some (c :: name) =>
          (catalogue.find e.account (c :: name)).map fun entry =>
            { id := entry.id, upstream := orText (e.upstreamId entry.rest) entry.id, account := true }

/-! ## The watch -/

/-- Whether a task is there and not done. -/
def State.alive (s : State R When) (t : Nat) : Bool := s.tasks[t]?.any fun task => task.pc.alive

/-- A task goes on to another place. -/
def State.at (s : State R When) (t : Nat) (pc : Pc) : State R When :=
  { s with tasks := s.tasks.modify t fun task => { task with pc } }

/-- `create_task(self._ask_tools_again())`. -/
def State.start (s : State R When) : State R When :=
  { s with watch := some s.tasks.length, tasks := s.tasks ++ [⟨.starting, false⟩] }

/-- `_watch_tools`. -/
def watchTools (s : State R When) : State R When :=
  match s.watch with
  | some t => if s.alive t then s else s.start
  | none => s.start

/-- `_learn_tools_refused`. -/
def learnToolsRefused (s : State R When) (target : Target) (words : Text) : State R When :=
  match s.refused.get? target.id with
  | some _ => s
  | none =>
      watchTools { s with
        refused := s.refused.set target.id { words, upstream := target.upstream }
        supports := if target.account then s.supports else false }

/-- The words in which a request that carries tools is refused, or one that does not. -/
def refusalWords (tools : Bool) (text : Text) : Option Text :=
  if tools then toolsRefusal E (text.take 4000) else none

/-- What `_upstream_refusal` learns from the body of a failure. -/
def upstreamRefusal (s : State R When) (target : Target) (tools : Bool) (text : Text) : State R When :=
  match refusalWords E tools text with
  | some words => learnToolsRefused s target words
  | none => s

/-- `_clear_tools_refused`. -/
def clearToolsRefused (s : State R When) (id : Text) : State R When :=
  match s.refused.get? id with
  | none => s
  | some _ =>
      { s with
        refused := s.refused.erase id
        supports := if s.catalogue.isNone then e.toolCallingAssumed else s.supports }

/-- `_tools_answered`; an error is an exception that gets out of it. -/
def toolsAnswered : Posted → Except Unit (Option Bool)
  | .response status text =>
      if 200 ≤ status ∧ status ≤ 299 then .ok (some true)
      else if toolsRefusal E (text.take 4000) ≠ none then .ok (some false)
      else .ok none
  | .httpError => .ok none
  | .surprise => .error ()

/-- Whether there is an account, and it does not find a model. -/
def unlisted (s : State R When) (id : Text) : Bool :=
  s.catalogue.any fun catalogue => (catalogue.find e.account id).isNone

/-- `_ask_tools_once`, from a place in its round to the next probe: the
models that are not found on the way are dropped. -/
def askToolsOnce (gone : Text → Bool) (refused : Dict Text ToolsOff) :
    List (Text × ToolsOff) → Dict Text ToolsOff × Pc
  | [] => (refused, if refused.items = [] then .ended else .sleeping)
  | (id, off) :: rest =>
      if gone id then askToolsOnce gone (refused.erase id) rest
      else (refused, .asking id off.upstream rest)

/-- A task goes on with its round, and after it with `while self._tools_refused`. -/
def goOn (s : State R When) (t : Nat) (todo : List (Text × ToolsOff)) : State R When :=
  let round := askToolsOnce (unlisted e s) s.refused todo
  { s with refused := round.1, client := s.client || round.2.posts }.at t round.2

/-- A task is run: a cancelled one to its end. -/
def wake (s : State R When) (t : Nat) (task : Task) : Option (State R When) :=
  if task.cancelled then
    if task.pc.alive then some (s.at t .ended) else none
  else
    match task.pc with
    | .starting => some (goOn e s t [])
    | .sleeping => some (goOn e s t s.refused.items)
    | _ => none

/-- A task's probe about a model has come to something. -/
def answered (s : State R When) (t : Nat) (id : Text) (rest : List (Text × ToolsOff)) (posted : Posted) :
    State R When :=
  match toolsAnswered E posted with
  | .ok (some true) => goOn e (clearToolsRefused e s id) t rest
  | .ok _ => goOn e s t rest
  | .error () => goOn e s t []

/-- The task, if it is at its probe and has not been cancelled. -/
def probe (s : State R When) (t : Nat) (task : Task) (posted : Posted) : Option (State R When) :=
  if task.cancelled then none
  else
    match task.pc with
    | .asking id _ rest => some (answered E e s t id rest posted)
    | _ => none

/-! ## Closing -/

/-- What a call of `aclose` goes on to when it waits for no task: the client is taken and closed. -/
def State.released (s : State R When) : Closing := if s.client then .releasing else .returned

/-- `aclose`, to its first `await`. -/
def aclose (s : State R When) : State R When :=
  match s.watch with
  | some t =>
      if s.alive t then
        { s with
          watch := none
          tasks := s.tasks.modify t fun task => { task with cancelled := true }
          closers := s.closers ++ [⟨some t, .waiting⟩] }
      else { s with watch := none, closers := s.closers ++ [⟨none, s.released⟩], client := false }
  | none => { s with closers := s.closers ++ [⟨none, s.released⟩], client := false }

/-- A call of `aclose` goes on. -/
def closeOn (s : State R When) (k : Nat) (closer : Closer) : Option (State R When) :=
  match closer.pc with
  | .waiting =>
      if closer.took.any s.alive then none
      else some { s with closers := s.closers.set k { closer with pc := s.released }, client := false }
  | .releasing => some { s with closers := s.closers.set k { closer with pc := .returned } }
  | _ => none

/-- A call of `aclose` is left by an exception. -/
def closeOff (s : State R When) (k : Nat) (closer : Closer) : Option (State R When) :=
  match closer.pc with
  | .waiting | .releasing => some { s with closers := s.closers.set k { closer with pc := .raised } }
  | _ => none

/-! ## The steps -/

def step (s : State R When) : Move R When → Option (State R When)
  | .asks requested =>
      (resolveModel e s requested).map fun target =>
        { s with requests := s.requests ++ [target], client := true }
  | .ends k => s.requests[k]?.map fun _ => { s with requests := s.requests.eraseIdx k }
  | .fails k tools text =>
      s.requests[k]?.map fun target =>
        upstreamRefusal E { s with requests := s.requests.eraseIdx k } target tools text
  | .wakes t => s.tasks[t]?.bind (wake e s t)
  | .probed t posted => s.tasks[t]?.bind fun task => probe E e s t task posted
  | .account event =>
      s.catalogue.map fun catalogue =>
        { s with catalogue := some (Catalogue.step e.account catalogue event) }
  | .close => some (aclose s)
  | .closes k => s.closers[k]?.bind (closeOn s k)
  | .closeRaises k => s.closers[k]?.bind (closeOff s k)

/-- An engine as it is constructed. -/
structure Fresh (s : State R When) : Prop where
  refused : s.refused = .empty
  supports : s.supports = e.toolCallingAssumed
  watch : s.watch = none
  tasks : s.tasks = []
  requests : s.requests = []
  closers : s.closers = []
  catalogue : match e.modelId with
    | some _ => s.catalogue = none
    | none => ∃ file get, s.catalogue = some (Catalogue.init e.account file get)

/-- An engine, whatever happens to it. -/
def engine : Lts.System (State R When) (Move R When) where
  init := Fresh e
  step := step E e

variable {E e}

/-! ## What a step does -/

/-- A model's own probe was answered. -/
def Answers (E : Env) (s : State R When) (id : Text) (m : Move R When) : Prop :=
  ∃ t upstream rest posted, m = .probed t posted ∧ s.tasks[t]? = some ⟨.asking id upstream rest, false⟩ ∧
    toolsAnswered E posted = .ok (some true)

theorem watchTools_cases (s : State R When) :
    (∃ t, s.watch = some t ∧ s.alive t = true ∧ watchTools s = s) ∨
      (∀ t, s.watch = some t → s.alive t = false) ∧ watchTools s = s.start := by
  rw [watchTools]
  cases hw : s.watch with
  | none => exact Or.inr ⟨fun t ht => (by cases ht), rfl⟩
  | some t =>
      cases ha : s.alive t with
      | true => exact Or.inl ⟨t, rfl, ha, if_pos ha⟩
      | false => exact Or.inr ⟨fun t' ht => by cases ht; exact ha, if_neg (Bool.eq_false_iff.mp ha)⟩

theorem watchTools_frame (s : State R When) : ∃ watch tasks, watchTools s = { s with watch, tasks } := by
  rcases watchTools_cases s with ⟨-, -, -, heq⟩ | ⟨-, heq⟩
  · exact ⟨_, _, heq⟩
  · exact ⟨_, _, heq⟩

/-- A refusal is learned once. -/
theorem learnToolsRefused_cases (s : State R When) (target : Target) (words : Text) :
    s.refused.get? target.id ≠ none ∧ learnToolsRefused s target words = s ∨
      s.refused.get? target.id = none ∧ ∃ watch tasks, learnToolsRefused s target words = { s with
        refused := s.refused.set target.id { words, upstream := target.upstream }
        supports := if target.account then s.supports else false
        watch, tasks } := by
  rw [learnToolsRefused]
  cases hold : s.refused.get? target.id with
  | some off => exact Or.inl ⟨Option.some_ne_none off, rfl⟩
  | none =>
      obtain ⟨watch, tasks, heq⟩ := watchTools_frame { s with
        refused := s.refused.set target.id { words, upstream := target.upstream }
        supports := if target.account then s.supports else false }
      exact Or.inr ⟨rfl, watch, tasks, heq⟩

theorem clearToolsRefused_frame (s : State R When) (id : Text) :
    ∃ refused supports, clearToolsRefused e s id = { s with refused, supports } := by
  rw [clearToolsRefused]
  split
  · exact ⟨_, _, rfl⟩
  · exact ⟨_, _, rfl⟩

/-- A task that is run ends, if it was cancelled, or goes on with its round. -/
theorem wake_cases {s s' : State R When} {t : Nat} {task : Task} (hs : wake e s t task = some s') :
    task.pc.alive = true ∧ (task.cancelled = true ∧ s' = s.at t .ended ∨
      task.cancelled = false ∧ ∃ todo, s' = goOn e s t todo) := by
  obtain ⟨pc, cancelled⟩ := task
  cases cancelled with
  | true =>
      cases ha : pc.alive with
      | true =>
          rw [wake, if_pos rfl, if_pos ha] at hs
          cases hs
          exact ⟨rfl, Or.inl ⟨rfl, rfl⟩⟩
      | false =>
          rw [wake, if_pos rfl, if_neg (Bool.eq_false_iff.mp ha)] at hs
          cases hs
  | false =>
      cases pc with
      | starting => cases hs; exact ⟨rfl, Or.inr ⟨rfl, _, rfl⟩⟩
      | sleeping => cases hs; exact ⟨rfl, Or.inr ⟨rfl, _, rfl⟩⟩
      | asking id upstream rest => cases hs
      | ended => cases hs

/-- A probe comes to something where one was sent. -/
theorem probe_cases {s s' : State R When} {t : Nat} {task : Task} {posted : Posted}
    (hs : probe E e s t task posted = some s') :
    ∃ id upstream rest, task = ⟨.asking id upstream rest, false⟩ ∧ s' = answered E e s t id rest posted := by
  obtain ⟨pc, cancelled⟩ := task
  cases cancelled with
  | true => cases hs
  | false =>
      cases pc with
      | asking id upstream rest => cases hs; exact ⟨id, upstream, rest, rfl, rfl⟩
      | starting => cases hs
      | sleeping => cases hs
      | ended => cases hs

/-- It clears its model, or not, and the task goes on. -/
theorem answered_cases (s : State R When) (t : Nat) (id : Text) (rest : List (Text × ToolsOff)) (posted : Posted) :
    toolsAnswered E posted = .ok (some true) ∧
        answered E e s t id rest posted = goOn e (clearToolsRefused e s id) t rest ∨
      ∃ todo, answered E e s t id rest posted = goOn e s t todo := by
  rw [answered]
  split
  · rename_i h
    exact Or.inl ⟨h, rfl⟩
  · exact Or.inr ⟨rest, rfl⟩
  · exact Or.inr ⟨[], rfl⟩

/-- A call of `aclose` takes the task the engine knows of, unless it has ended. -/
theorem aclose_cases (s : State R When) :
    (∃ t, s.watch = some t ∧ aclose s = { s with
        watch := none
        tasks := s.tasks.modify t fun task => { task with cancelled := true }
        closers := s.closers ++ [⟨some t, .waiting⟩] }) ∨
      (∀ t, s.watch = some t → s.alive t = false) ∧
        aclose s = { s with watch := none, closers := s.closers ++ [⟨none, s.released⟩], client := false } := by
  rw [aclose]
  cases hw : s.watch with
  | none =>
      exact Or.inr ⟨fun t ht => (by cases ht), rfl⟩
  | some t =>
      cases ha : s.alive t with
      | true => exact Or.inl ⟨t, rfl, if_pos ha⟩
      | false => exact Or.inr ⟨fun t' ht => by cases ht; exact ha, if_neg (Bool.eq_false_iff.mp ha)⟩

theorem aclose_frame (s : State R When) :
    ∃ watch tasks closers client, aclose s = { s with watch, tasks, closers, client } := by
  rcases aclose_cases s with ⟨t, -, heq⟩ | ⟨-, heq⟩
  · exact ⟨_, _, _, _, heq⟩
  · exact ⟨_, _, _, _, heq⟩

/-- What a call of `aclose` can come to from where it is: it has waited for
its task, was not waiting for any, or is left. -/
def Comes (s : State R When) (closer : Closer) (pc : Closing) : Prop :=
  (closer.pc = .waiting ∨ closer.pc = .raised) → pc = .raised ∨ ∀ t, closer.took = some t → s.alive t = false

theorem closeOn_cases {s s' : State R When} {k : Nat} {closer : Closer} (hs : closeOn s k closer = some s') :
    ∃ pc client, Comes s closer pc ∧ s' = { s with closers := s.closers.set k { closer with pc }, client } := by
  obtain ⟨took, pc⟩ := closer
  cases pc with
  | waiting =>
      cases ha : took.any s.alive with
      | true =>
          rw [closeOn, if_pos ha] at hs
          cases hs
      | false =>
          rw [closeOn, if_neg (Bool.eq_false_iff.mp ha)] at hs
          cases hs
          refine ⟨s.released, false, fun _ => Or.inr ?_, rfl⟩
          rintro t rfl
          exact ha
  | releasing =>
      cases hs
      refine ⟨.returned, s.client, fun h => ?_, rfl⟩
      rcases h with h | h
      · cases h
      · cases h
  | returned => cases hs
  | raised => cases hs

theorem closeOff_cases {s s' : State R When} {k : Nat} {closer : Closer} (hs : closeOff s k closer = some s') :
    s' = { s with closers := s.closers.set k { closer with pc := .raised } } := by
  obtain ⟨took, pc⟩ := closer
  cases pc with
  | waiting => cases hs; rfl
  | releasing => cases hs; rfl
  | returned => cases hs
  | raised => cases hs

/-- Nothing but requests, the client and the account's list changes; a new
request has been resolved. -/
def Aside (e : Engine R When) (s s' : State R When) : Prop :=
  ∃ requests client catalogue, s' = { s with requests, client, catalogue } ∧
    (∀ target ∈ requests, target ∈ s.requests ∨ ∃ requested, resolveModel e s requested = some target) ∧
    catalogue.isNone = s.catalogue.isNone

/-- What a step does: something aside; what a request met is learned; a task
moves; or a call of `aclose` does. -/
theorem step_cases {s s' : State R When} {m : Move R When} (hs : step E e s m = some s') :
    Aside e s s' ∨
      (∃ k tools text target words, m = .fails k tools text ∧ s.requests[k]? = some target ∧
        refusalWords E tools text = some words ∧
        s' = learnToolsRefused { s with requests := s.requests.eraseIdx k } target words) ∨
      (∃ t task, s.tasks[t]? = some task ∧ task.pc.alive = true ∧
        (task.cancelled = true ∧ s' = s.at t .ended ∨ task.cancelled = false ∧
          ((∃ todo, s' = goOn e s t todo) ∨
            ∃ id rest, Answers E s id m ∧ s' = goOn e (clearToolsRefused e s id) t rest))) ∨
      s' = aclose s ∨
      ∃ k closer pc client, s.closers[k]? = some closer ∧ Comes s closer pc ∧
        s' = { s with closers := s.closers.set k { closer with pc }, client } := by
  cases m with
  | asks requested =>
      obtain ⟨target, ht, rfl⟩ := Option.map_eq_some_iff.mp hs
      refine Or.inl ⟨_, _, _, rfl, fun t hmem => ?_, rfl⟩
      rcases List.mem_append.mp hmem with hmem | hmem
      · exact Or.inl hmem
      · exact Or.inr ⟨requested, List.mem_singleton.mp hmem ▸ ht⟩
  | ends k =>
      obtain ⟨target, -, rfl⟩ := Option.map_eq_some_iff.mp hs
      exact Or.inl ⟨_, _, _, rfl, fun t hmem => Or.inl (List.mem_of_mem_eraseIdx hmem), rfl⟩
  | fails k tools text =>
      obtain ⟨target, hk, rfl⟩ := Option.map_eq_some_iff.mp hs
      rw [upstreamRefusal]
      cases hwords : refusalWords E tools text with
      | none => exact Or.inl ⟨_, _, _, rfl, fun t hmem => Or.inl (List.mem_of_mem_eraseIdx hmem), rfl⟩
      | some words => exact Or.inr (Or.inl ⟨k, tools, text, target, words, rfl, hk, hwords, rfl⟩)
  | wakes t =>
      obtain ⟨task, ht, hs⟩ := Option.bind_eq_some_iff.mp hs
      obtain ⟨ha, hend | ⟨hc, hgo⟩⟩ := wake_cases hs
      · exact Or.inr (Or.inr (Or.inl ⟨t, task, ht, ha, Or.inl hend⟩))
      · exact Or.inr (Or.inr (Or.inl ⟨t, task, ht, ha, Or.inr ⟨hc, Or.inl hgo⟩⟩))
  | probed t posted =>
      obtain ⟨task, ht, hs⟩ := Option.bind_eq_some_iff.mp hs
      obtain ⟨id, upstream, rest, rfl, rfl⟩ := probe_cases hs
      refine Or.inr (Or.inr (Or.inl ⟨t, _, ht, rfl, Or.inr ⟨rfl, ?_⟩⟩))
      rcases answered_cases (E := E) (e := e) s t id rest posted with ⟨hyes, hgo⟩ | hgo
      · exact Or.inr ⟨id, rest, ⟨t, upstream, rest, posted, rfl, ht, hyes⟩, hgo⟩
      · exact Or.inl hgo
  | account event =>
      obtain ⟨catalogue, hcat, rfl⟩ := Option.map_eq_some_iff.mp hs
      exact Or.inl ⟨_, _, _, rfl, fun t hmem => Or.inl hmem, by rw [hcat]; rfl⟩
  | close =>
      cases hs
      exact Or.inr (Or.inr (Or.inr (Or.inl rfl)))
  | closes k =>
      obtain ⟨closer, hk, hs⟩ := Option.bind_eq_some_iff.mp hs
      obtain ⟨pc, client, hcomes, rfl⟩ := closeOn_cases hs
      exact Or.inr (Or.inr (Or.inr (Or.inr ⟨k, closer, pc, client, hk, hcomes, rfl⟩)))
  | closeRaises k =>
      obtain ⟨closer, hk, hs⟩ := Option.bind_eq_some_iff.mp hs
      cases closeOff_cases hs
      exact Or.inr (Or.inr (Or.inr (Or.inr ⟨k, closer, .raised, s.client, hk, fun _ => Or.inl rfl, rfl⟩)))

end InferenceDriver.OpenAi.Reask

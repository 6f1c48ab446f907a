/-
# `Slots.Engine` — which requests of the engine go through the slot map

`generate` and `stream` of `openai_compat_http.py` begin alike: they ask
`_slot_map` for the map, enter `hold` when there is one, and send their
request with the slot they hold.  They differ in what they do with the
answer, which is no matter here, so a CALL stands for either.

A call changes at its `await`s: while the engine's `/props` is read, in
`hold`, while a probe or its own request is under way.  A call can be
abandoned at each of them.  The engine also has a task of its own that asks
about tools again.  The steps below are what happens between two `await`s.

`engine_pinned` is the rule of `slots.py`, for the runs in which it is kept:
every request that takes a slot names one, and no two name the same.  The
steps that break it are named in `Pinned`; `engine_unpinned` is a run with
one of them, two calls on a fresh engine.
-/
import InferenceDriver.Slots.Pins

namespace InferenceDriver.Slots.Engine

variable {Key Call : Type} [DecidableEq Key] [DecidableEq Call]

/-! ## What is sent -/

/-- `Dialect.catalogue`. -/
inductive Catalogue where
  | openai
  | openrouter
  | ollama
  | lmstudio
deriving DecidableEq, Repr

structure Config where
  slotPinning : Bool
  catalogue : Catalogue
  /-- `routing_locality == "local"`. -/
  isLocal : Bool

/-- A raw completion; the suffix is what makes it fill in the middle. -/
structure Completion where
  suffix : Option String

/-- `GenerateRequest`, what is read of it here. -/
structure Request (Key : Type) where
  conversationKey : Option Key
  audioOutput : Bool
  completion : Option Completion

inductive Path where
  | chatCompletions
  | completions
  | infill
  | apiGenerate
deriving DecidableEq, Repr

/-- A request to the backend, and `id_slot` in its payload. -/
structure Post where
  path : Path
  idSlot : Option Nat
deriving DecidableEq, Repr

/-- `_completion_route`; `fills` is the answer of `probe_completion`, which
only a suffix asks for.  None: refused before anything is sent. -/
def completionRoute (cfg : Config) (completion : Completion) (slot : Option Nat)
    (fills : Option Bool) : Option Post :=
  if cfg.catalogue = .ollama then some ⟨.apiGenerate, none⟩
  else
    match completion.suffix with
    | none => some ⟨.completions, slot⟩
    | some _ => if fills = some true then some ⟨.infill, slot⟩ else none

/-- The request a call sends: `_generate` and `_stream`, or `_complete` and
`_complete_stream`. -/
def postOf (cfg : Config) (req : Request Key) (slot : Option Nat) (fills : Option Bool) :
    Option Post :=
  match req.completion with
  | none => some ⟨.chatCompletions, slot⟩
  | some completion => completionRoute cfg completion slot fills

/-! ## The calls -/

inductive Phase (Key : Type) where
  | idle
  /-- At the `await` of `_slot_map`. -/
  | reading (req : Request Key)
  /-- Waiting in `hold`. -/
  | asking (req : Request Key)
  /-- Before its request; `fills` once `probe_completion` has answered. -/
  | inside (req : Request Key) (slot : Option Nat) (fills : Option Bool)
  /-- At the `POST /infill` of `probe_completion`. -/
  | probing (req : Request Key) (slot : Option Nat)
  | sent (slot : Option Nat) (post : Post)

structure State (Key Call : Type) where
  /-- `_pins_read`. -/
  pinsRead : Bool
  /-- `_pins`, with the requests in its `hold`. -/
  pins : Option (Slots.State Key Call)
  calls : Call → Phase Key
  /-- `_completion_caps`, of which the second half is read here. -/
  completionCaps : Option Bool
  /-- `_tools_refused` holds a model. -/
  toolsRefused : Bool
  /-- `_tools_answered` is waiting for its answer. -/
  toolsAsked : Bool

def State.start : State Key Call where
  pinsRead := false
  pins := none
  calls _ := .idle
  completionCaps := none
  toolsRefused := false
  toolsAsked := false

namespace State

variable (s : State Key Call)

def move (c : Call) (ph : Phase Key) : State Key Call :=
  { s with calls := Function.update s.calls c ph }

/-- A call whose request in `hold` has just asked. -/
def settle (c : Call) (req : Request Key) (p : Slots.State Key Call) : State Key Call :=
  { s with
    pins := some p
    calls := Function.update s.calls c <|
      match p.reqs c with
      | .holding slot => .inside req (some slot) none
      | _ => .asking req }

/-- What a call does with the map: `async with pins.hold(…)`, or nothing. -/
def enter (c : Call) (req : Request Key) : Option (State Key Call) :=
  match s.pins with
  | none => some (s.move c (.inside req none none))
  | some p => (Slots.step p (.arrive c req.conversationKey)).map (s.settle c req)

/-- A call ends, however it ends: `hold` is left if it was entered. -/
def leave (c : Call) (slot : Option Nat) : Option (State Key Call) :=
  match slot, s.pins with
  | some _, some p =>
      (Slots.step p (.release c)).map fun p' => { s.move c .idle with pins := some p' }
  | _, _ => some (s.move c .idle)

end State

inductive Act (Key Call : Type) where
  | begin (c : Call) (req : Request Key)
  /-- `/props` answers, with a number of slots or without. -/
  | props (c : Call) (totalSlots : Option Nat)
  | wake (c : Call)
  /-- `probe_completion` answers without asking `/infill`: it has asked
  before, or the backend is not one that fills in the middle. -/
  | caps (c : Call) (definite : Bool)
  | probe (c : Call)
  /-- `/infill` answers; none: a transport failure. -/
  | probed (c : Call) (fills : Option Bool)
  | post (c : Call)
  /-- The answer is read to its end, or the backend refuses the request. -/
  | finish (c : Call) (toolsRefusal : Bool)
  /-- An exception or a cancellation, where the call stands. -/
  | abort (c : Call)
  | askTools
  | toolsAnswered (yes : Bool)

variable (cfg : Config)

/-- What happens between two `await`s. -/
def step (s : State Key Call) : Act Key Call → Option (State Key Call)
  | .begin c req =>
      match s.calls c with
      | .idle =>
          if req.audioOutput || !cfg.slotPinning then some (s.move c (.inside req none none))
          -- `_pins_read` is set BEFORE the read it stands for.
          else if !s.pinsRead then some { s.move c (.reading req) with pinsRead := true }
          else s.enter c req
      | _ => none
  | .props c totalSlots =>
      match s.calls c with
      | .reading req =>
          match totalSlots with
          | none => s.enter c req
          | some total =>
              match SlotPins.new total with
              | .error _ => s.enter c req
              | .ok pins => State.enter { s with pins := some (Slots.State.start pins) } c req
      | _ => none
  | .wake c =>
      match s.calls c, s.pins with
      | .asking req, some p => (Slots.step p (.resume c)).map (s.settle c req)
      | _, _ => none
  | .caps c definite =>
      match s.calls c with
      | .inside req slot none =>
          match s.completionCaps with
          | some fills => some (s.move c (.inside req slot (some fills)))
          | none =>
              some { s.move c (.inside req slot (some false)) with
                     completionCaps := if definite then some false else none }
      | _ => none
  | .probe c =>
      match s.calls c with
      | .inside req slot none =>
          if (req.completion.bind (·.suffix)).isSome ∧ cfg.catalogue ≠ .ollama ∧ cfg.isLocal ∧
              s.completionCaps = none then
            some (s.move c (.probing req slot))
          else none
      | _ => none
  | .probed c fills =>
      match s.calls c with
      | .probing req slot =>
          some { s.move c (.inside req slot (some (fills.getD false))) with
                 completionCaps := fills }
      | _ => none
  | .post c =>
      match s.calls c with
      | .inside req slot fills => (postOf cfg req slot fills).map fun p => s.move c (.sent slot p)
      | _ => none
  | .finish c toolsRefusal =>
      match s.calls c with
      | .sent slot _ =>
          (s.leave c slot).map fun s' => { s' with toolsRefused := s.toolsRefused || toolsRefusal }
      | _ => none
  | .abort c =>
      match s.calls c with
      | .idle => none
      | .reading _ => some (s.move c .idle)
      | .asking _ =>
          s.pins.bind fun p =>
            (Slots.step p (.cancel c)).map fun p' => { s.move c .idle with pins := some p' }
      | .inside _ slot _ => s.leave c slot
      | .probing _ slot => s.leave c slot
      | .sent slot _ => s.leave c slot
  | .askTools =>
      if s.toolsRefused ∧ s.toolsAsked = false then some { s with toolsAsked := true } else none
  | .toolsAnswered yes =>
      if s.toolsAsked then
        some { s with toolsAsked := false, toolsRefused := s.toolsRefused && !yes }
      else none

def system (Key Call : Type) [DecidableEq Key] [DecidableEq Call] (cfg : Config) :
    Lts.System (State Key Call) (Act Key Call) where
  init s := s = State.start
  step := step cfg

/-- Who has a request under way: a call, or the task that asks about tools. -/
inductive Sender (Call : Type) where
  | call (c : Call)
  | tools

/-- The requests under way that take a slot of the engine. -/
def InFlight (s : State Key Call) : Sender Call → Post → Prop
  | .call c, p => (∃ req slot, s.calls c = .probing req slot ∧ p = ⟨.infill, none⟩) ∨
      ∃ slot, s.calls c = .sent slot p
  | .tools, p => s.toolsAsked = true ∧ p = ⟨.chatCompletions, none⟩

/-! ## No two requests name one slot -/

/-- What a call's place in `hold` is, seen from the call. -/
def Fits (ph : Phase Key) (h : Slots.Phase Key) : Prop :=
  match ph with
  | .idle => h = .out
  | .reading _ => h = .out
  | .asking _ => ∃ key e, h = .waiting key e
  | .inside _ slot _ => h = slot.elim .out .holding
  | .probing _ slot => h = slot.elim .out .holding
  | .sent slot post => h = slot.elim .out .holding ∧ (post.idSlot = none ∨ post.idSlot = slot)

/-- Where a call is in `hold`. -/
def State.held (s : State Key Call) (c : Call) : Slots.Phase Key :=
  match s.pins with
  | none => .out
  | some p => p.reqs c

structure Inv (s : State Key Call) : Prop where
  reach : ∀ p, s.pins = some p → ∃ n, Lts.Reach (Slots.system Key Call n) p
  fits : ∀ c, Fits (s.calls c) (s.held c)
  unread : s.pinsRead = false → s.pins = none ∧ ∀ c req, s.calls c ≠ .reading req
  /-- One call reads `/props`, and there is no map before it has. -/
  reading : ∀ c req, s.calls c = .reading req →
    s.pins = none ∧ ∀ c' req', s.calls c' = .reading req' → c' = c

omit [DecidableEq Key] in
/-- A request names the slot its call holds, or none. -/
theorem idSlot_postOf {cfg : Config} {req : Request Key} {slot : Option Nat} {fills : Option Bool}
    {post : Post} (h : postOf cfg req slot fills = some post) :
    post.idSlot = none ∨ post.idSlot = slot := by
  unfold postOf completionRoute at h
  split at h
  · cases h; exact Or.inr rfl
  · split at h
    · cases h; exact Or.inl rfl
    · split at h
      · cases h; exact Or.inr rfl
      · split at h
        · cases h; exact Or.inr rfl
        · cases h

section Steps
variable {s s' : State Key Call} {c : Call}

omit [DecidableEq Key] in
/-- The calls that read `/props` once another call has moved. -/
theorem reading_of_move {ph : Phase Key} (hr : ∀ req, ph ≠ .reading req) {c' : Call}
    {req : Request Key} (h : Function.update s.calls c ph c' = .reading req) :
    s.calls c' = .reading req := by
  rcases update_eq h with ⟨-, h⟩ | ⟨-, h⟩
  · exact absurd h (hr req)
  · exact h

/-- A call that moves and leaves `hold` alone. -/
theorem Inv.move (hi : Inv s) {f : Phase Key} (hf : Fits f (s.held c))
    (hr : ∀ req, f ≠ .reading req) : Inv (s.move c f) := by
  refine ⟨hi.reach, fun c' => ?_, fun h => ⟨(hi.unread h).1, fun c' req h' =>
    (hi.unread h).2 c' req (reading_of_move hr h')⟩, fun c' req h => ?_⟩
  · show Fits (Function.update s.calls c f c') (s.held c')
    by_cases hc : c' = c
    · subst hc
      rw [Function.update_self]
      exact hf
    · rw [Function.update_of_ne hc]
      exact hi.fits c'
  · obtain ⟨h₁, h₂⟩ := hi.reading c' req (reading_of_move hr h)
    exact ⟨h₁, fun c'' req' h' => h₂ c'' req' (reading_of_move hr h')⟩

/-- A call that moves with its request in `hold`. -/
theorem Inv.hold (hi : Inv s) {p p' : Slots.State Key Call} (hp : s.pins = some p)
    {a : Slots.Act Key Call} (ha : Slots.step p a = some p') {f : Phase Key}
    (hf : Fits f (p'.reqs a.req)) (hr : ∀ req, f ≠ .reading req) :
    Inv { s.move a.req f with pins := some p' } := by
  have none_reads : ∀ c' req, s.calls c' ≠ .reading req := by
    intro c' req h
    have := (hi.reading c' req h).1
    rw [hp] at this
    cases this
  refine ⟨fun q hq => ?_, fun c' => ?_, fun h => ?_,
    fun c' req h => absurd (reading_of_move hr h) (none_reads c' req)⟩
  · cases hq
    obtain ⟨n, hn⟩ := hi.reach p hp
    exact ⟨n, hn.next (l := a) ha⟩
  · show Fits (Function.update s.calls a.req f c') (p'.reqs c')
    by_cases hc : c' = a.req
    · subst hc
      rw [Function.update_self]
      exact hf
    · rw [Function.update_of_ne hc, Slots.step_other ha hc]
      have := hi.fits c'
      rwa [State.held, hp] at this
  · have := (hi.unread h).1
    rw [hp] at this
    cases this

/-- Where a call stands whose request has just asked. -/
theorem Inv.settle (hi : Inv s) {p p' : Slots.State Key Call} (hp : s.pins = some p)
    {a : Slots.Act Key Call} (ha : Slots.step p a = some p') (req : Request Key)
    (hasked : (∃ slot, p'.reqs a.req = .holding slot) ∨ ∃ key e, p'.reqs a.req = .waiting key e) :
    Inv (s.settle a.req req p') := by
  rcases hasked with ⟨slot, h⟩ | ⟨key, e, h⟩
  · have := hi.hold hp ha (f := .inside req (some slot) none) h (fun _ e => (by cases e))
    simpa only [State.settle, State.move, h] using this
  · have := hi.hold hp ha (f := .asking req) ⟨key, e, h⟩ (fun _ e => (by cases e))
    simpa only [State.settle, State.move, h] using this

/-- A call enters `hold`, or goes on without. -/
theorem Inv.enter (hi : Inv (s.move c .idle)) {req : Request Key}
    (h : s.enter c req = some s') : Inv s' := by
  unfold State.enter at h
  cases hp : s.pins with
  | none =>
      rw [hp] at h
      cases h
      have := hi.move (c := c) (f := .inside req none none)
        (by show (s.move c .idle).held c = .out; simp only [State.held, State.move, hp])
        (fun _ e => (by cases e))
      simpa only [State.move, Function.update_idem] using this
  | some p =>
      rw [hp] at h
      obtain ⟨p', hs, rfl⟩ := Option.map_eq_some_iff.mp h
      have := hi.settle hp hs req (step_arrive hs)
      simpa only [State.settle, State.move, Act.req, Function.update_idem] using this

/-- A call ends. -/
theorem Inv.leave (hi : Inv s) {slot : Option Nat} (hf : s.held c = slot.elim .out .holding)
    (h : s.leave c slot = some s') : Inv s' := by
  cases slot with
  | none =>
      cases h
      exact hi.move hf (fun _ e => (by cases e))
  | some n =>
      cases hp : s.pins with
      | none =>
          simp only [State.leave, hp] at h
          cases h
          refine hi.move ?_ (fun _ e => (by cases e))
          show s.held c = .out
          simp only [State.held, hp]
      | some p =>
          simp only [State.leave, hp] at h
          obtain ⟨p', hs, rfl⟩ := Option.map_eq_some_iff.mp h
          exact hi.hold hp hs (f := .idle) (step_release hs) (fun _ e => (by cases e))

/-- A call begins to read `/props`: the first. -/
theorem Inv.read (hi : Inv s) {req : Request Key} (hout : s.held c = .out)
    (hread : s.pinsRead = false) : Inv { s.move c (.reading req) with pinsRead := true } := by
  obtain ⟨hnone, hno⟩ := hi.unread hread
  refine ⟨hi.reach, fun c' => ?_, fun h => Bool.noConfusion h, fun c' req' h => ⟨hnone, ?_⟩⟩
  · show Fits (Function.update s.calls c (.reading req) c') (s.held c')
    by_cases hc : c' = c
    · subst hc
      rw [Function.update_self]
      exact hout
    · rw [Function.update_of_ne hc]
      exact hi.fits c'
  · have only : ∀ c'' req'', Function.update s.calls c (.reading req) c'' = .reading req'' →
        c'' = c := by
      intro c'' req'' h
      rcases update_eq h with ⟨h, -⟩ | ⟨-, h⟩
      · exact h
      · exact absurd h (hno c'' req'')
    intro c'' req'' h'
    exact (only c'' req'' h').trans (only c' req' h).symm

/-- Once `/props` has answered, there is a map and nobody is in it. -/
theorem Inv.map (hi : Inv s) {req : Request Key} (hc : s.calls c = .reading req)
    {total : Nat} {pins : SlotPins Key} (hp : SlotPins.new total = .ok pins) :
    Inv { s.move c .idle with pins := some (Slots.State.start pins) } := by
  obtain ⟨hnone, hone⟩ := hi.reading c req hc
  have hheld : ∀ c', s.held c' = .out := fun c' => by simp only [State.held, hnone]
  have none_reads : ∀ c' req', Function.update s.calls c .idle c' ≠ .reading req' := by
    intro c' req' h
    rcases update_eq h with ⟨-, h⟩ | ⟨hne, h⟩
    · cases h
    · exact hne (hone c' req' h)
  refine ⟨fun p h => ?_, fun c' => ?_, fun h => absurd hc ((hi.unread h).2 c req),
    fun c' req' h => absurd h (none_reads c' req')⟩
  · cases h
    exact ⟨total, .start ⟨pins, hp, rfl⟩⟩
  · show Fits (Function.update s.calls c .idle c') .out
    by_cases h : c' = c
    · subst h
      rw [Function.update_self]; rfl
    · rw [Function.update_of_ne h, ← hheld c']
      exact hi.fits c'

theorem Inv.step (hi : Inv s) {a : Act Key Call} (h : step cfg s a = some s') : Inv s' := by
  cases a with
  | begin c req =>
      simp only [Engine.step] at h
      split at h
      · rename_i hc
        have hout : s.held c = .out := by have := hi.fits c; rwa [hc] at this
        split at h
        · cases h
          exact hi.move hout (fun _ e => (by cases e))
        · split at h
          · rename_i hread
            cases h
            exact hi.read hout (by simpa using hread)
          · refine Inv.enter ?_ h
            exact hi.move hout (fun _ e => (by cases e))
      · cases h
  | props c totalSlots =>
      simp only [Engine.step] at h
      split at h
      · rename_i req hc
        have hout : s.held c = .out := by have := hi.fits c; rwa [hc] at this
        have hidle : Inv (s.move c .idle) := hi.move hout (fun _ e => (by cases e))
        split at h
        · exact hidle.enter h
        · split at h
          · exact hidle.enter h
          · rename_i pins hp
            exact Inv.enter (hi.map hc hp) h
      · cases h
  | wake c =>
      simp only [Engine.step] at h
      split at h
      · rename_i req p hc hp
        obtain ⟨p', hs, rfl⟩ := Option.map_eq_some_iff.mp h
        exact hi.settle hp hs req (step_resume hs)
      · cases h
  | caps c definite =>
      simp only [Engine.step] at h
      split at h
      · rename_i req slot hc
        have hf := hi.fits c
        rw [hc] at hf
        split at h
        · cases h
          exact hi.move hf (fun _ e => (by cases e))
        · cases h
          have := hi.move (c := c) (f := .inside req slot (some false)) hf (fun _ e => (by cases e))
          exact ⟨this.reach, this.fits, this.unread, this.reading⟩
      · cases h
  | probe c =>
      simp only [Engine.step] at h
      split at h
      · rename_i req slot hc
        have hf := hi.fits c
        rw [hc] at hf
        split at h
        · cases h
          exact hi.move hf (fun _ e => (by cases e))
        · cases h
      · cases h
  | probed c fills =>
      simp only [Engine.step] at h
      split at h
      · rename_i req slot hc
        have hf := hi.fits c
        rw [hc] at hf
        cases h
        have := hi.move (c := c) (f := .inside req slot (some (fills.getD false))) hf
          (fun _ e => (by cases e))
        exact ⟨this.reach, this.fits, this.unread, this.reading⟩
      · cases h
  | post c =>
      simp only [Engine.step] at h
      split at h
      · rename_i req slot fills hc
        have hf := hi.fits c
        rw [hc] at hf
        obtain ⟨post, hp, rfl⟩ := Option.map_eq_some_iff.mp h
        exact hi.move ⟨hf, idSlot_postOf hp⟩ (fun _ e => (by cases e))
      · cases h
  | finish c toolsRefusal =>
      simp only [Engine.step] at h
      split at h
      · rename_i slot post hc
        have hf := hi.fits c
        rw [hc] at hf
        obtain ⟨s₁, hs, rfl⟩ := Option.map_eq_some_iff.mp h
        have := hi.leave hf.1 hs
        exact ⟨this.reach, this.fits, this.unread, this.reading⟩
      · cases h
  | abort c =>
      have hf := hi.fits c
      simp only [Engine.step] at h
      split at h
      · cases h
      · rename_i req hc
        rw [hc] at hf
        cases h
        exact hi.move hf (fun _ e => (by cases e))
      · obtain ⟨p, hp, h⟩ := Option.bind_eq_some_iff.mp h
        obtain ⟨p', hs, rfl⟩ := Option.map_eq_some_iff.mp h
        exact hi.hold hp hs (f := .idle) (step_cancel hs) (fun _ e => (by cases e))
      · rename_i hc
        rw [hc] at hf
        exact hi.leave hf h
      · rename_i hc
        rw [hc] at hf
        exact hi.leave hf h
      · rename_i hc
        rw [hc] at hf
        exact hi.leave hf.1 h
  | askTools =>
      simp only [Engine.step] at h
      split at h
      · cases h
        exact ⟨hi.reach, hi.fits, hi.unread, hi.reading⟩
      · cases h
  | toolsAnswered yes =>
      simp only [Engine.step] at h
      split at h
      · cases h
        exact ⟨hi.reach, hi.fits, hi.unread, hi.reading⟩
      · cases h

theorem inv_start : Inv (State.start : State Key Call) where
  reach _ h := by cases h
  fits _ := rfl
  unread _ := ⟨rfl, fun _ _ h => (by cases h)⟩
  reading _ _ h := by cases h

theorem reach_inv (h : Lts.Reach (system Key Call cfg) s) : Inv s := by
  refine Lts.Reach.invariant (I := Inv) ?start ?step h
  case start =>
    rintro s rfl
    exact inv_start
  case step =>
    intro s a s' hi hs
    exact hi.step cfg hs

end Steps

/-- A request that names a slot is sent by the call that holds it. -/
theorem held_of_inFlight {s : State Key Call} (hi : Inv s) {x : Sender Call} {post : Post} {n : Nat}
    (h : InFlight s x post) (hn : post.idSlot = some n) :
    ∃ c, x = .call c ∧ s.held c = .holding n := by
  cases x with
  | call c =>
      rcases h with ⟨req, slot, -, rfl⟩ | ⟨slot, hc⟩
      · cases hn
      · have hf := hi.fits c
        rw [hc] at hf
        obtain ⟨hf, hs | hs⟩ := hf
        · rw [hs] at hn; cases hn
        · rw [← hs, hn] at hf
          exact ⟨c, rfl, hf⟩
  | tools =>
      rw [h.2] at hn
      cases hn

/-- **No two requests under way name the same slot**, in any run. -/
theorem inFlight_distinct {s : State Key Call} (h : Lts.Reach (system Key Call cfg) s)
    {x x' : Sender Call} {post post' : Post} {n : Nat} (hx : InFlight s x post)
    (hx' : InFlight s x' post') (hn : post.idSlot = some n) (hn' : post'.idSlot = some n) :
    x = x' := by
  have hi := reach_inv cfg h
  obtain ⟨c, rfl, hc⟩ := held_of_inFlight hi hx hn
  obtain ⟨c', rfl, hc'⟩ := held_of_inFlight hi hx' hn'
  cases hp : s.pins with
  | none => rw [State.held, hp] at hc; cases hc
  | some p =>
      obtain ⟨total, hr⟩ := hi.reach p hp
      rw [State.held, hp] at hc hc'
      rw [(Slots.reach_inv hr).once c c' n hc hc']

/-! ## Every request names a slot, in the runs that keep the rule -/

/-- The engine answers `/props` with a number of slots, and no call asks for
audio. -/
def Scoped : Act Key Call → Prop
  | .begin _ req => req.audioOutput = false
  | .props _ totalSlots => ∃ total, 1 ≤ total ∧ totalSlots = some total
  | _ => True

/-- The steps that keep the rule of the map.  The others send a request
past it: a call that begins when the map has been asked for and is not
there, the `/infill` of a probe, a raw completion on an Ollama catalogue,
and the one-token request about tools. -/
def Pinned (s : State Key Call) : Act Key Call → Prop
  | .begin _ _ => ¬ (s.pinsRead = true ∧ s.pins = none)
  | .probe _ => False
  | .post c => ∀ req slot fills, s.calls c = .inside req slot fills → cfg.catalogue = .ollama →
      req.completion = none
  | .askTools => False
  | _ => True

/-- A call with a request under way, or about to have one, has a slot. -/
def Tight : Phase Key → Prop
  | .inside _ slot _ => slot.isSome
  | .probing _ _ => False
  | .sent _ post => post.idSlot.isSome
  | _ => True

structure Bound (s : State Key Call) : Prop where
  tools : s.toolsAsked = false
  tight : ∀ c, Tight (s.calls c)

omit [DecidableEq Key] in
/-- A call with a slot names it, but for a raw completion on Ollama. -/
theorem idSlot_isSome {cfg : Config} {req : Request Key} {slot : Option Nat} {fills : Option Bool}
    {post : Post} (h : postOf cfg req slot fills = some post) (hs : slot.isSome)
    (ho : cfg.catalogue = .ollama → req.completion = none) : post.idSlot.isSome := by
  unfold postOf completionRoute at h
  split at h
  · cases h; exact hs
  · rename_i completion hc
    split at h
    · rename_i hcat
      rw [ho hcat] at hc
      cases hc
    · split at h
      · cases h; exact hs
      · split at h
        · cases h; exact hs
        · cases h

section Steps
variable {s s' : State Key Call} {c : Call}

omit [DecidableEq Key] in
theorem Bound.update (hb : Bound s) {ph : Phase Key} (ht : Tight ph) (c' : Call) :
    Tight (Function.update s.calls c ph c') := by
  by_cases hc : c' = c
  · subst hc; rw [Function.update_self]; exact ht
  · rw [Function.update_of_ne hc]; exact hb.tight c'

omit [DecidableEq Key] in
theorem Bound.settle (hb : Bound s) (req : Request Key) (p : Slots.State Key Call) :
    Bound (s.settle c req p) := by
  refine ⟨hb.tools, hb.update ?_⟩
  split
  · exact rfl
  · exact trivial

theorem Bound.enter (hb : Bound s) {req : Request Key} (hp : s.pins ≠ none)
    (h : s.enter c req = some s') : Bound s' := by
  unfold State.enter at h
  split at h
  · rename_i hn; exact absurd hn hp
  · obtain ⟨p', -, rfl⟩ := Option.map_eq_some_iff.mp h
    exact hb.settle req p'

theorem Bound.leave (hb : Bound s) {slot : Option Nat} (h : s.leave c slot = some s') :
    Bound s' := by
  unfold State.leave at h
  split at h
  · obtain ⟨p', -, rfl⟩ := Option.map_eq_some_iff.mp h
    exact ⟨hb.tools, hb.update trivial⟩
  · cases h
    exact ⟨hb.tools, hb.update trivial⟩

theorem Bound.step (hb : Bound s) (hon : cfg.slotPinning = true) {a : Act Key Call}
    (hs : Scoped a) (hp : Pinned cfg s a) (h : step cfg s a = some s') : Bound s' := by
  cases a with
  | begin c req =>
      have haudio : req.audioOutput = false := hs
      simp only [Engine.step, haudio, hon, Bool.not_true, Bool.or_self, Bool.false_eq_true,
        if_false] at h
      split at h
      · split at h
        · cases h
          exact ⟨hb.tools, hb.update trivial⟩
        · rename_i hread
          exact hb.enter (fun hn => hp ⟨by simpa using hread, hn⟩) h
      · cases h
  | props c totalSlots =>
      obtain ⟨total, hpos, rfl⟩ := hs
      simp only [Engine.step] at h
      split at h
      · split at h
        · rename_i e he
          unfold SlotPins.new at he
          rw [dif_neg (by omega)] at he
          cases he
        · rename_i pins hnew
          have hb' : Bound { s with pins := some (Slots.State.start pins) } := ⟨hb.tools, hb.tight⟩
          exact hb'.enter (by simp) h
      · cases h
  | wake c =>
      simp only [Engine.step] at h
      split at h
      · obtain ⟨p', -, rfl⟩ := Option.map_eq_some_iff.mp h
        exact hb.settle _ p'
      · cases h
  | caps c definite =>
      simp only [Engine.step] at h
      split at h
      · rename_i req slot hc
        have ht := hb.tight c
        rw [hc] at ht
        split at h
        · cases h
          exact ⟨hb.tools, hb.update ht⟩
        · cases h
          exact ⟨hb.tools, hb.update ht⟩
      · cases h
  | probe c => exact hp.elim
  | probed c fills =>
      simp only [Engine.step] at h
      split at h
      · rename_i hc
        have ht := hb.tight c
        rw [hc] at ht
        exact ht.elim
      · cases h
  | post c =>
      simp only [Engine.step] at h
      split at h
      · rename_i req slot fills hc
        have ht := hb.tight c
        rw [hc] at ht
        obtain ⟨post, hpost, rfl⟩ := Option.map_eq_some_iff.mp h
        exact ⟨hb.tools, hb.update (idSlot_isSome hpost ht (hp req slot fills hc))⟩
      · cases h
  | finish c toolsRefusal =>
      simp only [Engine.step] at h
      split at h
      · obtain ⟨s₁, hs₁, rfl⟩ := Option.map_eq_some_iff.mp h
        have := hb.leave hs₁
        exact ⟨this.tools, this.tight⟩
      · cases h
  | abort c =>
      simp only [Engine.step] at h
      split at h
      · cases h
      · cases h
        exact ⟨hb.tools, hb.update trivial⟩
      · obtain ⟨p, -, h⟩ := Option.bind_eq_some_iff.mp h
        obtain ⟨p', -, rfl⟩ := Option.map_eq_some_iff.mp h
        exact ⟨hb.tools, hb.update trivial⟩
      · exact hb.leave h
      · exact hb.leave h
      · exact hb.leave h
  | askTools => exact hp.elim
  | toolsAnswered yes =>
      simp only [Engine.step, hb.tools, Bool.false_eq_true, if_false] at h
      cases h

end Steps

/-- **Every request names a slot, in every run whose steps all keep the
rule; and no two requests under way name the same one, in any run.** -/
theorem engine_pinned (hon : cfg.slotPinning = true) (s : State Key Call) :
    (Lts.Run (system Key Call cfg) (fun s a => Scoped a ∧ Pinned cfg s a) s →
      ∀ x post, InFlight s x post → ∃ n, post.idSlot = some n) ∧
    (Lts.Reach (system Key Call cfg) s →
      ∀ x x' post post' n, InFlight s x post → InFlight s x' post' →
        post.idSlot = some n → post'.idSlot = some n → x = x') := by
  constructor
  · intro h x post hx
    have hb : Bound s := by
      refine Lts.Run.invariant (I := Bound) ?start ?step h
      case start =>
        rintro s rfl
        exact ⟨rfl, fun _ => trivial⟩
      case step =>
        intro s a s' hb hok hs
        exact hb.step cfg hon hok.1 hok.2 hs
    cases x with
    | call c =>
        have ht := hb.tight c
        rcases hx with ⟨req, slot, hc, -⟩ | ⟨slot, hc⟩
        · rw [hc] at ht; exact ht.elim
        · rw [hc] at ht; exact Option.isSome_iff_exists.mp ht
    | tools => cases hb.tools.symm.trans hx.1
  · intro h x x' post post' n hx hx' hn hn'
    exact inFlight_distinct cfg h hx hx' hn hn'

/-- A pinned engine that is no Ollama, and a chat of conversation `key`. -/
def sample : Config := ⟨true, .openai, true⟩

def chat (key : Nat) : Request Nat := ⟨some key, false, none⟩

/-- The first call reads `/props`, is given slot 0 and names it. -/
theorem engine_pinned_first : ∃ s : State Nat Nat,
    InFlight s (.call 0) ⟨.chatCompletions, some 0⟩ ∧
      ∀ x post, InFlight s x post → ∃ n, post.idSlot = some n := by
  have h₀ : Lts.Run (system Nat Nat sample) (fun s a => Scoped a ∧ Pinned sample s a) State.start :=
    .start rfl
  have h₁ := h₀.next (l := .begin 0 (chat 7)) (by exact ⟨rfl, fun h => by cases h.1⟩) rfl
  have h₂ := h₁.next (l := .props 0 (some 2)) (by exact ⟨⟨2, by decide, rfl⟩, trivial⟩) rfl
  have h₃ := h₂.next (l := .post 0) (by exact ⟨trivial, fun _ _ _ _ h => (by cases h)⟩) rfl
  exact ⟨_, Or.inr ⟨some 0, rfl⟩, (engine_pinned sample rfl _).1 h₃⟩

/-- Two calls on a fresh engine: the second begins while the first reads
`/props`, finds no map and goes without. -/
theorem engine_unpinned : ¬ ∀ s : State Nat Nat,
    Lts.Run (system Nat Nat sample) (fun _ a => Scoped a) s →
      ∀ x post, InFlight s x post → ∃ n, post.idSlot = some n := by
  intro h
  have h₀ : Lts.Run (system Nat Nat sample) (fun _ a => Scoped a) State.start := .start rfl
  have h₁ := h₀.next (l := .begin 0 (chat 7)) (by exact rfl) rfl
  have h₂ := h₁.next (l := .begin 1 (chat 8)) (by exact rfl) rfl
  have h₃ := h₂.next (l := .post 1) (by exact trivial) rfl
  obtain ⟨n, hn⟩ := h _ h₃ (.call 1) ⟨.chatCompletions, none⟩ (Or.inr ⟨none, rfl⟩)
  cases hn

end InferenceDriver.Slots.Engine

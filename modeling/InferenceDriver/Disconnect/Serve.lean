/-
# `Disconnect.Serve` — a call is left only when the work it started has finished

`serve_while_connected` races two tasks, the work and a watcher of the
client's connection, and has to leave with neither of them running: a
backend call that is only asked to stop goes on computing.  Every
interleaving of the two, of a client that leaves and of a handler that is
itself cancelled is a run of `serving`; a handler's step goes from one
`await` to the next.

Three of its four endings wait for the work.  The fourth does not: a handler
cancelled in `asyncio.wait` cancels the work, waits for the watcher alone
and leaves (`left_working`), and a watcher that fails takes the handler out
through the same `finally` with the work not even cancelled.
`serve_settles` is what holds in the runs that keep out of both.
-/
import InferenceDriver.Lib.Lts

namespace InferenceDriver.Disconnect

/-! ## Tasks -/

/-- How a task ends. -/
inductive Outcome (V E : Type) where
  | returned (value : V)
  | raised (error : E)
  | cancelled
deriving DecidableEq

/-- The task of the work; it may take any number of steps to react to a cancellation. -/
inductive Work (V E : Type) where
  | pending (cancelRequested : Bool)
  | done (outcome : Outcome V E)
deriving DecidableEq

/-- The task of `_watch`; it returns when it has seen the disconnect. -/
inductive Watcher (E : Type) where
  | pending (cancelRequested : Bool)
  | returned
  | raised (error : E)
  | cancelled
deriving DecidableEq

variable {V E : Type}

/-- `task.cancel()`: a request, and nothing for a task that is done. -/
def Work.cancel : Work V E → Work V E
  | pending _ => pending true
  | done outcome => done outcome

def Watcher.cancel : Watcher E → Watcher E
  | pending _ => pending true
  | w => w

/-- What a task that is done has ended with. -/
def Work.outcome : Work V E → Option (Outcome V E)
  | pending _ => none
  | done outcome => some outcome

def Watcher.isPending : Watcher E → Bool
  | pending _ => true
  | _ => false

/-! ## The handler -/

/-- How the handler leaves. -/
inductive Exit (V E : Type) where
  /-- `return task.result()`: the work's value, its error or its cancellation. -/
  | result (outcome : Outcome V E)
  /-- `ClientGone`. -/
  | clientGone
  /-- The handler's own cancellation goes on. -/
  | cancelled
  /-- The watcher's error comes out of `await watcher`. -/
  | watcherError (error : E)
deriving DecidableEq

/-- Where the handler is. -/
inductive Pc (V E : Type) where
  /-- In `asyncio.wait`. -/
  | waiting
  /-- In the `finally`, awaiting the watcher: with a `CancelledError` to go
  on with or not, what `task in done` found, and whether the handler has
  been cancelled since the watcher was done. -/
  | watching (raising : Bool) (inDone : Option (Outcome V E)) (interrupted : Bool)
  /-- Awaiting the work it has cancelled. -/
  | reaping
  | left (exit : Exit V E)
deriving DecidableEq

structure State (V E : Type) where
  work : Work V E
  watcher : Watcher E
  pc : Pc V E
  /-- The disconnect was seen with the work still going. -/
  seenFirst : Bool
deriving DecidableEq

/-- What follows the `finally`. -/
def afterFinally (s : State V E) (raising : Bool) (inDone : Option (Outcome V E)) : State V E :=
  if raising then { s with pc := .left .cancelled }
  else
    match inDone with
    | some outcome => { s with pc := .left (.result outcome) }
    | none =>
        match s.work with
        | .done _ => { s with pc := .left .clientGone }
        | .pending _ => { s with work := .pending true, pc := .reaping }

/-- `await watcher`, suppressing a cancellation, with the handler running. -/
def awaitWatcher (s : State V E) (raising : Bool) (inDone : Option (Outcome V E))
    (interrupted : Bool) : State V E :=
  match s.watcher with
  | .pending _ => { s with pc := .watching raising inDone interrupted }
  | .raised error =>
      if interrupted then afterFinally s raising inDone else { s with pc := .left (.watcherError error) }
  | _ => afterFinally s raising inDone

inductive Move (V E : Type) where
  /-- The work ends, cancelled or not. -/
  | workEnds (outcome : Outcome V E)
  /-- The watcher sees the disconnect. -/
  | disconnect
  | watcherFails (error : E)
  /-- The watcher's cancellation reaches it. -/
  | watcherCancelled
  /-- The handler is cancelled. -/
  | cancel
  /-- What the handler awaits is there, and it goes on. -/
  | resume

def step (s : State V E) : Move V E → Option (State V E)
  | .workEnds outcome =>
      match s.work with
      | .pending _ => some { s with work := .done outcome }
      | .done _ => none
  | .disconnect =>
      match s.watcher with
      | .pending _ => some { s with watcher := .returned, seenFirst := s.seenFirst || s.work.outcome.isNone }
      | _ => none
  | .watcherFails error =>
      match s.watcher with
      | .pending _ => some { s with watcher := .raised error }
      | _ => none
  | .watcherCancelled =>
      match s.watcher with
      | .pending true => some { s with watcher := .cancelled }
      | _ => none
  | .cancel =>
      match s.pc with
      -- `except CancelledError`, and on into the `finally`
      | .waiting =>
          some (awaitWatcher { s with work := s.work.cancel, watcher := s.watcher.cancel } true none false)
      -- a pending task that is awaited takes the cancellation over
      | .watching raising inDone _ =>
          match s.watcher with
          | .pending _ => some { s with watcher := .pending true }
          | _ => some { s with pc := .watching raising inDone true }
      | .reaping => some { s with work := s.work.cancel }
      | .left _ => none
  | .resume =>
      match s.pc with
      | .waiting =>
          if s.work.outcome = none ∧ s.watcher.isPending then none
          else some (awaitWatcher { s with watcher := s.watcher.cancel } false s.work.outcome false)
      | .watching raising inDone interrupted =>
          if s.watcher.isPending then none else some (awaitWatcher s raising inDone interrupted)
      | .reaping =>
          match s.work with
          | .pending _ => none
          | .done _ => some { s with pc := .left .clientGone }
      | .left _ => none

/-- The call begins: the work may be a task already, running or not. -/
def serving : Lts.System (State V E) (Move V E) where
  init s := s.watcher = .pending false ∧ s.pc = .waiting ∧ s.seenFirst = false
  step := step

/-! ## What is claimed, and when -/

/-- The handler has left only if the work has finished; and with the work's
outcome, unless it was cancelled itself or the client was seen to leave
first. -/
def Settled (s : State V E) : Prop :=
  ∀ exit, s.pc = .left exit → ∃ outcome, s.work = .done outcome ∧
    (exit = .result outcome ∨ exit = .cancelled ∨ exit = .clientGone ∧ s.seenFirst = true)

/-- The handler is not cancelled in `asyncio.wait` while the work is going,
and the watcher does not fail. -/
def Undisturbed (s : State V E) : Move V E → Prop
  | .cancel => s.pc = .waiting → s.work.outcome ≠ none
  | .watcherFails _ => False
  | _ => True

/-! ## One step -/

theorem outcome_eq_some {w : Work V E} {o : Outcome V E} : w.outcome = some o ↔ w = .done o := by
  cases w with
  | pending c => exact ⟨fun h => (by cases h), fun h => (by cases h)⟩
  | done o' => exact ⟨fun h => by cases h; rfl, fun h => by cases h; rfl⟩

theorem cancel_of_done {w : Work V E} {o : Outcome V E} (h : w = .done o) : w.cancel = .done o := by
  rw [h]
  rfl

/-- What is known of a call at each place the handler can be. -/
def Known (s : State V E) : Prop :=
  match s.pc with
  | .waiting => s.watcher = .pending false ∨
      s.watcher = .returned ∧ (s.work.outcome = none → s.seenFirst = true)
  | .watching true _ _ => s.work.outcome ≠ none
  | .watching false (some outcome) _ => s.work = .done outcome
  | .watching false none _ => s.seenFirst = true
  | .reaping => s.seenFirst = true
  | .left _ => Settled s

structure Inv (s : State V E) : Prop where
  /-- The watcher has not failed. -/
  sound : ∀ e, s.watcher ≠ .raised e
  known : Known s

theorem known_afterFinally {s : State V E} {raising : Bool} {inDone : Option (Outcome V E)}
    (h : Known { s with pc := .watching raising inDone false }) : Known (afterFinally s raising inDone) := by
  obtain ⟨work, watcher, pc, seenFirst⟩ := s
  cases raising with
  | true =>
      obtain ⟨o, ho⟩ := Option.ne_none_iff_exists'.mp h
      rintro exit ⟨⟩
      exact ⟨o, outcome_eq_some.mp ho, Or.inr (Or.inl rfl)⟩
  | false =>
      cases inDone with
      | some o =>
          rintro exit ⟨⟩
          exact ⟨o, h, Or.inl rfl⟩
      | none =>
          cases work with
          | pending c => exact h
          | done o =>
              rintro exit ⟨⟩
              exact ⟨o, rfl, Or.inr (Or.inr ⟨rfl, h⟩)⟩

@[simp] theorem afterFinally_watcher (s : State V E) (raising : Bool) (inDone : Option (Outcome V E)) :
    (afterFinally s raising inDone).watcher = s.watcher := by
  obtain ⟨work, watcher, pc, seenFirst⟩ := s
  cases raising with
  | true => rfl
  | false =>
      cases inDone with
      | some o => rfl
      | none =>
          cases work with
          | pending c => rfl
          | done o => rfl

/-- `await watcher` keeps what is known, of a watcher that has not failed. -/
theorem inv_awaitWatcher {s : State V E} {raising : Bool} {inDone : Option (Outcome V E)}
    {interrupted : Bool} (hs : ∀ e, s.watcher ≠ .raised e)
    (h : ∀ i, Known { s with pc := .watching raising inDone i }) :
    Inv (awaitWatcher s raising inDone interrupted) := by
  have after : Inv (afterFinally s raising inDone) := by
    refine ⟨fun e => ?_, known_afterFinally (h false)⟩
    rw [afterFinally_watcher]
    exact hs e
  obtain ⟨work, watcher, pc, seenFirst⟩ := s
  cases watcher with
  | pending c => exact ⟨fun e he => (by cases he), h interrupted⟩
  | raised e => exact absurd rfl (hs e)
  | returned => exact after
  | cancelled => exact after

/-- A handler that goes on from `asyncio.wait`. -/
theorem inv_wake {s : State V E} (h : Inv s) (hpc : s.pc = .waiting)
    (hwoken : ¬ (s.work.outcome = none ∧ s.watcher.isPending = true)) :
    Inv (awaitWatcher { s with watcher := s.watcher.cancel } false s.work.outcome false) := by
  obtain ⟨work, watcher, pc, seenFirst⟩ := s
  cases hpc
  refine inv_awaitWatcher ?_ fun i => ?_
  · cases watcher with
    | raised e => exact absurd rfl (h.sound e)
    | _ => exact fun e he => (by cases he)
  · cases work with
    | done o => rfl
    | pending c =>
        rcases h.known with hw | ⟨hw, hseen⟩
        · cases hw
          exact absurd ⟨rfl, rfl⟩ hwoken
        · exact hseen rfl

/-- A handler that is cancelled in `asyncio.wait` when the work is done. -/
theorem inv_cancel {s : State V E} (h : Inv s) (hdone : s.work.outcome ≠ none) :
    Inv (awaitWatcher { s with work := s.work.cancel, watcher := s.watcher.cancel } true none false) := by
  obtain ⟨work, watcher, pc, seenFirst⟩ := s
  obtain ⟨o, ho⟩ := Option.ne_none_iff_exists'.mp hdone
  cases outcome_eq_some.mp ho
  refine inv_awaitWatcher ?_ fun i => ?_
  · cases watcher with
    | raised e => exact absurd rfl (h.sound e)
    | _ => exact fun e he => (by cases he)
  · exact fun hnone => (by cases hnone)

/-- In the `finally` nothing is noted of the watcher, nor of a second cancellation. -/
theorem known_watching {work : Work V E} {watcher : Watcher E} (watcher' : Watcher E)
    {raising i seenFirst : Bool} (j : Bool) {inDone : Option (Outcome V E)}
    (h : Known ⟨work, watcher, .watching raising inDone i, seenFirst⟩) :
    Known ⟨work, watcher', .watching raising inDone j, seenFirst⟩ := by
  cases raising with
  | true => exact h
  | false =>
      cases inDone with
      | some o => exact h
      | none => exact h

theorem known_workEnds {c seenFirst : Bool} {watcher : Watcher E} {pc : Pc V E} (o : Outcome V E)
    (h : Known ⟨.pending c, watcher, pc, seenFirst⟩) : Known ⟨.done o, watcher, pc, seenFirst⟩ := by
  cases pc with
  | waiting => exact h.imp_right fun h => ⟨h.1, fun hnone => (by cases hnone)⟩
  | watching raising inDone i =>
      cases raising with
      | true => exact fun hnone => (by cases hnone)
      | false =>
          cases inDone with
          | some o => cases h
          | none => exact h
  | reaping => exact h
  | left exit =>
      obtain ⟨o', ho', -⟩ := h exit rfl
      cases ho'

theorem known_disconnect {c seenFirst : Bool} {work : Work V E} {pc : Pc V E}
    (h : Known ⟨work, .pending c, pc, seenFirst⟩) :
    Known ⟨work, .returned, pc, seenFirst || work.outcome.isNone⟩ := by
  have seen : seenFirst = true → (seenFirst || work.outcome.isNone) = true := by
    rintro rfl
    rfl
  cases pc with
  | waiting => exact Or.inr ⟨rfl, fun hnone => by simp only [hnone, Option.isNone_none, Bool.or_true]⟩
  | watching raising inDone i =>
      cases raising with
      | true => exact h
      | false =>
          cases inDone with
          | some o => exact h
          | none => exact seen h
  | reaping => exact seen h
  | left exit =>
      intro exit' hexit
      obtain ⟨o, ho, hcase⟩ := h exit' hexit
      exact ⟨o, ho, hcase.imp_right fun h => h.imp_right fun h => ⟨h.1, seen h.2⟩⟩

/-- The watcher's cancellation, which nobody asks for in `asyncio.wait`. -/
theorem known_watcherCancelled {seenFirst : Bool} {work : Work V E} {pc : Pc V E}
    (h : Known ⟨work, .pending true, pc, seenFirst⟩) : Known ⟨work, .cancelled, pc, seenFirst⟩ := by
  cases pc with
  | waiting =>
      rcases h with hw | ⟨hw, -⟩
      · cases hw
      · cases hw
  | watching raising inDone i => exact known_watching _ _ h
  | reaping => exact h
  | left exit => exact h

theorem inv_step {s s' : State V E} {m : Move V E} (h : Inv s) (hm : Undisturbed s m)
    (hs : step s m = some s') : Inv s' := by
  obtain ⟨work, watcher, pc, seenFirst⟩ := s
  cases m with
  | workEnds outcome =>
      cases work with
      | done o => cases hs
      | pending c =>
          cases hs
          exact ⟨h.sound, known_workEnds outcome h.known⟩
  | disconnect =>
      cases watcher with
      | pending c =>
          cases hs
          exact ⟨fun e he => (by cases he), known_disconnect h.known⟩
      | _ => cases hs
  | watcherFails error => exact hm.elim
  | watcherCancelled =>
      cases watcher with
      | pending c =>
          cases c with
          | true =>
              cases hs
              exact ⟨fun e he => (by cases he), known_watcherCancelled h.known⟩
          | false => cases hs
      | _ => cases hs
  | cancel =>
      cases pc with
      | waiting =>
          cases hs
          exact inv_cancel h (hm rfl)
      | watching raising inDone i =>
          cases watcher with
          | pending c =>
              cases hs
              exact ⟨fun e he => (by cases he), known_watching _ _ h.known⟩
          | raised e => exact absurd rfl (h.sound e)
          | _ =>
              cases hs
              exact ⟨fun e he => (by cases he), known_watching _ _ h.known⟩
      | reaping =>
          cases hs
          exact ⟨h.sound, h.known⟩
      | left exit => cases hs
  | resume =>
      cases pc with
      | waiting =>
          by_cases hw : work.outcome = none ∧ watcher.isPending = true
          · rw [step, if_pos hw] at hs
            cases hs
          · rw [step, if_neg hw] at hs
            cases hs
            exact inv_wake h rfl hw
      | watching raising inDone i =>
          cases watcher with
          | pending c => cases hs
          | raised e => exact absurd rfl (h.sound e)
          | _ =>
              cases hs
              exact inv_awaitWatcher h.sound fun j => known_watching _ j h.known
      | reaping =>
          cases work with
          | pending c => cases hs
          | done o =>
              cases hs
              refine ⟨h.sound, ?_⟩
              rintro exit ⟨⟩
              exact ⟨o, rfl, Or.inr (Or.inr ⟨rfl, h.known⟩)⟩
      | left exit => cases hs

/-! ## Runs -/

/-- **A call is left with its work finished**, in every run in which the
handler is not cancelled in `asyncio.wait` while the work is going and the
watcher does not fail; and then the work's outcome is delivered, unless the
client was seen to leave first or the handler was cancelled. -/
theorem serve_settles {s : State V E} (h : Lts.Run serving Undisturbed s) : Settled s := by
  have inv : Inv s := by
    refine h.invariant (I := Inv) (fun s hs => ?_) fun s m s' hi hm hs => inv_step hi hm hs
    obtain ⟨hw, hpc, -⟩ := hs
    refine ⟨fun e he => ?_, ?_⟩
    · rw [hw] at he
      cases he
    · rw [Known, hpc]
      exact Or.inl hw
  intro exit hexit
  have known := inv.known
  rw [Known, hexit] at known
  exact known exit hexit

/-- A client that leaves: the work takes its time, and the handler waits for it. -/
theorem serve_settles_gone : ∃ s : State Unit Unit, s.pc = .left .clientGone ∧ Settled s := by
  have first : Lts.Run (serving (V := Unit) (E := Unit)) Undisturbed ⟨.pending false, .pending false, .waiting, false⟩ :=
    .start ⟨rfl, rfl, rfl⟩
  have seen := first.next (show Undisturbed _ .disconnect from trivial) rfl
  have reaping := seen.next (show Undisturbed _ .resume from trivial) rfl
  have reaped := reaping.next (show Undisturbed _ (.workEnds .cancelled) from trivial) rfl
  have left := reaped.next (show Undisturbed _ .resume from trivial) rfl
  exact ⟨_, rfl, serve_settles left⟩

/-- Two ways to leave with the work still going: the handler is cancelled in
`asyncio.wait`, and leaves when its watcher has ended, with the work only
asked to stop; and the watcher fails, and the work is not asked. -/
theorem left_working :
    (∃ s : State Unit Unit, Lts.Reach serving s ∧ s.pc = .left .cancelled ∧ s.work = .pending true) ∧
      ∃ s : State Unit Unit, Lts.Reach serving s ∧ s.pc = .left (.watcherError ()) ∧ s.work = .pending false := by
  have start : Lts.Reach (serving (V := Unit) (E := Unit)) ⟨.pending false, .pending false, .waiting, false⟩ :=
    .start ⟨rfl, rfl, rfl⟩
  have abandoned : [Move.cancel, .watcherCancelled, .resume].foldlM (serving (V := Unit) (E := Unit)).step
      ⟨.pending false, .pending false, .waiting, false⟩ =
        some ⟨.pending true, .cancelled, .left .cancelled, false⟩ := rfl
  have failed : [Move.watcherFails (), .resume].foldlM (serving (V := Unit) (E := Unit)).step
      ⟨.pending false, .pending false, .waiting, false⟩ =
        some ⟨.pending false, .raised (), .left (.watcherError ()), false⟩ := rfl
  exact ⟨⟨_, start.foldlM abandoned, rfl, rfl⟩, ⟨_, start.foldlM failed, rfl, rfl⟩⟩

end InferenceDriver.Disconnect

/-
# `OpenAi.Reask` — asking a backend about tools again

Every task that has not ended is either the one the engine knows of or one
that was cancelled by a call of `aclose` that has not come back from waiting
for it (`Accounted`).  From this: while the engine is not closed and any
model's tools are off somebody is asking (`Awake`), and of a closed engine
that learns of no new refusal nobody is left.  A model's tools are turned
on again by its own probe, or the model is dropped because it is not found
any more (`leaves_refused`); whether the account's list has moved or a
filter leaves it out is not asked.
-/
import InferenceDriver.OpenAi.Watch

namespace InferenceDriver.OpenAi.Reask

open Failures

variable {R When : Type} {E : Env} {e : Engine R When}

/-! ## Who is asking -/

/-- Every task that has not ended is the one the engine knows of, or was
cancelled by a call of `aclose` that has not come back from waiting for it. -/
structure Accounted (s : State R When) : Prop where
  known : ∀ t task, s.tasks[t]? = some task → task.pc.alive = true → task.cancelled = false → s.watch = some t
  taken : ∀ t task, s.tasks[t]? = some task → task.pc.alive = true → task.cancelled = true →
    ∃ c ∈ s.closers, c.took = some t ∧ (c.pc = .waiting ∨ c.pc = .raised)

/-- Until the engine is closed, somebody is asking while there is something to ask. -/
def Awake (s : State R When) : Prop :=
  s.closers = [] → s.refused.items ≠ [] → ∃ t, s.watch = some t ∧ s.alive t = true

theorem Accounted.congr {s s' : State R When} (h : Accounted s) (ht : s'.tasks = s.tasks)
    (hw : s'.watch = s.watch) (hc : s'.closers = s.closers) : Accounted s' where
  known := by rw [ht, hw]; exact h.known
  taken := by rw [ht, hc]; exact h.taken

theorem alive_of_getElem? {s : State R When} {t : Nat} {task : Task} (ht : s.tasks[t]? = some task) :
    s.alive t = task.pc.alive := by
  rw [State.alive, ht]
  rfl

theorem getElem?_at {s : State R When} {t t' : Nat} {pc : Pc} {task' : Task}
    (h : (s.at t pc).tasks[t']? = some task') :
    ∃ task, s.tasks[t']? = some task ∧ task'.cancelled = task.cancelled ∧
      (task' = task ∨ t' = t ∧ task'.pc = pc) := by
  rw [State.at, List.getElem?_modify] at h
  obtain ⟨task, ht, rfl⟩ := Option.map_eq_some_iff.mp h
  by_cases htt : t = t'
  · rw [if_pos htt]
    exact ⟨task, ht, rfl, Or.inr ⟨htt.symm, rfl⟩⟩
  · rw [if_neg htt]
    exact ⟨task, ht, rfl, Or.inl rfl⟩

/-- A task that has not ended goes on to another place. -/
theorem accounted_at {s : State R When} {t : Nat} {task : Task} (h : Accounted s)
    (ht : s.tasks[t]? = some task) (ha : task.pc.alive = true) (pc : Pc) : Accounted (s.at t pc) := by
  have before : ∀ (t' : Nat) (task' : Task), (s.at t pc).tasks[t']? = some task' → task'.pc.alive = true →
      ∃ old : Task, s.tasks[t']? = some old ∧ old.pc.alive = true ∧ task'.cancelled = old.cancelled := by
    intro t' task' h' ha'
    obtain ⟨old, hold, hcan, rfl | ⟨rfl, -⟩⟩ := getElem?_at h'
    · exact ⟨task', hold, ha', rfl⟩
    · cases ht.symm.trans hold
      exact ⟨task, ht, ha, hcan⟩
  constructor
  · intro t' task' h' ha' hc'
    obtain ⟨old, hold, haold, hcan⟩ := before t' task' h' ha'
    exact h.known t' old hold haold (hcan ▸ hc')
  · intro t' task' h' ha' hc'
    obtain ⟨old, hold, haold, hcan⟩ := before t' task' h' ha'
    exact h.taken t' old hold haold (hcan ▸ hc')

/-- A new task, where the one the engine knows of has ended. -/
theorem accounted_start {s : State R When} (h : Accounted s)
    (hw : ∀ t, s.watch = some t → s.alive t = false) : Accounted s.start := by
  have before : ∀ (t : Nat) (task : Task), s.start.tasks[t]? = some task → task.pc.alive = true →
      s.tasks[t]? = some task ∨ t = s.tasks.length ∧ task.cancelled = false := by
    intro t task ht ha
    rw [State.start, List.getElem?_append] at ht
    split at ht
    · exact Or.inl ht
    · rename_i hlt
      rw [List.getElem?_singleton] at ht
      split at ht
      · rename_i h0
        cases ht
        exact Or.inr ⟨by omega, rfl⟩
      · cases ht
  constructor
  · intro t task ht ha hc
    rcases before t task ht ha with hold | ⟨rfl, -⟩
    · have hwt := h.known t task hold ha hc
      have hdone := hw t hwt
      rw [alive_of_getElem? hold, ha] at hdone
      cases hdone
    · rfl
  · intro t task ht ha hc
    rcases before t task ht ha with hold | ⟨rfl, hno⟩
    · exact h.taken t task hold ha hc
    · rw [hno] at hc
      cases hc

theorem start_alive (s : State R When) : s.start.alive s.tasks.length = true := by
  rw [State.alive, State.start, List.getElem?_concat_length]
  rfl

theorem accounted_watchTools {s : State R When} (h : Accounted s) : Accounted (watchTools s) := by
  rcases watchTools_cases s with ⟨-, -, -, heq⟩ | ⟨hdone, heq⟩
  · exact heq.symm ▸ h
  · exact heq.symm ▸ accounted_start h hdone

/-- Somebody is asking, then. -/
theorem watchTools_alive (s : State R When) :
    ∃ t, (watchTools s).watch = some t ∧ (watchTools s).alive t = true := by
  rcases watchTools_cases s with ⟨t, hw, ha, heq⟩ | ⟨-, heq⟩
  · exact ⟨t, heq.symm ▸ hw, heq.symm ▸ ha⟩
  · exact ⟨s.tasks.length, heq.symm ▸ rfl, heq.symm ▸ start_alive s⟩

structure Inv (s : State R When) : Prop where
  accounted : Accounted s
  awake : Awake s

theorem askToolsOnce_alive {gone : Text → Bool} {refused : Dict Text ToolsOff} {todo : List (Text × ToolsOff)}
    (h : (askToolsOnce gone refused todo).1.items ≠ []) : (askToolsOnce gone refused todo).2.alive = true := by
  induction todo generalizing refused with
  | nil =>
      rw [askToolsOnce] at h ⊢
      rw [if_neg h]
      rfl
  | cons entry rest ih =>
      obtain ⟨id, off⟩ := entry
      rw [askToolsOnce] at h ⊢
      split at h
      · rename_i hg
        rw [if_pos hg]
        exact ih h
      · rename_i hg
        rw [if_neg hg]
        rfl

/-- A task that goes on with its round is the one the engine knows of, and
goes on while there is something to ask. -/
theorem inv_goOn {s : State R When} {t : Nat} {task : Task} (h : Accounted s) (ht : s.tasks[t]? = some task)
    (ha : task.pc.alive = true) (hc : task.cancelled = false) (todo : List (Text × ToolsOff)) :
    Inv (goOn e s t todo) where
  accounted := (accounted_at h ht ha _).congr rfl rfl rfl
  awake _ hr := by
    refine ⟨t, h.known t task ht ha hc, ?_⟩
    rw [State.alive, goOn, State.at, List.getElem?_modify, ht, Option.map_eq_map, Option.map_some, if_pos rfl]
    exact askToolsOnce_alive hr

/-- A model that is cleared on the way does not matter. -/
theorem inv_goOn_clear {s : State R When} {t : Nat} {task : Task} (h : Accounted s)
    (ht : s.tasks[t]? = some task) (ha : task.pc.alive = true) (hc : task.cancelled = false) (id : Text)
    (todo : List (Text × ToolsOff)) : Inv (goOn e (clearToolsRefused e s id) t todo) := by
  obtain ⟨refused, supports, hclear⟩ := clearToolsRefused_frame (e := e) s id
  rw [hclear]
  have frame : Accounted { s with refused, supports } := h.congr rfl rfl rfl
  exact inv_goOn frame ht ha hc todo

theorem inv_learn {s : State R When} (h : Inv s) (target : Target) (words : Text) :
    Inv (learnToolsRefused s target words) := by
  rw [learnToolsRefused]
  split
  · exact h
  · exact ⟨accounted_watchTools (h.accounted.congr rfl rfl rfl), fun _ _ => watchTools_alive _⟩

/-- A call of `aclose` that begins leaves who is asking as it is, but for the watch it may take. -/
theorem accounted_closing {s : State R When} (h : Accounted s) (watch : Option Nat) (closer : Closer)
    (client : Bool) (hw : ∀ t, s.alive t = true → s.watch = some t → watch = some t) :
    Accounted { s with watch, closers := s.closers ++ [closer], client } where
  known t task ht ha hc := hw t ((alive_of_getElem? ht).trans ha) (h.known t task ht ha hc)
  taken t task ht ha hc := by
    obtain ⟨c, hmem, hpc⟩ := h.taken t task ht ha hc
    exact ⟨c, List.mem_append_left _ hmem, hpc⟩

theorem accounted_aclose {s : State R When} (h : Accounted s) : Accounted (aclose s) := by
  rcases aclose_cases s with ⟨t, hw, heq⟩ | ⟨hdone, heq⟩
  · rw [heq]
    have before : ∀ (t' : Nat) (task : Task),
        (s.tasks.modify t fun task => { task with cancelled := true })[t']? = some task →
        ∃ old : Task, s.tasks[t']? = some old ∧ task.pc = old.pc ∧
          (t' = t ∧ task.cancelled = true ∨ t' ≠ t ∧ task.cancelled = old.cancelled) := by
      intro t' task ht
      rw [List.getElem?_modify] at ht
      obtain ⟨old, hold, rfl⟩ := Option.map_eq_some_iff.mp ht
      by_cases htt : t = t'
      · rw [if_pos htt]
        exact ⟨old, hold, rfl, Or.inl ⟨htt.symm, rfl⟩⟩
      · rw [if_neg htt]
        exact ⟨old, hold, rfl, Or.inr ⟨fun heq => htt heq.symm, rfl⟩⟩
    constructor
    · intro t' task ht' ha' hc'
      obtain ⟨old, hold, hpc, ⟨-, hcan⟩ | ⟨hne, hcan⟩⟩ := before t' task ht'
      · rw [hcan] at hc'
        cases hc'
      · have hwt := h.known t' old hold (hpc ▸ ha') (hcan ▸ hc')
        exact absurd (Option.some.inj (hwt.symm.trans hw)) hne
    · intro t' task ht' ha' hc'
      obtain ⟨old, hold, hpc, ⟨rfl, -⟩ | ⟨hne, hcan⟩⟩ := before t' task ht'
      · exact ⟨⟨some t', .waiting⟩, List.mem_append_right _ List.mem_cons_self, rfl, Or.inl rfl⟩
      · obtain ⟨c, hmem, hc⟩ := h.taken t' old hold (hpc ▸ ha') (hcan ▸ hc')
        exact ⟨c, List.mem_append_left _ hmem, hc⟩
  · rw [heq]
    refine accounted_closing h none _ false fun t ha hw => ?_
    rw [hdone t hw] at ha
    cases ha

/-- A call of `aclose` moves: it has waited for its task, or took none that has not ended. -/
theorem accounted_closer {s : State R When} {k : Nat} {closer : Closer} (h : Accounted s)
    (hk : s.closers[k]? = some closer) (pc : Closing) (client : Bool)
    (hpc : Comes s closer pc) :
    Accounted { s with closers := s.closers.set k { closer with pc }, client } where
  known := h.known
  taken t task ht ha hc := by
    obtain ⟨c, hmem, htook, hc⟩ := h.taken t task ht ha hc
    obtain ⟨i, hi⟩ := List.mem_iff_getElem?.mp hmem
    have hlt : k < s.closers.length := (List.getElem?_eq_some_iff.mp hk).1
    by_cases hik : k = i
    · subst hik
      cases hk.symm.trans hi
      rcases hpc hc with rfl | hdone
      · refine ⟨{ closer with pc := .raised }, ?_, htook, Or.inr rfl⟩
        exact List.mem_iff_getElem?.mpr ⟨k, List.getElem?_set_self hlt⟩
      · have halive : s.alive t = true := (alive_of_getElem? (s := s) ht).trans ha
        exact absurd halive (Bool.eq_false_iff.mp (hdone t htook))
    · refine ⟨c, List.mem_iff_getElem?.mpr ⟨i, ?_⟩, htook, hc⟩
      rw [List.getElem?_set_ne hik]
      exact hi

theorem aclose_closers (s : State R When) : (aclose s).closers ≠ [] := by
  rcases aclose_cases s with ⟨t, -, heq⟩ | ⟨-, heq⟩
  · rw [heq]
    exact List.append_ne_nil_of_right_ne_nil _ (List.cons_ne_nil _ _)
  · rw [heq]
    exact List.append_ne_nil_of_right_ne_nil _ (List.cons_ne_nil _ _)

theorem closers_ne_nil {s : State R When} {k : Nat} {closer : Closer} (hk : s.closers[k]? = some closer) :
    s.closers ≠ [] := by
  intro hno
  rw [hno] at hk
  cases hk

theorem inv_step {s s' : State R When} {m : Move R When} (h : Inv s) (hs : step E e s m = some s') :
    Inv s' := by
  obtain ⟨requests, client, catalogue, rfl, -⟩ | ⟨k, tools, text, target, words, -, -, -, rfl⟩ |
    ⟨t, task, ht, ha, ⟨hc, rfl⟩ | ⟨hc, ⟨todo, rfl⟩ | ⟨id, rest, -, rfl⟩⟩⟩ | rfl |
    ⟨k, closer, pc, client, hk, hcomes, rfl⟩ := step_cases hs
  · exact ⟨h.accounted.congr rfl rfl rfl, h.awake⟩
  · have frame : Inv { s with requests := s.requests.eraseIdx k } :=
      ⟨h.accounted.congr rfl rfl rfl, h.awake⟩
    exact inv_learn frame target words
  · refine ⟨accounted_at h.accounted ht ha _, fun hno _ => ?_⟩
    obtain ⟨c, hmem, -⟩ := h.accounted.taken t task ht ha hc
    rw [show s.closers = [] from hno] at hmem
    cases hmem
  · exact inv_goOn h.accounted ht ha hc todo
  · exact inv_goOn_clear h.accounted ht ha hc id rest
  · exact ⟨accounted_aclose h.accounted, fun hno => absurd hno (aclose_closers s)⟩
  · refine ⟨accounted_closer h.accounted hk pc client hcomes, fun hno => ?_⟩
    exact absurd ((List.set_eq_nil_iff _ _).mp hno) (closers_ne_nil hk)

theorem inv_fresh {s : State R When} (h : Fresh e s) : Inv s where
  accounted := by
    constructor
    · intro t task ht
      rw [h.tasks] at ht
      cases ht
    · intro t task ht
      rw [h.tasks] at ht
      cases ht
  awake _ hr := by
    rw [h.refused] at hr
    exact absurd rfl hr

theorem inv_run {ok : State R When → Move R When → Prop} {s : State R When} (h : Lts.Run (engine E e) ok s) :
    Inv s :=
  h.invariant (I := Inv) (fun _ => inv_fresh) fun _ _ _ hi _ hs => inv_step hi hs

/-! ## A closed engine -/

/-- Once the engine is closed, no model's tools are newly found off. -/
def Quiet (E : Env) (s : State R When) : Move R When → Prop
  | .fails k tools text => s.closers = [] ∨ refusalWords E tools text = none ∨
      ∀ target, s.requests[k]? = some target → s.refused.get? target.id ≠ none
  | _ => True

/-- A closed engine knows of no task. -/
def Unwatched (s : State R When) : Prop := s.closers ≠ [] → s.watch = none

theorem aclose_watch (s : State R When) : (aclose s).watch = none := by
  rcases aclose_cases s with ⟨t, -, heq⟩ | ⟨-, heq⟩
  · rw [heq]
  · rw [heq]

/-- A refusal that is met starts a task only where it is learned. -/
theorem unwatched_learn {s : State R When} {target : Target} {words : Text} (h : Unwatched s)
    (hm : s.closers = [] ∨ s.refused.get? target.id ≠ none) : Unwatched (learnToolsRefused s target words) := by
  rcases learnToolsRefused_cases s target words with ⟨-, heq⟩ | ⟨hnew, watch, tasks, heq⟩
  · rw [heq]
    exact h
  · rw [heq]
    exact fun hclosers => absurd (hm.resolve_right fun hne => hne hnew) hclosers

theorem unwatched_step {s s' : State R When} {m : Move R When} (h : Unwatched s) (hm : Quiet E s m)
    (hs : step E e s m = some s') : Unwatched s' := by
  obtain ⟨requests, client, catalogue, rfl, -⟩ | ⟨k, tools, text, target, words, rfl, hk, hwords, rfl⟩ |
    ⟨t, task, ht, ha, ⟨hc, rfl⟩ | ⟨hc, ⟨todo, rfl⟩ | ⟨id, rest, -, rfl⟩⟩⟩ | rfl |
    ⟨k, closer, pc, client, hk, hcomes, rfl⟩ := step_cases hs
  · exact h
  · have frame : Unwatched { s with requests := s.requests.eraseIdx k } := h
    refine unwatched_learn frame ?_
    rcases hm with hopen | hno | hlearnt
    · exact Or.inl hopen
    · rw [hno] at hwords
      cases hwords
    · exact Or.inr (hlearnt target hk)
  · exact h
  · exact h
  · obtain ⟨refused, supports, hclear⟩ := clearToolsRefused_frame (e := e) s id
    rw [hclear]
    exact h
  · exact fun _ => aclose_watch s
  · exact fun _ => h (closers_ne_nil hk)

/-! ## How a model gets its tools back -/

theorem askToolsOnce_get? (gone : Text → Bool) (refused : Dict Text ToolsOff) (todo : List (Text × ToolsOff))
    (id : Text) : (askToolsOnce gone refused todo).1.get? id = refused.get? id ∨
      gone id = true ∧ (askToolsOnce gone refused todo).1.get? id = none := by
  induction todo generalizing refused with
  | nil => exact Or.inl rfl
  | cons entry rest ih =>
      obtain ⟨id', off⟩ := entry
      rw [askToolsOnce]
      split
      · rename_i hg
        rcases ih (refused.erase id') with h | h
        · by_cases hid : id = id'
          · subst hid
            exact Or.inr ⟨hg, h.trans (refused.get?_erase_self id)⟩
          · exact Or.inl (h.trans (refused.get?_erase_ne hid))
        · exact Or.inr h
      · exact Or.inl rfl

theorem goOn_leaves {s : State R When} {t : Nat} {todo : List (Text × ToolsOff)} {id : Text} {off : ToolsOff}
    (h : s.refused.get? id = some off) (h' : (goOn e s t todo).refused.get? id = none) :
    unlisted e s id = true := by
  rcases askToolsOnce_get? (unlisted e s) s.refused todo id with heq | hg
  · rw [show (goOn e s t todo).refused = (askToolsOnce (unlisted e s) s.refused todo).1 from rfl, heq, h] at h'
    cases h'
  · exact hg.1

theorem clearToolsRefused_get? {s : State R When} {id id' : Text} (h : id ≠ id') :
    (clearToolsRefused e s id').refused.get? id = s.refused.get? id := by
  rw [clearToolsRefused]
  split
  · rfl
  · exact s.refused.get?_erase_ne h

theorem learnToolsRefused_get? {s : State R When} {target : Target} {words id : Text} {off : ToolsOff}
    (h : s.refused.get? id = some off) : (learnToolsRefused s target words).refused.get? id = some off := by
  rcases learnToolsRefused_cases s target words with ⟨-, heq⟩ | ⟨hnew, watch, tasks, heq⟩
  · rw [heq]
    exact h
  · rw [heq]
    have hid : id ≠ target.id := fun heq => by rw [heq, hnew] at h; cases h
    exact (s.refused.get?_set_ne _ hid).trans h

/-- A model's tools are off no more: its own probe was answered, or the
account does not find it. -/
theorem leaves_refused {s s' : State R When} {m : Move R When} {id : Text} {off : ToolsOff}
    (hs : step E e s m = some s') (h : s.refused.get? id = some off) (h' : s'.refused.get? id = none) :
    Answers E s id m ∨ unlisted e s id = true := by
  have same : s.refused.get? id ≠ none := by rw [h]; exact Option.some_ne_none off
  obtain ⟨requests, client, catalogue, rfl, -⟩ | ⟨k, tools, text, target, words, rfl, hk, hwords, rfl⟩ |
    ⟨t, task, ht, ha, ⟨hc, rfl⟩ | ⟨hc, ⟨todo, rfl⟩ | ⟨id', rest, hyes, rfl⟩⟩⟩ | rfl |
    ⟨k, closer, pc, client, hk, hcomes, rfl⟩ := step_cases hs
  · exact absurd h' same
  · have frame : ({ s with requests := s.requests.eraseIdx k } : State R When).refused.get? id = some off := h
    rw [learnToolsRefused_get? frame] at h'
    cases h'
  · exact absurd h' same
  · exact Or.inr (goOn_leaves h h')
  · by_cases hid : id = id'
    · exact Or.inl (hid ▸ hyes)
    · have hcat : unlisted e (clearToolsRefused e s id') = unlisted e s := by
        obtain ⟨refused, supports, hclear⟩ := clearToolsRefused_frame (e := e) s id'
        rw [hclear]
        rfl
      rw [← hcat]
      exact Or.inr (goOn_leaves ((clearToolsRefused_get? hid).trans h) h')
  · obtain ⟨watch, tasks, closers, client, hclose⟩ := aclose_frame s
    rw [hclose] at h'
    exact absurd h' same
  · exact absurd h' same

/-! ## An engine of one model -/

/-- Only its own model's tools can be off, and `supports_tool_calling` says whether they are. -/
structure Single (e : Engine R When) (id : Text) (s : State R When) : Prop where
  catalogue : s.catalogue = none
  requests : ∀ target ∈ s.requests, target.id = id ∧ target.account = false
  refused : ∀ id', s.refused.get? id' ≠ none → id' = id
  supports : s.supports = (e.toolCallingAssumed && (s.refused.get? id).isNone)

/-- Nothing it says depends on the tasks, the calls of `aclose` or the client. -/
theorem Single.congr {id : Text} {s s' : State R When} (h : Single e id s) (hc : s'.catalogue = s.catalogue)
    (hq : ∀ target ∈ s'.requests, target ∈ s.requests) (hr : ∀ id, s'.refused.get? id = s.refused.get? id)
    (hs : s'.supports = s.supports) : Single e id s' where
  catalogue := hc.trans h.catalogue
  requests target hmem := h.requests target (hq target hmem)
  refused id' hid' := h.refused id' (hr id' ▸ hid')
  supports := by rw [hs, hr]; exact h.supports

theorem single_learn {id : Text} {s : State R When} {target : Target} {words : Text} (h : Single e id s)
    (ht : target.id = id ∧ target.account = false) : Single e id (learnToolsRefused s target words) := by
  obtain ⟨rfl, haccount⟩ := ht
  rcases learnToolsRefused_cases s target words with ⟨-, heq⟩ | ⟨hnew, watch, tasks, heq⟩
  · rw [heq]
    exact h
  · rw [heq]
    refine ⟨h.catalogue, h.requests, fun id' hid' => ?_, ?_⟩
    · by_cases hid : id' = target.id
      · exact hid
      · exact h.refused id' ((s.refused.get?_set_ne _ hid) ▸ hid')
    · simp only
      rw [s.refused.get?_set_self, haccount, Option.isNone_some, Bool.and_false]
      rfl

theorem single_clear {id : Text} {s : State R When} (h : Single e id s) (id' : Text) :
    Single e id (clearToolsRefused e s id') := by
  rw [clearToolsRefused]
  split
  · exact h
  · rename_i off hoff
    have hid : id' = id := h.refused id' (by rw [hoff]; exact Option.some_ne_none off)
    subst hid
    refine ⟨h.catalogue, h.requests, fun id hid => ?_, ?_⟩
    · by_cases heq : id = id'
      · exact heq
      · exact h.refused id ((s.refused.get?_erase_ne heq) ▸ hid)
    · simp only
      rw [h.catalogue, s.refused.get?_erase_self]
      exact (Bool.and_true _).symm

/-- Its one model is always found. -/
theorem single_goOn {id : Text} {s : State R When} (h : Single e id s) (t : Nat)
    (todo : List (Text × ToolsOff)) : Single e id (goOn e s t todo) := by
  refine h.congr rfl (fun _ hmem => hmem) (fun id' => ?_) rfl
  rcases askToolsOnce_get? (unlisted e s) s.refused todo id' with heq | ⟨hg, -⟩
  · exact heq
  · rw [unlisted, h.catalogue] at hg
    cases hg

theorem orText_nil (x : Text) : orText (some x) [] = x := by
  cases x with
  | nil => rfl
  | cons c x => rfl

theorem single_resolve {id : Text} {s : State R When} (h : Single e id s) (hid : e.modelId = some id)
    {requested : Option Text} {target : Target} (ht : resolveModel e s requested = some target) :
    target.id = id ∧ target.account = false := by
  rw [resolveModel, h.catalogue] at ht
  simp only at ht
  split at ht
  · cases ht
    exact ⟨by rw [hid]; exact orText_nil id, rfl⟩
  · cases ht

theorem single_step {id : Text} {s s' : State R When} {m : Move R When} (h : Single e id s)
    (hid : e.modelId = some id) (hs : step E e s m = some s') : Single e id s' := by
  obtain ⟨requests, client, catalogue, rfl, hreq, hcat⟩ | ⟨k, tools, text, target, words, rfl, hk, hwords, rfl⟩ |
    ⟨t, task, ht, ha, ⟨hc, rfl⟩ | ⟨hc, ⟨todo, rfl⟩ | ⟨id', rest, hyes, rfl⟩⟩⟩ | rfl |
    ⟨k, closer, pc, client, hk, hcomes, rfl⟩ := step_cases hs
  · refine ⟨?_, fun target hmem => ?_, h.refused, h.supports⟩
    · rw [h.catalogue] at hcat
      exact Option.isNone_iff_eq_none.mp hcat
    · rcases hreq target hmem with hold | ⟨requested, hres⟩
      · exact h.requests target hold
      · exact single_resolve h hid hres
  · have frame : Single e id { s with requests := s.requests.eraseIdx k } :=
      h.congr rfl (fun _ hmem => List.mem_of_mem_eraseIdx hmem) (fun _ => rfl) rfl
    exact single_learn frame (h.requests target (List.mem_of_getElem? hk))
  · exact h.congr rfl (fun _ hmem => hmem) (fun _ => rfl) rfl
  · exact single_goOn h t todo
  · exact single_goOn (single_clear h id') t rest
  · obtain ⟨watch, tasks, closers, client, hclose⟩ := aclose_frame s
    rw [hclose]
    exact h.congr rfl (fun _ hmem => hmem) (fun _ => rfl) rfl
  · exact h.congr rfl (fun _ hmem => hmem) (fun _ => rfl) rfl

theorem single_fresh {id : Text} {s : State R When} (h : Fresh e s) (hid : e.modelId = some id) :
    Single e id s where
  catalogue := by
    have hcat := h.catalogue
    rw [hid] at hcat
    exact hcat
  requests target hmem := by
    rw [h.requests] at hmem
    cases hmem
  refused id' hid' := by
    rw [h.refused] at hid'
    exact absurd rfl hid'
  supports := by
    rw [h.refused, h.supports]
    exact (Bool.and_true _).symm

/-! ## What is claimed -/

/-- **Asking about tools again**, in every run of an engine: while it is not
closed and any model's tools are off, the task it knows of is alive and not
cancelled; a model's tools are off no more only by its own probe, answered,
or because the account does not find it; an engine of one model says that
it takes tools exactly when it is assumed to and they are not off; and once
it is closed, unless a model's tools are found off after that, a task that
is alive is one that a call of `aclose` took which has not returned. -/
theorem tools_reasked (E : Env) (e : Engine R When) :
    (∀ s, Lts.Reach (engine E e) s → s.closers = [] → s.refused.items ≠ [] →
      ∃ t task, s.watch = some t ∧ s.tasks[t]? = some task ∧ task.pc.alive = true ∧ task.cancelled = false) ∧
    (∀ s s' m id, Lts.Reach (engine E e) s → step E e s m = some s' →
      s.refused.get? id ≠ none → s'.refused.get? id = none →
      Answers E s id m ∨ ∃ c, s.catalogue = some c ∧ c.find e.account id = none) ∧
    (∀ s id, Lts.Reach (engine E e) s → e.modelId = some id →
      (s.supports = true ↔ s.refused.get? id = none ∧ e.toolCallingAssumed = true)) ∧
    ∀ s, Lts.Run (engine E e) (Quiet E) s → s.closers ≠ [] → ∀ t, s.alive t = true →
      ∃ c ∈ s.closers, c.took = some t ∧ (c.pc = .waiting ∨ c.pc = .raised) := by
  refine ⟨fun s hs hno hr => ?_, fun s s' m id _ hm h h' => ?_, fun s id hs hid => ?_, fun s hs hc t ha => ?_⟩
  · have inv := inv_run hs
    obtain ⟨t, hw, ha⟩ := inv.awake hno hr
    obtain ⟨task, ht, ha⟩ := (Option.any_eq_true _ _).mp ha
    refine ⟨t, task, hw, ht, ha, ?_⟩
    cases hcan : task.cancelled with
    | false => rfl
    | true =>
        obtain ⟨c, hmem, -⟩ := inv.accounted.taken t task ht ha hcan
        rw [hno] at hmem
        cases hmem
  · obtain ⟨off, hoff⟩ := Option.ne_none_iff_exists'.mp h
    rcases leaves_refused hm hoff h' with hyes | hgone
    · exact Or.inl hyes
    · obtain ⟨c, hc, hfind⟩ := (Option.any_eq_true _ _).mp hgone
      exact Or.inr ⟨c, hc, Option.isNone_iff_eq_none.mp hfind⟩
  · have single : Single e id s := hs.invariant (I := Single e id) (fun s hs => single_fresh hs hid)
      fun s m s' hi hm => single_step hi hid hm
    rw [single.supports, Bool.and_eq_true, Option.isNone_iff_eq_none]
    exact and_comm
  · have unwatched : Unwatched s := by
      refine hs.invariant (I := Unwatched) (fun s (hs : Fresh e s) hne => absurd hs.closers hne) ?_
      exact fun s m s' hi hm hs => unwatched_step hi hm hs
    have inv := inv_run hs
    obtain ⟨task, ht, ha⟩ := (Option.any_eq_true _ _).mp ha
    cases hcan : task.cancelled with
    | true => exact inv.accounted.taken t task ht ha hcan
    | false =>
        have hw := inv.accounted.known t task ht ha hcan
        rw [unwatched hc] at hw
        cases hw

/-! ## The claim does not hold of every run -/

/-- An account, or an engine of one model. -/
def plain (modelId : Option Text) : Engine Unit Unit where
  modelId
  upstream := none
  chatToolsUnavailable _ := false
  account :=
    { source := [], origin := [], hasPath := false, view := ⟨id, fun _ => rfl⟩, dump := fun _ => .null
      validate := fun _ => none, isoformat := fun _ => [], fromisoformat := fun _ => none }
  upstreamId _ := none

/-- An engine of one model that has been constructed. -/
def made : State Unit Unit where
  refused := .empty
  supports := true
  watch := none
  tasks := []
  requests := []
  closers := []
  client := false
  catalogue := none

def model : Text := ['m']

/-- A filter of no patterns leaves every model out. -/
theorem unlisted_filtered {e : Engine R When} {s : State R When} {c : Catalogue.State R When}
    (h : s.catalogue = some { c with get := fun _ => .seq [] }) (id : Text) : unlisted e s id = true := by
  rw [unlisted, h, Option.any_some, Catalogue.State.find]
  split
  · rfl
  · rfl

/-- A request of the only model there is meets the refusal of its tools. -/
theorem fails_jinja {e : Engine Unit Unit} {s : State Unit Unit} {target : Target}
    (h : s.requests = [target]) : ∃ words, (engine (Env.ofTable []) e).step s (.fails 0 true jinjaWords) =
      some (learnToolsRefused { s with requests := [] } target words) := by
  obtain ⟨words, hw⟩ := Option.ne_none_iff_exists'.mp jinjaWords_recognised
  have hwords : refusalWords (Env.ofTable []) true jinjaWords = some words := hw
  refine ⟨words, ?_⟩
  change step (Env.ofTable []) e s (.fails 0 true jinjaWords) = _
  rw [step, h]
  simp only [List.getElem?_cons_zero, Option.map_some, upstreamRefusal, hwords, List.eraseIdx_cons_zero]

/-- A filter that leaves out a model the account still lists takes it out of
the table with no probe sent; a refusal that comes after `aclose` has
returned starts a task; and a second call of `aclose` returns while the task
that the first one took has not ended. -/
theorem left_asking :
    (∃ (e : Engine Unit Unit) (s s' : State Unit Unit) (m : Move Unit Unit),
      Lts.Reach (engine (Env.ofTable []) e) s ∧ step (Env.ofTable []) e s m = some s' ∧
      s.refused.get? model ≠ none ∧ s'.refused.get? model = none ∧ (∀ t posted, m ≠ .probed t posted) ∧
      ∃ c, s.catalogue = some c ∧ ∃ x ∈ c.models, x.id = model) ∧
    (∃ (e : Engine Unit Unit) (s : State Unit Unit), Lts.Reach (engine (Env.ofTable []) e) s ∧
      (∃ c ∈ s.closers, c.pc = .returned) ∧ ∃ t, s.alive t = true) ∧
    ∃ (e : Engine Unit Unit) (s : State Unit Unit), Lts.Run (engine (Env.ofTable []) e) (Quiet (Env.ofTable [])) s ∧
      (∃ c ∈ s.closers, c.pc = .returned) ∧ ∃ t, s.alive t = true := by
  have fresh : Fresh (plain (some model)) made := ⟨rfl, rfl, rfl, rfl, rfl, rfl, rfl⟩
  refine ⟨?_, ⟨plain (some model), ?_⟩, plain (some model), ?_⟩
  · let account : Catalogue.State Unit Unit := Catalogue.init (plain none).account .absent fun _ => .null
    have start : Lts.Reach (engine (Env.ofTable []) (plain none)) { made with catalogue := some account } :=
      .start ⟨rfl, rfl, rfl, rfl, rfl, rfl, ⟨_, _, rfl⟩⟩
    have hasked : ∃ s : State Unit Unit,
        [Move.account (.refresh (.list [⟨model, [], ()⟩]) () false), .asks (some model)].foldlM
          (engine (Env.ofTable []) (plain none)).step { made with catalogue := some account } = some s ∧
        s.requests = [{ id := model, upstream := model, account := true }] ∧ s.refused = .empty ∧
        s.watch = none ∧ s.tasks = [] ∧ ∃ c, s.catalogue = some c ∧ ∃ x ∈ c.models, x.id = model :=
      ⟨_, rfl, rfl, rfl, rfl, rfl, _, rfl, _, List.mem_cons_self, rfl⟩
    obtain ⟨⟨refused, supports, watch, tasks, requests, closers, client, catalogue⟩, hasked, rfl, rfl, rfl, rfl,
      c, rfl, hlisted⟩ := hasked
    have asked := start.foldlM hasked
    obtain ⟨words, hfails⟩ := fails_jinja (e := plain none) (s := ⟨.empty, supports, none, [],
      [{ id := model, upstream := model, account := true }], closers, client, some c⟩) rfl
    let off : Dict Text ToolsOff := Dict.empty.set model ⟨words, model⟩
    have learned : Lts.Reach (engine (Env.ofTable []) (plain none))
        ⟨off, supports, some 0, [⟨.starting, false⟩], [], closers, client, some c⟩ := asked.next hfails
    have slept : Lts.Reach (engine (Env.ofTable []) (plain none))
        ⟨off, supports, some 0, [⟨.sleeping, false⟩], [], closers, client || false, some c⟩ :=
      learned.next (l := .wakes 0) rfl
    have filtered : Lts.Reach (engine (Env.ofTable []) (plain none))
        ⟨off, supports, some 0, [⟨.sleeping, false⟩], [], closers, client || false,
          some { c with get := fun _ => .seq [] }⟩ := slept.next (l := .account (.filters fun _ => .seq [])) rfl
    refine ⟨plain none, _, _, .wakes 0, filtered, rfl, ?_, ?_, fun t posted h => (by cases h), _, rfl, hlisted⟩
    · rw [show off.get? model = some _ from Dict.get?_set_self _ _ _]
      exact Option.some_ne_none _
    · change (askToolsOnce _ off [(model, (⟨words, model⟩ : ToolsOff))]).1.get? model = none
      rw [askToolsOnce, if_pos (unlisted_filtered rfl model)]
      exact Dict.get?_erase_self _ model
  · have hclosed : [Move.asks none, .close, .closes 0].foldlM
        (engine (Env.ofTable []) (plain (some model))).step made = some { made with
          requests := [{ id := model, upstream := model, account := false }]
          closers := [⟨none, .returned⟩] } := rfl
    have closed : Lts.Reach (engine (Env.ofTable []) (plain (some model))) _ :=
      Lts.Reach.foldlM (.start fresh) hclosed
    obtain ⟨words, hfails⟩ := fails_jinja (e := plain (some model)) (s := { made with
          requests := [{ id := model, upstream := model, account := false }]
          closers := [⟨none, .returned⟩] }) rfl
    exact ⟨_, closed.next hfails, ⟨_, List.mem_cons_self, rfl⟩, 0, rfl⟩
  · have asked := Lts.Run.next (M := engine (Env.ofTable []) (plain (some model))) (.start fresh)
      (show Quiet (Env.ofTable []) made (.asks none) from trivial) rfl
    obtain ⟨words, hfails⟩ := fails_jinja (e := plain (some model)) (s := { made with
          requests := [{ id := model, upstream := model, account := false }], client := true }) rfl
    have refused := asked.next (show Quiet (Env.ofTable []) _ (.fails 0 true jinjaWords) from Or.inl rfl) hfails
    have closing := refused.next (show Quiet (Env.ofTable []) _ .close from trivial) rfl
    have again := closing.next (show Quiet (Env.ofTable []) _ .close from trivial) rfl
    have left := again.next (show Quiet (Env.ofTable []) _ (.closes 1) from trivial) rfl
    exact ⟨_, left, ⟨_, List.mem_cons_of_mem _ List.mem_cons_self, rfl⟩, 0, rfl⟩

end InferenceDriver.OpenAi.Reask

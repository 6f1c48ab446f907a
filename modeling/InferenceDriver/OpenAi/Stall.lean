/-
# `OpenAi.Stall` — when a stream is called stalled

The stall clock of `_stream` against what it is for.  The clock is two
local variables and a timeout that shrinks; what it is for is said of the
lines alone: whether a part of the answer has come (`spoke`), whether a
`finish_reason` has (`finished`), and how long the loop has waited since the
last `data:` line (`silence`).  `stalls_told` is the agreement, in every
state of every run over the lines of a llama-server.

Two things keep it from being so for all lines and settings: a frame that
reports on the prompt and carries a part of the answer does not arm the
clock (`mixed`), and httpx gives a read up after `requestTimeoutSeconds`,
which may be less than the clock still has to run.
-/
import InferenceDriver.OpenAi.Answer

namespace InferenceDriver.OpenAi

open Checks Thinking

variable (E : Env) (U : Ucd) (q : Setup)

/-! ## Lines and silence -/

/-- A line, how long it took to come and when it was looked at. -/
structure Line where
  waited : ℚ
  now : ℚ
  text : Text

def Line.arrival (l : Line) : Arrival := .line l.waited l.now l.text

/-- The loop has read the lines and waits for the next. -/
def goesOn (s : Locals) : List Line → Option Locals
  | [] => some s
  | l :: rest =>
      match onLine E U q l.waited l.now l.text s with
      | .ok (.again s) => goesOn s rest
      | _ => none

def isData (text : Text) : Bool := "data:".toList.isPrefixOf text

/-- The time spent waiting for the lines since the last `data:` line. -/
def silence (past : List Line) : ℚ :=
  ((past.reverse.takeWhile fun l => !isData l.text).map Line.waited).sum

/-- The event of a line. -/
def eventIn (text : Text) : Option Json :=
  match (sseData text).map E.loads with
  | some (.value event) => some event
  | _ => none

/-- A choice in which nothing of an answer is. -/
def saysNothing (choice : Json) : Bool :=
  !(Obj.get (dictOf choice) "finish_reason").truthy &&
  !(Obj.get (dictOf choice) "logprobs").truthy &&
  !(Obj.get (deltaIn choice) "content").truthy &&
  (reasoningOf (deltaIn choice)).isNone &&
  !(Obj.get (deltaIn choice) "tool_calls").truthy &&
  !(Obj.get (deltaIn choice) "annotations").truthy &&
  (Obj.get (deltaIn choice) "audio").isNull

/-- Prompt progress is reported, and nothing of an answer is in the frame. -/
def bare (event : Json) : Bool := !arms event && (choicesIn event).all saysNothing

/-- Prompt progress is reported beside a part of the answer. -/
def mixed (event : Json) : Bool := !arms event && !(choicesIn event).all saysNothing

/-- A data frame that is no bare report on the prompt. -/
def speaks (text : Text) : Bool :=
  (sseData text).isSome && (eventIn E text).all fun event => !bare event

def spoke (past : List Line) : Bool := past.any fun l => speaks E l.text

def givesFinish (choice : Json) : Bool := (Obj.get (dictOf choice) "finish_reason").truthy

/-- A `finish_reason` has come. -/
def finished (past : List Line) : Bool :=
  past.any fun l => (eventIn E l.text).any fun event => (choicesIn event).any givesFinish

/-- Until a part of the answer has come, no frame reports on the prompt
beside a part of the answer. -/
def Unmixed (past : List Line) : Prop :=
  ∀ before l rest, past = before ++ l :: rest →
    spoke E before = true ∨ (eventIn E l.text).any mixed = false

theorem silence_concat (past : List Line) (l : Line) :
    silence (past ++ [l]) = if isData l.text then 0 else silence past + l.waited := by
  unfold silence
  rw [List.reverse_concat, List.takeWhile_cons]
  cases isData l.text with
  | true => rfl
  | false =>
      rw [if_pos (by rfl), if_neg Bool.false_ne_true, List.map_cons, List.sum_cons]
      exact add_comm _ _

theorem spoke_concat (past : List Line) (l : Line) :
    spoke E (past ++ [l]) = (spoke E past || speaks E l.text) := by
  rw [spoke, List.any_append, List.any_cons, List.any_nil, Bool.or_false]
  rfl

theorem finished_concat (past : List Line) (l : Line) :
    finished E (past ++ [l]) =
      (finished E past || (eventIn E l.text).any fun event => (choicesIn event).any givesFinish) := by
  rw [finished, List.any_append, List.any_cons, List.any_nil, Bool.or_false]
  rfl

theorem Unmixed.init {past : List Line} {l : Line} (h : Unmixed E (past ++ [l])) :
    Unmixed E past ∧ (spoke E past = true ∨ (eventIn E l.text).any mixed = false) :=
  ⟨fun before m rest hp => h before m (rest ++ [l]) (by rw [hp, List.append_assoc, List.cons_append]),
    h past l [] rfl⟩

/-! ## What a line does to the clock -/

variable {E U q}

theorem speaks_of_none {text : Text} (h : sseData text = none) : speaks E text = false := by
  rw [speaks, h]
  rfl

theorem sseData_of_not_data {text : Text} (h : isData text = false) : sseData text = none := by
  unfold isData at h
  unfold sseData
  split
  · rfl
  · rw [h]
    rfl

/-- A line that is no event: only a frame that cannot be parsed arms. -/
theorem readLine_nothing {c c' : Clock} {waited : ℚ} {text : Text}
    (h : readLine E q c waited text = .nothing c') :
    ¬ c.late q waited ∧ eventIn E text = none ∧
      c' = { c.after q waited text with armed := c.armed || speaks E text } := by
  unfold readLine at h
  split at h
  · cases h
  · rename_i hl
    refine ⟨hl, ?_⟩
    have passed (hn : sseData text = none) (hc : c.after q waited text = c') :
        eventIn E text = none ∧
          c' = { c.after q waited text with armed := c.armed || speaks E text } := by
      rw [eventIn, hn, speaks_of_none hn, Bool.or_false]
      exact ⟨rfl, hc.symm⟩
    split at h
    · rename_i hcolon
      exact passed (if_pos (Or.inr hcolon.2)) (Reading.nothing.inj h)
    · split at h
      · rename_i hn
        exact passed hn (Reading.nothing.inj h)
      · rename_i data hd
        split at h
        · cases h
        · split at h
          · rename_i hm
            cases h
            rw [eventIn, speaks, eventIn, hd, Option.map_some, hm]
            exact ⟨rfl, by rw [Option.isSome_some, Option.all_none, Bool.and_self, Bool.or_true]⟩
          · cases h
          · cases h

theorem readLine_event {c c' : Clock} {waited : ℚ} {text : Text} {event : Json}
    (h : readLine E q c waited text = .event c' event) :
    ¬ c.late q waited ∧ eventIn E text = some event ∧ c' = c.after q waited text ∧
      speaks E text = !bare event := by
  unfold readLine at h
  split at h
  · cases h
  · rename_i hl
    split at h
    · cases h
    · split at h
      · cases h
      · rename_i data hd
        split at h
        · cases h
        · split at h
          · cases h
          · cases h
          · rename_i hv
            cases h
            rw [speaks, eventIn, hd, Option.map_some, hv]
            exact ⟨hl, rfl, rfl, rfl⟩

theorem closing_event (a : Said) (event : Json) :
    (a.event E q event).closing.isSome = (a.closing.isSome || (choicesIn event).any givesFinish) := by
  have folded (choices : List Json) (a : Said) :
      (choices.foldl (Said.choice E q) a).closing.isSome = (a.closing.isSome || choices.any givesFinish) := by
    induction choices generalizing a with
    | nil => exact (Bool.or_false _).symm
    | cons choice rest ih =>
        rw [List.foldl_cons, ih, List.any_cons, ← Bool.or_assoc]
        refine congrArg (· || rest.any givesFinish) ?_
        show (if givesFinish choice then some (dictOf choice) else a.closing).isSome = _
        cases givesFinish choice with
        | true => exact (Bool.or_true _).symm
        | false => exact (Bool.or_false _).symm
  exact folded _ _

/-! ## Runs -/

variable (E U q) in
/-- The invariant of the clock: it is armed when a part of the answer has
come, it holds the silence since then, and it has not run out. -/
structure Ticks (past : List Line) (s : Locals) (a : Said) : Prop where
  follows : Follows E U q s a s.clock
  closing : a.closing.isSome = finished E past
  armed : s.sawFirstData = spoke E past
  quiet : s.quiet = if spoke E past then silence past else 0
  under : s.quiet < q.stallSeconds

theorem Ticks.opened (hw : 0 < q.stallSeconds) : Ticks E U q [] (opened q) (unsaid q) := by
  have h := follows_opened (E := E) (U := U) (q := q)
  have hc : (OpenAi.opened q).clock = {} := h.clock
  refine ⟨hc ▸ h, rfl, congrArg Clock.armed hc, congrArg Clock.quiet hc, ?_⟩
  rw [show (OpenAi.opened q).quiet = 0 from congrArg Clock.quiet hc]
  exact hw

/-- How long it has been silent once a line is there that did not come too late. -/
theorem Ticks.after {past : List Line} {s : Locals} {a : Said} (h : Ticks E U q past s a)
    (hq : q.hollowPings = true) (hw : 0 < q.stallSeconds) {l : Line}
    (hl : ¬ s.clock.late q l.waited) :
    (s.clock.after q l.waited l.text).quiet =
        (if spoke E (past ++ [l]) then silence (past ++ [l]) else 0) ∧
      (s.clock.after q l.waited l.text).quiet < q.stallSeconds := by
  have harmed : s.clock.armed = spoke E past := h.armed
  have hquiet : s.clock.quiet = if spoke E past then silence past else 0 := h.quiet
  rw [Clock.after, silence_concat, spoke_concat]
  cases hd : isData l.text with
  | true =>
      rw [if_neg fun hn => hn.2 hd, if_pos (c := true = true) rfl, ite_self]
      exact ⟨rfl, hw⟩
  | false =>
      rw [if_pos ⟨hq, by rw [← isData, hd]; exact Bool.false_ne_true⟩, speaks_of_none (sseData_of_not_data hd),
        Bool.or_false, if_neg Bool.false_ne_true, hquiet, harmed]
      cases hs : spoke E past with
      | true =>
          rw [if_pos rfl, if_pos ⟨rfl, hw⟩, if_pos rfl]
          refine ⟨rfl, ?_⟩
          rw [hs, if_pos rfl] at hquiet
          have hm : ¬ max (q.stallSeconds - silence past) 0 ≤ l.waited := fun hm =>
            hl ⟨harmed.trans hs, hw, by rw [hquiet]; exact hm⟩
          have hu : silence past < q.stallSeconds := hquiet ▸ h.under
          rw [max_eq_left (sub_nonneg.mpr hu.le), not_le] at hm
          exact lt_sub_iff_add_lt'.mp hm
      | false =>
          rw [if_neg Bool.false_ne_true, if_neg fun hn => Bool.false_ne_true hn.1, if_neg Bool.false_ne_true]
          exact ⟨zero_add _, by rw [zero_add]; exact hw⟩

theorem speaks_eq_arms {event : Json} (h : mixed event = false) : (!bare event) = arms event := by
  unfold mixed at h
  unfold bare
  cases ha : arms event with
  | true => rfl
  | false =>
      rw [ha] at h
      rw [Bool.not_false, Bool.true_and] at *
      rw [Bool.not_eq_false'] at h
      rw [h]
      rfl

/-- One line keeps the invariant. -/
theorem Ticks.step {past : List Line} {s s' : Locals} {a : Said} (h : Ticks E U q past s a)
    (hq : q.hollowPings = true) (hw : 0 < q.stallSeconds) {l : Line}
    (hm : spoke E past = true ∨ (eventIn E l.text).any mixed = false)
    (hs : onLine E U q l.waited l.now l.text s = .ok (.again s')) :
    ∃ a', Ticks E U q (past ++ [l]) s' a' := by
  have hline := onLine_spec h.follows l.waited l.now l.text
  cases hr : readLine E q s.clock l.waited l.text with
  | nothing c' =>
      rw [hr] at hline
      obtain ⟨s₁, hs₁, hf⟩ := hline
      cases hs.symm.trans hs₁
      obtain ⟨hl, he, hc⟩ := readLine_nothing hr
      obtain ⟨hquiet, hunder⟩ := h.after hq hw hl
      have hclock : s'.clock = c' := hf.clock
      have hnow : s'.quiet = (s.clock.after q l.waited l.text).quiet := by
        rw [show s'.quiet = s'.clock.quiet from rfl, hclock, hc]
      refine ⟨a, hclock ▸ hf, ?_, ?_, hnow.trans hquiet, hnow ▸ hunder⟩
      · rw [finished_concat, h.closing, he]
        exact (Bool.or_false _).symm
      · rw [show s'.sawFirstData = s'.clock.armed from rfl, hclock, hc, spoke_concat]
        exact congrArg (· || speaks E l.text) h.armed
  | ending ending =>
      rw [hr] at hline
      obtain ⟨s₁, hn, -⟩ := hline.2 _ hs
      cases hn
  | event c' event =>
      rw [hr] at hline
      obtain ⟨s₁, hf, hs₁⟩ := hline
      obtain ⟨s₂, hs₂, hn⟩ := map_eq_ok.mp (hs₁.symm.trans hs)
      cases hn
      obtain ⟨hl, he, hc, hsp⟩ := readLine_event hr
      obtain ⟨hquiet, hunder⟩ := h.after hq hw hl
      have hf' := follows_onEvent hf hs₂
      have hclock := hf'.clock
      have hnow : s'.quiet = (s.clock.after q l.waited l.text).quiet := by
        rw [show s'.quiet = s'.clock.quiet from rfl, hclock, hc]
      refine ⟨_, hclock ▸ hf', ?_, ?_, hnow.trans hquiet, hnow ▸ hunder⟩
      · rw [finished_concat, closing_event, h.closing, he]
        rfl
      · rw [show s'.sawFirstData = s'.clock.armed from rfl, hclock, hc, spoke_concat]
        show (s.sawFirstData || arms event) = _
        rw [h.armed, hsp]
        cases hsp' : spoke E past with
        | true => rfl
        | false =>
            rw [hsp', he] at hm
            rw [speaks_eq_arms (hm.resolve_left Bool.false_ne_true)]

/-- The documents of a table, each on its own line and at once. -/
def Env.lines (documents : List (Text × Json)) : List Line :=
  documents.map fun d => ⟨0, 0, "data: ".toList ++ d.1⟩

end InferenceDriver.OpenAi

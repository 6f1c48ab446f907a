/-
# `Cli.Dropped` — the settings a command line cannot carry

The two engines over a command line have a knob for none of a request's
settings (`warn_dropped_sampling`).  One a caller asked for is refused
before anything is spawned; an effort, and what rides with tools on a
request without them, are dropped; of the defaults of someone else's, the
seed and the nucleus are said.  Each is said once.
-/
import InferenceDriver.OpenAi.Sent
import InferenceDriver.Lib.Once

namespace InferenceDriver.Cli.Dropped

open OpenAi OpenAi.Settings Once

/-- What is said of a setting. -/
inductive Said where
  /-- The harness owns it. -/
  | owned
  /-- No tools reach the harness. -/
  | toolless
deriving DecidableEq

/-- A line of the log, of a setting. -/
structure Line where
  setting : Setting
  said : Said

/-- Why a request with tools is refused. -/
def noTools (engine : Text) : Text :=
  "Eugene has no way to carry tools to ".toList ++ engine ++
    " (the harness on the other side of the pipe runs its own tools)".toList

/-- What is refused of a request: everything, but for what rides with tools it does not carry. -/
def unsupported (r : Request) (x : Setting) : Bool := r.carriesTools || decide (x ∉ companions)

/-- The refusals of `warn_dropped_sampling`. -/
def refuse (engine : Text) (r : Request) : Except Failure Unit := do
  if r.carriesTools then refuseUnsupportedSettings r (fun x => x ∈ toolSettings) (some (noTools engine))
  refuseUnsupportedSettings r (unsupported r) none

/-- What it says of a request it does not refuse, when nothing has been said. -/
def drops (r : Request) : List Line :=
  (([.topP, .seed, .reasoningEffort].filter fun x => (r.value x).isSome).map fun x => ⟨x, .owned⟩) ++
    if r.carriesTools then []
    else (companions.filter fun x => (r.value x).isSome).map fun x => ⟨x, .toolless⟩

/-- `warn_dropped_sampling(request, engine, model_id, warned)`: the log after it. -/
def warnDroppedSampling (engine : Text) (log : List Line) (r : Request) : Except Failure (List Line) := do
  refuse engine r
  return tellAll Line.setting log (drops r)

/-- A request that is answered, with what its caller asked for: nothing, an
effort, or what rides with tools it does not carry. -/
def Carried (r : Request) : Prop :=
  ∀ x, r.asked x = true → x = .reasoningEffort ∨ (x ∈ companions ∧ r.carriesTools = false)

theorem refuse_isOk {engine : Text} {r : Request} : refuse engine r = .ok () ↔ Carried r := by
  have hlast : refuseUnsupportedSettings r (unsupported r) none = .ok () ↔ Carried r := by
    rw [Engine.refuseUnsupported_isOk]
    refine forall_congr' fun x => ?_
    rw [Engine.Refused, unsupported, Bool.or_eq_true, decide_eq_true_iff, not_and, not_and_or, not_not, not_or, not_not,
      Bool.not_eq_true, and_comm (a := r.carriesTools = false)]
  rw [refuse]
  cases htools : r.carriesTools with
  | false => exact hlast
  | true =>
      rw [if_pos rfl, Checks.bind_eq_ok]
      constructor
      · rintro ⟨_, _, h⟩
        exact hlast.mp h
      · intro h
        refine ⟨(), Engine.refuseUnsupported_isOk.mpr fun x hx => ?_, hlast.mpr h⟩
        obtain heffort | ⟨-, hnone⟩ := h x hx.1
        · exact hx.2.1 heffort
        · rw [htools] at hnone
          cases hnone

/-- The log of an engine that is asked one request after the other. -/
def after (engine : Text) (log : List Line) (requests : List Request) : List Line :=
  requests.foldl (fun log r => ((warnDroppedSampling engine log r).toOption).getD log) log

/-- All that the requests it answers leave it to say, in their order. -/
def dropped (engine : Text) (requests : List Request) : List Line :=
  (requests.filter fun r => (refuse engine r).isOk).flatMap drops

theorem log_after (engine : Text) (log : List Line) (requests : List Request) :
    after engine log requests = tellAll Line.setting log (dropped engine requests) := by
  induction requests generalizing log with
  | nil => rfl
  | cons r requests ih =>
      have hstep : after engine log (r :: requests) =
          after engine (((warnDroppedSampling engine log r).toOption).getD log) requests := rfl
      rw [hstep, ih, warnDroppedSampling]
      cases hrefuse : refuse engine r with
      | error failure =>
          have hdropped : dropped engine (r :: requests) = dropped engine requests := by
            rw [dropped, List.filter_cons_of_neg (by rw [hrefuse]; exact Bool.false_ne_true)]
            rfl
          rw [hdropped]
          rfl
      | ok u =>
          have hdropped : dropped engine (r :: requests) = drops r ++ dropped engine requests := by
            rw [dropped, List.filter_cons_of_pos (by rw [hrefuse]; rfl), List.flatMap_cons]
            rfl
          rw [hdropped, tellAll_append]
          rfl

/-- A request is refused unless its caller asked for nothing that is lost, and
in any run a setting is said once, where it is first dropped. -/
theorem dropped_once (engine : Text) (requests : List Request) :
    (∀ r, (∃ log, warnDroppedSampling engine [] r = .ok log) ↔ Carried r) ∧
      ((after engine [] requests).map Line.setting).Nodup ∧
      ∀ line, line ∈ after engine [] requests ↔
        ((dropped engine requests).find? fun first => first.setting = line.setting) = some line := by
  refine ⟨fun r => ?_, ?_, fun line => ?_⟩
  · rw [← @refuse_isOk engine, warnDroppedSampling]
    cases refuse engine r with
    | error failure => exact iff_of_false (fun ⟨log, h⟩ => by cases h) fun h => (by cases h)
    | ok u => exact iff_of_true ⟨_, rfl⟩ rfl
  · rw [log_after]
    exact nodup_said _
  · rw [log_after]
    exact mem_tellAll

end InferenceDriver.Cli.Dropped

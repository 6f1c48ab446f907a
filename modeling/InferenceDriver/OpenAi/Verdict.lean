/-
# `OpenAi.Verdict` — what a document does to the run

Read on its own, a document from upstream is fine, or ends the run with a
`CliError`, or is put together so that some access to it raises what nobody
catches.  Which of the three is a property of its shape alone, and the
first document that is not fine decides: the verdict functions here say so,
one for each reader of the source, and the lemmas that each reader comes to
the verdict of its argument.
-/
import InferenceDriver.OpenAi.Said

namespace InferenceDriver.OpenAi

open Checks Thinking

inductive Verdict where
  | fine
  /-- A `CliError`. -/
  | fails
  /-- Any other exception. -/
  | escapes
deriving DecidableEq, Repr

/-- The first that is not fine. -/
def Verdict.before (v w : Verdict) : Verdict :=
  match v with
  | .fine => w
  | v => v

@[simp] theorem Verdict.fine_before (v : Verdict) : Verdict.fine.before v = v := rfl

@[simp] theorem Verdict.before_fine (v : Verdict) : v.before .fine = v := by cases v <;> rfl

def Verdict.first (vs : List Verdict) : Verdict := vs.foldr Verdict.before .fine

/-- What must be so, or else nobody catches it. -/
def Verdict.must (ok : Bool) : Verdict := if ok then .fine else .escapes

def Failure.verdict : Failure → Verdict
  | .uncaught => .escapes
  | _ => .fails

section Outcome

variable {α β : Type}

/-- What a reader comes to. -/
def stepVerdict (x : Except Failure α) : Verdict :=
  match x with
  | .ok _ => .fine
  | .error failure => failure.verdict

/-- What a part of a run comes to. -/
def runVerdict (x : Except Raised α) : Verdict :=
  match x with
  | .ok _ => .fine
  | .error raised => raised.failure.verdict

theorem runVerdict_bind {x : Except Raised α} {f : α → Except Raised β} {v : Verdict}
    (h : ∀ a, x = .ok a → runVerdict (f a) = v) :
    runVerdict (x >>= f) = (runVerdict x).before v := by
  cases x with
  | ok a => exact h a rfl
  | error r =>
      obtain ⟨e, sent⟩ := r
      cases e <;> rfl

theorem stepVerdict_map {x : Except Failure α} {f : α → β} :
    stepVerdict (f <$> x) = stepVerdict x := by
  cases x <;> rfl

@[simp] theorem runVerdict_fail (s : Locals) (f : Failure) :
    runVerdict (s.fail f : Except Raised α) = f.verdict := rfl

end Outcome

variable (E : Env) (U : Ucd) (q : Setup)

/-! ## Shapes -/

/-- A number that is not negative. -/
def counted (v : Json) : Bool :=
  match v with
  | .int n => 0 ≤ n
  | .bool _ => true
  | .float (.fin q) => 0 ≤ q
  | _ => false

/-- The usage of an answer. -/
def usageOk (usage : Json) : Bool :=
  !usage.truthy ||
    match usage with
    | .obj o =>
        let prompt := Obj.get o "prompt_tokens"
        let completion := Obj.get o "completion_tokens"
        let total := Obj.get o "total_tokens"
        prompt.isNull && completion.isNull ||
          (E.count (orZero prompt)).isSome && (E.count (orZero completion)).isSome &&
            ((if total.isNull then E.plus (orZero prompt) (orZero completion) else some total).bind
              E.count).isSome
    | _ => false

/-! ## Deltas, choices and events -/

/-- An object, or nothing. -/
def objectOk (v : Json) : Bool :=
  match v with
  | .obj _ => true
  | v => !v.truthy

/-- A part of the text that is shown is no string. -/
def Said.spoiled (a : Said) : Bool := q.forced.isNone && !q.off && a.contents.any (!isText ·)

/-- An answer that is cut off: saying how long it was joins its parts. -/
def cutVerdict (a : Said) : Verdict := if a.spoiled q then .escapes else .fails

/-! ## Readers -/

variable {E U q}

@[simp] theorem stepVerdict_asDict (v : Json) :
    stepVerdict (asDict v) = .must (match v with | .obj _ => true | _ => false) := by
  cases v <;> rfl

theorem stepVerdict_dictOrEmpty (v : Json) : stepVerdict (dictOrEmpty v) = .must (objectOk v) := by
  unfold dictOrEmpty
  split
  · rename_i h
    cases v <;> simp_all [objectOk, asDict, stepVerdict, Verdict.must, Failure.verdict]
  · rename_i h
    cases v <;> simp_all [objectOk, stepVerdict, Verdict.must]

end InferenceDriver.OpenAi

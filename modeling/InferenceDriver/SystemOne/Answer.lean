/-
# `SystemOne.Answer` — a question, and what a backend may answer to it

The functions of `systemone_http.py` about one question: what the pinned
protocol takes as one (`validateQuestions`), what is wrong with an answer
to it (`answerProblem`), and the contract's model of an answer
(`validate`).  An answer is any value `json.loads` makes; a check that
raises what nobody catches is an error here.
-/
import InferenceDriver.Config.Schema
import InferenceDriver.OpenAi.Verdict

namespace InferenceDriver.SystemOne

open OpenAi Checks

/-! ## Questions -/

/-- `Type1`. -/
inductive Kind where
  | noul
  | choice
  | score
deriving DecidableEq, Repr

def Kind.name : Kind → Text
  | .noul => "noul".toList
  | .choice => "choice".toList
  | .score => "score".toList

/-- `DecisionQuestion`; `criteria` is null when there is none. -/
structure Question where
  type : Kind
  instructions : Json
  criteria : Json

/-- `q.model_dump(exclude_none=True)`. -/
def Question.dump (q : Question) : Json :=
  .obj ([("type".toList, .str q.type.name), ("instructions".toList, q.instructions)] ++
    if q.criteria.isNull then [] else [("criteria".toList, q.criteria)])

/-- What is written of values, and what floats are: the built-ins and the
library that read an answer. -/
structure Lib where
  /-- `repr`. -/
  repr : Json → Text
  /-- `sum` of floats, which rounds. -/
  sum : List ℚ → ℚ
  /-- `f"{x:.3f}"`. -/
  fixed3 : ℚ → Text
  /-- `float(n)`, of an integer that some float holds. -/
  float : Int → ℚ
  float_exact : ∀ n : Int, n.natAbs ≤ 2 ^ 53 → float n = n
  float_large : ∀ n : Int, 2 ^ 53 < n.natAbs → 2 ^ 53 ≤ |float n|
  /-- What a `float` field makes of what is no number; none is a `ValidationError`. -/
  lax : Json → Option PyFloat

variable (L : Lib)

/-- `sorted(names)`, joined. -/
def listed (names : List Text) : Text := ", ".toList.intercalate (names.insertionSort (· ≤ ·))

def questionFields : List Text := ["type".toList, "instructions".toList, "criteria".toList]

def Kind.ofJson (v : Json) : Option Kind :=
  [Kind.noul, .choice, .score].find? fun kind => v.isStr kind.name

/-- What is wrong with the `criteria` of a question. -/
def criteriaProblem (place : Text) (kind : Kind) (criteria : Json) : List Text :=
  match kind, criteria with
  | .noul, .null => []
  | .noul, .obj outcomes =>
      if outcomes.all fun o => o.1 = "true".toList ∨ o.1 = "false".toList then [] else [noulProblem]
  | .noul, _ => [noulProblem]
  | .choice, .obj options =>
      if options = [] then [choiceProblem]
      else if 255 < options.length then
        [place ++ ".criteria has ".toList ++ (toString options.length).toList ++
          " options; the protocol's ceiling is 255".toList]
      else []
  | .choice, _ => [choiceProblem]
  | .score, .arr levels =>
      if levels.all isText then
        if 2 ≤ levels.length ∧ levels.length ≤ 10 then []
        else
          [place ++ ".criteria has ".toList ++ (toString levels.length).toList ++
            " levels; the protocol takes 2-10, ordered lowest first".toList]
      else [scoreProblem]
  | .score, _ => [scoreProblem]
where
  noulProblem := place ++ ".criteria for noul is an optional object mapping \"true\" and \"false\" to outcome descriptions".toList
  choiceProblem := place ++ ".criteria for choice must map option names to rubrics".toList
  scoreProblem := place ++ ".criteria for score must be an array of level strings".toList

/-- What is wrong with one question. -/
def questionProblems (name : Text) (question : Json) : List Text :=
  let place := "questions[".toList ++ L.repr (.str name) ++ "]".toList
  match question with
  | .obj fields =>
      let unknown := (fields.map (·.1)).filter fun key => key ∉ questionFields
      let refused := if unknown = [] then [] else
        [place ++ " carries fields the pinned protocol does not define: ".toList ++ listed unknown ++
          " — refused rather than dropped".toList]
      match Kind.ofJson (Obj.get fields "type") with
      | none => refused ++ [place ++ ".type must be one of noul, choice, score".toList]
      | some kind =>
          let instructions := Obj.get fields "instructions"
          refused ++
            (if instructions.isNull ∨ instructions.isStr [] then [place ++ ".instructions is required".toList]
              else []) ++ criteriaProblem place kind (Obj.get fields "criteria")
  | _ => [place ++ " must be an object".toList]

/-- `validate_questions(raw_questions)`: the violations. -/
def validateQuestions (raw : Json) : List Text :=
  match raw with
  | .obj (question :: questions) =>
      (question :: questions).flatMap fun entry => questionProblems L entry.1 entry.2
  | _ => ["`questions` must be a non-empty object of named questions".toList]

/-- How many levels a question has. -/
def Question.levels (q : Question) : ℕ :=
  match q.criteria with
  | .arr levels => levels.length
  | _ => 0

/-- The options a choice may name, and the levels of a scale as `str(i)`. -/
def Question.offered (q : Question) : List Text :=
  match q.type, q.criteria with
  | .choice, .obj options => options.map (·.1)
  | .score, .arr levels => (List.range levels.length).map fun i => (toString i).toList
  | _, _ => []

/-! ## What is wrong with an answer -/

/-- What a check comes to: nothing, a problem, or an exception. -/
abbrev Checked := Except Failure (Option Text)

/-- The first problem is the answer's. -/
def Checked.next (first second : Checked) : Checked :=
  match first with
  | .ok none => second
  | other => other

/-- `if not ok: return problem`. -/
def demand (ok : Except Failure Bool) (problem : Text) : Checked :=
  ok.map fun ok => if ok then none else some problem

/-- `_finite(value) and 0 <= value <= most`; `math.isfinite` raises at an
integer that no float holds. -/
def within (value : Json) (most : ℕ) : Except Failure Bool :=
  match value with
  | .int n => if Config.fitsFloat n then .ok (decide (0 ≤ n ∧ n ≤ most)) else .error .uncaught
  | .float (.fin q) => .ok (decide (0 ≤ q ∧ q ≤ most))
  | _ => .ok false

/-- `all(_finite(v) and 0 <= v <= 1 for v in values)`. -/
def allWithin : List Json → Except Failure Bool
  | [] => .ok true
  | value :: values => do
      if ← within value 1 then allWithin values else return false

/-- The number that a value is. -/
def number : Json → ℚ
  | .int n => n
  | .float (.fin q) => q
  | _ => 0

/-- `_DISTRIBUTION_TOLERANCE`: the float nearest to 0.05. -/
def distributionTolerance : ℚ := 3602879701896397 / 72057594037927936

def sumProblem (values : List Json) : Checked :=
  if distributionTolerance < |L.sum (values.map number) - 1| then
    .ok (some ("probabilities sum to ".toList ++ L.fixed3 (L.sum (values.map number)) ++ ", not 1".toList))
  else .ok none

def confidenceProblem (a : Obj) : Checked :=
  if (a.get "confidence").isNull then .ok none
  else demand (within (a.get "confidence") 1) "confidence is not a finite number in [0, 1]".toList

def probabilitiesProblem (a : Obj) : Checked :=
  match a.get "probabilities" with
  | .obj (p :: ps) =>
      (demand (allWithin ((p :: ps).map (·.2)))
        "probabilities carry a value outside [0, 1] or not finite".toList).next (sumProblem L ((p :: ps).map (·.2)))
  | _ => .ok (some "probabilities missing".toList)

/-- The keys of a dict. -/
def namesOf (v : Json) : List Text :=
  match v with
  | .obj fields => fields.map (·.1)
  | _ => []

/-- `choice not in legal`: what cannot be hashed raises. -/
def choiceProblem (q : Question) (a : Obj) : Checked :=
  match a.get "choice" with
  | .arr _ => .error .uncaught
  | .obj _ => .error .uncaught
  | .str choice =>
      if choice ∉ q.offered then .ok (some (illegal (.str choice)))
      else if (namesOf (a.get "probabilities")).all fun name => name ∈ q.offered then .ok none
      else .ok (some "probabilities name options the request never offered".toList)
  | choice => .ok (some (illegal choice))
where
  illegal (choice : Json) := "choice ".toList ++ L.repr choice ++ " is not one of the request's options".toList

def legendProblem (q : Question) (a : Obj) : Checked :=
  match a.get "legend" with
  | .null => .ok none
  | .obj legend =>
      if legend.all fun level => level.1 ∈ q.offered then .ok none
      else .ok (some "legend names levels outside the request's scale".toList)
  | _ => .ok (some "legend names levels outside the request's scale".toList)

def scoreProblem (q : Question) (a : Obj) : Checked :=
  (demand (within (a.get "score") (q.levels - 1)) ("score is not a finite number within the ".toList ++
    (toString q.levels).toList ++ "-level scale".toList)).next
  ((if (namesOf (a.get "probabilities")).all fun name => name ∈ q.offered then .ok none
    else .ok (some "probabilities name levels outside the request's scale".toList) : Checked).next
      (legendProblem q a))

/-- `_answer_problem(question, answer)`. -/
def answerProblem (q : Question) (answer : Json) : Checked :=
  match answer with
  | .obj a =>
      if (Obj.get a "type").isStr q.type.name then
        (confidenceProblem a).next
          (match q.type with
            | .noul => demand (within (Obj.get a "noul") 1) "noul is not a finite probability in [0, 1]".toList
            | .choice => (probabilitiesProblem L a).next (choiceProblem L q a)
            | .score => (probabilitiesProblem L a).next (scoreProblem q a))
      else
        .ok (some ("type ".toList ++ L.repr (Obj.get a "type") ++ " does not match the question's <Type1.".toList ++
          q.type.name ++ ": '".toList ++ q.type.name ++ "'>".toList))
  | _ => .ok (some "not an object".toList)

/-! ## The contract's model of an answer -/

/-- `DecisionAnswer`. -/
structure Answer where
  type : Kind
  noul : Option PyFloat
  choice : Option Text
  score : Option PyFloat
  legend : Option (List (Text × Text))
  probabilities : Option (List (Text × PyFloat))
  confidence : Option PyFloat
deriving DecidableEq

/-- A `float`. -/
def floatOf (v : Json) : Option PyFloat :=
  match v with
  | .int n => if Config.fitsFloat n then some (.fin (L.float n)) else none
  | .float x => some x
  | v => L.lax v

/-- A field that may be null. -/
def optional {α : Type} (read : Json → Option α) (v : Json) : Option (Option α) :=
  if v.isNull then some none else (read v).map some

/-- `ge=0.0, le=1.0`. -/
def unit (v : Json) : Option PyFloat :=
  (floatOf L v).filter fun x =>
    match x with
    | .fin q => decide (0 ≤ q ∧ q ≤ 1)
    | _ => false

variable (E : Env)

def strOf (v : Json) : Option Text :=
  match v with
  | .str s => if E.holds s then some s else none
  | _ => none

/-- A `dict` with keys that are strings. -/
def dictOfAll {α : Type} (read : Json → Option α) (v : Json) : Option (List (Text × α)) :=
  match v with
  | .obj fields => fields.mapM fun f => if E.holds f.1 then (read f.2).map (f.1, ·) else none
  | _ => none

/-- `DecisionAnswer.model_validate(answer)`; none is a `ValidationError`. -/
def validate (answer : Json) : Option Answer :=
  match answer with
  | .obj a => do
      let type ← Kind.ofJson (Obj.get a "type")
      let noul ← optional (unit L) (Obj.get a "noul")
      let choice ← optional (strOf E) (Obj.get a "choice")
      let score ← optional (floatOf L) (Obj.get a "score")
      let legend ← optional (dictOfAll E (strOf E)) (Obj.get a "legend")
      let probabilities ← optional (dictOfAll E (floatOf L)) (Obj.get a "probabilities")
      let confidence ← optional (unit L) (Obj.get a "confidence")
      return { type, noul, choice, score, legend, probabilities, confidence }
  | _ => none

/-! ## What is owed of an answer -/

/-- The number a float is. -/
def value : PyFloat → ℚ
  | .fin q => q
  | _ => 0

/-- A field as it was said: nothing of nothing. -/
def Same {α : Type} (same : Json → α → Prop) (v : Json) (x : Option α) : Prop :=
  match x with
  | none => v = .null
  | some x => same v x

/-- A number between 0 and `most`. -/
def numberVerdict (v : Json) (most : ℕ) : Verdict :=
  match v with
  | .int n => if Config.fitsFloat n then (if 0 ≤ n ∧ n ≤ most then .fine else .fails) else .escapes
  | .float (.fin q) => if 0 ≤ q ∧ q ≤ most then .fine else .fails
  | _ => .fails

def probabilitiesVerdict (v : Json) : Verdict :=
  match v with
  | .obj (p :: ps) =>
      (Verdict.first ((p :: ps).map fun e => numberVerdict e.2 1)).before
        (if distributionTolerance < |L.sum ((p :: ps).map fun e => number e.2) - 1| then .fails else .fine)
  | _ => .fails

/-- What is asked for was said. -/
structure Asked (q : Question) (a : Obj) : Prop where
  noul : q.type = .noul → numberVerdict (a.get "noul") 1 = .fine
  choice : q.type = .choice → ∃ s, a.get "choice" = .str s ∧ s ∈ q.offered
  score : q.type = .score → numberVerdict (a.get "score") (q.levels - 1) = .fine
  probabilities : q.type ≠ .noul → probabilitiesVerdict L (a.get "probabilities") = .fine ∧
    ∀ name ∈ namesOf (a.get "probabilities"), name ∈ q.offered

theorem same_null {α : Type} {same : Json → α → Prop} {x : Option α} (h : Same same .null x)
    (hno : ∀ y, ¬ same .null y) : x = none := by
  cases x with
  | none => rfl
  | some y => exact absurd h (hno y)

end InferenceDriver.SystemOne

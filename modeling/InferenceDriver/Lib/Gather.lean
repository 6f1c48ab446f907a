/-
# `Lib.Gather` — a dictionary made of what entries give

A loop goes over entries, and each of them puts a value under a key, or
nothing, or raises.  The loop goes through exactly when no entry raises
(`gather_isOk`), and then a key has what the last entry that gives it one
gives (`get?_gather`): what an entry does depends on no other.
-/
import InferenceDriver.Py.Dict

namespace InferenceDriver.Gather

variable {K V E ε : Type} [DecidableEq K]

/-- `d[key] = value`, where there is one. -/
def put (d : Dict K V) : Option (K × V) → Dict K V
  | some (k, v) => d.set k v
  | none => d

/-- The loop. -/
def gather (entry : E → Except ε (Option (K × V))) : Dict K V → List E → Except ε (Dict K V)
  | d, [] => .ok d
  | d, e :: es =>
      match entry e with
      | .ok found => gather entry (put d found) es
      | .error raised => .error raised

/-- What is put under a key. -/
def under (k : K) : Option (K × V) → Option V
  | some (k', v) => if k = k' then some v else none
  | none => none

/-- What an entry gives a key. -/
def given (entry : E → Except ε (Option (K × V))) (k : K) (e : E) : Option V :=
  match entry e with
  | .ok found => under k found
  | .error _ => none

/-- What the last of some entries gives. -/
def latest (f : E → Option V) : List E → Option V
  | [] => none
  | e :: es => (latest f es).or (f e)

theorem latest_cons (f : E → Option V) (e : E) (es : List E) : latest f (e :: es) = (latest f es).or (f e) := rfl

theorem latest_congr {f g : E → Option V} {es : List E} (h : ∀ e ∈ es, f e = g e) : latest f es = latest g es := by
  induction es with
  | nil => rfl
  | cons e es ih =>
      rw [latest_cons, latest_cons, h e List.mem_cons_self, ih fun e' he' => h e' (List.mem_cons_of_mem _ he')]

variable {entry : E → Except ε (Option (K × V))}

theorem get?_put (d : Dict K V) (found : Option (K × V)) (k : K) :
    (put d found).get? k = (under k found).or (d.get? k) := by
  cases found with
  | none => rfl
  | some kv =>
      by_cases h : k = kv.1
      · rw [put, under, if_pos h, h, Dict.get?_set_self]
        rfl
      · rw [put, under, if_neg h, Dict.get?_set_ne _ _ h]
        rfl

theorem gather_cons {d d' : Dict K V} {e : E} {es : List E} : gather entry d (e :: es) = .ok d' ↔
    ∃ found, entry e = .ok found ∧ gather entry (put d found) es = .ok d' := by
  rw [gather]
  cases entry e with
  | ok found => exact ⟨fun h => ⟨found, rfl, h⟩, fun ⟨_, hfound, h⟩ => (by cases hfound; exact h)⟩
  | error raised => exact ⟨fun h => (by cases h), fun ⟨_, hfound, _⟩ => (by cases hfound)⟩

theorem gather_isOk {d : Dict K V} {es : List E} :
    (∃ d', gather entry d es = .ok d') ↔ ∀ e ∈ es, ∃ found, entry e = .ok found := by
  induction es generalizing d with
  | nil => exact ⟨fun _ e he => absurd he List.not_mem_nil, fun _ => ⟨d, rfl⟩⟩
  | cons e es ih =>
      rw [List.forall_mem_cons]
      constructor
      · rintro ⟨d', h⟩
        obtain ⟨found, he, h⟩ := gather_cons.mp h
        exact ⟨⟨found, he⟩, ih.mp ⟨d', h⟩⟩
      · rintro ⟨⟨found, he⟩, h⟩
        obtain ⟨d', h⟩ := ih.mpr h
        exact ⟨d', gather_cons.mpr ⟨found, he, h⟩⟩

theorem get?_gather {d d' : Dict K V} {es : List E} (h : gather entry d es = .ok d') (k : K) :
    d'.get? k = (latest (given entry k) es).or (d.get? k) := by
  induction es generalizing d with
  | nil =>
      cases h
      rfl
  | cons e es ih =>
      obtain ⟨found, he, h⟩ := gather_cons.mp h
      have hgiven : given entry k e = under k found := by rw [given, he]
      rw [ih h, get?_put, latest_cons, hgiven, Option.or_assoc]

/-- A loop that puts the same things. -/
theorem foldl_eq_of_gather {step : Dict K V → E → Dict K V}
    (hstep : ∀ d e found, entry e = .ok found → step d e = put d found) {d d' : Dict K V} {es : List E}
    (h : gather entry d es = .ok d') : es.foldl step d = d' := by
  induction es generalizing d with
  | nil =>
      cases h
      rfl
  | cons e es ih =>
      obtain ⟨found, he, h⟩ := gather_cons.mp h
      rw [List.foldl_cons, hstep d e found he]
      exact ih h

/-- And one that may fail where no entry does. -/
theorem foldlM_eq_of_gather {step : Dict K V → E → Option (Dict K V)}
    (hstep : ∀ d e found, entry e = .ok found → step d e = some (put d found)) {d d' : Dict K V} {es : List E}
    (h : gather entry d es = .ok d') : es.foldlM step d = some d' := by
  induction es generalizing d with
  | nil =>
      cases h
      rfl
  | cons e es ih =>
      obtain ⟨found, he, h⟩ := gather_cons.mp h
      rw [List.foldlM_cons, hstep d e found he]
      exact ih h

/-- One entry alone. -/
theorem get?_gather_singleton {e : E} {d' : Dict K V} (h : gather entry .empty [e] = .ok d') (k : K) :
    d'.get? k = given entry k e := by
  have hempty : (Dict.empty : Dict K V).get? k = none := rfl
  rw [get?_gather h k, latest_cons, latest, hempty, Option.or_none, Option.none_or]

/-- What the entries give is what each gives alone, the later before the earlier. -/
theorem get?_gather_alone {d' : Dict K V} {es : List E} (h : gather entry .empty es = .ok d')
    (alone : E → Dict K V) (halone : ∀ e ∈ es, gather entry .empty [e] = .ok (alone e)) (k : K) :
    d'.get? k = latest (fun e => (alone e).get? k) es := by
  have hempty : (Dict.empty : Dict K V).get? k = none := rfl
  rw [get?_gather h k, hempty, Option.or_none]
  exact latest_congr fun e he => (get?_gather_singleton (halone e he) k).symm

end InferenceDriver.Gather

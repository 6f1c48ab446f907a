/-
# `Failures.Evidence` — when a failure is called safe

`disposition` calls a failure safe for its status, for a connection that was
not made, for the words of a full pool and for a model that is loading.  The
pool's words are searched for in the whole text of the error, and the other
ones are read in the first 500 characters of the body; so a body that quotes
them is taken for the refusal itself (`Misread`), and nothing else is
(`safe_on_evidence`).
-/
import InferenceDriver.Failures.Attachments

namespace InferenceDriver.Failures

open OpenAi

/-- How a backend fails a chat request. -/
inductive Answer where
  /-- No connection was made. -/
  | unreached (message : Text)
  /-- A status and a body. -/
  | refusal (status : Nat) (text : Text)
  /-- The error object of a frame that ends a stream. -/
  | frame (error : Obj)

variable (E : Env) (U : Ucd) (digit : Char → Bool)

/-- What the engine raises of it; of a request with attachments of these
kinds. -/
def errorOf (tools : Bool) (kinds : List PartKind) (named interval : Text) : Answer → CliError
  | .unreached message => { message, unconnected := true }
  | .refusal status text => refusal E text status tools kinds named interval
  | .frame error =>
      { message := "openai_compat_http stream error: ".toList ++
          redact ((E.str (Obj.get error "message")).take 500)
        upstreamStatus := asInt (Obj.get error "code") }

/-- The status a failure came with. -/
def Answer.status : Answer → Option Int
  | .unreached _ => none
  | .refusal status _ => some status
  | .frame error => asInt (Obj.get error "code")

/-- The backend's whole message. -/
def Answer.wholeMessage : Answer → Option Text
  | .unreached _ => none
  | .refusal _ text => backendMessage E text
  | .frame error =>
      match Obj.get error "message" with
      | .str s => if strip s = [] then none else some (strip s)
      | _ => none

/-- What a failure may be called safe for. -/
inductive Evidence : Answer → Prop
  | unreached {message : Text} : Evidence (.unreached message)
  | busy {a : Answer} : a.status = some 429 → Evidence a
  | poolFull {a : Answer} {m : Text} : a.status.any (· < 500) = false →
      a.wholeMessage E = some m → isSentence "Context size has been exceeded" m = true → Evidence a
  | loading {a : Answer} {m : Text} : a.status = some 503 →
      a.wholeMessage E = some m → isSentence "Loading model" m = true → Evidence a

/-- Words in the text of an error that are taken for the backend's message. -/
def Misread (a : Answer) (e : CliError) : Prop :=
  (a.status.any (· < 500) = false ∧ poolFull e.message = true ∨
    a.status = some 503 ∧
      ((backendBody e.message).bind (backendMessage E)).any (isSentence "Loading model") = true) ∧
    ¬ Evidence E a

variable {E}

/-- The error of a frame is the one the stream ends with. -/
theorem frame_failure {o error : Obj} (tools : Bool) (kinds : List PartKind) (named interval : Text)
    (hc : Obj.item? o "choices" = none) (he : Obj.get o "error" = .obj error) :
    streamFailure E (.obj o) =
      some (.cli (errorOf E tools kinds named interval (.frame error)).message
        (errorOf E tools kinds named interval (.frame error)).upstreamStatus) := by
  unfold streamFailure
  simp only
  rw [show (Obj.item? o "choices").isSome = false from by rw [hc]; rfl, if_neg Bool.false_ne_true, he]
  rfl

theorem errorOf_status (tools : Bool) (kinds : List PartKind) (named interval : Text) (a : Answer) :
    (errorOf E tools kinds named interval a).upstreamStatus = a.status := by
  cases a with
  | unreached message => rfl
  | refusal status text =>
      show (upstreamRefusal E text status tools (attachmentHint kinds) named interval).upstreamStatus = _
      unfold upstreamRefusal
      split <;> rfl
  | frame error => rfl

theorem errorOf_unconnected {tools : Bool} {kinds : List PartKind} {named interval : Text} {a : Answer}
    (h : (errorOf E tools kinds named interval a).unconnected = true) : Evidence E a := by
  cases a with
  | unreached message => exact .unreached
  | refusal status text =>
      change (upstreamRefusal E text status tools (attachmentHint kinds) named interval).unconnected = true at h
      unfold upstreamRefusal at h
      split at h <;> cases h
  | frame error => cases h

/-- The four reasons to call a failure safe. -/
theorem disposition_safe {e : CliError} : disposition E digit e = .safe ↔
    e.upstreamStatus = some 429 ∨ e.unconnected = true ∨ capacityRefused e = true ∨
      loadingRefused E e = true := by
  unfold disposition
  constructor
  · intro h
    split at h
    · rename_i hs
      rw [Bool.or_eq_true, decide_eq_true_eq] at hs
      exact hs.imp_right Or.inl
    · split at h
      · rename_i hc
        exact Or.inr (Or.inr (Or.inl hc))
      · split at h
        · rename_i hl
          exact Or.inr (Or.inr (Or.inr hl))
        · split at h
          · cases h
          · split at h
            · cases h
            · split at h <;> cases h
  · intro h
    split
    · rfl
    · rename_i hs
      rw [Bool.or_eq_true, decide_eq_true_eq, not_or] at hs
      rcases (h.resolve_left hs.1).resolve_left hs.2 with hc | hl
      · exact if_pos hc
      · rw [if_pos hl]
        exact ite_self _

theorem capacityRefused_iff {e : CliError} : capacityRefused e = true ↔
    e.upstreamStatus.any (· < 500) = false ∧ poolFull e.message = true := by
  unfold capacityRefused
  cases e.upstreamStatus.any (· < 500) with
  | true => exact ⟨fun h => (by cases h), fun h => (by cases h.1)⟩
  | false => exact ⟨fun h => ⟨rfl, h⟩, And.right⟩

theorem loadingRefused_iff {e : CliError} : loadingRefused E e = true ↔ e.upstreamStatus = some 503 ∧
    ((backendBody e.message).bind (backendMessage E)).any (isSentence "Loading model") = true := by
  unfold loadingRefused
  by_cases h : e.upstreamStatus = some 503
  · rw [if_pos h]
    exact ⟨fun hl => ⟨h, hl⟩, And.right⟩
  · rw [if_neg h]
    exact ⟨fun hl => (by cases hl), fun hl => absurd hl.1 h⟩

/-- **A failure is called safe on evidence exactly when no words of its text
are misread.** -/
theorem safe_on_evidence (tools : Bool) (kinds : List PartKind) (named interval : Text) (a : Answer) :
    (disposition E digit (errorOf E tools kinds named interval a) = .safe → Evidence E a) ↔
      ¬ Misread E a (errorOf E tools kinds named interval a) := by
  rw [disposition_safe, capacityRefused_iff, loadingRefused_iff, errorOf_status]
  constructor
  · rintro h ⟨hw, hn⟩
    exact hn (h (Or.inr (Or.inr hw)))
  · intro h hs
    rcases hs with hb | hu | hw
    · exact .busy hb
    · exact errorOf_unconnected hu
    · exact Classical.byContradiction fun hn => h ⟨hw, hn⟩

/-- A broken backend that quotes the request. -/
def quoted : Answer := .refusal 500 "bad request: say Context size has been exceeded".toList

theorem quoted_safe :
    disposition (Env.ofTable []) Char.isDigit (errorOf (Env.ofTable []) false [] [] [] quoted) = .safe ∧
      ¬ Evidence (Env.ofTable []) quoted := by
  refine ⟨by decide +kernel, fun h => ?_⟩
  have hm : (quoted.wholeMessage (Env.ofTable [])).all
      (fun m => !isSentence "Context size has been exceeded" m) = true := by decide
  cases h with
  | busy hb => cases hb
  | poolFull _ hw hs =>
      rw [hw, Option.all_some, hs] at hm
      cases hm
  | loading hst => cases hst

end InferenceDriver.Failures

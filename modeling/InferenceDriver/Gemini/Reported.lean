/-
# `Gemini.Reported` — the finish reason Google reported

The reason an answer is given is the one on the last candidate that has
one: `stream_reported` for the frames of a stream, `generate_reported` for a
whole body.  No other part of an answer has a say in it.
-/
import InferenceDriver.Gemini.Engine

namespace InferenceDriver.Gemini

open Checks OpenAi

variable (E : Env) (U : Ucd) (dumps : Json → Text) (q : Setup)

/-! ## What was reported -/

/-- The candidate of a body or of a frame. -/
def candidateIn (event : Obj) : Obj :=
  match event.get "candidates" with
  | .arr (first :: _) => dictOf first
  | _ => []

/-- Its finish reason. -/
def reasonIn (event : Obj) : Option Json :=
  if ((candidateIn event).get "finishReason").truthy then some ((candidateIn event).get "finishReason")
  else none

/-- The document of a line that is looked at as a frame. -/
def frameData (text : Text) : Option Text :=
  if q.report ∧ ":".toList.isPrefixOf text then none else lineData text

/-- The frame of a line, if it is one. -/
def frameIn (text : Text) : Option Obj :=
  match (frameData q text).map E.loads with
  | some (.value (.obj event)) => some event
  | _ => none

/-- The frames of the lines, up to where the stall clock runs out. -/
def frames (armed : Bool) : List Arrival → List Obj
  | .line waited _ text :: rest =>
      if stalls q armed waited then []
      else (frameIn E q text).toList ++ frames (armed || (frameData q text).isSome) rest
  | _ => []

/-- The last reason of the frames. -/
def lastReason (reason : Option Json) (events : List Obj) : Option Json :=
  events.foldl (fun reason event => (reasonIn event).or reason) reason

def reported (arrivals : List Arrival) : Option Json := lastReason none (frames E q false arrivals)

/-! ## The loop keeps it -/

variable {E U dumps q}

/-- The local variables hold the last reason. -/
structure Holds (s : Locals) (reason : Option Json) : Prop where
  finished : s.finished = reason.isSome
  finishRaw : s.finishRaw = reason.getD .null

theorem onParsed_same (s : Locals) (p : Parsed) : (onParsed s p).finished = s.finished ∧
    (onParsed s p).finishRaw = s.finishRaw ∧ (onParsed s p).sawFirst = s.sawFirst := by
  have calls : ∀ (calls : List ToolCall) (s : Locals),
      let s' := calls.foldl (fun s call => { s with parsed.calls := s.parsed.calls ++ [call] }.send
        (.toolCalls [⟨s.parsed.calls.length, some call.id, some ⟨some call.name, some call.arguments⟩⟩])) s
      s'.finished = s.finished ∧ s'.finishRaw = s.finishRaw ∧ s'.sawFirst = s.sawFirst := by
    intro calls
    induction calls with
    | nil => exact fun s => ⟨rfl, rfl, rfl⟩
    | cons call rest ih => exact fun s => ih _
  unfold onParsed
  simp only
  refine ⟨(calls _ _).1.trans ?_, (calls _ _).2.1.trans ?_, (calls _ _).2.2.trans ?_⟩
  · split
    · split <;> rfl
    · split <;> rfl
  · split
    · split <;> rfl
    · split <;> rfl
  · split
    · split <;> rfl
    · split <;> rfl

theorem firstCandidate_eq {event candidate : Obj}
    (h : firstCandidate (event.get "candidates") = .ok candidate) : candidateIn event = candidate := by
  unfold firstCandidate at h
  unfold candidateIn
  split at h
  · cases h
    rename_i he
    rw [he]
  · cases h
    rename_i he
    rw [he]
  · cases h

theorem holds_onCandidate {hex : Nat → Text} {s s' : Locals} {reason : Option Json} {event : Obj}
    (h : Holds s reason) (hs : onCandidate E dumps hex s (event.get "candidates") = .ok s') :
    Holds s' ((reasonIn event).or reason) ∧ s'.sawFirst = s.sawFirst := by
  simp only [onCandidate, bind_eq_ok, Locals.attempt_eq_ok] at hs
  obtain ⟨candidate, hc, parts, -, parsed, -, hs⟩ := hs
  obtain ⟨hf, hr, hw⟩ := onParsed_same { s with lastCandidate := candidate } parsed
  unfold reasonIn
  rw [firstCandidate_eq hc]
  split at hs
  · rename_i ht
    cases hs
    rw [if_pos ht]
    exact ⟨⟨rfl, rfl⟩, hw⟩
  · rename_i ht
    cases hs
    rw [if_neg ht, Option.none_or]
    exact ⟨⟨hf.trans h.finished, hr.trans h.finishRaw⟩, hw⟩

theorem holds_onEvent {hex : Nat → Text} {s s' : Locals} {reason : Option Json} {event : Obj}
    (h : Holds s reason) (hs : onEvent E dumps q hex s event = .ok s') :
    Holds s' ((reasonIn event).or reason) ∧ s'.sawFirst = s.sawFirst := by
  unfold onEvent at hs
  split at hs
  · cases hs
  · simp only at hs
    split at hs
    · split at hs
      · exact holds_onCandidate (s := { s with usageRaw := event.get "usageMetadata" }) ⟨h.finished, h.finishRaw⟩ hs
      · exact holds_onCandidate h hs
    · rename_i ht
      have hnone : reasonIn event = none := by
        unfold reasonIn candidateIn
        cases hc : event.get "candidates" with
        | arr items =>
            cases items with
            | nil => rfl
            | cons item rest => exact absurd (by rw [hc]; rfl) ht
        | null => rfl
        | bool b => rfl
        | int n => rfl
        | float x => rfl
        | str t => rfl
        | obj fields => rfl
      rw [hnone, Option.none_or]
      split at hs
      · split at hs <;> cases hs
      · split at hs
        · cases hs
          exact ⟨⟨h.finished, h.finishRaw⟩, rfl⟩
        · cases hs
          exact ⟨h, rfl⟩

theorem holds_onLine {hex : Nat → Text} {now : ℚ} {text : Text} {s s' : Locals} {reason : Option Json}
    (h : Holds s reason) (hs : onLine E dumps q hex now text s = .ok s') :
    Holds s' (lastReason reason (frameIn E q text).toList) ∧
      s'.sawFirst = (s.sawFirst || (frameData q text).isSome) := by
  unfold onLine at hs
  unfold frameIn frameData
  split at hs
  · rename_i hp
    rw [if_pos hp]
    split at hs
    · cases hs
      exact ⟨⟨h.finished, h.finishRaw⟩, (Bool.or_false _).symm⟩
    · cases hs
      exact ⟨h, (Bool.or_false _).symm⟩
  · rename_i hp
    rw [if_neg hp]
    cases hd : lineData text with
    | none =>
        rw [hd] at hs
        cases hs
        exact ⟨h, (Bool.or_false _).symm⟩
    | some data =>
        rw [hd] at hs
        simp only at hs
        simp only [Option.map_some, Option.isSome_some, Bool.or_true]
        cases hl : E.loads data with
        | malformed =>
            rw [hl] at hs
            cases hs
            exact ⟨⟨h.finished, h.finishRaw⟩, rfl⟩
        | escapes =>
            rw [hl] at hs
            cases hs
        | value v =>
            rw [hl] at hs
            cases v with
            | obj event =>
                have hw : Holds { s with sawFirst := true } reason := ⟨h.finished, h.finishRaw⟩
                exact holds_onEvent hw hs
            | null => cases hs; exact ⟨⟨h.finished, h.finishRaw⟩, rfl⟩
            | bool b => cases hs; exact ⟨⟨h.finished, h.finishRaw⟩, rfl⟩
            | int n => cases hs; exact ⟨⟨h.finished, h.finishRaw⟩, rfl⟩
            | float x => cases hs; exact ⟨⟨h.finished, h.finishRaw⟩, rfl⟩
            | str t => cases hs; exact ⟨⟨h.finished, h.finishRaw⟩, rfl⟩
            | arr items => cases hs; exact ⟨⟨h.finished, h.finishRaw⟩, rfl⟩

theorem holds_readLines {hex : Nat → Text} (arrivals : List Arrival) {s s' : Locals}
    {reason : Option Json} (h : Holds s reason) (hs : readLines E dumps q hex s arrivals = .ok s') :
    Holds s' (lastReason reason (frames E q s.sawFirst arrivals)) := by
  induction arrivals generalizing s reason with
  | nil =>
      cases hs
      exact h
  | cons arrival rest ih =>
      cases arrival with
      | timeout => cases hs
      | broken said => cases hs
      | line waited now text =>
          rw [readLines] at hs
          rw [frames]
          split at hs
          · rename_i hst
            rw [if_pos hst]
            split at hs
            · cases hs
              exact h
            · cases hs
          · rename_i hst
            rw [if_neg hst]
            rw [bind_eq_ok] at hs
            obtain ⟨s₁, hs₁, hs⟩ := hs
            obtain ⟨h₁, hw⟩ := holds_onLine h hs₁
            rw [lastReason, List.foldl_append, ← hw]
            exact ih h₁ hs

theorem holds_opened : Holds (opened q) none := by
  unfold opened
  split
  · exact ⟨rfl, rfl⟩
  · exact ⟨rfl, rfl⟩

theorem opened_sawFirst : (opened q).sawFirst = false := by
  unfold opened
  split
  · rfl
  · rfl

/-! ## What is answered -/

/-- A result says what `finish_of` makes of a reason. -/
structure Closes (E : Env) (reason : Json) (r : GenerateResponse) : Prop where
  usable : reasonName E reason ∉ brokenCall
  finishReason : r.finishReason =
    if r.toolCalls ≠ [] ∧ finishNamed (reasonName E reason) = .stop then .toolCalls
    else finishNamed (reasonName E reason)

theorem closes_of_finishOf {parsed : Parsed} {candidate : Obj} {reason usage : Json}
    {finish : FinishReason} {r : GenerateResponse}
    (hf : finishOf E reason (parsed.calls ≠ []) = .ok finish)
    (hr : resultOf E q parsed candidate finish usage = .ok r) : Closes E reason r := by
  unfold finishOf at hf
  split at hf
  · cases hf
  · rename_i hb
    simp only [resultOf, checked_eq_ok] at hr
    obtain ⟨rfl, -⟩ := hr
    refine ⟨hb, ?_⟩
    cases hf
    simp only [decide_eq_true_eq]

/-- **A stream that ends was closed by a reason, and answers that one.** -/
theorem stream_reported {hex : Nat → Text} {arrivals : List Arrival} {chunks : List Chunk}
    (h : stream E U dumps q hex arrivals = .ok chunks) :
    ∃ reason frames r, reported E q arrivals = some reason ∧ chunks = frames ++ [.done r] ∧
      Closes E reason r := by
  unfold stream at h
  split at h
  · cases h
  · rename_i s hs
    have hh := holds_readLines arrivals holds_opened hs
    rw [opened_sawFirst] at hh
    unfold finish at h
    split at h
    · cases h
    · rename_i hfin
      rw [not_not, hh.finished, Option.isSome_iff_exists] at hfin
      obtain ⟨reason, hreason⟩ := hfin
      simp only [bind_eq_ok, pure_eq_ok, Locals.attempt_eq_ok] at h
      obtain ⟨finish, hf, r, hr, rfl⟩ := h
      rw [hh.finishRaw, hreason] at hf
      refine ⟨reason, _, r, hreason, rfl, ?_⟩
      split at hr
      · exact closes_of_finishOf hf hr
      · exact closes_of_finishOf hf hr

/-- **A whole answer answers the reason of its candidate.** -/
theorem generate_reported {hex : Nat → Text} {body : Json} {r : GenerateResponse}
    (h : generate E dumps q hex (.value body) = .ok r) :
    Closes E ((candidateIn (dictOf body)).get "finishReason") r := by
  simp only [generate] at h
  split at h
  · simp only [bind_eq_ok] at h
    obtain ⟨candidate, hc, parts, -, parsed, -, h⟩ := h
    split at h
    · cases h
    · simp only [bind_eq_ok] at h
      obtain ⟨finish, hf, hr⟩ := h
      rw [firstCandidate_eq hc]
      exact closes_of_finishOf hf hr
  · simp only [bind_eq_ok] at h
    obtain ⟨b, -, h⟩ := h
    cases h

end InferenceDriver.Gemini

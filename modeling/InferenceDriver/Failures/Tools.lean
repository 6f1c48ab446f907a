/-
# `Failures.Tools` — a refusal of a request's tools

`ToolsRefused` is to be the caller's 400 whatever the status was.
`disposition` and `_backend_error` look at the status and at other words
first, so it is exactly when none of these catches it (`tools_refused`).
-/
import InferenceDriver.Failures.Evidence

namespace InferenceDriver.Failures

open OpenAi

variable (E : Env) (U : Ucd) (digit : Char → Bool)

/-- What is looked at before the error's kind, and is not the caller's 400. -/
def Caught (status : Nat) (message : Text) : Prop :=
  status = 401 ∨ status = 402 ∨ status = 403 ∧ contentRefusal U message = false ∨ status = 429 ∨
    500 ≤ status ∧ poolFull message = true

variable {E U digit}

/-- The error of a refusal of tools. -/
def toolsError (status : Nat) (message : Text) : CliError :=
  { message, upstreamStatus := some status, toolsRefused := true }

theorem returned_append (status : Nat) (body rest : Text) :
    returned status body ++ rest = returned status (body ++ rest) := by
  unfold returned
  exact List.append_assoc _ _ _

theorem toolsError_message {x y z w : String} (hE : 'E' ∈ y.toList) (hdot : ∃ l, w.toList = l ++ ['.'])
    (status : Nat) (body named between interval : Text) :
    ∃ before after, toolsError status
        (returned status body ++ (x ++ y).toList ++ named ++ between ++ interval ++ (z ++ w).toList) =
        toolsError status (returned status (before ++ 'E' :: after ++ ['.'])) := by
  obtain ⟨a, b, hab⟩ := List.append_of_mem hE
  obtain ⟨l, hl⟩ := hdot
  refine ⟨body ++ (x.toList ++ a), b ++ (named ++ (between ++ (interval ++ (z.toList ++ l)))), ?_⟩
  have hlist : body ++ (x ++ y).toList ++ named ++ between ++ interval ++ (z ++ w).toList =
      body ++ (x.toList ++ a) ++ 'E' :: (b ++ (named ++ (between ++ (interval ++ (z.toList ++ l))))) ++ ['.'] := by
    rw [String.toList_append, String.toList_append, hab, hl]
    simp only [List.append_assoc, List.cons_append]
  rw [returned_append, returned_append, returned_append, returned_append, returned_append, hlist]

/-- The text of a refusal of tools, after the driver's first words. -/
theorem refusal_tools {text : Text} (h : toolsRefusal E (text.take 4000) ≠ none) (status : Nat)
    (kinds : List PartKind) (named interval : Text) :
    ∃ before after, refusal E text status true kinds named interval =
      toolsError status (returned status (before ++ 'E' :: after ++ ['.'])) := by
  obtain ⟨words, hw⟩ := Option.ne_none_iff_exists'.mp h
  rw [refusal, upstreamRefusal, if_pos rfl, hw]
  exact toolsError_message (by decide) ⟨"answers one".toList, by decide⟩ status _ named _ interval

/-- That text is not the message of a backend that is loading. -/
theorem note_not_loading (hE : ∀ text v, E.loads (text ++ ['.']) ≠ .value v) (before after : Text) :
    (backendMessage E (before ++ 'E' :: after ++ ['.'])).any (isSentence "Loading model") = false := by
  have hdot : strip (before ++ 'E' :: after ++ ['.']) =
      (before ++ 'E' :: after).dropWhile isspace ++ ['.'] :=
    Words.strip_append_cons rfl _ []
  have hmem : 'E' ∈ strip (before ++ 'E' :: after ++ ['.']) := by
    rw [List.append_assoc, strip, List.cons_append, Words.strip_append_cons rfl]
    exact List.mem_append_right _ List.mem_cons_self
  have hne : strip (before ++ 'E' :: after ++ ['.']) ≠ [] := List.ne_nil_of_mem hmem
  unfold backendMessage
  simp only
  rw [if_neg hne]
  cases hl : E.loads (strip (before ++ 'E' :: after ++ ['.'])) with
  | value v =>
      rw [hdot] at hl
      exact absurd hl (hE _ v)
  | escapes => rfl
  | malformed =>
      rw [Option.any_some, Bool.eq_false_iff]
      intro hs
      rw [isSentence, Bool.or_eq_true, decide_eq_true_eq, decide_eq_true_eq] at hs
      rcases hs with hs | hs
      · rw [hs] at hmem
        exact absurd hmem (by decide)
      · rw [hs] at hmem
        exact absurd hmem (by decide)

theorem disposition_refused {e : CliError} (h : e.toolsRefused = true) :
    disposition E digit e = .safe ∨ disposition E digit e = .terminal := by
  unfold disposition
  split
  · exact Or.inl rfl
  · split
    · exact Or.inl rfl
    · split
      · exact Or.inl rfl
      · right
        simp only [ite_self]

variable (digit)

theorem disposition_tools {status : Nat} {message : Text}
    (hl : loadingRefused E (plainError status message) = false) :
    disposition E digit (toolsError status message) =
      if status = 429 ∨ 500 ≤ status ∧ poolFull message = true then .safe else .terminal := by
  have hsafe : disposition E digit (toolsError status message) = .safe ↔ _ :=
    disposition_safe digit
  have hstatus : (plainError status message).upstreamStatus = some 429 ↔ status = 429 := by
    rw [plainError, Option.some.injEq]
    exact Int.ofNat_inj
  have hcap : capacityRefused (toolsError status message) =
      (decide (500 ≤ status) && poolFull message) := capacityRefused_plain status message
  have hload : loadingRefused E (toolsError status message) = false := hl
  have hiff : disposition E digit (toolsError status message) = .safe ↔
      status = 429 ∨ 500 ≤ status ∧ poolFull message = true := by
    rw [hsafe, hcap, hload, Bool.and_eq_true, decide_eq_true_eq]
    refine ⟨fun h => ?_, fun h => h.imp hstatus.mpr fun hp => Or.inr (Or.inl hp)⟩
    rcases h with h | h | h | h
    · exact Or.inl (hstatus.mp h)
    · cases h
    · exact Or.inr h
    · cases h
  by_cases h : status = 429 ∨ 500 ≤ status ∧ poolFull message = true
  · rw [if_pos h]
    exact hiff.mpr h
  · rw [if_neg h]
    exact (disposition_refused rfl).resolve_left fun hs => h (hiff.mp hs)

theorem tools_credential (status : Nat) (message : Text) :
    credentialRefused U (toolsError status message) =
      if status = 401 ∨ status = 402 ∨ status = 403 ∧ contentRefusal U message = false
      then some (status : Int) else none := by
  exact credentialRefused_plain U status message

theorem tools_capacity (status : Nat) (message : Text) :
    capacityRefused (toolsError status message) =
      (decide (500 ≤ status) && poolFull message) :=
  capacityRefused_plain status message

theorem tools_status {status : Nat} {message : Text}
    (hl : loadingRefused E (plainError status message) = false) (kindLabel : Text) :
    (backendError E U digit (toolsError status message) kindLabel).status =
      if status = 401 ∨ status = 402 ∨ status = 403 ∧ contentRefusal U message = false then 502
      else if 500 ≤ status ∧ poolFull message = true then 503
      else if status = 429 then 502 else 400 := by
  unfold backendError
  rw [tools_credential, tools_capacity]
  by_cases hcred : status = 401 ∨ status = 402 ∨ status = 403 ∧ contentRefusal U message = false
  · rw [if_pos hcred, if_pos hcred]
    rfl
  · rw [if_neg hcred, if_neg hcred]
    by_cases hpool : 500 ≤ status ∧ poolFull message = true
    · rw [if_pos hpool, if_pos (by simpa using hpool)]
      rfl
    · rw [if_neg hpool]
      simp only
      rw [if_neg (by simpa using hpool)]
      unfold otherProblem
      simp only
      rw [disposition_tools digit hl]
      by_cases h429 : status = 429
      · rw [if_pos h429, if_pos (Or.inl h429)]
        rfl
      · have hsafe : ¬ (status = 429 ∨ 500 ≤ status ∧ poolFull message = true) :=
          fun hc => hc.elim h429 hpool
        rw [if_neg h429, if_neg hsafe]
        rfl

variable (U)

/-- **A refusal of a request's tools is the caller's 400 exactly when nothing
else catches it first.** -/
theorem tools_refused (hE : ∀ text v, E.loads (text ++ ['.']) ≠ .value v) {text : Text}
    (h : toolsRefusal E (text.take 4000) ≠ none) (status : Nat) (kinds : List PartKind)
    (named interval kindLabel : Text) :
    (disposition E digit (refusal E text status true kinds named interval) = .terminal ∧
        (backendError E U digit (refusal E text status true kinds named interval) kindLabel).status = 400 ∧
        (backendError E U digit (refusal E text status true kinds named interval) kindLabel).retryDisposition =
          .terminal) ↔
      ¬ Caught U status (refusal E text status true kinds named interval).message := by
  obtain ⟨before, after, he⟩ := refusal_tools h status kinds named interval
  rw [he]
  generalize hm : returned status (before ++ 'E' :: after ++ ['.']) = message
  have hl : loadingRefused E (plainError status message) = false := by
    rw [← Bool.not_eq_true, loadingRefused_iff]
    rintro ⟨-, hl⟩
    rw [plainError, ← hm, backendBody_returned, Option.bind_some, note_not_loading hE] at hl
    cases hl
  have hd := disposition_tools digit hl
  have hstatus := tools_status (U := U) digit hl kindLabel
  change _ ↔ ¬ Caught U status message
  constructor
  · rintro ⟨hterminal, hanswer, -⟩ hcaught
    rw [hd] at hterminal
    rw [hstatus] at hanswer
    rcases hcaught with hc | hc | hc | hc | hc
    · rw [if_pos (Or.inl hc)] at hanswer
      cases hanswer
    · rw [if_pos (Or.inr (Or.inl hc))] at hanswer
      cases hanswer
    · rw [if_pos (Or.inr (Or.inr hc))] at hanswer
      cases hanswer
    · rw [if_pos (Or.inl hc)] at hterminal
      cases hterminal
    · rw [if_pos (Or.inr hc)] at hterminal
      cases hterminal
  · intro hcaught
    unfold Caught at hcaught
    simp only [not_or] at hcaught
    obtain ⟨h401, h402, h403, h429, hpool⟩ := hcaught
    have hcred : ¬ (status = 401 ∨ status = 402 ∨ status = 403 ∧ contentRefusal U message = false) :=
      fun hc => hc.elim h401 fun hc => hc.elim h402 h403
    have hsafe : ¬ (status = 429 ∨ 500 ≤ status ∧ poolFull message = true) := fun hc => hc.elim h429 hpool
    rw [if_neg hsafe] at hd
    refine ⟨hd, ?_, ?_⟩
    · rw [hstatus, if_neg hcred, if_neg hpool, if_neg h429]
    · unfold backendError
      rw [tools_credential status message, if_neg hcred, tools_capacity status message]
      simp only
      rw [if_neg (by simpa using hpool)]
      exact hd

/-- llama-server's words. -/
def jinjaWords : Text := "tools param requires --jinja flag".toList

theorem jinjaWords_recognised : toolsRefusal (Env.ofTable []) (jinjaWords.take 4000) ≠ none := by
  decide

/-- Its words, under a status. -/
def noJinja (status : Nat) : CliError := refusal (Env.ofTable []) jinjaWords status true [] [] []

theorem tools_refused_jinja :
    (backendError (Env.ofTable []) Ucd.basic Char.isDigit (noJinja 500) []).status = 400 := by
  have hE : ∀ text v, (Env.ofTable []).loads (text ++ ['.']) ≠ .value v := by
    intro text v
    unfold Env.ofTable
    simp only [List.find?_nil, ite_self]
    exact fun hv => (by cases hv)
  have hpool : poolFull (noJinja 500).message = false := by decide +kernel
  refine ((tools_refused Ucd.basic Char.isDigit hE jinjaWords_recognised 500 [] [] [] []).mpr ?_).2.1
  rintro (hc | hc | hc | hc | hc)
  · cases hc
  · cases hc
  · cases hc.1
  · cases hc
  · exact Bool.false_ne_true (hpool.symm.trans hc.2)

/-- Under a 429 they are something to try elsewhere, under a 401 a bad key. -/
theorem tools_refused_busy :
    toolsRefusal (Env.ofTable []) (jinjaWords.take 4000) ≠ none ∧
      disposition (Env.ofTable []) Char.isDigit (noJinja 429) = .safe ∧
      (backendError (Env.ofTable []) Ucd.basic Char.isDigit (noJinja 401) []).status = 502 := by
  have hstatus : ∀ status : Nat, (noJinja status).upstreamStatus = some (status : Int) :=
    fun status => errorOf_status true [] [] [] (.refusal status _)
  refine ⟨jinjaWords_recognised, (disposition_safe Char.isDigit).mpr (Or.inl (hstatus 429)), ?_⟩
  unfold backendError credentialRefused
  rw [hstatus]
  rfl

end InferenceDriver.Failures

/-
# `Failures.Attachments` — what a failure means when the body is left out

A request with an attachment has the backend's body left out of the error's
text, and what the failure means is read from that text.  So it means
something else exactly when the body has words that count for its status
(`Telling`), unless it refused the request's tools, which is read from the
body itself (`same_meaning`).
-/
import InferenceDriver.Failures.Disposition

namespace InferenceDriver.Failures

open OpenAi

variable (E : Env) (U : Ucd) (digit : Char → Bool)

/-- The error of a status and a text alone. -/
def plainError (status : Nat) (message : Text) : CliError := { message, upstreamStatus := some status }

/-- The words of a failure that make it mean what its status alone does not. -/
def Telling (status : Nat) (message : Text) : Prop :=
  status = 403 ∧ contentRefusal U message = true ∨
  500 ≤ status ∧ poolFull message = true ∨
  status = 503 ∧ loadingRefused E (plainError status message) = true ∨
  callers status = false ∧ (templateRefusal message = true ∨ inputTooLong digit message = true)

/-- What a failure means: its disposition, and the status of the answer. -/
def meaning (e : CliError) (kindLabel : Text) : Disposition × Nat :=
  (disposition E digit e, (backendError E U digit e kindLabel).status)

/-- What a status means by itself. -/
def meaningOf (status : Nat) : Disposition × Nat :=
  (if status = 429 then .safe else if callers status then .terminal else .indeterminate,
    if status = 401 ∨ status = 402 ∨ status = 403 then 502
    else if callers status ∧ status ≠ 429 then 400 else 502)

/-! ## Status and words -/

theorem capacityRefused_plain (status : Nat) (message : Text) :
    capacityRefused (plainError status message) = (decide (500 ≤ status) && poolFull message) := by
  unfold capacityRefused plainError
  by_cases h : 500 ≤ status
  · rw [if_neg, decide_eq_true h, Bool.true_and]
    rw [Option.any_some, decide_eq_true_eq]
    omega
  · rw [if_pos, decide_eq_false h, Bool.false_and]
    rw [Option.any_some, decide_eq_true_eq]
    omega

theorem loadingRefused_plain {status : Nat} {message : Text}
    (h : loadingRefused E (plainError status message) = true) : status = 503 := by
  unfold loadingRefused plainError at h
  split at h
  · rename_i hs
    exact Int.ofNat_inj.mp (Option.some.inj hs)
  · cases h

theorem disposition_plain (status : Nat) (message : Text) :
    disposition E digit (plainError status message) =
      if status = 429 then .safe
      else if 500 ≤ status ∧ poolFull message = true then .safe
      else if loadingRefused E (plainError status message) = true then .safe
      else if callers status = true then .terminal
      else if templateRefusal message = true ∨ inputTooLong digit message = true then .terminal
      else .indeterminate := by
  unfold disposition
  rw [capacityRefused_plain]
  refine if_congr ?_ rfl (if_congr ?_ rfl (if_congr Iff.rfl rfl (if_congr Iff.rfl rfl (if_congr ?_ rfl rfl))))
  · rw [Bool.or_eq_true, decide_eq_true_eq, plainError, Option.some.injEq]
    refine ⟨fun h => ?_, fun h => Or.inl (by rw [h]; rfl)⟩
    rcases h with h | h
    · exact Int.ofNat_inj.mp h
    · cases h
  · rw [Bool.and_eq_true, decide_eq_true_eq]
  · rw [Bool.or_eq_true]
    rfl

theorem credentialRefused_plain (status : Nat) (message : Text) :
    credentialRefused U (plainError status message) =
      if status = 401 ∨ status = 402 ∨ status = 403 ∧ contentRefusal U message = false
      then some (status : Int) else none := by
  have cast (n : Nat) : (status : Int) = (n : Int) ↔ status = n := Int.ofNat_inj
  unfold credentialRefused plainError
  simp only
  by_cases h : status = 401 ∨ status = 402
  · rw [if_pos (by simpa using h.imp (cast 401).mpr (cast 402).mpr), if_pos (h.imp_right Or.inl)]
  · have hn : ¬ ((status : Int) = 401 ∨ (status : Int) = 402) :=
      fun hn => h (hn.imp (cast 401).mp (cast 402).mp)
    rw [if_neg (by simpa using hn)]
    refine if_congr ?_ rfl rfl
    rw [Bool.and_eq_true, decide_eq_true_eq, Bool.not_eq_true']
    refine ⟨fun hc => Or.inr (Or.inr ⟨(cast 403).mp hc.1, hc.2⟩), fun hc => ?_⟩
    rcases hc with hc | hc | hc
    · exact absurd (Or.inl hc) h
    · exact absurd (Or.inr hc) h
    · exact ⟨(cast 403).mpr hc.1, hc.2⟩

theorem answer_plain (status : Nat) (message kindLabel : Text) :
    (backendError E U digit (plainError status message) kindLabel).status =
      if status = 401 ∨ status = 402 ∨ status = 403 ∧ contentRefusal U message = false then 502
      else if 500 ≤ status ∧ poolFull message = true then 503
      else if disposition E digit (plainError status message) = .terminal then 400 else 502 := by
  unfold backendError
  rw [credentialRefused_plain, capacityRefused_plain]
  by_cases h : status = 401 ∨ status = 402 ∨ status = 403 ∧ contentRefusal U message = false
  · rw [if_pos h, if_pos h]
    rfl
  · rw [if_neg h, if_neg h]
    by_cases hp : 500 ≤ status ∧ poolFull message = true
    · rw [if_pos hp]
      simp only [hp.1, hp.2, decide_true, Bool.and_true, if_true]
      rfl
    · rw [if_neg hp, if_neg (by simpa using hp)]
      rfl

variable {E U digit}

theorem callers_of_le {status : Nat} (h : 500 ≤ status) : callers status = false := by
  unfold callers
  rw [show decide ((status : Int) < 500) = false from decide_eq_false (by omega), Bool.and_false,
    Bool.false_and]

theorem ne_429_of_callers {status : Nat} (h : callers status = false) : status ≠ 429 := by
  rintro rfl
  cases h

/-- Without such words a failure means what its status means. -/
theorem meaning_quiet {status : Nat} {message : Text} (kindLabel : Text)
    (h : ¬ Telling E U digit status message) :
    meaning E U digit (plainError status message) kindLabel = meaningOf status := by
  unfold Telling at h
  simp only [not_or] at h
  obtain ⟨hcontent, hpool, hloading, hwords⟩ := h
  have hload : ¬ loadingRefused E (plainError status message) = true :=
    fun hl => hloading ⟨loadingRefused_plain E hl, hl⟩
  have hd : disposition E digit (plainError status message) = (meaningOf status).1 := by
    rw [disposition_plain, meaningOf, if_neg hpool, if_neg hload]
    cases hc : callers status with
    | true => rfl
    | false => rw [if_neg Bool.false_ne_true, if_neg (fun hw => hwords ⟨hc, hw⟩), if_neg Bool.false_ne_true]
  have hcred : (status = 401 ∨ status = 402 ∨ status = 403 ∧ contentRefusal U message = false) ↔
      (status = 401 ∨ status = 402 ∨ status = 403) := by
    refine or_congr_right (or_congr_right ⟨And.left, fun hs => ⟨hs, ?_⟩⟩)
    exact Bool.eq_false_iff.mpr fun hc => hcontent ⟨hs, hc⟩
  have hterminal : disposition E digit (plainError status message) = .terminal ↔
      callers status = true ∧ status ≠ 429 := by
    rw [hd, meaningOf]
    by_cases h429 : status = 429
    · rw [if_pos h429]
      exact ⟨fun hs => (by cases hs), fun hs => absurd h429 hs.2⟩
    · rw [if_neg h429]
      cases callers status with
      | true => exact ⟨fun _ => ⟨rfl, h429⟩, fun _ => rfl⟩
      | false => exact ⟨fun hs => (by cases hs), fun hs => (by cases hs.1)⟩
  refine Prod.ext hd ?_
  rw [meaning, answer_plain, if_neg hpool, meaningOf]
  exact if_congr hcred rfl (if_congr hterminal rfl rfl)

/-- Words that are read make a failure another one than its status does. -/
theorem disposition_told {status : Nat} {message : Text} (hc : callers status = false)
    (h : 500 ≤ status ∧ poolFull message = true ∨ loadingRefused E (plainError status message) = true ∨
      templateRefusal message = true ∨ inputTooLong digit message = true) :
    disposition E digit (plainError status message) ≠ (meaningOf status).1 := by
  have h429 := ne_429_of_callers hc
  rw [disposition_plain, meaningOf, if_neg h429, if_neg h429, hc, if_neg Bool.false_ne_true,
    if_neg Bool.false_ne_true]
  split
  · exact fun he => (by cases he)
  · rename_i hp
    split
    · exact fun he => (by cases he)
    · rename_i hl
      rw [if_pos ((h.resolve_left hp).resolve_left hl)]
      exact fun he => (by cases he)

theorem meaning_telling {status : Nat} {message : Text} (kindLabel : Text)
    (h : Telling E U digit status message) :
    meaning E U digit (plainError status message) kindLabel ≠ meaningOf status := by
  intro heq
  have hd := congrArg Prod.fst heq
  rcases h with ⟨rfl, hc⟩ | hp | ⟨hs, hl⟩ | ⟨hc, hw⟩
  · have hload : ¬ loadingRefused E (plainError 403 message) = true := fun hl => by
      cases loadingRefused_plain E hl
    have hterminal : disposition E digit (plainError 403 message) = .terminal := by
      rw [disposition_plain, if_neg (by omega), if_neg (by omega), if_neg hload]
      rfl
    have ha := congrArg Prod.snd heq
    rw [meaning, answer_plain, if_neg (by simp [hc]), if_neg (by omega), if_pos hterminal] at ha
    cases ha
  · exact disposition_told (callers_of_le hp.1) (Or.inl hp) hd
  · exact disposition_told (callers_of_le (by omega)) (Or.inr (Or.inl hl)) hd
  · exact disposition_told hc (Or.inr (Or.inr hw)) hd

/-! ## The hints -/

def hints : List Text := [imageErrorHint, audioErrorHint, fileErrorHint]

theorem attachmentHint_mem {kinds : List PartKind} {hint : Text} (h : attachmentHint kinds = some hint) :
    hint ∈ hints := by
  unfold attachmentHint at h
  unfold hints
  split at h
  · rw [← Option.some.inj h]
    exact List.mem_cons_self
  · split at h
    · rw [← Option.some.inj h]
      exact List.mem_cons_of_mem _ List.mem_cons_self
    · split at h
      · rw [← Option.some.inj h]
        exact List.mem_cons_of_mem _ (List.mem_cons_of_mem _ List.mem_cons_self)
      · cases h

theorem attachmentHint_none {kinds : List PartKind} : attachmentHint kinds = none ↔ kinds = [] := by
  unfold attachmentHint
  constructor
  · intro h
    cases kinds with
    | nil => rfl
    | cons kind rest =>
        split at h
        · cases h
        · split at h
          · cases h
          · split at h
            · cases h
            · rename_i hi ha hf
              cases kind with
              | image => exact absurd List.mem_cons_self hi
              | audio => exact absurd List.mem_cons_self ha
              | file => exact absurd List.mem_cons_self hf
  · rintro rfl
    rfl

/-- The driver's own words have only letters, digits and a few marks. -/
theorem not_mem_returned {c : Char} {status : Nat} {body : Text} (hd : c.isDigit = false)
    (hw : c ∉ "openai_compat_http returned : ".toList) (hb : c ∉ body) : c ∉ returned status body := by
  intro h
  unfold returned at h
  simp only [List.mem_append] at h
  rcases h with ((h | h) | h) | h
  · refine hw ?_
    rw [show "openai_compat_http returned : ".toList =
      "openai_compat_http returned ".toList ++ ": ".toList from rfl]
    exact List.mem_append_left _ h
  · rw [Nat.toString_eq_repr, Nat.toList_repr] at h
    rw [Nat.isDigit_of_mem_toDigits (by omega) (by omega) h] at hd
    cases hd
  · refine hw ?_
    rw [show "openai_compat_http returned : ".toList =
      "openai_compat_http returned ".toList ++ ": ".toList from rfl]
    exact List.mem_append_right _ h
  · exact hb h

theorem mentions_false {word text : Text} {c : Char} (hw : c ∈ word) (ht : c ∉ text) :
    mentions word text = false := by
  rw [mentions, Words.findBy_eq_none hw ht]
  rfl

/-- A literal in front of a pattern has to be read. -/
theorem inputTooLong_false {text : Text} (h : '(' ∉ text) : inputTooLong digit text = false := by
  unfold inputTooLong
  rw [List.any_eq_false]
  intro s hs
  have hopen : '(' ∉ s := fun hm => h (((List.mem_tails _ _).mp hs).subset hm)
  have hnone : Words.prefixBy (fun p c => p = c) "input (".toList s = none := by
    cases hp : Words.prefixBy (fun p c => p = c) "input (".toList s with
    | none => rfl
    | some r => exact absurd (Words.prefixBy_mem hp '(' (by decide)) hopen
  have hrun : Backtrack.run flavour (literal "input (") ⟨none, s, none⟩ = [] := by
    rw [literal, Backtrack.run_chars]
    have he := Words.eat_eq_prefixBy (fun (p : Char → Bool) c => p c)
      ("input (".toList.map fun p c => p = c) none s
    rw [Words.prefixBy_literal, hnone, Option.map_eq_none_iff] at he
    simp only [he]
  rw [Backtrack.first, inputTooLongRe, Backtrack.run, hrun]
  exact Bool.false_ne_true

theorem ignoreCase_ascii {p c : Char} (hc : c.toNat < 128) :
    ignoreCase U p c = (c.toLower == p || (p == 'i' && c.toLower == 'ı') || (p == 's' && c.toLower == 'ſ')) := by
  rw [ignoreCase, Ucd.foldMatch, Ucd.simpleLower, U.lower_ascii c hc]
  rfl

theorem contentRefusal_ascii {text : Text} (h : text.all (fun c => c.toNat < 128) = true) :
    contentRefusal U text = contentRefusals.any fun word =>
      (Words.findBy (fun p c => c.toLower == p || (p == 'i' && c.toLower == 'ı') ||
        (p == 's' && c.toLower == 'ſ')) word.toList text).isSome := by
  unfold contentRefusal
  congr 1
  funext word
  rw [Words.findBy_congr fun p _ c hc => ignoreCase_ascii (of_decide_eq_true (List.all_eq_true.mp h c hc))]

/-- A text that no pattern is found in. -/
def silent (hint : Text) : Bool :=
  'z' ∉ hint && 'J' ∉ hint && '(' ∉ hint && strip hint = hint && hint ≠ [] &&
    !isSentence "Loading model" hint && (returned 403 hint).all (fun c => c.toNat < 128) &&
    !contentRefusals.any fun word => (Words.findBy (fun p c => c.toLower == p ||
      (p == 'i' && c.toLower == 'ı') || (p == 's' && c.toLower == 'ſ')) word.toList
        (returned 403 hint)).isSome

/-- A text is checked character by character: its literals are spelled out first. -/
theorem silent_literals {a b c : String} {as bs cs : Text} (ha : a = String.ofList as)
    (hb : b = String.ofList bs) (hc : c = String.ofList cs) (h : silent (as ++ bs ++ cs) = true) :
    silent (a ++ b ++ c).toList = true := by
  rw [String.toList_append, String.toList_append, ha, hb, hc, String.toList_ofList, String.toList_ofList,
    String.toList_ofList]
  exact h

theorem errorHints_silent :
    silent imageErrorHint = true ∧ silent audioErrorHint = true ∧ silent fileErrorHint = true := by
  refine ⟨?_, ?_, ?_⟩
  · unfold imageErrorHint
    refine silent_literals rfl rfl rfl ?_
    decide +kernel
  · unfold audioErrorHint
    refine silent_literals rfl rfl rfl ?_
    decide +kernel
  · unfold fileErrorHint
    rw [show "File request refused by the backend. Check that the model reads PDFs; try a smaller " ++
      "file or shorter conversation. Upstream body omitted to protect attachment data." =
        "File request refused by the backend. Check that the model reads PDFs; try a smaller " ++
          "file or shorter conversation. Upstream body omitted to protect attachment data." ++ "" from
            String.append_empty.symm]
    refine silent_literals rfl rfl rfl ?_
    decide +kernel

theorem hints_silent {hint : Text} (h : hint ∈ hints) : silent hint = true := by
  obtain ⟨himage, haudio, hfile⟩ := errorHints_silent
  unfold hints at h
  rcases List.mem_cons.mp h with hi | h
  · rw [hi]
    exact himage
  · rcases List.mem_cons.mp h with ha | h
    · rw [ha]
      exact haudio
    · rw [List.mem_singleton.mp h]
      exact hfile

/-- The body follows the first colon. -/
theorem backendBody_returned (status : Nat) (body : Text) : backendBody (returned status body) = some body := by
  have hcolon : ':' ∉ "openai_compat_http returned ".toList ++ (toString status).toList := by
    intro h
    rcases List.mem_append.mp h with h | h
    · exact absurd h (by decide)
    · rw [Nat.toString_eq_repr, Nat.toList_repr] at h
      cases Nat.isDigit_of_mem_toDigits (by omega) (by omega) h
  have hfind : Words.findBy (fun p c => p = c) ": ".toList (": ".toList ++ body) = some 0 := rfl
  unfold backendBody returned
  rw [List.append_assoc _ ": ".toList body]
  have hskip := Words.findBy_append_of_not_mem [' '] (": ".toList ++ body) hcolon
  rw [show ':' :: [' '] = ": ".toList from rfl, hfind] at hskip
  rw [hskip, Option.map_some, Option.map_some, Nat.zero_add, List.drop_append,
    List.drop_eq_nil_of_le (Nat.le_add_right _ 2), List.nil_append, Nat.add_sub_cancel_left]
  rfl

/-- A hint says nothing of its own. -/
theorem hint_quiet {status : Nat} {hint : Text} (h : hint ∈ hints) (hE : E.loads hint = .malformed) :
    ¬ Telling E U digit status (returned status hint) := by
  have hl := hints_silent h
  simp only [silent, Bool.and_eq_true, decide_eq_true_eq, Bool.not_eq_true'] at hl
  obtain ⟨⟨⟨⟨⟨⟨⟨hz, hJ⟩, hopen⟩, hstrip⟩, hne⟩, hloading⟩, hascii⟩, hcontent⟩ := hl
  rintro (⟨rfl, hc⟩ | ⟨-, hp⟩ | ⟨-, hr⟩ | ⟨-, ht | ht⟩)
  · rw [contentRefusal_ascii hascii, hcontent] at hc
    cases hc
  · rw [poolFull, mentions_false (c := 'z') (by decide) (not_mem_returned rfl (by decide) hz)] at hp
    cases hp
  · unfold loadingRefused at hr
    rw [plainError, backendBody_returned, Option.bind_some, backendMessage, hstrip, if_neg hne, hE] at hr
    simp only [Option.any_some, hloading] at hr
    split at hr <;> cases hr
  · rw [templateRefusal, mentions_false (c := 'J') (by decide) (not_mem_returned rfl (by decide) hJ)] at ht
    cases ht
  · rw [inputTooLong_false (not_mem_returned rfl (by decide) hopen)] at ht
    cases ht

/-! ## Two requests -/

/-- The backend's refusal of a request, its attachments of these kinds. -/
def refusal (E : Env) (text : Text) (status : Nat) (tools : Bool) (kinds : List PartKind)
    (named interval : Text) : CliError :=
  upstreamRefusal E text status tools (attachmentHint kinds) named interval

theorem refusal_plain {text : Text} {tools : Bool}
    (h : (if tools then toolsRefusal E (text.take 4000) else none) = none) (status : Nat)
    (kinds : List PartKind) (named interval : Text) :
    refusal E text status tools kinds named interval =
      plainError status (returned status ((attachmentHint kinds).getD (redact (text.take 500)))) := by
  rw [refusal, upstreamRefusal, h]
  rfl

theorem meaning_plain (status : Nat) (message kindLabel : Text) :
    meaning E U digit (plainError status message) kindLabel = meaningOf status ↔
      ¬ Telling E U digit status message :=
  ⟨fun he ht => meaning_telling kindLabel ht he, meaning_quiet kindLabel⟩

/-- With an attachment a failure means what its status means. -/
theorem meaning_attached (hE : ∀ hint ∈ hints, E.loads hint = .malformed) {kinds : List PartKind}
    (h : kinds ≠ []) (status : Nat) (body kindLabel : Text) :
    meaning E U digit (plainError status (returned status ((attachmentHint kinds).getD body))) kindLabel =
      meaningOf status := by
  cases hh : attachmentHint kinds with
  | none => exact absurd (attachmentHint_none.mp hh) h
  | some hint =>
      have hm := attachmentHint_mem hh
      exact meaning_quiet kindLabel (hint_quiet hm (hE hint hm))

/-- **A failure means the same of two requests that differ in their
attachments exactly when both or neither have any, or it refused their
tools, or its words tell nothing that its status does not.** -/
theorem same_meaning (hE : ∀ hint ∈ hints, E.loads hint = .malformed) (text : Text) (status : Nat)
    (tools : Bool) (kinds kinds' : List PartKind) (named interval kindLabel : Text) :
    meaning E U digit (refusal E text status tools kinds named interval) kindLabel =
        meaning E U digit (refusal E text status tools kinds' named interval) kindLabel ↔
      (kinds = [] ↔ kinds' = []) ∨ (tools = true ∧ toolsRefusal E (text.take 4000) ≠ none) ∨
        ¬ Telling E U digit status (returned status (redact (text.take 500))) := by
  cases ht : if tools then toolsRefusal E (text.take 4000) else none with
  | some words =>
      have hsame : refusal E text status tools kinds named interval =
          refusal E text status tools kinds' named interval := by
        rw [refusal, refusal, upstreamRefusal, upstreamRefusal, ht]
      rw [hsame]
      refine ⟨fun _ => Or.inr (Or.inl ?_), fun _ => rfl⟩
      cases tools with
      | false => cases ht
      | true => exact ⟨rfl, fun hn => by rw [if_pos rfl, hn] at ht; cases ht⟩
  | none =>
      have hno : ¬ (tools = true ∧ toolsRefusal E (text.take 4000) ≠ none) := by
        rintro ⟨rfl, hn⟩
        exact hn ht
      rw [refusal_plain ht, refusal_plain ht, or_iff_right_of_imp fun h => absurd h hno]
      by_cases hk : kinds = []
      · by_cases hk' : kinds' = []
        · rw [hk, hk']
          exact ⟨fun _ => Or.inl Iff.rfl, fun _ => rfl⟩
        · rw [meaning_attached hE hk', hk]
          refine (meaning_plain status _ kindLabel).trans ⟨Or.inr, fun h => h.resolve_left ?_⟩
          exact fun h => hk' (h.mp rfl)
      · rw [meaning_attached hE hk]
        by_cases hk' : kinds' = []
        · rw [hk', eq_comm]
          refine (meaning_plain status _ kindLabel).trans ⟨Or.inr, fun h => h.resolve_left ?_⟩
          exact fun h => hk (h.mpr rfl)
        · rw [meaning_attached hE hk']
          exact ⟨fun _ => Or.inl ⟨fun h => absurd h hk, fun h => absurd h hk'⟩, fun _ => rfl⟩

/-- What a status and a body mean of a request with attachments of these
kinds and no tools. -/
def meant (status : Nat) (body : String) (kinds : List PartKind) : Disposition × Nat :=
  meaning (Env.ofTable []) Ucd.basic Char.isDigit
    (refusal (Env.ofTable []) body.toList status false kinds [] []) []

theorem ofTable_hints : ∀ hint ∈ hints, (Env.ofTable []).loads hint = .malformed := by
  intro hint _
  unfold Env.ofTable
  exact ite_self _

theorem same_meaning_busy : meant 429 "slow down" [] = meant 429 "slow down" [.image] := by
  have hquiet : ¬ Telling (Env.ofTable []) Ucd.basic Char.isDigit 429
      (returned 429 (redact ("slow down".toList.take 500))) := by
    rintro (⟨h, -⟩ | ⟨h, -⟩ | ⟨h, -⟩ | ⟨h, -⟩)
    · cases h
    · omega
    · cases h
    · cases h
  exact (same_meaning ofTable_hints "slow down".toList 429 false [] [.image] [] [] []).mpr
    (Or.inr (Or.inr hquiet))

/-- A full pool is room to try elsewhere, and with an image a broken backend. -/
theorem full_pool_hidden :
    meant 500 "Context size has been exceeded." [] = (.safe, 503) ∧
      meant 500 "Context size has been exceeded." [.image] = (.indeterminate, 502) := by
  refine ⟨by decide +kernel, ?_⟩
  unfold meant
  rw [refusal_plain rfl]
  exact meaning_attached ofTable_hints (List.cons_ne_nil _ _) 500 _ []

end InferenceDriver.Failures

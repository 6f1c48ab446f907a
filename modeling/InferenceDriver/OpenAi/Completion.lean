/-
# `OpenAi.Completion` — a raw completion is what its lines said

`_complete_stream` as one function of the lines: the pieces of text its
frames hold, whether one of them closed the answer and why.
`verdict_completeStream` and `completeStream_answers` are the two halves of
it, as `OpenAi.Answer` has them for a chat answer.
-/
import InferenceDriver.OpenAi.Answer

namespace InferenceDriver.OpenAi

open Checks

variable (E : Env) (q : Setup) (kind : Completion)

/-! ## The frames -/

/-- The document of a line, if it has one. -/
def rawData (line : Text) : Option Text :=
  match kind with
  | .ollama => if strip line = [] then none else some line
  | _ =>
      if ¬ "data:".toList.isPrefixOf line then none
      else if strip (line.drop 5) = [] ∨ strip (line.drop 5) = "[DONE]".toList then none
      else some (strip (line.drop 5))

/-- The line that closes an answer of `/v1/completions`. -/
def isRawDone (line : Text) : Bool := kind = .openai && strip line = "data: [DONE]".toList

/-- The choice of a frame of `/v1/completions`. -/
def rawChoice (frame : Obj) : Option Obj :=
  match frame.get "choices" with
  | .arr (.obj choice :: _) => some choice
  | _ => none

def rawPiece (frame : Obj) : Json :=
  match kind with
  | .ollama => frame.get "response"
  | .infill => frame.get "content"
  | .openai => (rawChoice frame).elim .null fun choice => choice.get "text"

/-- Why the answer ended, when a frame says that it has. -/
def rawReason (frame : Obj) : Option Json :=
  match kind with
  | .ollama => if (frame.get "done").truthy then some (frame.get "done_reason") else none
  | .infill => if (frame.get "stop").truthy then some (frame.get "stop_type") else none
  | .openai =>
      (rawChoice frame).bind fun choice =>
        if (choice.get "finish_reason").truthy then some (choice.get "finish_reason") else none

/-- `choices` can be indexed. -/
def rawFrameOk (frame : Obj) : Bool :=
  match kind with
  | .openai =>
      match frame.get "choices" with
      | .arr _ => true
      | .str _ => true
      | v => !v.truthy
  | _ => true

/-! ## The lines -/

/-- What the lines of a completion have said. -/
structure RawSaid where
  pieces : List Json := []
  ended : Bool := false
  /-- The reason on the last frame that has one. -/
  reason : Option Json := none

def RawSaid.frame (a : RawSaid) (frame : Obj) : RawSaid where
  pieces := a.pieces ++ if (rawPiece kind frame).truthy then [rawPiece kind frame] else []
  ended := a.ended || (rawReason kind frame).isSome
  reason := (rawReason kind frame).or a.reason

def RawSaid.line (a : RawSaid) (text : Text) : RawSaid :=
  if isRawDone kind text then { a with ended := true }
  else
    match (rawData kind text).map E.loads with
    | some (.value (.obj frame)) => a.frame kind frame
    | _ => a

/-- A line that can be read. -/
def rawLineOk (text : Text) : Bool :=
  isRawDone kind text ||
    match (rawData kind text).map E.loads with
    | some .escapes => false
    | some (.value (.obj frame)) => rawFrameOk kind frame
    | _ => true

/-- The lines there are, and whether the connection was lost after them. -/
def rawLines : List Arrival → List Text × Bool
  | [] => ([], false)
  | .line _ _ text :: rest => (text :: (rawLines rest).1, (rawLines rest).2)
  | _ :: _ => ([], true)

def rawSaid (arrivals : List Arrival) : RawSaid :=
  (rawLines arrivals).1.foldl (RawSaid.line E kind) {}

/-- The text of the pieces. -/
def RawSaid.text (a : RawSaid) : Text := (a.pieces.filterMap asText).flatten

def RawSaid.finished (a : RawSaid) : FinishReason := a.reason.elim .stop rawFinish

/-- What the end of the lines comes to. -/
def RawSaid.verdict (a : RawSaid) : Verdict :=
  if a.ended then .must (a.pieces.all isText && E.holds a.text && E.holds q.target.id)
  else if a.pieces.all fun v => (lengthOf v).isSome then .fails else .escapes

variable {E q kind}

/-- The local variables hold what was said. -/
structure RawFollows (s : RawLocals) (a : RawSaid) : Prop where
  parts : s.parts = a.pieces
  ended : s.ended = a.ended
  reason : s.reason = a.finished

@[simp] theorem runVerdict_rawAttempt {α : Type} (s : RawLocals) (x : Except Failure α) :
    runVerdict (s.attempt x) = stepVerdict x := by
  cases x <;> rfl

@[simp] theorem runVerdict_rawFail {α : Type} (s : RawLocals) (f : Failure) :
    runVerdict (s.fail f : Except Raised α) = f.verdict := rfl

theorem rawFrame_eq (line : Text) :
    rawFrame E kind line = (rawData kind line).elim (.ok none) (loadsDict E) := by
  have sse : sseJson E line =
      (rawData .openai line).elim (.ok none) (loadsDict E) := by
    unfold sseJson rawData
    simp only
    split
    · rfl
    · split <;> rfl
  cases kind with
  | openai => exact sse
  | infill => exact sse
  | ollama =>
      unfold rawFrame rawData
      simp only
      split <;> rfl

theorem firstDict_spec (frame : Obj) :
    firstDict (frame.get "choices") =
      if rawFrameOk .openai frame then .ok (rawChoice frame) else .error .uncaught := by
  unfold firstDict rawFrameOk rawChoice
  simp only
  generalize frame.get "choices" = v
  cases v with
  | arr items =>
      cases items with
      | nil => rfl
      | cons item rest => cases item <;> rfl
  | str s => cases s <;> rfl
  | null => rfl
  | bool b => cases b <;> rfl
  | int n => by_cases hn : n = 0 <;> simp [Json.truthy, hn]
  | float x => cases h : (Json.float x).truthy <;> simp [h]
  | obj fields => cases fields <;> rfl

theorem isRawDone_iff (line : Text) :
    isRawDone kind line = true ↔ kind = .openai ∧ strip line = "data: [DONE]".toList := by
  rw [isRawDone, Bool.and_eq_true, decide_eq_true_eq, decide_eq_true_eq]

/-- The usage a frame of `/v1/completions` counts. -/
def countedIn (s : RawLocals) (frame : Obj) : RawLocals :=
  match frame.get "usage" with
  | .obj counted =>
      { s with used := rawUsage (Obj.get counted "prompt_tokens")
                         (Obj.get counted "completion_tokens") }
  | _ => s

theorem countedIn_same (s : RawLocals) (frame : Obj) : (countedIn s frame).parts = s.parts ∧
    (countedIn s frame).ended = s.ended ∧ (countedIn s frame).reason = s.reason := by
  unfold countedIn
  split
  · exact ⟨rfl, rfl, rfl⟩
  · exact ⟨rfl, rfl, rfl⟩

/-- What a frame of `/v1/completions` comes to, by its choice. -/
def choiceStep (s : RawLocals) (choice : Option Obj) : Json × RawLocals :=
  match choice with
  | none => (.null, s)
  | some choice =>
      (choice.get "text",
        if (choice.get "finish_reason").truthy then
          { s with ended := true, reason := rawFinish (choice.get "finish_reason") }
        else s)

theorem onRawFrame_openai (s : RawLocals) (frame : Obj) :
    onRawFrame .openai s frame = choiceStep (countedIn s frame) <$> firstDict (frame.get "choices") := by
  have h : onRawFrame .openai s frame = firstDict (frame.get "choices") >>= fun choice =>
      match choice with
      | none => pure (.null, countedIn s frame)
      | some choice =>
          pure (choice.get "text",
            if (choice.get "finish_reason").truthy then
              { countedIn s frame with ended := true, reason := rawFinish (choice.get "finish_reason") }
            else countedIn s frame) := rfl
  rw [h]
  cases firstDict (frame.get "choices") with
  | error f => rfl
  | ok choice => cases choice <;> rfl

/-- What a frame adds. -/
theorem onRawFrame_spec {s : RawLocals} {a : RawSaid} (h : RawFollows s a) (kind : Completion)
    (frame : Obj) :
    stepVerdict (onRawFrame kind s frame) = .must (rawFrameOk kind frame) ∧
      ∀ piece s', onRawFrame kind s frame = .ok (piece, s') → piece = rawPiece kind frame ∧
        s'.parts = a.pieces ∧ s'.ended = (a.ended || (rawReason kind frame).isSome) ∧
          s'.reason = ((rawReason kind frame).or a.reason).elim .stop rawFinish := by
  have hr : s.reason = a.reason.elim .stop rawFinish := h.reason
  cases kind with
  | ollama =>
      refine ⟨rfl, fun piece s' hs => ?_⟩
      cases hs
      unfold rawReason
      simp only
      refine ⟨rfl, ?_⟩
      split
      · exact ⟨h.parts, (Bool.or_true _).symm, rfl⟩
      · exact ⟨h.parts, h.ended.trans (Bool.or_false _).symm, hr⟩
  | infill =>
      refine ⟨rfl, fun piece s' hs => ?_⟩
      cases hs
      unfold rawReason
      simp only
      refine ⟨rfl, ?_⟩
      split
      · exact ⟨h.parts, (Bool.or_true _).symm, rfl⟩
      · exact ⟨h.parts, h.ended.trans (Bool.or_false _).symm, hr⟩
  | openai =>
      obtain ⟨hparts, hended, hreason⟩ := countedIn_same s frame
      rw [onRawFrame_openai, firstDict_spec]
      unfold rawPiece rawReason
      simp only
      cases rawFrameOk .openai frame with
      | false => exact ⟨rfl, fun piece s' hs => (by cases hs)⟩
      | true =>
          rw [if_pos rfl]
          refine ⟨rfl, fun piece s' hs => ?_⟩
          have hs : choiceStep (countedIn s frame) (rawChoice frame) = (piece, s') := Except.ok.inj hs
          cases hc : rawChoice frame with
          | none =>
              rw [hc] at hs
              cases hs
              exact ⟨rfl, hparts.trans h.parts, (hended.trans h.ended).trans (Bool.or_false _).symm,
                hreason.trans hr⟩
          | some choice =>
              rw [hc] at hs
              cases hs
              refine ⟨rfl, ?_⟩
              simp only [Option.bind_some]
              split
              · exact ⟨hparts.trans h.parts, (Bool.or_true _).symm, rfl⟩
              · exact ⟨hparts.trans h.parts, (hended.trans h.ended).trans (Bool.or_false _).symm,
                  hreason.trans hr⟩

theorem onRawLine_spec {s : RawLocals} {a : RawSaid} (h : RawFollows s a) (kind : Completion)
    (text : Text) :
    runVerdict (onRawLine E kind text s) = .must (rawLineOk E kind text) ∧
      ∀ s', onRawLine E kind text s = .ok s' → RawFollows s' (a.line E kind text) := by
  unfold onRawLine RawSaid.line rawLineOk
  cases hd : isRawDone kind text with
  | true =>
      rw [if_pos ((isRawDone_iff text).mp hd)]
      exact ⟨rfl, fun s' hs => by cases hs; exact ⟨h.parts, rfl, h.reason⟩⟩
  | false =>
      rw [if_neg fun hs => Bool.false_ne_true (hd.symm.trans ((isRawDone_iff text).mpr hs)), rawFrame_eq, if_neg Bool.false_ne_true, Bool.false_or]
      cases rawData kind text with
      | none => exact ⟨rfl, fun s' hs => by cases hs; exact h⟩
      | some data =>
          simp only [Option.elim_some, Option.map_some]
          unfold loadsDict
          cases E.loads data with
          | malformed => exact ⟨rfl, fun s' hs => by cases hs; exact h⟩
          | escapes => exact ⟨rfl, fun s' hs => (by cases hs)⟩
          | value v =>
              cases v with
              | obj frame =>
                  obtain ⟨hv, hok⟩ := onRawFrame_spec h kind frame
                  simp only
                  constructor
                  · refine (runVerdict_bind (x := s.attempt (.ok (some frame))) fun o ho => ?_).trans
                      (Verdict.fine_before _)
                    cases Except.ok.inj ho
                    refine (runVerdict_bind (v := .fine) fun p _ => ?_).trans ?_
                    · split <;> rfl
                    · rw [Verdict.before_fine, runVerdict_rawAttempt, hv]
                  · intro s' hs
                    simp only [bind_eq_ok, RawLocals.attempt_eq_ok, Except.ok.injEq] at hs
                    obtain ⟨o, ho, hs⟩ := hs
                    cases ho
                    simp only [bind_eq_ok, pure_eq_ok, RawLocals.attempt_eq_ok] at hs
                    obtain ⟨⟨piece, s₁⟩, hp, rfl⟩ := hs
                    obtain ⟨rfl, hparts, hended, hreason⟩ := hok piece s₁ hp
                    simp only
                    unfold RawSaid.frame
                    split
                    · exact ⟨congrArg (· ++ [rawPiece kind frame]) hparts, hended, hreason⟩
                    · exact ⟨hparts.trans (List.append_nil _).symm, hended, hreason⟩
              | null => exact ⟨rfl, fun s' hs => by cases hs; exact h⟩
              | bool b => exact ⟨rfl, fun s' hs => by cases hs; exact h⟩
              | int n => exact ⟨rfl, fun s' hs => by cases hs; exact h⟩
              | float x => exact ⟨rfl, fun s' hs => by cases hs; exact h⟩
              | str t => exact ⟨rfl, fun s' hs => by cases hs; exact h⟩
              | arr items => exact ⟨rfl, fun s' hs => by cases hs; exact h⟩

/-! ## The run -/

theorem follows_readRawLines (arrivals : List Arrival) {s s' : RawLocals} {a : RawSaid}
    (h : RawFollows s a) (hs : readRawLines E kind s arrivals = .ok s') :
    (rawLines arrivals).2 = false ∧
      RawFollows s' ((rawLines arrivals).1.foldl (RawSaid.line E kind) a) := by
  induction arrivals generalizing s a with
  | nil =>
      cases hs
      exact ⟨rfl, h⟩
  | cons arrival rest ih =>
      cases arrival with
      | timeout => cases hs
      | broken said => cases hs
      | line waited now text =>
          rw [readRawLines, bind_eq_ok] at hs
          obtain ⟨s₁, hs₁, hs⟩ := hs
          exact ih ((onRawLine_spec h kind text).2 s₁ hs₁) hs

/-- **A completion that ends answers what was said**: its pieces are the
frames, some line closed it, and the result joins them. -/
theorem completeStream_answers {arrivals : List Arrival} {chunks : List Chunk}
    (h : completeStream E q kind arrivals = .ok chunks) :
    (rawSaid E kind arrivals).ended = true ∧ ∃ (texts : List Text) (r : GenerateResponse),
      (rawSaid E kind arrivals).pieces = texts.map .str ∧
        chunks = (texts.map fun t => .text t none) ++ [.done r] ∧
        r.content = some texts.flatten ∧ r.finishReason = (rawSaid E kind arrivals).finished := by
  unfold completeStream at h
  simp only [bind_eq_ok, pure_eq_ok, RawLocals.attempt_eq_ok] at h
  obtain ⟨s, hs, r, hr, rfl⟩ := h
  obtain ⟨-, hf⟩ := follows_readRawLines (a := {}) arrivals ⟨rfl, rfl, rfl⟩ hs
  unfold finishRaw at hr
  split at hr
  · split at hr <;> cases hr
  · rename_i hend
    simp only [bind_eq_ok, checked_eq_ok] at hr
    obtain ⟨content, hc, hr, -⟩ := hr
    obtain ⟨texts, hp, rfl⟩ := joined_eq_ok.mp hc
    refine ⟨hf.ended.symm.trans (not_not.mp hend), texts, r, hf.parts.symm.trans hp, ?_, ?_, ?_⟩
    · rw [hp, List.map_map]
      rfl
    · rw [← hr]
    · rw [← hr]
      exact hf.reason

end InferenceDriver.OpenAi

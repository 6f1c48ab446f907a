/-
# `Strata.Stops` — stop strings that the driver looks for itself

Strata has no stop strings, so `StrataHttpEngine.stream` looks for them in
the text that comes, holds back an end that may become one, and closes the
upstream when one is there.  What it reads is the frames of the engine it
is built on (`OpenAi.stream`), and what it sends is told from them alone.

`stops_kept` is what a caller gets of an answer of text: nothing of a stop
string, and nothing missing in front of one.  Which stop string it is may
depend on where the text was cut (`cuts_settle`).
-/
import InferenceDriver.Lib.Search
import InferenceDriver.OpenAi.Fold

namespace InferenceDriver.Strata

open OpenAi

/-! ## The loop over the frames -/

/-- `c.model_dump(mode="json", exclude_none=True)` of a fragment. -/
def dump (d : ToolCallDelta) : Json :=
  let text (key : String) (v : Option Text) : Obj := v.toList.map fun t => (key.toList, .str t)
  .obj ([("index".toList, .int d.index)] ++ text "id" d.id ++ [("type".toList, .str "function".toList)] ++
    d.function.toList.map fun f =>
      ("function".toList, .obj (text "name" f.name ++ text "arguments" f.arguments)))

/-- The local variables of `stream`, and the frames sent so far. -/
structure Locals where
  pending : Text := []
  emitted : List Text := []
  reasoned : List Text := []
  calls : Dict Int Part := .empty
  sent : List Chunk := []

def Locals.send (s : Locals) (c : Chunk) : Locals := { s with sent := s.sent ++ [c] }

/-- `if visible: yield …`, once it is noted. -/
def Locals.show (s : Locals) (visible : Text) (logprobs : Option (List Json)) : Locals :=
  let s := { s with emitted := s.emitted ++ [visible] }
  if visible = [] then s else s.send (.text visible logprobs)

/-- Whether the loop goes on, or the upstream was closed. -/
inductive Next where
  | again (s : Locals)
  | closed (s : Locals)

variable (E : Env) (hex : Nat → Text) (modelId : Text) (stops : List Text)

/-- The result of an answer that a stop string ended.  Its texts are Unicode
text, which the contract's model takes. -/
def stopped (s : Locals) (matched : Text) : GenerateResponse where
  content := some s.emitted.flatten
  audio := none
  logprobs := none
  annotations := []
  reasoning := if s.reasoned.flatten = [] then none else some s.reasoned.flatten
  toolCalls := finishToolCalls hex s.calls
  finishReason := .stop
  stopSequence := some matched
  usage := none
  modelId := some modelId

/-- Where nothing is found, the end that may become a stop string is held back. -/
def hold (s : Locals) (pending : Text) (logprobs : Option (List Json)) : Locals :=
  let keep := Search.held stops pending
  { s with pending := pending.drop (pending.length - keep) }.show (pending.take (pending.length - keep)) logprobs

/-- A frame of text. -/
def onText (s : Locals) (text : Text) (logprobs : Option (List Json)) : Next :=
  let pending := s.pending ++ text
  match Search.first stops pending with
  | some (i, matched) =>
      let s := s.show (pending.take i) logprobs
      .closed (s.send (.done (stopped hex modelId s matched)))
  | none => .again (hold stops s pending logprobs)

/-- What a frame of reasoning or of tool calls is remembered for. -/
def noted (s : Locals) : Chunk → Locals
  | .reasoning text => { s with reasoned := s.reasoned ++ [text] }
  | .toolCalls fragments =>
      { s with calls := accumulateToolCalls E s.calls (.arr (fragments.map dump)) }
  | _ => s

/-- What was held back goes out. -/
def flush (s : Locals) : Locals :=
  { s with pending := [], emitted := s.emitted ++ [s.pending] }.send (.text s.pending none)

/-- A frame without text. -/
def onOther (s : Locals) (chunk : Chunk) : Locals :=
  let s := if s.pending ≠ [] ∧ (chunk.isDone ∨ chunk.fragments ≠ [] ∨ chunk.thought ≠ []) then flush s else s
  match chunk with
  | .done r =>
      s.send (.done { r with content := if s.emitted = [] then r.content else some s.emitted.flatten })
  | chunk => s.send chunk

/-- One turn of the loop.  Text that is no string cannot be added to what is pending. -/
def onChunk (s : Locals) (chunk : Chunk) : Except Failure Next :=
  if stops = [] then .ok (.again (s.send chunk))
  else
    match chunk with
    | .misfit _ => .error .uncaught
    | .text (c :: cs) logprobs => .ok (onText hex modelId stops s (c :: cs) logprobs)
    | chunk => .ok (.again (onOther (noted E s chunk) chunk))

/-- What was sent, whether the upstream was closed before its end, and the
exception that ended the run, if one did. -/
structure Outcome where
  sent : List Chunk
  closed : Bool
  failure : Option Failure

/-- The loop over the frames of the upstream, which ends or raises. -/
def readChunks (ending : Option Failure) (s : Locals) : List Chunk → Outcome
  | [] => { sent := s.sent, closed := false, failure := ending }
  | chunk :: chunks =>
      match onChunk E hex modelId stops s chunk with
      | .error failure => { sent := s.sent, closed := true, failure := some failure }
      | .ok (.closed s) => { sent := s.sent, closed := true, failure := none }
      | .ok (.again s) => readChunks ending s chunks

/-- `[stop for stop in (request.stop or []) if stop]`. -/
def stopsOf (stop : List Text) : List Text := stop.filter (· ≠ [])

/-- `StrataHttpEngine.stream`, over what `super().stream` gives. -/
def stream (stop : List Text) : Except Raised (List Chunk) → Outcome
  | .ok chunks => readChunks E hex modelId (stopsOf stop) none {} chunks
  | .error raised => readChunks E hex modelId (stopsOf stop) (some raised.failure) {} raised.sent


/-! ## What an answer of text comes to -/

/-- A frame of an answer of text: one that ends nothing, and carries no part
of a call or of the reasoning. -/
def Plain : Chunk → Prop
  | .text _ _ => True
  | .logprobs _ => True
  | .annotations _ => True
  | .audio _ => True
  | .progress _ => True
  | _ => False

/-- What the upstream sends for an answer of text: its frames, and a
terminal one that carries the same text. -/
structure TextRun where
  chunks : List Chunk
  result : GenerateResponse
  plain : ∀ c ∈ chunks, Plain c
  told : result.content.getD [] = chunks.flatMap Chunk.shown

def TextRun.frames (run : TextRun) : List Chunk := run.chunks ++ [.done run.result]

/-- The full text. -/
def TextRun.text (run : TextRun) : Text := run.chunks.flatMap Chunk.shown

/-- What was shown. -/
def Outcome.shown (out : Outcome) : Text := out.sent.flatMap Chunk.shown

/-- A run that ends with one terminal frame, which carries what was shown. -/
structure Ends (out : Outcome) (r : GenerateResponse) : Prop where
  frames : ∃ frames, out.sent = frames ++ [.done r] ∧ ∀ c ∈ frames, c.isDone = false
  told : r.content.getD [] = out.shown
  fine : out.failure = none

/-- How a run ends: in front of the stop string that was found, or at the
end of the text, with what the upstream says stopped it. -/
def EndsAt (out : Outcome) (text : Text) (given : Option Text) : Option (Text × Text) → Prop
  | some (before, w) => ∃ r, Ends out r ∧ out.closed = true ∧ out.shown = before ∧ r.stopSequence = some w
  | none => ∃ r, Ends out r ∧ out.closed = false ∧ out.shown = text ∧ r.stopSequence = given

/-- What the loop keeps: what was shown is what was emitted, and what is
pending is enough of the text to find a stop string in. -/
structure Holding (s : Locals) : Prop where
  waiting : Search.Waiting stops (s.emitted.flatten ++ s.pending) s.pending
  told : s.sent.flatMap Chunk.shown = s.emitted.flatten
  ongoing : ∀ c ∈ s.sent, c.isDone = false

section

variable {s : Locals}

theorem emitted_show (visible : Text) (logprobs : Option (List Json)) :
    (s.show visible logprobs).emitted = s.emitted ++ [visible] := by
  rw [Locals.show]
  split
  · rfl
  · rfl

theorem pending_show (visible : Text) (logprobs : Option (List Json)) :
    (s.show visible logprobs).pending = s.pending := by
  rw [Locals.show]
  split
  · rfl
  · rfl

theorem told_show (h : s.sent.flatMap Chunk.shown = s.emitted.flatten) (visible : Text)
    (logprobs : Option (List Json)) :
    (s.show visible logprobs).sent.flatMap Chunk.shown = (s.show visible logprobs).emitted.flatten := by
  rw [emitted_show, List.flatten_append, List.flatten_singleton, Locals.show]
  split
  · rename_i hnil
    rw [hnil, List.append_nil]
    exact h
  · exact (List.flatMap_append).trans (congrArg₂ _ h (List.append_nil _))

theorem ongoing_show (h : ∀ c ∈ s.sent, c.isDone = false) (visible : Text) (logprobs : Option (List Json)) :
    ∀ c ∈ (s.show visible logprobs).sent, c.isDone = false := by
  rw [Locals.show]
  split
  · exact h
  · intro c hc
    rcases List.mem_append.mp hc with hc | hc
    · exact h c hc
    · cases List.mem_singleton.mp hc
      rfl

end

/-- With a stop string in it, a piece ends the run in front of the string. -/
theorem onText_found {s : Locals} (h : Holding stops s) (hne : [] ∉ stops) {text : Text}
    (logprobs : Option (List Json)) {i : ℕ} {w : Text}
    (hf : Search.first stops (s.emitted.flatten ++ s.pending ++ text) = some (i, w)) :
    ∃ s' r, onText hex modelId stops s text logprobs = .closed s' ∧
      Ends { sent := s'.sent, closed := true, failure := none } r ∧ r.stopSequence = some w ∧
      s'.sent.flatMap Chunk.shown = (s.emitted.flatten ++ s.pending ++ text).take i := by
  rw [h.waiting.first hne, Option.map_eq_some_iff] at hf
  obtain ⟨⟨k, v⟩, hk, hp⟩ := hf
  obtain ⟨rfl, rfl⟩ := Prod.mk.inj hp
  have hshown : (s.show ((s.pending ++ text).take k) logprobs).sent.flatMap Chunk.shown =
      (s.emitted.flatten ++ s.pending ++ text).take (s.emitted.flatten.length + k) := by
    rw [told_show h.told, emitted_show, List.flatten_append, List.flatten_singleton, List.append_assoc,
      List.take_length_add_append]
  have hsent : ∀ r, ((s.show ((s.pending ++ text).take k) logprobs).send (.done r)).sent.flatMap Chunk.shown =
      (s.emitted.flatten ++ s.pending ++ text).take (s.emitted.flatten.length + k) := fun r => by
    rw [← hshown, Locals.send, List.flatMap_append]
    exact List.append_nil _
  refine ⟨_, stopped hex modelId (s.show ((s.pending ++ text).take k) logprobs) v, ?_,
    ⟨⟨_, rfl, ongoing_show h.ongoing _ _⟩, ?_, rfl⟩, rfl, hsent _⟩
  · rw [onText, hk]
  · rw [Outcome.shown, hsent, ← hshown, told_show h.told]
    rfl

/-- Without one, the loop goes on and holds back what may become one. -/
theorem onText_none {s : Locals} (h : Holding stops s) (hne : [] ∉ stops) {text : Text}
    (logprobs : Option (List Json)) (hf : Search.first stops (s.emitted.flatten ++ s.pending ++ text) = none) :
    ∃ s', onText hex modelId stops s text logprobs = .again s' ∧ Holding stops s' ∧
      s'.emitted.flatten ++ s'.pending = s.emitted.flatten ++ s.pending ++ text := by
  rw [h.waiting.first hne, Option.map_eq_none_iff] at hf
  have hnext := h.waiting.next hne hf
  have hall : (hold stops s (s.pending ++ text) logprobs).emitted.flatten ++
      (hold stops s (s.pending ++ text) logprobs).pending = s.emitted.flatten ++ s.pending ++ text := by
    rw [hold, emitted_show, pending_show, List.flatten_append, List.flatten_singleton, List.append_assoc,
      List.take_append_drop, ← List.append_assoc]
  refine ⟨hold stops s (s.pending ++ text) logprobs, ?_, ⟨?_, ?_, ?_⟩, hall⟩
  · rw [onText, hf]
  · rw [hall, hold, pending_show]
    exact hnext
  · exact told_show (s := { s with pending := (s.pending ++ text).drop ((s.pending ++ text).length -
      Search.held stops (s.pending ++ text)) }) h.told _ _
  · exact ongoing_show (s := { s with pending := (s.pending ++ text).drop ((s.pending ++ text).length -
      Search.held stops (s.pending ++ text)) }) h.ongoing _ _

theorem holding_send {s : Locals} (h : Holding stops s) {chunk : Chunk} (hdone : chunk.isDone = false)
    (hshown : chunk.shown = []) : Holding stops (s.send chunk) where
  waiting := h.waiting
  told := by
    rw [Locals.send, List.flatMap_append, h.told, List.flatMap_singleton, hshown, List.append_nil]
  ongoing c hc := by
    rcases List.mem_append.mp hc with hc | hc
    · exact h.ongoing c hc
    · exact List.mem_singleton.mp hc ▸ hdone

/-- A frame without text goes on, and what is pending stays pending. -/
theorem onChunk_send (s : Locals) (hne : stops ≠ []) {chunk : Chunk} (hplain : Plain chunk)
    (hshown : chunk.shown = []) :
    onChunk E hex modelId stops s chunk = .ok (.again (s.send chunk)) ∧ chunk.isDone = false := by
  have hno : ¬ (s.pending ≠ [] ∧ (false = true ∨ ([] : List ToolCallDelta) ≠ [] ∨ ([] : Text) ≠ [])) :=
    fun ⟨_, h⟩ => h.elim Bool.false_ne_true fun h => h.elim (· rfl) (· rfl)
  rw [onChunk.eq_def, if_neg hne]
  cases chunk with
  | text t lp =>
      cases hshown
      exact ⟨congrArg (fun s : Locals => Except.ok (Next.again (s.send _))) (if_neg hno), rfl⟩
  | logprobs l => exact ⟨congrArg (fun s : Locals => Except.ok (Next.again (s.send _))) (if_neg hno), rfl⟩
  | annotations l => exact ⟨congrArg (fun s : Locals => Except.ok (Next.again (s.send _))) (if_neg hno), rfl⟩
  | audio f => exact ⟨congrArg (fun s : Locals => Except.ok (Next.again (s.send _))) (if_neg hno), rfl⟩
  | progress p => exact ⟨congrArg (fun s : Locals => Except.ok (Next.again (s.send _))) (if_neg hno), rfl⟩
  | misfit v => exact absurd hplain not_false
  | reasoning t => exact absurd hplain not_false
  | toolCalls l => exact absurd hplain not_false
  | done r => exact absurd hplain not_false

/-- A terminal frame ends the run: what was pending is shown, and the result
carries all that was. -/
theorem readChunks_done {s : Locals} (h : Holding stops s) (hne : stops ≠ []) {r : GenerateResponse}
    (hr : s.emitted = [] → s.pending = [] → r.content.getD [] = []) :
    EndsAt (readChunks E hex modelId stops none s [.done r]) (s.emitted.flatten ++ s.pending) r.stopSequence
      none := by
  have hchunk : onChunk E hex modelId stops s (.done r) = .ok (.again (onOther s (.done r))) := if_neg hne
  have hrun : ∃ s' : Locals, readChunks E hex modelId stops none s [.done r] =
        { sent := s'.sent ++ [.done { r with content :=
            if s'.emitted = [] then r.content else some s'.emitted.flatten }], closed := false, failure := none } ∧
      s'.sent.flatMap Chunk.shown = s'.emitted.flatten ∧ (∀ c ∈ s'.sent, c.isDone = false) ∧
      s'.emitted.flatten = s.emitted.flatten ++ s.pending ∧
      (s'.emitted = [] → s.emitted = [] ∧ s.pending = []) := by
    by_cases hp : s.pending = []
    · refine ⟨s, ?_, h.told, h.ongoing, ?_, fun he => ⟨he, hp⟩⟩
      · rw [readChunks, hchunk, onOther, if_neg fun hc => hc.1 hp]
        rfl
      · rw [hp, List.append_nil]
    · refine ⟨flush s, ?_, ?_, fun c hc => ?_, ?_, fun he => ?_⟩
      · rw [readChunks, hchunk, onOther, if_pos ⟨hp, Or.inl rfl⟩]
        rfl
      · rw [flush, Locals.send, List.flatMap_append, h.told, List.flatMap_singleton, List.flatten_append,
          List.flatten_singleton]
        rfl
      · rcases List.mem_append.mp hc with hc | hc
        · exact h.ongoing c hc
        · cases List.mem_singleton.mp hc
          rfl
      · exact List.flatten_append.trans (congrArg _ List.flatten_singleton)
      · exact absurd he (List.concat_ne_nil _ _)
  obtain ⟨s', hs', htold, hongoing, hall, hnil⟩ := hrun
  have hshown : (readChunks E hex modelId stops none s [.done r]).shown = s'.emitted.flatten := by
    rw [Outcome.shown, hs', List.flatMap_append, htold]
    exact List.append_nil _
  refine ⟨_, ⟨⟨s'.sent, congrArg Outcome.sent hs', hongoing⟩, ?_, congrArg Outcome.failure hs'⟩,
    congrArg Outcome.closed hs', hshown.trans hall, rfl⟩
  rw [hshown]
  split
  · rename_i he
    rw [he]
    exact hr (hnil he).1 (hnil he).2
  · rfl

/-- **A run** over frames of text, from any turn on: it ends in front of the
first stop string that is found, or shows all. -/
theorem readChunks_spec (hne : [] ∉ stops) (hstops : stops ≠ []) {r : GenerateResponse} :
    ∀ {chunks : List Chunk} {s : Locals}, Holding stops s → (∀ c ∈ chunks, Plain c) →
      (s.emitted.flatten ++ s.pending ++ chunks.flatMap Chunk.shown = [] → r.content.getD [] = []) →
      EndsAt (readChunks E hex modelId stops none s (chunks ++ [.done r]))
        (s.emitted.flatten ++ s.pending ++ chunks.flatMap Chunk.shown) r.stopSequence
        (Search.found stops (s.emitted.flatten ++ s.pending) (chunks.map Chunk.shown))
  | [], s, h, _, hr => by
      rw [List.flatMap_nil, List.append_nil]
      exact readChunks_done E hex modelId stops h hstops fun he hp => hr (by rw [he, hp]; rfl)
  | chunk :: chunks, s, h, hplain, hr => by
      have hrest : ∀ c ∈ chunks, Plain c := fun c hc => hplain c (List.mem_cons_of_mem _ hc)
      rw [List.flatMap_cons, ← List.append_assoc] at hr ⊢
      rw [List.map_cons, Search.found, List.cons_append, readChunks]
      by_cases hshown : chunk.shown = []
      · obtain ⟨hchunk, hdone⟩ := onChunk_send E hex modelId stops s hstops (hplain chunk List.mem_cons_self) hshown
        have hunseen := (Search.first_eq_none_iff hne).mpr h.waiting.unseen
        rw [hshown, List.append_nil] at hr ⊢
        rw [hchunk, hunseen]
        exact readChunks_spec hne hstops (holding_send stops h hdone hshown) hrest hr
      · obtain ⟨text, lp, rfl⟩ : ∃ text lp, chunk = .text text lp := by
          cases chunk with
          | text t lp => exact ⟨t, lp, rfl⟩
          | logprobs l => exact absurd rfl hshown
          | annotations l => exact absurd rfl hshown
          | audio f => exact absurd rfl hshown
          | progress p => exact absurd rfl hshown
          | misfit v => exact absurd rfl hshown
          | reasoning t => exact absurd rfl hshown
          | toolCalls l => exact absurd rfl hshown
          | done r => exact absurd rfl hshown
        have hchunk : onChunk E hex modelId stops s (.text text lp) =
            .ok (onText hex modelId stops s text lp) := by
          cases text with
          | nil => exact absurd rfl hshown
          | cons c cs => exact if_neg hstops
        rw [Chunk.shown] at hr ⊢
        rw [hchunk]
        cases hf : Search.first stops (s.emitted.flatten ++ s.pending ++ text) with
        | some p =>
            obtain ⟨s', r', htext, hends, hstop, hshown⟩ := onText_found hex modelId stops h hne lp hf
            rw [htext]
            exact ⟨r', hends, rfl, hshown, hstop⟩
        | none =>
            obtain ⟨s', htext, hholding, hall⟩ := onText_none hex modelId stops h hne lp hf
            rw [htext]
            rw [← hall] at hr ⊢
            exact readChunks_spec hne hstops hholding hrest hr

/-! ## What a caller gets -/

/-- Without stop strings, the frames are sent as they come. -/
theorem readChunks_unstopped (chunks : List Chunk) (s : Locals) :
    readChunks E hex modelId [] none s chunks = { sent := s.sent ++ chunks, closed := false, failure := none } := by
  induction chunks generalizing s with
  | nil => exact congrArg (fun l => Outcome.mk l false none) (List.append_nil _).symm
  | cons chunk chunks ih =>
      refine (ih (s.send chunk)).trans ?_
      rw [Locals.send, List.append_assoc]
      rfl

theorem isDone_of_plain {c : Chunk} (h : Plain c) : c.isDone = false := by
  cases c with
  | done r => exact absurd h not_false
  | _ => rfl

theorem holding_start {stops : List Text} (hne : [] ∉ stops) : Holding stops {} where
  waiting := Search.waiting_nil hne
  told := rfl
  ongoing _ h := absurd h List.not_mem_nil

theorem nil_not_mem_stopsOf (stop : List Text) : [] ∉ stopsOf stop := fun h =>
  of_decide_eq_true (List.mem_filter.mp h).2 rfl

theorem mem_stopsOf {stop : List Text} {w : Text} : w ∈ stopsOf stop ↔ w ∈ stop ∧ w ≠ [] := by
  rw [stopsOf, List.mem_filter, decide_eq_true_iff]

/-- **A run over an answer of text** ends in front of the stop string that is
found in its pieces, or shows all of it. -/
theorem stream_endsAt (stop : List Text) (run : TextRun) :
    EndsAt (stream E hex modelId stop (.ok run.frames)) run.text run.result.stopSequence
      (Search.found (stopsOf stop) [] (run.chunks.map Chunk.shown)) := by
  have hne := nil_not_mem_stopsOf stop
  by_cases hstops : stopsOf stop = []
  · have hshown : ({ sent := run.frames, closed := false, failure := none } : Outcome).shown = run.text := by
      rw [Outcome.shown, TextRun.frames, List.flatMap_append]
      exact List.append_nil _
    rw [hstops, (Search.found_eq_none_iff List.not_mem_nil fun w h => absurd h List.not_mem_nil).mpr
      fun w h => absurd h List.not_mem_nil]
    rw [stream, hstops, readChunks_unstopped]
    exact ⟨run.result, ⟨⟨run.chunks, rfl, fun c hc => isDone_of_plain (run.plain c hc)⟩,
      run.told.trans hshown.symm, rfl⟩, rfl, hshown, rfl⟩
  · refine readChunks_spec E hex modelId _ hne hstops (holding_start hne) run.plain fun hnil => ?_
    exact run.told.trans hnil

/-- **Stop strings are kept**: what is shown of an answer of text is a
beginning of it without a stop string; all of it if there is none in it; and
if there is one, the upstream is closed, and the terminal frame, the only
one, names a stop string.  It carries what was shown. -/
theorem stops_kept (stop : List Text) (run : TextRun) :
    ∃ r, Ends (stream E hex modelId stop (.ok run.frames)) r ∧
      (stream E hex modelId stop (.ok run.frames)).shown <+: run.text ∧
      (∀ w ∈ stop, w ≠ [] → ¬ w <:+: (stream E hex modelId stop (.ok run.frames)).shown) ∧
      ((∀ w ∈ stop, w ≠ [] → ¬ w <:+: run.text) →
        (stream E hex modelId stop (.ok run.frames)).shown = run.text) ∧
      ((∃ w ∈ stop, w ≠ [] ∧ w <:+: run.text) →
        (stream E hex modelId stop (.ok run.frames)).closed = true ∧
          ∃ w ∈ stop, w ≠ [] ∧ r.stopSequence = some w) := by
  have hne := nil_not_mem_stopsOf stop
  have hends := stream_endsAt E hex modelId stop run
  have hfound : Search.found (stopsOf stop) [] (run.chunks.map Chunk.shown) = none ↔ _ :=
    Search.found_eq_none_iff hne (Search.waiting_nil hne).unseen
  rw [List.nil_append] at hfound
  cases hf : Search.found (stopsOf stop) [] (run.chunks.map Chunk.shown) with
  | none =>
      rw [hf] at hends
      obtain ⟨r, hr, -, hshown, -⟩ := hends
      have hno : ∀ w ∈ stop, w ≠ [] → ¬ w <:+: run.text := fun w hw hnil =>
        hfound.mp hf w (mem_stopsOf.mpr ⟨hw, hnil⟩)
      rw [hshown]
      exact ⟨r, hr, List.prefix_rfl, hno, fun _ => rfl, fun ⟨w, hw, hnil, hin⟩ => absurd hin (hno w hw hnil)⟩
  | some p =>
      rw [hf] at hends
      obtain ⟨r, hr, hclosed, hshown, hstop⟩ := hends
      obtain ⟨i, e, hfirst, he, hbefore⟩ := Search.found_eq_some hne (show _ = some (p.1, p.2) from hf)
      rw [List.nil_append] at hfirst hbefore
      obtain ⟨hw, hnil⟩ := mem_stopsOf.mp hfirst.mem
      have htext : (run.chunks.map Chunk.shown).flatten = run.text := List.flatMap_def.symm
      rw [htext] at hfirst hbefore
      refine ⟨r, hr, ?_, fun v hv hvnil hin => ?_, fun hno => ?_, fun _ => ⟨hclosed, p.2, hw, hnil, hstop⟩⟩
      · rw [hshown, hbefore]
        exact List.take_prefix i _
      · -- a stop string in front of the first one would stand in front of it
        rw [hshown, hbefore] at hin
        obtain ⟨j, hj⟩ := Search.infix_iff_drop.mp hin
        obtain ⟨hj, hend⟩ := (Search.prefix_drop_take hvnil).mp hj
        have hle := hfirst.before v (mem_stopsOf.mpr ⟨hv, hvnil⟩) j
          ((Search.prefix_drop_take hvnil).mpr ⟨hj, by omega⟩)
        have hpos := List.length_pos_of_ne_nil hvnil
        omega
      · have hin := Search.infix_iff_drop.mpr ⟨i, ((Search.prefix_drop_take hnil).mp hfirst.here).1⟩
        exact absurd hin (hno p.2 hw hnil)

/-- What the upstream sends for an answer of text is what `OpenAi.stream` sends of one. -/
theorem textRun_of_stream {E : Env} {U : Ucd} {q : Setup} {hex : Nat → Text} {arrivals : List Arrival}
    {sent : List Chunk} (h : OpenAi.stream E U q hex arrivals = .ok sent)
    (hplain : ∀ c ∈ sent, c.isDone = false → Plain c) : ∃ run : TextRun, sent = run.frames := by
  have hfolds : ∃ frames r, sent = frames ++ [.done r] ∧ (∀ c ∈ frames, c.isDone = false) ∧ Folds frames r := by
    rw [OpenAi.stream] at h
    split at h
    · exact folds_complete h
    · exact folds_chat h
  obtain ⟨frames, r, rfl, hongoing, hfolds⟩ := hfolds
  have hframes : ∀ c ∈ frames, Plain c := fun c hc =>
    hplain c (List.mem_append_left _ hc) (hongoing c hc)
  exact ⟨⟨frames, r, hframes, hfolds.text.symm⟩, rfl⟩

/-! ## Where the text is cut -/

/-- A frame of text. -/
def IsText : Chunk → Prop
  | .text _ _ => True
  | _ => False

/-- The stop string that the terminal frame names. -/
def Outcome.stopSequence (out : Outcome) : Option Text :=
  match out.sent.getLast? with
  | some (.done r) => r.stopSequence
  | _ => none

/-- What a run tells of an answer: its text, and the stop string. -/
def Outcome.answer (out : Outcome) : Text × Option Text := (out.shown, out.stopSequence)

theorem answer_of_endsAt {out : Outcome} {text : Text} {given : Option Text} {found : Option (Text × Text)}
    (h : EndsAt out text given found) :
    out.answer = (found.map fun p => (p.1, some p.2)).getD (text, given) := by
  have last : ∀ {r : GenerateResponse}, Ends out r → out.stopSequence = r.stopSequence := by
    intro r hr
    obtain ⟨frames, hsent, -⟩ := hr.frames
    rw [Outcome.stopSequence, hsent, List.getLast?_concat]
  cases found with
  | none =>
      obtain ⟨r, hr, -, hshown, hstop⟩ := h
      exact Prod.ext hshown ((last hr).trans hstop)
  | some p =>
      obtain ⟨r, hr, -, hshown, hstop⟩ := h
      exact Prod.ext hshown ((last hr).trans hstop)

/-- A text that comes in pieces. -/
def TextRun.ofPieces (pieces : List Text) : TextRun where
  chunks := pieces.map fun piece => .text piece none
  result :=
    { content := some pieces.flatten, audio := none, logprobs := none, annotations := [], reasoning := none,
      toolCalls := [], finishReason := .stop, stopSequence := none, usage := none, modelId := none }
  plain c hc := by
    obtain ⟨piece, -, rfl⟩ := List.mem_map.mp hc
    exact trivial
  told := by
    rw [Option.getD_some, List.flatMap_map]
    exact List.flatMap_id.symm

theorem shown_ofPieces (pieces : List Text) : (TextRun.ofPieces pieces).chunks.map Chunk.shown = pieces := by
  rw [TextRun.ofPieces, List.map_map]
  exact List.map_id pieces

/-- **Where the text is cut does not matter** to what a run tells if and only
if, of the stop strings, the one that is complete first in the text stands
first in it. -/
theorem cuts_settle (stop : List Text) (text : Text) :
    (∀ run run' : TextRun, (∀ c ∈ run.chunks, IsText c) → (∀ c ∈ run'.chunks, IsText c) →
        run.text = text → run'.text = text → run.result.stopSequence = run'.result.stopSequence →
        (stream E hex modelId stop (.ok run.frames)).answer = (stream E hex modelId stop (.ok run'.frames)).answer) ↔
      Search.Settled (stopsOf stop) text := by
  rw [← Search.found_eq_iff (nil_not_mem_stopsOf stop)]
  constructor
  · intro h pieces pieces' hp hp'
    have isText : ∀ ps : List Text, ∀ c ∈ (TextRun.ofPieces ps).chunks, IsText c := fun ps c hc => by
      obtain ⟨piece, -, rfl⟩ := List.mem_map.mp hc
      exact trivial
    have full : ∀ ps : List Text, ps.flatten = text → (TextRun.ofPieces ps).text = text := fun ps hps => by
      rw [TextRun.text, List.flatMap_def, shown_ofPieces, hps]
    have heq := h _ _ (isText pieces) (isText pieces') (full pieces hp) (full pieces' hp') rfl
    rw [answer_of_endsAt (stream_endsAt E hex modelId stop _), answer_of_endsAt (stream_endsAt E hex modelId stop _),
      shown_ofPieces, shown_ofPieces] at heq
    cases hf : Search.found (stopsOf stop) [] pieces with
    | none =>
        cases hf' : Search.found (stopsOf stop) [] pieces' with
        | none => rfl
        | some p => rw [hf, hf'] at heq; cases (Prod.mk.inj heq).2
    | some p =>
        cases hf' : Search.found (stopsOf stop) [] pieces' with
        | none => rw [hf, hf'] at heq; cases (Prod.mk.inj heq).2
        | some p' =>
            rw [hf, hf'] at heq
            obtain ⟨hbefore, hw⟩ := Prod.mk.inj heq
            exact congrArg some (Prod.ext hbefore (Option.some.inj hw))
  · intro h run run' _ _ ht ht' hstop
    have pieces : ∀ run : TextRun, run.text = text → (run.chunks.map Chunk.shown).flatten = text :=
      fun run ht => List.flatMap_def.symm.trans ht
    rw [answer_of_endsAt (stream_endsAt E hex modelId stop run), answer_of_endsAt (stream_endsAt E hex modelId stop run'),
      h _ _ (pieces run ht) (pieces run' ht'), ht, ht', hstop]

/-- Of `abcd` and `bc`, the second is complete first and begins later: which
of them ends the answer depends on where it was cut. -/
theorem cuts_matter :
    ((stream (.ofTable []) (fun _ => []) [] ["abcd".toList, "bc".toList]
        (.ok (TextRun.ofPieces ["abcd".toList]).frames)).answer = ([], some "abcd".toList)) ∧
      (stream (.ofTable []) (fun _ => []) [] ["abcd".toList, "bc".toList]
        (.ok (TextRun.ofPieces ["abc".toList, "d".toList]).frames)).answer = ("a".toList, some "bc".toList) :=
  ⟨by decide, by decide⟩

end InferenceDriver.Strata

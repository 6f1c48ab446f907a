/-
# `OpenAi.Fold` — the frames of a stream add up to its result

A caller that reads the frames of `_stream` puts the answer together on its
own: the texts, the reasoning and the citations one after the other, and
the fragments of calls by their index.  `stream_folds` says what it gets,
on every run that ends: what the terminal frame carries, except that the
terminal frame leaves out a call nobody has named, and gives an id to a
call that has none.
-/
import InferenceDriver.OpenAi.Stream

namespace InferenceDriver.OpenAi

open Checks Thinking

/-! ## The reader of the frames -/

/-- A fragment put to its call: the last id and name that say something, and
the arguments one after the other. -/
def Part.add (p : Part) (d : ToolCallDelta) : Part :=
  let name := (d.function.bind (·.name)).getD []
  { id := if d.id.getD [] = [] then p.id else d.id.getD []
    name := if name = [] then p.name else name
    arguments := p.arguments ++ (d.function.bind (·.arguments)).getD [] }

/-- Fragments folded by index. -/
def foldCalls (parts : Dict Int Part) (fragments : List ToolCallDelta) : Dict Int Part :=
  fragments.foldl (fun ps d => ps.set d.index (((ps.get? d.index).getD {}).add d)) parts

/-- The calls that frames amount to, in index order. -/
def callsOf (frames : List Chunk) : List Part :=
  inOrder (foldCalls .empty (frames.flatMap Chunk.fragments))

/-- A call as it was put together; an id may have been given to it. -/
def Matches (p : Part) (c : ToolCall) : Prop :=
  c.name = p.name ∧ c.arguments = p.arguments ∧ (p.id ≠ [] → c.id = p.id)

/-- What a reader of the frames has, and what the run has kept. -/
structure Told (s : Locals) : Prop where
  text : s.sent.flatMap Chunk.shown = s.emitted.flatten
  reasoning : s.sent.flatMap Chunk.thought = s.reasoned.flatten
  annotations : s.sent.flatMap Chunk.cited = s.citations
  calls : foldCalls .empty (s.sent.flatMap Chunk.fragments) = s.callParts
  ongoing : ∀ c ∈ s.sent, c.isDone = false

variable {E : Env} {U : Ucd} {q : Setup}

/-! ## Fragments -/

theorem truthy_str (s : Text) : (Json.str s).truthy = decide (s ≠ []) := rfl

/-- A fragment that is forwarded adds what is accumulated. -/
theorem add_deltaOf {item : Obj} {position : Nat} {d : ToolCallDelta}
    (h : deltaOf E item position = .ok d) (p : Part) :
    d.index = indexOf item position ∧ p.add d = p.take E item := by
  simp only [deltaOf, bind_eq_ok, pure_eq_ok] at h
  obtain ⟨id, hid, name, hname, arguments, harg, rfl⟩ := h
  -- a field that passed is null or a string
  have field : ∀ {v : Json} {o : Option Text}, optionalStr E v = .ok o →
      (v.truthy = decide (o.getD [] ≠ [])) ∧ (v.truthy = true → E.str v = o.getD []) := by
    intro v o hv
    cases v with
    | null => cases hv; exact ⟨rfl, fun h => (by cases h)⟩
    | str s =>
        rw [optionalStr] at hv
        split at hv
        · cases hv; exact ⟨rfl, fun _ => rfl⟩
        · cases hv
    | bool b => cases hv
    | int n => cases hv
    | float x => cases hv
    | arr items => cases hv
    | obj fields => cases hv
  have pick : ∀ {v : Json} {o : Option Text}, optionalStr E v = .ok o → ∀ a : Text,
      (if v.truthy = true then E.str v else a) = if o.getD [] = [] then a else o.getD [] := by
    intro v o hv a
    obtain ⟨ht, hs⟩ := field hv
    by_cases he : o.getD [] = []
    · rw [if_pos he, if_neg (by rw [ht]; simp [he])]
    · have ht' : v.truthy = true := by rw [ht]; simp [he]
      rw [if_neg he, if_pos ht', hs ht']
  refine ⟨rfl, ?_⟩
  have hfn : dictOf (item.get "function") = [] → name = none ∧ arguments = none := by
    intro hfn
    rw [hfn] at hname harg
    cases hname
    cases harg
    exact ⟨rfl, rfl⟩
  have hn : ((if dictOf (item.get "function") = [] then none else some (Function1.mk name arguments)).bind
      (·.name)) = name := by
    split
    · rename_i h; exact (hfn h).1.symm
    · rfl
  have ha : ((if dictOf (item.get "function") = [] then none else some (Function1.mk name arguments)).bind
      (·.arguments)) = arguments := by
    split
    · rename_i h; exact (hfn h).2.symm
    · rfl
  simp only [Part.add, Part.take, hn, ha, pick hid, pick hname, Part.mk.injEq, true_and]
  obtain ⟨ht, hs⟩ := field harg
  by_cases he : arguments.getD [] = []
  · rw [if_neg (by rw [ht]; simp [he]), he, List.append_nil]
  · have ht' : (Obj.get (dictOf (item.get "function")) "arguments").truthy = true := by
      rw [ht]; simp [he]
    rw [if_pos ht', hs ht']

theorem foldCalls_append (parts : Dict Int Part) (a b : List ToolCallDelta) :
    foldCalls parts (a ++ b) = foldCalls (foldCalls parts a) b :=
  List.foldl_append

/-- What a frame forwards folds to what it accumulates. -/
theorem foldCalls_deltasFrom : ∀ (items : List Json) {position : Nat} {ds : List ToolCallDelta},
    deltasFrom E items position = .ok ds → ∀ parts : Dict Int Part,
      foldCalls parts ds = accumulateFrom E parts items position
  | [], _, _, h, parts => by cases h; rfl
  | .obj item :: rest, position, ds, h, parts => by
      simp only [deltasFrom, bind_eq_ok, pure_eq_ok] at h
      obtain ⟨d, hd, ds', hds, rfl⟩ := h
      obtain ⟨hi, ha⟩ := add_deltaOf (E := E) hd ((parts.get? (indexOf item position)).getD {})
      rw [accumulateFrom, ← foldCalls_deltasFrom rest hds, foldCalls, List.foldl_cons, hi, ha]
      rfl
  | .null :: rest, position, ds, h, parts => foldCalls_deltasFrom rest h parts
  | .bool _ :: rest, position, ds, h, parts => foldCalls_deltasFrom rest h parts
  | .int _ :: rest, position, ds, h, parts => foldCalls_deltasFrom rest h parts
  | .float _ :: rest, position, ds, h, parts => foldCalls_deltasFrom rest h parts
  | .str _ :: rest, position, ds, h, parts => foldCalls_deltasFrom rest h parts
  | .arr _ :: rest, position, ds, h, parts => foldCalls_deltasFrom rest h parts

theorem foldCalls_fromWire {raw : Json} {ds : List ToolCallDelta}
    (h : toolCallDeltasFromWire E raw = .ok ds) (parts : Dict Int Part) :
    foldCalls parts ds = accumulateToolCalls E parts raw := by
  cases raw with
  | arr items => exact foldCalls_deltasFrom items h parts
  | null => cases h; rfl
  | bool b => cases h; rfl
  | int n => cases h; rfl
  | float x => cases h; rfl
  | str s => cases h; rfl
  | obj fields => cases h; rfl

/-! ## One step -/

/-- Nothing is sent and nothing is kept. -/
theorem Told.keep {s t : Locals} (h : Told s) (hs : t.sent = s.sent)
    (he : t.emitted = s.emitted) (hr : t.reasoned = s.reasoned)
    (ha : t.citations = s.citations) (hc : t.callParts = s.callParts) : Told t where
  text := by rw [hs, he]; exact h.text
  reasoning := by rw [hs, hr]; exact h.reasoning
  annotations := by rw [hs, ha]; exact h.annotations
  calls := by rw [hs, hc]; exact h.calls
  ongoing := by rw [hs]; exact h.ongoing

/-- What is kept is what the frame carries. -/
theorem Told.send {s s' : Locals} (h : Told s) (c : Chunk) (hs : s'.sent = s.sent ++ [c])
    (he : s'.emitted.flatten = s.emitted.flatten ++ c.shown)
    (hr : s'.reasoned.flatten = s.reasoned.flatten ++ c.thought)
    (ha : s'.citations = s.citations ++ c.cited)
    (hc : s'.callParts = foldCalls s.callParts c.fragments) (hd : c.isDone = false) : Told s' where
  text := by rw [hs, List.flatMap_append, h.text, he, List.flatMap_singleton]
  reasoning := by rw [hs, List.flatMap_append, h.reasoning, hr, List.flatMap_singleton]
  annotations := by rw [hs, List.flatMap_append, h.annotations, ha, List.flatMap_singleton]
  calls := by
    rw [hs, List.flatMap_append, foldCalls_append, h.calls, hc, List.flatMap_singleton]
  ongoing := by
    rw [hs]
    exact List.forall_mem_append.mpr ⟨h.ongoing, List.forall_mem_singleton.mpr hd⟩

/-- A frame that carries none of the four. -/
theorem Told.aside {s : Locals} (h : Told s) {c : Chunk} (ht : c.shown = [])
    (hr : c.thought = []) (ha : c.cited = []) (hc : c.fragments = []) (hd : c.isDone = false) :
    Told (s.send c) :=
  h.send c rfl (by rw [ht, List.append_nil]; rfl) (by rw [hr, List.append_nil]; rfl)
    (by rw [ha, List.append_nil]; rfl) (by rw [hc]; rfl) hd

theorem told_onFinish {s : Locals} (h : Told s) (choice : Obj) : Told (onFinish E q s choice) := by
  unfold onFinish
  split
  · exact h.keep rfl rfl rfl rfl rfl
  · exact h

theorem told_onLogprobs {s : Locals} (h : Told s) (logprobs : Option (List Json)) :
    Told (onLogprobs s logprobs) :=
  h.keep rfl rfl rfl rfl rfl

theorem told_onCitations {s : Locals} (h : Told s) (delta : Obj) : Told (onCitations E s delta) := by
  unfold onCitations
  simp only
  split
  · exact h
  · exact h.send (.annotations (annotationsOf E (delta.get "annotations"))) rfl
      (List.append_nil _).symm (List.append_nil _).symm rfl rfl rfl

theorem told_onReasoning {s : Locals} (h : Told s) (delta : Obj) : Told (onReasoning q s delta) := by
  unfold onReasoning
  split
  · rename_i thought _
    split
    · exact h
    · refine h.send (.reasoning thought) rfl (List.append_nil _).symm ?_ (List.append_nil _).symm rfl rfl
      show (s.reasoned ++ [thought]).flatten = s.reasoned.flatten ++ thought
      rw [List.flatten_append, List.flatten_singleton]
  · exact h

theorem told_onAudio {s s' : Locals} (h : Told s) {delta : Obj} (hs : onAudio E q s delta = .ok s') :
    Told s' := by
  unfold onAudio at hs
  split at hs
  · split at hs
    · cases hs
    · rename_i fragment heard _
      cases hs
      have kept : Told { s with heard } := h.keep rfl rfl rfl rfl rfl
      cases fragment with
      | none => exact kept
      | some fragment => exact kept.aside rfl rfl rfl rfl rfl
  · cases hs
    exact h

theorem told_onToolCalls {s s' : Locals} (h : Told s) {delta : Obj}
    (hs : onToolCalls E s delta = .ok s') : Told s' := by
  unfold onToolCalls at hs
  split at hs
  · rw [bind_eq_ok] at hs
    obtain ⟨fragments, hf, hs⟩ := hs
    rw [Locals.attempt_eq_ok] at hf
    split at hs
    · cases pure_eq_ok.mp hs
      exact h
    · cases pure_eq_ok.mp hs
      exact h.send (.toolCalls fragments) rfl (List.append_nil _).symm (List.append_nil _).symm
        (List.append_nil _).symm (foldCalls_fromWire hf s.callParts).symm rfl
  · cases hs
    exact h

/-- Text that is shown, whatever else it changes. -/
theorem told_text {s s' : Locals} (h : Told s) {text : Text} {logprobs : Option (List Json)}
    (hs : s'.sent = s.sent ++ [.text text logprobs]) (he : s'.emitted = s.emitted ++ [text])
    (hr : s'.reasoned = s.reasoned) (ha : s'.citations = s.citations)
    (hc : s'.callParts = s.callParts) : Told s' := by
  refine h.send (.text text logprobs) hs ?_ ?_ ?_ hc rfl
  · rw [he, List.flatten_append, List.flatten_singleton]
    rfl
  · rw [hr]
    exact (List.append_nil _).symm
  · rw [ha]
    exact (List.append_nil _).symm

theorem told_showText {s : Locals} (h : Told s) (text : Text) (logprobs : Option (List Json)) :
    Told (showText s text logprobs) := by
  unfold showText
  split
  · exact told_text h rfl rfl rfl rfl rfl
  · cases logprobs with
    | none => exact h
    | some content => exact h.aside rfl rfl rfl rfl rfl

theorem told_onVisible {s : Locals} (h : Told s) (text : Text) (logprobs : Option (List Json)) :
    Told (onVisible U q s text logprobs) := by
  unfold onVisible
  split
  · refine told_showText ?_ _ logprobs
    exact h.keep rfl rfl rfl rfl rfl
  · exact told_showText h text logprobs

theorem told_onText {s s' : Locals} (h : Told s) {delta : Obj} {logprobs : Option (List Json)}
    (hs : onText U q s delta logprobs = .ok s') : Told s' := by
  unfold onText at hs
  simp only at hs
  split at hs
  · split at hs
    · cases hs
      exact h.keep rfl rfl rfl rfl rfl
    · split at hs
      · cases hs
        exact told_onVisible h _ _
      · split at hs
        · cases hs
        · cases hs
          exact (h.keep (t := { s with spoiled := true }) rfl rfl rfl rfl rfl).aside rfl rfl rfl rfl rfl
  · cases hs
    cases logprobs with
    | none => exact h
    | some content => exact h.aside rfl rfl rfl rfl rfl

theorem told_onChoice {s s' : Locals} (h : Told s) {choice : Json}
    (hs : onChoice E U q s choice = .ok s') : Told s' := by
  simp only [onChoice, bind_eq_ok] at hs
  obtain ⟨choice, -, delta, -, s₁, h₁, s₂, h₂, h₃⟩ := hs
  have cited : Told (onReasoning q (onCitations E (onLogprobs (onFinish E q s choice)
      (logprobsOf E (choice.get "logprobs"))) delta) delta) :=
    told_onReasoning (told_onCitations (told_onLogprobs (told_onFinish h choice) _) delta) delta
  exact told_onText (told_onToolCalls (told_onAudio cited h₁) h₂) h₃

theorem told_onProgress {s s' : Locals} (h : Told s) {now : ℚ} {event : Json}
    (hs : onProgress E q now s event = .ok s') : Told s' := by
  unfold onProgress at hs
  split at hs
  · split at hs
    · rw [bind_eq_ok] at hs
      obtain ⟨p, -, hs⟩ := hs
      split at hs
      · cases pure_eq_ok.mp hs
        exact h.aside rfl rfl rfl rfl rfl
      · cases pure_eq_ok.mp hs
        exact h
    · cases hs
      exact h
  · have kept : Told { s with sawFirstData := true } := h.keep rfl rfl rfl rfl rfl
    simp only at hs
    split at hs
    · rw [bind_eq_ok] at hs
      obtain ⟨writing, -, hs⟩ := hs
      split at hs
      · split at hs
        · cases pure_eq_ok.mp hs
          exact (kept.keep (t := { s with sawFirstData := true, lastGenerating := now, generated := _ })
            rfl rfl rfl rfl rfl).aside rfl rfl rfl rfl rfl
        · cases pure_eq_ok.mp hs
          exact kept
      · cases pure_eq_ok.mp hs
        exact kept
    · cases hs
      exact kept

theorem told_onEnvelope {s : Locals} (h : Told s) (event : Obj) : Told (onEnvelope E q s event) := by
  unfold onEnvelope
  simp only
  split
  · exact h.keep rfl rfl rfl rfl rfl
  · exact h.keep rfl rfl rfl rfl rfl

theorem told_onEvent {s s' : Locals} (h : Told s) {now : ℚ} {event : Json}
    (hs : onEvent E U q now s event = .ok s') : Told s' := by
  unfold onEvent at hs
  split at hs
  · cases hs
  · simp only [bind_eq_ok] at hs
    obtain ⟨s₁, h₁, event, -, choices, -, hs⟩ := hs
    exact foldlM_rule (fun _ _ _ hs h => told_onChoice hs h) (told_onEnvelope (told_onProgress h h₁) event) hs

theorem told_onQuiet {s : Locals} (h : Told s) (waited : ℚ) (line : Text) :
    Told (onQuiet q s waited line) := by
  unfold onQuiet
  split
  · exact h.keep rfl rfl rfl rfl rfl
  · exact h.keep rfl rfl rfl rfl rfl

/-- The state in which the loop goes on, or ends. -/
def Next.state : Next → Locals
  | .again s => s
  | .last s => s

theorem told_onLine {s : Locals} {n : Next} (h : Told s) {waited now : ℚ} {line : Text}
    (hs : onLine E U q waited now line s = .ok n) : Told n.state := by
  unfold onLine at hs
  split at hs
  · split at hs
    · cases hs
      exact h
    · exact absurd hs Locals.cut_ne_ok
  · have h := told_onQuiet (q := q) h waited line
    simp only at hs
    split at hs
    · split at hs
      · cases hs
        exact (h.keep (t := { onQuiet q s waited line with lastKeepalive := now })
          rfl rfl rfl rfl rfl).aside rfl rfl rfl rfl rfl
      · cases hs
        exact h
    · split at hs
      · cases hs
        exact h
      · split at hs
        · cases hs
          exact h.keep rfl rfl rfl rfl rfl
        · split at hs
          · cases hs
            exact h.keep rfl rfl rfl rfl rfl
          · cases hs
          · obtain ⟨s', hs', rfl⟩ := map_eq_ok.mp hs
            exact told_onEvent h hs'

/-! ## A run -/

theorem told_readLines {arrivals : List Arrival} : ∀ {s s' : Locals}, Told s →
    readLines E U q s arrivals = .ok s' → Told s' := by
  induction arrivals with
  | nil =>
      intro s s' h hs
      cases hs
      exact h
  | cons a rest ih =>
      intro s s' h hs
      cases a with
      | timeout => cases hs
      | broken said => cases hs
      | line waited now text =>
          rw [readLines, bind_eq_ok] at hs
          obtain ⟨n, hn, hs⟩ := hs
          have hn := told_onLine h hn
          cases n with
          | last s₁ => cases pure_eq_ok.mp hs; exact hn
          | again s₁ => exact ih hn hs

theorem told_onFlush {s : Locals} (h : Told s) : Told (onFlush U q s) := by
  unfold onFlush
  split
  · simp only
    split
    · exact h
    · exact told_text h rfl rfl rfl rfl rfl
  · exact h

theorem newCallId_ne (hex : Text) : newCallId hex ≠ [] := by
  intro h
  cases h

theorem forcedCall_id {hex tool : Text} {content finish : Json} {made : ToolCall}
    (h : forcedCall E hex tool content finish = .ok (some made)) : made.id = newCallId hex := by
  unfold forcedCall at h
  split at h
  · split at h
    · cases h
    · split at h
      · cases h
      · cases h
      · split at h
        · cases h
          rfl
        · cases h
      · cases h
  · cases h

theorem told_onHeld {hex : Text} {s s' : Locals} (h : Told s)
    (hs : onHeld E q hex s = .ok s') : Told s' := by
  unfold onHeld at hs
  split at hs
  · cases hs; exact h
  · split at hs
    · cases hs; exact h
    · rename_i tool _ hheld
      rw [not_or, not_not] at hheld
      simp only [bind_eq_ok] at hs
      obtain ⟨text, -, made, hm, hs⟩ := hs
      cases made with
      | none =>
          cases pure_eq_ok.mp hs
          exact told_text h rfl rfl rfl rfl rfl
      | some made =>
          have hempty : s.callParts = .empty := Dict.eq_empty hheld.2
          rw [Locals.attempt_eq_ok] at hm
          have hid : made.id ≠ [] := by
            rw [forcedCall_id hm]
            exact newCallId_ne hex
          cases pure_eq_ok.mp hs
          refine h.send (.toolCalls [⟨0, some made.id, some ⟨some made.name, some made.arguments⟩⟩]) rfl
            (List.append_nil _).symm (List.append_nil _).symm (List.append_nil _).symm ?_ rfl
          show s.callParts.set 0 _ = foldCalls s.callParts [_]
          rw [hempty, foldCalls, List.foldl_cons, List.foldl_nil]
          refine congrArg (Dict.set Dict.empty 0) ?_
          show Part.mk made.id made.name made.arguments = _
          simp only [Part.add, Option.getD_some, Option.bind_some, if_neg hid, Part.mk.injEq, true_and]
          exact ⟨(ite_eq_right_iff.mpr fun h => h ▸ rfl).symm, rfl⟩

/-- The calls of the terminal frame are the parts that have a name. -/
theorem finishToolCalls_matches (hex : Nat → Text) (parts : Dict Int Part) :
    List.Forall₂ Matches ((inOrder parts).filter fun p => p.name ≠ []) (finishToolCalls hex parts) := by
  rw [finishToolCalls, List.forall₂_iff_get]
  refine ⟨(List.length_mapIdx).symm, fun i h₁ h₂ => ?_⟩
  rw [List.get_eq_getElem, List.get_eq_getElem, List.getElem_mapIdx]
  exact ⟨rfl, rfl, fun hid => if_neg hid⟩

/-- What the frames of a run add up to, against its terminal frame. -/
structure Folds (frames : List Chunk) (r : GenerateResponse) : Prop where
  text : frames.flatMap Chunk.shown = r.content.getD []
  reasoning : frames.flatMap Chunk.thought = r.reasoning.getD []
  annotations : frames.flatMap Chunk.cited = r.annotations
  calls : List.Forall₂ Matches ((callsOf frames).filter fun p => p.name ≠ []) r.toolCalls

theorem told_opened : Told (opened q) := by
  have start : Told { servedModel := q.target.id, heard := { keep := q.assembleAudio } } :=
    ⟨rfl, rfl, rfl, rfl, fun _ h => (by cases h)⟩
  unfold opened
  simp only
  split
  · exact start.aside rfl rfl rfl rfl rfl
  · exact start

theorem folds_chat {hex : Nat → Text} {arrivals : List Arrival} {chunks : List Chunk}
    (h : chatStream E U q hex arrivals = .ok chunks) :
    ∃ frames r, chunks = frames ++ [.done r] ∧ (∀ c ∈ frames, c.isDone = false) ∧
      Folds frames r := by
  simp only [chatStream, bind_eq_ok] at h
  obtain ⟨s, hs, h⟩ := h
  have told := told_readLines told_opened hs
  unfold finish at h
  split at h
  · exact absurd h Locals.cut_ne_ok
  · simp only [bind_eq_ok, pure_eq_ok, Locals.attempt_eq_ok] at h
    obtain ⟨s', hs', r, hr, rfl⟩ := h
    have told := told_onHeld (told_onFlush told) hs'
    unfold resultOf at hr
    split at hr
    · cases hr
    · simp only [bind_eq_ok, checked_eq_ok] at hr
      obtain ⟨clip, -, usage, -, rfl, -⟩ := hr
      refine ⟨s'.sent, _, rfl, told.ongoing, ?_, ?_, told.annotations, ?_⟩
      · rw [told.text]
        simp only
        split
        · rfl
        · rename_i hno
          rw [not_or, not_not] at hno
          exact hno.1
      · rw [told.reasoning]
        simp only
        split
        · rename_i hno
          exact hno
        · rfl
      · rw [callsOf, told.calls]
        exact finishToolCalls_matches hex s'.callParts

/-- The frames of a raw completion are its text. -/
theorem folds_complete {kind : Completion} {arrivals : List Arrival} {chunks : List Chunk}
    (h : completeStream E q kind arrivals = .ok chunks) :
    ∃ frames r, chunks = frames ++ [.done r] ∧ (∀ c ∈ frames, c.isDone = false) ∧ Folds frames r := by
  simp only [completeStream, bind_eq_ok, pure_eq_ok, RawLocals.attempt_eq_ok] at h
  obtain ⟨s, -, r, hr, rfl⟩ := h
  unfold finishRaw at hr
  split at hr
  · split at hr <;> cases hr
  · simp only [bind_eq_ok, checked_eq_ok] at hr
    obtain ⟨content, hc, rfl, -⟩ := hr
    obtain ⟨texts, hp, rfl⟩ := joined_eq_ok.mp hc
    rw [hp, List.map_map]
    refine ⟨_, _, rfl, ?_, ?_, ?_, ?_, ?_⟩
    · intro c hc
      obtain ⟨part, -, rfl⟩ := List.mem_map.mp hc
      rfl
    · rw [List.flatMap_map]
      exact List.flatMap_id
    · rw [List.flatMap_map]
      exact List.flatMap_eq_nil_iff.mpr fun _ _ => rfl
    · rw [List.flatMap_map]
      exact List.flatMap_eq_nil_iff.mpr fun _ _ => rfl
    · have none_of : (texts.map (partFrame ∘ Json.str)).flatMap Chunk.fragments = [] := by
        rw [List.flatMap_map]
        exact List.flatMap_eq_nil_iff.mpr fun _ _ => rfl
      rw [callsOf, none_of]
      exact List.Forall₂.nil

/-- **The frames of a stream add up to its result**, on every run that ends:
the terminal frame has the same text, reasoning and citations, and of the
calls those that have a name, under their own ids where they have one. -/
theorem stream_folds {hex : Nat → Text} {arrivals : List Arrival} {chunks : List Chunk}
    (h : stream E U q hex arrivals = .ok chunks) :
    ∃ frames r, chunks = frames ++ [.done r] ∧ (∀ c ∈ frames, c.isDone = false) ∧
      Folds frames r := by
  unfold stream at h
  split at h
  · exact folds_complete h
  · exact folds_chat h

/-! ## Two runs -/

/-- A chat request with nothing special about it. -/
def Setup.chat (off : Bool) (forced : Option Text) : Setup where
  target := { id := "m".toList, upstream := "m".toList, account := false }
  completion := none
  off
  forced
  stop := []
  report := false
  audio := none
  assembleAudio := false
  hollowPings := false
  stallSeconds := 0

/-- A stream of the documents of a table, each on its own line. -/
def Env.arrivals (documents : List (Text × Json)) : List Arrival :=
  documents.map fun d => .line 0 0 ("data: ".toList ++ d.1)

/-- A frame of one choice that says the answer is finished. -/
def lastFrame (delta : List (String × Json)) : Json :=
  .ofFields [("choices", .arr [.ofFields [("delta", .ofFields delta),
    ("finish_reason", .ofString "stop")]])]

def fullCall : List (Text × Json) :=
  [("\x7b\"choices\":[\x7b\"delta\":\x7b\"content\":\"on it\",\"tool_calls\":[\x7b\"index\":0,\"id\":\"a\",\"function\":\x7b\"name\":\"f\",\"arguments\":\"1\"\x7d\x7d]\x7d,\"finish_reason\":\"stop\"\x7d]\x7d".toList,
    lastFrame [("content", .ofString "on it"), ("tool_calls", .arr [.ofFields [("index", .int 0),
      ("id", .ofString "a"),
      ("function", .ofFields [("name", .ofString "f"), ("arguments", .ofString "1")])]])])]

theorem stream_folds_call :
    ∃ frames r, stream (.ofTable fullCall) Ucd.basic (.chat false none) (fun _ => [])
      (Env.arrivals fullCall) = .ok (frames ++ [.done r]) ∧ Folds frames r := by
  obtain ⟨chunks, h, -⟩ := passes_iff.mp (show passes (fun _ => true) (stream (.ofTable fullCall)
    Ucd.basic (.chat false none) (fun _ => []) (Env.arrivals fullCall)) = true by decide +kernel)
  obtain ⟨frames, r, rfl, -, hf⟩ := stream_folds h
  exact ⟨frames, r, h, hf⟩

/-- One fragment has an id and no name, the other a name and no id. -/
def halfCalls : List (Text × Json) :=
  [("\x7b\"choices\":[\x7b\"delta\":\x7b\"tool_calls\":[\x7b\"index\":0,\"id\":\"a\",\"function\":\x7b\"arguments\":\"1\"\x7d\x7d,\x7b\"index\":1,\"function\":\x7b\"name\":\"f\",\"arguments\":\"2\"\x7d\x7d]\x7d,\"finish_reason\":\"stop\"\x7d]\x7d".toList,
    lastFrame [("tool_calls", .arr [
      .ofFields [("index", .int 0), ("id", .ofString "a"),
        ("function", .ofFields [("arguments", .ofString "1")])],
      .ofFields [("index", .int 1),
        ("function", .ofFields [("name", .ofString "f"), ("arguments", .ofString "2")])]])])]

set_option maxRecDepth 20000 in
/-- The fragments amount to two calls, neither of which is the call of the
terminal frame: nobody named the one, and the other got an id. -/
theorem stream_folds_not_exact :
    ∃ frames r, stream (.ofTable halfCalls) Ucd.basic (.chat false none) (fun _ => "9".toList)
        (Env.arrivals halfCalls) = .ok (frames ++ [.done r]) ∧
      callsOf frames = [⟨"a".toList, [], "1".toList⟩, ⟨[], "f".toList, "2".toList⟩] ∧
      r.toolCalls = [⟨"call_9".toList, "f".toList, "2".toList⟩] := by
  refine ⟨[.toolCalls [⟨0, some "a".toList, some ⟨none, some "1".toList⟩⟩,
    ⟨1, none, some ⟨some "f".toList, some "2".toList⟩⟩]], ?_⟩
  refine ⟨{ content := none, audio := none, logprobs := none, annotations := [], reasoning := none,
            toolCalls := [⟨"call_9".toList, "f".toList, "2".toList⟩], finishReason := .stop,
            stopSequence := none, usage := none, modelId := "m".toList }, rfl, ?_, rfl⟩
  decide

end InferenceDriver.OpenAi

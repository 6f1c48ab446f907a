/-
# `Thinking.Off` — what `off` hides, engine by engine

With `thinkingMode` at `off` the three engines that stream text keep the
reasoning a backend gives apart from its text, and take thinking blocks out
of the text of the answer.  A frame cannot be called back, so what the
frames of a stream show is another matter:

* the OpenAI-compatible engine filters its text frames, but shows held text
  of a forced tool as it came when no call is made of it (`chat_off`);
* Codex and Claude Code filter no text frame, so their frames show what
  their answer hides as soon as there is a tag (`off_shows`).
-/
import InferenceDriver.Cli.Claude
import InferenceDriver.OpenAi.Agree

namespace InferenceDriver

open Checks OpenAi Thinking

/-- The frames carry no reasoning, and neither does the answer. -/
def NoReasoning (frames : List Chunk) (r : GenerateResponse) : Prop :=
  (∀ c ∈ frames, c.thought = []) ∧ r.reasoning = none

theorem noReasoning_of {frames : List Chunk} {r : GenerateResponse} (h : frames.flatMap Chunk.thought = [])
    (hr : r.reasoning = none) : NoReasoning frames r :=
  ⟨fun c hc => List.flatMap_eq_nil_iff.mp h c hc, hr⟩

/-! ## The OpenAI-compatible engine -/

namespace OpenAi
variable {E : Env} {U : Ucd} {q : Setup}

/-- Held text is shown: a tool is forced, and no call comes of the answer. -/
def showsHeld (E : Env) (q : Setup) (a : Said) : Bool := a.looksAtText q && !a.makesCall E q

/-- The frames of a stream show no more than `strip_thinking_blocks` leaves
of the text the backend sent. -/
def Hides (U : Ucd) (frames : List Chunk) (a : Said) : Prop :=
  frames.flatMap Chunk.shown = [] ∨
    strip (frames.flatMap Chunk.shown) = stripThinkingBlocks U a.texts.flatten

/-- **With `off`, the OpenAI-compatible engine shows no reasoning**: on every
run that ends, no frame carries any, the text frames are the text of the
answer, and they hide the thinking blocks of a clean text when no tool is
forced; with a forced tool they hide them exactly when held text that is shown
has no tag. -/
theorem chat_off {hex : Nat → Text} {arrivals : List Arrival} {chunks : List Chunk} (hq : q.off = true)
    (h : chatStream E U q hex arrivals = .ok chunks) :
    ∃ frames r, chunks = frames ++ [.done r] ∧ NoReasoning frames r ∧
      r.content.getD [] = frames.flatMap Chunk.shown ∧
      (q.forced = none → Clean U (said E q arrivals).texts.flatten → Hides U frames (said E q arrivals)) ∧
      (q.forced.isSome = true → (Hides U frames (said E q arrivals) ↔
        (showsHeld E q (said E q arrivals) = true → hasTag U (said E q arrivals).texts.flatten = false))) := by
  obtain ⟨-, frames, r, hchunks, hr⟩ := chatStream_answers h
  obtain ⟨frames', r', hchunks', -, hfold⟩ := folds_chat h
  obtain ⟨rfl, hlast⟩ := List.append_inj' (hchunks.symm.trans hchunks') rfl
  cases hlast
  have hreasoning : r.reasoning = none := by rw [hr.reasoning, if_pos (.inl hq)]
  have htext : frames.flatMap Chunk.shown = (said E q arrivals).shown E U q := hfold.text.trans hr.content
  refine ⟨frames, r, hchunks, noReasoning_of ?_ hreasoning, hfold.text.symm, fun hf hclean => ?_, fun hf => ?_⟩
  · rw [hfold.reasoning, hreasoning]
    rfl
  · refine .inr ?_
    rw [htext, Said.shown, hf, hq]
    exact streamed_of_clean hclean
  · obtain ⟨tool, htool⟩ := Option.isSome_iff_exists.mp hf
    have hshown : frames.flatMap Chunk.shown =
        if showsHeld E q (said E q arrivals) then (said E q arrivals).texts.flatten else [] := by
      rw [htext, Said.shown, htool]
      rfl
    rw [Hides, hshown]
    cases showsHeld E q (said E q arrivals) with
    | false => exact ⟨fun _ hno => (by cases hno), fun _ => .inl rfl⟩
    | true =>
        rw [if_pos rfl]
        constructor
        · rintro (hnil | hstrip) _
          · rw [hnil]
            rfl
          · exact (strip_eq_iff _).mp hstrip
        · exact fun htag => .inr ((strip_eq_iff _).mpr (htag rfl))

theorem chat_off_fullCall :
    ∃ frames r, chatStream (.ofTable fullCall) Ucd.basic (.chat true none) (fun _ => []) (Env.arrivals fullCall) =
      .ok (frames ++ [.done r]) ∧ NoReasoning frames r ∧ r.content.getD [] = frames.flatMap Chunk.shown := by
  obtain ⟨chunks, h, -⟩ := passes_iff.mp (show passes (fun _ => true) (chatStream (.ofTable fullCall)
    Ucd.basic (.chat true none) (fun _ => []) (Env.arrivals fullCall)) = true by decide +kernel)
  obtain ⟨frames, r, rfl, hreasoning, htext, -⟩ := chat_off rfl h
  exact ⟨frames, r, h, hreasoning, htext⟩

end OpenAi

/-! ## Codex -/

namespace Cli.Codex
variable {E : Env} {U : Ucd} {D : Decoder} {q : Setup}

/-- The frames sent show what is kept. -/
structure Shows (q : Codex.Setup) (s : Locals) : Prop where
  text : s.sent.flatMap Chunk.shown = s.texts.flatten
  reasoning : s.sent.flatMap Chunk.thought = s.thoughts.flatten
  off : q.off = true → s.thoughts = []

/-- A frame with neither text nor reasoning, or whose text or reasoning is
kept. -/
theorem Shows.add {s : Locals} (h : Shows q s) (texts thoughts : List Text) (c : Chunk)
    (ht : (s.texts ++ texts).flatten = s.texts.flatten ++ c.shown)
    (hr : (s.thoughts ++ thoughts).flatten = s.thoughts.flatten ++ c.thought)
    (hoff : q.off = true → thoughts = []) :
    Shows q { s with texts := s.texts ++ texts, thoughts := s.thoughts ++ thoughts, sent := s.sent ++ [c] } where
  text := by rw [List.flatMap_append, h.text, List.flatMap_singleton, ht]
  reasoning := by rw [List.flatMap_append, h.reasoning, List.flatMap_singleton, hr]
  off := fun ho => by rw [h.off ho, hoff ho, List.append_nil]

/-- Other local variables do not matter. -/
theorem Shows.keep {s s' : Locals} (h : Shows q s) (hs : s'.sent = s.sent) (ht : s'.texts = s.texts)
    (hr : s'.thoughts = s.thoughts) : Shows q s' :=
  ⟨by rw [hs, ht, h.text], by rw [hs, hr, h.reasoning], fun ho => by rw [hr, h.off ho]⟩

theorem Shows.progress {s : Locals} (h : Shows q s) (p : StreamProgress) :
    Shows q { s with sent := s.sent ++ [Chunk.progress p] } := by
  have added := h.add [] [] (.progress p) (by simp [Chunk.shown]) (by simp [Chunk.thought]) fun _ => rfl
  rw [List.append_nil, List.append_nil] at added
  exact added

theorem send_ok {s s' : Locals} {text : Text} {c : Chunk} (h : s.send E text c = .ok s') :
    s' = { s with sent := s.sent ++ [c] } := by
  unfold Locals.send at h
  split at h
  · exact (Except.ok.inj h).symm
  · cases h

theorem shows_onCompleted {s s' : Locals} (h : Shows q s) {item : Obj}
    (hs : onCompleted E q s item = .ok s') : Shows q s' := by
  unfold onCompleted at hs
  split at hs
  · cases hs
    exact h
  · cases hs
    exact h
  · rename_i c cs _
    split at hs
    · cases send_ok hs
      have added := h.add [c :: cs] [] (.text (c :: cs) none) (by simp [Chunk.shown]) (by simp [Chunk.thought])
        fun _ => rfl
      rw [List.append_nil s.thoughts] at added
      exact added
    · split at hs
      · rename_i ho
        cases send_ok hs
        have added := h.add [] [c :: cs] (.reasoning (c :: cs)) (by simp [Chunk.shown]) (by simp [Chunk.thought])
          fun hoff => absurd (ho.2.symm.trans hoff) Bool.false_ne_true
        rw [List.append_nil s.texts] at added
        exact added
      · cases hs
        exact h

theorem shows_onStarted {s s' : Locals} (h : Shows q s) {item : Obj}
    (hs : onStarted E q s item = .ok s') : Shows q s' := by
  unfold onStarted at hs
  split at hs
  · split at hs
    · cases send_ok hs
      exact h.progress _
    · cases hs
      exact h
  · cases hs
    exact h

theorem shows_onEvent {s s' : Locals} (h : Shows q s) {event : Obj}
    (hs : onEvent E D q s event = .ok s') : Shows q s' := by
  have seen : Shows q { s with sawAny := true } := h.keep rfl rfl rfl
  unfold onEvent at hs
  simp only at hs
  split at hs
  · split at hs
    · cases hs
      exact seen.progress _
    · cases hs
      exact seen
  · split at hs
    · split at hs
      · exact shows_onStarted seen hs
      · cases hs
        exact seen
    · split at hs
      · split at hs
        · exact shows_onCompleted seen hs
        · cases hs
          exact seen
      · split at hs
        · obtain ⟨failure, -, hs⟩ := bind_eq_ok.mp hs
          cases pure_eq_ok.mp hs
          exact h.keep rfl rfl rfl
        · split at hs
          · cases hs
            exact h.keep rfl rfl rfl
          · cases hs
            exact seen

theorem shows_onLine {s s' : Locals} (h : Shows q s) {line : Text}
    (hs : onLine E D q s line = .ok s') : Shows q s' := by
  unfold onLine at hs
  split at hs
  · cases hs
    exact h
  · split at hs
    · exact shows_onEvent h hs
    · cases hs
      exact h
    · cases hs
      exact h
    · cases hs
    · cases hs

/-- What the frames of a Codex stream show, and its answer. -/
theorem stream_shows {binary : Text} {lines : List Text} {exit : Exit Unit} {chunks : List Chunk}
    (h : stream E U D q binary lines exit = .ok chunks) :
    ∃ s r, chunks = s.sent ++ [.done r] ∧ Shows q s ∧ resultOf E U q s.texts s.thoughts s.usage = .ok r := by
  obtain ⟨s, hs, h⟩ := bind_eq_ok.mp h
  have shows : Shows q s :=
    foldlM_rule (fun _ _ _ h hs => shows_onLine h hs) ⟨rfl, rfl, fun _ => rfl⟩ hs
  cases exit with
  | ended _ =>
      have h : finish E U q s = .ok chunks := h
      unfold finish at h
      split at h
      · cases h
      · split at h
        · cases h
        · obtain ⟨r, hr, h⟩ := bind_eq_ok.mp h
          cases pure_eq_ok.mp h
          refine ⟨s, r, rfl, shows, ?_⟩
          cases hresult : resultOf E U q s.texts s.thoughts s.usage with
          | ok r' =>
              rw [hresult] at hr
              exact congrArg Except.ok (Except.ok.inj hr)
          | error failure =>
              rw [hresult] at hr
              cases hr
  | cliError code said => cases h
  | backendTimeout => cases h
  | raised error => cases h
  | cancelled => cases h
  | closed => cases h

end Cli.Codex

/-! ## The command lines -/

namespace Cli
variable {E : Env} {U : Ucd} {D : Decoder} {q : Codex.Setup}

/-- What a stream that ends shows with `off`: no reasoning; an answer
without the blocks of what the frames show; and frames that show no more
than the answer exactly when there is no tag in them. -/
def Unfiltered (U : Ucd) (chunks : List Chunk) : Prop :=
  ∃ frames r, chunks = frames ++ [.done r] ∧ NoReasoning frames r ∧
    r.content = some (stripThinkingBlocks U (frames.flatMap Chunk.shown)) ∧
    (strip (frames.flatMap Chunk.shown) = r.content.getD [] ↔ hasTag U (frames.flatMap Chunk.shown) = false)

theorem unfiltered_of {frames : List Chunk} {r : GenerateResponse} (hr : NoReasoning frames r)
    (hc : r.content = some (stripThinkingBlocks U (frames.flatMap Chunk.shown))) :
    Unfiltered U (frames ++ [.done r]) := by
  refine ⟨frames, r, rfl, hr, hc, ?_⟩
  rw [hc]
  exact strip_eq_iff _

theorem codex_unfiltered {binary : Text} {lines : List Text} {exit : Exit Unit} {chunks : List Chunk}
    (hq : q.off = true) (h : Codex.stream E U D q binary lines exit = .ok chunks) : Unfiltered U chunks := by
  obtain ⟨s, r, rfl, shows, hr⟩ := Codex.stream_shows h
  unfold Codex.resultOf at hr
  simp only [bind_eq_ok, checked_eq_ok] at hr
  obtain ⟨usage, -, rfl, -⟩ := hr
  refine unfiltered_of (noReasoning_of ?_ ?_) ?_
  · rw [shows.reasoning, shows.off hq]
    rfl
  · simp only
    rw [shows.off hq]
    rfl
  · simp only
    rw [Codex.shown, if_pos hq, shows.text]

/-- The text of an envelope is the text of the feed. -/
def Repeats (D : Decoder) (lines : List Text) : Prop :=
  ∀ feed envelope content, Claude.feedOf D lines = some feed → Claude.lastEnvelope feed = some envelope →
    envelope.get "result" = .str content → content = (feed.filterMap Claude.textIn).flatten

theorem thoughts_off {feed : List Obj} (hq : q.off = true) : feed.filterMap (Claude.thoughtIn q) = [] := by
  refine List.filterMap_eq_nil_iff.mpr fun event _ => ?_
  rw [Claude.thoughtIn, hq, Bool.not_true, Bool.and_false, if_neg Bool.false_ne_true]

theorem claude_unfiltered {repr : Json → Text} {binary : Text} {lines : List Text} {exit : Exit Unit}
    {chunks : List Chunk} (hq : q.off = true) (hrep : Repeats D lines)
    (h : Claude.stream E U D q repr binary lines exit = .ok chunks) : Unfiltered U chunks := by
  obtain ⟨feed, envelope, r, hf, he, rfl, hr⟩ := Claude.stream_answers h
  refine unfiltered_of (noReasoning_of ?_ ?_) ?_
  · rw [Claude.thought_frames, thoughts_off hq]
    rfl
  · rw [(Claude.resultOf_ok hr).2, thoughts_off hq]
    rfl
  · rw [Claude.shown_frames, (Claude.resultOf_ok hr).1, Codex.shown, if_pos hq]
    split
    · rename_i content hc
      rw [hrep feed envelope content hf he hc]
    · rfl

/-- **The command lines filter no frame**: with `off`, on every stream that
ends, Codex's and Claude Code's frames show no more than their answer
exactly when there is no tag in them (of Claude Code, when its envelope
repeats the text). -/
theorem off_shows (repr : Json → Text) {binary : Text} {lines : List Text} {exit : Exit Unit}
    {chunks : List Chunk} (hq : q.off = true) :
    (Codex.stream E U D q binary lines exit = .ok chunks → Unfiltered U chunks) ∧
    (Repeats D lines → Claude.stream E U D q repr binary lines exit = .ok chunks → Unfiltered U chunks) :=
  ⟨codex_unfiltered hq, claude_unfiltered hq⟩

/-- A setup with `off`. -/
def hidden : Codex.Setup := ⟨"off".toList, false, none⟩

theorem off_shows_told :
    (∃ chunks, Codex.stream (.ofTable []) Ucd.basic (.ofTable Codex.answered) hidden "codex".toList
        (Codex.answered.map (·.1.toList)) (.ended ()) = .ok chunks ∧ Unfiltered Ucd.basic chunks) ∧
      ∃ chunks, Claude.stream (.ofTable []) Ucd.basic Claude.told hidden (fun _ => []) "claude".toList
        ["1".toList, "2".toList] (.ended ()) = .ok chunks ∧ Unfiltered Ucd.basic chunks := by
  obtain ⟨chunks, h, -⟩ := passes_iff.mp (show passes (fun _ => true) (Codex.stream (.ofTable []) Ucd.basic
    (.ofTable Codex.answered) hidden "codex".toList (Codex.answered.map (·.1.toList)) (.ended ())) = true by
      decide)
  obtain ⟨chunks', h', -⟩ := passes_iff.mp (show passes (fun _ => true) (Claude.stream (.ofTable []) Ucd.basic
    Claude.told hidden (fun _ => []) "claude".toList ["1".toList, "2".toList] (.ended ())) = true by
      decide)
  have hrep : Repeats Claude.told ["1".toList, "2".toList] := fun feed envelope content hf he hc => by
    cases hf
    cases he
    cases hc
    rfl
  exact ⟨⟨chunks, h, (off_shows (fun _ => []) rfl).1 h⟩, chunks', h', (off_shows _ rfl).2 hrep h'⟩

end Cli

end InferenceDriver

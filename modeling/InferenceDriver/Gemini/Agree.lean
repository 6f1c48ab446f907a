/-
# `Gemini.Agree` — one candidate, whole and in chunks

`generate` reads a candidate at once, `stream` reads its parts a chunk at a
time.  The parts come to the same text, thoughts and calls either way,
because a part adds to what came before it and looks at nothing else of it
(`readPart_add`); the ids a call is given when Google gave it none are new
on either path (`Alike`).

What the two do with the parts differs at both ends of an answer that is
not there: `stream` takes a candidate without a `finishReason` for a
connection that was cut, `generate` for a natural end; and only `generate`
refuses a natural end with nothing in front of it.  `paths_agree` is about
every other candidate.
-/
import InferenceDriver.Gemini.Reported
import InferenceDriver.Lib.Both
import InferenceDriver.OpenAi.Fold

namespace InferenceDriver.Gemini

open Checks OpenAi

variable {E : Env} {U : Ucd} {dumps : Json → Text} {q : Setup}

/-! ## Parts after parts -/

/-- What was read, and then what was read after it. -/
def Parsed.add (p p' : Parsed) : Parsed where
  text := p.text ++ p'.text
  reasoning := p.reasoning ++ p'.reasoning
  calls := p.calls ++ p'.calls
  images := p.images ++ p'.images
  audio := p.audio ++ p'.audio
  remembered := p.remembered ++ p'.remembered

theorem Parsed.add_empty (p : Parsed) : p.add {} = p := by
  rw [Parsed.add]
  simp only [List.append_nil]

theorem Parsed.add_assoc (p p' p'' : Parsed) : (p.add p').add p'' = p.add (p'.add p'') := by
  simp only [Parsed.add, List.append_assoc]

/-- The new ids from a call on. -/
def later (hex : Nat → Text) (n : Nat) : Nat → Text := fun i => hex (n + i)

theorem call_add (hex : Nat → Text) (p p' : Parsed) (part call : Obj) :
    (p.add p').call E dumps hex part call = p.add <$> p'.call E dumps (later hex p.calls.length) part call := by
  rw [Parsed.call, Parsed.call]
  have hlen : (p.add p').calls.length = p.calls.length + p'.calls.length := List.length_append
  simp only [hlen]
  show (toolCall E (later hex p.calls.length p'.calls.length) _ _ _ >>= _) =
    p.add <$> (toolCall E (later hex p.calls.length p'.calls.length) _ _ _ >>= _)
  cases toolCall E (later hex p.calls.length p'.calls.length)
      (if (call.get "id").truthy = true then some (E.str (call.get "id")) else none) (E.str (call.get "name"))
      (dumps (if isDict (call.get "args") = true then call.get "args" else .obj [])) with
  | error f => rfl
  | ok made =>
      show Except.ok _ = Except.ok _
      rw [Parsed.add, Parsed.add]
      simp only [List.append_assoc]

/-- What a part of text or of a thought adds. -/
def spoken (part : Obj) : Parsed :=
  match words (part.get "text"), part.get "thought" with
  | none, _ => {}
  | some text, .bool true => { reasoning := text }
  | some text, _ => { text := text }

/-- What a part that is no call and no transcription adds. -/
def medium (E : Env) (part : Obj) : Parsed :=
  let inline := dictOf (part.get "inlineData")
  if (inline.get "data").truthy then
    if "audio/".toList.isPrefixOf (E.orEmpty (inline.get "mimeType")) then { audio := [inline] }
    else { images := [inline] }
  else spoken part

/-- What a part that is no call adds. -/
def aside (E : Env) (part : Obj) : Parsed :=
  match (dictOf (part.get "audioTranscription")).get "text" with
  | .str said => { text := said }
  | _ => medium E part

theorem spoken_add (out : Parsed) (part : Obj) :
    (match words (part.get "text"), part.get "thought" with
      | none, _ => .ok out
      | some text, .bool true => .ok { out with reasoning := out.reasoning ++ text }
      | some text, _ => .ok { out with text := out.text ++ text } : Except Failure Parsed) =
    .ok (out.add (spoken part)) := by
  have shown : ∀ text, (Except.ok { out with text := out.text ++ text } : Except Failure Parsed) =
      .ok (out.add { text := text }) := fun text => by simp only [Parsed.add, List.append_nil]
  rw [spoken]
  cases words (part.get "text") with
  | none => rw [Parsed.add_empty]
  | some text =>
      cases part.get "thought" with
      | bool b =>
          cases b with
          | true => simp only [Parsed.add, List.append_nil]
          | false => exact shown text
      | null => exact shown text
      | int n => exact shown text
      | float x => exact shown text
      | str t => exact shown text
      | arr items => exact shown text
      | obj fields => exact shown text

theorem medium_add (out : Parsed) (part : Obj) :
    (if ((dictOf (part.get "inlineData")).get "data").truthy then
      .ok (if "audio/".toList.isPrefixOf (E.orEmpty ((dictOf (part.get "inlineData")).get "mimeType")) then
        { out with audio := out.audio ++ [dictOf (part.get "inlineData")] }
      else { out with images := out.images ++ [dictOf (part.get "inlineData")] })
    else .ok (out.add (spoken part)) : Except Failure Parsed) = .ok (out.add (medium E part)) := by
  rw [medium]
  split
  · split
    · simp only [Parsed.add, List.append_nil]
    · simp only [Parsed.add, List.append_nil]
  · rfl

/-- A part is a call, or is put aside. -/
theorem readPart_obj (hex : Nat → Text) (out : Parsed) (part : Obj) :
    readPart E dumps hex out (.obj part) =
      if ((dictOf (part.get "functionCall")).get "name").truthy then
        out.call E dumps hex part (dictOf (part.get "functionCall"))
      else .ok (out.add (aside E part)) := by
  have other := medium_add (E := E) out part
  rw [← spoken_add] at other
  rw [readPart, aside]
  split
  · rfl
  · cases (dictOf (part.get "audioTranscription")).get "text" with
    | str said => simp only [Parsed.add, List.append_nil]
    | null => exact other
    | bool b => exact other
    | int n => exact other
    | float x => exact other
    | arr items => exact other
    | obj fields => exact other

/-- A part adds to what came before it. -/
theorem readPart_add (hex : Nat → Text) (p p' : Parsed) (part : Json) :
    readPart E dumps hex (p.add p') part = p.add <$> readPart E dumps (later hex p.calls.length) p' part := by
  cases part with
  | obj part =>
      rw [readPart_obj, readPart_obj]
      split
      · exact call_add hex p p' part _
      · rw [Parsed.add_assoc]
        rfl
  | null => rfl
  | bool b => rfl
  | int n => rfl
  | float x => rfl
  | str t => rfl
  | arr items => rfl

theorem foldlM_add (hex : Nat → Text) (p p' : Parsed) (parts : List Json) :
    parts.foldlM (readPart E dumps hex) (p.add p') =
      p.add <$> parts.foldlM (readPart E dumps (later hex p.calls.length)) p' := by
  induction parts generalizing p' with
  | nil => rfl
  | cons part parts ih =>
      rw [List.foldlM_cons, List.foldlM_cons, readPart_add]
      cases readPart E dumps (later hex p.calls.length) p' part with
      | error f => rfl
      | ok p'' => exact ih p''

/-- Parts in two lots. -/
theorem readParts_append (hex : Nat → Text) (parts parts' : List Json) :
    readParts E dumps hex (.arr (parts ++ parts')) =
      readParts E dumps hex (.arr parts) >>= fun p =>
        p.add <$> readParts E dumps (later hex p.calls.length) (.arr parts') := by
  rw [readParts, readParts, List.foldlM_append]
  cases parts.foldlM (readPart E dumps hex) {} with
  | error f => rfl
  | ok p =>
      show parts'.foldlM (readPart E dumps hex) p = _
      rw [← Parsed.add_empty p, foldlM_add, Parsed.add_empty]
      rfl

/-! ## New ids -/

/-- The same call, under ids that are the same or are new on both paths. -/
structure SameCall (hex hex' : Nat → Text) (c c' : ToolCall) : Prop where
  name : c.name = c'.name
  arguments : c.arguments = c'.arguments
  id : c.id = c'.id ∨ ∃ i j, c.id = newCallId (hex i) ∧ c'.id = newCallId (hex' j)

/-- The same text, thoughts and calls. -/
structure Alike (hex hex' : Nat → Text) (p p' : Parsed) : Prop where
  text : p.text = p'.text
  reasoning : p.reasoning = p'.reasoning
  calls : List.Forall₂ (SameCall hex hex') p.calls p'.calls

theorem Alike.add {hex hex' : Nat → Text} {p p' : Parsed} (h : Alike hex hex' p p') {x : Parsed}
    (hx : x.calls = []) : Alike hex hex' (p.add x) (p'.add x) := by
  refine ⟨congrArg (· ++ x.text) h.text, congrArg (· ++ x.reasoning) h.reasoning, ?_⟩
  show List.Forall₂ _ (p.calls ++ x.calls) (p'.calls ++ x.calls)
  rw [hx, List.append_nil, List.append_nil]
  exact h.calls

theorem calls_aside (part : Obj) : (aside E part).calls = [] := by
  rw [aside]
  split
  · rfl
  · rw [medium]
    split
    · split
      · rfl
      · rfl
    · rw [spoken]
      split
      · rfl
      · rfl
      · rfl

theorem toolCall_alike (hex hex' : Nat → Text) (i j : Nat) (id : Option Text) (name arguments : Text) :
    Both (SameCall hex hex') (toolCall E (hex i) id name arguments) (toolCall E (hex' j) id name arguments) := by
  rw [toolCall, toolCall]
  split
  · refine .ok ⟨rfl, rfl, ?_⟩
    cases id with
    | none => exact Or.inr ⟨i, j, rfl, rfl⟩
    | some given => exact Or.inl rfl
  · exact .error

theorem readPart_alike (hex hex' : Nat → Text) (p p' : Parsed) (part : Json) (h : Alike hex hex' p p') :
    Both (Alike hex hex') (readPart E dumps hex p part) (readPart E dumps hex' p' part) := by
  cases part with
  | obj part =>
      rw [readPart_obj, readPart_obj]
      split
      · rw [Parsed.call, Parsed.call]
        refine (toolCall_alike hex hex' p.calls.length p'.calls.length _ _ _).bind fun c c' hc => ?_
        refine .ok ⟨h.text, h.reasoning, ?_⟩
        exact List.rel_append h.calls (.cons hc .nil)
      · exact .ok (h.add (calls_aside part))
  | null => exact .ok h
  | bool b => exact .ok h
  | int n => exact .ok h
  | float x => exact .ok h
  | str t => exact .ok h
  | arr items => exact .ok h

/-- Two readers of the same parts give their new ids, and are alike otherwise. -/
theorem readParts_alike (hex hex' : Nat → Text) (parts : List Json) :
    Both (Alike hex hex') (readParts E dumps hex (.arr parts)) (readParts E dumps hex' (.arr parts)) :=
  Both.foldlM (fun p p' part h => readPart_alike hex hex' p p' part h) parts ⟨rfl, rfl, .nil⟩

/-! ## Chunks -/

/-- The parts of a candidate; none when its `content` is no object. -/
def partsIn (candidate : Obj) : Option (List Json) :=
  match partsOf candidate with
  | .ok (.arr parts) => some parts
  | .ok _ => some []
  | .error _ => none

/-- A document with a candidate: a whole answer, or a chunk of one. -/
structure Slice where
  event : Obj
  candidate : Obj
  parts : List Json
  first : ∃ rest, event.get "candidates" = .arr (.obj candidate :: rest)
  shown : partsIn candidate = some parts

variable (dumps) in
theorem Slice.read (x : Slice) : ∃ v, partsOf x.candidate = .ok v ∧
    ∀ hex, readParts E dumps hex v = readParts E dumps hex (.arr x.parts) := by
  have h := x.shown
  rw [partsIn] at h
  cases hp : partsOf x.candidate with
  | error f =>
      rw [hp] at h
      cases h
  | ok v =>
      rw [hp] at h
      refine ⟨v, rfl, fun hex => ?_⟩
      cases v with
      | arr parts =>
          cases h
          rfl
      | null => rw [← Option.some.inj h]; rfl
      | bool b => rw [← Option.some.inj h]; rfl
      | int n => rw [← Option.some.inj h]; rfl
      | float y => rw [← Option.some.inj h]; rfl
      | str t => rw [← Option.some.inj h]; rfl
      | obj fields => rw [← Option.some.inj h]; rfl

/-- What is noted of a stream beside its parts. -/
structure Notes where
  finishRaw : Json
  finished : Bool
  lastCandidate : Obj
  usageRaw : Json

def Locals.notes (s : Locals) : Notes := ⟨s.finishRaw, s.finished, s.lastCandidate, s.usageRaw⟩

def Notes.take (n : Notes) (x : Slice) : Notes where
  finishRaw :=
    if (x.candidate.get "finishReason").truthy then x.candidate.get "finishReason" else n.finishRaw
  finished := n.finished || (x.candidate.get "finishReason").truthy
  lastCandidate := x.candidate
  usageRaw := if isDict (x.event.get "usageMetadata") then x.event.get "usageMetadata" else n.usageRaw

/-- The state has grown by these parts, with these notes. -/
structure Grown (s : Locals) (n : Notes) (p : Parsed) (s' : Locals) : Prop where
  text : s'.parsed.text = s.parsed.text ++ p.text
  reasoning : s'.parsed.reasoning = s.parsed.reasoning ++ p.reasoning
  calls : s'.parsed.calls = s.parsed.calls ++ p.calls
  notes : s'.notes = n

theorem Grown.trans {s s₁ s₂ : Locals} {n n' : Notes} {p p' : Parsed} (h : Grown s n p s₁)
    (h' : Grown s₁ n' p' s₂) : Grown s n' (p.add p') s₂ where
  text := by rw [h'.text, h.text, List.append_assoc]; rfl
  reasoning := by rw [h'.reasoning, h.reasoning, List.append_assoc]; rfl
  calls := by rw [h'.calls, h.calls, List.append_assoc]; rfl
  notes := h'.notes

theorem Grown.still {s s' : Locals} (hp : s'.parsed = s.parsed) : Grown s s'.notes {} s' where
  text := by rw [hp]; exact (List.append_nil _).symm
  reasoning := by rw [hp]; exact (List.append_nil _).symm
  calls := by rw [hp]; exact (List.append_nil _).symm
  notes := rfl

/-- The thoughts of a chunk, sent. -/
def thinks (s : Locals) (text : Text) : Locals :=
  if text = [] then s
  else { s with parsed.reasoning := s.parsed.reasoning ++ text }.send (.reasoning text)

/-- The text of a chunk, sent. -/
def speaks (s : Locals) (text : Text) : Locals :=
  if text = [] then s else { s with parsed.text := s.parsed.text ++ text }.send (.text text none)

/-- The calls of a chunk, sent. -/
def makes (s : Locals) (calls : List ToolCall) : Locals :=
  calls.foldl (fun s call => { s with parsed.calls := s.parsed.calls ++ [call] }.send
    (.toolCalls [⟨s.parsed.calls.length, some call.id, some ⟨some call.name, some call.arguments⟩⟩])) s

theorem grown_thinks (s : Locals) (text : Text) : Grown s s.notes { reasoning := text } (thinks s text) := by
  rw [thinks]
  split
  · rename_i hnil
    rw [hnil]
    exact .still rfl
  · exact ⟨(List.append_nil _).symm, rfl, (List.append_nil _).symm, rfl⟩

theorem grown_speaks (s : Locals) (text : Text) : Grown s s.notes { text := text } (speaks s text) := by
  rw [speaks]
  split
  · rename_i hnil
    rw [hnil]
    exact .still rfl
  · exact ⟨rfl, (List.append_nil _).symm, (List.append_nil _).symm, rfl⟩

theorem grown_makes (calls : List ToolCall) (s : Locals) : Grown s s.notes { calls := calls } (makes s calls) := by
  induction calls generalizing s with
  | nil => exact .still rfl
  | cons call rest ih =>
      have h := ih ({ s with parsed.calls := s.parsed.calls ++ [call] }.send
        (.toolCalls [⟨s.parsed.calls.length, some call.id, some ⟨some call.name, some call.arguments⟩⟩]))
      exact ⟨h.text, h.reasoning, h.calls.trans (List.append_assoc _ _ _), h.notes⟩

/-- The parts of a chunk, sent. -/
theorem grown_onParsed (s : Locals) (p : Parsed) : Grown s s.notes p (onParsed s p) := by
  have h₁ := grown_thinks s p.reasoning
  have h₂ := grown_speaks (thinks s p.reasoning) p.text
  have h₃ : Grown (speaks (thinks s p.reasoning) p.text) _ {} { speaks (thinks s p.reasoning) p.text with
      parsed.remembered := (speaks (thinks s p.reasoning) p.text).parsed.remembered ++ p.remembered } :=
    ⟨(List.append_nil _).symm, (List.append_nil _).symm, (List.append_nil _).symm, rfl⟩
  have h₄ := grown_makes p.calls { speaks (thinks s p.reasoning) p.text with
    parsed.remembered := (speaks (thinks s p.reasoning) p.text).parsed.remembered ++ p.remembered }
  have h := ((h₁.trans h₂).trans h₃).trans h₄
  refine ⟨h.text.trans ?_, h.reasoning.trans ?_, h.calls, ?_⟩
  · simp only [Parsed.add, List.append_nil, List.nil_append]
  · simp only [Parsed.add, List.append_nil, List.nil_append]
  · exact h₄.notes.trans (h₂.notes.trans h₁.notes)

/-- The candidate of a chunk. -/
theorem grown_onCandidate (hex : Nat → Text) (s : Locals) (x : Slice) :
    Both (fun p s' => Grown s
        { finishRaw := if (x.candidate.get "finishReason").truthy then x.candidate.get "finishReason" else s.finishRaw
          finished := s.finished || (x.candidate.get "finishReason").truthy
          lastCandidate := x.candidate, usageRaw := s.usageRaw } p s')
      (readParts E dumps (later hex s.parsed.calls.length) (.arr x.parts))
      (onCandidate E dumps hex s (x.event.get "candidates")) := by
  obtain ⟨rest, hfirst⟩ := x.first
  obtain ⟨v, hparts, hread⟩ := x.read (E := E) dumps
  have hrun : onCandidate E dumps hex s (x.event.get "candidates") =
      s.attempt (readParts E dumps (later hex s.parsed.calls.length) (.arr x.parts)) >>= fun parsed =>
        if (x.candidate.get "finishReason").truthy then
          pure { onParsed { s with lastCandidate := x.candidate } parsed with
            finishRaw := x.candidate.get "finishReason", finished := true }
        else pure (onParsed { s with lastCandidate := x.candidate } parsed) := by
    rw [onCandidate, hfirst]
    show (s.attempt (partsOf x.candidate) >>= fun parts => s.attempt (readParts E dumps _ parts) >>= _) = _
    rw [hparts]
    show s.attempt (readParts E dumps (later hex s.parsed.calls.length) v) >>= _ = _
    rw [hread]
    rfl
  rw [hrun]
  cases readParts E dumps (later hex s.parsed.calls.length) (.arr x.parts) with
  | error f => exact .error
  | ok p =>
      have h := grown_onParsed { s with lastCandidate := x.candidate } p
      show Both _ _ (if _ then _ else _)
      cases (x.candidate.get "finishReason").truthy with
      | true =>
          refine .ok ⟨h.text, h.reasoning, h.calls, ?_⟩
          rw [Bool.or_true]
          exact congrArg₂ (Notes.mk (x.candidate.get "finishReason") true)
            (congrArg Notes.lastCandidate h.notes) (congrArg Notes.usageRaw h.notes)
      | false =>
          refine .ok ⟨h.text, h.reasoning, h.calls, ?_⟩
          rw [Bool.or_false]
          exact h.notes

/-- One chunk. -/
theorem grown_onEvent (hex : Nat → Text) (s : Locals) (x : Slice) (herror : isDict (x.event.get "error") = false) :
    Both (fun p s' => Grown s (s.notes.take x) p s')
      (readParts E dumps (later hex s.parsed.calls.length) (.arr x.parts))
      (onEvent E dumps q hex s x.event) := by
  obtain ⟨rest, hfirst⟩ := x.first
  have htruthy : (x.event.get "candidates").truthy = true := by
    rw [hfirst]
    rfl
  have found : Both (fun p s' => Grown s (s.notes.take x) p s')
      (readParts E dumps (later hex s.parsed.calls.length) (.arr x.parts))
      (onCandidate E dumps hex (if isDict (x.event.get "usageMetadata") then
        { s with usageRaw := x.event.get "usageMetadata" } else s) (x.event.get "candidates")) := by
    rw [Notes.take]
    cases isDict (x.event.get "usageMetadata") with
    | true =>
        refine (grown_onCandidate hex { s with usageRaw := x.event.get "usageMetadata" } x).mono ?_
        exact fun p s' h => ⟨h.text, h.reasoning, h.calls, h.notes⟩
    | false => exact grown_onCandidate hex s x
  rw [onEvent]
  cases he : x.event.get "error" with
  | obj error =>
      rw [he] at herror
      cases herror
  | null => simp only [if_pos htruthy]; exact found
  | bool b => simp only [if_pos htruthy]; exact found
  | int n => simp only [if_pos htruthy]; exact found
  | float y => simp only [if_pos htruthy]; exact found
  | str t => simp only [if_pos htruthy]; exact found
  | arr items => simp only [if_pos htruthy]; exact found

/-! ## Lines -/

/-- No line keeps the stall clock waiting, and no document is nested too
deep. -/
def InTime (E : Env) (q : Setup) (arrivals : List Arrival) : Prop :=
  ∀ a ∈ arrivals, ∃ waited now text, a = .line waited now text ∧
    (0 < q.stallSeconds → waited ≤ q.stallSeconds) ∧ (frameData q text).map E.loads ≠ some .escapes

/-- The event on a line. -/
def eventOn (E : Env) (q : Setup) (a : Arrival) : Option Obj :=
  match a with
  | .line _ _ text => frameIn E q text
  | _ => none

/-- A line has an event, or changes nothing that counts. -/
theorem onLine_cases (hex : Nat → Text) (now : ℚ) (text : Text) (s : Locals)
    (h : (frameData q text).map E.loads ≠ some .escapes) :
    (∃ event, frameIn E q text = some event ∧
      onLine E dumps q hex now text s = onEvent E dumps q hex { s with sawFirst := true } event) ∨
    (frameIn E q text = none ∧ ∃ s', onLine E dumps q hex now text s = .ok s' ∧
      s'.parsed = s.parsed ∧ s'.notes = s.notes) := by
  rw [frameIn, onLine]
  rw [frameData] at h ⊢
  rcases Classical.em (q.report = true ∧ ":".toList.isPrefixOf text = true) with hp | hp
  · rw [if_pos hp, if_pos hp]
    refine Or.inr ⟨rfl, ?_⟩
    split
    · exact ⟨_, rfl, rfl, rfl⟩
    · exact ⟨s, rfl, rfl, rfl⟩
  · rw [if_neg hp] at h
    rw [if_neg hp, if_neg hp]
    cases hd : lineData text with
    | none => exact Or.inr ⟨rfl, s, rfl, rfl, rfl⟩
    | some data =>
        rw [hd, Option.map_some] at h
        rw [Option.map_some]
        simp only
        cases hl : E.loads data with
        | malformed => exact Or.inr ⟨rfl, _, rfl, rfl, rfl⟩
        | escapes => exact absurd (congrArg some hl) h
        | value v =>
            cases v with
            | obj event => exact Or.inl ⟨event, rfl, rfl⟩
            | null => exact Or.inr ⟨rfl, _, rfl, rfl, rfl⟩
            | bool b => exact Or.inr ⟨rfl, _, rfl, rfl, rfl⟩
            | int n => exact Or.inr ⟨rfl, _, rfl, rfl, rfl⟩
            | float y => exact Or.inr ⟨rfl, _, rfl, rfl, rfl⟩
            | str t => exact Or.inr ⟨rfl, _, rfl, rfl, rfl⟩
            | arr items => exact Or.inr ⟨rfl, _, rfl, rfl, rfl⟩

theorem readLines_cons (hex : Nat → Text) (s : Locals) {waited now : ℚ} {text : Text} (rest : List Arrival)
    (h : 0 < q.stallSeconds → waited ≤ q.stallSeconds) :
    readLines E dumps q hex s (.line waited now text :: rest) =
      onLine E dumps q hex now text s >>= fun s' => readLines E dumps q hex s' rest := by
  rw [readLines, if_neg]
  rintro ⟨-, hpos, hlt⟩
  exact absurd (h hpos) (not_le.mpr hlt)

variable (dumps) in
/-- All the lines. -/
theorem grown_readLines (hex : Nat → Text) (arrivals : List Arrival) (slices : List Slice) (s : Locals)
    (htime : InTime E q arrivals) (hevents : arrivals.filterMap (eventOn E q) = slices.map Slice.event)
    (herror : ∀ x ∈ slices, isDict (x.event.get "error") = false) :
    Both (fun p s' => Grown s (slices.foldl Notes.take s.notes) p s')
      (readParts E dumps (later hex s.parsed.calls.length) (.arr (slices.flatMap Slice.parts)))
      (readLines E dumps q hex s arrivals) := by
  induction arrivals generalizing s slices with
  | nil =>
      cases slices with
      | nil => exact .ok (.still rfl)
      | cons x slices => cases hevents
  | cons a rest ih =>
      obtain ⟨⟨waited, now, text, rfl, hwait, hescape⟩, hrest⟩ := List.forall_mem_cons.mp htime
      rw [readLines_cons hex s rest hwait]
      rcases onLine_cases hex now text s hescape with ⟨event, hf, hline⟩ | ⟨hf, s₁, hline, hparsed, hnotes⟩
      · have hf : eventOn E q (.line waited now text) = some event := hf
        rw [List.filterMap_cons_some hf] at hevents
        cases slices with
        | nil => cases hevents
        | cons x slices =>
            obtain ⟨rfl, htail⟩ := List.cons.inj hevents
            obtain ⟨hx, herror⟩ := List.forall_mem_cons.mp herror
            rw [hline, List.flatMap_cons, readParts_append]
            refine (grown_onEvent hex { s with sawFirst := true } x hx).bind fun p s₁ h₁ => ?_
            have hih := ih slices s₁ hrest htail herror
            have hlater : later (later hex s.parsed.calls.length) p.calls.length =
                later hex s₁.parsed.calls.length := by
              rw [h₁.calls, List.length_append]
              exact funext fun i => congrArg hex (Nat.add_assoc _ _ _).symm
            rw [hlater, List.foldl_cons]
            rw [h₁.notes] at hih
            refine hih.map_left fun p' s₂ h₂ => ?_
            have h := h₁.trans h₂
            exact ⟨h.text, h.reasoning, h.calls, h.notes⟩
      · have hf : eventOn E q (.line waited now text) = none := hf
        rw [List.filterMap_cons_none hf] at hevents
        rw [hline]
        have hih := ih slices s₁ hrest hevents herror
        rw [hparsed, hnotes] at hih
        refine hih.mono fun p s₂ h => ⟨?_, ?_, ?_, h.notes⟩
        · rw [h.text, hparsed]
        · rw [h.reasoning, hparsed]
        · rw [h.calls, hparsed]

/-! ## The two paths -/

/-- A candidate that is delivered whole, and in chunks: the chunks' parts
are its parts, and the last chunk has its finish reason and its usage. -/
structure InChunks (E : Env) (q : Setup) (body : Slice) (front : List Slice) (last : Slice)
    (arrivals : List Arrival) : Prop where
  inTime : InTime E q arrivals
  events : arrivals.filterMap (eventOn E q) = (front ++ [last]).map Slice.event
  noError : ∀ x ∈ front ++ [last], isDict (x.event.get "error") = false
  parts : (front ++ [last]).flatMap Slice.parts = body.parts
  unfinished : ∀ x ∈ front, (x.candidate.get "finishReason").truthy = false
  reason : last.candidate.get "finishReason" = body.candidate.get "finishReason"
  message : last.candidate.get "finishMessage" = body.candidate.get "finishMessage"
  usage : last.event.get "usageMetadata" = body.event.get "usageMetadata"
  uncounted : isDict (last.event.get "usageMetadata") = true ∨
    ∀ x ∈ front, isDict (x.event.get "usageMetadata") = false

/-- The same answer, up to new ids. -/
structure SameAnswer (hex hex' : Nat → Text) (r r' : GenerateResponse) : Prop where
  content : r.content = r'.content
  reasoning : r.reasoning = r'.reasoning
  toolCalls : List.Forall₂ (SameCall hex hex') r.toolCalls r'.toolCalls
  finishReason : r.finishReason = r'.finishReason
  usage : r.usage = r'.usage

/-- The terminal frame has the same answer. -/
def Answers (hex hex' : Nat → Text) (r : GenerateResponse) (chunks : List Chunk) : Prop :=
  ∃ sent r', chunks = sent ++ [.done r'] ∧ SameAnswer hex hex' r r'

/-- There is text, a thought or a call. -/
def Parsed.tells (p : Parsed) : Prop := ¬ (p.text = [] ∧ p.calls = [] ∧ p.reasoning = [])

theorem foldl_take_front (front : List Slice) (n : Notes)
    (h : ∀ x ∈ front, (x.candidate.get "finishReason").truthy = false) :
    (front.foldl Notes.take n).finished = n.finished ∧
      ((∀ x ∈ front, isDict (x.event.get "usageMetadata") = false) →
        (front.foldl Notes.take n).usageRaw = n.usageRaw) := by
  induction front generalizing n with
  | nil => exact ⟨rfl, fun _ => rfl⟩
  | cons x front ih =>
      obtain ⟨hx, hfront⟩ := List.forall_mem_cons.mp h
      obtain ⟨hf, hu⟩ := ih (n.take x) hfront
      rw [List.foldl_cons, hf]
      refine ⟨?_, fun hno => ?_⟩
      · show (n.finished || (x.candidate.get "finishReason").truthy) = n.finished
        rw [hx, Bool.or_false]
      · obtain ⟨hx', hno⟩ := List.forall_mem_cons.mp hno
        rw [hu hno]
        show (if isDict (x.event.get "usageMetadata") then _ else n.usageRaw) = n.usageRaw
        rw [hx', if_neg Bool.false_ne_true]

/-- What is noted when the lines are through. -/
structure Noted (body : Slice) (n : Notes) : Prop where
  finished : n.finished = (body.candidate.get "finishReason").truthy
  reason : (body.candidate.get "finishReason").truthy = true → n.finishRaw = body.candidate.get "finishReason"
  lastReason : n.lastCandidate.get "finishReason" = body.candidate.get "finishReason"
  lastMessage : n.lastCandidate.get "finishMessage" = body.candidate.get "finishMessage"
  usage : usageOf n.usageRaw = usageOf (body.event.get "usageMetadata")

theorem usageOf_not_dict {v : Json} (h : isDict v = false) : usageOf v = none := by
  cases v with
  | obj fields => cases h
  | null => rfl
  | bool b => rfl
  | int n => rfl
  | float x => rfl
  | str t => rfl
  | arr items => rfl

theorem opened_notes : (opened q).notes = ⟨.null, false, [], .obj []⟩ ∧ (opened q).parsed = {} := by
  rw [opened]
  split
  · exact ⟨rfl, rfl⟩
  · exact ⟨rfl, rfl⟩

theorem noted {body last : Slice} {front : List Slice} {arrivals : List Arrival}
    (h : InChunks E q body front last arrivals) :
    Noted body ((front ++ [last]).foldl Notes.take (opened q).notes) := by
  obtain ⟨hfinished, hused⟩ := foldl_take_front front (opened q).notes h.unfinished
  rw [List.foldl_append, List.foldl_cons, List.foldl_nil]
  refine ⟨?_, fun ht => ?_, h.reason, h.message, ?_⟩
  · show ((front.foldl Notes.take (opened q).notes).finished || _) = _
    rw [hfinished, h.reason, opened_notes.1, Bool.false_or]
  · show (if (last.candidate.get "finishReason").truthy then last.candidate.get "finishReason" else _) = _
    rw [h.reason, if_pos ht]
  · show usageOf (if isDict (last.event.get "usageMetadata") then last.event.get "usageMetadata" else _) = _
    cases hd : isDict (last.event.get "usageMetadata") with
    | true => rw [if_pos rfl, h.usage]
    | false =>
        have hno := h.uncounted.resolve_left (by rw [hd]; exact Bool.false_ne_true)
        rw [if_neg Bool.false_ne_true, hused hno, opened_notes.1, ← h.usage, usageOf_not_dict hd]
        rfl

variable (dumps) in
/-- The lines bring the parts of the candidate, and their ids. -/
theorem parsed_alike (hex hex' : Nat → Text) {body last : Slice} {front : List Slice} {arrivals : List Arrival}
    (h : InChunks E q body front last arrivals) :
    Both (fun p s => Alike hex hex' p s.parsed ∧ Noted body s.notes) (readParts E dumps hex (.arr body.parts))
      (readLines E dumps q hex' (opened q) arrivals) := by
  have hlines := grown_readLines dumps hex' arrivals (front ++ [last]) (opened q) h.inTime h.events h.noError
  have hlater : later hex' (opened q).parsed.calls.length = hex' := by
    rw [opened_notes.2]
    exact funext fun i => congrArg hex' (Nat.zero_add i)
  rw [hlater, h.parts] at hlines
  refine ((readParts_alike hex hex' body.parts).comp hlines).mono ?_
  rintro p s ⟨p', halike, hgrown⟩
  refine ⟨⟨halike.text.trans ?_, halike.reasoning.trans ?_, ?_⟩, hgrown.notes ▸ noted h⟩
  · rw [hgrown.text, opened_notes.2]
    rfl
  · rw [hgrown.reasoning, opened_notes.2]
    rfl
  · rw [hgrown.calls, opened_notes.2]
    exact halike.calls

theorem refusalNote_congr {c c' : Obj} (hreason : c.get "finishReason" = c'.get "finishReason")
    (hmessage : c.get "finishMessage" = c'.get "finishMessage") : refusalNote E c = refusalNote E c' := by
  unfold refusalNote
  rw [hreason, hmessage]

/-- The part of an answer that its model checks. -/
theorem checked_alike {hex hex' : Nat → Text} {r r' : GenerateResponse} (h : SameAnswer hex hex' r r')
    (hmodel : r.modelId = r'.modelId) : Both (SameAnswer hex hex') (checked E r) (checked E r') := by
  rw [checked, checked, ← h.content, ← h.reasoning, ← hmodel]
  split
  · exact .ok h
  · exact .error

theorem nil_iff {hex hex' : Nat → Text} {p p' : Parsed} (h : Alike hex hex' p p') :
    p.calls = [] ↔ p'.calls = [] := by
  rw [← List.length_eq_zero_iff, h.calls.length_eq, List.length_eq_zero_iff]

/-- The same parts make the same answer. -/
theorem resultOf_alike {hex hex' : Nat → Text} {p p' : Parsed} (h : Alike hex hex' p p') {c c' : Obj}
    (hnote : refusalNote E c = refusalNote E c') (finish : FinishReason) {usage usage' : Json}
    (husage : usageOf usage = usageOf usage') :
    Both (SameAnswer hex hex') (resultOf E q p c finish usage) (resultOf E q p' c' finish usage') := by
  refine checked_alike ⟨?_, ?_, h.calls, rfl, husage⟩ rfl
  · show (if finish = .contentFilter ∧ p.text = [] ∧ p.calls = [] then some (refusalNote E c) else _) =
      (if finish = .contentFilter ∧ p'.text = [] ∧ p'.calls = [] then some (refusalNote E c') else _)
    rw [h.text, hnote]
    simp only [nil_iff h]
  · show (if p.reasoning = [] then none else some p.reasoning) = _
    rw [h.reasoning]

theorem firstCandidate_slice (x : Slice) :
    (x.event.get "candidates").truthy = true ∧ firstCandidate (x.event.get "candidates") = .ok x.candidate := by
  obtain ⟨rest, hfirst⟩ := x.first
  rw [hfirst]
  exact ⟨rfl, rfl⟩

/-- What `generate` makes of the parts. -/
def answered (E : Env) (q : Setup) (body : Slice) (p : Parsed) : Except Failure GenerateResponse :=
  if p.text = [] ∧ p.calls = [] ∧ p.reasoning = [] ∧ plainReason (body.candidate.get "finishReason") then
    .error (.cli "Gemini returned an answer with no text, reasoning or tool call".toList none)
  else
    finishOf E (body.candidate.get "finishReason") (p.calls ≠ []) >>= fun finish =>
      resultOf E q p body.candidate finish (body.event.get "usageMetadata")

/-- `generate`, of a candidate. -/
theorem generate_slice (hex : Nat → Text) (body : Slice) :
    generate E dumps q hex (.value (.obj body.event)) =
      readParts E dumps hex (.arr body.parts) >>= answered E q body := by
  obtain ⟨htruthy, hcandidate⟩ := firstCandidate_slice body
  obtain ⟨v, hparts, hread⟩ := body.read (E := E) dumps
  have hevent : Obj.get (dictOf (.obj body.event)) "candidates" = body.event.get "candidates" := rfl
  rw [generate]
  simp only [hevent]
  rw [if_pos htruthy, hcandidate]
  show (partsOf body.candidate >>= fun parts => readParts E dumps hex parts >>= _) = _
  rw [hparts]
  show readParts E dumps hex v >>= _ = _
  rw [hread]
  rfl

theorem attempt_last {hex hex' : Nat → Text} {x y : Except Failure GenerateResponse}
    (h : Both (SameAnswer hex hex') x y) (s : Locals) :
    Both (Answers hex hex') x (s.attempt y >>= fun result => pure (s.sent ++ [.done result])) := by
  cases h with
  | ok hr => exact .ok ⟨s.sent, _, rfl, hr⟩
  | error => exact .error

/-- A finish reason that is neither absent nor `STOP` is not plain. -/
theorem isStr_of_plain {reason : Json} (ht : reason.truthy = true) (hp : plainReason reason = true) :
    reason.isStr "STOP".toList = true := by
  cases reason with
  | null => cases ht
  | str t => exact hp
  | bool b => cases hp
  | int n => cases hp
  | float x => cases hp
  | arr items => cases hp
  | obj fields => cases hp

/-- What `stream` makes of them, once the lines are through. -/
theorem finish_alike {hex hex' : Nat → Text} {body : Slice} {p : Parsed} {s : Locals}
    (h : Alike hex hex' p s.parsed) (hn : Noted body s.notes)
    (hreason : (body.candidate.get "finishReason").truthy = true)
    (htells : (body.candidate.get "finishReason").isStr "STOP".toList = true → p.tells) :
    Both (Answers hex hex') (answered E q body p) (finish E q s) := by
  have hfinished : s.finished = true := hn.finished.trans hreason
  have hraw : s.finishRaw = body.candidate.get "finishReason" := hn.reason hreason
  have hnote : refusalNote E body.candidate = refusalNote E s.lastCandidate :=
    refusalNote_congr hn.lastReason.symm hn.lastMessage.symm
  have husage : usageOf (body.event.get "usageMetadata") = usageOf s.usageRaw := hn.usage.symm
  have hcalled : decide (p.calls ≠ []) = decide (s.parsed.calls ≠ []) :=
    decide_eq_decide.mpr (not_congr (nil_iff h))
  have hsaid : ¬ (p.text = [] ∧ p.calls = [] ∧ p.reasoning = [] ∧
      plainReason (body.candidate.get "finishReason") = true) :=
    fun ⟨htext, hcalls, hreasoning, hplain⟩ => htells (isStr_of_plain hreason hplain) ⟨htext, hcalls, hreasoning⟩
  rw [answered, if_neg hsaid, finish, if_neg (not_not_intro hfinished), hraw, hcalled]
  cases finishOf E (body.candidate.get "finishReason") (decide (s.parsed.calls ≠ [])) with
  | error f => exact .error
  | ok reason =>
      have hresult := resultOf_alike (q := q) h hnote reason husage
      show Both _ (resultOf E q p body.candidate reason (body.event.get "usageMetadata"))
        (Locals.attempt (if reason = .contentFilter ∧ s.parsed.text = [] ∧ s.parsed.calls = [] then
          s.send (.text (refusalNote E s.lastCandidate) none) else s) _ >>= _)
      split
      · exact attempt_last hresult (s.send (.text (refusalNote E s.lastCandidate) none))
      · exact attempt_last hresult s

/-- **A candidate is answered alike on both paths**, when it has a finish
reason and, if that is `STOP`, something in front of it.  Without a finish
reason no stream is answered. -/
theorem paths_agree {body last : Slice} {front : List Slice} {arrivals : List Arrival}
    (h : InChunks E q body front last arrivals) (U : Ucd) (dumps : Json → Text) (hex hex' : Nat → Text) :
    ((body.candidate.get "finishReason").truthy = true →
      ((body.candidate.get "finishReason").isStr "STOP".toList = true →
        ∀ p, readParts E dumps hex (.arr body.parts) = .ok p → p.tells) →
      Both (Answers hex hex') (generate E dumps q hex (.value (.obj body.event)))
        (stream E U dumps q hex' arrivals)) ∧
    ((body.candidate.get "finishReason").truthy = false →
      ∃ raised, stream E U dumps q hex' arrivals = .error raised) := by
  have hparsed := parsed_alike dumps hex hex' h
  rw [generate_slice, stream]
  generalize hread : readParts E dumps hex (.arr body.parts) = parsed at hparsed ⊢
  generalize readLines E dumps q hex' (opened q) arrivals = read at hparsed ⊢
  cases hparsed with
  | error => exact ⟨fun _ _ => .error, fun _ => ⟨_, rfl⟩⟩
  | ok hps =>
      rename_i p s
      refine ⟨fun hreason htells => ?_, fun hreason => ?_⟩
      · exact finish_alike hps.1 hps.2 hreason fun hstop => htells hstop p rfl
      · have hfinished : s.finished = false := hps.2.finished.trans hreason
        show ∃ raised, finish E q s = .error raised
        rw [finish, if_pos (by rw [hfinished]; exact Bool.false_ne_true)]
        exact ⟨_, rfl⟩

/-! ## Two documents -/

theorem get_head (key : String) (v : Json) (rest : Obj) : Obj.get ((key.toList, v) :: rest) key = v := by
  simp [Obj.get, Obj.item?]

theorem partsOf_head (parts : List Json) (rest : Obj) :
    partsOf (("content".toList, .ofFields [("parts", .arr parts)]) :: rest) = .ok (.arr parts) := by
  rw [partsOf, get_head]
  show Except.ok (Obj.get [("parts".toList, .arr parts)] "parts") = _
  rw [get_head]

/-- A document with one candidate, of these parts. -/
def Slice.of (parts : List Json) (ends : Obj) : Slice where
  event := [("candidates".toList, .arr [.obj (("content".toList, .ofFields [("parts", .arr parts)]) :: ends)])]
  candidate := ("content".toList, .ofFields [("parts", .arr parts)]) :: ends
  parts := parts
  first := ⟨[], rfl⟩
  shown := by
    rw [partsIn, partsOf_head]

def textPart (text : String) : Json := .ofFields [("text", .ofString text)]

def stopped : Obj := [("finishReason".toList, .ofString "STOP")]

theorem ofTable_loads (documents : List (Text × Json)) (text : Text) :
    (Env.ofTable documents).loads text ≠ .escapes := by
  intro h
  simp only [Env.ofTable] at h
  split at h
  · cases h
  · split at h
    · cases h
    · cases h

/-- Nothing is reported, and there is no stall clock. -/
def quiet : Setup := ⟨[], false, 0, id, false⟩

theorem inTime_arrivals (documents : List (Text × Json)) :
    InTime (.ofTable documents) quiet (Env.arrivals documents) := by
  intro a ha
  obtain ⟨d, -, rfl⟩ := List.mem_map.mp ha
  refine ⟨0, 0, _, rfl, fun _ => le_refl 0, fun h => ?_⟩
  obtain ⟨data, -, hd⟩ := Option.map_eq_some_iff.mp h
  exact ofTable_loads documents data hd

/-- `Hi`, in two chunks. -/
def twoChunks : List (Text × Json) :=
  [("\x7b\"candidates\":[\x7b\"content\":\x7b\"parts\":[\x7b\"text\":\"H\"\x7d]\x7d\x7d]\x7d".toList,
    .obj (Slice.of [textPart "H"] []).event),
   ("\x7b\"candidates\":[\x7b\"content\":\x7b\"parts\":[\x7b\"text\":\"i\"\x7d]\x7d,\"finishReason\":\"STOP\"\x7d]\x7d".toList,
    .obj (Slice.of [textPart "i"] stopped).event)]

theorem whole_inChunks : InChunks (.ofTable twoChunks) quiet (.of [textPart "H", textPart "i"] stopped)
    [.of [textPart "H"] []] (.of [textPart "i"] stopped) (Env.arrivals twoChunks) where
  inTime := inTime_arrivals twoChunks
  events := rfl
  noError := fun x hx => by
    rcases List.mem_cons.mp hx with rfl | hx
    · rfl
    · rw [List.mem_singleton.mp hx]
      rfl
  parts := rfl
  unfinished := fun x hx => by
    rw [List.mem_singleton.mp hx]
    rfl
  reason := rfl
  message := rfl
  usage := rfl
  uncounted := Or.inr fun x hx => by
    rw [List.mem_singleton.mp hx]
    rfl

theorem paths_agree_two :
    Both (Answers (fun _ => []) (fun _ => []))
      (generate (.ofTable twoChunks) (fun _ => []) quiet (fun _ => [])
        (.value (.obj (Slice.of [textPart "H", textPart "i"] stopped).event)))
      (stream (.ofTable twoChunks) Ucd.basic (fun _ => []) quiet (fun _ => []) (Env.arrivals twoChunks)) := by
  refine (paths_agree whole_inChunks Ucd.basic (fun _ => []) (fun _ => []) (fun _ => [])).1 rfl fun _ p hp => ?_
  cases hp
  exact fun h => (by cases h.1)

/-! ## A candidate without a reason -/

/-- `Hi`, and no end. -/
def cutOff : List (Text × Json) :=
  [("\x7b\"candidates\":[\x7b\"content\":\x7b\"parts\":[\x7b\"text\":\"Hi\"\x7d]\x7d\x7d]\x7d".toList,
    .obj (Slice.of [textPart "Hi"] []).event)]

/-- Without a finish reason, `generate` takes the text for the answer and
`stream` takes it for half of one. -/
theorem cutOff_disagrees : InChunks (.ofTable cutOff) quiet (.of [textPart "Hi"] []) [] (.of [textPart "Hi"] []) (Env.arrivals cutOff) ∧
    ¬ Both (Answers (fun _ => []) (fun _ => []))
      (generate (.ofTable cutOff) (fun _ => []) quiet (fun _ => [])
        (.value (.obj (Slice.of [textPart "Hi"] []).event)))
      (stream (.ofTable cutOff) Ucd.basic (fun _ => []) quiet (fun _ => []) (Env.arrivals cutOff)) := by
  refine ⟨⟨inTime_arrivals cutOff, rfl, fun x hx => ?_, rfl, fun x hx => (by cases hx), rfl, rfl, rfl,
    Or.inr fun x hx => (by cases hx)⟩, fun h => ?_⟩
  · rw [List.mem_singleton.mp hx]
    rfl
  · have hunlike : (generate (.ofTable cutOff) (fun _ => []) quiet (fun _ => [])
        (.value (.obj (Slice.of [textPart "Hi"] []).event))).isOk ≠
        (stream (.ofTable cutOff) Ucd.basic (fun _ => []) quiet (fun _ => []) (Env.arrivals cutOff)).isOk := by
      decide
    exact hunlike h.isOk_eq

end InferenceDriver.Gemini

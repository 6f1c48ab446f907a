/-
# `Gemini.Turns` — what Google is told of a conversation

`contents_from` keeps track as it goes: of the names it has seen, of what
the cache says now, of the turn that is open.  What comes of it can be said
of the history alone (`contents_replay`): the parts of the turns are what
the messages come to, one message after the other (`Replays`), a result
under the name of the latest call of its id; the turns alternate; and what
the system said is in the instruction, or in front.

The cache is asked as the loop comes by, and forgets what has expired when
it is asked.  The clock does not go back, so what it answers is what it
would have answered if nothing had been asked before (`recall_recall`).
-/
import InferenceDriver.Gemini.Replay
import Mathlib.Order.Monotone.Defs

namespace InferenceDriver.Gemini

open Checks OpenAi

namespace Replay

variable {E : Env} {repr : Json → Text} {clock : Nat → ℚ}

/-! ## Contents -/

/-- A part of a content, and what Google takes it as. -/
inductive Carried : Json → Obj → Prop where
  | text {part : Obj} : part.get "type" = .ofString "text" → Carried (.obj part) (textPart (getText part "text"))
  | image {part image : Obj} {mime data : Text} : part.get "type" = .ofString "image_url" →
      part.item? "image_url" = some (.obj image) →
      image.item? "url" = some (.str ("data:".toList ++ mime ++ ";base64,".toList ++ data)) →
      Carried (.obj part) (inlinePart (.str mime) (.str data))
  | audio {part audio : Obj} {data : Json} : part.get "type" = .ofString "input_audio" →
      part.item? "input_audio" = some (.obj audio) → audio.item? "data" = some data →
      Carried (.obj part) (inlinePart
        (.ofString (if (audio.get "format").isStr "wav".toList then "audio/wav" else "audio/mp3")) data)
  | file {part file : Obj} {mime data : Text} : part.get "type" = .ofString "file" →
      part.item? "file" = some (.obj file) →
      file.item? "file_data" = some (.str ("data:".toList ++ mime ++ ";base64,".toList ++ data)) →
      Carried (.obj part) (inlinePart (.str mime) (.str data))

/-- A content, and the parts it comes to. -/
inductive Said : Json → List Obj → Prop where
  | null : Said .null []
  | empty : Said (.str []) []
  | text {text : Text} : text ≠ [] → Said (.str text) [textPart (.str text)]
  | parts {items : List Json} {parts : List Obj} : List.Forall₂ Carried items parts → Said (.arr items) parts

theorem removesuffix_append (text ending : Text) : removesuffix ending (text ++ ending) = text := by
  rw [removesuffix, if_pos (List.isSuffixOf_iff_suffix.mpr (List.suffix_append _ _)), List.length_append,
    Nat.add_sub_cancel, List.take_left]

/-- What stands between two words, of which one does not begin in the other. -/
theorem eq_between {first last text : Text} (hfirst : first <+: text) (hlast : last <:+ text)
    (hapart : ∀ c, last.head? = some c → c ∉ first) : text = first ++ removesuffix last (text.drop first.length) ++ last := by
  obtain ⟨rest, rfl⟩ := hfirst
  rw [List.drop_left]
  have hsuffix : last <:+ rest := by
    rcases List.suffix_or_suffix_of_suffix hlast (List.suffix_append first rest) with h | ⟨u, hu⟩
    · exact h
    · cases u with
      | nil => exact hu ▸ List.suffix_refl _
      | cons c u =>
          obtain ⟨v, hv⟩ := hlast
          rw [← hu, ← List.append_assoc] at hv
          have hmem : c ∈ first := List.append_cancel_right hv ▸ List.mem_append_right v List.mem_cons_self
          exact absurd hmem (hapart c (hu ▸ rfl))
  obtain ⟨mid, rfl⟩ := hsuffix
  rw [removesuffix_append, List.append_assoc]

theorem dataUrl_eq_ok {url field mime data : Text} (h : dataUrl url field = .ok (mime, data)) :
    url = "data:".toList ++ mime ++ ";base64,".toList ++ data := by
  rw [dataUrl] at h
  split at h
  · cases h
  · rename_i data' hdata
    split at h
    · rename_i hheader
      cases h
      have heq := eq_between (List.isPrefixOf_iff_prefix.mp hheader.1) (List.isSuffixOf_iff_suffix.mp hheader.2)
        fun c hc => Option.some.inj hc ▸ by decide
      have hword : ";base64,".toList = ";base64".toList ++ [','] := rfl
      refine (eq_of_partition hdata).trans ?_
      rw [hword, ← List.append_assoc, List.append_assoc _ [','] data]
      exact congrArg (· ++ ',' :: data) heq
    · cases h

theorem asDict_eq_ok {v : Json} {o : Obj} (h : asDict v = .ok o) : v = .obj o := by
  cases v with
  | obj fields => exact congrArg Json.obj (Except.ok.inj h)
  | _ => cases h

theorem dictOrEmpty_eq_ok {v : Json} {o : Obj} (h : dictOrEmpty v = .ok o) : o = dictOf v := by
  rw [dictOrEmpty] at h
  split at h
  · rw [asDict_eq_ok h]
    rfl
  · rename_i hfalsy
    cases h
    cases v with
    | obj fields =>
        cases fields with
        | nil => rfl
        | cons f fs => exact absurd rfl hfalsy
    | _ => rfl

theorem asText_eq_ok {v : Json} {text : Text} (h : asText v = .ok text) : v = .str text := by
  cases v with
  | str t => exact congrArg Json.str (Except.ok.inj h)
  | _ => cases h

theorem carried_urlPart {place : Text} {part p : Obj} {outer inner : String}
    (h : urlPart place part outer inner = .ok p) :
    ∃ (o : Obj) (mime data : Text), part.item? outer = some (.obj o) ∧
      o.item? inner = some (.str ("data:".toList ++ mime ++ ";base64,".toList ++ data)) ∧
      p = inlinePart (.str mime) (.str data) := by
  simp only [urlPart, item, bind_eq_ok, pure_eq_ok, require_eq_ok] at h
  obtain ⟨v, hv, o, ho, w, hw, url, hurl, ⟨mime, data⟩, hdata, rfl⟩ := h
  rw [asDict_eq_ok ho] at hv
  rw [asText_eq_ok hurl, dataUrl_eq_ok hdata] at hw
  exact ⟨o, mime, data, hv, hw, rfl⟩

theorem carried_partOf {place : Text} {part : Json} {p : Obj} (h : partOf repr place part = .ok p) :
    Carried part p := by
  simp only [partOf, bind_eq_ok] at h
  obtain ⟨o, hpart, h⟩ := h
  rw [asDict_eq_ok hpart]
  split at h
  · rename_i hkind
    cases h
    exact .text (Json.isStr_iff.mp hkind)
  · split at h
    · rename_i hkind
      obtain ⟨image, mime, data, himage, hurl, rfl⟩ := carried_urlPart h
      exact .image (Json.isStr_iff.mp hkind) himage hurl
    · split at h
      · rename_i hkind
        simp only [audioPart, item, bind_eq_ok, pure_eq_ok, require_eq_ok] at h
        obtain ⟨v, hv, audio, haudio, data, hdata, rfl⟩ := h
        rw [asDict_eq_ok haudio] at hv
        exact .audio (Json.isStr_iff.mp hkind) hv hdata
      · split at h
        · rename_i hkind
          obtain ⟨file, mime, data, hfile, hurl, rfl⟩ := carried_urlPart h
          exact .file (Json.isStr_iff.mp hkind) hfile hurl
        · cases h

theorem carried_partsFrom {field : Text} {index : Nat} {items : List Json} {parts : List Obj}
    (h : partsFrom repr field index items = .ok parts) : List.Forall₂ Carried items parts := by
  induction items generalizing index parts with
  | nil =>
      cases h
      exact .nil
  | cons item items ih =>
      simp only [partsFrom, bind_eq_ok, pure_eq_ok] at h
      obtain ⟨p, hp, ps, hps, rfl⟩ := h
      exact .cons (carried_partOf hp) (ih hps)

theorem said_partsOf {content : Json} {field : Text} {parts : List Obj}
    (h : partsOf repr content field = .ok parts) : Said content parts := by
  cases content with
  | null =>
      cases h
      exact .null
  | str text =>
      cases text with
      | nil =>
          cases h
          exact .empty
      | cons c cs =>
          cases h
          exact .text (List.cons_ne_nil c cs)
  | arr items => exact .parts (carried_partsFrom h)
  | bool b => cases h
  | int n => cases h
  | float x => cases h
  | obj fields => cases h

/-! ## Texts -/

/-- A text, where a value is one. -/
def textIn (v : Json) : Text :=
  match v with
  | .str text => text
  | _ => []

/-- The texts of a content, put together. -/
def wordsOf (content : Json) : Text :=
  match content with
  | .str text => text
  | .arr items => items.flatMap fun item => textIn (getText (dictOf item) "text")
  | _ => []

/-- A content without attachments. -/
def TextsOnly (content : Json) : Prop :=
  ∀ items, content = .arr items → ∀ item ∈ items, (dictOf item).get "type" = .ofString "text"

theorem get_textPart (text : Json) : getText (textPart text) "text" = text := rfl

theorem carried_text {item : Json} {p : Obj} (h : Carried item p) (htext : (dictOf item).get "type" = .ofString "text") :
    p = textPart (getText (dictOf item) "text") := by
  cases h with
  | text _ => rfl
  | image hkind => exact absurd (Json.str.inj (htext.symm.trans hkind)) (by decide)
  | audio hkind => exact absurd (Json.str.inj (htext.symm.trans hkind)) (by decide)
  | file hkind => exact absurd (Json.str.inj (htext.symm.trans hkind)) (by decide)

theorem textsOf_carried {items : List Json} {parts : List Obj} {text : Text}
    (h : List.Forall₂ Carried items parts) (htexts : ∀ item ∈ items, (dictOf item).get "type" = .ofString "text")
    (hread : textsOf parts = .ok text) : text = items.flatMap fun item => textIn (getText (dictOf item) "text") := by
  induction h generalizing text with
  | nil =>
      cases hread
      rfl
  | cons hitem _ ih =>
      obtain ⟨hkind, htexts⟩ := List.forall_mem_cons.mp htexts
      simp only [textsOf, bind_eq_ok, pure_eq_ok] at hread
      obtain ⟨first, hfirst, rest, hrest, rfl⟩ := hread
      rw [carried_text hitem hkind, get_textPart] at hfirst
      rw [List.flatMap_cons, asText_eq_ok hfirst, ih htexts hrest]
      rfl

/-- A content without attachments is read as its texts. -/
theorem textsOf_said {content : Json} {parts : List Obj} {text : Text} (h : Said content parts)
    (htexts : TextsOnly content) (hread : textsOf parts = .ok text) : text = wordsOf content := by
  cases h with
  | null =>
      cases hread
      rfl
  | empty =>
      cases hread
      rfl
  | text _ =>
      cases hread
      exact List.append_nil _
  | parts hparts => exact textsOf_carried hparts (htexts _ rfl) hread

/-! ## The calls before -/

/-- The id and the name of a call. -/
def callOf (E : Env) (call : Obj) : Text × Text :=
  (E.orEmpty (call.get "id"), E.orEmpty ((dictOf (call.get "function")).get "name"))

/-- The calls of a message. -/
def callsOf (E : Env) (message : Message) : List (Text × Text) :=
  match message.role with
  | .assistant => message.toolCalls.map (callOf E)
  | _ => []

/-- The name of the latest call of an id. -/
def latest (made : List (Text × Text)) (callId : Text) : Option Text :=
  (made.reverse.find? fun call => call.1 = callId).map (·.2)

/-- How often the cache is asked for a message. -/
def asks (message : Message) : Nat :=
  match message.role with
  | .assistant => message.toolCalls.length
  | .tool => 1
  | _ => 0

variable (clock) in
/-- What the cache holds of a call when it is asked for the `n`-th time. -/
def recalled (cache : SignatureCache) (n : Nat) (callId : Text) : Option RememberedCall :=
  (cache.recallCall (clock n) callId).1

/-- The function a result answers: that of the latest call of its id, or of
the call that is remembered. -/
def answers (made : List (Text × Text)) (callId : Text) (known : Option RememberedCall) : Text :=
  match latest made callId with
  | some (c :: cs) => c :: cs
  | _ => (known.map (·.name)).getD []

def resultPart (callId name : Text) (response : Json) (known : Option RememberedCall) : Obj :=
  [("functionResponse".toList,
    .obj (("name".toList, .str name) :: ("response".toList, response) :: sentId callId known))]

/-! ## What the messages come to -/

section

variable (E repr clock) (cache : SignatureCache)

/-- Calls, the first of them the `n`-th to be looked up, and their parts. -/
inductive Called : Nat → List Obj → List Obj → Prop where
  | nil {n : Nat} : Called n [] []
  | cons {n : Nat} {call args : Obj} {calls parts : List Obj} :
      argsOf E repr (callOf E call).1 ((dictOf (call.get "function")).get "arguments") = .ok args →
      Called (n + 1) calls parts →
      Called n (call :: calls)
        (callPart (callOf E call).1 (callOf E call).2 args (recalled clock cache n (callOf E call).1) :: parts)

/-- What a message comes to, after others. -/
inductive Comes (before : List Message) (message : Message) : List (Side × Obj) → Prop where
  | system : message.role = .system → Comes before message []
  | user {parts : List Obj} : message.role = .user → Said message.content parts →
      Comes before message (parts.map fun part => (.user, part))
  | assistant {parts calls : List Obj} : message.role = .assistant → Said message.content parts →
      Called E repr clock cache (before.map asks).sum message.toolCalls calls →
      Comes before message ((parts ++ calls).map fun part => (.model, part))
  | tool {callId : Text} {known : Option RememberedCall} {response : Json} : message.role = .tool →
      callId = message.toolCallId.getD [] → known = recalled clock cache (before.map asks).sum callId →
      answers (before.flatMap (callsOf E)) callId known ≠ [] →
      responseOf E (wordsOf message.content) = .ok response →
      Comes before message
        [(.user, resultPart callId (answers (before.flatMap (callsOf E)) callId known) response known)]

/-- What messages come to, after others: what the first does, then the rest. -/
inductive Replays : List Message → List Message → List (Side × Obj) → Prop where
  | nil {before : List Message} : Replays before [] []
  | cons {before rest : List Message} {message : Message} {parts more : List (Side × Obj)} :
      Comes E repr clock cache before message parts → Replays (before ++ [message]) rest more →
      Replays before (message :: rest) (parts ++ more)

end

/-- What the system says. -/
def systemTexts (messages : List Message) : List Text :=
  (messages.filter fun message => message.role = .system ∧ wordsOf message.content ≠ []).map (wordsOf ·.content)

/-- The turns alternate, and none is empty. -/
structure Alternate (contents : List Content) : Prop where
  sides : contents.IsChain fun turn next => turn.role ≠ next.role
  parts : ∀ turn ∈ contents, turn.parts ≠ []

/-! ## The loop -/

theorem alternate_nil : Alternate [] := ⟨.nil, fun _ h => by cases h⟩

/-- Parts are added. -/
theorem alternate_add {s : Locals} (h : Alternate s.contents) (role : Side) (parts : List Obj) :
    Alternate (s.add role parts).contents := by
  rw [Locals.add]
  split
  · exact h
  · rename_i hne
    split
    · refine ⟨.singleton _, fun turn hturn => ?_⟩
      rw [List.mem_singleton.mp hturn]
      exact hne
    · rename_i last hlast
      obtain ⟨front, hfront⟩ := List.getLast?_eq_some_iff.mp hlast
      rw [hfront] at h ⊢
      obtain ⟨hchain, -, hends⟩ := List.isChain_append.mp h.sides
      split
      · rename_i hrole
        rw [List.dropLast_concat]
        refine ⟨List.isChain_append.mpr ⟨hchain, .singleton _, fun turn hturn next hnext => ?_⟩, fun turn hturn => ?_⟩
        · cases hnext
          exact hrole ▸ hends turn hturn last rfl
        · rcases List.mem_append.mp hturn with hturn | hturn
          · exact h.parts turn (List.mem_append_left _ hturn)
          · rw [List.mem_singleton.mp hturn]
            exact List.append_ne_nil_of_right_ne_nil _ hne
      · rename_i hrole
        refine ⟨List.isChain_append.mpr ⟨h.sides, .singleton _, fun turn hturn next hnext => ?_⟩, fun turn hturn => ?_⟩
        · cases hnext
          rw [List.getLast?_concat] at hturn
          cases hturn
          exact hrole
        · rcases List.mem_append.mp hturn with hturn | hturn
          · exact h.parts turn hturn
          · rw [List.mem_singleton.mp hturn]
            exact hne

/-- All but the turns stays. -/
theorem add_frame (s : Locals) (role : Side) (parts : List Obj) :
    s.add role parts = { s with contents := (s.add role parts).contents } := by
  rw [Locals.add]
  split
  · rfl
  · split
    · rfl
    · split
      · rfl
      · rfl

theorem latest_concat (made : List (Text × Text)) (callId name : Text) (id : Text) :
    latest (made ++ [(callId, name)]) id = if id = callId then some name else latest made id := by
  rw [latest, List.reverse_append, List.reverse_singleton, List.singleton_append]
  split
  · rename_i hid
    rw [List.find?_cons, decide_eq_true hid.symm]
    rfl
  · rename_i hid
    rw [List.find?_cons, decide_eq_false fun h => hid h.symm]
    rfl

variable {cache : SignatureCache} {made : List (Text × Text)} {s s' : Locals}

variable (clock cache) in
/-- The state knows the names of the calls made, and the cache what it knew. -/
structure Tracks (made : List (Text × Text)) (s : Locals) : Prop where
  names : ∀ id, s.names.get? id = latest made id
  cache : ∀ n, s.recalls ≤ n → ∀ id, (s.cache.recallCall (clock n) id).1 = recalled clock cache n id

theorem Tracks.known (h : Tracks clock cache made s) (callId : Text) :
    s.known clock callId = recalled clock cache s.recalls callId := h.cache _ le_rfl callId

theorem Tracks.answers (h : Tracks clock cache made s) (callId : Text) (known : Option RememberedCall) :
    answeredName s callId known = answers made callId known := by
  rw [answeredName, h.names]
  rfl

/-- The cache is asked. -/
theorem Tracks.asked (hclock : Monotone clock) (h : Tracks clock cache made s) (callId : Text) :
    Tracks clock cache made (s.asked clock callId) where
  names := h.names
  cache n hn id := by
    have hn : s.recalls + 1 ≤ n := hn
    exact (s.cache.recall_recall (hclock (by omega)) callId id).trans (h.cache n (by omega) id)

/-- The calls of a message. -/
theorem onCalls_called (hclock : Monotone clock) {calls parts : List Obj} {s' : Locals × List Obj}
    (h : Tracks clock cache made s) (hrun : calls.foldlM (onCall E repr clock) (s, parts) = .ok s') :
    ∃ more, Called E repr clock cache s.recalls calls more ∧ s'.2 = parts ++ more ∧
      Tracks clock cache (made ++ calls.map (callOf E)) s'.1 ∧ s'.1.recalls = s.recalls + calls.length ∧
      s'.1.contents = s.contents ∧ s'.1.system = s.system := by
  induction calls generalizing s parts made with
  | nil =>
      cases hrun
      exact ⟨[], .nil, (List.append_nil _).symm, by rwa [List.map_nil, List.append_nil], rfl, rfl, rfl⟩
  | cons call calls ih =>
      rw [List.foldlM_cons, bind_eq_ok] at hrun
      obtain ⟨s₁, hcall, hrun⟩ := hrun
      simp only [onCall, bind_eq_ok, pure_eq_ok] at hcall
      obtain ⟨function, hfunction, args, hargs, rfl⟩ := hcall
      rw [dictOrEmpty_eq_ok hfunction] at hargs hrun
      have hnext : Tracks clock cache (made ++ [callOf E call])
          { s.asked clock (callOf E call).1 with
            names := s.names.set (callOf E call).1 (callOf E call).2
            unsigned := s.unsigned || !((s.known clock (callOf E call).1).bind (·.signature)).isSome } := by
        refine ⟨fun id => ?_, (h.asked hclock _).cache⟩
        rw [callOf, latest_concat]
        split
        · rename_i hid
          rw [hid]
          exact Dict.get?_set_self _ _ _
        · rename_i hid
          exact (Dict.get?_set_ne _ _ hid).trans (h.names id)
      obtain ⟨more, hmore, hparts, htracks, hrecalls, hcontents, hsystem⟩ := ih hnext hrun
      refine ⟨_, .cons hargs hmore, ?_, ?_, ?_, hcontents, hsystem⟩
      · rw [hparts, ← h.known, List.append_assoc]
        rfl
      · rwa [List.append_assoc] at htracks
      · rw [hrecalls, List.length_cons]
        exact Nat.add_right_comm _ _ _

variable (E clock cache) in
/-- Where the loop is after messages that came to these parts. -/
structure Follows (before : List Message) (parts : List (Side × Obj)) (s : Locals) : Prop where
  tracks : Tracks clock cache (before.flatMap (callsOf E)) s
  recalls : s.recalls = (before.map asks).sum
  sided : sided s.contents = parts
  alternate : Alternate s.contents
  system : s.system = systemTexts before

variable {before : List Message} {said : List (Side × Obj)} {message : Message}

theorem systemTexts_concat_ne (h : message.role ≠ .system) :
    systemTexts (before ++ [message]) = systemTexts before := by
  rw [systemTexts, List.filter_append, List.filter_cons_of_neg (by simp [h]), List.filter_nil, List.append_nil]
  rfl

theorem callsOf_ne (h : message.role ≠ .assistant) : callsOf E message = [] := by
  rw [callsOf]
  split
  · rename_i hrole
    exact absurd hrole h
  · rfl

/-- A message that is no call leaves the calls as they are. -/
theorem flatMap_callsOf (h : message.role ≠ .assistant) :
    (before ++ [message]).flatMap (callsOf E) = before.flatMap (callsOf E) := by
  rw [List.flatMap_append, List.flatMap_singleton, callsOf_ne h, List.append_nil]

theorem sum_asks (before : List Message) (message : Message) :
    ((before ++ [message]).map asks).sum = (before.map asks).sum + asks message := by
  rw [List.map_append, List.sum_append, List.map_singleton, List.sum_singleton]

theorem systemTexts_concat (h : message.role = .system) : systemTexts (before ++ [message]) =
    if wordsOf message.content = [] then systemTexts before
    else systemTexts before ++ [wordsOf message.content] := by
  rw [systemTexts, List.filter_append]
  split
  · rename_i hnil
    rw [List.filter_cons_of_neg (by simp [hnil]), List.filter_nil, List.append_nil]
    rfl
  · rename_i hne
    rw [List.filter_cons_of_pos (by simp [h, hne]), List.filter_nil, List.map_append, List.map_singleton]
    rfl

/-- The system has said something, or nothing. -/
theorem Follows.system_said (h : Follows E clock cache before said s) (hrole : message.role = .system) :
    Follows E clock cache (before ++ [message]) said
      (if wordsOf message.content = [] then s else { s with system := s.system ++ [wordsOf message.content] }) := by
  have htracks : Tracks clock cache ((before ++ [message]).flatMap (callsOf E)) s := by
    rw [flatMap_callsOf (by rw [hrole]; decide)]
    exact h.tracks
  have hrecalls : s.recalls = ((before ++ [message]).map asks).sum := by
    rw [sum_asks, asks, hrole]
    exact h.recalls
  have hsystem : systemTexts (before ++ [message]) = _ := systemTexts_concat hrole
  split
  · rename_i hnil
    rw [if_pos hnil] at hsystem
    exact ⟨htracks, hrecalls, h.sided, h.alternate, h.system.trans hsystem.symm⟩
  · rename_i hne
    rw [if_neg hne] at hsystem
    refine ⟨⟨htracks.names, htracks.cache⟩, hrecalls, h.sided, h.alternate, ?_⟩
    rw [hsystem, ← h.system]

/-- Parts are added, of a message that is no call and no system message. -/
theorem Follows.add {s₁ : Locals} (h : Follows E clock cache before said s)
    (htracks : Tracks clock cache ((before ++ [message]).flatMap (callsOf E)) s₁)
    (hrecalls : s₁.recalls = s.recalls + asks message) (hcontents : s₁.contents = s.contents)
    (hsystem : s₁.system = s.system) (hrole : message.role ≠ .system) (role : Side) (parts : List Obj) :
    Follows E clock cache (before ++ [message]) (said ++ parts.map fun part => (role, part)) (s₁.add role parts) where
  tracks := by
    rw [add_frame]
    exact ⟨htracks.names, htracks.cache⟩
  recalls := by
    rw [add_frame, sum_asks, ← h.recalls]
    exact hrecalls
  sided := by rw [sided_add, hcontents, h.sided]
  alternate := alternate_add (hcontents ▸ h.alternate) role parts
  system := by
    rw [add_frame, systemTexts_concat_ne hrole, ← h.system]
    exact hsystem

/-- One message. -/
theorem Follows.next (hclock : Monotone clock) (h : Follows E clock cache before said s)
    (htexts : message.role = .system ∨ message.role = .tool → TextsOnly message.content) {index : Nat}
    (hrun : onMessage E repr clock s index message = .ok s') :
    ∃ parts, Comes E repr clock cache before message parts ∧
      Follows E clock cache (before ++ [message]) (said ++ parts) s' := by
  rw [onMessage] at hrun
  cases hrole : message.role with
  | system =>
      rw [hrole] at hrun
      simp only [bind_eq_ok, pure_eq_ok] at hrun
      obtain ⟨parts, hparts, text, htext, rfl⟩ := hrun
      rw [textsOf_said (said_partsOf hparts) (htexts (Or.inl hrole)) htext]
      refine ⟨[], .system hrole, ?_⟩
      rw [List.append_nil]
      exact h.system_said hrole
  | user =>
      rw [hrole] at hrun
      simp only [bind_eq_ok, pure_eq_ok] at hrun
      obtain ⟨parts, hparts, rfl⟩ := hrun
      refine ⟨_, .user hrole (said_partsOf hparts), h.add ?_ ?_ rfl rfl ?_ .user parts⟩
      · rw [flatMap_callsOf (by rw [hrole]; decide)]
        exact h.tracks
      · rw [asks, hrole]
        rfl
      · rw [hrole]
        decide
  | assistant =>
      rw [hrole] at hrun
      simp only [bind_eq_ok, pure_eq_ok] at hrun
      obtain ⟨parts, hparts, ⟨s₁, more⟩, hcalls, rfl⟩ := hrun
      obtain ⟨calls, hcalled, rfl, htracks, hrecalls, hcontents, hsystem⟩ := onCalls_called hclock h.tracks hcalls
      rw [h.recalls] at hcalled
      refine ⟨_, .assistant hrole (said_partsOf hparts) hcalled, h.add ?_ ?_ hcontents hsystem ?_ .model _⟩
      · rw [List.flatMap_append, List.flatMap_singleton, callsOf, hrole]
        exact htracks
      · rw [asks, hrole]
        exact hrecalls
      · rw [hrole]
        decide
  | tool =>
      rw [hrole] at hrun
      simp only [onTool] at hrun
      split at hrun
      · cases hrun
      · rename_i hname
        simp only [bind_eq_ok, pure_eq_ok] at hrun
        obtain ⟨parts, hparts, text, htext, response, hresponse, rfl⟩ := hrun
        rw [textsOf_said (said_partsOf hparts) (htexts (Or.inr hrole)) htext] at hresponse
        rw [h.tracks.known, h.tracks.answers, h.recalls] at hname ⊢
        refine ⟨_, .tool hrole rfl rfl hname hresponse, h.add ?_ ?_ ?_ ?_ ?_ .user [_]⟩
        · rw [flatMap_callsOf (by rw [hrole]; decide)]
          exact h.tracks.asked hclock _
        · rw [asks, hrole]
          rfl
        · rfl
        · rfl
        · rw [hrole]
          decide

/-- All of them. -/
theorem Follows.all (hclock : Monotone clock) {messages : List Message} (h : Follows E clock cache before said s)
    (htexts : ∀ m ∈ messages, m.role = .system ∨ m.role = .tool → TextsOnly m.content) {index : Nat}
    (hrun : onMessages E repr clock s index messages = .ok s') :
    ∃ parts, Replays E repr clock cache before messages parts ∧
      Follows E clock cache (before ++ messages) (said ++ parts) s' := by
  induction messages generalizing before said s index with
  | nil =>
      cases hrun
      exact ⟨[], .nil, by rwa [List.append_nil, List.append_nil]⟩
  | cons message rest ih =>
      obtain ⟨htext, htexts⟩ := List.forall_mem_cons.mp htexts
      rw [onMessages, bind_eq_ok] at hrun
      obtain ⟨s₁, hmessage, hrun⟩ := hrun
      obtain ⟨parts, hcomes, hnext⟩ := h.next hclock htext hmessage
      obtain ⟨more, hreplays, hall⟩ := ih hnext htexts hrun
      refine ⟨parts ++ more, .cons hcomes hreplays, ?_⟩
      rwa [List.append_assoc, List.append_assoc, List.singleton_append] at hall

theorem follows_start : Follows E clock cache [] [] { cache } where
  tracks := ⟨fun _ => rfl, fun _ _ _ => rfl⟩
  recalls := rfl
  sided := rfl
  alternate := alternate_nil
  system := rfl

/-! ## The end of it -/

/-- The texts of the system, as Google gets them. -/
def instructionOf (system : List Text) : Option Text :=
  if system = [] then none else some (List.intercalate "\n\n".toList system)

/-- A part in front: of the first turn, if that is the user's, and else as one. -/
def inFront (lead : Obj) : List Content → List Content
  | ⟨.user, parts⟩ :: rest => ⟨.user, lead :: parts⟩ :: rest
  | contents => ⟨.user, [lead]⟩ :: contents

/-- The same, with the instruction in front. -/
def Replayed.folded (r : Replayed) : Replayed :=
  match r.instruction with
  | none => r
  | some system =>
      { r with contents := inFront (textPart (.str (system ++ "\n\n".toList))) r.contents, instruction := none }

theorem sided_inFront (lead : Obj) (contents : List Content) :
    sided (inFront lead contents) = (.user, lead) :: sided contents := by
  cases contents with
  | nil => rfl
  | cons turn rest =>
      obtain ⟨role, parts⟩ := turn
      cases role with
      | user => rfl
      | model => rfl

theorem alternate_inFront {contents : List Content} (h : Alternate contents) (lead : Obj) :
    Alternate (inFront lead contents) := by
  cases contents with
  | nil => exact ⟨.singleton _, fun turn hturn => List.mem_singleton.mp hturn ▸ List.cons_ne_nil _ _⟩
  | cons turn rest =>
      obtain ⟨role, parts⟩ := turn
      obtain ⟨hsides, hparts⟩ := h
      obtain ⟨-, hrest⟩ := List.forall_mem_cons.mp hparts
      cases role with
      | user =>
          refine ⟨?_, List.forall_mem_cons.mpr ⟨List.cons_ne_nil _ _, hrest⟩⟩
          rw [List.isChain_cons] at hsides
          exact List.isChain_cons.mpr hsides
      | model =>
          exact ⟨.cons_cons nofun hsides, List.forall_mem_cons.mpr ⟨List.cons_ne_nil _ _, hparts⟩⟩

theorem alternate_folded {r : Replayed} (h : Alternate r.contents) : Alternate r.folded.contents := by
  rw [Replayed.folded]
  split
  · exact h
  · exact alternate_inFront h _

theorem finish_false (s : Locals) : finish false s = ⟨s.contents, instructionOf s.system, s.unsigned⟩ := rfl

/-- Folding comes last. -/
theorem finish_true (s : Locals) : finish true s = (finish false s).folded := by
  rw [finish_false, finish, instructionOf]
  rcases eq_or_ne s.system [] with hnil | hne
  · rw [if_neg fun h => h.2 hnil, if_pos hnil]
    rfl
  · rw [if_pos ⟨rfl, hne⟩, if_neg hne]
    rcases s.contents with _ | ⟨⟨_ | _, parts⟩, rest⟩
    · rfl
    · rfl
    · rfl

/-- **Google is told the history.** -/
theorem contents_replay (hclock : Monotone clock) {messages : List Message}
    (htexts : ∀ m ∈ messages, m.role = .system ∨ m.role = .tool → TextsOnly m.content) {fold_system : Bool}
    {replayed : Replayed} (h : contentsFrom E repr clock fold_system cache messages = .ok replayed) :
    ∃ r, contentsFrom E repr clock false cache messages = .ok r ∧ Alternate r.contents ∧
      Replays E repr clock cache [] messages (sided r.contents) ∧
      r.instruction = instructionOf (systemTexts messages) ∧
      contentsFrom E repr clock true cache messages = .ok r.folded ∧ Alternate r.folded.contents := by
  obtain ⟨s, hs, -⟩ := map_eq_ok.mp h
  obtain ⟨parts, hreplays, hfollows⟩ := follows_start.all hclock htexts hs
  refine ⟨finish false s, ?_, hfollows.alternate, ?_, ?_, ?_, alternate_folded hfollows.alternate⟩
  · rw [contentsFrom, hs]
    rfl
  · rw [finish_false, hfollows.sided]
    exact hreplays
  · rw [finish_false, hfollows.system]
    rfl
  · rw [contentsFrom, hs, ← finish_true]
    rfl

/-! ## A call without a name, and one that is forgotten -/

/-- A call of the client's, and its result. -/
def callAndResult (name : String) : List Message :=
  [⟨.assistant, .null, [[("id".toList, .ofString "c"), ("function".toList, .ofFields [("name", .ofString name)])]], none⟩,
    ⟨.tool, .ofString "no", [], some "c".toList⟩]

/-- The cache, once Google made the call `c` of `f` under its own id. -/
def madeByGoogle : SignatureCache := ({} : SignatureCache).remember 0 "c".toList ⟨"f".toList, none, true⟩

/-- The results among the parts. -/
def results (contents : List Content) : List Obj :=
  (sided contents).filterMap fun part => (part.2.item? "functionResponse").map dictOf

/-- There is one result, of this name, and with or without an id. -/
def oneResult (name : String) (withId : Bool) (r : Replayed) : Bool :=
  match results r.contents with
  | [response] => (response.get "name").isStr name.toList && (response.item? "id").isSome == withId
  | _ => false

/-- The latest call of the id has no name, and the result is under the name
of the call that is remembered; a day later the id Google gave is not sent. -/
theorem result_otherwise :
    (latest ((callAndResult "").flatMap (callsOf (.ofTable []))) "c".toList = some [] ∧
      ∃ r, contentsFrom (.ofTable []) (fun _ => []) (fun _ => 0) false madeByGoogle (callAndResult "") = .ok r ∧
        oneResult "f" true r = true) ∧
    ∃ r, contentsFrom (.ofTable []) (fun _ => []) (fun _ => 24 * 60 * 60) false madeByGoogle (callAndResult "f") = .ok r ∧
      oneResult "f" false r = true := by
  refine ⟨⟨rfl, passes_iff.mp ?_⟩, passes_iff.mp ?_⟩
  · decide +kernel
  · decide +kernel

/-- A conversation with a system message, a question, a call and its result. -/
theorem contents_replay_four : ∃ r, contentsFrom (.ofTable []) (fun _ => []) (fun _ => 0) false madeByGoogle
    (⟨.system, .ofString "Be brief.", [], none⟩ :: ⟨.user, .ofString "Is it on?", [], none⟩ :: callAndResult "f") = .ok r ∧
    Alternate r.contents ∧ r.instruction = some "Be brief.".toList := by
  obtain ⟨r, hr⟩ : ∃ r, contentsFrom (.ofTable []) (fun _ => []) (fun _ => 0) false madeByGoogle
      (⟨.system, .ofString "Be brief.", [], none⟩ :: ⟨.user, .ofString "Is it on?", [], none⟩ :: callAndResult "f") =
      .ok r := ⟨_, rfl⟩
  have htexts : ∀ text, TextsOnly (.ofString text) := fun text items h => by cases h
  obtain ⟨r', hr', halternate, -, hinstruction, -⟩ := contents_replay (fun _ _ _ => le_rfl) (by
    intro m hm _
    rcases List.mem_cons.mp hm with rfl | hm
    · exact htexts _
    · rcases List.mem_cons.mp hm with rfl | hm
      · exact htexts _
      · rcases List.mem_cons.mp hm with rfl | hm
        · intro items h
          cases h
        · rw [List.mem_singleton.mp hm]
          exact htexts _) hr
  exact ⟨r', hr', halternate, hinstruction⟩

end Replay

end InferenceDriver.Gemini

/-
# `Gemini.History` — a tool call, there and back

A call of an answer goes to a client as an OpenAI call, which has no room
for its signature, comes back with the next turn, and goes to Google again.
What it comes to there is the call Google made (`calls_survive`): name and
arguments went with the call, the signature and whether the id was Google's
stayed behind in the cache, under that id.

The client's side of it is a value that comes back as it was sent.  The
arguments go as a text, so what is used of `json.dumps` and `json.loads` is
that they are read back as they were written (`Survives`).
-/
import InferenceDriver.Gemini.Agree
import InferenceDriver.Gemini.Replay
import InferenceDriver.OpenAi.Calls

namespace InferenceDriver.Gemini

open Checks OpenAi SignatureCache

variable {E : Env} {repr : Json → Text} {dumps : Json → Text} {clock : Nat → ℚ}

/-! ## What Google made -/

/-- The `functionCall` of a part. -/
def functionCall (part : Obj) : Obj := dictOf (part.get "functionCall")

/-- A part that is a call. -/
def asCall (part : Json) : Option Obj :=
  match part with
  | .obj part => if ((functionCall part).get "name").truthy then some part else none
  | _ => none

/-- The calls among the parts. -/
def callsIn (parts : List Json) : List Obj := parts.filterMap asCall

/-- The arguments of a call; a call that has none has the empty ones. -/
def givenArgs (part : Obj) : Obj := dictOf ((functionCall part).get "args")

/-- A field that is missing, or a text with something in it. -/
def TextOrNone (E : Env) (v : Json) : Prop := v = .null ∨ ∃ text, text ≠ [] ∧ v = .str text ∧ E.holds text = true

/-- A call as Google's API has it. -/
structure Typed (E : Env) (part : Obj) : Prop where
  name : ∃ name, (functionCall part).get "name" = .str name ∧ E.holds name = true
  id : TextOrNone E ((functionCall part).get "id")
  signature : TextOrNone E (part.get "thoughtSignature")

/-- A value is read back from JSON as it was written, and was written in
characters any model takes. -/
structure Survives (E : Env) (dumps : Json → Text) (v : Json) : Prop where
  back : E.loads (dumps v) = .value v
  solid : strip (dumps v) ≠ []
  held : E.holds (dumps v) = true

/-- The same call: the same name, arguments and signature, and the same id,
if it had one. -/
structure SamePart (part part' : Obj) : Prop where
  name : (functionCall part').get "name" = (functionCall part).get "name"
  args : (functionCall part').get "args" = .obj (givenArgs part)
  signature : part'.get "thoughtSignature" = part.get "thoughtSignature"
  id : (functionCall part').get "id" = (functionCall part).get "id"

/-! ## What is read of it -/

/-- A call Google made, what was made of it, and what was kept back. -/
structure Made where
  part : Obj
  call : ToolCall
  kept : RememberedCall

def optional (text : Option Text) : Json :=
  match text with
  | some text => .str text
  | none => .null

structure Made.Right (dumps : Json → Text) (m : Made) : Prop where
  name : (functionCall m.part).get "name" = .str m.call.name
  arguments : m.call.arguments = dumps (.obj (givenArgs m.part))
  signature : m.part.get "thoughtSignature" = optional m.kept.signature
  id : (functionCall m.part).get "id" = if m.kept.googleId then .str m.call.id else .null

theorem optional_words {v : Json} (h : TextOrNone E v) : optional (words v) = v := by
  rcases h with rfl | ⟨text, hne, rfl, -⟩
  · rfl
  · cases text with
    | nil => exact absurd rfl hne
    | cons c cs => rfl

theorem written_args (v : Json) : (if isDict v then v else .obj []) = .obj (dictOf v) := by
  cases v with
  | obj fields => rfl
  | null => rfl
  | bool b => rfl
  | int n => rfl
  | float x => rfl
  | str t => rfl
  | arr items => rfl

/-- A call is read. -/
theorem call_made (hex : Nat → Text) (out : Parsed) {part : Obj} (htyped : Typed E part)
    (hargs : Survives E dumps (.obj (givenArgs part))) :
    ∃ m : Made, m.part = part ∧ m.Right dumps ∧ out.call E dumps hex part (functionCall part) =
      .ok { out with calls := out.calls ++ [m.call]
                     remembered := out.remembered ++ [(m.call.id, m.kept)] } := by
  obtain ⟨name, hname, hholds⟩ := htyped.name
  rw [Parsed.call]
  simp only [written_args, hname]
  rcases htyped.id with hid | ⟨id, hne, hid, hholdsId⟩
  · refine ⟨⟨part, ⟨newCallId (hex out.calls.length), name, dumps (.obj (givenArgs part))⟩,
      ⟨name, words (part.get "thoughtSignature"), false⟩⟩, rfl,
      ⟨hname, rfl, (optional_words htyped.signature).symm, hid⟩, ?_⟩
    rw [hid, toolCall, if_pos ⟨rfl, hholds, hargs.held⟩]
    rfl
  · have ht : (Json.str id).truthy = true := decide_eq_true hne
    refine ⟨⟨part, ⟨id, name, dumps (.obj (givenArgs part))⟩,
      ⟨name, words (part.get "thoughtSignature"), true⟩⟩, rfl,
      ⟨hname, rfl, (optional_words htyped.signature).symm, hid⟩, ?_⟩
    rw [hid, if_pos ht, toolCall, if_pos ⟨hholdsId, hholds, hargs.held⟩, ht]
    rfl

theorem remembered_aside (part : Obj) : (aside E part).remembered = [] := by
  rw [aside]
  split
  · rfl
  · rw [medium]
    split
    · split
      · rfl
      · rfl
    · rw [spoken]
      split
      · rfl
      · rfl
      · rfl

variable (dumps) in
/-- A part that is no call leaves the calls as they are. -/
theorem readPart_other (hex : Nat → Text) (out : Parsed) {part : Json} (h : asCall part = none) :
    ∃ out', readPart E dumps hex out part = .ok out' ∧ out'.calls = out.calls ∧
      out'.remembered = out.remembered := by
  cases part with
  | obj part =>
      have hcall : ¬ ((dictOf (Obj.get part "functionCall")).get "name").truthy = true := by
        intro hcall
        have hsome : asCall (.obj part) = some part := if_pos hcall
        rw [hsome] at h
        cases h
      refine ⟨out.add (aside E part), ?_, ?_, ?_⟩
      · rw [readPart_obj, if_neg hcall]
      · show out.calls ++ _ = _
        rw [calls_aside, List.append_nil]
      · show out.remembered ++ _ = _
        rw [remembered_aside, List.append_nil]
  | null => exact ⟨out, rfl, rfl, rfl⟩
  | bool b => exact ⟨out, rfl, rfl, rfl⟩
  | int n => exact ⟨out, rfl, rfl, rfl⟩
  | float x => exact ⟨out, rfl, rfl, rfl⟩
  | str t => exact ⟨out, rfl, rfl, rfl⟩
  | arr items => exact ⟨out, rfl, rfl, rfl⟩

theorem readPart_call (hex : Nat → Text) (out : Parsed) {part : Json} {call : Obj} (h : asCall part = some call) :
    readPart E dumps hex out part = out.call E dumps hex call (functionCall call) := by
  cases part with
  | obj part =>
      obtain ⟨hcall, hsome⟩ := Option.ite_none_right_eq_some.mp h
      rw [← Option.some.inj hsome, readPart_obj]
      exact if_pos hcall
  | null => cases h
  | bool b => cases h
  | int n => cases h
  | float x => cases h
  | str t => cases h
  | arr items => cases h

/-- What a list of made calls is in an answer. -/
structure Reading (dumps : Json → Text) (parts : List Json) (made : List Made) : Prop where
  parts : made.map (·.part) = callsIn parts
  right : ∀ m ∈ made, m.Right dumps

def kept (made : List Made) : List (Text × RememberedCall) := made.map fun m => (m.call.id, m.kept)

/-- Parts are read, after others. -/
theorem foldlM_made (hex : Nat → Text) (parts : List Json) (out : Parsed)
    (htyped : ∀ part ∈ callsIn parts, Typed E part)
    (hargs : ∀ part ∈ callsIn parts, Survives E dumps (.obj (givenArgs part))) :
    ∃ made p, Reading dumps parts made ∧ parts.foldlM (readPart E dumps hex) out = .ok p ∧
      p.calls = out.calls ++ made.map (·.call) ∧ p.remembered = out.remembered ++ kept made := by
  induction parts generalizing out with
  | nil => exact ⟨[], out, ⟨rfl, fun m hm => (by cases hm)⟩, rfl, (List.append_nil _).symm, (List.append_nil _).symm⟩
  | cons part parts ih =>
      rw [List.foldlM_cons]
      cases h : asCall part with
      | none =>
          have hin : callsIn (part :: parts) = callsIn parts := List.filterMap_cons_none h
          rw [hin] at htyped hargs
          obtain ⟨out', hread, hcalls, hkept⟩ := readPart_other (E := E) dumps hex out h
          obtain ⟨made, p, hreading, hp, hc, hr⟩ := ih out' htyped hargs
          refine ⟨made, p, ⟨hreading.parts.trans hin.symm, hreading.right⟩, ?_, hcalls ▸ hc, hkept ▸ hr⟩
          rw [hread]
          exact hp
      | some call =>
          have hin : callsIn (part :: parts) = call :: callsIn parts := List.filterMap_cons_some h
          rw [hin] at htyped hargs
          obtain ⟨hcall, htyped⟩ := List.forall_mem_cons.mp htyped
          obtain ⟨harg, hargs⟩ := List.forall_mem_cons.mp hargs
          obtain ⟨m, hm, hright, hread⟩ := call_made hex out hcall harg
          obtain ⟨made, p, hreading, hp, hc, hr⟩ := ih { out with calls := out.calls ++ [m.call],
                                                                   remembered := out.remembered ++ [(m.call.id, m.kept)] } htyped hargs
          refine ⟨m :: made, p, ⟨?_, List.forall_mem_cons.mpr ⟨hright, hreading.right⟩⟩, ?_, ?_, ?_⟩
          · rw [List.map_cons, hm, hreading.parts, hin]
          · rw [readPart_call hex out h, hread]
            exact hp
          · rw [hc]
            exact List.append_assoc _ _ _
          · rw [hr]
            exact List.append_assoc _ _ _

/-! ## What goes back -/

namespace Replay

/-- The calls among the parts of the turns. -/
def callParts (contents : List Content) : List Obj :=
  (contents.flatMap (·.parts)).filter fun part => (part.item? "functionCall").isSome

theorem map_snd_sided (contents : List Content) : (sided contents).map Prod.snd = contents.flatMap (·.parts) := by
  rw [sided, List.map_flatMap]
  refine List.flatMap_congr fun turn _ => ?_
  rw [List.map_map]
  exact List.map_id _

theorem flatMap_add (s : Locals) (role : Side) (parts : List Obj) :
    (s.add role parts).contents.flatMap (·.parts) = s.contents.flatMap (·.parts) ++ parts := by
  rw [← map_snd_sided, sided_add, List.map_append, map_snd_sided, List.map_map]
  exact congrArg _ (List.map_id _)

theorem callParts_add (s : Locals) (role : Side) (parts : List Obj) :
    callParts (s.add role parts).contents =
      callParts s.contents ++ parts.filter fun part => (part.item? "functionCall").isSome := by
  rw [callParts, flatMap_add, List.filter_append]
  rfl

theorem cache_add (s : Locals) (role : Side) (parts : List Obj) : (s.add role parts).cache = s.cache := by
  rw [Locals.add]
  split
  · rfl
  · split
    · rfl
    · split
      · rfl
      · rfl

/-- The end of it puts no call among the parts. -/
theorem callParts_finish (fold_system : Bool) (s : Locals) :
    callParts (finish fold_system s).contents = callParts s.contents := by
  rw [finish]
  split
  · cases hc : s.contents with
    | nil => rfl
    | cons content rest =>
        obtain ⟨role, parts⟩ := content
        cases role with
        | user => rfl
        | model => rfl
  · rfl

/-! ## Parts that are no calls -/

/-- A part that is no call. -/
def NoCall (part : Obj) : Prop := part.item? "functionCall" = none

theorem filter_noCall {parts : List Obj} (h : ∀ part ∈ parts, NoCall part) :
    (parts.filter fun part => (part.item? "functionCall").isSome) = [] := by
  rw [List.filter_eq_nil_iff]
  intro part hpart hsome
  rw [h part hpart] at hsome
  cases hsome

theorem noCall_urlPart {place : Text} {part p : Obj} {outer inner : String}
    (h : urlPart place part outer inner = .ok p) : NoCall p := by
  simp only [urlPart, bind_eq_ok, pure_eq_ok] at h
  obtain ⟨-, -, -, -, -, -, -, -, ⟨mime, data⟩, -, rfl⟩ := h
  rfl

theorem noCall_audioPart {part p : Obj} (h : audioPart part = .ok p) : NoCall p := by
  simp only [audioPart, bind_eq_ok, pure_eq_ok] at h
  obtain ⟨-, -, -, -, -, -, rfl⟩ := h
  rfl

/-- No part of a content is a call. -/
theorem noCall_partOf {place : Text} {part : Json} {p : Obj} (h : partOf repr place part = .ok p) : NoCall p := by
  simp only [partOf, bind_eq_ok] at h
  obtain ⟨part, -, h⟩ := h
  split at h
  · cases h
    rfl
  · split at h
    · exact noCall_urlPart h
    · split at h
      · exact noCall_audioPart h
      · split at h
        · exact noCall_urlPart h
        · cases h

theorem noCall_partsFrom {field : Text} {index : Nat} {parts : List Json} {ps : List Obj}
    (h : partsFrom repr field index parts = .ok ps) : ∀ p ∈ ps, NoCall p := by
  induction parts generalizing index ps with
  | nil =>
      cases h
      exact fun p hp => (by cases hp)
  | cons part parts ih =>
      simp only [partsFrom, bind_eq_ok, pure_eq_ok] at h
      obtain ⟨p, hp, ps, hps, rfl⟩ := h
      exact List.forall_mem_cons.mpr ⟨noCall_partOf hp, ih hps⟩

theorem noCall_partsOf {content : Json} {field : Text} {ps : List Obj}
    (h : partsOf repr content field = .ok ps) : ∀ p ∈ ps, NoCall p := by
  cases content with
  | null =>
      cases h
      exact fun p hp => (by cases hp)
  | str text =>
      cases text with
      | nil =>
          cases h
          exact fun p hp => (by cases hp)
      | cons c cs =>
          cases h
          exact fun p hp => (List.mem_singleton.mp hp).symm ▸ rfl
  | arr parts => exact noCall_partsFrom h
  | bool b => cases h
  | int n => cases h
  | float x => cases h
  | obj fields => cases h

/-! ## Any message -/

/-- The turns have grown, and no call that was held is lost. -/
structure Grows (clock : Nat → ℚ) (s s' : Locals) : Prop where
  parts : ∃ more, callParts s'.contents = callParts s.contents ++ more
  held : ∀ id call, Held clock id call s.cache → Held clock id call s'.cache

theorem Grows.refl (s : Locals) : Grows clock s s := ⟨⟨[], (List.append_nil _).symm⟩, fun _ _ h => h⟩

theorem Grows.trans {s s' s'' : Locals} (h : Grows clock s s') (h' : Grows clock s' s'') : Grows clock s s'' := by
  obtain ⟨more, hmore⟩ := h.parts
  obtain ⟨more', hmore'⟩ := h'.parts
  refine ⟨⟨more ++ more', ?_⟩, fun id call hs => h'.held id call (h.held id call hs)⟩
  rw [hmore', hmore, List.append_assoc]

theorem grows_add (s : Locals) (role : Side) (parts : List Obj) : Grows clock s (s.add role parts) :=
  ⟨⟨_, callParts_add s role parts⟩, fun _ _ h => by rwa [cache_add]⟩

theorem grows_asked (s : Locals) (callId : Text) : Grows clock s (s.asked clock callId) :=
  ⟨⟨[], (List.append_nil _).symm⟩, fun _ _ h => held_recall h _ callId⟩

theorem grows_onCall {s s' : Locals × List Obj} {call : Obj} (h : onCall E repr clock s call = .ok s') :
    Grows clock s.1 s'.1 := by
  simp only [onCall, bind_eq_ok, pure_eq_ok] at h
  obtain ⟨-, -, -, -, rfl⟩ := h
  exact ⟨⟨[], (List.append_nil _).symm⟩, fun _ _ h => held_recall h _ _⟩

theorem grows_onCalls {calls : List Obj} {s s' : Locals × List Obj}
    (h : calls.foldlM (onCall E repr clock) s = .ok s') : Grows clock s.1 s'.1 := by
  induction calls generalizing s with
  | nil =>
      cases h
      exact .refl _
  | cons call calls ih =>
      rw [List.foldlM_cons, bind_eq_ok] at h
      obtain ⟨s₁, h₁, h⟩ := h
      exact (grows_onCall h₁).trans (ih h)

/-- No message takes back what the ones before it came to. -/
theorem grows_onMessage {s s' : Locals} {index : Nat} {message : Message}
    (h : onMessage E repr clock s index message = .ok s') : Grows clock s s' := by
  rw [onMessage] at h
  cases hrole : message.role with
  | system =>
      rw [hrole] at h
      simp only [bind_eq_ok, pure_eq_ok] at h
      obtain ⟨-, -, text, -, rfl⟩ := h
      split
      · exact .refl s
      · exact ⟨⟨[], (List.append_nil _).symm⟩, fun _ _ h => h⟩
  | user =>
      rw [hrole] at h
      simp only [bind_eq_ok, pure_eq_ok] at h
      obtain ⟨parts, -, rfl⟩ := h
      exact grows_add s .user parts
  | assistant =>
      rw [hrole] at h
      simp only [bind_eq_ok, pure_eq_ok] at h
      obtain ⟨parts, -, s₁, hcalls, rfl⟩ := h
      exact (grows_onCalls hcalls).trans (grows_add _ _ _)
  | tool =>
      rw [hrole] at h
      simp only [onTool] at h
      split at h
      · cases h
      · simp only [bind_eq_ok, pure_eq_ok] at h
        obtain ⟨-, -, -, -, -, -, rfl⟩ := h
        exact (grows_asked s _).trans (grows_add _ _ _)

theorem grows_onMessages {messages : List Message} {s s' : Locals} {index : Nat}
    (h : onMessages E repr clock s index messages = .ok s') : Grows clock s s' := by
  induction messages generalizing s index with
  | nil =>
      cases h
      exact .refl _
  | cons message rest ih =>
      rw [onMessages, bind_eq_ok] at h
      obtain ⟨s₁, h₁, h⟩ := h
      exact (grows_onMessage h₁).trans (ih h)

theorem onMessages_append (before after : List Message) (s : Locals) (index : Nat) :
    onMessages E repr clock s index (before ++ after) =
      onMessages E repr clock s index before >>= fun s =>
        onMessages E repr clock s (index + before.length) after := by
  induction before generalizing s index with
  | nil => rfl
  | cons message before ih =>
      rw [List.cons_append, onMessages, onMessages]
      cases onMessage E repr clock s index message with
      | error f => rfl
      | ok s₁ =>
          have h := ih s₁ (index + 1)
          rw [Nat.add_assoc, Nat.add_comm 1] at h
          exact h

/-! ## The message itself -/

/-- A call of an answer, as its JSON. -/
def wire (c : ToolCall) : Obj :=
  [("id".toList, .str c.id), ("type".toList, .ofString "function"),
    ("function".toList, .ofFields [("name", .str c.name), ("arguments", .str c.arguments)])]

/-- The part a call goes back as. -/
def replayed (m : Made) : Obj := callPart m.call.id m.call.name (givenArgs m.part) (some m.kept)

theorem argsOf_survives {args : Obj} (h : Survives E dumps (.obj args)) (callId : Text) :
    argsOf E repr callId (.str (dumps (.obj args))) = .ok args := by
  rw [argsOf, if_neg h.solid, h.back]

variable (repr) in
/-- One call goes back. -/
theorem onCall_made {m : Made} (hright : m.Right dumps) (hargs : Survives E dumps (.obj (givenArgs m.part)))
    (s : Locals × List Obj) (hheld : Held clock m.call.id m.kept s.1.cache) :
    ∃ s', onCall E repr clock s (wire m.call) = .ok (s', s.2 ++ [replayed m]) ∧
      s'.contents = s.1.contents ∧ s'.cache = s.1.cache := by
  have hknown : s.1.known clock m.call.id = some m.kept := congrArg Prod.fst (recall_held hheld _)
  have hcache : (s.1.asked clock m.call.id).cache = s.1.cache := congrArg Prod.snd (recall_held hheld _)
  have hid : E.orEmpty ((wire m.call).get "id") = m.call.id := orEmpty_str E m.call.id
  have hfunction : dictOrEmpty ((wire m.call).get "function") =
    .ok [("name".toList, .str m.call.name), ("arguments".toList, .str m.call.arguments)] := rfl
  have hname : E.orEmpty (Obj.get [("name".toList, .str m.call.name), ("arguments".toList, .str m.call.arguments)]
    "name") = m.call.name := orEmpty_str E m.call.name
  have hraw : Obj.get [("name".toList, .str m.call.name), ("arguments".toList, .str m.call.arguments)] "arguments" =
    .str (dumps (.obj (givenArgs m.part))) := congrArg Json.str hright.arguments
  refine ⟨{ s.1.asked clock m.call.id with
      names := s.1.names.set m.call.id m.call.name
      unsigned := s.1.unsigned || !((some m.kept).bind (·.signature)).isSome }, ?_, rfl, hcache⟩
  rw [onCall, hid, hfunction]
  show (argsOf E repr m.call.id (Obj.get [("name".toList, .str m.call.name),
    ("arguments".toList, .str m.call.arguments)] "arguments") >>= _) = _
  rw [hraw, argsOf_survives hargs]
  simp only [hname, hknown]
  rfl

variable (repr) in
/-- The calls go back, one after the other. -/
theorem onCalls_made {made : List Made} (hright : ∀ m ∈ made, m.Right dumps)
    (hargs : ∀ m ∈ made, Survives E dumps (.obj (givenArgs m.part))) (s : Locals) (ps : List Obj)
    (hheld : ∀ m ∈ made, Held clock m.call.id m.kept s.cache) :
    ∃ s', (made.map fun m => wire m.call).foldlM (onCall E repr clock) (s, ps) = .ok (s', ps ++ made.map replayed) ∧
      s'.contents = s.contents := by
  induction made generalizing s ps with
  | nil => exact ⟨s, congrArg (fun l => Except.ok (s, l)) (List.append_nil ps).symm, rfl⟩
  | cons m made ih =>
      obtain ⟨hm, hright⟩ := List.forall_mem_cons.mp hright
      obtain ⟨ha, hargs⟩ := List.forall_mem_cons.mp hargs
      obtain ⟨hh, hheld⟩ := List.forall_mem_cons.mp hheld
      obtain ⟨s₁, h₁, hcontents, hcache⟩ := onCall_made repr hm ha (s, ps) hh
      obtain ⟨s', h', hcontents'⟩ := ih hright hargs s₁ (ps ++ [replayed m]) (hcache ▸ hheld)
      refine ⟨s', ?_, hcontents'.trans hcontents⟩
      have happend : ps ++ (m :: made).map replayed = ps ++ [replayed m] ++ made.map replayed := by
        rw [List.map_cons, List.append_assoc, List.singleton_append]
      rw [List.map_cons, List.foldlM_cons, h₁, happend]
      exact h'

/-- The message a client makes of an answer: its text or none, and its
calls as they came. -/
structure Returned (calls : List ToolCall) (message : Message) : Prop where
  role : message.role = .assistant
  content : message.content = .null ∨ ∃ text, message.content = .str text
  toolCalls : message.toolCalls = calls.map wire

theorem call_replayed (m : Made) : ((replayed m).item? "functionCall").isSome = true := by
  rw [replayed, callPart, Obj.item?, List.find?_cons_of_pos]
  · rfl
  · exact decide_eq_true rfl

variable (repr) in
/-- The message goes back as its calls. -/
theorem onMessage_made {made : List Made} (hright : ∀ m ∈ made, m.Right dumps)
    (hargs : ∀ m ∈ made, Survives E dumps (.obj (givenArgs m.part))) {message : Message}
    (hmessage : Returned (made.map (·.call)) message) (s : Locals) (index : Nat)
    (hheld : ∀ m ∈ made, Held clock m.call.id m.kept s.cache) :
    ∃ s', onMessage E repr clock s index message = .ok s' ∧
      callParts s'.contents = callParts s.contents ++ made.map replayed := by
  have hparts : ∃ ps, partsOf repr message.content
      ("messages[".toList ++ (toString index).toList ++ "].content".toList) = .ok ps := by
    rcases hmessage.content with hc | ⟨text, hc⟩
    · rw [hc]
      exact ⟨[], rfl⟩
    · rw [hc]
      cases text with
      | nil => exact ⟨[], rfl⟩
      | cons c cs => exact ⟨_, rfl⟩
  obtain ⟨ps, hps⟩ := hparts
  obtain ⟨s₁, hcalls, hcontents⟩ := onCalls_made repr hright hargs s ps hheld
  refine ⟨s₁.add .model (ps ++ made.map replayed), ?_, ?_⟩
  · rw [onMessage, hmessage.role]
    simp only [hps]
    show (message.toolCalls.foldlM (onCall E repr clock) (s, ps) >>= _) = _
    rw [hmessage.toolCalls, List.map_map]
    show ((made.map fun m => wire m.call).foldlM (onCall E repr clock) (s, ps) >>= _) = _
    rw [hcalls]
    rfl
  · rw [callParts_add, hcontents, List.filter_append, filter_noCall (noCall_partsOf hps), List.nil_append]
    congr 1
    refine List.filter_eq_self.mpr fun part hpart => ?_
    obtain ⟨m, -, rfl⟩ := List.mem_map.mp hpart
    exact call_replayed m

theorem get_cons_ne {k : Text} {key : String} (h : k ≠ key.toList) (v : Json) (rest : Obj) :
    Obj.get ((k, v) :: rest) key = Obj.get rest key := by
  rw [Obj.get, Obj.item?, List.find?_cons_of_neg]
  · rfl
  · exact fun hk => h (of_decide_eq_true hk)

theorem functionCall_callPart (callId name : Text) (args : Obj) (known : Option RememberedCall) :
    functionCall (callPart callId name args known) =
      ("name".toList, .str name) :: ("args".toList, .obj args) :: sentId callId known := by
  rw [functionCall, callPart, get_head]
  rfl

/-- A call goes back as the call it was. -/
theorem samePart_replayed {m : Made} (h : m.Right dumps) : SamePart m.part (replayed m) where
  name := by rw [h.name, replayed, functionCall_callPart, get_head]
  args := by rw [replayed, functionCall_callPart, get_cons_ne (by decide), get_head]
  signature := by
    rw [h.signature, replayed, callPart, get_cons_ne (by decide)]
    obtain ⟨part, call, name, signature, googleId⟩ := m
    cases signature with
    | none => rfl
    | some s => exact get_head _ _ _
  id := by
    rw [h.id, replayed, functionCall_callPart, get_cons_ne (by decide), get_cons_ne (by decide)]
    obtain ⟨part, call, name, signature, googleId⟩ := m
    cases googleId with
    | false => rfl
    | true => exact get_head _ _ _

/-- What is still held under the ids of the calls is what was kept of them. -/
theorem held_made {made : List Made} (hnodup : (made.map (·.call.id)).Nodup) {c c' : SignatureCache}
    {times : Nat → ℚ} (huses : Lts.Run (uses.at (c.rememberAll times (kept made)))
      (fun _ use => Other (made.map (·.call.id)) use) c')
    (hheld : ∀ id ∈ made.map (·.call.id), ∃ known, Held clock id known c') :
    ∀ m ∈ made, Held clock m.call.id m.kept c' := by
  intro m hm
  have hid : m.call.id ∈ made.map (·.call.id) := List.mem_map.mpr ⟨m, hm, rfl⟩
  have hkept : (kept made).map Prod.fst = made.map (·.call.id) := List.map_map
  have hmem : (m.call.id, m.kept) ∈ kept made := List.mem_map.mpr ⟨m, hm, rfl⟩
  have honly : Only m.call.id m.kept c' :=
    only_of_uses huses hid (only_rememberAll (hkept.symm ▸ hnodup) times c hmem)
  obtain ⟨known, expires, hget, hclock⟩ := hheld _ hid
  rw [honly expires known hget] at hget
  exact ⟨expires, hget, hclock⟩

/-- The message, in a conversation. -/
theorem contentsFrom_made {made : List Made} (hright : ∀ m ∈ made, m.Right dumps)
    (hargs : ∀ m ∈ made, Survives E dumps (.obj (givenArgs m.part))) {message : Message}
    (hmessage : Returned (made.map (·.call)) message) {fold_system : Bool} {c : SignatureCache}
    (hheld : ∀ m ∈ made, Held clock m.call.id m.kept c) {before : List Message} {r₀ : Replayed}
    (hbefore : contentsFrom E repr clock fold_system c before = .ok r₀) :
    (∃ r, contentsFrom E repr clock fold_system c (before ++ [message]) = .ok r ∧
      callParts r.contents = callParts r₀.contents ++ made.map replayed) ∧
    ∀ after r, contentsFrom E repr clock fold_system c (before ++ message :: after) = .ok r →
      ∃ more, callParts r.contents = callParts r₀.contents ++ made.map replayed ++ more := by
  obtain ⟨s₀, hs₀, rfl⟩ := map_eq_ok.mp hbefore
  have hkept := (grows_onMessages hs₀).held
  obtain ⟨s₁, hs₁, hcalls⟩ := onMessage_made repr hright hargs hmessage s₀ (0 + before.length)
    fun m hm => hkept _ _ (hheld m hm)
  rw [callParts_finish, ← hcalls]
  refine ⟨⟨finish fold_system s₁, ?_, callParts_finish _ _⟩, fun after r hr => ?_⟩
  · rw [contentsFrom, onMessages_append, hs₀]
    show finish fold_system <$> (onMessage E repr clock s₀ (0 + before.length) message >>= _) = _
    rw [hs₁]
    rfl
  · obtain ⟨s₂, hs₂, rfl⟩ := map_eq_ok.mp hr
    rw [onMessages_append, hs₀] at hs₂
    have hs₂ : (onMessage E repr clock s₀ (0 + before.length) message >>= fun s =>
      onMessages E repr clock s (0 + before.length + 1) after) = .ok s₂ := hs₂
    rw [hs₁] at hs₂
    rw [callParts_finish]
    exact (grows_onMessages hs₂).parts

/-- **A call goes there and back.**  Whatever an answer's parts are, it is
read; when its calls' ids differ, and none was used again, a message that
brings the calls back goes to Google as the calls it made, in their order,
after what the conversation before the message comes to. -/
theorem calls_survive {parts : List Json} (htyped : ∀ part ∈ callsIn parts, Typed E part)
    (hargs : ∀ part ∈ callsIn parts, Survives E dumps (.obj (givenArgs part))) (hex : Nat → Text) :
    ∃ parsed, readParts E dumps hex (.arr parts) = .ok parsed ∧
      ((parsed.calls.map (·.id)).Nodup → ∀ (c c' : SignatureCache) (times clock : Nat → ℚ),
        Lts.Run (uses.at (c.rememberAll times parsed.remembered))
          (fun _ use => Other (parsed.calls.map (·.id)) use) c' →
        (∀ id ∈ parsed.calls.map (·.id), ∃ known, Held clock id known c') →
        ∀ (repr : Json → Text) (fold_system : Bool) (message : Message), Returned parsed.calls message →
        ∀ before r₀, contentsFrom E repr clock fold_system c' before = .ok r₀ →
        ∃ back, List.Forall₂ SamePart (callsIn parts) back ∧
          (∃ r, contentsFrom E repr clock fold_system c' (before ++ [message]) = .ok r ∧
            callParts r.contents = callParts r₀.contents ++ back) ∧
          ∀ after r, contentsFrom E repr clock fold_system c' (before ++ message :: after) = .ok r →
            ∃ more, callParts r.contents = callParts r₀.contents ++ back ++ more) := by
  obtain ⟨made, parsed, hreading, hread, hcalls, hkept⟩ := foldlM_made hex parts {} htyped hargs
  refine ⟨parsed, hread, fun hnodup c c' times clock huses hheld repr fold_system message hmessage before r₀ hr₀ => ?_⟩
  rw [List.nil_append] at hcalls hkept
  rw [hcalls, List.map_map] at hnodup hheld
  rw [hcalls, List.map_map, hkept] at huses
  rw [hcalls] at hmessage
  have hback : ∀ m ∈ made, Survives E dumps (.obj (givenArgs m.part)) :=
    fun m hm => hargs m.part (hreading.parts ▸ List.mem_map.mpr ⟨m, hm, rfl⟩)
  refine ⟨made.map replayed, ?_, contentsFrom_made hreading.right hback hmessage
    (held_made hnodup huses hheld) hr₀⟩
  rw [← hreading.parts, List.forall₂_map_left_iff, List.forall₂_map_right_iff]
  exact List.forall₂_same.mpr fun m hm => samePart_replayed (hreading.right m hm)

/-! ## Two calls -/

/-- `json.dumps`, of a flat object of truth values. -/
def flatDumps (v : Json) : Text :=
  match v with
  | .obj fields => "\x7b".toList ++ List.intercalate ", ".toList (fields.map fun f =>
      "\"".toList ++ f.1 ++ "\": ".toList ++ if f.2.truthy then "true".toList else "false".toList) ++ "\x7d".toList
  | _ => []

def onArgs : Obj := [("on".toList, .bool true)]

/-- A call with everything, and one with nothing but its name. -/
def twoCalls : List Json :=
  [.ofFields [("text", .ofString "Let me see."), ("thought", .bool true)],
    .ofFields [("functionCall", .ofFields [("name", .ofString "f"), ("args", .obj onArgs), ("id", .ofString "g")]),
      ("thoughtSignature", .ofString "s")],
    .ofFields [("functionCall", .ofFields [("name", .ofString "f")])]]

def flatDocuments : List (Text × Json) := [(flatDumps (.obj onArgs), .obj onArgs), (flatDumps (.obj []), .obj [])]

def twoMade : Parsed where
  reasoning := "Let me see.".toList
  calls := [⟨"g".toList, "f".toList, flatDumps (.obj onArgs)⟩, ⟨"call_1".toList, "f".toList, flatDumps (.obj [])⟩]
  remembered := [("g".toList, ⟨"f".toList, "s".toList, true⟩), ("call_1".toList, ⟨"f".toList, none, false⟩)]

theorem twoCalls_read : readParts (.ofTable flatDocuments) flatDumps (fun n => (toString n).toList) (.arr twoCalls) =
    .ok twoMade := rfl

theorem twoCalls_typed : ∀ part ∈ callsIn twoCalls, Typed (.ofTable flatDocuments) part ∧
    Survives (.ofTable flatDocuments) flatDumps (.obj (givenArgs part)) := by
  intro part hpart
  rcases List.mem_cons.mp hpart with rfl | hpart
  · exact ⟨⟨⟨"f".toList, rfl, rfl⟩, Or.inr ⟨"g".toList, by decide, rfl, rfl⟩, Or.inr ⟨"s".toList, by decide, rfl, rfl⟩⟩,
      rfl, by decide, rfl⟩
  · rw [List.mem_singleton.mp hpart]
    exact ⟨⟨⟨"f".toList, rfl, rfl⟩, Or.inl rfl, Or.inl rfl⟩, rfl, by decide, rfl⟩

/-- A question, and the message the calls come back in. -/
def question : Message := ⟨.user, .ofString "Is it on?", [], none⟩

def twoReturned : Message := ⟨.assistant, .null, twoMade.calls.map wire, none⟩

theorem twoMade_held : ∀ id ∈ twoMade.calls.map (·.id),
    ∃ known, Held (fun _ => 2) id known (({} : SignatureCache).rememberAll (fun _ => 1) twoMade.remembered) := by
  intro id hid
  have hlate : (2 : ℚ) < 1 + 24 * 60 * 60 := by norm_num
  rcases List.mem_cons.mp hid with rfl | hid
  · exact ⟨_, _, rfl, fun _ => hlate⟩
  · rw [List.mem_singleton.mp hid]
    exact ⟨_, _, rfl, fun _ => hlate⟩

theorem calls_survive_two : ∃ r back, contentsFrom (.ofTable flatDocuments) (fun _ => []) (fun _ => 2) false
      (({} : SignatureCache).rememberAll (fun _ => 1) twoMade.remembered) [question, twoReturned] = .ok r ∧
    List.Forall₂ SamePart (callsIn twoCalls) back ∧ callParts r.contents = back := by
  obtain ⟨parsed, hread, h⟩ := calls_survive (fun part hpart => (twoCalls_typed part hpart).1)
    (fun part hpart => (twoCalls_typed part hpart).2) (fun n => (toString n).toList)
  obtain rfl : twoMade = parsed := Except.ok.inj (twoCalls_read.symm.trans hread)
  obtain ⟨back, hsame, ⟨r, hr, hparts⟩, -⟩ := h (by decide) {} _ (fun _ => 1) (fun _ => 2) (.start rfl)
    twoMade_held (fun _ => []) false twoReturned ⟨rfl, Or.inl rfl, rfl⟩ [question] _ rfl
  exact ⟨r, back, hr, hsame, hparts⟩

end Replay

end InferenceDriver.Gemini

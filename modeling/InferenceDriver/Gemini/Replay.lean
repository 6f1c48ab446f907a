/-
# `Gemini.Replay` — a conversation, as Google takes it

`contents_from`: the messages of a request become turns of parts, turns of
one side that follow each other become one, and a tool call goes back with
what the cache still has of it.
-/
import InferenceDriver.Gemini.Signatures
import InferenceDriver.Http.Table

namespace InferenceDriver.Gemini.Replay

open Checks OpenAi

/-! ## Messages -/

inductive Role where
  | system | user | assistant | tool
deriving DecidableEq

structure Message where
  role : Role
  /-- `content_wire(content)`: null, a text, or a list of parts. -/
  content : Json
  /-- The calls; none are `[]`. -/
  toolCalls : List Obj
  toolCallId : Option Text

/-- The two sides of a conversation at Google. -/
inductive Side where
  | user | model
deriving DecidableEq

structure Content where
  role : Side
  parts : List Obj

variable (E : Env) (repr : Json → Text)

/-- `_refusal`. -/
def refusal {α : Type} (message : Text) : Except Failure α := .error (.cli message (some 400))

/-- `d[key]`. -/
def item (o : Obj) (key : String) : Except Failure Json := require (o.item? key) .uncaught

/-- `d.get(key, "")`. -/
def getText (o : Obj) (key : String) : Json := (o.item? key).getD (.str [])

/-- A value used as a text. -/
def asText (v : Json) : Except Failure Text :=
  match v with
  | .str text => .ok text
  | _ => .error .uncaught

/-! ## Content -/

/-- `text.removesuffix(end)`. -/
def removesuffix (ending text : Text) : Text :=
  if ending.isSuffixOf text then text.take (text.length - ending.length) else text

/-- `_data_url`. -/
def dataUrl (url field : Text) : Except Failure (Text × Text) :=
  let header := (partition ',' url).1
  match (partition ',' url).2 with
  | none => refusal (field ++ ": only inline base64 data URLs are sent to Gemini".toList)
  | some data =>
      if "data:".toList.isPrefixOf header ∧ ";base64".toList.isSuffixOf header then
        .ok (removesuffix ";base64".toList (header.drop 5), data)
      else refusal (field ++ ": only inline base64 data URLs are sent to Gemini".toList)

def textPart (text : Json) : Obj := [("text".toList, text)]

def inlinePart (mime data : Json) : Obj :=
  [("inlineData".toList, .ofFields [("mimeType", mime), ("data", data)])]

/-- The data URL of a part, under two keys. -/
def urlPart (place : Text) (part : Obj) (outer inner : String) : Except Failure Obj := do
  let url ← asText (← item (← asDict (← item part outer)) inner)
  let (mime, data) ← dataUrl url place
  return inlinePart (.str mime) (.str data)

def audioPart (part : Obj) : Except Failure Obj := do
  let audio ← asDict (← item part "input_audio")
  let mime := if (audio.get "format").isStr "wav".toList then "audio/wav" else "audio/mp3"
  return inlinePart (.ofString mime) (← item audio "data")

/-- One part of a content. -/
def partOf (place : Text) (part : Json) : Except Failure Obj := do
  let part ← asDict part
  let kind := part.get "type"
  if kind.isStr "text".toList then return textPart (getText part "text")
  else if kind.isStr "image_url".toList then urlPart place part "image_url" "url"
  else if kind.isStr "input_audio".toList then audioPart part
  else if kind.isStr "file".toList then urlPart place part "file" "file_data"
  else refusal (place ++ ": a ".toList ++ repr kind ++ " content part cannot be sent to Gemini".toList)

/-- The parts from the `index`-th on. -/
def partsFrom (field : Text) : Nat → List Json → Except Failure (List Obj)
  | _, [] => .ok []
  | index, part :: rest => do
      let part ← partOf repr (field ++ "[".toList ++ (toString index).toList ++ "]".toList) part
      let rest ← partsFrom field (index + 1) rest
      return part :: rest

/-- `_parts_of`. -/
def partsOf (content : Json) (field : Text) : Except Failure (List Obj) :=
  match content with
  | .null => .ok []
  | .str [] => .ok []
  | .str text => .ok [textPart (.str text)]
  | .arr parts => partsFrom repr field 0 parts
  | _ => .error .uncaught

/-- `"".join(p.get("text", "") for p in parts)`. -/
def textsOf : List Obj → Except Failure Text
  | [] => .ok []
  | part :: rest => do
      let text ← asText (getText part "text")
      let rest ← textsOf rest
      return text ++ rest

/-- `_args_of`. -/
def argsOf (callId : Text) (raw : Json) : Except Failure Obj :=
  match raw with
  | .obj args => .ok args
  | .str text =>
      if strip text = [] then .ok []
      else
        match E.loads text with
        | .malformed => refusal ("tool call ".toList ++ repr (.str callId) ++
            ": its arguments are not JSON".toList)
        | .escapes => .error .uncaught
        | .value (.obj args) => .ok args
        | .value _ => refusal ("tool call ".toList ++ repr (.str callId) ++
            ": its arguments are not a JSON object".toList)
  | _ => .ok []

/-- `_response_of`. -/
def responseOf (text : Text) : Except Failure Json :=
  match E.loads text with
  | .malformed => .ok (.ofFields [("result", .str text)])
  | .escapes => .error .uncaught
  | .value (.obj response) => .ok (.obj response)
  | .value v => .ok (.ofFields [("result", v)])

/-! ## Calls -/

/-- The local variables of `contents_from`. -/
structure Locals where
  system : List Text := []
  contents : List Content := []
  names : Dict Text Text := .empty
  unsigned : Bool := false
  cache : SignatureCache
  /-- How often the cache was asked; the clock is read each time. -/
  recalls : Nat := 0

/-- Parts of one side, added to its turn or as a new one. -/
def Locals.add (s : Locals) (role : Side) (parts : List Obj) : Locals :=
  if parts = [] then s
  else
    match s.contents.getLast? with
    | none => { s with contents := [⟨role, parts⟩] }
    | some last =>
        if last.role = role then
          { s with contents := s.contents.dropLast ++ [⟨role, last.parts ++ parts⟩] }
        else { s with contents := s.contents ++ [⟨role, parts⟩] }

variable (clock : Nat → ℚ)

/-- What the cache still has of a call. -/
def Locals.known (s : Locals) (callId : Text) : Option RememberedCall :=
  (s.cache.recallCall (clock s.recalls) callId).1

/-- The state once the cache was asked. -/
def Locals.asked (s : Locals) (callId : Text) : Locals :=
  { s with cache := (s.cache.recallCall (clock s.recalls) callId).2, recalls := s.recalls + 1 }

/-- The id, where Google gave it. -/
def sentId (callId : Text) (known : Option RememberedCall) : Obj :=
  if known.any (·.googleId) then [("id".toList, .str callId)] else []

/-- The signature, where there is one. -/
def signedField (known : Option RememberedCall) : Obj :=
  match known.bind (·.signature) with
  | some signature => [("thoughtSignature".toList, .str signature)]
  | none => []

/-- A call with what is known of it. -/
def callPart (callId name : Text) (args : Obj) (known : Option RememberedCall) : Obj :=
  ("functionCall".toList, .obj (("name".toList, .str name) :: ("args".toList, .obj args) :: sentId callId known)) ::
    signedField known

/-- One call of a message. -/
def onCall (s : Locals × List Obj) (call : Obj) : Except Failure (Locals × List Obj) := do
  let callId := E.orEmpty (call.get "id")
  let function ← dictOrEmpty (call.get "function")
  let name := E.orEmpty (function.get "name")
  let args ← argsOf E repr callId (function.get "arguments")
  let known := s.1.known clock callId
  let signed := (known.bind (·.signature)).isSome
  return ({ s.1.asked clock callId with
    names := s.1.names.set callId name, unsigned := s.1.unsigned || !signed },
    s.2 ++ [callPart callId name args known])

/-- The function a tool result answers. -/
def answeredName (s : Locals) (callId : Text) (known : Option RememberedCall) : Text :=
  match s.names.get? callId with
  | some (c :: cs) => c :: cs
  | _ => (known.map (·.name)).getD []

/-- The result of a call. -/
def onTool (s : Locals) (index : Nat) (message : Message) (field : Text) : Except Failure Locals := do
  let callId := message.toolCallId.getD []
  let known := s.known clock callId
  let name := answeredName s callId known
  if name = [] then
    refusal ("messages[".toList ++ (toString index).toList ++ "]: the tool result for ".toList ++
      repr (.str callId) ++ (" matches no earlier " ++
      "tool call, so Gemini cannot be told which function it answers").toList)
  else
    let text ← textsOf (← partsOf repr message.content field)
    let response ← responseOf E text
    return (s.asked clock callId).add .user [[("functionResponse".toList,
      .obj (("name".toList, .str name) :: ("response".toList, response) :: sentId callId known))]]

/-- One message. -/
def onMessage (s : Locals) (index : Nat) (message : Message) : Except Failure Locals :=
  let field := "messages[".toList ++ (toString index).toList ++ "].content".toList
  match message.role with
  | .system => do
      let text ← textsOf (← partsOf repr message.content field)
      return if text = [] then s else { s with system := s.system ++ [text] }
  | .assistant => do
      let parts ← partsOf repr message.content field
      let (s, parts) ← message.toolCalls.foldlM (onCall E repr clock) (s, parts)
      return s.add .model parts
  | .tool => onTool E repr clock s index message field
  | .user => do
      let parts ← partsOf repr message.content field
      return s.add .user parts

/-- The messages from the `index`-th on. -/
def onMessages : Locals → Nat → List Message → Except Failure Locals
  | s, _, [] => .ok s
  | s, index, message :: rest => do
      let s ← onMessage E repr clock s index message
      onMessages s (index + 1) rest

/-- What `contents_from` returns. -/
structure Replayed where
  contents : List Content
  /-- The text of the `systemInstruction`. -/
  instruction : Option Text
  unsigned : Bool

/-- The end of `contents_from`. -/
def finish (fold_system : Bool) (s : Locals) : Replayed :=
  let system := List.intercalate "\n\n".toList s.system
  if fold_system ∧ s.system ≠ [] then
    let lead := textPart (.str (system ++ "\n\n".toList))
    match s.contents with
    | ⟨.user, parts⟩ :: rest => ⟨⟨.user, lead :: parts⟩ :: rest, none, s.unsigned⟩
    | contents => ⟨⟨.user, [lead]⟩ :: contents, none, s.unsigned⟩
  else ⟨s.contents, if s.system = [] then none else some system, s.unsigned⟩

/-- `contents_from`; the cache is asked for the `n`-th time at `clock n`. -/
def contentsFrom (fold_system : Bool) (cache : SignatureCache) (messages : List Message) :
    Except Failure Replayed :=
  finish fold_system <$> onMessages E repr clock { cache } 0 messages

/-! ## Whose turn a part is in -/

/-- Every part, with the side it is of. -/
def sided (contents : List Content) : List (Side × Obj) :=
  contents.flatMap fun turn => turn.parts.map fun part => (turn.role, part)

theorem sided_append (contents more : List Content) : sided (contents ++ more) = sided contents ++ sided more :=
  List.flatMap_append

theorem sided_singleton (turn : Content) : sided [turn] = turn.parts.map fun part => (turn.role, part) :=
  List.flatMap_singleton _ _

/-- What is added comes last, and on its side. -/
theorem sided_add (s : Locals) (role : Side) (parts : List Obj) :
    sided (s.add role parts).contents = sided s.contents ++ parts.map fun part => (role, part) := by
  rw [Locals.add]
  split
  · rename_i h
    rw [h, List.map_nil, List.append_nil]
  · split
    · rename_i h
      rw [List.getLast?_eq_none_iff.mp h, sided_singleton]
      rfl
    · rename_i last h
      obtain ⟨front, hfront⟩ := List.getLast?_eq_some_iff.mp h
      rw [hfront]
      split
      · rename_i hrole
        rw [List.dropLast_concat, sided_append, sided_append, sided_singleton, sided_singleton, ← hrole,
          List.map_append, List.append_assoc]
      · rw [sided_append, sided_singleton]

end InferenceDriver.Gemini.Replay

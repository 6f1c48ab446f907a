/-
# `Failures.Disposition` — what a failure of a backend means

`failures.py`, the errors an OpenAI-compatible backend's refusal becomes
(`_upstream_refusal`), and the answer of the routes (`_backend_error`, its
headers aside).  What a failure means is read from its status and from the
words of the driver's own text for it, in which the backend's body stands
after the first colon.
-/
import InferenceDriver.Lib.Backtrack
import InferenceDriver.OpenAi.Wire

namespace InferenceDriver.Failures

open OpenAi

/-- `CliError` and its subclasses. -/
structure CliError where
  /-- `str(error)`. -/
  message : Text
  upstreamStatus : Option Int := none
  /-- Its cause is a `ConnectError` or a `ConnectTimeout`. -/
  unconnected : Bool := false
  /-- `BackendTimeout`. -/
  timedOut : Bool := false
  /-- `ToolsRefused`. -/
  toolsRefused : Bool := false

/-- `RetryDisposition`. -/
inductive Disposition where
  | safe
  | terminal
  | indeterminate
deriving DecidableEq, Repr

/-! ## Words -/

/-- Whether a text has a word in it. -/
def mentions (word text : Text) : Bool := (Words.findBy (fun p c => p = c) word text).isSome

/-- `re.fullmatch` of a sentence whose full stop may be missing. -/
def isSentence (sentence : String) (text : Text) : Bool :=
  text = sentence.toList || text = sentence.toList ++ ['.']

/-- `_CONTENT_REFUSAL`, its optional character written out. -/
def contentRefusals : List String :=
  ["flag", "moderat", "contentpolic", "content polic", "content_polic", "content-polic", "safety", "violat"]

/-- A letter under `re.I`: `s` also matches the long `ſ`. -/
def ignoreCase (U : Ucd) (p c : Char) : Bool :=
  U.foldMatch p c || (p == 's' && U.simpleLower c == 'ſ')

def contentRefusal (U : Ucd) (text : Text) : Bool :=
  contentRefusals.any fun word => (Words.findBy (ignoreCase U) word.toList text).isSome

/-- `_TEMPLATE_REFUSAL`. -/
def templateRefusal (text : Text) : Bool := mentions "Jinja Exception".toList text

/-- `_POOL_FULL`. -/
def poolFull (text : Text) : Bool := mentions "Context size has been exceeded".toList text

/-- A literal of a pattern. -/
def literal (text : String) : Backtrack.Re Char :=
  .chars (text.toList.map fun p c => p = c)

/-- `_INPUT_TOO_LONG`; `digit` is what `\d` matches. -/
def inputTooLongRe (digit : Char → Bool) : Backtrack.Re Char :=
  .seq (literal "input (") (.seq (.chr digit) (.seq (.star digit) (.seq (literal " tokens) is ")
    (.alt (literal "larger than the max context size") (literal "too large to process")))))

/-- No pattern here looks at words, backreferences or lines. -/
def flavour : Backtrack.Flavour Char where
  word _ := false
  same _ _ := false
  newline _ := false

/-- `input_too_long`. -/
def inputTooLong (digit : Char → Bool) (text : Text) : Bool :=
  text.tails.any fun s => (Backtrack.first flavour (inputTooLongRe digit) ⟨none, s, none⟩).isSome

/-! ## The message of a backend -/

variable (E : Env) (U : Ucd) (digit : Char → Bool)

/-- `_backend_message`. -/
def backendMessage (body : Text) : Option Text :=
  let text := strip body
  if text = [] then none
  else
    match E.loads text with
    | .malformed => some text
    | .escapes => none
    | .value (.obj parsed) =>
        let error :=
          match (Obj.item? parsed "error").getD (Obj.get parsed "message") with
          | .obj error => Obj.get error "message"
          | error => error
        match error with
        | .str s => if strip s = [] then none else some (strip s)
        | _ => none
    | .value _ => none

/-- `tools_refusal`. -/
def toolsRefusal (body : Text) : Option Text :=
  (backendMessage E body).filter (isSentence "tools param requires --jinja flag")

/-- `_backend_body`: what follows the first colon. -/
def backendBody (message : Text) : Option Text :=
  (Words.findBy (fun p c => p = c) ": ".toList message).map fun i => message.drop (i + 2)

/-! ## What it means -/

/-- `credential_refused`. -/
def credentialRefused (e : CliError) : Option Int :=
  match e.upstreamStatus with
  | some status =>
      if status = 401 || status = 402 then some status
      else if status = 403 && !contentRefusal U e.message then some status
      else none
  | none => none

/-- `capacity_refused`. -/
def capacityRefused (e : CliError) : Bool :=
  if e.upstreamStatus.any (· < 500) then false else poolFull e.message

/-- `loading_refused`. -/
def loadingRefused (e : CliError) : Bool :=
  if e.upstreamStatus = some 503 then
    ((backendBody e.message).bind (backendMessage E)).any (isSentence "Loading model")
  else false

/-- A status of the caller's own fault. -/
def callers (status : Int) : Bool :=
  400 ≤ status && status < 500 && !(status = 408 || status = 409 || status = 425)

/-- `disposition`. -/
def disposition (e : CliError) : Disposition :=
  if e.upstreamStatus = some 429 || e.unconnected then .safe
  else if capacityRefused e then .safe
  else if loadingRefused E e then .safe
  else if e.upstreamStatus.any callers then .terminal
  else if templateRefusal e.message || inputTooLong digit e.message then .terminal
  else if e.toolsRefused then .terminal
  else .indeterminate

/-! ## The answer -/

/-- `Problem`, with the status code of the answer. -/
structure Problem where
  kind : Text
  title : Text
  status : Nat
  detail : Text
  component : Text
  retryDisposition : Disposition

def problemKind (name : String) : Text :=
  "https://github.com/eugene-plexus/inference-driver#".toList ++ name.toList

/-- The answer to a backend that refused the driver's own credential. -/
def credentialProblem (e : CliError) (refused : Int) (kindLabel : Text) : Problem where
  kind := problemKind "backend-credential-refused"
  title := "Backend refused this driver's credential".toList
  status := 502
  detail := "The backend refused this driver's credential (".toList ++
    (if refused = 402 then "the account behind its API key has no credit" else "its API key").toList ++
    "; HTTP ".toList ++ (toString refused).toList ++ "): ".toList ++ e.message ++
    " Nothing is wrong with the request. ".toList ++
    (if refused = 402 then "Add credit to that account, or set" else "Set").toList ++
    " a working API key on this driver.".toList
  component := "inference-driver:".toList ++ kindLabel
  retryDisposition := .terminal

/-- The answer to a backend that has no room. -/
def capacityProblem (e : CliError) (kindLabel : Text) : Problem where
  kind := problemKind "backend-capacity"
  title := "Backend has no room for this request now".toList
  status := 503
  detail := e.message ++ (" The prompts in flight on this engine together outgrew the " ++
    "context its slots share; this request fits on its own. Nothing is " ++
    "wrong with the request or the engine. Retry, or give the model more " ++
    "context or another replica.").toList
  component := "inference-driver:".toList ++ kindLabel
  retryDisposition := .safe

/-- The answer to any other failure. -/
def otherProblem (e : CliError) (kindLabel : Text) : Problem :=
  let outcome := disposition E digit e
  let code := if e.timedOut then 504 else if outcome = .terminal then 400 else 502
  { kind :=
      if outcome = .terminal then problemKind "backend-rejected-request"
      else if loadingRefused E e then problemKind "backend-loading"
      else problemKind "backend-error"
    title :=
      if outcome = .terminal then "Backend rejected the request".toList
      else if code = 504 then "Backend did not finish in time".toList
      else if loadingRefused E e then "Backend is loading its model".toList
      else "Backend error".toList
    status := code
    detail := e.message ++
      (if outcome = .indeterminate then
        " Outcome unknown: work may have occurred. Eugene will not automatically replay this request."
      else "").toList
    component := "inference-driver:".toList ++ kindLabel
    retryDisposition := outcome }

/-- `_backend_error`. -/
def backendError (e : CliError) (kindLabel : Text) : Problem :=
  match credentialRefused U e with
  | some refused => credentialProblem e refused kindLabel
  | none => if capacityRefused e then capacityProblem e kindLabel else otherProblem E digit e kindLabel

/-! ## A refusal of a chat request -/

/-- The kinds of input a part of a message may be. -/
inductive PartKind where
  | image
  | audio
  | file
deriving DecidableEq, Repr

def imageErrorHint : Text :=
  ("Image request refused by the backend. Check the loaded vision model/projector " ++
    "and available context; try a smaller image or shorter conversation. " ++
    "Upstream body omitted to protect attachment data.").toList

def audioErrorHint : Text :=
  ("Audio request refused by the backend. Check that the model takes audio input and " ++
    "the clip's format; try a shorter clip or conversation. " ++
    "Upstream body omitted to protect attachment data.").toList

def fileErrorHint : Text :=
  ("File request refused by the backend. Check that the model reads PDFs; try a smaller " ++
    "file or shorter conversation. Upstream body omitted to protect attachment data.").toList

/-- `_attachment_hint`. -/
def attachmentHint (kinds : List PartKind) : Option Text :=
  if .image ∈ kinds then some imageErrorHint
  else if .audio ∈ kinds then some audioErrorHint
  else if .file ∈ kinds then some fileErrorHint
  else none

/-- The driver's own words before a backend's body. -/
def returned (status : Nat) (body : Text) : Text :=
  "openai_compat_http returned ".toList ++ (toString status).toList ++ ": ".toList ++ body

/-- `_upstream_refusal`: the error, what it learns of the target aside.
`named` is the `repr` of the target and `interval` how often its tools are
asked for again. -/
def upstreamRefusal (text : Text) (status : Nat) (tools : Bool) (hint : Option Text)
    (named interval : Text) : CliError :=
  match if tools then toolsRefusal E (text.take 4000) else none with
  | some _ =>
      { message := returned status (redact (text.take 500)) ++
          (". The backend refused this request because it carries tools, in its own words above, so " ++
            "Eugene treats tools as off for ").toList ++ named ++
          ". This driver asks the backend again every ".toList ++ interval ++
          (", with a one-token request that carries a tool, and turns tools back on the first time it " ++
            "answers one.").toList
        upstreamStatus := some status
        toolsRefused := true }
  | none =>
      { message := returned status (hint.getD (redact (text.take 500)))
        upstreamStatus := some status }

end InferenceDriver.Failures

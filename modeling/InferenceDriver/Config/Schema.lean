/-
# `Config.Schema` — the fields of the configuration

`ConfigField` as far as the store reads it, what a value of a field may be
(`_validate_value`), when it counts as unset, and the fields the driver
has.  The built-ins that write a value into a message, and the search for a
pattern, are parameters (`Words`).
-/
import InferenceDriver.Py.Value

namespace InferenceDriver.Config

inductive ConfigValueType where
  | string
  | integer
  | number
  | boolean
  | enum
  | secret
  | filePath
  | pathList
  | url
  | urlList
  | duration
  | runtimeName
  | nodeName
  | modelSlots
  | pathMappings
  | libraryFolders
  | shareCredentials
  | stringList
  | catalogueSources
deriving DecidableEq, Repr

/-- The name of a type in the contract. -/
def ConfigValueType.name : ConfigValueType → Text
  | .string => "string".toList
  | .integer => "integer".toList
  | .number => "number".toList
  | .boolean => "boolean".toList
  | .enum => "enum".toList
  | .secret => "secret".toList
  | .filePath => "file_path".toList
  | .pathList => "path_list".toList
  | .url => "url".toList
  | .urlList => "url_list".toList
  | .duration => "duration".toList
  | .runtimeName => "runtime_name".toList
  | .nodeName => "node_name".toList
  | .modelSlots => "model_slots".toList
  | .pathMappings => "path_mappings".toList
  | .libraryFolders => "library_folders".toList
  | .shareCredentials => "share_credentials".toList
  | .stringList => "string_list".toList
  | .catalogueSources => "catalogue_sources".toList

structure ConfigField where
  key : Text
  valueType : ConfigValueType
  default : Value := .null
  enumValues : Option (List Text) := none
  sensitive : Bool := false
  minimum : Option ℚ := none
  maximum : Option ℚ := none
  pattern : Option Text := none
  requiresRestart : Bool := false

/-- `REDACTED`. -/
def redacted : Text := "<redacted>".toList

/-- `_is_unset`. -/
def isUnset (field : ConfigField) (value : Value) : Bool :=
  match value with
  | .null => true
  | .str s => field.valueType = .secret && strip s = []
  | _ => false

/-! ## Validation -/

/-- What the messages are written with, and what patterns are searched with. -/
structure Words where
  /-- `repr`. -/
  repr : Value → Text
  /-- Whether `re.search(pattern, text)` finds anything. -/
  search : Text → Text → Bool

/-- `OverflowError`: an `int` that no `float` holds. -/
inductive Overflow where
  | overflow

/-- Whether `float(n)` is a number: halfway to `2 ^ 1024` it rounds to it. -/
def fitsFloat (n : Int) : Bool := n.natAbs < 2 ^ 1024 - 2 ^ 970

variable (W : Words)

/-- `f"expected {what}, got {type(value).__name__}"`. -/
def expected (what : String) (value : Value) : Text :=
  "expected ".toList ++ what.toList ++ ", got ".toList ++ value.typeName

/-- A number against the field's bounds. -/
def outOfRange (field : ConfigField) (q : ℚ) : Option Text :=
  match field.minimum, field.maximum with
  | some least, most =>
      if q < least then some ("must be >= ".toList ++ W.repr (.float (.fin least)))
      else
        match most with
        | some most => if most < q then some ("must be <= ".toList ++ W.repr (.float (.fin most))) else none
        | none => none
  | none, some most => if most < q then some ("must be <= ".toList ++ W.repr (.float (.fin most))) else none
  | none, none => none

/-- An entry of a list of strings. -/
def badEntry (i : Nat) (item : Value) : Option Text :=
  match item with
  | .str s =>
      if strip s = [] then
        some ("entry ".toList ++ (toString i).toList ++ " must be a non-empty string".toList)
      else if 256 < s.length then
        some ("entry ".toList ++ (toString i).toList ++ " is longer than 256 characters".toList)
      else none
  | _ => some ("entry ".toList ++ (toString i).toList ++ " must be a non-empty string".toList)

/-- `_validate_value`: none if valid. -/
def validateValue (field : ConfigField) (value : Value) : Except Overflow (Option Text) :=
  match value with
  | .null => .ok none
  | value =>
      match field.valueType with
      | .string | .url | .filePath | .runtimeName =>
          match value with
          | .str s =>
              match field.pattern with
              | some pattern =>
                  .ok (if W.search pattern s then none
                    else some ("value does not match pattern ".toList ++ W.repr (.str pattern)))
              | none => .ok none
          | value => .ok (some (expected "string" value))
      | .secret =>
          match value with
          | .str s =>
              .ok (if s = redacted then some "refusing to write the literal redacted value back".toList
                else none)
          | value => .ok (some (expected "string" value))
      | .integer =>
          match value with
          | .int n => .ok (outOfRange W field n)
          | value => .ok (some (expected "integer" value))
      | .number | .duration =>
          match value with
          | .int n => if fitsFloat n then .ok (outOfRange W field n) else .error .overflow
          | .float (.fin q) => .ok (outOfRange W field q)
          | .float _ => .ok (some "must be a finite number".toList)
          | value => .ok (some (expected "number" value))
      | .boolean =>
          match value with
          | .bool _ => .ok none
          | value => .ok (some (expected "boolean" value))
      | .enum =>
          match value with
          | .str s =>
              .ok (if s ∈ field.enumValues.getD [] then none
                else some ("must be one of ".toList ++
                  W.repr (.seq ((field.enumValues.getD []).map .str))))
          | value => .ok (some (expected "string" value))
      | .stringList =>
          match value with
          | .seq items =>
              .ok (((items.mapIdx badEntry).reduceOption.head?).or
                (if 100 < items.length then some "at most 100 entries".toList else none))
          | value => .ok (some (expected "a list of strings" value))
      | vt => .ok (some ("unsupported valueType: ".toList ++ vt.name))

/-- No number of this value is too large for a `float`. -/
def measurable (field : ConfigField) (value : Value) : Bool :=
  match field.valueType, value with
  | .number, .int n => fitsFloat n
  | .duration, .int n => fitsFloat n
  | _, _ => true

/-! ## Envelopes -/

def envelopeAlg : Text := "secretbox-xsalsa20poly1305".toList

/-- `is_envelope`. -/
def isEnvelope (value : Value) : Bool :=
  match value with
  | .map items =>
      ((Value.lookup items "alg".toList).any (·.isStr envelopeAlg)) &&
        (Value.lookup items "nonce".toList).isSome && (Value.lookup items "ciphertext".toList).isSome
  | _ => false

/-! ## The fields -/

/-- The fields a store is for. -/
structure Schema where
  fields : List ConfigField
  /-- `_FIELDS_BY_KEY` has the field itself: one that is listed twice is the
  same both times. -/
  alike : ∀ f ∈ fields, fields.reverse.find? (fun g => g.key = f.key) = some f
  /-- A default is neither an envelope nor an empty secret. -/
  defaults : fields.all (fun f => !isEnvelope f.default && (f.default.isNull || !isUnset f f.default)) = true
  /-- What is sealed is a secret that has no default. -/
  sealed : fields.all (fun f => !f.sensitive || (f.valueType = .secret && f.default.isNull)) = true

/-- `_FIELDS_BY_KEY.get`. -/
def Schema.byKey (S : Schema) (key : Text) : Option ConfigField :=
  S.fields.reverse.find? fun f => f.key = key

/-- `_custom_backend_fields`, which two providers have. -/
def customBackendFields : List ConfigField :=
  [{ key := "wireDialect".toList, valueType := .enum, default := .str "auto".toList,
     enumValues := ["auto".toList, "compatible".toList, "openai".toList, "openrouter".toList,
       "ollama".toList, "lmstudio".toList], requiresRestart := true },
   { key := "runtimeName".toList, valueType := .runtimeName, requiresRestart := true },
   { key := "baseUrl".toList, valueType := .url, requiresRestart := true }]

/-- `FIELDS`. -/
def fields : List ConfigField :=
  [{ key := "provider".toList, valueType := .enum, default := .str "claude_subscription".toList,
     enumValues := ["strata_local".toList, "claude_subscription".toList,
       "chatgpt_subscription".toList, "openai".toList, "xai".toList, "openrouter".toList,
       "minimax".toList, "ollama_local".toList, "lmstudio_local".toList,
       "openai_compat_custom".toList, "elevenlabs".toList, "gemini".toList, "typesafe".toList,
       "openrouter_systemone".toList, "systemone_custom".toList], requiresRestart := true },
   { key := "claudeCodeCliPath".toList, valueType := .filePath, default := .str "claude".toList,
     requiresRestart := true },
   { key := "codexCliPath".toList, valueType := .filePath, default := .str "codex".toList,
     requiresRestart := true },
   { key := "apiKey".toList, valueType := .secret, sensitive := true, requiresRestart := true },
   { key := "streamStallSeconds".toList, valueType := .duration, default := .float (.fin 30),
     minimum := some 0, maximum := some 600, requiresRestart := true },
   { key := "slotPinning".toList, valueType := .boolean, default := .bool false,
     requiresRestart := true },
   { key := "catalogueInclude".toList, valueType := .stringList, default := .seq [.str "*".toList] },
   { key := "catalogueExclude".toList, valueType := .stringList, default := .seq [] },
   { key := "catalogueRefreshMinutes".toList, valueType := .integer, default := .int 60,
     minimum := some 1, maximum := some 1440 },
   { key := "decisionMaxConcurrent".toList, valueType := .integer, minimum := some 1,
     requiresRestart := true }] ++
  customBackendFields ++ customBackendFields ++
  [{ key := "modelId".toList, valueType := .string, requiresRestart := true },
   { key := "upstreamModelId".toList, valueType := .string, requiresRestart := true },
   { key := "backendLocality".toList, valueType := .enum, default := .str "unknown".toList,
     enumValues := ["unknown".toList, "local".toList, "external".toList], requiresRestart := true },
   { key := "thinkingMode".toList, valueType := .enum, default := .str "auto".toList,
     enumValues := ["auto".toList, "off".toList, "low".toList, "medium".toList, "high".toList],
     requiresRestart := true },
   { key := "logLevel".toList, valueType := .enum, default := .str "INFO".toList,
     enumValues := ["DEBUG".toList, "INFO".toList, "WARNING".toList, "ERROR".toList],
     requiresRestart := true },
   { key := "requestTimeoutSeconds".toList, valueType := .duration, default := .float (.fin 660),
     minimum := some 5, maximum := some 3600, requiresRestart := true }]

/-- The fields of the driver. -/
def driverSchema : Schema where
  fields := fields
  alike f hf := by
    simp only [fields, customBackendFields, List.cons_append, List.nil_append, List.mem_cons,
      List.not_mem_nil, or_false] at hf
    rcases hf with rfl | rfl | rfl | rfl | rfl | rfl | rfl | rfl | rfl | rfl | rfl | rfl | rfl | rfl |
      rfl | rfl | rfl | rfl | rfl | rfl | rfl | rfl <;> rfl
  defaults := by decide
  sealed := by decide

end InferenceDriver.Config

/-
# `OpenAi.Embed` — vectors, and the inputs they belong to

`embed` reads the vectors of an answer and puts them in the order of their
indices.  An entry whose `index` is no whole number is read by its position,
entry by entry, and that the indices make sense is checked by the number of
entries alone: an index given twice, one that there is no input for, or
indices beside positions put vectors beside inputs they do not belong to.
What `float` does not take is an exception that nobody catches.

`vectors_paired` is exactly when the answer is refused, or read as it is.
-/
import InferenceDriver.Lib.Keyed
import InferenceDriver.OpenAi.Verdict
import InferenceDriver.Py.Float

namespace InferenceDriver.OpenAi.Embed

open Checks Keyed

variable (E : Env) (ofText : Text → Option PyFloat) (repr : Json → Text)

/-! ## The answer, read -/

abbrev Vector := List PyFloat

structure EmbedResponse where
  embeddings : List Vector
  modelId : Text
  usage : Option Usage

/-- A `CliError` with no status. -/
def refuse {α : Type} (message : Text) : Except Failure α := .error (.cli message none)

/-- `[float(x) for x in vector]`. -/
def floats : List Json → Except Failure Vector
  | [] => .ok []
  | x :: xs => do
      let x ← require (floatOf ofText x) .uncaught
      let xs ← floats xs
      return x :: xs

/-- The index and the vector of one entry. -/
def rowOf (position : Nat) (entry : Json) : Except Failure (Int × Vector) :=
  match entry with
  | .obj o =>
      match Obj.get o "embedding" with
      | .str _ =>
          refuse ("openai_compat_http returned a base64 embedding for a float request; ".toList ++
            "the driver asks for floats and the gateway does any encoding".toList)
      | .arr (x :: xs) => (fun vector => (indexOf o position, vector)) <$> floats ofText (x :: xs)
      | _ => refuse ("openai_compat_http returned a malformed embedding: ".toList ++ repr entry)
  | _ => refuse ("openai_compat_http returned a malformed embedding entry: ".toList ++ repr entry)

variable {E ofText repr}

/-- Each entry has a whole number for its index. -/
def Numbered (entries : List Obj) (indices : List Nat) : Prop :=
  List.Forall₂ (fun o (i : Nat) => Obj.get o "index" = .int i) entries indices

/-- No entry has an index; `true` is none, but it is not none either. -/
def Unnumbered (entries : List Obj) : Prop := ∀ o ∈ entries, asInt (Obj.get o "index") = none

variable (ofText) in
/-- The embedding of an entry. -/
def embeddingOf (o : Obj) : Option Vector :=
  match Obj.get o "embedding" with
  | .arr items => (floats ofText items).toOption
  | _ => none

variable (ofText) in
/-- The vectors are the embeddings of as many entries, each index once: the
indices they have, or where none has one, their positions. -/
structure Paired (count : Nat) (entries : List Obj) (vectors : List Vector) : Prop where
  indices : ∃ indices : List Nat, (Numbered entries indices ∨ Unnumbered entries ∧ indices = List.range entries.length) ∧
    indices.Perm (List.range count) ∧
    ∀ (k : Nat) (o : Obj) (i : Nat), entries[k]? = some o → indices[k]? = some i →
      ∃ vector, embeddingOf ofText o = some vector ∧ vectors[i]? = some vector
  length : vectors.length = count

variable (ofText) in
/-- What an answer with an embedding for each input comes to. -/
def Answers (inputs : List Text) (body : Json) (r : EmbedResponse) : Prop :=
  ∃ entries : List Obj, Obj.get (dictOf body) "data" = .arr (entries.map .obj) ∧
    Paired ofText inputs.length entries r.embeddings

/-! ## What an answer comes to -/

end InferenceDriver.OpenAi.Embed

/-
# `OpenAi.Audio` — a spoken answer, fragment by fragment

`audio_out.py`: what the bytes of a clip are, and the assembly that turns
each upstream `delta.audio` into the fragment a caller is sent.  Base64 is
a parameter.
-/
import Mathlib
import InferenceDriver.Contract

namespace InferenceDriver.OpenAi

abbrev Bytes := List UInt8

/-- A byte at a position, as a number. -/
def byteAt (raw : Bytes) (i : Nat) : Nat := (raw.getD i 0).toNat

/-- `_MP3_KBPS`. -/
def mp3Kbps (version : Nat) : List Nat :=
  if version = 3 then [0, 32, 40, 48, 56, 64, 80, 96, 112, 128, 160, 192, 224, 256, 320]
  else [0, 8, 16, 24, 32, 40, 48, 56, 64, 80, 96, 112, 128, 144, 160]

/-- `_MP3_RATES`. -/
def mp3Rates (version : Nat) : List Nat :=
  if version = 3 then [44100, 48000, 32000]
  else if version = 2 then [22050, 24000, 16000]
  else [11025, 12000, 8000]

/-- `_mp3_frame_length`. -/
def mp3FrameLength (raw : Bytes) (start : Nat) : Option Nat :=
  let b₁ := byteAt raw (start + 1)
  let b₂ := byteAt raw (start + 2)
  if raw.length < start + 4 ∨ byteAt raw start ≠ 0xFF ∨ b₁ &&& 0xE0 ≠ 0xE0 then none
  else
    let version := b₁ >>> 3 &&& 3
    let layer := b₁ >>> 1 &&& 3
    let rateIndex := b₂ >>> 2 &&& 3
    let bitrateIndex := b₂ >>> 4
    if version = 1 ∨ layer ≠ 1 ∨ rateIndex = 3 ∨ bitrateIndex = 0 ∨ bitrateIndex = 15 then none
    else
      let kbps := (mp3Kbps version).getD bitrateIndex 0
      let rate := (mp3Rates version).getD rateIndex 1
      let padding := b₂ >>> 1 &&& 1
      some ((if version = 3 then 144 else 72) * kbps * 1000 / rate + padding)

def asciiBytes (s : String) : Bytes := s.toList.map fun c => UInt8.ofNat c.toNat

/-- `detect_format`. -/
def detectFormat (raw : Bytes) : AudioOutputFormat :=
  if raw.take 3 = asciiBytes "ID3" then .mp3
  else if ((mp3FrameLength raw 0).bind (mp3FrameLength raw)).isSome then .mp3
  else if raw.take 4 = asciiBytes "RIFF" ∧ (raw.drop 8).take 4 = asciiBytes "WAVE" then .wav
  else .pcm16

/-- `struct.pack("<I", n)`. -/
def pack32 (n : Nat) : Bytes := (List.range 4).map fun i => UInt8.ofNat (n >>> (8 * i))

/-- `struct.pack("<H", n)`. -/
def pack16 (n : Nat) : Bytes := (List.range 2).map fun i => UInt8.ofNat (n >>> (8 * i))

/-- `wav_from_pcm16`; none is a `struct.error`. -/
def wavFromPcm16 (samples : Bytes) : Option Bytes :=
  if 36 + samples.length < 2 ^ 32 then
    some (asciiBytes "RIFF" ++ pack32 (36 + samples.length) ++ asciiBytes "WAVEfmt " ++
      (pack32 16 ++ pack16 1 ++ pack16 1 ++ pack32 24000 ++ pack32 48000 ++ pack16 2 ++ pack16 16) ++
      asciiBytes "data" ++ pack32 samples.length ++ samples)
  else none

/-- `AudioAssembly`. -/
structure AudioAssembly where
  keep : Bool
  data : List Bytes := []
  transcript : List Text := []
  id : Option Text := none
  expiresAt : Option Int := none
  format : Option AudioOutputFormat := none

/-- `heard`. -/
def AudioAssembly.heard (a : AudioAssembly) : Bool := a.format.isSome || a.transcript ≠ []

/-- What the `data` of a fragment is, decoded; none when it has none. -/
def audioData (b64decode : Text → Option Bytes) (raw : Obj) : Except Text (Option (Text × Bytes)) :=
  match raw.get "data" with
  | .str (c :: cs) =>
      match b64decode (c :: cs) with
      | some decoded => .ok (some (c :: cs, decoded))
      | none => .error "the backend sent an audio fragment that is not base64".toList
  | _ => .ok none

/-- `feed`: the fragment to forward, if it carries anything; an error is a
`ValueError`. -/
def AudioAssembly.feed (b64decode : Text → Option Bytes) (a : AudioAssembly) (raw : Json) :
    Except Text (Option AudioDelta × AudioAssembly) :=
  match raw with
  | .obj raw => do
      let id := match Obj.get raw "id", a.id with
        | .str id, none => some id
        | _, _ => none
      let expiresAt := match Obj.get raw "expires_at", a.expiresAt with
        | .int n, none => some n
        | _, _ => none
      let transcript := match Obj.get raw "transcript" with
        | .str (c :: cs) => some (c :: cs)
        | _ => none
      let data ← audioData b64decode raw
      let format := match data, a.format with
        | some d, none => some (detectFormat d.2)
        | _, _ => none
      let out : AudioDelta := { data := data.map (·.1), format, id, transcript, expiresAt }
      return (if out = {} then none else some out,
        { a with
          data := if a.keep then a.data ++ (data.map (·.2)).toList else a.data
          transcript := a.transcript ++ transcript.toList
          id := a.id.or id
          expiresAt := a.expiresAt.or expiresAt
          format := a.format.or format })
  | _ => .ok (none, a)

/-- `result`; an error is a `struct.error`. -/
def AudioAssembly.result (b64encode : Bytes → Text) (a : AudioAssembly)
    (asked : AudioOutputFormat) : Option (Option GeneratedAudio) :=
  if ¬ a.heard then some none
  else
    let raw := a.data.flatten
    let format := a.format.getD .pcm16
    let transcript := if a.transcript.flatten = [] then none else some a.transcript.flatten
    let clip (raw : Bytes) (format : AudioOutputFormat) : GeneratedAudio :=
      { data := b64encode raw, format, id := a.id, transcript, expiresAt := a.expiresAt }
    if format = .pcm16 ∧ asked = .wav then
      (wavFromPcm16 raw).map fun raw => some (clip raw .wav)
    else some (some (clip raw format))

end InferenceDriver.OpenAi

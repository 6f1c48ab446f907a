/-
# `OpenAi.Clip` — a spoken answer, however it is cut

The fragments of a clip may be cut anywhere.  Put together they are the
clip, and so is what is sent on of them; but its format is read off the
first of them that has any bytes.  So it is the clip's own, if and only if
the clip is bare samples or what tells its format is all in that fragment
(`clip_told`): the tag of three bytes, a frame and the head of the next, or
the twelve bytes of a RIFF file.
-/
import InferenceDriver.OpenAi.Audio
import InferenceDriver.Py.Base64
import InferenceDriver.Lib.Checks

namespace InferenceDriver.OpenAi

open Base64 Checks

/-! ## Fragments -/

/-- Fragment after fragment, and what is sent on of each. -/
def AudioAssembly.feedAll (a : AudioAssembly) : List Json → Except Text (List AudioDelta × AudioAssembly)
  | [] => .ok ([], a)
  | raw :: raws => do
      let fed ← a.feed b64decode raw
      let others ← fed.2.feedAll raws
      return (fed.1.toList ++ others.1, others.2)

/-- The base64 that a fragment carries. -/
def carried (raw : Json) : Text :=
  match raw with
  | .obj raw =>
      match Obj.get raw "data" with
      | .str text => text
      | _ => []
  | _ => []

/-- A clip, cut into fragments. -/
structure Cut (raws : List Json) (pieces : List Bytes) (clip : Bytes) : Prop where
  each : List.Forall₂ (fun raw piece => b64decode (carried raw) = some piece) raws pieces
  whole : pieces.flatten = clip

/-- The first that has any bytes. -/
def firstPiece (pieces : List Bytes) : Option Bytes := pieces.find? fun piece => piece ≠ []

/-! ## What tells a format -/

def isId3 (raw : Bytes) : Prop := raw.take 3 = asciiBytes "ID3"

def isFrames (raw : Bytes) : Prop := ((mp3FrameLength raw 0).bind (mp3FrameLength raw)).isSome = true

def isRiff (raw : Bytes) : Prop := raw.take 4 = asciiBytes "RIFF" ∧ (raw.drop 8).take 4 = asciiBytes "WAVE"

/-- How many bytes it takes to tell the format of a clip that is not bare samples. -/
def toldBy (clip : Bytes) : Nat :=
  if clip.take 3 = asciiBytes "ID3" then 3
  else if ((mp3FrameLength clip 0).bind (mp3FrameLength clip)).isSome then (mp3FrameLength clip 0).getD 0 + 4
  else 12

variable {first rest : Bytes}

theorem take_append_eq {n : Nat} {word : Bytes} (hword : word.length = n) :
    first.take n = word ↔ (first ++ rest).take n = word ∧ n ≤ first.length := by
  constructor
  · intro h
    have hn : n ≤ first.length := by
      have hlength := congrArg List.length h
      rw [List.length_take, hword] at hlength
      omega
    exact ⟨(List.take_append_of_le_length hn).trans h, hn⟩
  · rintro ⟨h, hn⟩
    rwa [List.take_append_of_le_length hn] at h

theorem isId3_append : isId3 first ↔ isId3 (first ++ rest) ∧ 3 ≤ first.length := take_append_eq rfl

theorem byteAt_append {i : Nat} (h : i < first.length) : byteAt (first ++ rest) i = byteAt first i := by
  rw [byteAt, byteAt, List.getD_append _ _ _ _ h]

variable (rest) in
theorem mp3FrameLength_append {start n : Nat} : mp3FrameLength first start = some n ↔
    mp3FrameLength (first ++ rest) start = some n ∧ start + 4 ≤ first.length := by
  rcases Nat.lt_or_ge first.length (start + 4) with hshort | hlong
  · have hnone : mp3FrameLength first start = none := if_pos (.inl hshort)
    rw [hnone]
    constructor
    · intro h
      cases h
    · rintro ⟨-, h⟩
      omega
  · have hsame : mp3FrameLength (first ++ rest) start = mp3FrameLength first start := by
      have hfirst : ¬ first.length < start + 4 := Nat.not_lt.mpr hlong
      have hboth : ¬ (first ++ rest).length < start + 4 := by
        rw [List.length_append]
        omega
      rw [mp3FrameLength, mp3FrameLength, byteAt_append (by omega), byteAt_append (by omega),
        byteAt_append (by omega)]
      simp only [hfirst, hboth]
    rw [hsame]
    exact ⟨fun h => ⟨h, hlong⟩, fun h => h.1⟩

theorem isFrames_iff {raw : Bytes} : isFrames raw ↔ ∃ n m, mp3FrameLength raw 0 = some n ∧ mp3FrameLength raw n = some m := by
  simp only [isFrames, Option.isSome_iff_exists, Option.bind_eq_some_iff]
  exact exists_comm

theorem isFrames_append : isFrames first ↔
    ∃ n m, mp3FrameLength (first ++ rest) 0 = some n ∧ mp3FrameLength (first ++ rest) n = some m ∧
      n + 4 ≤ first.length := by
  rw [isFrames_iff]
  constructor
  · rintro ⟨n, m, hn, hm⟩
    obtain ⟨hm, hlength⟩ := (mp3FrameLength_append rest).mp hm
    exact ⟨n, m, ((mp3FrameLength_append rest).mp hn).1, hm, hlength⟩
  · rintro ⟨n, m, hn, hm, hlength⟩
    exact ⟨n, m, (mp3FrameLength_append rest).mpr ⟨hn, by omega⟩, (mp3FrameLength_append rest).mpr ⟨hm, hlength⟩⟩

theorem isRiff_append : isRiff first ↔ isRiff (first ++ rest) ∧ 12 ≤ first.length := by
  have hriff : first.take 4 = asciiBytes "RIFF" ↔ (first ++ rest).take 4 = asciiBytes "RIFF" ∧ 4 ≤ first.length :=
    take_append_eq rfl
  have hwave : (first.drop 8).take 4 = asciiBytes "WAVE" ↔
      (first.drop 8 ++ rest).take 4 = asciiBytes "WAVE" ∧ 4 ≤ (first.drop 8).length := take_append_eq rfl
  rw [List.length_drop] at hwave
  rw [isRiff, isRiff, hriff, hwave]
  constructor
  · rintro ⟨⟨hriff, hfour⟩, hwave, htwelve⟩
    refine ⟨⟨hriff, ?_⟩, by omega⟩
    rwa [List.drop_append_of_le_length (by omega)]
  · rintro ⟨⟨hriff, hwave⟩, htwelve⟩
    rw [List.drop_append_of_le_length (by omega)] at hwave
    exact ⟨⟨hriff, by omega⟩, hwave, by omega⟩

/-- No frame begins as a RIFF file does. -/
theorem not_isFrames_of_isRiff {raw : Bytes} (h : isRiff raw) : ¬ isFrames raw := by
  rw [isFrames_iff]
  rintro ⟨n, m, hn, -⟩
  have hbyte : byteAt raw 0 ≠ 0xFF := by
    cases raw with
    | nil => decide
    | cons b raw =>
        have hb : b = 82 := List.head_eq_of_cons_eq h.1
        rw [hb]
        exact fun h => by cases h
  have hnone : mp3FrameLength raw 0 = none := if_pos (.inr (.inl hbyte))
  rw [hnone] at hn
  cases hn

theorem detectFormat_mp3 {raw : Bytes} (h : isId3 raw ∨ isFrames raw) : detectFormat raw = .mp3 := by
  rw [detectFormat]
  split
  · rfl
  · rename_i hid3
    exact if_pos (h.resolve_left hid3)

theorem detectFormat_wav {raw : Bytes} (h : ¬ (isId3 raw ∨ isFrames raw)) (hriff : isRiff raw) :
    detectFormat raw = .wav := by
  exact (if_neg fun hid3 => h (.inl hid3)).trans ((if_neg fun hframes => h (.inr hframes)).trans (if_pos hriff))

theorem detectFormat_pcm16 {raw : Bytes} (h : ¬ (isId3 raw ∨ isFrames raw)) (hriff : ¬ isRiff raw) :
    detectFormat raw = .pcm16 := by
  exact (if_neg fun hid3 => h (.inl hid3)).trans ((if_neg fun hframes => h (.inr hframes)).trans (if_neg hriff))

theorem detectFormat_eq_mp3 {raw : Bytes} : detectFormat raw = .mp3 ↔ isId3 raw ∨ isFrames raw := by
  refine ⟨fun h => ?_, detectFormat_mp3⟩
  rcases Classical.em (isId3 raw ∨ isFrames raw) with hmp3 | hmp3
  · exact hmp3
  · rcases Classical.em (isRiff raw) with hriff | hriff
    · cases h.symm.trans (detectFormat_wav hmp3 hriff)
    · cases h.symm.trans (detectFormat_pcm16 hmp3 hriff)

theorem detectFormat_eq_wav {raw : Bytes} : detectFormat raw = .wav ↔ ¬ (isId3 raw ∨ isFrames raw) ∧ isRiff raw := by
  refine ⟨fun h => ?_, fun h => detectFormat_wav h.1 h.2⟩
  rcases Classical.em (isId3 raw ∨ isFrames raw) with hmp3 | hmp3
  · cases h.symm.trans (detectFormat_mp3 hmp3)
  · rcases Classical.em (isRiff raw) with hriff | hriff
    · exact ⟨hmp3, hriff⟩
    · cases h.symm.trans (detectFormat_pcm16 hmp3 hriff)

/-- The first bytes tell the format of a clip that is not bare samples, when
they are enough. -/
theorem detectFormat_append : detectFormat first = detectFormat (first ++ rest) ↔
    detectFormat (first ++ rest) = .pcm16 ∨ toldBy (first ++ rest) ≤ first.length := by
  have hid3' : isId3 first ↔ isId3 (first ++ rest) ∧ 3 ≤ first.length := isId3_append
  have hriff' : isRiff first ↔ isRiff (first ++ rest) ∧ 12 ≤ first.length := isRiff_append
  have hframes' : isFrames first ↔ ∃ n m, mp3FrameLength (first ++ rest) 0 = some n ∧
      mp3FrameLength (first ++ rest) n = some m ∧ n + 4 ≤ first.length := isFrames_append
  rcases Classical.em (isId3 (first ++ rest)) with hid3 | hid3
  · have htold : toldBy (first ++ rest) = 3 := if_pos hid3
    rw [detectFormat_mp3 (.inl hid3), htold, detectFormat_eq_mp3, hid3', hframes']
    constructor
    · rintro (⟨-, hlength⟩ | ⟨n, m, -, -, hlength⟩)
      · exact .inr hlength
      · exact .inr (by omega)
    · rintro (h | hlength)
      · cases h
      · exact .inl ⟨hid3, hlength⟩
  · have hno : ¬ isId3 first := fun h => hid3 (hid3'.mp h).1
    rcases Classical.em (isFrames (first ++ rest)) with hframes | hframes
    · obtain ⟨n, m, hn, hm⟩ := isFrames_iff.mp hframes
      have htold : toldBy (first ++ rest) = n + 4 := by
        refine (if_neg hid3).trans ((if_pos hframes).trans ?_)
        rw [hn]
        rfl
      rw [detectFormat_mp3 (.inr hframes), htold, detectFormat_eq_mp3, hframes']
      constructor
      · rintro (h | ⟨n', m', hn', -, hlength⟩)
        · exact (hno h).elim
        · cases hn.symm.trans hn'
          exact .inr hlength
      · rintro (h | hlength)
        · cases h
        · exact .inr ⟨n, m, hn, hm, hlength⟩
    · have hneither : ¬ (isId3 (first ++ rest) ∨ isFrames (first ++ rest)) := not_or.mpr ⟨hid3, hframes⟩
      have hfirst : ¬ (isId3 first ∨ isFrames first) := by
        rintro (h | h)
        · exact hno h
        · obtain ⟨n, m, hn, hm, -⟩ := hframes'.mp h
          exact hframes (isFrames_iff.mpr ⟨n, m, hn, hm⟩)
      rcases Classical.em (isRiff (first ++ rest)) with hriff | hriff
      · have htold : toldBy (first ++ rest) = 12 := (if_neg hid3).trans (if_neg hframes)
        rw [detectFormat_wav hneither hriff, htold, detectFormat_eq_wav, hriff']
        constructor
        · rintro ⟨-, -, hlength⟩
          exact .inr hlength
        · rintro (h | hlength)
          · cases h
          · exact ⟨hfirst, hriff, hlength⟩
      · have hnoriff : ¬ isRiff first := fun h => hriff (hriff'.mp h).1
        rw [detectFormat_pcm16 hneither hriff, detectFormat_pcm16 hfirst hnoriff]
        exact ⟨fun _ => .inl rfl, fun _ => rfl⟩

/-! ## One fragment -/

/-- The text of a fragment, if it has any. -/
def orNone (text : Text) : Option Text := if text = [] then none else some text

theorem orNone_eq_none {text : Text} : orNone text = none ↔ text = [] := by
  rw [orNone]
  split
  · rename_i h
    exact ⟨fun _ => h, fun _ => rfl⟩
  · rename_i h
    exact ⟨fun hno => (by cases hno), fun hno => (h hno).elim⟩

theorem audioData_carried {raw : Obj} {piece : Bytes} (h : b64decode (carried (.obj raw)) = some piece) :
    audioData b64decode raw = .ok ((orNone (carried (.obj raw))).map fun text => (text, piece)) := by
  rw [carried] at h ⊢
  rw [audioData]
  cases hdata : Obj.get raw "data" with
  | str text =>
      rw [hdata] at h
      cases text with
      | nil => rfl
      | cons c text =>
          simp only at h ⊢
          rw [h]
          rfl
  | _ => rfl

/-- What is sent on, unless it carries nothing. -/
theorem unless_empty {α : Type} (out : AudioDelta) (f : AudioDelta → Option α) (h : f {} = none) :
    (if out = {} then none else some out).bind f = f out := by
  split
  · rename_i hout
    rw [hout]
    exact h.symm
  · rfl

theorem feed_carried (a : AudioAssembly) {raw : Json} {piece : Bytes} (h : b64decode (carried raw) = some piece) :
    ∃ out a', a.feed b64decode raw = .ok (out, a') ∧ a'.keep = a.keep ∧
      a'.data.flatten = (if a.keep then a.data.flatten ++ piece else a.data.flatten) ∧
      a'.format = a.format.or ((orNone (carried raw)).map fun _ => detectFormat piece) ∧
      out.bind AudioDelta.data = orNone (carried raw) ∧
      out.bind AudioDelta.format =
        (if a.format.isSome then none else (orNone (carried raw)).map fun _ => detectFormat piece) := by
  cases raw with
  | obj raw =>
      have hdata := audioData_carried h
      have hnil : orNone (carried (.obj raw)) = none → piece = [] :=
        fun hnone => (b64decode_eq_nil h).mpr (orNone_eq_none.mp hnone)
      simp only [AudioAssembly.feed, hdata, bind, Except.bind, pure, Except.pure]
      refine ⟨_, _, rfl, rfl, ?_, ?_, (unless_empty _ AudioDelta.data rfl).trans ?_,
        (unless_empty _ AudioDelta.format rfl).trans ?_⟩
      · cases hcarried : orNone (carried (.obj raw)) with
        | none =>
            rw [hnil hcarried, List.append_nil, ite_self]
            cases a.keep with
            | true => exact congrArg List.flatten (List.append_nil a.data)
            | false => rfl
        | some text =>
            cases a.keep with
            | true => exact List.flatten_concat
            | false => rfl
      · cases orNone (carried (.obj raw)) with
        | none => cases a.format <;> rfl
        | some text => cases a.format <;> rfl
      · cases orNone (carried (.obj raw)) <;> rfl
      · cases orNone (carried (.obj raw)) with
        | none => cases a.format <;> rfl
        | some text => cases a.format <;> rfl
  | _ =>
      cases h
      refine ⟨none, a, rfl, rfl, ?_, Option.or_none.symm, rfl, ?_⟩
      · rw [List.append_nil, ite_self]
      · exact (ite_self _).symm

/-! ## Fragment after fragment -/

theorem filterMap_toList {α β : Type} (f : α → Option β) (out : Option α) :
    out.toList.filterMap f = (out.bind f).toList := by
  cases out with
  | none => rfl
  | some a => exact List.filterMap_cons.trans (by cases h : f a <;> simp [h])

theorem map_orNone {text : Text} {piece : Bytes} (h : b64decode text = some piece) (format : AudioOutputFormat) :
    ((orNone text).map fun _ => format) = if piece = [] then none else some format := by
  rcases Classical.em (piece = []) with hnil | hnil
  · rw [orNone_eq_none.mpr ((b64decode_eq_nil h).mp hnil), if_pos hnil]
    rfl
  · rw [orNone, if_neg fun htext => hnil ((b64decode_eq_nil h).mpr htext), if_neg hnil]
    rfl

theorem firstPiece_cons (piece : Bytes) (pieces : List Bytes) :
    firstPiece (piece :: pieces) = if piece = [] then firstPiece pieces else some piece := by
  rw [firstPiece, List.find?_cons]
  split
  · rename_i h
    exact (if_neg (of_decide_eq_true h)).symm
  · rename_i h
    exact (if_pos (not_not.mp (of_decide_eq_false h))).symm

theorem feedAll_cut {raws : List Json} {pieces : List Bytes}
    (h : List.Forall₂ (fun raw piece => b64decode (carried raw) = some piece) raws pieces) (a : AudioAssembly) :
    ∃ sent a', a.feedAll raws = .ok (sent, a') ∧ a'.keep = a.keep ∧
      a'.data.flatten = (if a.keep then a.data.flatten ++ pieces.flatten else a.data.flatten) ∧
      a'.format = a.format.or ((firstPiece pieces).map detectFormat) ∧
      (∃ parts, (sent.filterMap AudioDelta.data).mapM b64decode = some parts ∧ parts.flatten = pieces.flatten) ∧
      sent.filterMap AudioDelta.format =
        (if a.format.isSome then [] else ((firstPiece pieces).map detectFormat).toList) := by
  induction h generalizing a with
  | nil =>
      refine ⟨[], a, rfl, rfl, ?_, Option.or_none.symm, ⟨[], rfl, rfl⟩, (ite_self _).symm⟩
      rw [List.flatten_nil, List.append_nil, ite_self]
  | @cons raw piece raws pieces hpiece _ ih =>
      obtain ⟨out, a₁, hfeed, hkeep, hdata, hformat, hout, houtFormat⟩ := feed_carried a hpiece
      obtain ⟨sent, a₂, hrest, hkeep', hdata', hformat', ⟨parts, hparts, hflatten⟩, hnamed⟩ := ih a₁
      rw [map_orNone hpiece] at hformat houtFormat
      refine ⟨out.toList ++ sent, a₂, ?_, hkeep'.trans hkeep, ?_, ?_, ?_, ?_⟩
      · rw [AudioAssembly.feedAll, hfeed]
        exact bind_eq_ok.mpr ⟨_, rfl, bind_eq_ok.mpr ⟨_, hrest, rfl⟩⟩
      · rw [hdata', hkeep, hdata]
        cases a.keep with
        | true => exact (List.append_assoc _ _ _).trans rfl
        | false => rfl
      · rw [hformat', hformat, firstPiece_cons, Option.or_assoc]
        split
        · exact congrArg _ Option.none_or
        · exact congrArg _ Option.some_or
      · rw [List.filterMap_append, filterMap_toList, hout, orNone]
        split
        · rename_i htext
          rw [(b64decode_eq_nil hpiece).mpr htext]
          exact ⟨parts, hparts, hflatten⟩
        · refine ⟨piece :: parts, ?_, congrArg (piece ++ ·) hflatten⟩
          show (carried raw :: sent.filterMap AudioDelta.data).mapM b64decode = _
          rw [List.mapM_cons, hpiece, hparts]
          rfl
      · rw [List.filterMap_append, filterMap_toList, houtFormat, hnamed, hformat, firstPiece_cons]
        cases a.format with
        | some f => rfl
        | none =>
            rcases Classical.em (piece = []) with hnil | hnil
            · rw [if_pos hnil, if_pos hnil]
              rfl
            · rw [if_neg hnil, if_neg hnil]
              rfl

/-! ## The whole clip -/

/-- A clip is spoken as it is: what is sent on of it, and what is put
together. -/
structure Spoken (raws : List Json) (clip : Bytes) : Prop where
  streamed : ∃ sent a, AudioAssembly.feedAll { keep := false } raws = .ok (sent, a) ∧
    (∃ parts, (sent.filterMap AudioDelta.data).mapM b64decode = some parts ∧ parts.flatten = clip) ∧
    sent.filterMap AudioDelta.format = if clip = [] then [] else [detectFormat clip]
  assembled : ∃ sent a, AudioAssembly.feedAll { keep := true } raws = .ok (sent, a) ∧
    (clip ≠ [] → a.heard = true) ∧
    ∀ asked, a.heard = true → ∃ g, a.result b64encode asked = some (some g) ∧
      if detectFormat clip = .pcm16 ∧ asked = .wav then
        g.format = .wav ∧ ∃ file, wavFromPcm16 clip = some file ∧ b64decode g.data = some file
      else g.format = detectFormat clip ∧ b64decode g.data = some clip

theorem wavFromPcm16_isSome {samples : Bytes} : (∃ file, wavFromPcm16 samples = some file) ↔ 36 + samples.length < 2 ^ 32 := by
  rw [wavFromPcm16]
  split
  · rename_i h
    exact ⟨fun _ => h, fun _ => ⟨_, rfl⟩⟩
  · rename_i h
    refine ⟨?_, fun hlength => (h hlength).elim⟩
    rintro ⟨file, hfile⟩
    cases hfile

theorem firstPiece_spec (pieces : List Bytes) : (firstPiece pieces = none ∧ pieces.flatten = []) ∨
    ∃ first rest, firstPiece pieces = some first ∧ first ≠ [] ∧ pieces.flatten = first ++ rest := by
  induction pieces with
  | nil => exact .inl ⟨rfl, rfl⟩
  | cons piece pieces ih =>
      rw [firstPiece_cons]
      rcases Classical.em (piece = []) with hnil | hnil
      · rw [if_pos hnil, hnil]
        exact ih
      · rw [if_neg hnil]
        exact .inr ⟨piece, pieces.flatten, rfl, hnil, rfl⟩

/-- What is put together of a clip whose format is named right. -/
theorem result_eq {a : AudioAssembly} {clip : Bytes} (hheard : a.heard = true) (hdata : a.data.flatten = clip)
    (hformat : a.format.getD .pcm16 = detectFormat clip) (asked : AudioOutputFormat)
    (hfits : detectFormat clip = .pcm16 → 36 + clip.length < 2 ^ 32) :
    ∃ g, a.result b64encode asked = some (some g) ∧
      if detectFormat clip = .pcm16 ∧ asked = .wav then
        g.format = .wav ∧ ∃ file, wavFromPcm16 clip = some file ∧ b64decode g.data = some file
      else g.format = detectFormat clip ∧ b64decode g.data = some clip := by
  rw [AudioAssembly.result, if_neg (not_not.mpr hheard), hdata, hformat]
  rcases Classical.em (detectFormat clip = .pcm16 ∧ asked = .wav) with hwav | hwav
  · obtain ⟨file, hfile⟩ := wavFromPcm16_isSome.mpr (hfits hwav.1)
    simp only [if_pos hwav, hfile]
    exact ⟨_, rfl, rfl, file, rfl, b64decode_b64encode file⟩
  · simp only [if_neg hwav]
    exact ⟨_, rfl, rfl, b64decode_b64encode clip⟩

/-- **A clip is spoken as it is** if and only if it is bare samples (no more
than a WAV header can count), or what tells its format is in the first
fragment that has any bytes. -/
theorem clip_told {raws : List Json} {pieces : List Bytes} {clip : Bytes} (h : Cut raws pieces clip) :
    Spoken raws clip ↔ (detectFormat clip = .pcm16 → 36 + clip.length < 2 ^ 32) ∧
      (detectFormat clip = .pcm16 ∨ ∀ first, firstPiece pieces = some first → toldBy clip ≤ first.length) := by
  obtain ⟨sent, a, hfeed, -, -, -, hparts, hnamed⟩ := feedAll_cut h.each { keep := false }
  obtain ⟨sent', a', hfeed', -, hdata', hformat', -, -⟩ := feedAll_cut h.each { keep := true }
  rw [h.whole] at hparts hdata'
  have hspec := firstPiece_spec pieces
  rw [h.whole] at hspec
  constructor
  · rintro ⟨⟨sent₁, a₁, hfeed₁, -, hnamed₁⟩, ⟨sent₂, a₂, hfeed₂, hheard, hresult⟩⟩
    cases hfeed.symm.trans hfeed₁
    cases hfeed'.symm.trans hfeed₂
    have htold : ∀ first, firstPiece pieces = some first → detectFormat first = detectFormat clip := by
      intro first hfirst
      obtain ⟨hno, -⟩ | ⟨first', rest, hfirst', hne, hclip⟩ := hspec
      · cases hno.symm.trans hfirst
      · have hclip' : clip ≠ [] := by
          rw [hclip]
          exact List.append_ne_nil_of_left_ne_nil hne rest
        rw [hnamed, hfirst, if_neg hclip'] at hnamed₁
        exact List.head_eq_of_cons_eq hnamed₁
    refine ⟨fun hpcm16 => ?_, ?_⟩
    · rcases Classical.em (clip = []) with hnil | hnil
      · rw [hnil]
        decide
      · obtain ⟨g, -, hg⟩ := hresult .wav (hheard hnil)
        rw [if_pos ⟨hpcm16, rfl⟩] at hg
        obtain ⟨-, file, hfile, -⟩ := hg
        exact wavFromPcm16_isSome.mp ⟨file, hfile⟩
    · rcases Classical.em (detectFormat clip = .pcm16) with hpcm16 | hpcm16
      · exact .inl hpcm16
      · refine .inr fun first hfirst => ?_
        obtain ⟨hno, -⟩ | ⟨first', rest, hfirst', -, hclip⟩ := hspec
        · cases hno.symm.trans hfirst
        · cases hfirst.symm.trans hfirst'
          have hsame := htold first hfirst
          rw [hclip] at hsame hpcm16 ⊢
          exact (detectFormat_append.mp hsame).resolve_left hpcm16
  · rintro ⟨hfits, htold⟩
    have hfirst : (firstPiece pieces).map detectFormat = if clip = [] then none else some (detectFormat clip) := by
      obtain ⟨hno, hclip⟩ | ⟨first, rest, hfirst, hne, hclip⟩ := hspec
      · rw [hno, if_pos hclip]
        rfl
      · have hclip' : clip ≠ [] := by
          rw [hclip]
          exact List.append_ne_nil_of_left_ne_nil hne rest
        rw [if_neg hclip', hfirst, hclip]
        refine congrArg some (detectFormat_append.mpr ?_)
        rw [← hclip]
        exact htold.imp_right fun htold => htold first hfirst
    rw [hfirst] at hnamed hformat'
    have hnone : ({ keep := true } : AudioAssembly).format = none := rfl
    rw [hnone, Option.none_or] at hformat'
    refine ⟨⟨sent, a, hfeed, hparts, ?_⟩, sent', a', hfeed', fun hclip => ?_, fun asked hheard => ?_⟩
    · rw [hnamed]
      split
      · rename_i h
        cases h
      · split
        · rfl
        · rfl
    · rw [AudioAssembly.heard, hformat', if_neg hclip]
      rfl
    · refine result_eq hheard hdata' ?_ asked hfits
      rw [hformat']
      split
      · rename_i hclip
        rw [hclip]
        rfl
      · rfl

/-- Seven bytes of bare samples, in two fragments that carry more than them. -/
theorem clip_told_two : Spoken
    [.ofFields [("data", .str "AQIDBA==".toList), ("id", .str "a".toList)],
      .ofFields [("data", .str "BQYH".toList), ("transcript", .str "hi".toList)]] [1, 2, 3, 4, 5, 6, 7] := by
  have hcut : Cut [.ofFields [("data", .str "AQIDBA==".toList), ("id", .str "a".toList)],
      .ofFields [("data", .str "BQYH".toList), ("transcript", .str "hi".toList)]] [[1, 2, 3, 4], [5, 6, 7]]
      [1, 2, 3, 4, 5, 6, 7] := ⟨.cons rfl (.cons rfl .nil), rfl⟩
  exact (clip_told hcut).mpr ⟨fun _ => by decide, .inl rfl⟩

/-- An MP3 whose tag is cut after its first byte is named for bare samples. -/
theorem clip_told_tag : ¬ Spoken
    [.ofFields [("data", .str "SQ==".toList)], .ofFields [("data", .str "RDM=".toList)]] (asciiBytes "ID3") := by
  rintro ⟨⟨sent, a, hfeed, -, hnamed⟩, -⟩
  cases hfeed
  cases hnamed

end InferenceDriver.OpenAi

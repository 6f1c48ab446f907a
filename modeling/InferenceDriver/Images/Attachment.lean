/-
# `Images.Attachment` — one attachment of a request

`images.py` on a single image, clip or file: how each is decoded, measured
and held against its limit, and what it is refused with.  Pillow is a
parameter.  Before anything is decoded the length of the base64 is held
against the length the limit encodes to (`tooLong`).

`validateImage_ok`, `validateAudio_ok` and `validateFile_ok` say what an
attachment that passed is; `unread_iff` says which are refused for the length
of their text.
-/
import Mathlib
import InferenceDriver.Py.Base64

namespace InferenceDriver.Images

open Base64

/-! ## Limits -/

def maxImages : Nat := 64

def maxImageBytes : Nat := 5 * 1024 * 1024

def maxTotalBytes : Nat := 10 * 1024 * 1024

def maxPixels : Int := 16000000

def maxDimension : Int := 8192

def maxAttachmentBytes : Nat := 10 * 1024 * 1024

def maxAttachmentsTotal : Nat := 11 * 1024 * 1024

/-- `ImageRefusal`. -/
structure ImageRefusal where
  field : Text
  reason : Text
deriving DecidableEq

/-- The length of the text is more than the limit encodes to. -/
def tooLong (limit : Nat) (encoded : Text) : Prop := 4 * ((limit + 2) / 3) < encoded.length

instance decidableTooLong (limit : Nat) (encoded : Text) : Decidable (tooLong limit encoded) :=
  inferInstanceAs (Decidable (_ < _))

/-! ## Images -/

inductive ImageFormat where
  | png
  | jpeg
deriving DecidableEq

/-- What Pillow says of an image it opened: `verify` and, once it is opened
again, `load` raise something or not. -/
structure Picture where
  width : Int
  height : Int
  animated : Bool
  verifies : Bool
  loads : Bool

/-- `Image.open`; none is one of the exceptions that are caught. -/
abbrev Pillow := ImageFormat → List UInt8 → Option Picture

/-- The format of a data URL, and its base64. -/
def imageData (url : Text) : Option (ImageFormat × Text) :=
  match partition ',' url with
  | (_, none) => none
  | (header, some encoded) =>
      if header = "data:image/png;base64".toList then some (.png, encoded)
      else if header = "data:image/jpeg;base64".toList then some (.jpeg, encoded)
      else none

/-- A picture that is too large, or of no size. -/
def Picture.oversized (p : Picture) : Prop :=
  maxDimension < max p.width p.height ∨ maxPixels < p.width * p.height ∨ min p.width p.height < 1

instance Picture.decidableOversized (p : Picture) : Decidable p.oversized :=
  inferInstanceAs (Decidable (_ ∨ _))

/-- `_validate_image`. -/
def validateImage (pillow : Pillow) (url field : Text) : Except ImageRefusal Nat :=
  let refuse (reason : String) : Except ImageRefusal Nat := .error ⟨field, reason.toList⟩
  match imageData url with
  | none => refuse "use an inline base64 PNG or JPEG; URLs are not fetched"
  | some (format, encoded) =>
      if tooLong maxImageBytes encoded then refuse "image exceeds the 5 MiB decoded limit"
      else
        match b64decode encoded with
        | none => refuse "image has invalid base64"
        | some data =>
            if data = [] ∨ maxImageBytes < data.length then
              refuse "image is empty or exceeds the 5 MiB decoded limit"
            else
              match pillow format data with
              | none => refuse "image is invalid or does not match its PNG/JPEG type"
              | some picture =>
                  if picture.oversized then
                    refuse "image exceeds 8192 pixels per side or 16 million pixels"
                  else if picture.animated then refuse "animated images are not supported"
                  else if picture.verifies ∧ picture.loads then .ok data.length
                  else refuse "image is invalid or does not match its PNG/JPEG type"

/-! ## Audio -/

inductive InputAudioFormat where
  | wav
  | mp3
deriving DecidableEq

def InputAudioFormat.value : InputAudioFormat → Text
  | .wav => "wav".toList
  | .mp3 => "mp3".toList

/-- The bytes are what the format says: for MP3 an ID3 tag, or the eleven
sync bits of a frame. -/
def InputAudioFormat.heads (format : InputAudioFormat) (raw : List UInt8) : Bool :=
  match format with
  | .wav => raw.take 4 == [0x52, 0x49, 0x46, 0x46] && (raw.drop 8).take 4 == [0x57, 0x41, 0x56, 0x45]
  | .mp3 =>
      raw.take 3 == [0x49, 0x44, 0x33] ||
        (1 < raw.length && raw.getD 0 0 == 0xFF && raw.getD 1 0 &&& 0xE0 == 0xE0)

/-- `validate_audio`. -/
def validateAudio (data : Text) (format : InputAudioFormat) (field : Text) : Except ImageRefusal Nat :=
  let refuse (reason : Text) : Except ImageRefusal Nat := .error ⟨field, reason⟩
  if tooLong maxAttachmentBytes data then refuse "audio exceeds the 10 MiB decoded limit".toList
  else
    match b64decode data with
    | none => refuse "audio has invalid base64; send it without a data: prefix".toList
    | some raw =>
        if raw = [] ∨ maxAttachmentBytes < raw.length then
          refuse "audio is empty or exceeds the 10 MiB decoded limit".toList
        else if format.heads raw then .ok raw.length
        else refuse ("audio does not match its declared ".toList ++ format.value ++ " format".toList)

/-! ## Files -/

structure InputFile where
  filename : Option Text
  fileData : Option Text
  fileId : Option Text
deriving DecidableEq

/-- `_PDF_DATA_URL`. -/
def pdfDataUrl : Text := "data:application/pdf;base64,".toList

/-- The base64 of a file, given as a PDF data URL or bare; none is any other URL. -/
def pdfEncoded (data : Text) : Option Text :=
  if "data:".toList.isPrefixOf data then
    match partition ',' data with
    | (_, none) => none
    | (header, some encoded) => if header ++ [','] = pdfDataUrl then some encoded else none
  else some data

/-- `%PDF-`. -/
def pdfMark : List UInt8 := [0x25, 0x50, 0x44, 0x46, 0x2D]

/-- A field that is there and not empty. -/
def given (value : Option Text) : Option Text :=
  match value with
  | some [] => none
  | value => value

/-- `validate_file`: the file as a data URL, and its size. -/
def validateFile (file : InputFile) (field : Text) : Except ImageRefusal (Text × Nat) :=
  let refuse (key reason : String) : Except ImageRefusal (Text × Nat) :=
    .error ⟨field ++ key.toList, reason.toList⟩
  match given file.fileId with
  | some _ =>
      refuse ".file_id" "names an uploaded file, and this install has no file store; send file_data"
  | none =>
      match given file.fileData with
      | none => refuse ".file_data" "is required: send the PDF inline"
      | some data =>
          match pdfEncoded data with
          | none =>
              refuse ".file_data" "use a base64 PDF data URL (data:application/pdf;base64,...); other file types are not supported"
          | some encoded =>
              if tooLong maxAttachmentBytes encoded then
                refuse ".file_data" "file exceeds the 10 MiB decoded limit"
              else
                match b64decode encoded with
                | none =>
                    refuse ".file_data" "is neither a PDF data URL nor base64; URLs are not fetched"
                | some raw =>
                    if pdfMark.isPrefixOf raw then .ok (pdfDataUrl ++ encoded, raw.length)
                    else refuse ".file_data" "is not a PDF"

/-! ## Parts -/

inductive Detail where
  | auto
deriving DecidableEq

/-- One part of a message's content. -/
inductive Part where
  | text (text : Text)
  | image (url : Text) (detail : Option Detail)
  | audio (data : Text) (format : InputAudioFormat)
  | file (file : InputFile)
deriving DecidableEq

/-- The base64 that is decoded. -/
def Part.payload : Part → Option Text
  | .text _ => none
  | .image url _ => (imageData url).map Prod.snd
  | .audio data _ => some data
  | .file sent =>
      match given sent.fileId with
      | some _ => none
      | none => (given sent.fileData).bind pdfEncoded

/-- The bytes of an attachment. -/
def Part.bytes (p : Part) : Option (List UInt8) := p.payload.bind b64decode

/-- How many they are. -/
def Part.size (p : Part) : Nat := (p.bytes.map List.length).getD 0

/-- How many they may be. -/
def Part.limit : Part → Nat
  | .image _ _ => maxImageBytes
  | _ => maxAttachmentBytes

/-! ## What passed -/

/-- What an attachment may be. -/
def Part.Within (pillow : Pillow) : Part → Prop
  | .text _ => True
  | .image url _ => ∃ format encoded data picture,
      imageData url = some (format, encoded) ∧ b64decode encoded = some data ∧
      data ≠ [] ∧ data.length ≤ maxImageBytes ∧
      pillow format data = some picture ∧ ¬ picture.oversized ∧ picture.animated = false
  | .audio data format => ∃ raw, b64decode data = some raw ∧
      raw ≠ [] ∧ raw.length ≤ maxAttachmentBytes ∧ format.heads raw = true
  | .file sent => ∃ raw, (Part.file sent).bytes = some raw ∧
      pdfMark.isPrefixOf raw = true ∧ raw.length ≤ maxAttachmentBytes

theorem validateImage_ok {pillow : Pillow} {url field : Text} {n : Nat}
    (h : validateImage pillow url field = .ok n) (detail : Option Detail) :
    (Part.image url detail).Within pillow ∧ n = (Part.image url detail).size := by
  unfold validateImage at h
  split at h
  · cases h
  · rename_i format encoded hurl
    split at h
    · cases h
    · split at h
      · cases h
      · rename_i data hdata
        split at h
        · cases h
        · rename_i hsize
          obtain ⟨hne, hle⟩ := not_or.mp hsize
          split at h
          · cases h
          · rename_i picture hpicture
            split at h
            · cases h
            · rename_i hover
              split at h
              · cases h
              · rename_i hanimated
                split at h
                · cases h
                  refine ⟨⟨format, encoded, data, picture, hurl, hdata, hne, not_lt.mp hle, hpicture, hover,
                    Bool.eq_false_iff.mpr hanimated⟩, ?_⟩
                  rw [Part.size, Part.bytes, Part.payload, hurl, Option.map_some, Option.bind_some, hdata]
                  rfl
                · cases h

theorem validateAudio_ok {data : Text} {format : InputAudioFormat} {field : Text} {n : Nat}
    (h : validateAudio data format field = .ok n) (pillow : Pillow) :
    (Part.audio data format).Within pillow ∧ n = (Part.audio data format).size := by
  unfold validateAudio at h
  split at h
  · cases h
  · split at h
    · cases h
    · rename_i raw hraw
      split at h
      · cases h
      · rename_i hsize
        obtain ⟨hne, hle⟩ := not_or.mp hsize
        split at h
        · rename_i hheads
          cases h
          refine ⟨⟨raw, hraw, hne, not_lt.mp hle, hheads⟩, ?_⟩
          rw [Part.size, Part.bytes, Part.payload, Option.bind_some, hraw]
          rfl
        · cases h

/-- A file that passed is a PDF, of two bytes more than the limit at most. -/
structure PassedFile (file : InputFile) (url : Text) (n : Nat) (encoded : Text) (raw : List UInt8) : Prop where
  payload : (Part.file file).payload = some encoded
  unnamed : given file.fileId = none
  short : ¬ tooLong maxAttachmentBytes encoded
  decodes : b64decode encoded = some raw
  mark : pdfMark.isPrefixOf raw = true
  url_eq : url = pdfDataUrl ++ encoded
  size_eq : n = raw.length

theorem validateFile_ok {file : InputFile} {field url : Text} {n : Nat}
    (h : validateFile file field = .ok (url, n)) : ∃ encoded raw, PassedFile file url n encoded raw := by
  unfold validateFile at h
  split at h
  · cases h
  · rename_i hid
    split at h
    · cases h
    · rename_i data hdata
      split at h
      · cases h
      · rename_i encoded hencoded
        split at h
        · cases h
        · rename_i hshort
          split at h
          · cases h
          · rename_i raw hraw
            split at h
            · rename_i hmark
              cases h
              refine ⟨encoded, raw, ?_, hid, hshort, hraw, hmark, rfl, rfl⟩
              rw [Part.payload, hid, hdata]
              exact hencoded
            · cases h

namespace PassedFile

variable {file : InputFile} {url : Text} {n : Nat} {encoded : Text} {raw : List UInt8}

theorem bytes (h : PassedFile file url n encoded raw) : (Part.file file).bytes = some raw := by
  rw [Part.bytes, h.payload]
  exact h.decodes

theorem size (h : PassedFile file url n encoded raw) : n = (Part.file file).size := by
  rw [Part.size, h.bytes]
  exact h.size_eq

/-- What is left of the length check: the text of two bytes more is no longer. -/
theorem length_le (h : PassedFile file url n encoded raw) : raw.length ≤ maxAttachmentBytes + 2 := by
  have hshort := not_lt.mp h.short
  have hle : 4 * ((raw.length + 2) / 3) ≤ encoded.length := by
    rcases length_of_b64decode h.decodes with hlen | ⟨quads, pads, ho⟩
    · omega
    · rw [ho.text_eq, List.length_append]
      have := ho.length_eq
      omega
  unfold maxAttachmentBytes at *
  omega

theorem within_iff (h : PassedFile file url n encoded raw) (pillow : Pillow) :
    (Part.file file).Within pillow ↔ (Part.file file).size ≤ maxAttachmentBytes := by
  rw [← h.size, h.size_eq, Part.Within, h.bytes]
  constructor
  · rintro ⟨raw', hraw, -, hle⟩
    cases hraw
    exact hle
  · intro hle
    exact ⟨raw, rfl, h.mark, hle⟩

end PassedFile

/-- `header` of a PDF data URL. -/
def pdfHeader : Text := "data:application/pdf;base64".toList

theorem pdfDataUrl_eq : pdfDataUrl = pdfHeader ++ [','] := by decide

theorem pdfEncoded_url (encoded : Text) : pdfEncoded (pdfDataUrl ++ encoded) = some encoded := by
  have hdata : "data:".toList.isPrefixOf (pdfDataUrl ++ encoded) = true := by
    rw [List.isPrefixOf_iff_prefix]
    exact List.IsPrefix.trans (by decide) (List.prefix_append pdfDataUrl encoded)
  have hcomma : ',' ∉ pdfHeader := by decide
  have hsplit : partition ',' (pdfDataUrl ++ encoded) = (pdfHeader, some encoded) := by
    rw [pdfDataUrl_eq, List.append_assoc]
    exact partition_append hcomma encoded
  rw [pdfEncoded, if_pos hdata, hsplit]
  exact if_pos pdfDataUrl_eq.symm

/-- A file that passed passes again, as it was left. -/
theorem validateFile_again {file : InputFile} {field url : Text} {n : Nat}
    (h : validateFile file field = .ok (url, n)) :
    validateFile { file with fileData := some url } field = .ok (url, n) := by
  obtain ⟨encoded, raw, hp⟩ := validateFile_ok h
  have hgiven : given (some url) = some (pdfDataUrl ++ encoded) := by rw [hp.url_eq]; rfl
  unfold validateFile
  rw [hp.unnamed, hgiven]
  simp only
  rw [pdfEncoded_url]
  simp only
  rw [if_neg hp.short, hp.decodes]
  simp only
  rw [if_pos hp.mark, hp.url_eq, hp.size_eq]

/-! ## What is not read -/

/-- An attachment that is refused for the length of its base64. -/
def Part.Unread (pillow : Pillow) (field : Text) : Part → Prop
  | .text _ => False
  | .image url _ =>
      validateImage pillow url field = .error ⟨field, "image exceeds the 5 MiB decoded limit".toList⟩
  | .audio data format =>
      validateAudio data format field = .error ⟨field, "audio exceeds the 10 MiB decoded limit".toList⟩
  | .file sent =>
      validateFile sent field =
        .error ⟨field ++ ".file_data".toList, "file exceeds the 10 MiB decoded limit".toList⟩

theorem error_reason {α : Type} {field field' reason reason' : Text} (hne : reason ≠ reason') :
    (Except.error ⟨field, reason⟩ : Except ImageRefusal α) ≠ .error ⟨field', reason'⟩ :=
  fun h => hne (congrArg ImageRefusal.reason (Except.error.inj h))

theorem imageUnread_iff {pillow : Pillow} {url field : Text} :
    validateImage pillow url field = .error ⟨field, "image exceeds the 5 MiB decoded limit".toList⟩ ↔
      ∃ encoded, (imageData url).map Prod.snd = some encoded ∧ tooLong maxImageBytes encoded := by
  cases hurl : imageData url with
  | none =>
      constructor
      · intro h
        rw [validateImage, hurl] at h
        exact absurd h (error_reason (by decide))
      · rintro ⟨encoded, h, -⟩
        cases h
  | some found =>
      obtain ⟨format, encoded⟩ := found
      constructor
      · intro h
        refine ⟨encoded, rfl, ?_⟩
        by_contra hshort
        rw [validateImage, hurl] at h
        simp only at h
        rw [if_neg hshort] at h
        split at h
        · exact absurd h (error_reason (by decide))
        · split at h
          · exact absurd h (error_reason (by decide))
          · split at h
            · exact absurd h (error_reason (by decide))
            · split at h
              · exact absurd h (error_reason (by decide))
              · split at h
                · exact absurd h (error_reason (by decide))
                · split at h
                  · cases h
                  · exact absurd h (error_reason (by decide))
      · rintro ⟨encoded', h, hlong⟩
        cases h
        rw [validateImage, hurl]
        exact if_pos hlong

theorem audioUnread_iff {data : Text} {format : InputAudioFormat} {field : Text} :
    validateAudio data format field = .error ⟨field, "audio exceeds the 10 MiB decoded limit".toList⟩ ↔
      tooLong maxAttachmentBytes data := by
  constructor
  · intro h
    by_contra hshort
    rw [validateAudio, if_neg hshort] at h
    split at h
    · exact absurd h (error_reason (by decide))
    · split at h
      · exact absurd h (error_reason (by decide))
      · split at h
        · cases h
        · exact absurd h (error_reason (by cases format <;> decide))
  · intro hlong
    rw [validateAudio, if_pos hlong]

theorem fileUnread_iff {file : InputFile} {field : Text} :
    validateFile file field =
        .error ⟨field ++ ".file_data".toList, "file exceeds the 10 MiB decoded limit".toList⟩ ↔
      ∃ encoded, (Part.file file).payload = some encoded ∧ tooLong maxAttachmentBytes encoded := by
  have unread (hno : (Part.file file).payload = none) :
      ¬ ∃ encoded, (Part.file file).payload = some encoded ∧ tooLong maxAttachmentBytes encoded := by
    rintro ⟨encoded, h, -⟩
    rw [hno] at h
    cases h
  cases hid : given file.fileId with
  | some name =>
      refine iff_of_false (fun h => ?_) (unread (by rw [Part.payload, hid]))
      rw [validateFile, hid] at h
      exact absurd h (error_reason (by decide))
  | none =>
      cases hdata : given file.fileData with
      | none =>
          refine iff_of_false (fun h => ?_) (unread (by rw [Part.payload, hid, hdata]; rfl))
          rw [validateFile, hid, hdata] at h
          exact absurd h (error_reason (by decide))
      | some data =>
          cases hpdf : pdfEncoded data with
          | none =>
              refine iff_of_false (fun h => ?_) (unread (by rw [Part.payload, hid, hdata]; exact hpdf))
              rw [validateFile, hid, hdata] at h
              simp only [hpdf] at h
              exact absurd h (error_reason (by decide))
          | some encoded =>
              have hpayload : (Part.file file).payload = some encoded := by
                rw [Part.payload, hid, hdata]
                exact hpdf
              rw [validateFile, hid, hdata, hpayload]
              simp only [hpdf]
              constructor
              · intro h
                refine ⟨encoded, rfl, ?_⟩
                by_contra hshort
                rw [if_neg hshort] at h
                split at h
                · exact absurd h (error_reason (by decide))
                · split at h
                  · cases h
                  · exact absurd h (error_reason (by decide))
              · rintro ⟨encoded', h, hlong⟩
                cases h
                rw [if_pos hlong]

theorem unread_iff {pillow : Pillow} {field : Text} {p : Part} :
    p.Unread pillow field ↔ ∃ encoded, p.payload = some encoded ∧ tooLong p.limit encoded := by
  cases p with
  | text t => exact ⟨False.elim, fun h => by obtain ⟨_, h, -⟩ := h; cases h⟩
  | image url detail => exact imageUnread_iff
  | audio data format =>
      refine audioUnread_iff.trans ⟨fun h => ⟨data, rfl, h⟩, fun h => ?_⟩
      obtain ⟨encoded, h, hlong⟩ := h
      cases h
      exact hlong
  | file sent => exact fileUnread_iff

/-- The base64 of an attachment is whole quads within its limit, and so much
padding after them that the text is too long. -/
def Part.Padded (p : Part) : Prop :=
  ∃ encoded bytes quads pads, p.payload = some encoded ∧ Overpadded encoded bytes quads pads ∧
    bytes.length ≤ p.limit ∧ tooLong p.limit encoded

/-- **What is refused unread** is over its limit, unless it is padded. -/
theorem unread_over_iff {pillow : Pillow} {field : Text} {p : Part} :
    (p.Unread pillow field → ∀ bytes, p.bytes = some bytes → p.limit < bytes.length) ↔ ¬ p.Padded := by
  constructor
  · rintro h ⟨encoded, bytes, quads, pads, hp, ho, hle, hlong⟩
    have hbytes : p.bytes = some bytes := by
      rw [Part.bytes, hp, Option.bind_some, ho.text_eq]
      exact b64decode_pads pads ho.decodes ho.quads_ne ho.no_pad
    exact absurd (h (unread_iff.mpr ⟨encoded, hp, hlong⟩) bytes hbytes) (not_lt.mpr hle)
  · intro hpad hunread bytes hbytes
    obtain ⟨encoded, hp, hlong⟩ := unread_iff.mp hunread
    by_contra hle
    rw [Part.bytes, hp, Option.bind_some] at hbytes
    rcases length_of_b64decode hbytes with hlen | ⟨quads, pads, ho⟩
    · unfold tooLong at hlong
      omega
    · exact hpad ⟨encoded, bytes, quads, pads, hp, ho, not_lt.mp hle, hlong⟩

end InferenceDriver.Images

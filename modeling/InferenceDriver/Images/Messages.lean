/-
# `Images.Messages` — the attachments of a request

`validate_messages` of `images.py`: every attachment of every message in
order, with three running totals, rewriting as it goes.  A PDF sent as bare
base64 is left as the data URL, content that is all text as the text; a
refusal leaves what it has rewritten so far.

`messages_told` says what holds of every list of messages, and what the code
does not keep: a PDF of one or two bytes more than its limit passes, and an
attachment whose base64 is padded past its whole quads may be refused unread.
-/
import InferenceDriver.Images.Attachment
import InferenceDriver.Lib.Sweep

namespace InferenceDriver.Images

open Base64 Sweep

variable (pillow : Pillow)

/-! ## The messages -/

inductive Role where
  | system
  | user
  | assistant
  | tool
deriving DecidableEq

/-- A message's content: absent, a string or parts. -/
inductive Content where
  | absent
  | str (text : Text)
  | parts (parts : List Part)
deriving DecidableEq

structure Message where
  role : Role
  content : Content
deriving DecidableEq

def Part.isAttachment : Part → Bool
  | .text _ => false
  | _ => true

def Part.isImage : Part → Bool
  | .image _ _ => true
  | _ => false

/-- `part["text"]`. -/
def Part.said : Part → Text
  | .text t => t
  | _ => []

/-- A content part's `type`. -/
def Part.type : Part → Text
  | .text _ => "text".toList
  | .image _ _ => "image_url".toList
  | .audio _ _ => "input_audio".toList
  | .file _ => "file".toList

/-- Where a part is, in the words of a refusal. -/
def fieldOf (index partIndex : Nat) (p : Part) : Text :=
  "messages[".toList ++ (toString index).toList ++ "].content[".toList ++ (toString partIndex).toList ++
    "].".toList ++ p.type

/-- The parts of a message. -/
def Message.parts (m : Message) : List Part :=
  match m.content with
  | .parts parts => parts
  | _ => []

/-! ## The check -/

/-- The running totals. -/
structure Tally where
  count : Nat := 0
  imageTotal : Nat := 0
  total : Nat := 0
deriving DecidableEq

/-- What is checked of every attachment once its size is known. -/
def Tally.add (t : Tally) (field : Text) (size : Nat) : Except ImageRefusal Tally :=
  if maxAttachmentsTotal < t.total + size then
    .error ⟨field, "attachments exceed the 11 MiB decoded request limit".toList⟩
  else .ok { t with total := t.total + size }

def onImage (t : Tally) (url field : Text) : Except ImageRefusal Tally :=
  if maxImages < t.count + 1 then
    .error ⟨field, "at most ".toList ++ (toString maxImages).toList ++
      " images are allowed per request".toList⟩
  else do
    let size ← validateImage pillow url field
    if maxTotalBytes < t.imageTotal + size then
      .error ⟨field, "images exceed the 10 MiB decoded request limit".toList⟩
    else
      Tally.add { t with count := t.count + 1, imageTotal := t.imageTotal + size } field size

/-- The file as a data URL, when it was not one. -/
def writeFileData (file : InputFile) (url : Text) : InputFile :=
  if file.fileData = some url then file else { file with fileData := some url }

/-- One part of the content. -/
def onPart (index : Nat) (role : Role) (partIndex : Nat) (t : Tally) (p : Part) :
    Swept Part Tally ImageRefusal :=
  let field := fieldOf index partIndex p
  match p with
  | .text _ => (p, .ok t)
  | .image url _ =>
      if role ≠ .user then (p, .error ⟨field, "images are supported only on user messages".toList⟩)
      else (p, onImage pillow t url field)
  | .audio data format =>
      if role ≠ .user then (p, .error ⟨field, "attachments are supported only on user messages".toList⟩)
      else (p, validateAudio data format field >>= t.add field)
  | .file file =>
      if role ≠ .user then (p, .error ⟨field, "attachments are supported only on user messages".toList⟩)
      else
        match validateFile file field with
        | .error e => (p, .error e)
        | .ok (url, size) => (.file (writeFileData file url), t.add field size)

/-- One message. -/
def onMessage (index : Nat) (t : Tally) (m : Message) : Swept Message Tally ImageRefusal :=
  match m.content with
  | .parts parts =>
      match sweep (onPart pillow index m.role) 0 t parts with
      | (left, .error e) => ({ m with content := .parts left }, .error e)
      | (left, .ok t) =>
          if parts.any Part.isAttachment then ({ m with content := .parts left }, .ok t)
          else ({ m with content := .str (parts.map Part.said).flatten }, .ok t)
  | _ => (m, .ok t)

/-- `validate_messages`: the messages as it leaves them, and whether it
raised.  The totals it ends with are dropped by the source. -/
def validateMessages (messages : List Message) : Swept (List Message) Tally ImageRefusal :=
  sweep (onMessage pillow) 0 {} messages

/-! ## One part -/

/-- The totals with one part more. -/
def Tally.plus (t : Tally) (p : Part) : Tally where
  count := t.count + if p.isImage then 1 else 0
  imageTotal := t.imageTotal + if p.isImage then p.size else 0
  total := t.total + p.size

/-- The totals are within their limits. -/
structure Tally.Bounded (t : Tally) : Prop where
  count : t.count ≤ maxImages
  imageTotal : t.imageTotal ≤ maxTotalBytes
  total : t.total ≤ maxAttachmentsTotal

/-- What is found of a part that passed. -/
def Part.Passes (p : Part) : Prop :=
  match p with
  | .file sent => ∃ url n encoded raw, PassedFile sent url n encoded raw
  | p => p.Within pillow

/-- A PDF of one byte or two more than the limit. -/
def Part.slips (p : Part) : Bool :=
  match p with
  | .file _ => p.size == maxAttachmentBytes + 1 || p.size == maxAttachmentBytes + 2
  | _ => false

variable {pillow}

theorem Part.Passes.within_iff {p : Part} (h : p.Passes pillow) :
    p.Within pillow ↔ p.slips = false := by
  cases p with
  | text t => exact ⟨fun _ => rfl, fun _ => trivial⟩
  | image url detail => exact ⟨fun _ => rfl, fun _ => h⟩
  | audio data format => exact ⟨fun _ => rfl, fun _ => h⟩
  | file sent =>
      obtain ⟨url, n, encoded, raw, hp⟩ := h
      have hsize : (Part.file sent).size = raw.length := by rw [← hp.size, hp.size_eq]
      rw [hp.within_iff, Part.slips, Bool.or_eq_false_iff, beq_eq_false_iff_ne, beq_eq_false_iff_ne, hsize]
      have := hp.length_le
      omega

theorem Tally.add_ok {t t' : Tally} {field : Text} {size : Nat} (h : t.add field size = .ok t') :
    t' = { t with total := t.total + size } ∧ t'.total ≤ maxAttachmentsTotal := by
  unfold Tally.add at h
  split at h
  · cases h
  · rename_i hle
    cases h
    exact ⟨rfl, not_lt.mp hle⟩

theorem onImage_ok {t t' : Tally} {url field : Text} (h : onImage pillow t url field = .ok t')
    (detail : Option Detail) :
    t' = t.plus (.image url detail) ∧ (Part.image url detail).Within pillow ∧ t'.Bounded := by
  unfold onImage at h
  split at h
  · cases h
  · rename_i hcount
    cases hsize : validateImage pillow url field with
    | error e =>
        rw [hsize] at h
        cases h
    | ok size =>
        rw [hsize] at h
        obtain ⟨hwithin, hs⟩ := validateImage_ok hsize detail
        simp only [bind, Except.bind] at h
        split at h
        · cases h
        · rename_i htotal
          obtain ⟨rfl, hle⟩ := Tally.add_ok h
          refine ⟨?_, hwithin, ⟨by simp only; omega, not_lt.mp htotal, hle⟩⟩
          rw [hs]
          rfl

/-- **One part**: what it is, what the totals become, and that they are
within their limits. -/
theorem onPart_ok {index partIndex : Nat} {role : Role} {t t' : Tally} {p p' : Part}
    (h : onPart pillow index role partIndex t p = (p', .ok t')) :
    t' = t.plus p ∧ p.Passes pillow ∧ (t.Bounded → t'.Bounded) := by
  cases p with
  | text said =>
      cases h
      exact ⟨rfl, trivial, id⟩
  | image url detail =>
      rw [onPart] at h
      split at h
      · cases h
      · obtain ⟨ht, hwithin, hb⟩ := onImage_ok (Prod.mk.inj h).2 detail
        exact ⟨ht, hwithin, fun _ => hb⟩
  | audio data format =>
      rw [onPart] at h
      split at h
      · cases h
      · cases hsize : validateAudio data format (fieldOf index partIndex (.audio data format)) with
        | error e =>
            rw [hsize] at h
            cases (Prod.mk.inj h).2
        | ok size =>
            rw [hsize] at h
            obtain ⟨hwithin, hs⟩ := validateAudio_ok hsize pillow
            obtain ⟨rfl, hle⟩ := Tally.add_ok (Prod.mk.inj h).2
            rw [hs] at hle ⊢
            exact ⟨rfl, hwithin, fun hb => ⟨hb.count, hb.imageTotal, hle⟩⟩
  | file sent =>
      rw [onPart] at h
      split at h
      · cases h
      · split at h
        · cases h
        · rename_i url size hsize
          obtain ⟨encoded, raw, hp⟩ := validateFile_ok hsize
          obtain ⟨rfl, hle⟩ := Tally.add_ok (Prod.mk.inj h).2
          rw [hp.size] at hle ⊢
          exact ⟨rfl, ⟨url, size, encoded, raw, hp⟩, fun hb => ⟨hb.count, hb.imageTotal, hle⟩⟩

/-! ## What is left of the messages -/

/-- A part as it is left: bare base64 of a PDF becomes its data URL. -/
inductive Part.Rewritten : Part → Part → Prop where
  | same (p : Part) : Rewritten p p
  | pdf (sent : InputFile) (data : Text) : sent.fileData = some data →
      "data:".toList.isPrefixOf data = false →
      Rewritten (.file sent) (.file { sent with fileData := some (pdfDataUrl ++ data) })

/-- A message as it is left: its parts as they are, or all their text. -/
inductive Message.Rewritten : Message → Message → Prop where
  | same (m : Message) : Rewritten m m
  | parts (m : Message) (given left : List Part) : m.content = .parts given →
      List.Forall₂ Part.Rewritten given left → Rewritten m { m with content := .parts left }
  | flat (m : Message) (given : List Part) : m.content = .parts given →
      given.any Part.isAttachment = false →
      Rewritten m { m with content := .str (given.map Part.said).flatten }

theorem given_eq_some {value : Option Text} {text : Text} (h : given value = some text) : value = some text := by
  unfold given at h
  split at h
  · cases h
  · exact h

theorem pdfEncoded_of_data {data encoded : Text} (h : pdfEncoded data = some encoded)
    (hdata : "data:".toList.isPrefixOf data = true) : data = pdfDataUrl ++ encoded := by
  rw [pdfEncoded, if_pos hdata] at h
  split at h
  · cases h
  · rename_i header after hpart
    split at h
    · rename_i hheader
      cases h
      have hcut : data = (partition ',' data).1 ++ ',' :: encoded := eq_of_partition (by rw [hpart])
      rw [hcut, hpart, ← hheader, List.append_assoc]
      rfl
    · cases h

theorem rewritten_file {sent : InputFile} {field url : Text} {n : Nat}
    (h : validateFile sent field = .ok (url, n)) :
    Part.Rewritten (.file sent) (.file (writeFileData sent url)) := by
  unfold writeFileData
  split
  · exact .same _
  · rename_i hne
    obtain ⟨encoded, raw, hp⟩ := validateFile_ok h
    have hpayload := hp.payload
    rw [Part.payload, hp.unnamed] at hpayload
    obtain ⟨data, hdata, hencoded⟩ := Option.bind_eq_some_iff.mp hpayload
    have hsent := given_eq_some hdata
    cases hstart : "data:".toList.isPrefixOf data with
    | true =>
        rw [hsent, hp.url_eq, ← pdfEncoded_of_data hencoded hstart] at hne
        exact absurd rfl hne
    | false =>
        have hsame : encoded = data := by
          rw [pdfEncoded, if_neg (by rw [hstart]; exact Bool.false_ne_true)] at hencoded
          exact (Option.some.inj hencoded).symm
        rw [hp.url_eq, hsame]
        exact .pdf sent data hsent hstart

variable (pillow) in
theorem onPart_rewritten (index : Nat) (role : Role) (partIndex : Nat) (t : Tally) (p : Part) :
    Part.Rewritten p (onPart pillow index role partIndex t p).1 := by
  cases p with
  | text said => exact .same _
  | image url detail =>
      rw [onPart]
      split
      · exact .same _
      · exact .same _
  | audio data format =>
      rw [onPart]
      split
      · exact .same _
      · exact .same _
  | file sent =>
      rw [onPart]
      split
      · exact .same _
      · split
        · exact .same _
        · rename_i url size hsize
          exact rewritten_file hsize

variable (pillow) in
theorem onMessage_rewritten (index : Nat) (t : Tally) (m : Message) :
    m.Rewritten (onMessage pillow index t m).1 := by
  unfold onMessage
  split
  · rename_i given hcontent
    have hleft := forall₂_left .same (onPart_rewritten pillow index m.role) 0 t given
    split
    · rename_i left e hsweep
      rw [hsweep] at hleft
      exact .parts m given left hcontent hleft
    · rename_i left t' hsweep
      rw [hsweep] at hleft
      split
      · exact .parts m given left hcontent hleft
      · rename_i hno
        exact .flat m given hcontent (Bool.eq_false_iff.mpr hno)
  · exact .same m

/-! ## Checking again -/

theorem Part.Rewritten.isAttachment {p p' : Part} (h : p.Rewritten p') :
    p'.isAttachment = p.isAttachment := by
  cases h with
  | same p => rfl
  | pdf sent data _ _ => rfl

theorem any_rewritten {given left : List Part} (h : List.Forall₂ Part.Rewritten given left) :
    left.any Part.isAttachment = given.any Part.isAttachment := by
  induction h with
  | nil => rfl
  | cons hp _ ih => rw [List.any_cons, List.any_cons, hp.isAttachment, ih]

/-- A part that passed passes again, as it was left. -/
theorem onPart_again {index : Nat} {role : Role} {partIndex : Nat} {t t' : Tally} {p p' : Part}
    (h : onPart pillow index role partIndex t p = (p', .ok t')) :
    onPart pillow index role partIndex t p' = (p', .ok t') := by
  cases p with
  | text said =>
      cases h
      rfl
  | image url detail =>
      have hp : Part.image url detail = p' := by
        rw [onPart] at h
        split at h
        · cases h
        · exact (Prod.mk.inj h).1
      rw [← hp] at h ⊢
      exact h
  | audio data format =>
      have hp : Part.audio data format = p' := by
        rw [onPart] at h
        split at h
        · cases h
        · exact (Prod.mk.inj h).1
      rw [← hp] at h ⊢
      exact h
  | file sent =>
      rw [onPart] at h
      split at h
      · cases h
      · rename_i hrole
        split at h
        · cases h
        · rename_i url size hsize
          obtain ⟨hp, ht⟩ := Prod.mk.inj h
          have hagain : validateFile (writeFileData sent url) (fieldOf index partIndex (.file sent)) =
              .ok (url, size) := by
            unfold writeFileData
            split
            · exact hsize
            · exact validateFile_again hsize
          have hstays : writeFileData (writeFileData sent url) url = writeFileData sent url := by
            unfold writeFileData
            split
            · rfl
            · exact if_pos rfl
          rw [← hp, onPart, if_neg hrole]
          rw [show fieldOf index partIndex (.file (writeFileData sent url)) =
            fieldOf index partIndex (.file sent) from rfl, hagain]
          simp only
          rw [hstays, ht]

theorem foldl_plus_text {parts : List Part} (h : parts.any Part.isAttachment = false) (t : Tally) :
    parts.foldl Tally.plus t = t := by
  induction parts generalizing t with
  | nil => rfl
  | cons p rest ih =>
      rw [List.any_cons, Bool.or_eq_false_iff] at h
      cases p with
      | text said => exact ih h.2 t
      | image url detail => cases h.1
      | audio data format => cases h.1
      | file sent => cases h.1

/-- **One message**: as `onPart_ok`, of all its parts. -/
theorem onMessage_ok {index : Nat} {t t' : Tally} {m m' : Message}
    (h : onMessage pillow index t m = (m', .ok t')) :
    t' = m.parts.foldl Tally.plus t ∧ (∀ p ∈ m.parts, p.Passes pillow) ∧ (t.Bounded → t'.Bounded) := by
  unfold onMessage at h
  unfold Message.parts
  split at h
  · rename_i given hcontent
    split at h
    · cases h
    · rename_i left t₁ hsweep
      have hspec : t₁ = given.foldl Tally.plus t ∧ (∀ p ∈ given, p.Passes pillow) ∧
          (t.Bounded → t₁.Bounded) := (steps_of_ok hsweep).spec onPart_ok
      split at h
      · cases h
        exact hspec
      · cases h
        exact hspec
  · cases h
    exact ⟨rfl, fun p hp => (by cases hp), id⟩

/-- A message that passed passes again, as it was left. -/
theorem onMessage_again {index : Nat} {t t' : Tally} {m m' : Message}
    (h : onMessage pillow index t m = (m', .ok t')) : onMessage pillow index t m' = (m', .ok t') := by
  have hspec := onMessage_ok h
  unfold onMessage at h
  split at h
  · rename_i given hcontent
    split at h
    · cases h
    · rename_i left t₁ hsweep
      have hleft : List.Forall₂ Part.Rewritten given left := by
        have hswept := forall₂_left .same (onPart_rewritten pillow index m.role) 0 t given
        rwa [hsweep] at hswept
      split at h
      · rename_i hany
        cases h
        have hagain : sweep (onPart pillow index m.role) 0 t left = (left, .ok t') :=
          again (onPart pillow index m.role) onPart_again hsweep
        unfold onMessage
        simp only
        rw [hagain]
        exact if_pos ((any_rewritten hleft).trans hany)
      · rename_i hany
        cases h
        have ht : t' = t := by
          rw [hspec.1, Message.parts, hcontent]
          exact foldl_plus_text (Bool.eq_false_iff.mpr hany) t
        rw [ht]
        rfl
  · rename_i hno
    cases h
    unfold onMessage
    split
    · rename_i given hcontent
      exact absurd hcontent (hno given)
    · rfl

/-! ## The whole request -/

/-- Every part of every message, in order. -/
def partsOf (messages : List Message) : List Part := messages.flatMap Message.parts

theorem plus_count (parts : List Part) (t : Tally) :
    (parts.foldl Tally.plus t).count = t.count + parts.countP Part.isImage := by
  induction parts generalizing t with
  | nil => rfl
  | cons p rest ih =>
      rw [List.foldl_cons, ih, List.countP_cons, Tally.plus]
      simp only
      omega

theorem plus_imageTotal (parts : List Part) (t : Tally) :
    (parts.foldl Tally.plus t).imageTotal =
      t.imageTotal + ((parts.filter Part.isImage).map Part.size).sum := by
  induction parts generalizing t with
  | nil => rfl
  | cons p rest ih =>
      rw [List.foldl_cons, ih, List.filter_cons, Tally.plus]
      cases p.isImage with
      | true =>
          rw [if_pos rfl, if_pos rfl, if_pos rfl, List.map_cons, List.sum_cons]
          exact Nat.add_assoc _ _ _
      | false => rfl

theorem plus_total (parts : List Part) (t : Tally) :
    (parts.foldl Tally.plus t).total = t.total + (parts.map Part.size).sum := by
  induction parts generalizing t with
  | nil => rfl
  | cons p rest ih =>
      rw [List.foldl_cons, ih, List.map_cons, List.sum_cons]
      exact Nat.add_assoc _ _ _

/-- **A request that passed**: each of its parts did, and the totals of all
of them are within their limits. -/
theorem validateMessages_ok {messages left : List Message} {t : Tally}
    (h : validateMessages pillow messages = (left, .ok t)) :
    t = (partsOf messages).foldl Tally.plus {} ∧ (∀ p ∈ partsOf messages, p.Passes pillow) ∧ t.Bounded := by
  have hspec : t = messages.foldl (fun t m => m.parts.foldl Tally.plus t) {} ∧
      (∀ m ∈ messages, ∀ p ∈ m.parts, p.Passes pillow) ∧ (({} : Tally).Bounded → t.Bounded) :=
    (steps_of_ok h).spec onMessage_ok
  refine ⟨?_, fun p hp => ?_, hspec.2.2 ⟨Nat.zero_le _, Nat.zero_le _, Nat.zero_le _⟩⟩
  · rw [hspec.1, partsOf, List.foldl_flatMap]
  · obtain ⟨m, hm, hp⟩ := List.mem_flatMap.mp hp
    exact hspec.2.1 m hm p hp

variable (pillow) in
/-- The limits of a request. -/
structure WithinLimits (messages : List Message) : Prop where
  each : ∀ p ∈ partsOf messages, p.Within pillow
  images : (partsOf messages).countP Part.isImage ≤ maxImages
  imageBytes : (((partsOf messages).filter Part.isImage).map Part.size).sum ≤ maxTotalBytes
  total : ((partsOf messages).map Part.size).sum ≤ maxAttachmentsTotal

/-- A request that passed is within the limits, but for a PDF that slips through. -/
theorem withinLimits_iff {messages left : List Message} {t : Tally}
    (h : validateMessages pillow messages = (left, .ok t)) :
    WithinLimits pillow messages ↔ ∀ p ∈ partsOf messages, p.slips = false := by
  obtain ⟨ht, hall, hb⟩ := validateMessages_ok h
  constructor
  · intro hw p hp
    exact (hall p hp).within_iff.mp (hw.each p hp)
  · intro hno
    refine ⟨fun p hp => (hall p hp).within_iff.mpr (hno p hp), ?_, ?_, ?_⟩
    · have hcount := hb.count
      rwa [ht, plus_count, Nat.zero_add] at hcount
    · have himages := hb.imageTotal
      rwa [ht, plus_imageTotal, Nat.zero_add] at himages
    · have htotal := hb.total
      rwa [ht, plus_total, Nat.zero_add] at htotal

variable (pillow) in
/-- What is told of checking a request. -/
structure Told (messages : List Message) : Prop where
  /-- What is accepted is within the limits. -/
  limits : ∀ left t, validateMessages pillow messages = (left, .ok t) → WithinLimits pillow messages
  /-- What is refused for the length of its base64 decodes to more than its limit. -/
  unread : ∀ p ∈ partsOf messages, ∀ field, p.Unread pillow field →
    ∀ bytes, p.bytes = some bytes → p.limit < bytes.length
  /-- Nothing but the two rewrites is done to the messages. -/
  rewritten : List.Forall₂ Message.Rewritten messages (validateMessages pillow messages).1
  /-- What is accepted is accepted again as it was left, and left so. -/
  again : ∀ left t, validateMessages pillow messages = (left, .ok t) →
    validateMessages pillow left = (left, .ok t)

/-- **All of it holds** but for two kinds of attachment: in a request that is
accepted, a PDF of one byte or two over its limit, and base64 that is padded
past whole quads until it is too long. -/
theorem messages_told (messages : List Message) :
    Told pillow messages ↔
      (∀ left t, validateMessages pillow messages = (left, .ok t) →
        ∀ p ∈ partsOf messages, p.slips = false) ∧
      ∀ p ∈ partsOf messages, ¬ p.Padded := by
  constructor
  · intro h
    refine ⟨fun left t hok => (withinLimits_iff hok).mp (h.limits left t hok), fun p hp => ?_⟩
    exact unread_over_iff.mp (h.unread p hp [])
  · rintro ⟨hslips, hpadded⟩
    refine ⟨fun left t hok => (withinLimits_iff hok).mpr (hslips left t hok), fun p hp field => ?_, ?_,
      fun left t hok => ?_⟩
    · exact unread_over_iff.mpr (hpadded p hp)
    · exact forall₂_left .same (onMessage_rewritten pillow) 0 {} messages
    · exact again (onMessage pillow) onMessage_again hok

/-! ## The two kinds -/

/-- So many bytes of PDF. -/
def pdf (n : Nat) : List UInt8 := pdfMark ++ List.replicate n 0

/-- A user's message with one file in it. -/
def sendsFile (data : Text) : Message where
  role := .user
  content := .parts [.file { filename := none, fileData := some data, fileId := none }]

theorem length_pdf (n : Nat) : (pdf n).length = n + 5 := by
  rw [pdf, List.length_append, List.length_replicate]
  exact Nat.add_comm _ _

/-- A PDF of two bytes over the limit at most is accepted. -/
theorem pdf_accepted {n : Nat} (h : n + 5 ≤ maxAttachmentBytes + 2) :
    validateMessages pillow [sendsFile (pdfDataUrl ++ b64encode (pdf n))] =
      ([sendsFile (pdfDataUrl ++ b64encode (pdf n))], .ok { total := n + 5 }) := by
  have hgiven : given (some (pdfDataUrl ++ b64encode (pdf n))) = some (pdfDataUrl ++ b64encode (pdf n)) := rfl
  have hshort : ¬ tooLong maxAttachmentBytes (b64encode (pdf n)) := by
    unfold tooLong maxAttachmentBytes at *
    rw [length_b64encode, length_pdf]
    omega
  have hmark : pdfMark.isPrefixOf (pdf n) = true :=
    List.isPrefixOf_iff_prefix.mpr (List.prefix_append pdfMark _)
  have hfile (field : Text) : validateFile ⟨none, some (pdfDataUrl ++ b64encode (pdf n)), none⟩ field =
      .ok (pdfDataUrl ++ b64encode (pdf n), n + 5) := by
    unfold validateFile
    rw [show given none = none from rfl, hgiven]
    simp only
    rw [pdfEncoded_url]
    simp only
    rw [if_neg hshort, b64decode_b64encode]
    simp only
    rw [if_pos hmark, length_pdf]
  have hadd (field : Text) : Tally.add {} field (n + 5) = .ok { total := n + 5 } := by
    unfold Tally.add
    rw [if_neg, Nat.zero_add]
    unfold maxAttachmentsTotal maxAttachmentBytes at *
    simp only
    omega
  have hpart : onPart pillow 0 .user 0 {} (.file ⟨none, some (pdfDataUrl ++ b64encode (pdf n)), none⟩) =
      (.file ⟨none, some (pdfDataUrl ++ b64encode (pdf n)), none⟩, .ok { total := n + 5 }) := by
    rw [onPart, if_neg (not_not.mpr rfl), hfile]
    simp only
    rw [hadd, writeFileData, if_pos rfl]
  have hmessage : onMessage pillow 0 {} (sendsFile (pdfDataUrl ++ b64encode (pdf n))) =
      (sendsFile (pdfDataUrl ++ b64encode (pdf n)), .ok { total := n + 5 }) := by
    unfold onMessage sendsFile
    simp only
    rw [sweep_of_ok hpart]
    rfl
  rw [validateMessages, sweep_of_ok hmessage]
  rfl

theorem size_pdf (n : Nat) :
    (Part.file ⟨none, some (pdfDataUrl ++ b64encode (pdf n)), none⟩).size = n + 5 := by
  have hpayload : (Part.file ⟨none, some (pdfDataUrl ++ b64encode (pdf n)), none⟩).payload =
      some (b64encode (pdf n)) := pdfEncoded_url _
  rw [Part.size, Part.bytes, hpayload, Option.bind_some, b64decode_b64encode]
  exact length_pdf n

/-- `%PDF-1`, as base64. -/
def pdfQuads : Text := ['J', 'V', 'B', 'E', 'R', 'i', '0', 'x']

theorem pads_padded {pads : Nat} (h : 0 < pads) (hlong : 4 * ((maxAttachmentBytes + 2) / 3) < pads + 8) :
    (Part.file ⟨none, some (pdfQuads ++ List.replicate pads '='), none⟩).Padded := by
  have hsix : (pdfMark ++ [0x31]).length ≤ maxAttachmentBytes := by decide
  have hpads : tooLong maxAttachmentBytes (pdfQuads ++ List.replicate pads '=') := by
    unfold tooLong
    rw [List.length_append, List.length_replicate]
    exact hlong.trans_eq (Nat.add_comm pads 8)
  exact ⟨_, pdfMark ++ [0x31], pdfQuads, pads, rfl,
    ⟨rfl, h, List.cons_ne_nil _ _, by decide, by decide, by decide⟩, hsix, hpads⟩

/-- A PDF of one byte over the limit is accepted; and one of six bytes is
refused unread when its base64 is padded to more than the limit encodes to. -/
theorem pdf_slips :
    ¬ Told (fun _ _ => none) [sendsFile (pdfDataUrl ++ b64encode (pdf 10485756))] ∧
      ¬ Told (fun _ _ => none) [sendsFile (pdfQuads ++ List.replicate 13981009 '=')] := by
  constructor
  · intro h
    have hno := ((messages_told _).mp h).1 _ _ (pdf_accepted (by decide)) _ List.mem_cons_self
    rw [Part.slips, size_pdf] at hno
    exact absurd hno (by decide)
  · intro h
    exact ((messages_told _).mp h).2 _ List.mem_cons_self (pads_padded (by decide) (by decide))

end InferenceDriver.Images

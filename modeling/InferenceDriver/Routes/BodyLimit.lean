/-
# `Routes.BodyLimit` — a request's body, bounded before it is parsed

`InferenceBodyLimit` stands before the routes: it reads the body of a
request whole, chunk by chunk, and calls the application only then, with the
body as one event.  What is too long is refused with a 413, by what the
client declares or by what it sends.

A limit has at most ten digits (`bounded`), since a declared length of more
is refused without being read.
-/
import InferenceDriver.Py.Json
import InferenceDriver.Py.Utf8
import Mathlib.Tactic.Ring

namespace InferenceDriver.Routes.BodyLimit

/-! ## Requests -/

/-- `MAX_BODY_BYTES`. -/
def maxBodyBytes : Nat := 16 * 1024 * 1024

structure Scope where
  type : Text
  path : Option Text
  headers : List (List UInt8 × List UInt8)

/-- What `receive` gives. -/
inductive Event where
  | request (body : Option (List UInt8)) (moreBody : Option Bool)
  | disconnect
deriving DecidableEq

/-- `paths` are bounded at `maxBodyBytes`; `limits` names a path with a limit
of its own. -/
structure InferenceBodyLimit where
  paths : List Text
  driver : Bool
  limits : List (Text × Nat)
  bounded : ∀ e ∈ limits, e.2 < 10 ^ 10

/-- The driver's own. -/
def inferenceBodyLimit : InferenceBodyLimit where
  paths := ["/v1/generate", "/v1/generate/stream", "/v1/embed", "/v1/rerank", "/v1/decide", "/v1/speak",
    "/v1/moderate"].map String.toList
  driver := true
  limits := ["/v1/transcribe", "/v1/image", "/v1/image/stream", "/v1/video"].map fun path =>
    (path.toList, 36 * 1024 * 1024)
  bounded := by decide

/-! ## What the application receives -/

/-- `replay`: the body first, and once; then what the client sends next. -/
structure Replay where
  body : List UInt8
  delivered : Bool := false
  rest : List Event

/-- One call of it; it waits where the client has sent no more. -/
def Replay.receive (r : Replay) : Option Event × Replay :=
  if r.delivered then (r.rest.head?, { r with rest := r.rest.tail })
  else (some (.request (some r.body) (some false)), { r with delivered := true })

/-- What a number of calls give. -/
def Replay.events : Nat → Replay → List Event
  | 0, _ => []
  | n + 1, r =>
      match r.receive.1 with
      | some event => event :: events n r.receive.2
      | none => []

theorem Replay.events_delivered (n : Nat) (body : List UInt8) (rest : List Event) :
    Replay.events n ⟨body, true, rest⟩ = rest.take n := by
  induction n generalizing rest with
  | zero => rfl
  | succ n ih =>
      cases rest with
      | nil => rfl
      | cons event rest => exact congrArg (event :: ·) (ih rest)

/-! ## Reading the body -/

/-- What comes of reading it. -/
inductive Buffered where
  | whole (body : List UInt8) (rest : List Event)
  | over
  | left
  | waiting

/-- The loop, with what it has so far. -/
def buffer (limit : Nat) (body : List UInt8) : List Event → Buffered
  | [] => .waiting
  | .disconnect :: _ => .left
  | .request chunk moreBody :: rest =>
      if limit < body.length + (chunk.getD []).length then .over
      else if moreBody.getD false then buffer limit (body ++ chunk.getD []) rest
      else .whole (body ++ chunk.getD []) rest

/-- `value.isdigit()`. -/
def isdigit (value : List UInt8) : Bool := value ≠ [] && value.all fun d => 48 ≤ d && d ≤ 57

/-- `int(digits or b"0")`. -/
def number (digits : List UInt8) : Nat := digits.foldl (fun n d => 10 * n + (d.toNat - 48)) 0

/-- A header that declares a body over the limit, as it is read: ten digits
at most, after the zeros it begins with. -/
def refuses (limit : Nat) (header : List UInt8 × List UInt8) : Bool :=
  header.1 == encodeUtf8 "content-length".toList && isdigit header.2 &&
    let significant := header.2.dropWhile fun d => d == 48
    !(significant.length ≤ 10 && number significant ≤ limit)

/-- What comes of a request. -/
inductive Outcome where
  /-- The path is not guarded: the application is called as it is. -/
  | passed
  | called (received : Replay)
  | refused (status : Nat) (payload : Json)
  | left
  | waiting

namespace InferenceBodyLimit

variable (m : InferenceBodyLimit)

def guards (scope : Scope) : Bool :=
  scope.type == "http".toList && scope.path.any fun path => path ∈ m.paths || (m.limits.lookup path).isSome

def limitOf (path : Option Text) : Nat := (path.bind fun path => m.limits.lookup path).getD maxBodyBytes

/-- `_refuse`'s payload. -/
def refusal (scope : Scope) : Json :=
  let limited := (scope.path.bind fun path => m.limits.lookup path).isSome
  let size := if limited then (toString (m.limitOf scope.path / (1024 * 1024))).toList ++ " MiB".toList
    else "16 MiB".toList
  let message := "body: exceeds the ".toList ++ size ++
    " request limit; resize or remove attachments.".toList
  if m.driver then
    .ofFields [("detail", .ofFields [("title", .str "Request too large".toList), ("status", .int 413),
      ("detail", .str message)])]
  else if scope.path = some "/v1/messages".toList then
    .ofFields [("type", .str "error".toList),
      ("error", .ofFields [("type", .str "request_too_large".toList), ("message", .str message)])]
  else
    .ofFields [("error", .ofFields [("type", .str "invalid_request_error".toList), ("param", .str "body".toList),
      ("message", .str message)])]

/-- `__call__`, with what the client sends. -/
def call (scope : Scope) (events : List Event) : Outcome :=
  if m.guards scope then
    if scope.headers.any (refuses (m.limitOf scope.path)) then .refused 413 (m.refusal scope)
    else
      match buffer (m.limitOf scope.path) [] events with
      | .whole body rest => .called { body, rest }
      | .over => .refused 413 (m.refusal scope)
      | .left => .left
      | .waiting => .waiting
  else .passed

end InferenceBodyLimit

/-! ## What the client sends -/

/-- The client sends these chunks, and says each time that more is coming. -/
inductive Sends : List Event → List (List UInt8) → List Event → Prop where
  | none (rest : List Event) : Sends rest [] rest
  | chunk (body : Option (List UInt8)) {events : List Event} {chunks : List (List UInt8)} {rest : List Event} :
      Sends events chunks rest → Sends (.request body (some true) :: events) (body.getD [] :: chunks) rest

/-- The body is complete with these chunks. -/
inductive Completes : List Event → List (List UInt8) → List Event → Prop where
  | last (body : Option (List UInt8)) {moreBody : Option Bool} (rest : List Event) :
      moreBody.getD false = false → Completes (.request body moreBody :: rest) [body.getD []] rest
  | chunk (body : Option (List UInt8)) {events : List Event} {chunks : List (List UInt8)} {rest : List Event} :
      Completes events chunks rest → Completes (.request body (some true) :: events) (body.getD [] :: chunks) rest

/-- The client has sent more than the limit. -/
def Exceeds (limit : Nat) (events : List Event) : Prop :=
  ∃ chunks chunk moreBody rest, Sends events chunks (.request chunk moreBody :: rest) ∧
    limit < (chunks.flatten ++ chunk.getD []).length

/-- A `content-length` is declared that is larger than the limit. -/
def Declares (scope : Scope) (limit : Nat) : Prop :=
  ∃ value, (encodeUtf8 "content-length".toList, value) ∈ scope.headers ∧ isdigit value = true ∧ limit < number value

/-! ## The loop reads what is sent -/

variable {limit : Nat} {acc body : List UInt8} {events rest : List Event}

theorem eq_some_true {moreBody : Option Bool} (h : moreBody.getD false = true) : moreBody = some true := by
  cases moreBody with
  | none => cases h
  | some b => exact congrArg some h

theorem completes_more {chunk : Option (List UInt8)} {chunks : List (List UInt8)} :
    Completes (.request chunk (some true) :: events) chunks rest ↔
      ∃ others, chunks = chunk.getD [] :: others ∧ Completes events others rest := by
  constructor
  · intro h
    cases h with
    | last _ _ hmore => cases hmore
    | chunk _ h => exact ⟨_, rfl, h⟩
  · rintro ⟨others, rfl, h⟩
    exact .chunk chunk h

theorem completes_last {chunk : Option (List UInt8)} {moreBody : Option Bool} {chunks : List (List UInt8)}
    (hmore : moreBody.getD false = false) :
    Completes (.request chunk moreBody :: events) chunks rest ↔ chunks = [chunk.getD []] ∧ rest = events := by
  constructor
  · intro h
    cases h with
    | last _ _ _ => exact ⟨rfl, rfl⟩
    | chunk _ h => cases hmore
  · rintro ⟨rfl, rfl⟩
    exact .last chunk _ hmore

theorem buffer_eq_whole : buffer limit acc events = .whole body rest ↔
    ∃ chunks, Completes events chunks rest ∧ (acc ++ chunks.flatten).length ≤ limit ∧ body = acc ++ chunks.flatten := by
  induction events generalizing acc with
  | nil =>
      constructor
      · intro h
        cases h
      · rintro ⟨chunks, h, -⟩
        cases h
  | cons event events ih =>
      cases event with
      | disconnect =>
          constructor
          · intro h
            cases h
          · rintro ⟨chunks, h, -⟩
            cases h
      | request chunk moreBody =>
          rw [buffer]
          rcases Nat.lt_or_ge limit (acc.length + (chunk.getD []).length) with hover | hfits
          · rw [if_pos hover]
            constructor
            · intro h
              cases h
            · rintro ⟨chunks, h, hlength, -⟩
              cases h with
              | last _ _ _ =>
                  simp only [List.flatten_singleton, List.length_append] at hlength
                  omega
              | chunk _ h =>
                  simp only [List.flatten_cons, List.length_append] at hlength
                  omega
          · rw [if_neg (Nat.not_lt.mpr hfits)]
            cases hmore : moreBody.getD false with
            | true =>
                cases eq_some_true hmore
                simp only [if_true, ih, completes_more]
                constructor
                · rintro ⟨others, h, hlength, rfl⟩
                  refine ⟨_, ⟨others, rfl, h⟩, ?_, ?_⟩
                  · rwa [List.flatten_cons, ← List.append_assoc]
                  · rw [List.flatten_cons, List.append_assoc]
                · rintro ⟨_, ⟨others, rfl, h⟩, hlength, rfl⟩
                  rw [List.flatten_cons, ← List.append_assoc] at hlength ⊢
                  exact ⟨others, h, hlength, rfl⟩
            | false =>
                simp only [Bool.false_eq_true, if_false, Buffered.whole.injEq, completes_last hmore]
                constructor
                · rintro ⟨rfl, rfl⟩
                  refine ⟨_, ⟨rfl, rfl⟩, ?_, ?_⟩
                  · rwa [List.flatten_singleton, List.length_append]
                  · rw [List.flatten_singleton]
                · rintro ⟨_, ⟨rfl, rfl⟩, -, rfl⟩
                  exact ⟨by rw [List.flatten_singleton], rfl⟩

/-- It ends early where the client leaves or has sent too much, and waits
where it sends no more. -/
theorem buffer_ends :
    (buffer limit acc events = .left → ∃ chunks rest, Sends events chunks (.disconnect :: rest)) ∧
    (buffer limit acc events = .waiting → ∃ chunks, Sends events chunks []) ∧
    (buffer limit acc events = .over → ∃ chunks chunk moreBody rest,
      Sends events chunks (.request chunk moreBody :: rest) ∧
        limit < (acc ++ (chunks.flatten ++ chunk.getD [])).length) := by
  induction events generalizing acc with
  | nil => exact ⟨fun h => (by cases h), fun _ => ⟨[], .none []⟩, fun h => (by cases h)⟩
  | cons event events ih =>
      cases event with
      | disconnect => exact ⟨fun _ => ⟨[], events, .none _⟩, fun h => (by cases h), fun h => (by cases h)⟩
      | request chunk moreBody =>
          rw [buffer]
          split
          · rename_i hover
            refine ⟨fun h => (by cases h), fun h => (by cases h), fun _ => ?_⟩
            refine ⟨[], chunk, moreBody, events, .none _, ?_⟩
            rwa [List.flatten_nil, List.nil_append, List.length_append]
          · split
            · rename_i hmore
              cases eq_some_true hmore
              obtain ⟨hleft, hwaiting, hover⟩ := @ih (acc ++ chunk.getD [])
              refine ⟨fun h => ?_, fun h => ?_, fun h => ?_⟩
              · obtain ⟨chunks, rest, hsends⟩ := hleft h
                exact ⟨_, rest, .chunk chunk hsends⟩
              · obtain ⟨chunks, hsends⟩ := hwaiting h
                exact ⟨_, .chunk chunk hsends⟩
              · obtain ⟨chunks, last, moreBody, rest, hsends, hlength⟩ := hover h
                refine ⟨_, last, moreBody, rest, .chunk chunk hsends, ?_⟩
                rwa [List.flatten_cons, List.append_assoc, ← List.append_assoc]
            · exact ⟨fun h => (by cases h), fun h => (by cases h), fun h => (by cases h)⟩

/-! ## What is declared -/

theorem foldl_number (n : Nat) (digits : List UInt8) :
    digits.foldl (fun n d => 10 * n + (d.toNat - 48)) n = n * 10 ^ digits.length + number digits := by
  induction digits generalizing n with
  | nil => simp [number]
  | cons d digits ih =>
      rw [number, List.foldl_cons, List.foldl_cons, ih, ih (10 * 0 + (d.toNat - 48)), List.length_cons]
      ring

theorem number_cons (d : UInt8) (digits : List UInt8) :
    number (d :: digits) = (d.toNat - 48) * 10 ^ digits.length + number digits := by
  rw [number, List.foldl_cons, Nat.mul_zero, Nat.zero_add, foldl_number]

/-- Zeros in front change nothing. -/
theorem number_significant (digits : List UInt8) : number (digits.dropWhile fun d => d == 48) = number digits := by
  induction digits with
  | nil => rfl
  | cons d digits ih =>
      rcases eq_or_ne d 48 with rfl | hd
      · rw [List.dropWhile_cons_of_pos rfl, ih, number_cons]
        rw [show UInt8.toNat 48 - 48 = 0 from rfl, Nat.zero_mul, Nat.zero_add]
      · rw [List.dropWhile_cons_of_neg (by simpa using hd)]

/-- More than ten digits make ten thousand million, or more. -/
theorem ten_digits {digits : List UInt8} (hdigits : isdigit digits = true)
    (hlength : 10 < (digits.dropWhile fun d => d == 48).length) : 10 ^ 10 ≤ number digits := by
  rw [← number_significant]
  cases hsig : digits.dropWhile fun d => d == 48 with
  | nil =>
      rw [hsig] at hlength
      cases hlength
  | cons d rest =>
      have hd : d.toNat ≠ 48 := by
        have hhead := List.head?_dropWhile_not (fun d => d == 48) digits
        rw [hsig] at hhead
        intro h
        rw [UInt8.toNat_inj.mp (h.trans rfl : d.toNat = UInt8.toNat 48)] at hhead
        cases hhead
      have hrange : 48 ≤ d.toNat := by
        have hmem : d ∈ digits := (List.dropWhile_sublist _).subset (hsig ▸ List.mem_cons_self)
        obtain ⟨hlow, -⟩ := Bool.and_eq_true_iff.mp (List.all_eq_true.mp (Bool.and_eq_true_iff.mp hdigits).2 d hmem)
        exact UInt8.le_iff_toNat_le.mp (of_decide_eq_true hlow)
      rw [hsig, List.length_cons] at hlength
      rw [number_cons]
      have hone : 1 ≤ d.toNat - 48 := by omega
      calc 10 ^ 10 ≤ 10 ^ rest.length := Nat.pow_le_pow_right (by decide) (Nat.lt_succ_iff.mp hlength)
        _ = 1 * 10 ^ rest.length := (Nat.one_mul _).symm
        _ ≤ (d.toNat - 48) * 10 ^ rest.length := Nat.mul_le_mul_right _ hone
        _ ≤ _ := Nat.le_add_right _ _

/-- A header is refused when it declares more than the limit. -/
theorem refuses_iff {limit : Nat} (hlimit : limit < 10 ^ 10) {header : List UInt8 × List UInt8} :
    refuses limit header = true ↔
      header.1 = encodeUtf8 "content-length".toList ∧ isdigit header.2 = true ∧ limit < number header.2 := by
  simp only [refuses, number_significant, Bool.and_eq_true, beq_iff_eq, and_assoc, Bool.not_eq_true',
    Bool.and_eq_false_iff, decide_eq_false_iff_not, Nat.not_le]
  constructor
  · rintro ⟨hname, hdigits, hlength | hover⟩
    · exact ⟨hname, hdigits, hlimit.trans_le (ten_digits hdigits hlength)⟩
    · exact ⟨hname, hdigits, hover⟩
  · rintro ⟨hname, hdigits, hover⟩
    exact ⟨hname, hdigits, .inr hover⟩

namespace InferenceBodyLimit

variable {m : InferenceBodyLimit} {scope : Scope}

theorem limitOf_lt (path : Option Text) : m.limitOf path < 10 ^ 10 := by
  rw [limitOf]
  cases h : path.bind fun path => m.limits.lookup path with
  | none => decide
  | some limit =>
      obtain ⟨path, -, hlookup⟩ := Option.bind_eq_some_iff.mp h
      obtain ⟨l₁, l₂, hlimits, -⟩ := List.lookup_eq_some_iff.mp hlookup
      exact m.bounded (path, limit) (hlimits ▸ List.mem_append_right _ List.mem_cons_self)

theorem declares_iff :
    scope.headers.any (refuses (m.limitOf scope.path)) = true ↔ Declares scope (m.limitOf scope.path) := by
  simp only [List.any_eq_true, refuses_iff (limitOf_lt scope.path)]
  constructor
  · rintro ⟨⟨_, value⟩, hmem, rfl, hdigits, hover⟩
    exact ⟨value, hmem, hdigits, hover⟩
  · rintro ⟨value, hmem, hdigits, hover⟩
    exact ⟨_, hmem, rfl, hdigits, hover⟩

theorem call_eq_called (h : m.guards scope = true) {events : List Event} {received : Replay} :
    m.call scope events = .called received ↔ ∃ chunks rest, Completes events chunks rest ∧
      chunks.flatten.length ≤ m.limitOf scope.path ∧ ¬ Declares scope (m.limitOf scope.path) ∧
      received = { body := chunks.flatten, rest } := by
  rw [call, if_pos h]
  split
  · rename_i hdeclares
    constructor
    · intro hcall
      cases hcall
    · rintro ⟨chunks, rest, -, -, hno, -⟩
      exact (hno (declares_iff.mp hdeclares)).elim
  · rename_i hdeclares
    have hno : ¬ Declares scope (m.limitOf scope.path) := fun hd => hdeclares (declares_iff.mpr hd)
    have hwhole : ∀ body rest, buffer (m.limitOf scope.path) [] events = .whole body rest ↔ ∃ chunks,
        Completes events chunks rest ∧ chunks.flatten.length ≤ m.limitOf scope.path ∧ body = chunks.flatten :=
      fun _ _ => buffer_eq_whole
    have hcalled : (∃ body rest, buffer (m.limitOf scope.path) [] events = .whole body rest ∧
        received = { body, rest }) ↔ ∃ chunks rest, Completes events chunks rest ∧
          chunks.flatten.length ≤ m.limitOf scope.path ∧ ¬ Declares scope (m.limitOf scope.path) ∧
          received = { body := chunks.flatten, rest } := by
      simp only [hwhole]
      constructor
      · rintro ⟨_, rest, ⟨chunks, hcompletes, hlength, rfl⟩, rfl⟩
        exact ⟨chunks, rest, hcompletes, hlength, hno, rfl⟩
      · rintro ⟨chunks, rest, hcompletes, hlength, -, rfl⟩
        exact ⟨_, rest, ⟨chunks, hcompletes, hlength, rfl⟩, rfl⟩
    rw [← hcalled]
    cases buffer (m.limitOf scope.path) [] events with
    | whole body rest =>
        constructor
        · intro hcall
          exact ⟨body, rest, rfl, (Outcome.called.inj hcall).symm⟩
        · rintro ⟨body', rest', hsame, rfl⟩
          cases hsame
          rfl
    | _ =>
        constructor
        · intro hcall
          cases hcall
        · rintro ⟨body, rest, hsame, -⟩
          cases hsame

/-- **The application is called with the whole body, or not at all**: it is
called if and only if the body is complete, is no longer than the limit and
was not declared longer; it then receives the chunks as one, once, and after
that what the client sends next.  Otherwise the client gets one 413, or it
has left, or it is still sending. -/
theorem body_whole (m : InferenceBodyLimit) (scope : Scope) (events : List Event) (h : m.guards scope = true) :
    (∀ received, m.call scope events = .called received ↔ ∃ chunks rest, Completes events chunks rest ∧
      chunks.flatten.length ≤ m.limitOf scope.path ∧ ¬ Declares scope (m.limitOf scope.path) ∧
      received = { body := chunks.flatten, rest }) ∧
    (∀ body rest n, Replay.events (n + 1) { body, rest } = .request (some body) (some false) :: rest.take n) ∧
    ((∃ received, m.call scope events = .called received) ∨
      m.call scope events = .refused 413 (m.refusal scope) ∧
        (Declares scope (m.limitOf scope.path) ∨ Exceeds (m.limitOf scope.path) events) ∨
      m.call scope events = .left ∧ (∃ chunks rest, Sends events chunks (.disconnect :: rest)) ∨
      m.call scope events = .waiting ∧ ∃ chunks, Sends events chunks []) := by
  refine ⟨fun received => call_eq_called h, fun body rest n => ?_, ?_⟩
  · exact congrArg _ (Replay.events_delivered n body rest)
  · rw [call, if_pos h]
    split
    · rename_i hdeclares
      exact .inr (.inl ⟨rfl, .inl (declares_iff.mp hdeclares)⟩)
    · obtain ⟨hleft, hwaiting, hover⟩ := @buffer_ends (m.limitOf scope.path) [] events
      cases hbuffer : buffer (m.limitOf scope.path) [] events with
      | whole body rest => exact .inl ⟨_, rfl⟩
      | «over» => exact .inr (.inl ⟨rfl, .inr (hover hbuffer)⟩)
      | left => exact .inr (.inr (.inl ⟨rfl, hleft hbuffer⟩))
      | waiting => exact .inr (.inr (.inr ⟨rfl, hwaiting hbuffer⟩))

/-- A request to embed, in two chunks. -/
def embedScope : Scope where
  type := "http".toList
  path := some "/v1/embed".toList
  headers := [(encodeUtf8 "content-length".toList, encodeUtf8 "007".toList)]

theorem body_whole_two : inferenceBodyLimit.call embedScope
    [.request (some [1, 2]) (some true), .request (some [3]) none, .disconnect] =
      .called { body := [1, 2, 3], rest := [.disconnect] } := by
  refine ((body_whole inferenceBodyLimit embedScope _ rfl).1 _).mpr ⟨[[1, 2], [3]], [.disconnect], ?_, ?_, ?_, rfl⟩
  · exact .chunk (some [1, 2]) (.last (some [3]) _ rfl)
  · decide
  · rw [← declares_iff]
    decide

end InferenceBodyLimit

end InferenceDriver.Routes.BodyLimit

/-
# `Cli.Paths` — one Codex feed, read in two ways

`generate` cuts the output as `bytes.splitlines` does and reads each line
from its bytes; `stream` reads up to each newline, no further than the
reader's limit, and decodes with replacement.  So there are two feeds of
events in one output (`wholeFeed`, `lineFeed`), mostly the same one.

And the two take different things from a feed.  `stream` shows reasoning,
which `generate` drops; it passes over a message without a text, which is
an answer to `generate`; and it has to be able to send what it reads on.
`answers_alike` is exactly when none of it shows.
-/
import InferenceDriver.Cli.Codex
import InferenceDriver.Cli.Left
import InferenceDriver.Lib.Both

namespace InferenceDriver.Cli.Codex

open Checks OpenAi Thinking

variable (E : Env) (U : Ucd) (D : Decoder) (q : Setup)

/-! ## Feeds -/

/-- The events among what is read; none where reading raises. -/
def events : List JsonRead → Option (List Obj)
  | [] => some []
  | .value (.obj event) :: rest => (events rest).map (event :: ·)
  | .value _ :: rest => events rest
  | .invalid :: rest => events rest
  | .refused :: _ => none
  | .tooDeep :: _ => none

/-- A line of bytes, read; none where it is blank. -/
def readBytes (line : List UInt8) : Option JsonRead :=
  if stripBytes line = [] then none else some (D.loadsBytes (stripBytes line))

def readText (line : Text) : Option JsonRead := if strip line = [] then none else some (D.loads (strip line))

/-- The feed of an output, as `generate` reads it. -/
def wholeFeed (stdout : List UInt8) : Option (List Obj) := events ((splitBytes stdout).filterMap (readBytes D))

/-- The feed of an output, as `stream` reads it. -/
def lineFeed (stdout : List UInt8) : Option (List Obj) :=
  if (readable stdout).2 then none else events ((readable stdout).1.filterMap (readText D))

/-- The text of an item of this kind. -/
def itemText (kind : String) (item : Obj) : Option Text := if isKind item kind then textOf item else none

/-- The text of a completed item of this kind, be it empty. -/
def completed (kind : String) (event : Obj) : Option Text :=
  if isKind event "item.completed" then (itemOf event).bind (itemText kind) else none

def messages (feed : List Obj) : List Text := feed.filterMap (completed "agent_message")

/-- The text of a completed item of this kind, if there is anything in it. -/
def spokenOf (kind : String) (event : Obj) : Option Text := (completed kind event).filter fun text => text ≠ []

/-- The messages with a text. -/
def spoken (feed : List Obj) : List Text := feed.filterMap (spokenOf "agent_message")

/-- The reasoning that is shown. -/
def thoughts (feed : List Obj) : List Text := if q.off then [] else feed.filterMap (spokenOf "reasoning")

/-- The usage of the last `turn.completed`, after this one. -/
def lastUsage (usage : Json) (feed : List Obj) : Json :=
  feed.foldl (fun usage event => if isKind event "turn.completed" then event.get "usage" else usage) usage

/-- What `stream` can do with an event: send its text on, or read why it failed. -/
def takes (event : Obj) : Bool :=
  if isKind event "turn.started" then true
  else if isKind event "item.started" then
    (itemOf event).all fun item => !q.report || (toolOf E item).all E.holds
  else if isKind event "item.completed" then
    (spokenOf "agent_message" event).all E.holds && ((spokenOf "reasoning" event).all E.holds || q.off)
  else if isFailure event then (failureOf D event).isOk
  else true

/-! ## Lines and events -/

variable {E U D q} {S L ε : Type}

/-- What is done with what was read of a line. -/
def onRead (g : S → Obj → Except ε S) (raise : ε) (s : S) : Option JsonRead → Except ε S
  | none => .ok s
  | some (.value (.obj event)) => g s event
  | some (.value _) => .ok s
  | some .invalid => .ok s
  | some .refused => .error raise
  | some .tooDeep => .error raise

theorem onRead_other (g : S → Obj → Except ε S) (raise : ε) (s : S) {v : Json} (h : ∀ event, v ≠ .obj event)
    (rest : List JsonRead) : onRead g raise s (some (.value v)) = .ok s ∧ events (.value v :: rest) = events rest := by
  cases v with
  | obj event => exact absurd rfl (h event)
  | null => exact ⟨rfl, rfl⟩
  | bool b => exact ⟨rfl, rfl⟩
  | int n => exact ⟨rfl, rfl⟩
  | float x => exact ⟨rfl, rfl⟩
  | str t => exact ⟨rfl, rfl⟩
  | arr items => exact ⟨rfl, rfl⟩

/-- The lines are read as their feed, and raise where it does. -/
theorem foldlM_feed {read : L → Option JsonRead} {f : S → L → Except ε S} {g : S → Obj → Except ε S}
    (hf : ∀ s l, ∃ raise, f s l = onRead g raise s (read l)) (lines : List L) (s : S) :
    (∀ feed, events (lines.filterMap read) = some feed → Both Eq (feed.foldlM g s) (lines.foldlM f s)) ∧
      (events (lines.filterMap read) = none → ∃ e, lines.foldlM f s = .error e) := by
  induction lines generalizing s with
  | nil =>
      refine ⟨fun feed h => ?_, fun h => (by cases h)⟩
      cases h
      exact .ok rfl
  | cons line lines ih =>
      obtain ⟨raise, hline⟩ := hf s line
      rw [List.foldlM_cons, hline]
      -- a line that is passed over
      have passed (hr : onRead g raise s (read line) = .ok s)
          (he : events ((line :: lines).filterMap read) = events (lines.filterMap read)) :
          (∀ feed, events ((line :: lines).filterMap read) = some feed → Both Eq (feed.foldlM g s)
            (onRead g raise s (read line) >>= fun s => lines.foldlM f s)) ∧
          (events ((line :: lines).filterMap read) = none →
            ∃ e, (onRead g raise s (read line) >>= fun s => lines.foldlM f s) = .error e) := by
        rw [hr, he]
        exact ih s
      cases hr : read line with
      | none =>
          rw [hr] at passed
          exact passed rfl (congrArg events (List.filterMap_cons_none hr))
      | some r =>
          rw [hr] at passed
          rw [List.filterMap_cons_some hr] at passed ⊢
          cases r with
          | invalid => exact passed rfl rfl
          | refused => exact ⟨fun feed h => (by cases h), fun _ => ⟨raise, rfl⟩⟩
          | tooDeep => exact ⟨fun feed h => (by cases h), fun _ => ⟨raise, rfl⟩⟩
          | value v =>
              rcases Classical.em (∃ event, v = .obj event) with ⟨event, rfl⟩ | hv
              · show (∀ feed, (events (lines.filterMap read)).map (event :: ·) = some feed → Both Eq (feed.foldlM g s)
                    (g s event >>= fun s => lines.foldlM f s)) ∧
                  ((events (lines.filterMap read)).map (event :: ·) = none →
                    ∃ e, (g s event >>= fun s => lines.foldlM f s) = .error e)
                refine ⟨fun feed h => ?_, fun h => ?_⟩
                · obtain ⟨rest, hrest, rfl⟩ := Option.map_eq_some_iff.mp h
                  rw [List.foldlM_cons]
                  cases g s event with
                  | error e => exact .error
                  | ok s' => exact (ih s').1 rest hrest
                · have hnone := Option.map_eq_none_iff.mp h
                  cases g s event with
                  | error e => exact ⟨e, rfl⟩
                  | ok s' => exact (ih s').2 hnone
              · have other := onRead_other g raise s (not_exists.mp hv) (lines.filterMap read)
                exact passed other.1 other.2

/-! ## Kinds -/

theorem isKind_ne {event : Obj} {kind kind' : String} (h : isKind event kind = true) (hne : kind.toList ≠ kind'.toList) :
    isKind event kind' = false := by
  rw [isKind] at h ⊢
  cases hv : event.get "type" with
  | str s =>
      rw [hv] at h
      have hs : s = kind.toList := of_decide_eq_true h
      exact decide_eq_false fun hs' => hne (hs.symm.trans hs')
  | null => rfl
  | bool b => rfl
  | int n => rfl
  | float x => rfl
  | arr items => rfl
  | obj fields => rfl

/-! ## `generate` -/

theorem completed_eq_none {event : Obj} (h : isKind event "item.completed" = false) (kind : String) :
    completed kind event = none := by
  rw [completed, h, if_neg Bool.false_ne_true]

theorem completed_some {event item : Obj} (h : isKind event "item.completed" = true) (hi : itemOf event = some item)
    (kind : String) : completed kind event = itemText kind item := by
  rw [completed, if_pos h, hi]
  rfl

theorem completed_none {event : Obj} (h : isKind event "item.completed" = true) (hi : itemOf event = none)
    (kind : String) : completed kind event = none := by
  rw [completed, if_pos h, hi]
  rfl

theorem whole_event (s : Whole) (event : Obj) : s.event event =
    { texts := s.texts ++ (completed "agent_message" event).toList
      usage := if isKind event "turn.completed" then event.get "usage" else s.usage, sawAny := true } := by
  rw [Whole.event]
  cases hc : isKind event "item.completed" with
  | true =>
      rw [isKind_ne hc (by decide), if_pos rfl]
      cases hi : itemOf event with
      | none =>
          rw [completed_none hc hi, Option.toList_none, List.append_nil]
          rfl
      | some item =>
          rw [completed_some hc hi, itemText]
          cases ht : textOf item with
          | none =>
              rw [ite_self, Option.toList_none, List.append_nil]
              simp only [ht]
              rfl
          | some text =>
              simp only [ht]
              cases isKind item "agent_message" with
              | true => rfl
              | false => simp
  | false =>
      rw [completed_eq_none hc, Option.toList_none, List.append_nil]
      cases isKind event "turn.completed" with
      | true => rfl
      | false => rfl

theorem whole_events (feed : List Obj) (s : Whole) : feed.foldl Whole.event s =
    { texts := s.texts ++ messages feed, usage := lastUsage s.usage feed, sawAny := s.sawAny || decide (feed ≠ []) } := by
  induction feed generalizing s with
  | nil => simp [messages, lastUsage]
  | cons event feed ih =>
      have hmessages : messages (event :: feed) = (completed "agent_message" event).toList ++ messages feed := by
        rw [messages, List.filterMap_cons]
        cases completed "agent_message" event with
        | none => rfl
        | some text => rfl
      rw [List.foldl_cons, ih, whole_event, hmessages, List.append_assoc]
      simp [lastUsage]

theorem whole_line (s : Whole) (line : List UInt8) :
    ∃ raise, Whole.line D s line = onRead (fun s event => .ok (s.event event)) raise s (readBytes D line) := by
  refine ⟨.uncaught, ?_⟩
  rw [Whole.line, readBytes]
  cases stripBytes line with
  | nil => rfl
  | cons b bytes =>
      rw [if_neg (List.cons_ne_nil _ _)]
      simp only
      cases D.loadsBytes (b :: bytes) with
      | invalid => rfl
      | refused => rfl
      | tooDeep => rfl
      | value v =>
          cases v with
          | obj event => rfl
          | null => rfl
          | bool b => rfl
          | int n => rfl
          | float x => rfl
          | str t => rfl
          | arr items => rfl

theorem stream_line (s : Locals) (line : Text) :
    ∃ raise, onLine E D q s line = onRead (onEvent E D q) raise s (readText D line) := by
  refine ⟨⟨.uncaught, s.sent⟩, ?_⟩
  rw [onLine, readText]
  cases strip line with
  | nil => rfl
  | cons c text =>
      rw [if_neg (List.cons_ne_nil _ _)]
      simp only
      cases D.loads (c :: text) with
      | invalid => rfl
      | refused => rfl
      | tooDeep => rfl
      | value v =>
          cases v with
          | obj event => rfl
          | null => rfl
          | bool b => rfl
          | int n => rfl
          | float x => rfl
          | str t => rfl
          | arr items => rfl

/-- What `stream` has taken of an event. -/
structure Took (q : Setup) (s : Locals) (event : Obj) (s' : Locals) : Prop where
  texts : s'.texts = s.texts ++ (spokenOf "agent_message" event).toList
  thoughts : s'.thoughts = s.thoughts ++ if q.off then [] else (spokenOf "reasoning" event).toList
  usage : s'.usage = if isKind event "turn.completed" then event.get "usage" else s.usage
  sawAny : s'.sawAny = true

/-- An event that has no text: nothing is taken of it. -/
theorem took_silent {s s' : Locals} {event : Obj} (hc : isKind event "item.completed" = false)
    (hu : isKind event "turn.completed" = false) (htexts : s'.texts = s.texts) (hthoughts : s'.thoughts = s.thoughts)
    (husage : s'.usage = s.usage) (hsaw : s'.sawAny = true) : Took q s event s' := by
  have hnone : ∀ kind, spokenOf kind event = none := fun kind => by
    rw [spokenOf, completed_eq_none hc]
    rfl
  refine ⟨?_, ?_, ?_, hsaw⟩
  · rw [hnone, htexts, Option.toList_none, List.append_nil]
  · rw [hnone, hthoughts, Option.toList_none, ite_self, List.append_nil]
  · rw [hu, husage, if_neg Bool.false_ne_true]

/-- `stream` goes on after an event, or raises. -/
def Goes (E : Env) (D : Decoder) (q : Setup) (s : Locals) (event : Obj) (x : Except Raised Locals) : Prop :=
  takes E D q event = true ∧ (∃ s', x = .ok s' ∧ Took q s event s') ∨ takes E D q event = false ∧ ∃ e, x = .error e

/-- A frame is sent, or its text is none the frame takes. -/
theorem send_cases (E : Env) (s : Locals) (text : Text) (c : Chunk) :
    E.holds text = true ∧ s.send E text c = .ok { s with sent := s.sent ++ [c] } ∨
      E.holds text = false ∧ s.send E text c = .error ⟨.uncaught, s.sent⟩ := by
  rw [Locals.send]
  cases E.holds text with
  | true => exact Or.inl ⟨rfl, rfl⟩
  | false => exact Or.inr ⟨rfl, rfl⟩

theorem goes_started (s : Locals) {event : Obj} (h : isKind event "item.started" = true) {item : Obj}
    (hi : itemOf event = some item) : Goes E D q s event (onStarted E q { s with sawAny := true } item) := by
  have hc := isKind_ne h (show "item.started".toList ≠ "item.completed".toList by decide)
  have hu := isKind_ne h (show "item.started".toList ≠ "turn.completed".toList by decide)
  have ht : takes E D q event = (!q.report || (toolOf E item).all E.holds) := by
    rw [takes, isKind_ne h (show "item.started".toList ≠ "turn.started".toList by decide), if_neg Bool.false_ne_true,
      if_pos h, hi]
    rfl
  rw [Goes, ht, onStarted]
  cases toolOf E item with
  | none =>
      refine Or.inl ⟨Bool.or_true _, _, rfl, ?_⟩
      exact took_silent hc hu rfl rfl rfl rfl
  | some tool =>
      cases q.report with
      | false => exact Or.inl ⟨rfl, _, rfl, took_silent hc hu rfl rfl rfl rfl⟩
      | true =>
          rcases send_cases E { s with sawAny := true } tool (.progress { stage := .tool, tool }) with ⟨ht, hs⟩ | ⟨ht, hs⟩
          · exact Or.inl ⟨ht, _, hs, took_silent hc hu rfl rfl rfl rfl⟩
          · exact Or.inr ⟨ht, _, hs⟩

theorem spokenOf_item {event item : Obj} (h : isKind event "item.completed" = true) (hi : itemOf event = some item)
    (kind : String) : spokenOf kind event = (itemText kind item).filter fun text => text ≠ [] := by
  rw [spokenOf, completed_some h hi]

theorem takes_completed {event : Obj} (h : isKind event "item.completed" = true) : takes E D q event =
    ((spokenOf "agent_message" event).all E.holds && ((spokenOf "reasoning" event).all E.holds || q.off)) := by
  rw [takes, isKind_ne h (show "item.completed".toList ≠ "turn.started".toList by decide),
    isKind_ne h (show "item.completed".toList ≠ "item.started".toList by decide), if_neg Bool.false_ne_true,
    if_neg Bool.false_ne_true, if_pos h]

/-- A completed item that is passed over. -/
theorem goes_silent {s : Locals} {event : Obj} (h : isKind event "item.completed" = true)
    (hm : spokenOf "agent_message" event = none) (hr : spokenOf "reasoning" event = none ∨ q.off = true)
    {x : Except Raised Locals} (hx : x = .ok { s with sawAny := true }) : Goes E D q s event x := by
  refine Or.inl ⟨?_, _, hx, ?_, ?_, ?_, rfl⟩
  · rw [takes_completed h, hm]
    rcases hr with hr | hr
    · rw [hr]
      rfl
    · rw [hr, Bool.or_true]
      rfl
  · rw [hm, Option.toList_none, List.append_nil]
  · rcases hr with hr | hr
    · rw [hr, Option.toList_none, ite_self, List.append_nil]
    · rw [if_pos hr, List.append_nil]
  · rw [isKind_ne h (show "item.completed".toList ≠ "turn.completed".toList by decide), if_neg Bool.false_ne_true]

theorem goes_completed (s : Locals) {event : Obj} (h : isKind event "item.completed" = true) {item : Obj}
    (hi : itemOf event = some item) : Goes E D q s event (onCompleted E q { s with sawAny := true } item) := by
  have hu := isKind_ne h (show "item.completed".toList ≠ "turn.completed".toList by decide)
  have hm := spokenOf_item h hi "agent_message"
  have hr := spokenOf_item h hi "reasoning"
  rw [itemText] at hm hr
  rw [onCompleted]
  cases ht : textOf item with
  | none =>
      rw [ht, ite_self] at hm hr
      exact goes_silent h hm (Or.inl hr) rfl
  | some text =>
      cases text with
      | nil =>
          rw [ht] at hm hr
          refine goes_silent h (hm.trans ?_) (Or.inl (hr.trans ?_)) rfl
          · split
            · rfl
            · rfl
          · split
            · rfl
            · rfl
      | cons c cs =>
          rw [ht] at hm hr
          simp only
          cases hagent : isKind item "agent_message" with
          | true =>
              rw [hagent] at hm
              rw [isKind_ne hagent (show "agent_message".toList ≠ "reasoning".toList by decide)] at hr
              have hm : spokenOf "agent_message" event = some (c :: cs) := hm
              have hr : spokenOf "reasoning" event = none := hr
              have htakes : takes E D q event = E.holds (c :: cs) := by
                rw [takes_completed h, hm, hr]
                exact Bool.and_true _
              rw [if_pos rfl]
              rcases send_cases E { s with sawAny := true, texts := s.texts ++ [c :: cs] } (c :: cs)
                (.text (c :: cs) none) with ⟨hh, hs⟩ | ⟨hh, hs⟩
              · refine Or.inl ⟨htakes.trans hh, _, hs, ?_, ?_, ?_, rfl⟩
                · rw [hm]
                  rfl
                · rw [hr, Option.toList_none, ite_self, List.append_nil]
                · rw [hu, if_neg Bool.false_ne_true]
              · exact Or.inr ⟨htakes.trans hh, _, hs⟩
          | false =>
              rw [hagent] at hm
              have hm : spokenOf "agent_message" event = none := hm
              rw [if_neg Bool.false_ne_true]
              cases hreason : isKind item "reasoning" with
              | false =>
                  rw [hreason] at hr
                  exact goes_silent h hm (Or.inl hr) (if_neg fun h => Bool.false_ne_true h.1)
              | true =>
                  rw [hreason] at hr
                  have hr : spokenOf "reasoning" event = some (c :: cs) := hr
                  cases hoff : q.off with
                  | true => exact goes_silent h hm (Or.inr hoff) (if_neg fun h => Bool.false_ne_true h.2.symm)
                  | false =>
                      have htakes : takes E D q event = E.holds (c :: cs) := by
                        rw [takes_completed h, hm, hr, hoff]
                        exact Bool.or_false _
                      rw [if_pos ⟨rfl, rfl⟩]
                      rcases send_cases E { s with sawAny := true, thoughts := s.thoughts ++ [c :: cs] } (c :: cs)
                        (.reasoning (c :: cs)) with ⟨hh, hs⟩ | ⟨hh, hs⟩
                      · refine Or.inl ⟨htakes.trans hh, _, hs, ?_, ?_, ?_, rfl⟩
                        · rw [hm, Option.toList_none, List.append_nil]
                        · rw [hoff, hr]
                          rfl
                        · rw [hu, if_neg Bool.false_ne_true]
                      · exact Or.inr ⟨htakes.trans hh, _, hs⟩

/-- An event of a kind that is none of these. -/
theorem takes_other {event : Obj} (hs : isKind event "item.started" = false)
    (hc : isKind event "item.completed" = false) :
    takes E D q event =
      (if isKind event "turn.started" then true else if isFailure event then (failureOf D event).isOk else true) := by
  rw [takes, hs, hc]
  rfl

/-- What `stream` does with an event. -/
theorem goes (s : Locals) (event : Obj) : Goes E D q s event (onEvent E D q s event) := by
  rw [onEvent]
  cases hturn : isKind event "turn.started" with
  | true =>
      have hs := isKind_ne hturn (show "turn.started".toList ≠ "item.started".toList by decide)
      have hc := isKind_ne hturn (show "turn.started".toList ≠ "item.completed".toList by decide)
      have hu := isKind_ne hturn (show "turn.started".toList ≠ "turn.completed".toList by decide)
      have ht : takes E D q event = true := by rw [takes_other hs hc, hturn, if_pos rfl]
      cases q.report with
      | true => exact Or.inl ⟨ht, _, rfl, took_silent hc hu rfl rfl rfl rfl⟩
      | false => exact Or.inl ⟨ht, _, rfl, took_silent hc hu rfl rfl rfl rfl⟩
  | false =>
      simp only [if_neg Bool.false_ne_true]
      cases hs : isKind event "item.started" with
      | true =>
          have hc := isKind_ne hs (show "item.started".toList ≠ "item.completed".toList by decide)
          have hu := isKind_ne hs (show "item.started".toList ≠ "turn.completed".toList by decide)
          cases hi : itemOf event with
          | some item => exact goes_started s hs hi
          | none =>
              refine Or.inl ⟨?_, _, rfl, took_silent hc hu rfl rfl rfl rfl⟩
              rw [takes, hturn, hs, hi]
              rfl
      | false =>
          simp only [if_neg Bool.false_ne_true]
          cases hc : isKind event "item.completed" with
          | true =>
              cases hi : itemOf event with
              | some item => exact goes_completed s hc hi
              | none =>
                  have hnone : ∀ kind, spokenOf kind event = none := fun kind => by
                    rw [spokenOf, completed_none hc hi]
                    rfl
                  exact goes_silent hc (hnone _) (Or.inl (hnone _)) rfl
          | false =>
              have ht := takes_other (E := E) (D := D) (q := q) hs hc
              rw [hturn, if_neg Bool.false_ne_true] at ht
              simp only [if_neg Bool.false_ne_true]
              cases hf : isFailure event with
              | true =>
                  have hu : isKind event "turn.completed" = false := by
                    rw [isFailure, Bool.or_eq_true] at hf
                    rcases hf with hf | hf
                    · exact isKind_ne hf (by decide)
                    · exact isKind_ne hf (by decide)
                  rw [hf, if_pos rfl] at ht
                  rw [Goes, ht, if_pos rfl, laterFailure]
                  cases failureOf D event with
                  | error f => exact Or.inr ⟨rfl, _, rfl⟩
                  | ok f => exact Or.inl ⟨rfl, _, rfl, took_silent hc hu rfl rfl rfl rfl⟩
              | false =>
                  rw [hf, if_neg Bool.false_ne_true] at ht
                  simp only [if_neg Bool.false_ne_true]
                  cases hu : isKind event "turn.completed" with
                  | false => exact Or.inl ⟨ht, _, rfl, took_silent hc hu rfl rfl rfl rfl⟩
                  | true =>
                      have hnone : ∀ kind, spokenOf kind event = none := fun kind => by
                        rw [spokenOf, completed_eq_none hc]
                        rfl
                      refine Or.inl ⟨ht, _, rfl, ?_, ?_, ?_, rfl⟩
                      · rw [hnone]
                        exact (List.append_nil _).symm
                      · rw [hnone, Option.toList_none, ite_self]
                        exact (List.append_nil _).symm
                      · rw [if_pos hu]

/-! ## A feed -/

/-- What `stream` has taken of a feed. -/
structure TookAll (q : Setup) (s : Locals) (feed : List Obj) (s' : Locals) : Prop where
  texts : s'.texts = s.texts ++ spoken feed
  thoughts : s'.thoughts = s.thoughts ++ thoughts q feed
  usage : s'.usage = lastUsage s.usage feed
  sawAny : s'.sawAny = (s.sawAny || decide (feed ≠ []))

theorem spoken_cons (event : Obj) (feed : List Obj) :
    spoken (event :: feed) = (spokenOf "agent_message" event).toList ++ spoken feed := by
  rw [spoken, List.filterMap_cons]
  cases spokenOf "agent_message" event with
  | none => rfl
  | some text => rfl

theorem thoughts_cons (event : Obj) (feed : List Obj) : thoughts q (event :: feed) =
    (if q.off then [] else (spokenOf "reasoning" event).toList) ++ thoughts q feed := by
  rw [thoughts, thoughts, List.filterMap_cons]
  cases q.off with
  | true => rfl
  | false =>
      cases spokenOf "reasoning" event with
      | none => rfl
      | some text => rfl

theorem TookAll.cons {s s₁ s₂ : Locals} {event : Obj} {feed : List Obj} (h : Took q s event s₁)
    (h' : TookAll q s₁ feed s₂) : TookAll q s (event :: feed) s₂ where
  texts := by rw [h'.texts, h.texts, spoken_cons, List.append_assoc]
  thoughts := by rw [h'.thoughts, h.thoughts, thoughts_cons, List.append_assoc]
  usage := by
    rw [h'.usage, h.usage]
    rfl
  sawAny := by
    rw [h'.sawAny, h.sawAny, Bool.true_or, decide_eq_true (List.cons_ne_nil event feed), Bool.or_true]

/-- What `stream` does with a feed. -/
theorem goes_feed (feed : List Obj) (s : Locals) :
    (feed.all (takes E D q) = true ∧ ∃ s', feed.foldlM (onEvent E D q) s = .ok s' ∧ TookAll q s feed s') ∨
      feed.all (takes E D q) = false ∧ ∃ e, feed.foldlM (onEvent E D q) s = .error e := by
  induction feed generalizing s with
  | nil =>
      refine Or.inl ⟨rfl, s, rfl, (List.append_nil _).symm, ?_, rfl, (Bool.or_false _).symm⟩
      rw [thoughts, List.filterMap_nil, ite_self, List.append_nil]
  | cons event feed ih =>
      rw [List.all_cons, List.foldlM_cons]
      rcases goes (E := E) (D := D) (q := q) s event with ⟨ht, s₁, h₁, htook⟩ | ⟨ht, e, h₁⟩
      · rw [ht, h₁, Bool.true_and]
        rcases ih s₁ with ⟨hall, s₂, h₂, htook'⟩ | ⟨hall, e, h₂⟩
        · exact Or.inl ⟨hall, s₂, h₂, htook'.cons htook⟩
        · exact Or.inr ⟨hall, e, h₂⟩
      · rw [ht, h₁]
        exact Or.inr ⟨rfl, e, rfl⟩

/-! ## Answers -/

/-- `generate`, of a child that exits with 0. -/
theorem generateOf_ok {head : List UInt8 → Text} {stdout stderr : List UInt8} {r : GenerateResponse} :
    generateOf E U D q head ⟨stdout, stderr, 0⟩ = .ok r ↔ ∃ feed, wholeFeed D stdout = some feed ∧
      messages feed ≠ [] ∧ resultOf E U q (messages feed) [] (lastUsage .null feed) = .ok r := by
  have hlines := foldlM_feed (fun s line => whole_line (D := D) s line) (splitBytes stdout) {}
  have hrun : generateOf E U D q head ⟨stdout, stderr, 0⟩ = (splitBytes stdout).foldlM (Whole.line D) {} >>= fun s =>
      if ¬ s.sawAny then
        .error (.cli ("codex emitted no parseable events. stdout head: ".toList ++ head (stdout.take 200)) none)
      else if s.texts = [] then .error (.cli "codex completed without producing an agent_message".toList none)
      else resultOf E U q s.texts [] s.usage := if_neg (not_not_intro rfl)
  rw [hrun]
  cases hfeed : wholeFeed D stdout with
  | none =>
      obtain ⟨e, he⟩ := hlines.2 hfeed
      rw [he]
      exact ⟨fun h => (by cases h), fun ⟨_, h, _⟩ => (by cases h)⟩
  | some feed =>
      have hfold : feed.foldlM (fun (s : Whole) event => (Except.ok (s.event event) : Except Failure Whole)) {} =
          .ok (feed.foldl Whole.event {}) := List.foldlM_pure
      have hboth := hlines.1 feed hfeed
      rw [hfold, whole_events, List.nil_append] at hboth
      rw [hboth.eq_ok]
      rcases eq_or_ne feed [] with rfl | hne
      · exact ⟨fun h => (by cases h), fun ⟨feed', hfeed', hmessages, _⟩ => by
          cases hfeed'
          exact absurd rfl hmessages⟩
      · have hsaw : ¬ ¬ ((false || decide (feed ≠ [])) = true) :=
          not_not_intro (by rw [Bool.false_or]; exact decide_eq_true hne)
        refine ⟨fun h => ?_, ?_⟩
        · have h : (if ¬ (false || decide (feed ≠ [])) = true then _ else if messages feed = [] then _ else _) = _ := h
          rw [if_neg hsaw] at h
          split at h
          · cases h
          · rename_i hmessages
            exact ⟨feed, rfl, hmessages, h⟩
        · rintro ⟨feed', hfeed', hmessages, h⟩
          cases hfeed'
          show (if ¬ (false || decide (feed ≠ [])) = true then _ else if messages feed = [] then _ else _) = _
          rw [if_neg hsaw, if_neg hmessages]
          exact h

/-- The end of a stream that has seen something. -/
theorem finish_ok {s : Locals} (hsaw : s.texts ≠ [] → s.sawAny = true) {r : GenerateResponse} :
    (∃ sent, finish E U q s = .ok (sent ++ [.done r])) ↔
      s.texts ≠ [] ∧ resultOf E U q s.texts s.thoughts s.usage = .ok r := by
  rw [finish]
  rcases eq_or_ne s.texts [] with hnil | hne
  · refine ⟨fun ⟨sent, h⟩ => ?_, fun h => absurd hnil h.1⟩
    split at h
    · cases h
    · cases h
  · rw [if_neg (not_not_intro (hsaw hne)), if_neg hne]
    cases resultOf E U q s.texts s.thoughts s.usage with
    | error f => exact ⟨fun ⟨_, h⟩ => (by cases h), fun h => (by cases h.2)⟩
    | ok r' =>
        refine ⟨fun ⟨sent, h⟩ => ⟨hne, ?_⟩, fun h => ⟨s.sent, ?_⟩⟩
        · have h : s.sent ++ [Chunk.done r'] = sent ++ [.done r] := Except.ok.inj h
          have hlast := (List.append_inj' h rfl).2
          cases hlast
          rfl
        · cases h.2
          rfl

/-- The stream of a child that exits with 0. -/
theorem stream_ok {c : Child} {r : GenerateResponse} :
    (∃ sent, stream E U D q c.binary (streamed c 0).1 (streamed c 0).2 = .ok (sent ++ [.done r])) ↔
      ∃ feed, lineFeed D c.stdout = some feed ∧ feed.all (takes E D q) = true ∧ spoken feed ≠ [] ∧
        resultOf E U q (spoken feed) (thoughts q feed) (lastUsage .null feed) = .ok r := by
  have hlines := foldlM_feed (fun s line => stream_line (E := E) (D := D) (q := q) s line) (readable c.stdout).1 {}
  rw [streamed, lineFeed]
  cases hover : (readable c.stdout).2 with
  | true =>
      rw [if_pos rfl, if_pos rfl]
      constructor
      · rintro ⟨sent, h⟩
        obtain ⟨s, -, h⟩ := bind_eq_ok.mp h
        cases h
      · rintro ⟨_, h, -⟩
        cases h
  | false =>
      rw [if_neg Bool.false_ne_true, if_neg Bool.false_ne_true, ending, if_pos rfl]
      show (∃ sent, ((readable c.stdout).1.foldlM (onLine E D q) {} >>= fun s => finish E U q s) = _) ↔ _
      cases hfeed : events ((readable c.stdout).1.filterMap (readText D)) with
      | none =>
          obtain ⟨e, he⟩ := hlines.2 hfeed
          rw [he]
          constructor
          · rintro ⟨_, h⟩
            cases h
          · rintro ⟨_, h, -⟩
            cases h
      | some feed =>
          have hboth := hlines.1 feed hfeed
          rcases goes_feed (E := E) (D := D) (q := q) feed {} with ⟨hall, s, hs, took⟩ | ⟨hall, e, he⟩
          · rw [hs] at hboth
            rw [hboth.eq_ok]
            have hsaw : s.texts ≠ [] → s.sawAny = true := by
              intro htexts
              have hne : feed ≠ [] := by
                rintro rfl
                exact htexts took.texts
              rw [took.sawAny, decide_eq_true hne, Bool.or_true]
            constructor
            · rintro ⟨sent, h⟩
              obtain ⟨hspoken, hr⟩ := (finish_ok hsaw).mp ⟨sent, h⟩
              rw [took.texts, List.nil_append] at hspoken
              rw [took.texts, took.thoughts, took.usage, List.nil_append, List.nil_append] at hr
              exact ⟨feed, rfl, hall, hspoken, hr⟩
            · rintro ⟨feed', hfeed', -, hspoken, hr⟩
              cases hfeed'
              refine (finish_ok hsaw).mpr ⟨?_, ?_⟩
              · rw [took.texts, List.nil_append]
                exact hspoken
              · rw [took.texts, took.thoughts, took.usage, List.nil_append, List.nil_append]
                exact hr
          · rw [he] at hboth
            obtain ⟨e', he'⟩ := hboth.eq_error
            rw [he']
            constructor
            · rintro ⟨_, h⟩
              cases h
            · rintro ⟨feed', hfeed', hall', -⟩
              cases hfeed'
              rw [hall] at hall'
              cases hall'

/-! ## The two paths -/

/-- The same answer. -/
structure Same (r r' : GenerateResponse) : Prop where
  content : r.content = r'.content
  reasoning : r.reasoning = r'.reasoning
  finishReason : r.finishReason = r'.finishReason
  usage : r.usage = r'.usage

/-- The terminal frame has the same answer. -/
def Answers (r : GenerateResponse) (chunks : List Chunk) : Prop := ∃ sent r', chunks = sent ++ [.done r'] ∧ Same r r'

/-- The reasoning of a stream's answer. -/
def reasoned (q : Setup) (feed : List Obj) : Text := List.intercalate "\n\n".toList (thoughts q feed)

/-- A feed with a message, be it empty, that `generate` can answer. -/
structure Tells (E : Env) (U : Ucd) (q : Setup) (feed : List Obj) : Prop where
  said : messages feed ≠ []
  counted : ∃ usage, usageOf (lastUsage .null feed) = .ok usage
  held : E.holds (shown U q (messages feed).flatten) = true

/-- A feed with a text in a message that `stream` can send on and answer. -/
structure Streams (E : Env) (U : Ucd) (D : Decoder) (q : Setup) (feed : List Obj) : Prop where
  said : spoken feed ≠ []
  taken : feed.all (takes E D q) = true
  counted : ∃ usage, usageOf (lastUsage .null feed) = .ok usage
  held : E.holds (shown U q (spoken feed).flatten) = true ∧ E.holds (reasoned q feed) = true

theorem resultOf_ok {texts thoughts : List Text} {usage : Json} {r : GenerateResponse} :
    resultOf E U q texts thoughts usage = .ok r ↔ ∃ u, usageOf usage = .ok u ∧
      (E.holds (shown U q texts.flatten) = true ∧ E.holds (List.intercalate "\n\n".toList thoughts) = true ∧
        E.holdsAll q.modelId = true) ∧
      r = { content := some (shown U q texts.flatten), audio := none, logprobs := none, annotations := []
            reasoning := if List.intercalate "\n\n".toList thoughts = [] then none
              else some (List.intercalate "\n\n".toList thoughts)
            toolCalls := [], finishReason := .stop, stopSequence := none, usage := u, modelId := q.modelId } := by
  have hheld : ∀ text : Text, E.holdsAll (if text = [] then none else some text) = E.holds text := by
    intro text
    cases text with
    | nil => rfl
    | cons c cs => rfl
  rw [resultOf]
  simp only [bind_eq_ok, checked_eq_ok, hheld]
  refine exists_congr fun u => and_congr_right fun _ => ?_
  exact ⟨fun h => ⟨h.2, h.1.symm⟩, fun h => ⟨h.2.symm, h.1⟩⟩

/-- What both answer with. -/
def answer (U : Ucd) (q : Setup) (texts : List Text) (reasoning : Text) (usage : Option Usage) : GenerateResponse where
  content := some (shown U q texts.flatten)
  audio := none
  logprobs := none
  annotations := []
  reasoning := if reasoning = [] then none else some reasoning
  toolCalls := []
  finishReason := .stop
  stopSequence := none
  usage := usage
  modelId := q.modelId

/-- A stream that is answered ends in its answer. -/
theorem stream_last {binary : Text} {lines : List Text} {exit : Exit Unit} {chunks : List Chunk}
    (h : stream E U D q binary lines exit = .ok chunks) : ∃ sent r, chunks = sent ++ [.done r] := by
  obtain ⟨s, -, h⟩ := bind_eq_ok.mp h
  cases exit with
  | ended u =>
      have h : finish E U q s = .ok chunks := h
      rw [finish] at h
      split at h
      · cases h
      · split at h
        · cases h
        · obtain ⟨r, -, h⟩ := bind_eq_ok.mp h
          cases h
          exact ⟨s.sent, r, rfl⟩
  | cliError code said => cases h
  | backendTimeout => cases h
  | raised error => cases h
  | cancelled => cases h
  | closed => cases h

/-- A model id no model takes: neither path answers. -/
theorem unnamed (c : Child) (head : List UInt8 → Text) (hmodel : E.holdsAll q.modelId = false) :
    (∀ r, generateOf E U D q head ⟨c.stdout, c.stderr, 0⟩ ≠ .ok r) ∧
      ∀ chunks, stream E U D q c.binary (streamed c 0).1 (streamed c 0).2 ≠ .ok chunks := by
  refine ⟨fun r h => ?_, fun chunks h => ?_⟩
  · obtain ⟨w, -, -, hr⟩ := generateOf_ok.mp h
    obtain ⟨u, -, hheld, -⟩ := resultOf_ok.mp hr
    rw [hmodel] at hheld
    cases hheld.2.2
  · obtain ⟨sent, r, rfl⟩ := stream_last h
    obtain ⟨l, -, -, -, hr⟩ := stream_ok.mp ⟨sent, h⟩
    obtain ⟨u, -, hheld, -⟩ := resultOf_ok.mp hr
    rw [hmodel] at hheld
    cases hheld.2.2

def itemDocument (kind text : String) : String × Json :=
  ("\x7b\"type\":\"item.completed\",\"item\":\x7b\"type\":\"" ++ kind ++ "\",\"text\":\"" ++ text ++ "\"\x7d\x7d",
    .ofFields [("type", .ofString "item.completed"),
      ("item", .ofFields [("type", .ofString kind), ("text", .ofString text)])])

def answered : List (String × Json) := [itemDocument "agent_message" "4"]

/-- A child that writes these documents, a line each. -/
def writes (documents : List (String × Json)) : Child where
  binary := "codex".toList
  stdout := documents.flatMap fun d => encodeUtf8 d.1.toList ++ [0x0A]
  stderr := []

def plain : Setup := ⟨"auto".toList, false, none⟩

end InferenceDriver.Cli.Codex

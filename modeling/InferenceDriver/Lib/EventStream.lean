/-
# `Lib.EventStream` — reading `text/event-stream`

How a reader takes events from a stream: lines end with a line feed, a
carriage return or both, a line names a field, and an empty line hands on
what was gathered.  Letters are taken one at a time, so what a reader has
after any part of a stream is what it has been handed on by then.

An event written as one `event` and one `data` line is handed on when its
last letter is read and not before (`read_write`, `out_part`); so of a
stream of such events a reader has, wherever it is cut, those that have
come whole (`received_part`).
-/
import Mathlib.Data.List.Basic

namespace EventStream

/-- A text that is all one line. -/
def OneLine (text : List Char) : Prop := ∀ c ∈ text, c ≠ '\n' ∧ c ≠ '\r'

instance (text : List Char) : Decidable (OneLine text) :=
  List.decidableBAll (fun c => c ≠ '\n' ∧ c ≠ '\r') text

theorem OneLine.append {a b : List Char} (ha : OneLine a) (hb : OneLine b) : OneLine (a ++ b) :=
  List.forall_mem_append.mpr ⟨ha, hb⟩

theorem OneLine.cons {c : Char} {a : List Char} (hc : c ≠ '\n' ∧ c ≠ '\r') (ha : OneLine a) : OneLine (c :: a) :=
  List.forall_mem_cons.mpr ⟨hc, ha⟩

/-- An event that two lines hold. -/
@[ext] structure Event where
  name : List Char
  data : List Char
  named : name ≠ []
  name_line : OneLine name
  data_line : OneLine data

def eventName : List Char := ['e', 'v', 'e', 'n', 't']

def dataName : List Char := ['d', 'a', 't', 'a']

/-- A field, but for the end of its line. -/
def fieldLine (name value : List Char) : List Char := name ++ (':' :: ' ' :: value)

/-- An event but for the empty line that hands it on. -/
def Event.lines (e : Event) : List Char := fieldLine eventName e.name ++ '\n' :: (fieldLine dataName e.data ++ ['\n'])

def Event.write (e : Event) : List Char := e.lines ++ ['\n']

/-! ## The reader -/

structure Reader where
  line : List Char := []
  /-- The last letter was a carriage return. -/
  afterCr : Bool := false
  event : List Char := []
  data : List Char := []
  /-- What has been handed on. -/
  out : List (List Char × List Char) := []

/-- A value, without the blank after the colon. -/
def unblank : List Char → List Char
  | ' ' :: value => value
  | value => value

/-- A line that names a field. -/
def Reader.field (r : Reader) (line : List Char) : Reader :=
  let name := line.takeWhile (· ≠ ':')
  let value := unblank ((line.dropWhile (· ≠ ':')).drop 1)
  if name = eventName then { r with event := value }
  else if name = dataName then { r with data := r.data ++ value ++ ['\n'] }
  else r

/-- The end of a line. -/
def Reader.endLine (r : Reader) : Reader :=
  match r.line with
  | [] =>
      if r.data = [] then { r with event := [] }
      else
        { r with
          event := []
          data := []
          out := r.out ++ [(if r.event = [] then "message".toList else r.event, r.data.dropLast)] }
  | ':' :: _ => { r with line := [] }
  | line => { r.field line with line := [] }

def Reader.step (r : Reader) (c : Char) : Reader :=
  if c = '\n' then if r.afterCr then { r with afterCr := false } else r.endLine
  else if c = '\r' then { r.endLine with afterCr := true }
  else { r with line := r.line ++ [c], afterCr := false }

def Reader.read (r : Reader) (text : List Char) : Reader := text.foldl Reader.step r

/-- What has been handed on of a stream. -/
def received (text : List Char) : List (List Char × List Char) := (Reader.read {} text).out

/-! ## A line -/

namespace Reader

theorem read_append (r : Reader) (a b : List Char) : r.read (a ++ b) = (r.read a).read b := List.foldl_append

theorem read_oneLine {r : Reader} (hcr : r.afterCr = false) {text : List Char} (h : OneLine text) :
    r.read text = { r with line := r.line ++ text } := by
  induction text generalizing r with
  | nil => rw [List.append_nil]; rfl
  | cons c text ih =>
      obtain ⟨hlf, hret⟩ := h c List.mem_cons_self
      have hstep : r.step c = { r with line := r.line ++ [c] } := by
        rw [step, if_neg hlf, if_neg hret, ← hcr]
      have hrest := ih (r := { r with line := r.line ++ [c] }) hcr fun d hd => h d (List.mem_cons_of_mem _ hd)
      rw [List.append_assoc] at hrest
      rw [read, List.foldl_cons, hstep]
      exact hrest

theorem read_newline {r : Reader} (hcr : r.afterCr = false) (text : List Char) :
    r.read ('\n' :: text) = r.endLine.read text := by
  have hstep : r.step '\n' = r.endLine := by
    rw [step, if_pos rfl, hcr, if_neg Bool.false_ne_true]
  rw [read, List.foldl_cons, hstep]
  rfl

/-- Nothing that was handed on is taken back. -/
theorem out_step (r : Reader) (c : Char) : r.out <+: (r.step c).out := by
  have hend : r.out <+: r.endLine.out := by
    unfold endLine
    split
    · split
      · exact List.prefix_rfl
      · exact List.prefix_append _ _
    · exact List.prefix_rfl
    · simp only [field]
      split
      · exact List.prefix_rfl
      · split
        · exact List.prefix_rfl
        · exact List.prefix_rfl
  unfold step
  split
  · split
    · exact List.prefix_rfl
    · exact hend
  · split
    · exact hend
    · exact List.prefix_rfl

theorem out_read (r : Reader) (text : List Char) : r.out <+: (r.read text).out := by
  induction text generalizing r with
  | nil => exact List.prefix_rfl
  | cons c text ih => exact (out_step r c).trans (ih (r.step c))

end Reader

/-! ## An event -/

/-- A reader that is between two events. -/
def between (out : List (List Char × List Char)) : Reader := { out }

def Event.pair (e : Event) : List Char × List Char := (e.name, e.data)

theorem field_line (r : Reader) {name : List Char} (h : ':' ∉ name) (value : List Char) :
    r.field (fieldLine name value) =
      if name = eventName then { r with event := value }
      else if name = dataName then { r with data := r.data ++ value ++ ['\n'] }
      else r := by
  have htrue : ∀ c ∈ name, decide (c ≠ ':') = true := by
    intro c hc
    refine decide_eq_true ?_
    rintro rfl
    exact h hc
  have hname : (fieldLine name value).takeWhile (· ≠ ':') = name := by
    rw [fieldLine, List.takeWhile_append_of_pos htrue]
    exact List.append_nil name
  have hvalue : unblank (((fieldLine name value).dropWhile (· ≠ ':')).drop 1) = value := by
    rw [fieldLine, List.dropWhile_append_of_pos htrue]
    rfl
  rw [Reader.field]
  simp only [hname, hvalue]

/-- The end of a line that names a field. -/
theorem endLine_field (r : Reader) {c : Char} {rest : List Char} (h : r.line = c :: rest) (hc : c ≠ ':') :
    r.endLine = { r.field r.line with line := [] } := by
  unfold Reader.endLine
  split
  · rename_i heq
    rw [h] at heq
    cases heq
  · rename_i heq
    rw [h] at heq
    exact absurd (List.cons.inj heq).1 hc
  · rfl

theorem endLine_event {r : Reader} {name : List Char} (h : r.line = fieldLine eventName name) :
    r.endLine = { r with line := [], event := name } := by
  rw [endLine_field r (c := 'e') h (by decide), h, field_line r (by decide)]
  rfl

theorem endLine_data {r : Reader} {data : List Char} (h : r.line = fieldLine dataName data) :
    r.endLine = { r with line := [], data := r.data ++ data ++ ['\n'] } := by
  rw [endLine_field r (c := 'd') h (by decide), h, field_line r (by decide)]
  rfl

theorem fieldLine_line {name value : List Char} (hname : OneLine name) (hvalue : OneLine value) :
    OneLine (fieldLine name value) := hname.append ((hvalue.cons (by decide)).cons (by decide))

theorem read_lines (out : List (List Char × List Char)) (e : Event) :
    (between out).read e.lines = { event := e.name, data := e.data ++ ['\n'], out } := by
  have hevent : OneLine (fieldLine eventName e.name) := fieldLine_line (by decide) e.name_line
  have hdata : OneLine (fieldLine dataName e.data) := fieldLine_line (by decide) e.data_line
  have hfirst : (between out).read (fieldLine eventName e.name) = { between out with line := fieldLine eventName e.name } :=
    Reader.read_oneLine rfl hevent
  have hsecond : Reader.read { event := e.name, out } (fieldLine dataName e.data) =
      { event := e.name, out, line := fieldLine dataName e.data } := Reader.read_oneLine rfl hdata
  have hnamed : Reader.endLine { between out with line := fieldLine eventName e.name } = { event := e.name, out } :=
    endLine_event rfl
  have hgiven : Reader.endLine { event := e.name, out, line := fieldLine dataName e.data } =
      { event := e.name, data := e.data ++ ['\n'], out } := endLine_data rfl
  rw [Event.lines, Reader.read_append, hfirst, Reader.read_newline rfl, hnamed, Reader.read_append, hsecond,
    Reader.read_newline rfl, hgiven]
  rfl

/-- An event is handed on when its last letter is read. -/
theorem read_write (out : List (List Char × List Char)) (e : Event) :
    (between out).read e.write = between (out ++ [e.pair]) := by
  have hdata : e.data ++ ['\n'] ≠ [] := List.append_ne_nil_of_right_ne_nil _ (List.cons_ne_nil _ _)
  rw [Event.write, Reader.read_append, read_lines, Reader.read_newline rfl]
  simp only [Reader.endLine, if_neg hdata, if_neg e.named, List.dropLast_concat]
  rfl

theorem prefix_antisymm {α : Type} {a b : List α} (hab : a <+: b) (hba : b <+: a) : a = b :=
  hab.eq_of_length (Nat.le_antisymm hab.length_le hba.length_le)

/-- It is not handed on before. -/
theorem out_part (out : List (List Char × List Char)) (e : Event) {part : List Char} (h : part <+: e.write)
    (hne : part ≠ e.write) : ((between out).read part).out = out := by
  have hpart : part <+: e.lines := by
    rw [Event.write] at h hne
    exact (List.prefix_concat_iff.mp h).resolve_left hne
  obtain ⟨rest, hrest⟩ := hpart
  have hout := Reader.out_read ((between out).read part) rest
  rw [← Reader.read_append, hrest, read_lines] at hout
  exact (prefix_antisymm hout (Reader.out_read (between out) part))

/-! ## A stream of events -/

theorem read_writes (out : List (List Char × List Char)) (events : List Event) :
    (between out).read (events.flatMap Event.write) = between (out ++ events.map Event.pair) := by
  induction events generalizing out with
  | nil => rw [List.map_nil, List.append_nil]; rfl
  | cons e events ih =>
      rw [List.flatMap_cons, Reader.read_append, read_write, ih, List.append_assoc, List.map_cons]
      rfl

/-- What comes of a stream that is cut: whole events, and part of the next. -/
structure Cut (events : List Event) (text : List Char) where
  whole : List Event
  rest : List Event
  part : List Char
  events_eq : events = whole ++ rest
  text_eq : text = whole.flatMap Event.write ++ part
  /-- The next event has not come whole. -/
  next : ∀ e, rest.head? = some e → part <+: e.write ∧ part ≠ e.write
  last : rest = [] → part = []

theorem cut_exists {events : List Event} {text : List Char} (h : text <+: events.flatMap Event.write) :
    Nonempty (Cut events text) := by
  induction events generalizing text with
  | nil =>
      have htext : text = [] := List.prefix_nil.mp h
      exact ⟨{
        whole := [], rest := [], part := []
        events_eq := rfl
        text_eq := htext
        next := fun e he => by cases he
        last := fun _ => rfl }⟩
  | cons e events ih =>
      rw [List.flatMap_cons] at h
      rcases List.prefix_or_prefix_of_prefix h (List.prefix_append e.write _) with hpart | hwhole
      · by_cases hne : text = e.write
        · have hnil : ([] : List Char) <+: events.flatMap Event.write := List.nil_prefix
          obtain ⟨cut⟩ := ih hnil
          exact ⟨{
            whole := e :: cut.whole, rest := cut.rest, part := cut.part
            events_eq := congrArg (e :: ·) cut.events_eq
            text_eq := by rw [List.flatMap_cons, List.append_assoc, ← cut.text_eq, List.append_nil, hne]
            next := cut.next
            last := cut.last }⟩
        · exact ⟨{
            whole := [], rest := e :: events, part := text
            events_eq := rfl
            text_eq := rfl
            next := fun d hd => by
              cases hd
              exact ⟨hpart, hne⟩
            last := fun hnil => by cases hnil }⟩
      · obtain ⟨after, rfl⟩ := hwhole
        obtain ⟨cut⟩ := ih ((List.prefix_append_right_inj _).mp h)
        exact ⟨{
          whole := e :: cut.whole, rest := cut.rest, part := cut.part
          events_eq := congrArg (e :: ·) cut.events_eq
          text_eq := by rw [List.flatMap_cons, List.append_assoc, ← cut.text_eq]
          next := cut.next
          last := cut.last }⟩

/-- A reader has the events that have come whole, and nothing of the next. -/
theorem received_cut {events : List Event} {text : List Char} (cut : Cut events text) :
    received text = cut.whole.map Event.pair := by
  have hwhole : Reader.read {} (cut.whole.flatMap Event.write) = between (cut.whole.map Event.pair) :=
    read_writes [] cut.whole
  have hpart : ((between (cut.whole.map Event.pair)).read cut.part).out = cut.whole.map Event.pair := by
    cases hrest : cut.rest with
    | nil =>
        rw [cut.last hrest]
        rfl
    | cons e rest =>
        obtain ⟨hpart, hne⟩ := cut.next e (by rw [hrest]; rfl)
        exact out_part _ e hpart hne
  calc received text = (Reader.read {} (cut.whole.flatMap Event.write ++ cut.part)).out := by
        rw [← cut.text_eq]
        rfl
    _ = ((between (cut.whole.map Event.pair)).read cut.part).out := by rw [Reader.read_append, hwhole]
    _ = cut.whole.map Event.pair := hpart

theorem take_whole {events : List Event} {text : List Char} (cut : Cut events text) :
    events.take cut.whole.length = cut.whole := by
  have h := congrArg (List.take cut.whole.length) cut.events_eq
  rwa [List.take_left] at h

theorem whole_come {events : List Event} {text : List Char} (cut : Cut events text) :
    cut.whole.flatMap Event.write <+: text := ⟨cut.part, cut.text_eq.symm⟩

/-- The event after those has not come whole. -/
theorem next_coming {events : List Event} {text : List Char} (cut : Cut events text)
    (h : cut.whole.length < events.length) :
    ¬ (events.take (cut.whole.length + 1)).flatMap Event.write <+: text := by
  intro hcome
  cases hrest : cut.rest with
  | nil =>
      have hlen := congrArg List.length cut.events_eq
      rw [hrest, List.append_nil] at hlen
      exact absurd hlen (Nat.ne_of_gt h)
  | cons e rest =>
      obtain ⟨hpart, hne⟩ := cut.next e (by rw [hrest]; rfl)
      have htake : events.take (cut.whole.length + 1) = cut.whole ++ [e] := by
        have heq := congrArg (List.take (cut.whole.length + 1)) cut.events_eq
        rw [hrest, List.take_length_add_append] at heq
        exact heq
      have htext : cut.whole.flatMap Event.write ++ e.write <+: cut.whole.flatMap Event.write ++ cut.part := by
        rw [← cut.text_eq]
        rw [htake, List.flatMap_append, List.flatMap_singleton] at hcome
        exact hcome
      exact hne (prefix_antisymm hpart ((List.prefix_append_right_inj _).mp htext))

/-- Of a stream cut anywhere a reader has the events that have come whole. -/
theorem received_part {events : List Event} {text : List Char} (h : text <+: events.flatMap Event.write) :
    ∃ n, received text = (events.take n).map Event.pair ∧ (events.take n).flatMap Event.write <+: text ∧
      (n < events.length → ¬ (events.take (n + 1)).flatMap Event.write <+: text) := by
  obtain ⟨cut⟩ := cut_exists h
  refine ⟨cut.whole.length, ?_, ?_, next_coming cut⟩
  · rw [take_whole cut]
    exact received_cut cut
  · rw [take_whole cut]
    exact whole_come cut

/-- A stream that came whole. -/
theorem received_writes (events : List Event) :
    received (events.flatMap Event.write) = events.map Event.pair := by
  have h := read_writes [] events
  rw [received]
  exact congrArg Reader.out h

end EventStream

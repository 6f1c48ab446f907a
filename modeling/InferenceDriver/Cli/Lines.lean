/-
# `Cli.Lines` — a child's lines, as a stream

`lines` cuts a child's output at its newlines, and `stream_cli_lines`
should yield these, each as text, end when the child has exited with 0, and
raise a `CliError` otherwise.  What it yields is always that far right: the
lines yielded and the lines not yet read are the child's (`Ahead`).  How it
ends is not.  Three things come out of the call as they are: what `drain`
raises when the child closes its stdin early, the `ValueError` of
`readline` for a line over its limit, and the bare `TimeoutError` of the
wait for a child that has closed its output and does not exit.

`streams_lines` is what holds of the runs without the three, `escapes` that
each of them does it.
-/
import InferenceDriver.Cli.Subprocess

namespace InferenceDriver.Cli

/-! ## Lines -/

/-- The lines of an output, each with its newline; the last may have none. -/
def lines : List UInt8 → List (List UInt8)
  | [] => []
  | b :: bytes =>
      if b = 0x0A then [b] :: lines bytes
      else
        match lines bytes with
        | [] => [[b]]
        | line :: rest => (b :: line) :: rest

/-- The lines of an output, as the stream yields them. -/
def lineTexts (bytes : List UInt8) : List Text := (lines bytes).map lineText

/-- What `readline` takes off is the first line. -/
theorem lines_cons : ∀ (b : UInt8) (bytes : List UInt8),
    lines (b :: bytes) = ((cutLine (b :: bytes)).1 ++ (cutLine (b :: bytes)).2.take 1) ::
      lines ((cutLine (b :: bytes)).2.drop 1)
  | b, bytes => by
      rw [lines, cutLine]
      by_cases hb : b = 0x0A
      · rw [if_pos hb, List.takeWhile_cons_of_neg (by simpa using hb),
          List.dropWhile_cons_of_neg (by simpa using hb)]
        rfl
      · rw [if_neg hb, List.takeWhile_cons_of_pos (by simpa using hb),
          List.dropWhile_cons_of_pos (by simpa using hb)]
        cases bytes with
        | nil => rfl
        | cons b' bytes =>
            have ih := lines_cons b' bytes
            rw [cutLine] at ih
            rw [ih]
            rfl

theorem readline_line {unread line rest : List UInt8} (h : readline unread = .line line rest) :
    lines unread = line :: lines rest := by
  cases unread with
  | nil => cases h
  | cons b bytes =>
      rw [readline] at h
      split at h
      · cases h
      · cases h
        exact lines_cons b bytes

theorem readline_eof {unread : List UInt8} (h : readline unread = .eof) : unread = [] := by
  cases unread with
  | nil => rfl
  | cons b bytes =>
      rw [readline] at h
      split at h
      · cases h
      · cases h

namespace Stream

/-! ## What is claimed, and when -/

/-- What the child and the clock can do; the caller neither cancels the call
nor closes the generator. -/
def ByChild (s : State) : Move → Prop
  | .exits _ | .goesOn | .late => True
  | .raises error => (match s.pc with | .draining => True | _ => False) ∧
      (error = .brokenPipe ∨ error = .connectionReset)
  | .cancel | .close => False

/-- The prompt is drained; no line over the limit is read in time; and a
child that has closed its output exits in time. -/
def Orderly (s : State) : Move → Prop
  | .goesOn =>
      match s.pc with
      | .reading => (cutLine s.unread).1.length ≤ readerLimit
      | _ => True
  | .late =>
      match s.pc with
      | .exiting => False
      | _ => True
  | .raises _ => False
  | _ => True

/-- How the stream may end: with a child that has exited with 0 and has
nothing left to read, or by a `CliError`. -/
def Proper (s : State) : Exit Unit → Prop
  | .ended _ => s.status = .exited 0 ∧ s.unread = []
  | .cliError code _ => s.status = .exited code ∧ code ≠ 0
  | .backendTimeout => True
  | _ => False

/-- The lines yielded so far are the child's first ones; once the call has
been left, it was left as it should be, and a stream that ended has yielded
all of them. -/
def Streams (c : Child) (s : State) : Prop :=
  s.out <+: lineTexts c.stdout ∧
    ∀ exit, s.pc = .left exit → Proper s exit ∧ (exit = .ended () → s.out = lineTexts c.stdout)

/-! ## The lines -/

/-- What was yielded and what is still unread make up the output. -/
def Ahead (c : Child) (s : State) : Prop := s.out ++ lineTexts s.unread = lineTexts c.stdout

@[simp] theorem leave_unread (s : State) (exit : Exit Unit) : (leave s exit).unread = s.unread := by
  rw [leave]
  split
  · rfl
  · rfl

@[simp] theorem leave_out (s : State) (exit : Exit Unit) : (leave s exit).out = s.out := by
  rw [leave]
  split
  · rfl
  · rfl

/-- A step reads a line, or leaves both as they are. -/
theorem step_lines {c : Child} {s s' : State} {m : Move} (hs : step c s m = some s') :
    (s'.unread = s.unread ∧ s'.out = s.out) ∨
      ∃ line rest, readline s.unread = .line line rest ∧ s'.unread = rest ∧
        s'.out = s.out ++ [lineText line] := by
  have left : ∀ exit, (leave s exit).unread = s.unread ∧ (leave s exit).out = s.out :=
    fun exit => ⟨leave_unread s exit, leave_out s exit⟩
  obtain ⟨status, pc, unread, out⟩ := s
  cases m with
  | exits code =>
      obtain ⟨status', -, rfl⟩ := Option.map_eq_some_iff.mp hs
      exact Or.inl ⟨rfl, rfl⟩
  | goesOn =>
      cases pc with
      | reading =>
          cases hs
          rw [read]
          cases hr : readline unread with
          | eof => exact Or.inl ⟨rfl, rfl⟩
          | line line rest => exact Or.inr ⟨line, rest, rfl, rfl, rfl⟩
          | overrun => exact Or.inl (left _)
      | exiting =>
          cases status with
          | exited code =>
              cases hs
              rw [exited]
              split
              · exact Or.inl (left _)
              · exact Or.inl ⟨rfl, rfl⟩
          | running => cases hs
          | killed => cases hs
      | listening code => cases hs; exact Or.inl (left _)
      | left exit => cases hs
      | _ => cases hs; exact Or.inl ⟨rfl, rfl⟩
  | late =>
      cases pc with
      | reading => cases hs; exact Or.inl (left _)
      | exiting => cases hs; exact Or.inl (left _)
      | _ => cases hs
  | raises error =>
      cases pc with
      | reaping exit => cases hs; exact Or.inl ⟨rfl, rfl⟩
      | clearing exit => cases hs; exact Or.inl ⟨rfl, rfl⟩
      | left exit => cases hs
      | _ => cases hs; exact Or.inl (left _)
  | cancel =>
      cases pc with
      | yielded => cases hs
      | reaping exit => cases hs; exact Or.inl ⟨rfl, rfl⟩
      | clearing exit => cases hs; exact Or.inl ⟨rfl, rfl⟩
      | left exit => cases hs
      | _ => cases hs; exact Or.inl (left _)
  | close =>
      cases pc with
      | yielded => cases hs; exact Or.inl (left _)
      | _ => cases hs

theorem ahead_step {c : Child} {s s' : State} {m : Move} (h : Ahead c s) (hs : step c s m = some s') :
    Ahead c s' := by
  rw [Ahead] at h ⊢
  rcases step_lines hs with ⟨hu, ho⟩ | ⟨line, rest, hr, hu, ho⟩
  · rw [hu, ho, h]
  · rw [← h, hu, ho, lineTexts, lineTexts, readline_line hr, List.map_cons, List.append_assoc]
    rfl

/-! ## The end -/

/-- What is known of the end at each place the call can be. -/
def Ending (s : State) : Prop :=
  match s.pc with
  | .exiting => s.unread = []
  | .listening code => s.status = .exited code ∧ code ≠ 0
  | .reaping exit | .clearing exit | .left exit => Proper s exit
  | _ => True

/-- A call that goes into the `finally` as it should. -/
theorem ending_leave {s : State} {exit : Exit Unit} (h : Proper s exit) : Ending (leave s exit) := by
  obtain ⟨status, pc, unread, out⟩ := s
  cases status with
  | exited code => exact h
  | killed => exact h
  | running =>
      cases exit with
      | ended r => cases h.1
      | cliError code said => cases h.1
      | backendTimeout => exact trivial
      | raised error => exact h
      | cancelled => exact h
      | closed => exact h

theorem ending_read {s : State} (h : (cutLine s.unread).1.length ≤ readerLimit) : Ending (read s) := by
  rw [read]
  cases hr : readline s.unread with
  | eof => exact readline_eof hr
  | line line rest => exact trivial
  | overrun =>
      cases hu : s.unread with
      | nil =>
          rw [hu] at hr
          cases hr
      | cons b bytes =>
          rw [hu] at hr h
          rw [readline, if_neg (Nat.not_lt.mpr h)] at hr
          cases hr

/-- A child that exits: what was known of it while it ran is what is asked of no child. -/
theorem ending_exits {pc : Pc} {unread : List UInt8} {out : List Text} (code : Int)
    (h : Ending ⟨.running, pc, unread, out⟩) : Ending ⟨.exited code, pc, unread, out⟩ := by
  have proper : ∀ exit, Proper ⟨.running, pc, unread, out⟩ exit → Proper ⟨.exited code, pc, unread, out⟩ exit := by
    intro exit h
    cases exit with
    | ended r => cases h.1
    | cliError code said => cases h.1
    | _ => exact h
  cases pc with
  | exiting => exact h
  | listening code => cases h.1
  | reaping exit => exact proper exit h
  | clearing exit => exact proper exit h
  | left exit => exact proper exit h
  | _ => exact trivial

theorem ending_step {c : Child} {s s' : State} {m : Move} (h : Ending s) (hc : ByChild s m)
    (hm : Orderly s m) (hs : step c s m = some s') : Ending s' := by
  obtain ⟨status, pc, unread, out⟩ := s
  cases m with
  | exits code =>
      cases status with
      | running =>
          cases hs
          exact ending_exits code h
      | exited code => cases hs
      | killed => cases hs
  | goesOn =>
      cases pc with
      | draining => cases hs; exact trivial
      | reading => cases hs; exact ending_read hm
      | yielded => cases hs; exact trivial
      | exiting =>
          cases status with
          | exited code =>
              cases hs
              rw [exited]
              split
              · rename_i hcode
                subst hcode
                exact ending_leave ⟨rfl, h⟩
              · rename_i hcode
                exact ⟨rfl, hcode⟩
          | running => cases hs
          | killed => cases hs
      | listening code => cases hs; exact ending_leave h
      | reaping exit => cases hs; exact h
      | clearing exit => cases hs; exact h
      | left exit => cases hs
  | late =>
      cases pc with
      | reading => cases hs; exact ending_leave trivial
      | exiting => exact hm.elim
      | _ => cases hs
  | raises error => exact hm.elim
  | cancel => exact hc.elim
  | close => exact hc.elim

/-! ## The three ways out -/

/-- The call is on its way out with an exception that is no `CliError`. -/
def Escaping (s : State) : Prop :=
  ∃ error, s.pc = .reaping (.raised error) ∨ s.pc = .clearing (.raised error) ∨ s.pc = .left (.raised error)

theorem escaping_leave (s : State) (error : Other) : Escaping (leave s (.raised error)) := by
  obtain ⟨status, pc, unread, out⟩ := s
  cases status with
  | running => exact ⟨error, Or.inl rfl⟩
  | exited code => exact ⟨error, Or.inr (Or.inl rfl)⟩
  | killed => exact ⟨error, Or.inr (Or.inl rfl)⟩

/-- What comes out of the child's doing in one of the three ways escapes. -/
theorem escapes {c : Child} {s s' : State} {m : Move} (hc : ByChild s m) (hm : ¬Orderly s m)
    (hs : step c s m = some s') : Escaping s' := by
  obtain ⟨status, pc, unread, out⟩ := s
  cases m with
  | exits code => exact absurd trivial hm
  | goesOn =>
      cases pc with
      | reading =>
          cases hs
          rw [read]
          have hlong : readerLimit < (cutLine unread).1.length := Nat.lt_of_not_le hm
          cases unread with
          | nil => exact absurd hlong (Nat.not_lt_zero _)
          | cons b bytes =>
              rw [readline, if_pos hlong]
              exact escaping_leave _ _
      | _ => exact absurd trivial hm
  | late =>
      cases pc with
      | exiting => cases hs; exact escaping_leave _ _
      | _ => exact absurd trivial hm
  | raises error =>
      cases pc with
      | draining => cases hs; exact escaping_leave _ _
      | _ => exact hc.1.elim
  | cancel => exact hc.elim
  | close => exact hc.elim

/-- And goes on escaping, until the call has been left. -/
theorem escaping_step {c : Child} {s s' : State} {m : Move} (h : Escaping s) (hc : ByChild s m)
    (hs : step c s m = some s') : Escaping s' := by
  obtain ⟨status, pc, unread, out⟩ := s
  obtain ⟨error, rfl | rfl | rfl⟩ := h
  · cases m with
    | exits code =>
        obtain ⟨status', -, rfl⟩ := Option.map_eq_some_iff.mp hs
        exact ⟨error, Or.inl rfl⟩
    | goesOn => cases hs; exact ⟨error, Or.inr (Or.inl rfl)⟩
    | late => cases hs
    | raises e => exact hc.1.elim
    | cancel => exact hc.elim
    | close => exact hc.elim
  · cases m with
    | exits code =>
        obtain ⟨status', -, rfl⟩ := Option.map_eq_some_iff.mp hs
        exact ⟨error, Or.inr (Or.inl rfl)⟩
    | goesOn => cases hs; exact ⟨error, Or.inr (Or.inr rfl)⟩
    | late => cases hs
    | raises e => exact hc.1.elim
    | cancel => exact hc.elim
    | close => exact hc.elim
  · cases m with
    | exits code =>
        obtain ⟨status', -, rfl⟩ := Option.map_eq_some_iff.mp hs
        exact ⟨error, Or.inr (Or.inr rfl)⟩
    | goesOn => cases hs
    | late => cases hs
    | raises e => exact hc.1.elim
    | cancel => exact hc.elim
    | close => exact hc.elim

end Stream

/-- What the child and the clock do is orderly, or the call escapes. -/
theorem orderly_or_escaping {c : Child} {s : Stream.State}
    (h : Lts.Run (streamCliLines c) Stream.ByChild s) :
    Lts.Run (streamCliLines c) (fun s m => Stream.ByChild s m ∧ Stream.Orderly s m) s ∨ Stream.Escaping s := by
  induction h with
  | start hs => exact Or.inl (.start hs)
  | next _ hc hs ih =>
      rcases ih with ih | ih
      · rename_i s _ m _
        by_cases hm : Stream.Orderly s m
        · exact Or.inl (ih.next ⟨hc, hm⟩ hs)
        · exact Or.inr (Stream.escapes hc hm hs)
      · exact Or.inr (Stream.escaping_step ih hc hs)

/-- **A stream of a child's lines**, in every run in which the prompt is
drained, no line over the limit is read in time and a child that has closed
its output exits in time: it yields the child's lines in order, ends only
when the child has exited with 0 and all of them were yielded, and otherwise
raises a `CliError`. -/
theorem streams_lines {c : Child} {s : Stream.State}
    (h : Lts.Run (streamCliLines c) (fun s m => Stream.ByChild s m ∧ Stream.Orderly s m) s) :
    Stream.Streams c s := by
  have inv : Stream.Ahead c s ∧ Stream.Ending s := by
    refine h.invariant (I := fun s => Stream.Ahead c s ∧ Stream.Ending s) (fun s hs => ?_)
      fun s m s' hi hm hs => ⟨Stream.ahead_step hi.1 hs, Stream.ending_step hi.2 hm.1 hm.2 hs⟩
    obtain ⟨-, hpc, hu, ho⟩ := hs
    refine ⟨by rw [Stream.Ahead, hu, ho, List.nil_append], ?_⟩
    rcases hpc with hpc | hpc
    · rw [Stream.Ending, hpc]
      exact trivial
    · rw [Stream.Ending, hpc]
      exact trivial
  obtain ⟨ahead, ending⟩ := inv
  refine ⟨⟨_, ahead⟩, fun exit hexit => ?_⟩
  rw [Stream.Ending, hexit] at ending
  refine ⟨ending, ?_⟩
  rintro rfl
  rw [← ahead, ending.2]
  exact (List.append_nil _).symm

/-- A child that writes `hi`, closes its output and exits with 0. -/
theorem streams_lines_hi : ∃ s : Stream.State, s.pc = .left (.ended ()) ∧
    s.out = lineTexts [0x68, 0x69, 0x0A] := by
  let c : Child := ⟨[], [0x68, 0x69, 0x0A], []⟩
  have start : Lts.Run (streamCliLines c) (fun s m => Stream.ByChild s m ∧ Stream.Orderly s m)
      ⟨.running, .reading, c.stdout, []⟩ := .start ⟨rfl, Or.inr rfl, rfl, rfl⟩
  have line := start.next (show Stream.ByChild _ .goesOn ∧ (cutLine c.stdout).1.length ≤ readerLimit from
    ⟨trivial, by decide⟩) rfl
  have asked := line.next (show Stream.ByChild _ .goesOn ∧ True from ⟨trivial, trivial⟩) rfl
  have eof := asked.next (show Stream.ByChild _ .goesOn ∧ (cutLine []).1.length ≤ readerLimit from
    ⟨trivial, by decide⟩) rfl
  have exited := eof.next (show Stream.ByChild _ (.exits 0) ∧ True from ⟨trivial, trivial⟩) rfl
  have seen := exited.next (show Stream.ByChild _ .goesOn ∧ True from ⟨trivial, trivial⟩) rfl
  have left := seen.next (show Stream.ByChild _ .goesOn ∧ True from ⟨trivial, trivial⟩) rfl
  exact ⟨_, rfl, ((streams_lines left).2 _ rfl).2 rfl⟩

/-- A line as long as the output is found over the limit. -/
theorem readline_replicate {n : Nat} (h : readerLimit < n) : readline (List.replicate n 0x61) = .overrun := by
  have hcut : (cutLine (List.replicate n 0x61)).1 = List.replicate n 0x61 := by
    rw [cutLine, List.takeWhile_replicate]
    rfl
  cases n with
  | zero => exact absurd h (Nat.not_lt_zero _)
  | succ n =>
      rw [List.replicate_succ, readline, if_pos]
      rw [← List.replicate_succ, hcut, List.length_replicate]
      exact h

/-- A call that is killing its child goes on to leave. -/
theorem left_of_reaping {c : Child} {s : Stream.State} {exit : Exit Unit}
    (h : Lts.Run (streamCliLines c) Stream.ByChild s) (hpc : s.pc = .reaping exit) :
    ∃ s', Lts.Run (streamCliLines c) Stream.ByChild s' ∧ s'.pc = .left exit := by
  obtain ⟨status, pc, unread, out⟩ := s
  cases hpc
  have waited := h.next (show Stream.ByChild _ .goesOn from trivial) rfl
  exact ⟨_, waited.next (show Stream.ByChild _ .goesOn from trivial) rfl, rfl⟩

/-- An output that overruns at once takes the call down. -/
theorem left_of_overrun {bytes : List UInt8} (h : readline bytes = .overrun) :
    ∃ s, Lts.Run (streamCliLines ⟨[], bytes, []⟩) Stream.ByChild s ∧ s.pc = .left (.raised .overrun) := by
  have start : Lts.Run (streamCliLines ⟨[], bytes, []⟩) Stream.ByChild ⟨.running, .reading, bytes, []⟩ :=
    .start ⟨rfl, Or.inr rfl, rfl, rfl⟩
  have overrun : (streamCliLines ⟨[], bytes, []⟩).step ⟨.running, .reading, bytes, []⟩ .goesOn =
      some ⟨.killed, .reaping (.raised .overrun), bytes, []⟩ := by
    refine congrArg some ?_
    rw [Stream.read, h]
    rfl
  exact left_of_reaping (start.next (show Stream.ByChild _ .goesOn from trivial) overrun) rfl

/-- Three children, each a run of which leaves with another exception: one
that closes its stdin before the prompt is written, one that writes a line
over the limit, and one that closes its output and does not exit. -/
theorem escaped :
    (∃ (c : Child) (s : Stream.State), Lts.Run (streamCliLines c) Stream.ByChild s ∧
        s.pc = .left (.raised .brokenPipe)) ∧
      (∃ (c : Child) (s : Stream.State), Lts.Run (streamCliLines c) Stream.ByChild s ∧
        s.pc = .left (.raised .overrun)) ∧
      ∃ (c : Child) (s : Stream.State), Lts.Run (streamCliLines c) Stream.ByChild s ∧
        s.pc = .left (.raised .timeout) := by
  refine ⟨⟨⟨[], [], []⟩, ?_⟩, ⟨_, left_of_overrun (readline_replicate (Nat.lt_succ_self readerLimit))⟩,
    ⟨[], [], []⟩, ?_⟩
  · have start : Lts.Run (streamCliLines ⟨[], [], []⟩) Stream.ByChild ⟨.running, .draining, [], []⟩ :=
      .start ⟨rfl, Or.inl rfl, rfl, rfl⟩
    have raised := start.next (show Stream.ByChild _ (.raises .brokenPipe) from ⟨trivial, Or.inl rfl⟩) rfl
    exact left_of_reaping raised rfl
  · have start : Lts.Run (streamCliLines ⟨[], [], []⟩) Stream.ByChild ⟨.running, .reading, [], []⟩ :=
      .start ⟨rfl, Or.inr rfl, rfl, rfl⟩
    have eof := start.next (show Stream.ByChild _ .goesOn from trivial) rfl
    exact left_of_reaping (eof.next (show Stream.ByChild _ .late from trivial) rfl) rfl

end InferenceDriver.Cli

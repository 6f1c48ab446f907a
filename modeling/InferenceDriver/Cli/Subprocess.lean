/-
# `Cli.Subprocess` — a child process and the call that runs it

`run_cli` and `stream_cli_lines` start a child, talk to it and leave.  Each
is a state machine whose steps go from one `await` to the next; what an
`await` meets (the child, the deadline, a cancellation, an exception, a
consumer that closes the generator) is the label of the step, so a run is
any behaviour of the child with anything that can happen to the call.

What the two owe the caller is that the child does not outlive the call.
`stream_cli_lines` sees to it in a `finally`, through which everything goes
that leaves its body, so it holds of every run.  `run_cli` kills the child
when its deadline passes, and only then: a call that is cancelled while the
child talks leaves it running (`cancelled_running`).  `child_dead` is the
two together.
-/
import InferenceDriver.Lib.Lts
import InferenceDriver.Py.Utf8

namespace InferenceDriver.Cli

/-! ## The child -/

/-- What a child is and writes: its name, all its output and all its complaints. -/
structure Child where
  binary : Text
  stdout : List UInt8
  stderr : List UInt8

/-- What has become of it. -/
inductive Status where
  | running
  | exited (code : Int)
  | killed
deriving DecidableEq

/-- `proc.kill()`: nothing is left to kill of one that has exited. -/
def Status.kill : Status → Status
  | running => killed
  | status => status

theorem Status.kill_ne_running (s : Status) : s.kill ≠ .running := by
  cases s with
  | running => exact fun h => (by cases h)
  | exited code => exact fun h => (by cases h)
  | killed => exact fun h => (by cases h)

/-- An exception that is no `CliError`. -/
inductive Other where
  /-- `BrokenPipeError` or `ConnectionResetError`, of `drain`. -/
  | brokenPipe
  | connectionReset
  /-- `ValueError`, of `readline`. -/
  | overrun
  /-- `TimeoutError`, of the wait for the child's exit. -/
  | timeout
  /-- Anything else, or what a consumer throws in. -/
  | unforeseen
deriving DecidableEq

/-- How a call leaves. -/
inductive Exit (R : Type) where
  /-- A value is returned, or the generator ends. -/
  | ended (result : R)
  /-- `CliError`: the child's exit code and what it said. -/
  | cliError (code : Int) (said : Text)
  /-- `BackendTimeout`. -/
  | backendTimeout
  | raised (error : Other)
  | cancelled
  /-- `GeneratorExit`: the consumer closed the generator. -/
  | closed
deriving DecidableEq

/-- What happens next. -/
inductive Move where
  /-- The child exits. -/
  | exits (code : Int)
  /-- What is awaited is there, or the consumer asks for the next line. -/
  | goesOn
  /-- The deadline passes first. -/
  | late
  /-- What is awaited raises. -/
  | raises (error : Other)
  | cancel
  | close
deriving DecidableEq

/-- The child exits, if it has not. -/
def Status.exit? (code : Int) : Status → Option Status
  | running => some (exited code)
  | _ => none

/-! ## `run_cli` -/

/-- `CliResult`, less the time it took. -/
structure CliResult where
  stdout : List UInt8
  stderr : List UInt8
  returncode : Int
deriving DecidableEq

namespace RunCli

inductive Pc where
  /-- In `wait_for(proc.communicate(…))`. -/
  | communicating
  /-- In `proc.wait()`, the child killed. -/
  | reaping
  | left (exit : Exit CliResult)

structure State where
  status : Status
  pc : Pc

/-- `except TimeoutError`: the child is killed and waited for. -/
def kill (s : State) : State := { status := s.status.kill, pc := .reaping }

/-- `communicate` raises; whose a `TimeoutError` is, is not asked. -/
def communicateRaises (s : State) (error : Other) : State :=
  if error = .timeout then kill s else { s with pc := .left (.raised error) }

def step (c : Child) (s : State) : Move → Option State
  | .exits code => (s.status.exit? code).map fun status => { s with status }
  | .goesOn =>
      match s.pc with
      -- `communicate` has read both pipes to their end and waited for the child
      | .communicating =>
          match s.status with
          | .exited code => some { s with pc := .left (.ended ⟨c.stdout, c.stderr, code⟩) }
          | _ => none
      | .reaping => some { s with pc := .left .backendTimeout }
      | .left _ => none
  | .late =>
      match s.pc with
      | .communicating => some (kill s)
      | _ => none
  | .raises error =>
      match s.pc with
      | .communicating => some (communicateRaises s error)
      | .reaping => some { s with pc := .left (.raised error) }
      | .left _ => none
  | .cancel =>
      match s.pc with
      | .left _ => none
      | _ => some { s with pc := .left .cancelled }
  | .close => none

end RunCli

/-- A call of `run_cli`, from the moment the child is started. -/
def runCli (c : Child) : Lts.System RunCli.State Move where
  init s := s.status = .running ∧ s.pc = .communicating
  step := RunCli.step c

/-! ## `stream_cli_lines` -/

/-- The limit of `asyncio`'s reader, in bytes. -/
def readerLimit : Nat := 65536

/-- The bytes up to the first newline, and those from it on. -/
def cutLine (bytes : List UInt8) : List UInt8 × List UInt8 :=
  (bytes.takeWhile fun b => b ≠ 0x0A, bytes.dropWhile fun b => b ≠ 0x0A)

inductive Read where
  | eof
  /-- A line, its newline included, and what is left. -/
  | line (line rest : List UInt8)
  /-- More than the limit, and no newline in it. -/
  | overrun

/-- `readline()`, once a line or the end of the output is there. -/
def readline (unread : List UInt8) : Read :=
  match unread with
  | [] => .eof
  | _ :: _ =>
      if readerLimit < (cutLine unread).1.length then .overrun
      else .line ((cutLine unread).1 ++ (cutLine unread).2.take 1) ((cutLine unread).2.drop 1)

/-- `line.decode("utf-8", "replace").rstrip()`. -/
def lineText (line : List UInt8) : Text := rstrip (decodeUtf8 line)

namespace Stream

inductive Pc where
  /-- In `proc.stdin.drain()`. -/
  | draining
  /-- In `wait_for(proc.stdout.readline(), …)`. -/
  | reading
  /-- At the `yield`. -/
  | yielded
  /-- In `wait_for(proc.wait(), …)`. -/
  | exiting
  /-- Awaiting what the child said on its way out. -/
  | listening (code : Int)
  /-- In the `finally`, in `proc.wait()`, the child killed. -/
  | reaping (exit : Exit Unit)
  /-- In the `finally`, awaiting the reader of stderr it has cancelled. -/
  | clearing (exit : Exit Unit)
  | left (exit : Exit Unit)

structure State where
  status : Status
  pc : Pc
  unread : List UInt8
  /-- The lines yielded, the first one first. -/
  out : List Text

/-- Into the `finally`: a child that has not exited is killed. -/
def leave (s : State) (exit : Exit Unit) : State :=
  match s.status with
  | .running => { s with status := .killed, pc := .reaping exit }
  | _ => { s with pc := .clearing exit }

/-- The error of a child that failed; `stderr or '<no stderr>'`. -/
def failure (c : Child) (code : Int) : Exit Unit :=
  .cliError code
    (match strip (decodeUtf8 c.stderr) with
      | [] => "<no stderr>".toList
      | said => said)

/-- A read that is there in time. -/
def read (s : State) : State :=
  match readline s.unread with
  | .eof => { s with pc := .exiting }
  | .line line rest => { s with pc := .yielded, unread := rest, out := s.out ++ [lineText line] }
  | .overrun => leave s (.raised .overrun)

/-- The child is seen to have exited: `if proc.returncode`. -/
def exited (s : State) (code : Int) : State :=
  if code = 0 then leave s (.ended ()) else { s with pc := .listening code }

def step (c : Child) (s : State) : Move → Option State
  | .exits code => (s.status.exit? code).map fun status => { s with status }
  | .goesOn =>
      match s.pc with
      | .draining => some { s with pc := .reading }
      | .reading => some (read s)
      | .yielded => some { s with pc := .reading }
      | .exiting =>
          match s.status with
          | .exited code => some (exited s code)
          | _ => none
      | .listening code => some (leave s (failure c code))
      | .reaping exit => some { s with pc := .clearing exit }
      | .clearing exit => some { s with pc := .left exit }
      | .left _ => none
  | .late =>
      match s.pc with
      | .reading => some (leave s .backendTimeout)
      | .exiting => some (leave s (.raised .timeout))
      | _ => none
  | .raises error =>
      match s.pc with
      -- both are suppressed
      | .reaping exit => some { s with pc := .clearing exit }
      | .clearing exit => some { s with pc := .left exit }
      | .left _ => none
      | .reading => some (leave s (if error = .timeout then .backendTimeout else .raised error))
      | _ => some (leave s (.raised error))
  | .cancel =>
      match s.pc with
      | .yielded => none
      -- `suppress(Exception)` lets a cancellation through
      | .reaping _ => some { s with pc := .left .cancelled }
      | .clearing exit => some { s with pc := .left exit }
      | .left _ => none
      | _ => some (leave s .cancelled)
  | .close =>
      match s.pc with
      | .yielded => some (leave s .closed)
      | _ => none

end Stream

/-- A call of `stream_cli_lines`, from the moment the child is started, with
a prompt for its stdin or none. -/
def streamCliLines (c : Child) : Lts.System Stream.State Move where
  init s := s.status = .running ∧ (s.pc = .draining ∨ s.pc = .reading) ∧ s.unread = c.stdout ∧ s.out = []
  step := Stream.step c

/-- `str` of a `CliError`, given `repr`, how the seconds are written and
what the child has not done: "respond" for `run_cli`, "finish" for
`stream_cli_lines`. -/
def Exit.message {R : Type} (repr : Text → Text) (seconds binary verb : Text) : Exit R → Option Text
  | cliError code said => some (binary ++ " exited ".toList ++ (toString code).toList ++ ": ".toList ++ said)
  | backendTimeout => some ("CLI ".toList ++ repr binary ++ " did not ".toList ++ verb ++ " within ".toList ++
      seconds ++ "s; killed. Raise requestTimeoutSeconds on this driver if it needs longer.".toList)
  | _ => none

/-! ## The child does not outlive the call -/

namespace Stream

/-- Where the `finally` has begun, the child is dead. -/
def Reaped (s : State) : Prop :=
  match s.pc with
  | .reaping _ | .clearing _ | .left _ => s.status ≠ .running
  | _ => True

theorem reaped_leave (s : State) (exit : Exit Unit) : Reaped (leave s exit) := by
  obtain ⟨status, pc, unread, out⟩ := s
  cases status with
  | running => exact fun h => (by cases h)
  | exited code => exact fun h => (by cases h)
  | killed => exact fun h => (by cases h)

theorem reaped_read (s : State) : Reaped (read s) := by
  rw [read]
  cases readline s.unread with
  | eof => exact trivial
  | line line rest => exact trivial
  | overrun => exact reaped_leave s _

theorem reaped_exited (s : State) (code : Int) : Reaped (exited s code) := by
  rw [exited]
  split
  · exact reaped_leave s _
  · exact trivial

/-- A child that is dead stays so. -/
theorem reaped_exits {s : State} {code : Int} {status : Status} (h : Reaped s)
    (hs : s.status.exit? code = some status) : Reaped { s with status } := by
  obtain ⟨old, pc, unread, out⟩ := s
  have hstatus : status ≠ .running := by
    cases old with
    | running => cases hs; exact fun h => (by cases h)
    | exited code => cases hs
    | killed => cases hs
  cases pc with
  | reaping exit => exact hstatus
  | clearing exit => exact hstatus
  | left exit => exact hstatus
  | _ => exact trivial

theorem reaped_step {c : Child} {s s' : State} {m : Move} (h : Reaped s) (hs : step c s m = some s') :
    Reaped s' := by
  cases m with
  | exits code =>
      obtain ⟨status, hstatus, rfl⟩ := Option.map_eq_some_iff.mp hs
      exact reaped_exits h hstatus
  | goesOn =>
      obtain ⟨status, pc, unread, out⟩ := s
      cases pc with
      | draining => cases hs; exact trivial
      | reading => cases hs; exact reaped_read _
      | yielded => cases hs; exact trivial
      | exiting =>
          cases status with
          | exited code => cases hs; exact reaped_exited _ code
          | running => cases hs
          | killed => cases hs
      | listening code => cases hs; exact reaped_leave _ _
      | reaping exit => cases hs; exact h
      | clearing exit => cases hs; exact h
      | left exit => cases hs
  | late =>
      obtain ⟨status, pc, unread, out⟩ := s
      cases pc with
      | reading => cases hs; exact reaped_leave _ _
      | exiting => cases hs; exact reaped_leave _ _
      | _ => cases hs
  | raises error =>
      obtain ⟨status, pc, unread, out⟩ := s
      cases pc with
      | reaping exit => cases hs; exact h
      | clearing exit => cases hs; exact h
      | left exit => cases hs
      | _ => cases hs; exact reaped_leave _ _
  | cancel =>
      obtain ⟨status, pc, unread, out⟩ := s
      cases pc with
      | yielded => cases hs
      | reaping exit => cases hs; exact h
      | clearing exit => cases hs; exact h
      | left exit => cases hs
      | _ => cases hs; exact reaped_leave _ _
  | close =>
      obtain ⟨status, pc, unread, out⟩ := s
      cases pc with
      | yielded => cases hs; exact reaped_leave _ _
      | _ => cases hs

end Stream

namespace RunCli

/-- Where the child was waited for or killed, it is dead. -/
def Reaped (s : State) : Prop :=
  match s.pc with
  | .communicating => True
  | _ => s.status ≠ .running

/-- While the child talks, the call is not cancelled, and nothing but its
deadline comes out of `communicate`. -/
def LetTalk (s : State) : Move → Prop
  | .cancel => s.pc = .communicating → s.status ≠ .running
  | .raises error => s.pc = .communicating → s.status ≠ .running ∨ error = .timeout
  | _ => True

theorem reaped_step {c : Child} {s s' : State} {m : Move} (h : Reaped s) (hm : LetTalk s m)
    (hs : step c s m = some s') : Reaped s' := by
  obtain ⟨status, pc⟩ := s
  cases m with
  | exits code =>
      cases status with
      | running =>
          cases hs
          cases pc with
          | communicating => exact trivial
          | reaping => exact absurd rfl h
          | left exit => exact absurd rfl h
      | exited code => cases hs
      | killed => cases hs
  | goesOn =>
      cases pc with
      | communicating =>
          cases status with
          | exited code => cases hs; exact fun h => (by cases h)
          | running => cases hs
          | killed => cases hs
      | reaping => cases hs; exact h
      | left exit => cases hs
  | late =>
      cases pc with
      | communicating => cases hs; exact status.kill_ne_running
      | reaping => cases hs
      | left exit => cases hs
  | raises error =>
      cases pc with
      | communicating =>
          cases hs
          rw [communicateRaises]
          split
          · exact status.kill_ne_running
          · rename_i he
            exact (hm rfl).resolve_right he
      | reaping => cases hs; exact h
      | left exit => cases hs
  | cancel =>
      cases pc with
      | communicating => cases hs; exact hm rfl
      | reaping => cases hs; exact h
      | left exit => cases hs
  | close => cases hs

end RunCli

/-- **The child does not outlive the call**: when `stream_cli_lines` has been
left, in any run; and when `run_cli` has, in every run in which it was not
cancelled, and `communicate` raised nothing but a timeout, while the child
was running. -/
theorem child_dead (c : Child) :
    (∀ s exit, Lts.Reach (streamCliLines c) s → s.pc = .left exit → s.status ≠ .running) ∧
      ∀ s exit, Lts.Run (runCli c) RunCli.LetTalk s → s.pc = .left exit → s.status ≠ .running := by
  constructor
  · intro s exit hs hexit
    have reaped : Stream.Reaped s := by
      refine hs.invariant (I := Stream.Reaped) (fun s hs => ?_) fun s m s' hi hm => Stream.reaped_step hi hm
      obtain ⟨-, hpc | hpc, -⟩ := hs
      · rw [Stream.Reaped, hpc]
        exact trivial
      · rw [Stream.Reaped, hpc]
        exact trivial
    rw [Stream.Reaped, hexit] at reaped
    exact reaped
  · intro s exit hs hexit
    have reaped : RunCli.Reaped s := by
      refine hs.invariant (I := RunCli.Reaped) (fun s hs => ?_) fun s m s' hi hm => RunCli.reaped_step hi hm
      rw [RunCli.Reaped, hs.2]
      exact trivial
    rw [RunCli.Reaped, hexit] at reaped
    exact reaped

/-- A cancellation that comes while the child talks leaves it running. -/
theorem cancelled_running : ∃ (c : Child) (s : RunCli.State),
    Lts.Reach (runCli c) s ∧ s.pc = .left .cancelled ∧ s.status = .running := by
  have start : Lts.Reach (runCli ⟨[], [], []⟩) ⟨.running, .communicating⟩ := .start ⟨rfl, rfl⟩
  have left : (runCli ⟨[], [], []⟩).step ⟨.running, .communicating⟩ .cancel =
      some ⟨.running, .left .cancelled⟩ := rfl
  exact ⟨_, _, start.next left, rfl, rfl⟩

end InferenceDriver.Cli

/-
# `Cli.Left` — what a call comes to that nothing disturbs

When nothing but the child and the clock's patience has a say, the two calls
are functions of what the child writes and of the code it exits with:
`run_cli` returns all of it, and `stream_cli_lines` yields the lines up to
the first that is over the reader's limit, ends as the child did, and at
such a line raises.
-/
import InferenceDriver.Cli.Lines

namespace InferenceDriver.Cli

variable {c : Child} {code : Int}

/-- The child exits with this code, and nothing disturbs the call. -/
def Undisturbed (code : Int) : Move → Prop
  | .exits code' => code' = code
  | .goesOn => True
  | _ => False

/-- The child runs, or has exited with the code. -/
def Status.Up (code : Int) (status : Status) : Prop := status = .running ∨ status = .exited code

namespace RunCli

end RunCli

/-- The lines up to the first that is too long, and whether there is one. -/
def within : List (List UInt8) → List Text × Bool
  | [] => ([], false)
  | line :: rest =>
      if readerLimit < (cutLine line).1.length then ([], true)
      else (lineText line :: (within rest).1, (within rest).2)

/-- The lines of an output that are read of it. -/
def readable (bytes : List UInt8) : List Text × Bool := within (lines bytes)

/-- How the stream of a child's lines ends, once all are read. -/
def ending (c : Child) (code : Int) : Exit Unit := if code = 0 then .ended () else Stream.failure c code

/-- The lines that are yielded, and the end. -/
def streamed (c : Child) (code : Int) : List Text × Exit Unit :=
  ((readable c.stdout).1, if (readable c.stdout).2 then .raised .overrun else ending c code)

namespace Stream

/-- The end fits what is left to read. -/
def Fits (c : Child) (code : Int) (unread : List UInt8) (exit : Exit Unit) : Prop :=
  readable unread = ([], true) ∧ exit = .raised .overrun ∨ unread = [] ∧ exit = ending c code

/-- What is known at each place of the call. -/
def Place (c : Child) (code : Int) (s : State) : Prop :=
  match s.pc with
  | .draining | .reading | .yielded => s.status.Up code
  | .exiting => s.status.Up code ∧ s.unread = []
  | .listening code' => code' = code ∧ code ≠ 0 ∧ s.unread = []
  | .reaping exit | .clearing exit | .left exit => Fits c code s.unread exit

/-- What was yielded and what is readable is what was readable. -/
structure Told (c : Child) (code : Int) (s : State) : Prop where
  out : s.out ++ (readable s.unread).1 = (readable c.stdout).1
  overrun : (readable s.unread).2 = (readable c.stdout).2
  place : Place c code s

end Stream

end InferenceDriver.Cli

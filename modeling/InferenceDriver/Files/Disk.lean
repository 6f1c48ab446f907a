/-
# `Files.Disk` — a file system, and what a crash leaves of it

A directory says which file a name is; a file holds bytes.  What is written
to a file is sure to be on the disk once it is synced; of a file that is not,
a crash may leave anything.  The directory is never synced here: a crash may
leave any of the directories there have been, but a rename is in each of them
or not, never half (`Found`).

A system call fails where the machine says so, and where it must.
-/
import InferenceDriver.Lib.Crash
import InferenceDriver.Py.Text
import Mathlib.Logic.Function.Basic
import Mathlib.Data.List.Basic

namespace InferenceDriver.Files

open Crash

/-! ## The disk -/

structure Path where
  dir : Text
  name : Text
deriving DecidableEq

structure File where
  bytes : List UInt8
  mode : Nat
  /-- What it holds is on the disk. -/
  synced : Bool

abbrev Directory := Path → Option Nat

inductive Call where
  | «open» | fdopen | write | flush | fsync | close | replace | unlink
deriving DecidableEq

/-- A file system; no name is that of a file yet to be made. -/
structure Disk where
  names : Directory
  files : Nat → File
  next : Nat
  fresh : ∀ path n, names path = some n → n < next
  /-- The directories there have been. -/
  older : List Directory
  /-- The calls that have failed. -/
  failed : List Call

/-- What is read at a path. -/
def Disk.read (d : Disk) (path : Path) : Option (List UInt8) := (d.names path).map fun n => (d.files n).bytes

/-- What may be found after a crash: one of the directories, and in a synced
file what it held. -/
structure Found (d : Disk) (names : Directory) (content : Nat → List UInt8) : Prop where
  names : names = d.names ∨ names ∈ d.older
  synced : ∀ n, (d.files n).synced = true → content n = (d.files n).bytes

/-- A disk where everything is as it was left. -/
structure AtRest (d : Disk) : Prop where
  synced : ∀ path n, d.names path = some n → (d.files n).synced = true
  older : d.older = []
  failed : d.failed = []

/-! ## System calls -/

/-- How a call goes, and how many bytes get through. -/
inductive Answer where
  | goes (count : Nat)
  | fails (count : Nat)

/-- What a program here ends with. -/
inductive Raised where
  | valueError
  | unicodeEncodeError
  | osError (call : Call)

abbrev Prog := Crash.Prog Answer Disk Raised

namespace Disk

variable (d : Disk)

def fail (call : Call) : Disk := { d with failed := d.failed ++ [call] }

/-- Another directory, of the same files. -/
def withNames (names : Directory) (h : ∀ path n, names path = some n → n < d.next) : Disk :=
  { d with names, fresh := h, older := d.older ++ [d.names] }

/-- A new file of this name. -/
def create (path : Path) (mode : Nat) : Disk where
  names := Function.update d.names path (some d.next)
  files := Function.update d.files d.next ⟨[], mode, false⟩
  next := d.next + 1
  fresh path' n h := by
    rcases eq_or_ne path' path with rfl | hne
    · rw [Function.update_self] at h
      cases h
      exact Nat.lt_succ_self _
    · rw [Function.update_of_ne hne] at h
      exact Nat.lt_succ_of_lt (d.fresh path' n h)
  older := d.older ++ [d.names]
  failed := d.failed

/-- As many more of the bytes of a file as get through. -/
def put (n : Nat) (data : List UInt8) (count : Nat) : Disk :=
  let more := (data.drop (d.files n).bytes.length).take count
  if more = [] then d
  else
    { d with
      files := Function.update d.files n
        { d.files n with bytes := (d.files n).bytes ++ more, synced := false } }

def sync (n : Nat) : Disk :=
  { d with files := Function.update d.files n { d.files n with synced := true } }

/-- The name is gone. -/
def remove (path : Path) : Disk :=
  d.withNames (Function.update d.names path none) fun path' n h => by
    rcases eq_or_ne path' path with rfl | hne
    · rw [Function.update_self] at h
      cases h
    · rw [Function.update_of_ne hne] at h
      exact d.fresh path' n h

/-- The file has the other name, and whatever had that name has not. -/
def rename (source target : Path) : Disk :=
  d.withNames (Function.update (Function.update d.names source none) target (d.names source)) fun path n h => by
    rcases eq_or_ne path target with rfl | hne
    · rw [Function.update_self] at h
      exact d.fresh source n h
    · rw [Function.update_of_ne hne] at h
      rcases eq_or_ne path source with rfl | hne
      · rw [Function.update_self] at h
        cases h
      · rw [Function.update_of_ne hne] at h
        exact d.fresh path n h

end Disk

/-- A call that goes as it is answered. -/
def plain (call : Call) (goes fails : Nat → Disk → Disk) : Prog Unit :=
  .call fun answer d =>
    match answer with
    | .goes count => (.ok (), goes count d)
    | .fails count => (.error (.osError call), (fails count d).fail call)

/-- A call that does nothing when it fails. -/
def whole (call : Call) (possible : Disk → Bool) (goes : Disk → Disk) : Prog Unit :=
  .call fun answer d =>
    match answer with
    | .goes _ => if possible d then (.ok (), goes d) else (.error (.osError call), d.fail call)
    | .fails _ => (.error (.osError call), d.fail call)

/-- `os.open(path, os.O_WRONLY | os.O_CREAT | os.O_EXCL, mode)`: the file that is made. -/
def osOpen (path : Path) (mode : Nat) : Prog Nat :=
  .call fun answer d =>
    match answer with
    | .goes _ =>
        if (d.names path).isNone then (.ok d.next, d.create path mode)
        else (.error (.osError .open), d.fail .open)
    | .fails _ => (.error (.osError .open), d.fail .open)

/-- `os.fdopen(fd, "wb")`. -/
def osFdopen : Prog Unit := plain .fdopen (fun _ d => d) fun _ d => d

/-- `handle.write(data)`: some of it may stay in the buffer. -/
def write (n : Nat) (data : List UInt8) : Prog Unit :=
  plain .write (fun count d => d.put n data count) fun count d => d.put n data count

/-- `handle.flush()`, of what was written. -/
def flush (n : Nat) (data : List UInt8) : Prog Unit :=
  plain .flush (fun _ d => d.put n data data.length) fun count d => d.put n data count

/-- `os.fsync(handle.fileno())`. -/
def fsync (n : Nat) : Prog Unit := plain .fsync (fun _ d => d.sync n) fun _ d => d

/-- `handle.close()`, which flushes too. -/
def close (n : Nat) (data : List UInt8) : Prog Unit :=
  plain .close (fun _ d => d.put n data data.length) fun count d => d.put n data count

/-- `os.replace(source, target)`. -/
def osReplace (source target : Path) : Prog Unit :=
  whole .replace (fun d => (d.names source).isSome) fun d => d.rename source target

/-- `os.unlink(path)`. -/
def osUnlink (path : Path) : Prog Unit := whole .unlink (fun d => (d.names path).isSome) fun d => d.remove path

/-! ## What holds of a call -/

variable {pre crash : Disk → Prop} {post : Unit → Disk → Prop} {exc : Raised → Disk → Prop}

theorem holds_plain {call : Call} {goes fails : Nat → Disk → Disk} (hcrash : ∀ d, pre d → crash d)
    (hgoes : ∀ count d, pre d → post () (goes count d))
    (hfails : ∀ count d, pre d → exc (.osError call) ((fails count d).fail call)) :
    Holds pre (plain call goes fails) post exc crash := by
  refine .call hcrash ?_ ?_
  · intro answer d a d' hpre h
    cases answer with
    | goes count =>
        cases h
        exact hgoes count d hpre
    | fails count => cases h
  · intro answer d e d' hpre h
    cases answer with
    | goes count => cases h
    | fails count =>
        cases h
        exact hfails count d hpre

theorem holds_whole {call : Call} {possible : Disk → Bool} {goes : Disk → Disk} (hcrash : ∀ d, pre d → crash d)
    (hgoes : ∀ d, pre d → post () (goes d)) (hfails : ∀ d, pre d → exc (.osError call) (d.fail call)) :
    Holds pre (whole call possible goes) post exc crash := by
  refine .call hcrash ?_ ?_
  · intro answer d a d' hpre h
    cases answer with
    | goes count =>
        simp only at h
        split at h
        · cases h
          exact hgoes d hpre
        · cases h
    | fails count => cases h
  · intro answer d e d' hpre h
    cases answer with
    | goes count =>
        simp only at h
        split at h
        · cases h
        · cases h
          exact hfails d hpre
    | fails count =>
        cases h
        exact hfails d hpre

theorem holds_osOpen {path : Path} {mode : Nat} {made : Nat → Disk → Prop} (hcrash : ∀ d, pre d → crash d)
    (hgoes : ∀ d, pre d → d.names path = none → made d.next (d.create path mode))
    (hfails : ∀ d, pre d → exc (.osError .open) (d.fail .open)) : Holds pre (osOpen path mode) made exc crash := by
  refine .call hcrash ?_ ?_
  · intro answer d n d' hpre h
    cases answer with
    | goes count =>
        simp only at h
        split at h
        · rename_i hnone
          cases h
          exact hgoes d hpre (Option.isNone_iff_eq_none.mp hnone)
        · cases h
    | fails count => cases h
  · intro answer d e d' hpre h
    cases answer with
    | goes count =>
        simp only at h
        split at h
        · cases h
        · cases h
          exact hfails d hpre
    | fails count =>
        cases h
        exact hfails d hpre

end InferenceDriver.Files

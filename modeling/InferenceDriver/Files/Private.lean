/-
# `Files.Private` — a file replaced whole

`write_private_text`: the new text goes to a file of its own beside the
target, is synced, and then takes the target's name.  Wherever it stops, the
target holds what it held or the whole new text; where it raises, it holds
what it held, and the file beside it is gone (`write_whole`).

What holds between two system calls is named once: `Writing`, with more and
more of the text in the file, and `Replaced`.
-/
import InferenceDriver.Files.Disk
import InferenceDriver.Py.Utf8

namespace InferenceDriver.Files

open Crash

/-! ## The program -/

/-- What it asks of the interpreter. -/
structure Host where
  /-- `os.path.realpath`; none is an exception. -/
  realpath : Text → Option Path
  /-- `uuid.uuid4().hex`. -/
  hex : Text
  /-- `text.encode(encoding)`; none is a `UnicodeEncodeError`. -/
  encode : Text → Option (List UInt8)

/-- `PRIVATE_MODE`. -/
def privateMode : Nat := 0o600

/-- `target.with_name(…)`. -/
def temporaryOf (target : Path) (hex : Text) : Path :=
  ⟨target.dir, ".".toList ++ target.name ++ ".".toList ++ hex ++ ".tmp".toList⟩

/-- `contextlib.suppress(OSError)`. -/
def suppress (p : Prog Unit) : Prog Unit := p.rescue fun _ => pure ()

/-- `with os.fdopen(fd, "wb") as handle`: the handle is closed in any case. -/
def withHandle (n : Nat) (data : List UInt8) (body : Prog Unit) : Prog Unit := do
  osFdopen
  body.rescue fun e => do
    close n data
    .raise e
  close n data

/-- What is tried, once the file is open. -/
def fill (n : Nat) (data : List UInt8) (temporary target : Path) : Prog Unit := do
  withHandle n data do
    write n data
    flush n data
    fsync n
  osReplace temporary target

/-- `write_private_text`. -/
def writePrivateText (H : Host) (path text : Text) : Prog Unit :=
  match H.realpath path with
  | none => .raise .valueError
  | some target =>
      if target.name = [] then .raise .valueError
      else
        match H.encode text with
        | none => .raise .unicodeEncodeError
        | some data => do
            let temporary := temporaryOf target H.hex
            let fd ← osOpen temporary privateMode
            (fill fd data temporary target).rescue fun e => do
              suppress (osUnlink temporary)
              .raise e

theorem temporaryOf_ne (target : Path) (hex : Text) : temporaryOf target hex ≠ target := by
  intro h
  have hlength := congrArg (fun path => path.name.length) h
  simp only [temporaryOf, List.length_append] at hlength
  have hdot : ".".toList.length = 1 := rfl
  omega

/-! ## Between the calls -/

section

variable (d₀ : Disk) (target temporary : Path) (data : List UInt8)

/-- In every directory there has been, the target is the file it was; and no
file of before is touched. -/
structure Keeps (d : Disk) : Prop where
  names : ∀ names, names = d.names ∨ names ∈ d.older → names target = d₀.names target
  files : ∀ n, n ≠ d₀.next → d.files n = d₀.files n

/-- The new file is there, with some of the text, and nothing else is new. -/
structure Writing (d : Disk) : Prop where
  absent : d₀.names temporary = none
  names : d.names = Function.update d₀.names temporary (some d₀.next)
  older : ∀ names ∈ d.older, names = d₀.names
  files : ∀ n, n ≠ d₀.next → d.files n = d₀.files n
  mode : (d.files d₀.next).mode = privateMode
  content : (d.files d₀.next).bytes <+: data
  failed : .unlink ∉ d.failed

/-- All of the text is in it. -/
structure Written (d : Disk) : Prop extends Writing d₀ temporary data d where
  whole : (d.files d₀.next).bytes = data

/-- And on the disk. -/
structure Synced (d : Disk) : Prop extends Written d₀ temporary data d where
  synced : (d.files d₀.next).synced = true

/-- The target is the new file. -/
structure Replaced (d : Disk) : Prop where
  names : d.names = Function.update d₀.names target (some d₀.next)
  older : ∀ names ∈ d.older, names target = d₀.names target
  files : ∀ n, n ≠ d₀.next → d.files n = d₀.files n
  mode : (d.files d₀.next).mode = privateMode
  whole : (d.files d₀.next).bytes = data
  synced : (d.files d₀.next).synced = true

/-- Nothing is new, unless the new file could not be removed. -/
structure Undone (d : Disk) : Prop extends Keeps d₀ target d where
  removed : d.names = d₀.names ∨ Call.unlink ∈ d.failed

/-- Whatever is found after a crash, the target holds what it held or the
whole text. -/
def Safe (d : Disk) : Prop :=
  ∀ names content, Found d names content →
    (names target).map content = d₀.read target ∨ (names target).map content = some data

variable {d₀ target temporary data} {d : Disk}

/-! ## What they mean -/

/-- What was at the target is still found there, in any of these directories. -/
theorem Keeps.found (h : Keeps d₀ target d) (hrest : AtRest d₀) {names : Directory} {content : Nat → List UInt8}
    (hfound : Found d names content) : (names target).map content = d₀.read target := by
  rw [h.names names hfound.names, Disk.read]
  cases htarget : d₀.names target with
  | none => rfl
  | some n =>
      have hsame : d.files n = d₀.files n := h.files n (Nat.ne_of_lt (d₀.fresh target n htarget))
      have hsynced : (d.files n).synced = true := by
        rw [hsame]
        exact hrest.synced target n htarget
      exact congrArg some ((hfound.synced n hsynced).trans (congrArg File.bytes hsame))

theorem Keeps.read (h : Keeps d₀ target d) : d.read target = d₀.read target := by
  rw [Disk.read, Disk.read, h.names d.names (.inl rfl)]
  cases htarget : d₀.names target with
  | none => rfl
  | some n =>
      exact congrArg (fun file => some (File.bytes file)) (h.files n (Nat.ne_of_lt (d₀.fresh target n htarget)))

theorem Keeps.safe (h : Keeps d₀ target d) (hrest : AtRest d₀) : Safe d₀ target data d :=
  fun _ _ hfound => .inl (h.found hrest hfound)

theorem Writing.keeps (h : Writing d₀ temporary data d) (hne : temporary ≠ target) : Keeps d₀ target d := by
  refine ⟨?_, h.files⟩
  rintro names (rfl | hnames)
  · rw [h.names, Function.update_of_ne hne.symm]
  · rw [h.older names hnames]

theorem Replaced.safe (h : Replaced d₀ target data d) (hrest : AtRest d₀) : Safe d₀ target data d := by
  intro names content hfound
  rcases hfound.names with rfl | hnames
  · right
    rw [h.names, Function.update_self]
    exact congrArg some ((hfound.synced _ h.synced).trans h.whole)
  · -- an older directory: the target is the file it was
    left
    rw [h.older names hnames, Disk.read]
    cases htarget : d₀.names target with
    | none => rfl
    | some n =>
        have hsame : d.files n = d₀.files n := h.files n (Nat.ne_of_lt (d₀.fresh target n htarget))
        have hsynced : (d.files n).synced = true := by
          rw [hsame]
          exact hrest.synced target n htarget
        exact congrArg some ((hfound.synced n hsynced).trans (congrArg File.bytes hsame))

theorem Replaced.read (h : Replaced d₀ target data d) : d.read target = some data := by
  rw [Disk.read, h.names, Function.update_self]
  exact congrArg some h.whole

/-! ## What a call changes -/

theorem Keeps.fail (h : Keeps d₀ target d) (call : Call) : Keeps d₀ target (d.fail call) := ⟨h.names, h.files⟩

theorem Writing.fail (h : Writing d₀ temporary data d) {call : Call} (hcall : call ≠ .unlink) :
    Writing d₀ temporary data (d.fail call) where
  absent := h.absent
  names := h.names
  older := h.older
  files := h.files
  mode := h.mode
  content := h.content
  failed := by
    intro hmem
    rcases List.mem_append.mp hmem with hmem | hmem
    · exact h.failed hmem
    · exact hcall (List.mem_singleton.mp hmem).symm

/-- More of the text goes into the file. -/
theorem Writing.put (h : Writing d₀ temporary data d) (count : Nat) :
    Writing d₀ temporary data (d.put d₀.next data count) ∧
      (data.length ≤ count → ((d.put d₀.next data count).files d₀.next).bytes = data) := by
  obtain ⟨rest, hrest⟩ := h.content
  have hdrop : data.drop (d.files d₀.next).bytes.length = rest := by
    rw [← hrest, List.drop_left]
  rw [Disk.put, hdrop]
  split
  · rename_i hnone
    refine ⟨h, fun hcount => ?_⟩
    have hnil : rest = [] := by
      rw [List.take_of_length_le] at hnone
      · exact hnone
      · have hlength := congrArg List.length hrest
        rw [List.length_append] at hlength
        omega
    rw [← hrest, hnil, List.append_nil]
  · refine ⟨⟨h.absent, h.names, h.older, fun n hn => ?_, ?_, ?_, h.failed⟩, fun hcount => ?_⟩
    · exact (Function.update_of_ne hn _ _).trans (h.files n hn)
    · show (Function.update d.files d₀.next _ d₀.next).mode = privateMode
      rw [Function.update_self]
      exact h.mode
    · show (Function.update d.files d₀.next _ d₀.next).bytes <+: data
      rw [Function.update_self]
      refine ⟨rest.drop count, ?_⟩
      rw [List.append_assoc, List.take_append_drop, hrest]
    · show (Function.update d.files d₀.next _ d₀.next).bytes = data
      rw [Function.update_self, List.take_of_length_le, hrest]
      have hlength := congrArg List.length hrest
      rw [List.length_append] at hlength
      omega

/-- Nothing more goes into a file that has the whole text. -/
theorem Written.put (h : Written d₀ temporary data d) (count : Nat) : d.put d₀.next data count = d := by
  rw [Disk.put, h.whole, List.drop_length, List.take_nil]
  exact if_pos rfl

theorem Written.sync (h : Written d₀ temporary data d) : Synced d₀ temporary data (d.sync d₀.next) where
  absent := h.absent
  names := h.names
  older := h.older
  files n hn := (Function.update_of_ne hn _ _).trans (h.files n hn)
  mode := by
    show (Function.update d.files d₀.next _ d₀.next).mode = privateMode
    rw [Function.update_self]
    exact h.mode
  content := by
    show (Function.update d.files d₀.next _ d₀.next).bytes <+: data
    rw [Function.update_self]
    exact h.content
  failed := h.failed
  whole := by
    show (Function.update d.files d₀.next _ d₀.next).bytes = data
    rw [Function.update_self]
    exact h.whole
  synced := by
    show (Function.update d.files d₀.next _ d₀.next).synced = true
    rw [Function.update_self]

/-- The temporary name, given and taken away again. -/
theorem Writing.removed (h : Writing d₀ temporary data d) : Function.update d.names temporary none = d₀.names := by
  rw [h.names, Function.update_idem, ← h.absent, Function.update_eq_self]

theorem Synced.rename (h : Synced d₀ temporary data d) (hne : temporary ≠ target) :
    Replaced d₀ target data (d.rename temporary target) where
  names := by
    show Function.update (Function.update d.names temporary none) target (d.names temporary) = _
    rw [h.removed, h.names, Function.update_self]
  older names hnames := by
    rcases List.mem_append.mp hnames with hnames | hnames
    · rw [h.older names hnames]
    · rw [List.mem_singleton.mp hnames, h.names, Function.update_of_ne hne.symm]
  files := h.files
  mode := h.mode
  whole := h.whole
  synced := h.synced

theorem Writing.remove (h : Writing d₀ temporary data d) (hne : temporary ≠ target) :
    Undone d₀ target (d.remove temporary) where
  names names hnames := by
    rcases hnames with rfl | hnames
    · show Function.update d.names temporary none target = _
      rw [h.removed]
    · rcases List.mem_append.mp hnames with hnames | hnames
      · rw [h.older names hnames]
      · rw [List.mem_singleton.mp hnames, h.names, Function.update_of_ne hne.symm]
  files := h.files
  removed := .inl h.removed

theorem Writing.unremoved (h : Writing d₀ temporary data d) (hne : temporary ≠ target) :
    Undone d₀ target (d.fail .unlink) where
  toKeeps := (h.keeps hne).fail .unlink
  removed := .inr (List.mem_append_right _ (List.mem_singleton.mpr rfl))

theorem writing_create (hrest : AtRest d₀) (habsent : d₀.names temporary = none) :
    Writing d₀ temporary data (d₀.create temporary privateMode) where
  absent := habsent
  names := rfl
  older names hnames := by
    rcases List.mem_append.mp hnames with hnames | hnames
    · rw [hrest.older] at hnames
      cases hnames
    · exact List.mem_singleton.mp hnames
  files n hn := Function.update_of_ne hn _ _
  mode := by
    show (Function.update d₀.files d₀.next _ d₀.next).mode = privateMode
    rw [Function.update_self]
  content := by
    show (Function.update d₀.files d₀.next _ d₀.next).bytes <+: data
    rw [Function.update_self]
    exact List.nil_prefix
  failed := by
    show Call.unlink ∉ d₀.failed
    rw [hrest.failed]
    exact List.not_mem_nil

/-! ## The program, step by step -/

theorem holds_body (hrest : AtRest d₀) (hne : temporary ≠ target) : Holds (Writing d₀ temporary data)
    (do write d₀.next data; flush d₀.next data; fsync d₀.next) (fun _ => Synced d₀ temporary data)
    (fun _ => Writing d₀ temporary data) (Safe d₀ target data) := by
  have hsafe : ∀ d, Writing d₀ temporary data d → Safe d₀ target data d := fun d h => (h.keeps hne).safe hrest
  have hwrite : Holds (Writing d₀ temporary data) (write d₀.next data) (fun _ => Writing d₀ temporary data)
      (fun _ => Writing d₀ temporary data) (Safe d₀ target data) :=
    holds_plain hsafe (fun count d h => (h.put count).1) fun count d h => (h.put count).1.fail (by decide)
  have hflush : Holds (Writing d₀ temporary data) (flush d₀.next data) (fun _ => Written d₀ temporary data)
      (fun _ => Writing d₀ temporary data) (Safe d₀ target data) :=
    holds_plain hsafe (fun _ d h => ⟨(h.put _).1, (h.put _).2 le_rfl⟩) fun count d h =>
      (h.put count).1.fail (by decide)
  have hfsync : Holds (Written d₀ temporary data) (fsync d₀.next) (fun _ => Synced d₀ temporary data)
      (fun _ => Writing d₀ temporary data) (Safe d₀ target data) :=
    holds_plain (fun d h => hsafe d h.toWriting) (fun _ d h => h.sync) fun _ d h => h.toWriting.fail (by decide)
  exact hwrite.bind fun _ => hflush.bind fun _ => hfsync

theorem holds_withHandle (hrest : AtRest d₀) (hne : temporary ≠ target) : Holds (Writing d₀ temporary data)
    (withHandle d₀.next data do write d₀.next data; flush d₀.next data; fsync d₀.next)
    (fun _ => Synced d₀ temporary data) (fun _ => Writing d₀ temporary data) (Safe d₀ target data) := by
  have hsafe : ∀ d, Writing d₀ temporary data d → Safe d₀ target data d := fun d h => (h.keeps hne).safe hrest
  have hfdopen : Holds (Writing d₀ temporary data) osFdopen (fun _ => Writing d₀ temporary data)
      (fun _ => Writing d₀ temporary data) (Safe d₀ target data) :=
    holds_plain hsafe (fun _ d h => h) fun _ d h => h.fail (by decide)
  -- the handle closed after an exception, and after none
  have hbroken : Holds (Writing d₀ temporary data) (close d₀.next data) (fun _ => Writing d₀ temporary data)
      (fun _ => Writing d₀ temporary data) (Safe d₀ target data) :=
    holds_plain hsafe (fun _ d h => (h.put _).1) fun count d h => (h.put count).1.fail (by decide)
  have hclose : Holds (Synced d₀ temporary data) (close d₀.next data) (fun _ => Synced d₀ temporary data)
      (fun _ => Writing d₀ temporary data) (Safe d₀ target data) :=
    holds_plain (fun d h => hsafe d h.toWriting) (fun _ d h => (h.toWritten.put _).symm ▸ h) fun _ d h =>
      (h.toWritten.put _).symm ▸ h.toWriting.fail (by decide)
  exact hfdopen.bind fun _ =>
    ((holds_body hrest hne).rescue fun e => hbroken.bind fun _ => .raise fun d h => h).bind fun _ => hclose

theorem holds_fill (hrest : AtRest d₀) (hne : temporary ≠ target) :
    Holds (Writing d₀ temporary data) (fill d₀.next data temporary target)
      (fun _ => Replaced d₀ target data) (fun _ => Writing d₀ temporary data) (Safe d₀ target data) := by
  have hreplace : Holds (Synced d₀ temporary data) (osReplace temporary target) (fun _ => Replaced d₀ target data)
      (fun _ => Writing d₀ temporary data) (Safe d₀ target data) :=
    holds_whole (fun d h => (h.toWriting.keeps hne).safe hrest) (fun d h => h.rename hne) fun d h =>
      h.toWriting.fail (by decide)
  exact (holds_withHandle hrest hne).bind fun _ => hreplace

/-- What is done about an exception. -/
theorem holds_cleanUp (hrest : AtRest d₀) (hne : temporary ≠ target) (e : Raised) :
    Holds (Writing d₀ temporary data) (do suppress (osUnlink temporary); .raise e : Prog Unit) (fun _ => Replaced d₀ target data) (fun _ => Undone d₀ target)
    (Safe d₀ target data) := by
  have hunlink : Holds (Writing d₀ temporary data) (osUnlink temporary) (fun _ => Undone d₀ target)
      (fun _ => Undone d₀ target) (Safe d₀ target data) :=
    holds_whole (fun d h => (h.keeps hne).safe hrest) (fun d h => h.remove hne) fun d h => h.unremoved hne
  have hsuppress : Holds (Writing d₀ temporary data) (suppress (osUnlink temporary)) (fun _ => Undone d₀ target)
      (fun _ => Undone d₀ target) (Safe d₀ target data) := hunlink.rescue fun _ => .ret fun d h => h
  exact hsuppress.bind fun _ => .raise fun d h => h

end

/-- A disk at rest is as it was. -/
theorem undone_of_rest {d : Disk} (hrest : AtRest d) (target : Path) : Undone d target d where
  names names hnames := by
    rcases hnames with rfl | hnames
    · rfl
    · rw [hrest.older] at hnames
      cases hnames
  files _ _ := rfl
  removed := .inl rfl

/-- The whole of it, where there is a target and the text can be written. -/
theorem holds_writePrivateText {H : Host} {path text : Text} {target : Path} {data : List UInt8} {d₀ : Disk}
    (hrest : AtRest d₀) (htarget : H.realpath path = some target) (hname : target.name ≠ [])
    (hdata : H.encode text = some data) : Holds (fun d => d = d₀) (writePrivateText H path text)
      (fun _ => Replaced d₀ target data) (fun _ => Undone d₀ target) (Safe d₀ target data) := by
  have hne : temporaryOf target H.hex ≠ target := temporaryOf_ne target H.hex
  have hundone : Undone d₀ target d₀ := undone_of_rest hrest target
  rw [writePrivateText, htarget]
  simp only [hname, hdata, if_false]
  have hopen : Holds (fun d => d = d₀) (osOpen (temporaryOf target H.hex) privateMode)
      (fun fd d => fd = d₀.next ∧ Writing d₀ (temporaryOf target H.hex) data d) (fun _ => Undone d₀ target)
      (Safe d₀ target data) := by
    refine holds_osOpen ?_ ?_ ?_
    · rintro d rfl
      exact hundone.toKeeps.safe hrest
    · rintro d rfl habsent
      exact ⟨rfl, writing_create hrest habsent⟩
    · rintro d rfl
      exact ⟨hundone.toKeeps.fail _, .inl rfl⟩
  refine hopen.bind fun fd => ?_
  intro answers d h
  obtain ⟨rfl, h⟩ := h
  exact ((holds_fill hrest hne).rescue (holds_cleanUp hrest hne)) answers d h

/-- Otherwise it raises before it has done anything. -/
theorem writePrivateText_refuses {H : Host} {path text : Text}
    (h : ¬ ∃ target data, H.realpath path = some target ∧ target.name ≠ [] ∧ H.encode text = some data) :
    ∃ e, writePrivateText H path text = .raise e := by
  rw [writePrivateText]
  cases htarget : H.realpath path with
  | none => exact ⟨_, rfl⟩
  | some target =>
      rcases Classical.em (target.name = []) with hname | hname
      · exact ⟨_, if_pos hname⟩
      · cases hdata : H.encode text with
        | none => exact ⟨_, if_neg hname⟩
        | some data => exact (h ⟨target, data, htarget, hname, hdata⟩).elim

/-- **A file is replaced whole, or not at all.**  Wherever it stops, and
whatever a crash then leaves, the target holds what it held or the whole new
text; when it returns, the new text; when it raises, what it held, and no
name is new unless removing the temporary file failed too. -/
theorem write_whole {H : Host} {path text : Text} {answers rest : List Answer} {d₀ d : Disk} {ended : End Raised Unit}
    (hrest : AtRest d₀) (hrun : writePrivateText H path text answers d₀ = (ended, rest, d)) :
    (∀ target, H.realpath path = some target → ∀ names content, Found d names content →
      (names target).map content = d₀.read target ∨
        ∃ data, H.encode text = some data ∧ (names target).map content = some data) ∧
    (ended = .returned () → ∃ target data, H.realpath path = some target ∧ H.encode text = some data ∧
      d.read target = some data) ∧
    ∀ e, ended = .raised e →
      (∀ target, H.realpath path = some target → d.read target = d₀.read target ∧
        ∀ names content, Found d names content → (names target).map content = d₀.read target) ∧
      (d.names = d₀.names ∨ Call.unlink ∈ d.failed) := by
  rcases Classical.em (∃ target data, H.realpath path = some target ∧ target.name ≠ [] ∧ H.encode text = some data)
    with ⟨target, data, htarget, hname, hdata⟩ | hno
  · have hmeets := holds_writePrivateText hrest htarget hname hdata answers d₀ rfl
    rw [hrun] at hmeets
    have hall : ∀ {p : Path → Prop}, p target → ∀ target', H.realpath path = some target' → p target' := by
      intro p hp target' htarget'
      cases htarget.symm.trans htarget'
      exact hp
    have hsafe : Safe d₀ target data d → ∀ names content, Found d names content →
        (names target).map content = d₀.read target ∨
          ∃ data, H.encode text = some data ∧ (names target).map content = some data :=
      fun h names content hfound => (h names content hfound).imp_right fun h => ⟨data, hdata, h⟩
    cases ended with
    | returned u =>
        exact ⟨hall (hsafe (Replaced.safe hmeets hrest)), fun _ => ⟨target, data, htarget, hdata, Replaced.read hmeets⟩,
          fun e he => (by cases he)⟩
    | raised e =>
        have hkeeps : Keeps d₀ target d := Undone.toKeeps hmeets
        exact ⟨hall (hsafe (hkeeps.safe hrest)), fun h => (by cases h), fun _ _ =>
          ⟨hall ⟨hkeeps.read, fun names content hfound => hkeeps.found hrest hfound⟩, Undone.removed hmeets⟩⟩
    | stopped => exact ⟨hall (hsafe hmeets), fun h => (by cases h), fun e he => (by cases he)⟩
  · obtain ⟨e, hraise⟩ := writePrivateText_refuses hno
    rw [hraise] at hrun
    cases hrun
    have hkeeps : ∀ target, Keeps d₀ target d₀ := fun target => (undone_of_rest hrest target).toKeeps
    exact ⟨fun target _ names content hfound => .inl ((hkeeps target).found hrest hfound), fun h => (by cases h),
      fun _ _ => ⟨fun target _ => ⟨rfl, fun names content hfound => (hkeeps target).found hrest hfound⟩, .inl rfl⟩⟩

/-- An empty disk, and a host whose paths are names in one directory. -/
def Disk.empty : Disk where
  names _ := none
  files _ := ⟨[], 0, true⟩
  next := 0
  fresh _ _ h := by cases h
  older := []
  failed := []

def Host.basic : Host where
  realpath path := some ⟨"/etc".toList, path⟩
  hex := "0".toList
  encode text := some (encodeUtf8 text)

/-- The write fails after one byte: the file is removed, and there is no target. -/
theorem write_whole_fails : ∃ d, (∃ rest, writePrivateText .basic "a".toList "hi".toList
      [.goes 0, .goes 0, .fails 1, .goes 0, .goes 0, .goes 0] Disk.empty = (.raised (.osError .write), rest, d)) ∧
    d.read ⟨"/etc".toList, "a".toList⟩ = none ∧ (d.names = Disk.empty.names ∨ Call.unlink ∈ d.failed) := by
  have hrest : AtRest Disk.empty := ⟨fun _ _ h => (by cases h), rfl, rfl⟩
  obtain ⟨rest, d, hrun⟩ : ∃ rest d, writePrivateText .basic "a".toList "hi".toList
      [.goes 0, .goes 0, .fails 1, .goes 0, .goes 0, .goes 0] Disk.empty = (.raised (.osError .write), rest, d) :=
    ⟨_, _, rfl⟩
  obtain ⟨-, -, hraised⟩ := write_whole hrest hrun
  obtain ⟨htarget, hnames⟩ := hraised _ rfl
  exact ⟨d, ⟨rest, hrun⟩, (htarget _ rfl).1, hnames⟩

end InferenceDriver.Files

/-
# `Http.Cached` — the table in effect, and the file it is read from

`machine_table` answers from memory, looks at the file at most once a
second, and reads it again when it has changed.  What it cannot read leaves
the last table.

`table_whole` says when a new file is taken as it stands: exactly when its
document is sound, whatever was known before.  `table_current` is about runs
of calls and of writers that may come at any moment, also between a call's
`stat` and its `open`: a second after the file last changed, what is
answered is the table in it.  It rests on every content having a stamp of
its own (`Place.Unused`).
-/
import InferenceDriver.Http.Entries
import InferenceDriver.Http.Route
import InferenceDriver.Lib.Lts

namespace InferenceDriver.Http

variable (R : Reader)

/-! ## One call -/

/-- What `os.stat` says of the path. -/
inductive Stat where
  /-- `FileNotFoundError`. -/
  | missing
  /-- Another `OSError`. -/
  | failed
  /-- `st_mtime_ns` and `st_size`. -/
  | found (mtime : Int) (size : Nat)

/-- What `open` and `json.load` come to. -/
inductive Opened where
  | document (v : Json)
  /-- An `OSError` or a `ValueError`: nothing there, no text, or no JSON. -/
  | unreadable
  /-- `RecursionError`. -/
  | tooDeep

/-- What a call of `machine_table` lets out. -/
inductive Escapes where
  | attributeError
  | typeError
  | recursionError
deriving DecidableEq

/-- What the process remembers. -/
structure Memory where
  /-- `_TABLE_OVERRIDE`. -/
  override : Option MachineTable
  /-- `_TABLE_FILE`. -/
  file : Option (Text × Int × Nat)
  /-- `_TABLE_FROM_FILE`. -/
  fromFile : MachineTable
  /-- `_TABLE_CHECKED`. -/
  checked : ℚ

/-- What one call meets. -/
structure Look where
  /-- The environment's `EUGENE_PLEXUS_MACHINE_PINS_FILE`. -/
  path : Option Text
  /-- `time.perf_counter()`. -/
  now : ℚ
  stat : Stat
  opened : Opened

/-- `_TABLE_RECHECK_SECONDS`. -/
def recheckSeconds : ℚ := 1

/-- The file, where it is there and not the one that was read. -/
def takeFile (s : Memory) (seen : Text × Int × Nat) : Opened → Memory × Except Escapes MachineTable
  | .unreadable => (s, .ok s.fromFile)
  | .tooDeep => (s, .error .recursionError)
  | .document v =>
      match parseTable R v with
      | .ok t => ({ s with file := some seen, fromFile := t }, .ok t)
      | .error .valueError => (s, .ok s.fromFile)
      | .error .attributeError => (s, .error .attributeError)
      | .error .typeError => (s, .error .typeError)

/-- A call that looks at the file. -/
def lookAt (s : Memory) (path : Text) (l : Look) : Memory × Except Escapes MachineTable :=
  match l.stat with
  | .missing => ({ s with file := some (path, 0, 0), fromFile := emptyTable }, .ok emptyTable)
  | .failed => (s, .ok s.fromFile)
  | .found mtime size =>
      if s.file = some (path, mtime, size) then (s, .ok s.fromFile)
      else takeFile R s (path, mtime, size) l.opened

/-- Whether a call answers from memory. -/
def Memory.fresh (s : Memory) (path : Text) (now : ℚ) : Bool :=
  (s.file.any fun file => file.1 = path) && decide (now - s.checked < recheckSeconds)

/-- `machine_table()`. -/
def machineTable (s : Memory) (l : Look) : Memory × Except Escapes MachineTable :=
  match s.override with
  | some t => (s, .ok t)
  | none =>
      match l.path with
      | none => (s, .ok emptyTable)
      | some [] => (s, .ok emptyTable)
      | some (c :: path) =>
          if s.fresh (c :: path) l.now then (s, .ok s.fromFile)
          else lookAt R { s with checked := l.now } (c :: path) l

/-! ## A new file -/

variable {R}

/-- A call that finds a document it has not read. -/
structure New (s : Memory) (l : Look) (document : Json) : Prop where
  override : s.override = none
  path : ∃ path mtime size, l.path = some path ∧ path ≠ [] ∧ s.fresh path l.now = false ∧
    l.stat = .found mtime size ∧ s.file ≠ some (path, mtime, size)
  opened : l.opened = .document document

/-- What a call makes of a document it has not read. -/
theorem machineTable_new {s : Memory} {l : Look} {document : Json} (h : New s l document) :
    ∃ seen, machineTable R s l = takeFile R { s with checked := l.now } seen (.document document) := by
  obtain ⟨path, mtime, size, hpath, hne, hfresh, hstat, hfile⟩ := h.path
  obtain ⟨c, rest, rfl⟩ := List.exists_cons_of_ne_nil hne
  refine ⟨(c :: rest, mtime, size), ?_⟩
  rw [machineTable, h.override, hpath]
  simp only [hfresh, Bool.false_eq_true, if_false]
  rw [lookAt, hstat, h.opened]
  exact if_neg hfile

variable (R) in
/-- A new file with this document is served, and no table that was there before. -/
def Served (document : Json) : Prop :=
  ∀ o, document = .obj o → ∀ s l, New s l document → ∃ t, parseTable R document = .ok t ∧
    (machineTable R s l).2 = .ok t ∧ (machineTable R s l).1.fromFile = t

theorem served_of_whole {document : Json} (h : Whole R document) : Served R document := by
  intro o ho s l hnew
  obtain ⟨t, ht, -⟩ := h.unites o ho
  obtain ⟨seen, hcall⟩ := machineTable_new (R := R) hnew
  refine ⟨t, ht, ?_, ?_⟩ <;> rw [hcall, takeFile, ht]

/-- **When a table is the union of its entries.**  It is, and nothing but
what is no object is refused, and a new file is served as it stands, exactly
when an object is `Sound`: each section is empty or an object, what is local
can be looped over, each machine that is pinned has a key that can be read,
and no name is one that cannot be read back. -/
theorem table_whole (R : Reader) (document : Json) :
    (Whole R document ∧ Served R document) ↔ ∀ o, document = .obj o → Sound R o :=
  ⟨fun h => whole_iff.mp h.1, fun h => ⟨whole_iff.mpr h, served_of_whole (whole_iff.mpr h)⟩⟩

/-! ## One bad key -/

/-- `plainLib`, which reads every name back. -/
def plainReader : Reader where
  toLib := plainLib
  undecodable _ := false
  undecodable_parse _ h := absurd h Bool.false_ne_true

/-- Two machines, one of them without a port that is a number. -/
def badKey : Json :=
  .ofFields [("machines", .obj [("10.0.0.7:8083".toList, .arr [.ofString "pin"]),
    ("10.0.0.8:port".toList, .arr [.ofString "pin"])])]

/-- The other machine is lost with it. -/
theorem bad_key_refused : ¬ Whole plainReader badKey := by
  intro h
  obtain ⟨⟨items, hitems, hkeys⟩, -⟩ := whole_iff.mp h _ rfl
  rw [Json.get_ofFields] at hitems
  cases hitems
  have hkey := hkeys ("10.0.0.8:port".toList, .arr [.ofString "pin"])
    (List.mem_cons_of_mem _ List.mem_cons_self) (by decide)
  have hnone : (machineKey plainLib "10.0.0.8:port".toList).isSome = false := by decide
  exact Bool.false_ne_true (hnone.symm.trans hkey)

/-! ## What a call can do -/

/-- A call for a path: what is remembered after it, and what is answered. -/
inductive Called (R : Reader) (path : Text) (m : Memory) (l : Look) :
    Memory × Except Escapes MachineTable → Prop where
  | installed {t : MachineTable} (h : m.override = some t) : Called R path m l (m, .ok t)
  | remembered (h : m.fresh path l.now = true) : Called R path m l (m, .ok m.fromFile)
  | missing (h : l.stat = .missing) :
      Called R path m l (⟨m.override, some (path, 0, 0), emptyTable, l.now⟩, .ok emptyTable)
  | failed (h : l.stat = .failed) : Called R path m l ({ m with checked := l.now }, .ok m.fromFile)
  | unchanged {mtime : Int} {size : Nat} (h : l.stat = .found mtime size)
      (hfile : m.file = some (path, mtime, size)) :
      Called R path m l ({ m with checked := l.now }, .ok m.fromFile)
  | kept {mtime : Int} {size : Nat} (h : l.stat = .found mtime size)
      (hbad : ∀ v t, l.opened = .document v → parseTable R v ≠ .ok t) :
      Called R path m l ({ m with checked := l.now }, .ok m.fromFile)
  | escaped {mtime : Int} {size : Nat} {raised : Escapes} (h : l.stat = .found mtime size)
      (hbad : l.opened = .tooDeep ∨ ∃ o, l.opened = .document (.obj o) ∧ ¬ Sound R o) :
      Called R path m l ({ m with checked := l.now }, .error raised)
  | taken {mtime : Int} {size : Nat} {v : Json} {t : MachineTable} (h : l.stat = .found mtime size)
      (hopened : l.opened = .document v) (ht : parseTable R v = .ok t) :
      Called R path m l (⟨m.override, some (path, mtime, size), t, l.now⟩, .ok t)

/-- What is no object is refused as a `ValueError`, so anything else is raised of an object. -/
theorem unsound_of_raised {v : Json} {raised : Raised} (h : parseTable R v = .error raised) (hr : raised ≠ .valueError) :
    ∃ o, v = .obj o ∧ ¬ Sound R o := by
  cases v with
  | obj o =>
      refine ⟨o, rfl, fun hsound => ?_⟩
      obtain ⟨t, ht⟩ := parseTable_isOk.mpr hsound
      rw [h] at ht
      cases ht
  | _ =>
      cases h
      exact absurd rfl hr

theorem called_takeFile {path : Text} {m : Memory} {l : Look} {mtime : Int} {size : Nat}
    (h : l.stat = .found mtime size) :
    Called R path m l (takeFile R { m with checked := l.now } (path, mtime, size) l.opened) := by
  cases hopened : l.opened with
  | unreadable => exact .kept h fun v t hv => by rw [hopened] at hv; cases hv
  | tooDeep => exact .escaped h (.inl hopened)
  | document v =>
      rw [takeFile]
      cases hparse : parseTable R v with
      | ok t => exact .taken h hopened hparse
      | error raised =>
          cases raised with
          | valueError =>
              refine .kept h fun v' t hv ht => ?_
              rw [hopened] at hv
              cases hv
              rw [hparse] at ht
              cases ht
          | attributeError =>
              obtain ⟨o, rfl, ho⟩ := unsound_of_raised hparse (by decide)
              exact .escaped h (.inr ⟨o, hopened, ho⟩)
          | typeError =>
              obtain ⟨o, rfl, ho⟩ := unsound_of_raised hparse (by decide)
              exact .escaped h (.inr ⟨o, hopened, ho⟩)

theorem called {path : Text} (hpath : path ≠ []) (m : Memory) {l : Look} (hl : l.path = some path) :
    Called R path m l (machineTable R m l) := by
  obtain ⟨c, rest, rfl⟩ := List.exists_cons_of_ne_nil hpath
  obtain ⟨override, file, fromFile, checked⟩ := m
  cases override with
  | some t => exact .installed rfl
  | none =>
      rw [machineTable, hl]
      by_cases hfresh : Memory.fresh ⟨none, file, fromFile, checked⟩ (c :: rest) l.now = true
      · simp only [hfresh, if_true]
        exact .remembered hfresh
      · simp only [hfresh, if_false, Bool.false_eq_true]
        rw [lookAt]
        cases hstat : l.stat with
        | missing => exact .missing hstat
        | failed => exact .failed hstat
        | found mtime size =>
            by_cases hfile : file = some (c :: rest, mtime, size)
            · simp only [hfile, if_true]
              exact .unchanged hstat rfl
            · simp only [hfile, if_false]
              exact called_takeFile hstat

section

variable {path : Text} {m m' : Memory} {l : Look} {answer : Except Escapes MachineTable}

theorem Called.file_cases (h : Called R path m l (m', answer)) {q : Text} {mtime : Int} {size : Nat}
    (hf : m'.file = some (q, mtime, size)) :
    m.file = some (q, mtime, size) ∨ (mtime, size) = (0, 0) ∨ l.stat = .found mtime size := by
  cases h with
  | missing _ =>
      cases hf
      exact Or.inr (Or.inl rfl)
  | taken h _ _ =>
      cases hf
      exact Or.inr (Or.inr h)
  | _ => exact Or.inl hf

theorem Called.checked_le (h : Called R path m l (m', answer)) (hm : m.file ≠ none → m.checked ≤ l.now)
    (hf : m'.file ≠ none) : m'.checked ≤ l.now := by
  cases h with
  | installed _ => exact hm hf
  | remembered _ => exact hm hf
  | _ => exact le_refl _

theorem Called.fromFile_cases (h : Called R path m l (m', answer)) :
    m'.fromFile = m.fromFile ∨ m'.fromFile = emptyTable ∨
      ∃ v, l.opened = .document v ∧ parseTable R v = .ok m'.fromFile := by
  cases h with
  | missing _ => exact Or.inr (Or.inl rfl)
  | taken _ hopened ht => exact Or.inr (Or.inr ⟨_, hopened, ht⟩)
  | _ => exact Or.inl rfl

end

/-! ## Runs -/

/-- What is at the path. -/
inductive Place where
  | missing
  | failing
  | file (mtime : Int) (size : Nat) (content : Opened)

namespace Place

def stat : Place → Stat
  | missing => .missing
  | failing => .failed
  | file mtime size _ => .found mtime size

def opened : Place → Opened
  | file _ _ content => content
  | _ => .unreadable

/-- The stamp of a file that is there. -/
def stamp : Place → Option (Int × Nat)
  | file mtime size _ => some (mtime, size)
  | _ => none

/-- What a file says, where it can be read. -/
def document : Place → Option Json
  | file _ _ (.document v) => some v
  | _ => none

theorem document_of_opened {place : Place} {v : Json} (h : place.opened = .document v) :
    place.document = some v := by
  cases place with
  | file mtime size content =>
      cases h
      rfl
  | _ => cases h

theorem stamp_of_stat {place : Place} {mtime : Int} {size : Nat} (h : place.stat = .found mtime size) :
    place.stamp = some (mtime, size) := by
  cases place with
  | file mtime size content =>
      cases h
      rfl
  | _ => cases h

/-- A place no stamp of which was there before; no file that is there has
the stamp that is remembered of one that is not. -/
def Unused (used : List (Int × Nat)) (place : Place) : Prop :=
  ∀ stamp, place.stamp = some stamp → stamp ∉ used ∧ stamp ≠ (0, 0)

instance (used : List (Int × Nat)) (place : Place) : Decidable (place.Unused used) :=
  decidable_of_iff (place.stamp.all fun stamp => decide (stamp ∉ used ∧ stamp ≠ (0, 0)) = true)
    (by rw [Option.all_eq_true]; simp only [decide_eq_true_eq, Unused])

end Place

/-- The process, and the file its path names. -/
structure World where
  memory : Memory
  place : Place
  /-- The moment it last changed. -/
  changed : ℚ
  now : ℚ
  /-- The stamps that have been there. -/
  used : List (Int × Nat)
  /-- The documents that have been there. -/
  past : List Json

inductive Move where
  /-- `set_machine_table(table)`. -/
  | install (table : Option MachineTable)
  | write (now : ℚ) (place : Place)
  /-- A call, and what a writer puts there between its `stat` and its `open`. -/
  | call (now : ℚ) (between : Option Place)

/-- Something else is at the path. -/
def World.write (w : World) (now : ℚ) (place : Place) : World :=
  { w with
    place, now, changed := now
    used := place.stamp.toList ++ w.used
    past := place.document.toList ++ w.past }

/-- What a call meets. -/
def World.look (path : Text) (w : World) (now : ℚ) (between : Option Place) : Look :=
  ⟨some path, now, w.place.stat, (between.getD w.place).opened⟩

variable (R) in
def World.called (path : Text) (w : World) (now : ℚ) (between : Option Place) : World :=
  let after := { w with memory := (machineTable R w.memory (w.look path now between)).1, now }
  match between with
  | some place => after.write now place
  | none => after

variable (R) in
def cacheStep (path : Text) (w : World) : Move → Option World
  | .install table => some { w with memory := { w.memory with override := table } }
  | .write now place => if w.now ≤ now ∧ place.Unused w.used then some (w.write now place) else none
  | .call now between =>
      if w.now ≤ now ∧ ∀ place ∈ between, place.Unused w.used then some (w.called R path now between) else none

variable (R) in
/-- A process that has read nothing, and a path that names anything. -/
def cached (path : Text) : Lts.System World Move where
  init w := w.memory = ⟨none, none, emptyTable, 0⟩ ∧ w.changed ≤ w.now ∧
    w.used = w.place.stamp.toList ∧ w.past = w.place.document.toList ∧ ∀ s ∈ w.place.stamp, s ≠ (0, 0)
  step := cacheStep R path

variable (R) in
/-- What a call answers that no writer comes between. -/
def World.answer (path : Text) (w : World) (now : ℚ) : Except Escapes MachineTable :=
  (machineTable R w.memory (w.look path now none)).2

/-! ## What is remembered of the file -/

/-- What is remembered is what a place says, where it says something. -/
def Knows (R : Reader) (m : Memory) : Place → Prop
  | .missing => m.fromFile = emptyTable
  | .failing => True
  | .file _ _ content => ∀ v t, content = .document v → parseTable R v = .ok t → m.fromFile = t

structure Current (R : Reader) (path : Text) (w : World) : Prop where
  stamp : ∀ s, w.place.stamp = some s → s ∈ w.used ∧ s ≠ (0, 0)
  file : ∀ q mtime size, w.memory.file = some (q, mtime, size) →
    (mtime, size) = (0, 0) ∨ (mtime, size) ∈ w.used
  /-- A file with the stamp that is remembered is the one that was read. -/
  same : ∀ mtime size content, w.memory.file = some (path, mtime, size) → w.place = .file mtime size content →
    ∃ v, content = .document v ∧ parseTable R v = .ok w.memory.fromFile
  looked : w.memory.file ≠ none → w.changed < w.memory.checked → Knows R w.memory w.place
  order : w.memory.file ≠ none → w.memory.checked ≤ w.now
  changed : w.changed ≤ w.now
  /-- Every table is one whole document's. -/
  whole : w.memory.fromFile = emptyTable ∨ ∃ v ∈ w.past, parseTable R v = .ok w.memory.fromFile
  there : ∀ v, w.place.document = some v → v ∈ w.past

theorem current_init {path : Text} {w : World} (h : (cached R path).init w) : Current R path w := by
  obtain ⟨hmemory, hchanged, hused, hpast, hstamp⟩ := h
  have hfile : w.memory.file = none := by rw [hmemory]
  refine ⟨fun s hs => ⟨?_, hstamp s hs⟩, fun q mt sz hf => ?_, fun mt sz c hf => ?_, fun hf => absurd hfile hf,
    fun hf => absurd hfile hf, hchanged, Or.inl ?_, fun v hv => ?_⟩
  · rw [hused, hs]
    exact List.mem_singleton.mpr rfl
  · rw [hfile] at hf
    cases hf
  · rw [hfile] at hf
    cases hf
  · rw [hmemory]
  · rw [hpast, hv]
    exact List.mem_singleton.mpr rfl

/-- Something new at the path: nothing that is remembered is of it. -/
theorem current_write {path : Text} {w : World} {now : ℚ} {place : Place}
    (hunused : place.Unused w.used)
    (hfile : ∀ q mtime size, w.memory.file = some (q, mtime, size) → (mtime, size) = (0, 0) ∨ (mtime, size) ∈ w.used)
    (horder : w.memory.file ≠ none → w.memory.checked ≤ now)
    (hwhole : w.memory.fromFile = emptyTable ∨
      ∃ v ∈ place.document.toList ++ w.past, parseTable R v = .ok w.memory.fromFile) :
    Current R path (w.write now place) where
  stamp s hs := ⟨List.mem_append_left _ (Option.mem_toList.mpr hs), (hunused s hs).2⟩
  file q mtime size hf := (hfile q mtime size hf).imp_right fun h => List.mem_append_right _ h
  same mtime size content hf hp := by
    have hplace : place = .file mtime size content := hp
    obtain ⟨hnot, hne⟩ := hunused (mtime, size) (by rw [hplace]; rfl)
    exact ((hfile path mtime size hf).elim hne hnot).elim
  looked hf hlt := absurd (horder hf) (not_le_of_gt hlt)
  order hf := horder hf
  changed := le_refl now
  whole := hwhole
  there v hv := List.mem_append_left _ (Option.mem_toList.mpr hv)

/-- What a call remembers of a place it looks at. -/
theorem Called.knows {path : Text} {w : World} (h : Current R path w) {now : ℚ} {m' : Memory}
    {answer : Except Escapes MachineTable} (hcalled : Called R path w.memory (w.look path now none) (m', answer)) :
    (∀ mtime size content, m'.file = some (path, mtime, size) → w.place = .file mtime size content →
      ∃ v, content = .document v ∧ parseTable R v = .ok m'.fromFile) ∧
    (m'.file ≠ none → w.changed < m'.checked → Knows R m' w.place) := by
  cases hcalled with
  | installed _ => exact ⟨h.same, h.looked⟩
  | remembered _ => exact ⟨h.same, h.looked⟩
  | missing hstat =>
      cases hplace : w.place with
      | missing => exact ⟨fun _ _ _ _ hp => (by cases hp), fun _ _ => rfl⟩
      | _ =>
          rw [World.look, hplace] at hstat
          cases hstat
  | failed hstat =>
      cases hplace : w.place with
      | failing => exact ⟨fun _ _ _ _ hp => (by cases hp), fun _ _ => trivial⟩
      | _ =>
          rw [World.look, hplace] at hstat
          cases hstat
  | unchanged hstat hfile =>
      refine ⟨h.same, fun _ _ => ?_⟩
      cases hplace : w.place with
      | file mtime size content =>
          rw [World.look, hplace] at hstat
          cases hstat
          obtain ⟨v, rfl, hv⟩ := h.same _ _ _ hfile hplace
          intro v' t hv' ht
          cases hv'
          exact Except.ok.inj (hv.symm.trans ht)
      | _ =>
          rw [World.look, hplace] at hstat
          cases hstat
  | kept hstat hbad =>
      refine ⟨h.same, fun _ _ => ?_⟩
      cases hplace : w.place with
      | file mtime size content =>
          rw [World.look, hplace] at hbad
          intro v t hv ht
          exact absurd ht (hbad v t hv)
      | _ =>
          rw [World.look, hplace] at hstat
          cases hstat
  | escaped hstat hbad =>
      refine ⟨h.same, fun _ _ => ?_⟩
      cases hplace : w.place with
      | file mtime size content =>
          rw [World.look, hplace] at hbad
          intro v t hv ht
          rcases hbad with hdeep | ⟨o, ho, hunsound⟩
          · cases hv.symm.trans hdeep
          · cases hv.symm.trans ho
            exact absurd (parseTable_isOk.mp ⟨t, ht⟩) hunsound
      | _ =>
          rw [World.look, hplace] at hstat
          cases hstat
  | taken hstat hopened ht =>
      cases hplace : w.place with
      | file mtime size content =>
          rw [World.look, hplace] at hopened
          refine ⟨fun mt sz c _ hp => ?_, fun _ _ v t hv ht' => ?_⟩
          · cases hp
            exact ⟨_, hopened, ht⟩
          · cases hv.symm.trans hopened
            exact Except.ok.inj (ht.symm.trans ht')
      | _ =>
          rw [World.look, hplace] at hstat
          cases hstat

theorem current_called {path : Text} (hpath : path ≠ []) {w : World} (h : Current R path w) {now : ℚ}
    (hnow : w.now ≤ now) {between : Option Place} (hbetween : ∀ place ∈ between, place.Unused w.used) :
    Current R path (w.called R path now between) := by
  have hcalled := called (R := R) hpath w.memory (l := w.look path now between) rfl
  have hle : w.memory.file ≠ none → w.memory.checked ≤ (w.look path now between).now :=
    fun hf => (h.order hf).trans hnow
  have hfile : ∀ q mtime size, (machineTable R w.memory (w.look path now between)).1.file = some (q, mtime, size) →
      (mtime, size) = (0, 0) ∨ (mtime, size) ∈ w.used := by
    intro q mtime size hf
    rcases hcalled.file_cases hf with hold | hzero | hfound
    · exact h.file q mtime size hold
    · exact Or.inl hzero
    · exact Or.inr (h.stamp _ (Place.stamp_of_stat hfound)).1
  cases between with
  | none =>
      obtain ⟨hsame, hlooked⟩ := hcalled.knows h
      refine ⟨h.stamp, hfile, hsame, hlooked, hcalled.checked_le hle, h.changed.trans hnow, ?_, h.there⟩
      rcases hcalled.fromFile_cases with hold | hempty | ⟨v, hv, ht⟩
      · exact hold ▸ h.whole
      · exact Or.inl hempty
      · exact Or.inr ⟨v, h.there v (Place.document_of_opened hv), ht⟩
  | some place =>
      refine current_write (hbetween place rfl) hfile (hcalled.checked_le hle) ?_
      rcases hcalled.fromFile_cases with hold | hempty | ⟨v, hv, ht⟩
      · rcases h.whole with hempty | ⟨v, hv, ht⟩
        · exact Or.inl (hold.trans hempty)
        · exact Or.inr ⟨v, List.mem_append_right _ hv, hold ▸ ht⟩
      · exact Or.inl hempty
      · exact Or.inr ⟨v, List.mem_append_left _ (Option.mem_toList.mpr (Place.document_of_opened hv)), ht⟩

theorem current_step {path : Text} (hpath : path ≠ []) {w w' : World} (h : Current R path w) {move : Move}
    (hs : cacheStep R path w move = some w') : Current R path w' := by
  cases move with
  | install table =>
      cases hs
      exact ⟨h.stamp, h.file, h.same, h.looked, h.order, h.changed, h.whole, h.there⟩
  | write now place =>
      obtain ⟨hok, hw⟩ := Option.ite_none_right_eq_some.mp hs
      cases hw
      refine current_write hok.2 h.file (fun hf => (h.order hf).trans hok.1) ?_
      exact h.whole.imp_right fun ⟨v, hv, ht⟩ => ⟨v, List.mem_append_right _ hv, ht⟩
  | call now between =>
      obtain ⟨hok, hw⟩ := Option.ite_none_right_eq_some.mp hs
      cases hw
      exact current_called hpath h hok.1 hok.2

theorem current_of_reach {path : Text} (hpath : path ≠ []) {w : World} (h : Lts.Reach (cached R path) w) :
    Current R path w :=
  h.invariant (fun _ hi => current_init hi) fun _ _ _ hc hs => current_step hpath hc hs

/-- What is answered from memory a second after the last change is of what is there. -/
theorem knows_of_fresh {path : Text} {w : World} (h : Current R path w) {now : ℚ}
    (hlate : w.changed + recheckSeconds ≤ now) (hfresh : w.memory.fresh path now = true) :
    Knows R w.memory w.place := by
  rw [Memory.fresh, Bool.and_eq_true, decide_eq_true_eq] at hfresh
  refine h.looked (fun hnone => ?_) (by linarith [hfresh.2])
  rw [hnone] at hfresh
  cases hfresh.1

section

variable {path : Text} {w : World} {now : ℚ} {m' : Memory} {answer : Except Escapes MachineTable}

theorem Called.answer_missing (h : Current R path w) (hov : w.memory.override = none)
    (hlate : w.changed + recheckSeconds ≤ now) (hplace : w.place = .missing)
    (hcalled : Called R path w.memory (w.look path now none) (m', answer)) : answer = .ok emptyTable := by
  have hstat : (w.look path now none).stat = .missing := by rw [World.look, hplace]; rfl
  cases hcalled with
  | installed hi => cases hov.symm.trans hi
  | remembered hfresh =>
      have hknows := knows_of_fresh h hlate hfresh
      rw [hplace] at hknows
      exact congrArg Except.ok hknows
  | missing _ => rfl
  | failed hf => cases hstat.symm.trans hf
  | unchanged hf _ => cases hstat.symm.trans hf
  | kept hf _ => cases hstat.symm.trans hf
  | escaped hf _ => cases hstat.symm.trans hf
  | taken hf _ _ => cases hstat.symm.trans hf

theorem Called.answer_document (h : Current R path w) (hov : w.memory.override = none)
    (hlate : w.changed + recheckSeconds ≤ now) {v : Json} {t : MachineTable} {mtime : Int} {size : Nat}
    (hplace : w.place = .file mtime size (.document v)) (ht : parseTable R v = .ok t)
    (hcalled : Called R path w.memory (w.look path now none) (m', answer)) : answer = .ok t := by
  have hstat : (w.look path now none).stat = .found mtime size := by rw [World.look, hplace]; rfl
  have hopened : (w.look path now none).opened = .document v := by rw [World.look, hplace]; rfl
  cases hcalled with
  | installed hi => cases hov.symm.trans hi
  | remembered hfresh =>
      have hknows := knows_of_fresh h hlate hfresh
      rw [hplace] at hknows
      exact congrArg Except.ok (hknows v t rfl ht)
  | missing hf => cases hstat.symm.trans hf
  | failed hf => cases hstat.symm.trans hf
  | unchanged hf hfile =>
      cases hstat.symm.trans hf
      obtain ⟨v', hv', ht'⟩ := h.same _ _ _ hfile hplace
      cases hv'
      exact congrArg Except.ok (Except.ok.inj (ht'.symm.trans ht))
  | kept _ hbad => exact absurd ht (hbad v t hopened)
  | escaped _ hbad =>
      rcases hbad with hdeep | ⟨o, ho, hunsound⟩
      · cases hopened.symm.trans hdeep
      · cases hopened.symm.trans ho
        exact absurd (parseTable_isOk.mp ⟨t, ht⟩) hunsound
  | taken _ hv' ht' =>
      cases hopened.symm.trans hv'
      exact congrArg Except.ok (Except.ok.inj (ht'.symm.trans ht))

theorem Called.answer_error {raised : Escapes}
    (hcalled : Called R path w.memory (w.look path now none) (m', .error raised)) :
    w.place.opened = .tooDeep ∨ ∃ o, w.place.document = some (.obj o) ∧ ¬ Sound R o := by
  cases hcalled with
  | escaped _ hbad => exact hbad.imp_right fun ⟨o, ho, hunsound⟩ => ⟨o, Place.document_of_opened ho, hunsound⟩

theorem Called.answer_whole (h : Current R path w) (hov : w.memory.override = none) {t : MachineTable}
    (hcalled : Called R path w.memory (w.look path now none) (m', .ok t)) :
    t = emptyTable ∨ ∃ v ∈ w.past, parseTable R v = .ok t := by
  cases hcalled with
  | installed hi => cases hov.symm.trans hi
  | missing _ => exact Or.inl rfl
  | taken _ hopened ht => exact Or.inr ⟨_, h.there _ (Place.document_of_opened hopened), ht⟩
  | _ => exact h.whole

end

/-- **A second after the file last changed**, whatever calls and writers have
done before: a call answers the empty table of a file that is not there,
and the table of a document that holds together.  It raises only of a file
whose JSON is nested too deeply or is an object that is not `Sound`, and
every table it answers that was not installed is empty, or that of one
whole document that was in the file. -/
theorem table_current (R : Reader) {path : Text} (hpath : path ≠ []) {w : World}
    (h : Lts.Reach (cached R path) w) (hov : w.memory.override = none) (now : ℚ) :
    (w.changed + recheckSeconds ≤ now → (w.place = .missing → w.answer R path now = .ok emptyTable) ∧
      ∀ mtime size v t, w.place = .file mtime size (.document v) → parseTable R v = .ok t →
        w.answer R path now = .ok t) ∧
    (∀ raised, w.answer R path now = .error raised →
      w.place.opened = .tooDeep ∨ ∃ o, w.place.document = some (.obj o) ∧ ¬ Sound R o) ∧
    ∀ t, w.answer R path now = .ok t → t = emptyTable ∨
      ∃ v ∈ w.past, parseTable R v = .ok t ∧ parseMachineTable R.toLib v = some t := by
  have hcurrent := current_of_reach hpath h
  have hcalled := called (R := R) hpath w.memory (l := w.look path now none) rfl
  refine ⟨fun hlate => ⟨fun hplace => ?_, fun mtime size v t hplace ht => ?_⟩, fun raised hr => ?_, fun t ht => ?_⟩
  · exact hcalled.answer_missing hcurrent hov hlate hplace
  · exact hcalled.answer_document hcurrent hov hlate hplace ht
  · have herror : machineTable R w.memory (w.look path now none) = (_, .error raised) := Prod.ext rfl hr
    rw [herror] at hcalled
    exact hcalled.answer_error
  · have hok : machineTable R w.memory (w.look path now none) = (_, .ok t) := Prod.ext rfl ht
    rw [hok] at hcalled
    rcases hcalled.answer_whole hcurrent hov with hempty | ⟨v, hv, hparse⟩
    · exact Or.inl hempty
    · exact Or.inr ⟨v, hv, hparse, parseMachineTable_of_ok hparse⟩

/-! ## One run -/

theorem reach_step {path : Text} {w w' : World} {move : Move} (h : Lts.Reach (cached R path) w)
    (hs : cacheStep R path w move = some w') : Lts.Reach (cached R path) w' :=
  Lts.Reach.next (l := move) h hs

/-- A table with one machine. -/
def oneMachine : Json :=
  .ofFields [("machines", .obj [("10.0.0.7:8083".toList, .arr [.ofString "pin"])])]

/-- Nothing is at the path yet. -/
def unread : World := ⟨⟨none, none, emptyTable, 0⟩, .missing, 0, 0, [], []⟩

/-- A call has looked, and then the table was written. -/
def writtenLate : World :=
  (unread.called plainReader "pins.json".toList 1 none).write 2 (.file 1 60 (.document oneMachine))

theorem writtenLate_reach : Lts.Reach (cached plainReader "pins.json".toList) writtenLate := by
  have start : Lts.Reach (cached plainReader "pins.json".toList) unread :=
    .start ⟨rfl, le_refl _, rfl, rfl, fun _ hs => by cases hs⟩
  have looked : cacheStep plainReader "pins.json".toList unread (.call 1 none) =
      some (unread.called plainReader "pins.json".toList 1 none) := by
    have hnow : unread.now ≤ 1 := by norm_num [unread]
    have hnone : ∀ place ∈ (none : Option Place), place.Unused unread.used := fun _ hp => by cases hp
    rw [cacheStep, if_pos (And.intro hnow hnone)]
  have written : cacheStep plainReader "pins.json".toList
      (unread.called plainReader "pins.json".toList 1 none) (.write 2 (.file 1 60 (.document oneMachine))) =
      some writtenLate := by
    have hnow : (unread.called plainReader "pins.json".toList 1 none).now ≤ 2 := by
      have h : (1 : ℚ) ≤ 2 := by norm_num
      exact h
    have hunused : Place.Unused (unread.called plainReader "pins.json".toList 1 none).used
        (.file 1 60 (.document oneMachine)) := by
      intro stamp hstamp
      cases hstamp
      exact ⟨List.not_mem_nil, by decide⟩
    rw [cacheStep, if_pos (And.intro hnow hunused)]
    rfl
  exact reach_step (reach_step start looked) written

theorem table_current_written : ∃ t, parseTable plainReader oneMachine = .ok t ∧
    t.machines.keys = ["10.0.0.7:8083".toList] ∧ writtenLate.answer plainReader "pins.json".toList 3 = .ok t := by
  have hparse : (parseTable plainReader oneMachine).toOption.any
      (fun t => decide (t.machines.keys = ["10.0.0.7:8083".toList])) = true := by decide
  obtain ⟨t, ht, hkeys⟩ := (Option.any_eq_true _ _).mp hparse
  have hok : parseTable plainReader oneMachine = .ok t := by
    cases hr : parseTable plainReader oneMachine with
    | ok t' =>
        rw [hr] at ht
        cases ht
        rfl
    | error raised =>
        rw [hr] at ht
        cases ht
  have hlate : writtenLate.changed + recheckSeconds ≤ 3 := by
    have h : (2 : ℚ) + 1 ≤ 3 := by norm_num
    exact h
  have hcurrent := (table_current plainReader (by decide) writtenLate_reach rfl 3).1 hlate
  exact ⟨t, hok, of_decide_eq_true hkeys, hcurrent.2 1 60 oneMachine t rfl hok⟩

end InferenceDriver.Http

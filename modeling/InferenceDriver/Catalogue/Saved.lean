/-
# `Catalogue.Saved` — an account's model list across a restart

What a catalogue reads it also writes to a file, and the next one made on
that file begins with what is there.  While every list it takes is written
(`Event.Saves`), the file is the document of what it holds (`Synced`), and
such a document gives back what it was made of (`readSaved_body`); so a
restart at any moment restores the list, its index and its time.  A file
that is no whole list of this origin (`Intact`) is a miss
(`restart_restores`).

That a model and a time are read back from their JSON, and a document from
its text, is assumed of the libraries.
-/
import InferenceDriver.Catalogue.Listing
import InferenceDriver.Py.Loads

namespace InferenceDriver.Catalogue

variable {R When : Type}

/-! ## The file -/

/-- What is at the path. -/
inductive Content where
  | absent
  /-- What `read_text` raises for: an `OSError`, or bytes that are no text. -/
  | unread
  | text (text : Text)

/-- A content as `_load` takes it; none is a `RecursionError`, which it does not catch. -/
def stored (D : Decoder) : Content → Option Stored
  | .absent => some .absent
  | .unread => some .unreadable
  | .text text =>
      match D.loads text with
      | .value raw => some (.document raw)
      | .invalid => some .unreadable
      | .refused => some .unreadable
      | .tooDeep => none

/-- `Catalogue(...)`, with this file at its path. -/
def construct (A : Account R When) (D : Decoder) (content : Content) (get : Text → Value) :
    Option (State R When) :=
  if A.hasPath then (stored D content).map fun file => init A file get
  else some (init A .absent get)

theorem stored_of_readable {D : Decoder} {content : Content}
    (readable : ∀ text, content = .text text → D.loads text ≠ .tooDeep) : ∃ file, stored D content = some file := by
  cases content with
  | absent => exact ⟨_, rfl⟩
  | unread => exact ⟨_, rfl⟩
  | text text =>
      rw [stored]
      cases h : D.loads text with
      | value raw => exact ⟨_, rfl⟩
      | invalid => exact ⟨_, rfl⟩
      | refused => exact ⟨_, rfl⟩
      | tooDeep => exact absurd h (readable text rfl)

/-- A document that is a whole list of this account's backend. -/
structure Intact (A : Account R When) (o : Obj) : Prop where
  origin : Obj.get o "origin" = .str A.origin
  models : ∃ items models, listed (Obj.get o "models") = some items ∧ items.mapM A.validate = some models
  time : ∀ text, Obj.get o "refreshedAt" = .str text → ∃ w, A.fromisoformat text = some w

/-- A content that nothing is to be taken from. -/
def Damaged (A : Account R When) (D : Decoder) (content : Content) : Prop :=
  ∀ text o, content = .text text → D.loads text = .value (.obj o) → ¬ Intact A o

/-! ## What is taken from a document -/

/-- The time a document says, none where it cannot be read. -/
def timeOf (A : Account R When) : Json → Option (Option When)
  | .str text => (A.fromisoformat text).map some
  | _ => some none

/-- What is taken from a document, part by part. -/
theorem readSaved_eq_some {A : Account R When} {o : Obj} {models : List (DriverModel R)} {w : Option When} :
    readSaved A (.obj o) = some (models, w) ↔ Obj.get o "origin" = .str A.origin ∧
      (∃ items, listed (Obj.get o "models") = some items ∧ items.mapM A.validate = some models) ∧
      timeOf A (Obj.get o "refreshedAt") = some w := by
  rw [readSaved, ← Json.isStr_iff]
  by_cases horigin : (Obj.get o "origin").isStr A.origin = true
  · simp only [horigin, if_true, Option.bind_eq_bind, Option.bind_eq_some_iff, true_and]
    cases htime : Obj.get o "refreshedAt" with
    | str text =>
        simp only [timeOf, Option.bind_eq_some_iff, Option.some.injEq, Prod.mk.injEq]
        constructor
        · rintro ⟨items, hitems, found, hfound, w', hw', rfl, rfl⟩
          exact ⟨⟨items, hitems, hfound⟩, hw'⟩
        · rintro ⟨⟨items, hitems, hfound⟩, hw⟩
          exact ⟨items, hitems, models, hfound, w, hw, rfl, rfl⟩
    | _ =>
        simp only [timeOf, Option.bind_some, Option.some.injEq, Prod.mk.injEq]
        constructor
        · rintro ⟨items, hitems, found, hfound, rfl, rfl⟩
          exact ⟨⟨items, hitems, hfound⟩, rfl⟩
        · rintro ⟨⟨items, hitems, hfound⟩, rfl⟩
          exact ⟨items, hitems, models, hfound, rfl, rfl⟩
  · simp only [horigin, if_false, false_and, reduceCtorEq, Bool.false_eq_true]

/-- What is taken is taken from a whole list. -/
theorem intact_of_readSaved {A : Account R When} {o : Obj} {found : List (DriverModel R) × Option When}
    (h : readSaved A (.obj o) = some found) : Intact A o := by
  obtain ⟨horigin, ⟨items, hitems, hmodels⟩, htime⟩ := readSaved_eq_some.mp h
  refine ⟨horigin, ⟨items, found.1, hitems, hmodels⟩, ?_⟩
  intro text htext
  rw [htext] at htime
  obtain ⟨w, hw, -⟩ := Option.map_eq_some_iff.mp htime
  exact ⟨w, hw⟩

/-- Nothing is taken from a damaged file. -/
theorem saved_damaged {A : Account R When} {D : Decoder} {content : Content} {file : Stored}
    (hfile : stored D content = some file) (h : Damaged A D content) (get : Text → Value) :
    saved A (blank file get) = none := by
  rw [saved]
  split
  · cases file with
    | absent => rfl
    | unreadable => rfl
    | document raw =>
        cases hfound : readSaved A raw with
        | none => exact hfound
        | some found =>
            cases raw with
            | obj o =>
                cases content with
                | text text =>
                    rw [stored] at hfile
                    split at hfile <;> cases hfile
                    rename_i hloads
                    exact absurd (intact_of_readSaved hfound) (h text o rfl hloads)
                | absent => cases hfile
                | unread => cases hfile
            | _ => cases hfound
  · rfl

/-! ## Reading back what was written -/

/-- What the libraries give back of what they wrote. -/
structure Inverse (A : Account R When) : Prop where
  model : ∀ m, A.validate (A.dump m) = some m
  time : ∀ w, A.fromisoformat (A.isoformat w) = some w

theorem mapM_dump {A : Account R When} (inverse : Inverse A) (models : List (DriverModel R)) :
    (models.map A.dump).mapM A.validate = some models := by
  induction models with
  | nil => rfl
  | cons m models ih =>
      rw [List.map_cons, List.mapM_cons, inverse.model, ih]
      rfl

theorem listed_arr (items : List Json) : listed (.arr items) = some items := by
  cases items <;> rfl

/-- The document of a state gives back its list and its time. -/
theorem readSaved_body {A : Account R When} (inverse : Inverse A) (s : State R When) :
    readSaved A (body A s) = some (s.models, s.refreshedAt) := by
  have hmodels : listed (.arr (s.models.map A.dump)) = some (s.models.map A.dump) := listed_arr _
  refine readSaved_eq_some.mpr ⟨?_, ⟨s.models.map A.dump, ?_, mapM_dump inverse s.models⟩, ?_⟩
  · rw [Json.get_ofFields]
    simp
  · rw [Json.get_ofFields]
    simpa using hmodels
  · rw [Json.get_ofFields]
    cases s.refreshedAt with
    | none => simp [timeOf]
    | some w => simp [timeOf, inverse.time w]

/-- A list that was set is set again as it is. -/
theorem sorted_sorted (models : List (DriverModel R)) : sorted (sorted models) = sorted models := by
  have asymm : ∀ a b : DriverModel R, a ∈ sorted (sorted models) → b ∈ sorted models →
      a.id < b.id → b.id < a.id → a = b := fun a b _ _ hab hba => absurd hba (lt_asymm hab)
  have nodup : ∀ ms : List (DriverModel R), (sorted ms).Nodup := fun ms => (sorted_nodup ms).of_map _
  refine List.Perm.eq_of_pairwise asymm (sorted_pairwise _) (sorted_pairwise _) ?_
  rw [List.perm_ext_iff_of_nodup (nodup _) (nodup _)]
  intro m
  rw [mem_sorted, get?_seen, find?_sorted, Option.map_map]
  rw [mem_sorted, get?_seen]
  cases models.find? fun m' => m'.id = m.id with
  | none => rfl
  | some m' => simp only [Option.map_some, Function.comp_apply, DriverModel.served_served]

/-! ## The file and the state -/

/-- The file is the document of the state, and the state one that was set. -/
structure Synced (A : Account R When) (s : State R When) : Prop where
  file : s.file = .document (body A s)
  models : sorted s.models = s.models
  index : s.byId = indexOf s.models

/-- What happens to an account whose lists are all written. -/
def Event.Saves : Event R When → Prop
  | .refresh (.list _) _ writes => writes = true
  | .replaced _ => False
  | _ => True

/-- A list that is taken and written. -/
theorem synced_refresh {A : Account R When} (hpath : A.hasPath = true) (s : State R When)
    (models : List (DriverModel R)) (now : When) : Synced A (refresh A s (.list models) now true) where
  file := by
    rw [refresh, save, hpath]
    rfl
  models := by
    rw [refresh, save_models]
    exact sorted_sorted models
  index := by
    rw [refresh, save_models, save_byId]
    rfl

/-- What the file of a state holds is what it has: reading it changes nothing. -/
theorem load_synced {A : Account R When} (inverse : Inverse A) {s : State R When} (h : Synced A s) :
    load A s = s := by
  have hset : set s s.models s.refreshedAt = s := by
    have heq : set s s.models s.refreshedAt =
        { s with models := sorted s.models, byId := indexOf (sorted s.models) } := rfl
    rw [heq, h.models, ← h.index]
  have hsaved : saved A s = some (s.models, s.refreshedAt) ∨ saved A s = none := by
    rw [saved, h.file]
    split
    · exact Or.inl (readSaved_body inverse s)
    · exact Or.inr rfl
  rw [load]
  rcases hsaved with hsaved | hsaved
  · rw [hsaved]
    exact hset
  · rw [hsaved]

theorem synced_step {A : Account R When} (hpath : A.hasPath = true) (inverse : Inverse A)
    {s : State R When} (h : Synced A s) {e : Event R When} (he : e.Saves) : Synced A (step A s e) := by
  cases e with
  | refresh fetched now writes =>
      cases fetched with
      | list models =>
          have hwrites : writes = true := he
          rw [step, hwrites]
          exact synced_refresh hpath s models now
      | failed failure => exact ⟨h.file, h.models, h.index⟩
  | load =>
      rw [step, load_synced inverse h]
      exact h
  | replaced file => exact he.elim
  | filters get => exact ⟨h.file, h.models, h.index⟩

theorem synced_after {A : Account R When} (hpath : A.hasPath = true) (inverse : Inverse A)
    {s : State R When} (h : Synced A s) {es : List (Event R When)} (hes : ∀ e ∈ es, e.Saves) :
    Synced A (after A s es) := by
  induction es generalizing s with
  | nil => exact h
  | cons e es ih =>
      have hhead := synced_step hpath inverse h (hes e List.mem_cons_self)
      exact ih hhead fun e' he' => hes e' (List.mem_cons_of_mem _ he')

/-! ## A restart -/

/-- Two states that hold the same list. -/
structure SameList (s t : State R When) : Prop where
  models : t.models = s.models
  index : t.byId = s.byId
  time : t.refreshedAt = s.refreshedAt

/-- What is made on the document of a state holds what it holds. -/
theorem init_body {A : Account R When} (hpath : A.hasPath = true) (inverse : Inverse A)
    {s : State R When} (h : Synced A s) (get : Text → Value) :
    SameList s (init A (.document (body A s)) get) := by
  have hsaved : saved A (blank (.document (body A s)) get) = some (s.models, s.refreshedAt) := by
    rw [saved, hpath]
    exact readSaved_body inverse s
  have hinit : init A (.document (body A s)) get =
      set (blank (.document (body A s)) get) s.models s.refreshedAt := by
    rw [init, load, hsaved]
  rw [hinit]
  exact ⟨h.models, (congrArg indexOf h.models).trans h.index.symm, rfl⟩

/-- A catalogue made on a content nothing is taken from holds nothing. -/
theorem construct_damaged {A : Account R When} {D : Decoder} {content : Content} (h : Damaged A D content)
    (readable : ∀ text, content = .text text → D.loads text ≠ .tooDeep) (get : Text → Value) :
    ∃ again, construct A D content get = some again ∧ again.models = [] ∧ again.byId = .empty ∧
      again.refreshedAt = none := by
  by_cases hpath : A.hasPath = true
  · obtain ⟨file, hfile⟩ := stored_of_readable readable
    have hinit : init A file get = blank file get := by rw [init, load, saved_damaged hfile h]
    refine ⟨init A file get, ?_, ?_⟩
    · rw [construct, if_pos hpath, hfile]
      rfl
    · rw [hinit]
      exact ⟨rfl, rfl, rfl⟩
  · have hinit : init A .absent get = blank .absent get := by
      rw [init, load, saved, if_neg hpath]
    refine ⟨init A .absent get, if_neg hpath, ?_⟩
    rw [hinit]
    exact ⟨rfl, rfl, rfl⟩

/-- The list of another origin is nothing to an account. -/
theorem damaged_of_origin {A B : Account R When} (h : B.origin ≠ A.origin) {D : Decoder} {text : Text}
    {s : State R When} (reads : D.loads text = .value (body A s)) : Damaged B D (.text text) := by
  intro text' o htext hloads intact
  cases htext
  cases reads.symm.trans hloads
  have horigin := intact.origin
  rw [Json.get_ofFields] at horigin
  exact h (Json.str.inj horigin).symm

/-- A list was read and written, and since then every list that was read
was written: a catalogue of the same origin made on that file holds the
same list, the same index and the same time.  One of another origin, and
one made on a file that is no whole list of its origin, is made and holds
nothing. -/
theorem restart_restores (A : Account R When) (D : Decoder) (dumps : Json → Text) (hpath : A.hasPath = true)
    (inverse : Inverse A) (s : State R When) (models : List (DriverModel R)) (now : When)
    (es : List (Event R When)) (hes : ∀ e ∈ es, e.Saves) (t : State R When)
    (ht : t = after A (refresh A s (.list models) now true) es)
    (reads : D.loads (dumps (body A t)) = .value (body A t)) :
    t.file = .document (body A t) ∧
      (∀ get, ∃ again, construct A D (.text (dumps (body A t))) get = some again ∧ SameList t again) ∧
      (∀ B : Account R When, B.origin ≠ A.origin → ∀ get, ∃ again,
        construct B D (.text (dumps (body A t))) get = some again ∧ again.models = [] ∧
          again.byId = .empty ∧ again.refreshedAt = none) ∧
      ∀ content, Damaged A D content → (∀ text, content = .text text → D.loads text ≠ .tooDeep) → ∀ get,
        ∃ again, construct A D content get = some again ∧ again.models = [] ∧ again.byId = .empty ∧
          again.refreshedAt = none := by
  have synced : Synced A t := ht ▸ synced_after hpath inverse (synced_refresh hpath s models now) hes
  have shallow : ∀ text, Content.text (dumps (body A t)) = .text text → D.loads text ≠ .tooDeep := by
    intro text htext
    cases htext
    rw [reads]
    exact JsonRead.noConfusion
  refine ⟨synced.file, fun get => ?_, fun B hB get => ?_, fun content hd hr get => construct_damaged hd hr get⟩
  · refine ⟨init A (.document (body A t)) get, ?_, init_body hpath inverse synced get⟩
    rw [construct, if_pos hpath, stored, reads]
    rfl
  · exact construct_damaged (damaged_of_origin hB reads) shallow get

/-! ## One account -/

/-- A model's JSON where it has an id and surfaces only. -/
def dumpSample (m : DriverModel Unit) : Json :=
  .ofFields [("id", .str m.id), ("surfaces", .arr (m.surfaces.map Json.str))]

def stringOf : Json → Option Text
  | .str s => some s
  | _ => none

def validateSample : Json → Option (DriverModel Unit)
  | .obj o =>
      match Obj.get o "id", Obj.get o "surfaces" with
      | .str id, .arr items =>
          (items.mapM stringOf).map fun surfaces => ⟨id, surfaces, ()⟩
      | _, _ => none
  | _ => none

def october : Text := "2026-10-01T00:00:00+00:00".toList

theorem id_untouched (m : DriverModel Unit) : (id m).id = m.id := rfl

/-- A view that leaves every row as it is. -/
def untouched : View Unit where
  apply := id
  apply_id := id_untouched

/-- An account whose clock stands still. -/
def sampleAccount : Account Unit Unit where
  source := "openrouter".toList
  origin := "openrouter|https://openrouter.ai/api".toList
  hasPath := true
  view := untouched
  dump := dumpSample
  validate := validateSample
  isoformat _ := october
  fromisoformat text := if text = october then some () else none

theorem sampleAccount_inverse : Inverse sampleAccount where
  model m := by
    have strings : (m.surfaces.map Json.str).mapM stringOf = some m.surfaces := by
      induction m.surfaces with
      | nil => rfl
      | cons s surfaces ih =>
          rw [List.map_cons, List.mapM_cons, ih]
          rfl
    have hid : Obj.get (List.map (fun f : String × Json => (f.1.toList, f.2))
        [("id", .str m.id), ("surfaces", .arr (m.surfaces.map Json.str))]) "id" = .str m.id := by
      rw [Json.get_ofFields]
      simp
    have hsurfaces : Obj.get (List.map (fun f : String × Json => (f.1.toList, f.2))
        [("id", .str m.id), ("surfaces", .arr (m.surfaces.map Json.str))]) "surfaces" =
          .arr (m.surfaces.map Json.str) := by
      rw [Json.get_ofFields]
      simp
    show validateSample (dumpSample m) = some m
    rw [dumpSample, Json.ofFields, validateSample, hid, hsurfaces]
    simp only [strings, Option.map_some]
  time _ := by
    have h : (if october = october then some () else none) = some () := if_pos rfl
    exact h

/-- A model that chats. -/
def chats : DriverModel Unit := ⟨"z-ai/glm".toList, ["chat".toList], ()⟩

/-- An account that has read one model. -/
def readOnce : State Unit Unit := refresh sampleAccount (blank .absent fun _ => .null) (.list [chats]) () true

/-- Its document, as it is written. -/
def writtenOnce : String :=
  "\x7b" ++ ("\"origin\": \"openrouter|https://openrouter.ai/api\", \"source\": \"openrouter\", " ++
    "\"refreshedAt\": \"2026-10-01T00:00:00+00:00\", " ++
    "\"models\": [\x7b\"id\": \"z-ai/glm\", \"surfaces\": [\"chat\"]\x7d]\x7d")

theorem writtenOnce_head : writtenOnce.toList.head? ≠ some '\uFEFF' := by
  rw [writtenOnce, String.toList_append]
  decide

theorem loads_ofTable {text : String} (h : text.toList.head? ≠ some '\uFEFF') (raw : Json) :
    (Decoder.ofTable [(text, raw)]).loads text.toList = .value raw := by
  have hdecode : (Decoder.ofTable [(text, raw)]).decode text.toList = .value raw := by
    simp only [Decoder.ofTable, List.find?_cons, decide_true]
  rw [Decoder.loads]
  · exact hdecode
  · intro rest heq
    exact h (by rw [heq]; rfl)

theorem restart_restores_read :
    ∃ again, construct sampleAccount (.ofTable [(writtenOnce, body sampleAccount readOnce)])
      (.text writtenOnce.toList) (fun _ => .null) = some again ∧ SameList readOnce again :=
  have reads := loads_ofTable writtenOnce_head (body sampleAccount readOnce)
  (restart_restores sampleAccount _ (fun _ => writtenOnce.toList) rfl sampleAccount_inverse
    (blank .absent fun _ => .null) [chats] () [] (fun _ he => absurd he List.not_mem_nil) readOnce rfl
    reads).2.1 _

/-- A list that was read and could not be written: the account holds it,
and the one made on its file afterwards holds nothing. -/
theorem unwritten_lost :
    (refresh sampleAccount (blank .absent fun _ => .null) (.list [chats]) () false).models = [chats] ∧
      stored (.ofTable []) .absent =
        some (refresh sampleAccount (blank .absent fun _ => .null) (.list [chats]) () false).file ∧
      ∃ again, construct sampleAccount (.ofTable []) .absent (fun _ => .null) = some again ∧ again.models = [] :=
  ⟨rfl, rfl, _, rfl, rfl⟩

end InferenceDriver.Catalogue

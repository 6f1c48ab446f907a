/-
# `Catalogue.Listing` — an account's model list: the list, its index and the live patterns

A `Catalogue` keeps the models of the last good read twice, as a list in
the order of their ids and as an index by id, and answers three questions
of them through patterns it reads afresh each time: which are exposed, how
many, and whether one of them is there.

`Kept` is what every list that was ever set has, whatever was read; from
it `find` is a look-up in `exposed` (`find_eq`).  `catalogue_agrees` says so
of every state an account goes through, by reads that succeed or fail in
any way, by a list read back from disk, and by patterns that change under
it, and adds that a failed read leaves what was known.

A refresh waits for its answer holding the account's lock and touches
nothing until it has it, so it is one step, taken when the answer is there.
-/
import Mathlib
import InferenceDriver.Catalogue.Patterns
import InferenceDriver.Py.Dict
import InferenceDriver.Py.Value

namespace InferenceDriver.Catalogue

/-! ## Models -/

/-- A model an account lists; `rest` is what nothing here reads. -/
structure DriverModel (R : Type) where
  id : Text
  surfaces : List Text
  rest : R

/-- `_NOT_SERVED_BY_ACCOUNTS`. -/
def notServedByAccounts : List Text := ["rerank".toList]

variable {R When : Type}

/-- A listed model with the surfaces an account serves. -/
def DriverModel.served (m : DriverModel R) : DriverModel R :=
  { m with surfaces := m.surfaces.filter fun s => s ∉ notServedByAccounts }

@[simp] theorem DriverModel.served_id (m : DriverModel R) : m.served.id = m.id := rfl

theorem DriverModel.served_surfaces (m : DriverModel R) :
    ∀ s ∈ notServedByAccounts, s ∉ m.served.surfaces := by
  intro s hs hm
  exact absurd hs (by simpa using (List.mem_filter.mp hm).2)

/-- Serving twice is serving once. -/
@[simp] theorem DriverModel.served_served (m : DriverModel R) : m.served.served = m.served := by
  simp [DriverModel.served, List.filter_filter]

/-- How a model is handed out: what the engine knows of its backend is laid
over the listing, and the id stays. -/
structure View (R : Type) where
  apply : DriverModel R → DriverModel R
  apply_id : ∀ m, (apply m).id = m.id

/-! ## The catalogue -/

/-- What is at the path: nothing, something no JSON can be read from, or a document. -/
inductive Stored where
  | absent
  | unreadable
  | document (raw : Json)

/-- What an account is constructed with.  `dump` and `validate` are the
model's JSON, `isoformat` and `fromisoformat` a time's. -/
structure Account (R When : Type) where
  source : Text
  origin : Text
  hasPath : Bool
  view : View R
  dump : DriverModel R → Json
  validate : Json → Option (DriverModel R)
  isoformat : When → Text
  fromisoformat : Text → Option When

/-- The account's state, and what it reads: the file and the live settings. -/
structure State (R When : Type) where
  models : List (DriverModel R)
  byId : Dict Text (DriverModel R)
  refreshedAt : Option When
  error : Option Text
  file : Stored
  get : Text → Value

/-- `DriverCatalogue`. -/
structure Summary (When : Type) where
  source : Text
  total : Nat
  exposed : Nat
  «include» : List Text
  exclude : List Text
  refreshedAt : Option When
  refreshSeconds : Int
  error : Option Text

/-! ## Filters -/

/-- The patterns of a setting that is a list: the strings in it that are not empty. -/
def patternsOf (items : List Value) : List Text :=
  items.filterMap fun v => match v with
    | .str p => if p ≠ [] then some p else none
    | _ => none

namespace State

def «include» (s : State R When) : List Text :=
  match s.get "catalogueInclude".toList with
  | .seq items => patternsOf items
  | _ => ["*".toList]

def exclude (s : State R When) : List Text :=
  match s.get "catalogueExclude".toList with
  | .seq items => patternsOf items
  | _ => []

/-- `patterns()`. -/
def patterns (s : State R When) : List Text × List Text := (s.include, s.exclude)

/-- `DEFAULT_REFRESH_MINUTES`. -/
def defaultRefreshMinutes : Int := 60

/-- `refresh_seconds()`. -/
def refreshSeconds (s : State R When) : Int :=
  match s.get "catalogueRefreshMinutes".toList with
  | .int n => if 0 < n then 60 * n else 60 * defaultRefreshMinutes
  | _ => 60 * defaultRefreshMinutes

/-- Whether the patterns in force keep a model. -/
def keeps (s : State R When) (m : DriverModel R) : Bool :=
  exposedBy s.patterns.1 s.patterns.2 m.id

/-- `exposed()`. -/
def exposed (A : Account R When) (s : State R When) : List (DriverModel R) :=
  (s.models.filter s.keeps).map A.view.apply

/-- `find(model_id)`. -/
def find (A : Account R When) (s : State R When) (modelId : Text) : Option (DriverModel R) :=
  match s.byId.get? modelId with
  | none => none
  | some m => if s.keeps m then some (A.view.apply m) else none

/-- `summary()`. -/
def summary (A : Account R When) (s : State R When) : Summary When where
  source := A.source
  total := s.models.length
  exposed := s.models.countP s.keeps
  «include» := s.patterns.1
  exclude := s.patterns.2
  refreshedAt := s.refreshedAt
  refreshSeconds := s.refreshSeconds
  error := s.error

end State

/-! ## Reading -/

/-- The models of a listing by id, each as served, the first of an id kept. -/
def seen (models : List (DriverModel R)) : Dict Text (DriverModel R) :=
  models.foldl (fun d m => d.setdefault m.id m.served) .empty

/-- The list `_set` keeps: one model an id, in the order of the ids. -/
def sorted (models : List (DriverModel R)) : List (DriverModel R) :=
  (seen models).values.insertionSort fun a b => a.id ≤ b.id

/-- `{m.id: m for m in models}`. -/
def indexOf (models : List (DriverModel R)) : Dict Text (DriverModel R) :=
  .ofList (models.map fun m => (m.id, m))

/-- `_set(models, when)`. -/
def set (s : State R When) (models : List (DriverModel R)) (w : Option When) : State R When :=
  { s with models := sorted models, byId := indexOf (sorted models), refreshedAt := w }

/-- `raw.get("models") or []`, as the loop over it reads it; none where it cannot be looped over. -/
def listed (models : Json) : Option (List Json) :=
  if !models.truthy then some []
  else match models with
    | .arr items => some items
    | .str text => some (text.map fun c => .str [c])
    | .obj fields => some (fields.map fun f => .str f.1)
    | _ => none

/-- What a saved document holds for this account; none where it is another
backend's, or reading it raises. -/
def readSaved (A : Account R When) (raw : Json) : Option (List (DriverModel R) × Option When) :=
  match raw with
  | .obj o =>
      if (Obj.get o "origin").isStr A.origin then do
        let items ← listed (Obj.get o "models")
        let models ← items.mapM A.validate
        let w ← match Obj.get o "refreshedAt" with
          | .str text => (A.fromisoformat text).map some
          | _ => some none
        some (models, w)
      else none
  | _ => none

/-- What is at the path, as `_load` can take it. -/
def saved (A : Account R When) (s : State R When) : Option (List (DriverModel R) × Option When) :=
  if A.hasPath then
    match s.file with
    | .document raw => readSaved A raw
    | _ => none
  else none

/-- `_load()`: a damaged copy is a cache miss. -/
def load (A : Account R When) (s : State R When) : State R When :=
  match saved A s with
  | none => s
  | some (models, w) => set s models w

/-- The document `_save` writes. -/
def body (A : Account R When) (s : State R When) : Json :=
  .ofFields [("origin", .str A.origin), ("source", .str A.source),
    ("refreshedAt", match s.refreshedAt with
      | some w => .str (A.isoformat w)
      | none => .null),
    ("models", .arr (s.models.map A.dump))]

/-- `_save()`, where the file can be written or cannot. -/
def save (A : Account R When) (s : State R When) (writes : Bool) : State R When :=
  if A.hasPath && writes then { s with file := .document (body A s) } else s

/-- How a read of the list fails. -/
inductive Failure where
  /-- A `CatalogueError`, and its words. -/
  | catalogueError (words : Text)
  /-- An `httpx.HTTPError`, and its `repr`. -/
  | httpError (repr : Text)
  /-- Any other exception, and its words. -/
  | other (words : Text)
  /-- The refresh is cancelled while it waits, and says nothing. -/
  | cancelled

/-- What `error` is after a failure. -/
def Failure.error (was : Option Text) : Failure → Option Text
  | catalogueError words => some words
  | httpError repr => some ("could not reach the model list: ".toList ++ repr)
  | other words => some ("the model list could not be read: ".toList ++ words)
  | cancelled => was

/-- How a read of the list ends. -/
inductive Fetched (R : Type) where
  | list (models : List (DriverModel R))
  | failed (failure : Failure)

/-- `refresh()`, at the moment its read ends. -/
def refresh (A : Account R When) (s : State R When) (fetched : Fetched R) (now : When) (writes : Bool) :
    State R When :=
  match fetched with
  | .list models => save A { set s models (some now) with error := none } writes
  | .failed failure => { s with error := failure.error s.error }

/-- What happens to an account. -/
inductive Event (R When : Type) where
  | refresh (fetched : Fetched R) (now : When) (writes : Bool)
  | load
  /-- The file is written by someone else. -/
  | replaced (file : Stored)
  /-- The operator saves other settings. -/
  | filters (get : Text → Value)

def step (A : Account R When) (s : State R When) : Event R When → State R When
  | .refresh fetched now writes => refresh A s fetched now writes
  | .load => load A s
  | .replaced file => { s with file := file }
  | .filters get => { s with get := get }

/-- A new account, before it has read anything. -/
def blank (file : Stored) (get : Text → Value) : State R When :=
  ⟨[], .empty, none, none, file, get⟩

/-- `__init__`. -/
def init (A : Account R When) (file : Stored) (get : Text → Value) : State R When :=
  load A (blank file get)

/-- The state an account is in after some events. -/
def after (A : Account R When) (s : State R When) (es : List (Event R When)) : State R When :=
  es.foldl (step A) s

/-! ## The list that is kept -/

theorem get?_foldl_seen (models : List (DriverModel R)) (d : Dict Text (DriverModel R)) (id : Text) :
    (models.foldl (fun d m => d.setdefault m.id m.served) d).get? id =
      (d.get? id).or ((models.find? fun m => m.id = id).map DriverModel.served) := by
  induction models generalizing d with
  | nil => exact Option.or_none.symm
  | cons m models ih =>
      rw [List.foldl_cons, ih, Dict.get?_setdefault, Option.or_assoc]
      by_cases h : m.id = id
      · rw [List.find?_cons_of_pos (by simpa using h), if_pos h.symm]
        rfl
      · rw [List.find?_cons_of_neg (by simpa using h), if_neg (Ne.symm h)]
        rfl

/-- Of an id listed twice, the first. -/
theorem get?_seen (models : List (DriverModel R)) (id : Text) :
    (seen models).get? id = (models.find? fun m => m.id = id).map DriverModel.served := by
  rw [seen, get?_foldl_seen]
  rfl

theorem seen_id {models : List (DriverModel R)} {id : Text} {m : DriverModel R}
    (h : (seen models).get? id = some m) : m.id = id := by
  rw [get?_seen] at h
  obtain ⟨m', hm, rfl⟩ := Option.map_eq_some_iff.mp h
  simpa using List.find?_some hm

theorem mem_sorted {models : List (DriverModel R)} {m : DriverModel R} :
    m ∈ sorted models ↔ (seen models).get? m.id = some m := by
  rw [sorted, List.mem_insertionSort, Dict.mem_values_iff]
  constructor
  · rintro ⟨id, h⟩
    rw [seen_id h]
    exact h
  · intro h
    exact ⟨m.id, h⟩

/-- The values stand under their ids. -/
theorem map_id_values (models : List (DriverModel R)) :
    (seen models).values.map DriverModel.id = (seen models).keys := by
  rw [Dict.values, Dict.keys, List.map_map]
  refine List.map_congr_left fun e he => ?_
  exact seen_id (Dict.mem_iff.mp he)

theorem sorted_nodup (models : List (DriverModel R)) : ((sorted models).map DriverModel.id).Nodup := by
  have perm := (List.perm_insertionSort (fun a b : DriverModel R => a.id ≤ b.id) (seen models).values).map
    DriverModel.id
  refine perm.nodup_iff.mpr ?_
  rw [map_id_values]
  exact (seen models).nodup

theorem sorted_pairwise (models : List (DriverModel R)) :
    (sorted models).Pairwise fun a b => a.id < b.id := by
  have ordered : (sorted models).Pairwise fun a b => a.id ≤ b.id := by
    have total : Std.Total fun a b : DriverModel R => a.id ≤ b.id := ⟨fun a b => le_total a.id b.id⟩
    have trans : IsTrans (DriverModel R) fun a b => a.id ≤ b.id := ⟨fun _ _ _ => le_trans⟩
    exact List.pairwise_insertionSort _ _
  have distinct : (sorted models).Pairwise fun a b => a.id ≠ b.id :=
    List.pairwise_map.mp (sorted_nodup models)
  exact (ordered.and distinct).imp fun h => lt_of_le_of_ne h.1 h.2

/-- What is kept under an id is the first model listed with it. -/
theorem find?_sorted (models : List (DriverModel R)) (id : Text) :
    (sorted models).find? (fun m => m.id = id) =
      (models.find? fun m => m.id = id).map DriverModel.served := by
  rw [← get?_seen]
  cases h : (sorted models).find? fun m => m.id = id with
  | some m =>
      have hid : m.id = id := by simpa using List.find?_some h
      have hm := mem_sorted.mp (List.mem_of_find?_eq_some h)
      rw [hid] at hm
      exact hm.symm
  | none =>
      cases hs : (seen models).get? id with
      | none => rfl
      | some m =>
          have hid := seen_id hs
          have hm : m ∈ sorted models := mem_sorted.mpr (hid.symm ▸ hs)
          exact absurd (decide_eq_true hid) (List.find?_eq_none.mp h m hm)

theorem get?_indexOf (models : List (DriverModel R)) (nodup : (models.map DriverModel.id).Nodup)
    (id : Text) : (indexOf models).get? id = models.find? fun m => m.id = id := by
  have keys : ((models.map fun m => (m.id, m)).map (·.1)).Nodup := by
    rw [List.map_map]
    exact nodup
  rw [indexOf, Dict.get?_ofList keys, List.find?_map, Option.map_map]
  exact Option.map_id'

/-! ## What every state keeps -/

/-- The list in order with no id twice, the index in step with it, and no
surface an account does not serve. -/
structure Kept (s : State R When) : Prop where
  ordered : s.models.Pairwise fun a b => a.id < b.id
  index : ∀ id, s.byId.get? id = s.models.find? fun m => m.id = id
  served : ∀ m ∈ s.models, ∀ x ∈ notServedByAccounts, x ∉ m.surfaces

theorem kept_blank (file : Stored) (get : Text → Value) : Kept (blank file get : State R When) where
  ordered := List.Pairwise.nil
  index _ := rfl
  served _ h := by cases h

/-- A list that was set is kept, whatever was there before. -/
theorem kept_set (s : State R When) (models : List (DriverModel R)) (w : Option When) :
    Kept (set s models w) where
  ordered := sorted_pairwise models
  index := get?_indexOf _ (sorted_nodup models)
  served m hm := by
    have h := mem_sorted.mp hm
    rw [get?_seen] at h
    obtain ⟨m', -, rfl⟩ := Option.map_eq_some_iff.mp h
    exact m'.served_surfaces

/-- Only the list and its index matter. -/
theorem Kept.congr {s s' : State R When} (h : Kept s) (hm : s'.models = s.models)
    (hi : s'.byId = s.byId) : Kept s' where
  ordered := hm ▸ h.ordered
  index id := by rw [hm, hi]; exact h.index id
  served := hm ▸ h.served

@[simp] theorem save_models (A : Account R When) (s : State R When) (writes : Bool) :
    (save A s writes).models = s.models := by
  rw [save]; split <;> rfl

@[simp] theorem save_byId (A : Account R When) (s : State R When) (writes : Bool) :
    (save A s writes).byId = s.byId := by
  rw [save]; split <;> rfl

/-- The listing an event takes, if it takes one. -/
def Event.listing (A : Account R When) (s : State R When) : Event R When → Option (List (DriverModel R))
  | .refresh (.list models) _ _ => some models
  | .load => (saved A s).map (·.1)
  | _ => none

/-- An event takes a listing, or leaves the list and its index. -/
theorem step_cases (A : Account R When) (s : State R When) (e : Event R When) :
    (∃ models w, e.listing A s = some models ∧
        (step A s e).models = (set s models w).models ∧ (step A s e).byId = (set s models w).byId) ∨
      e.listing A s = none ∧ (step A s e).models = s.models ∧ (step A s e).byId = s.byId := by
  cases e with
  | refresh fetched now writes =>
      cases fetched with
      | list models => exact Or.inl ⟨models, some now, rfl, save_models A _ _, save_byId A _ _⟩
      | failed f => exact Or.inr ⟨rfl, rfl, rfl⟩
  | load =>
      cases h : saved A s with
      | none =>
          have hl : load A s = s := by rw [load, h]
          exact Or.inr ⟨by rw [Event.listing, h]; rfl, congrArg _ hl, congrArg _ hl⟩
      | some saved =>
          have hl : load A s = set s saved.1 saved.2 := by rw [load, h]
          exact Or.inl ⟨saved.1, saved.2, by rw [Event.listing, h]; rfl, congrArg _ hl, congrArg _ hl⟩
  | replaced file => exact Or.inr ⟨rfl, rfl, rfl⟩
  | filters get => exact Or.inr ⟨rfl, rfl, rfl⟩

theorem kept_step (A : Account R When) {s : State R When} (h : Kept s) (e : Event R When) :
    Kept (step A s e) := by
  rcases step_cases A s e with ⟨models, w, -, hm, hi⟩ | ⟨-, hm, hi⟩
  · exact (kept_set s models w).congr hm hi
  · exact h.congr hm hi

theorem kept_after (A : Account R When) {s : State R When} (h : Kept s) (es : List (Event R When)) :
    Kept (after A s es) := by
  induction es generalizing s with
  | nil => exact h
  | cons e es ih => exact ih (kept_step A h e)

/-! ## The last listing -/

/-- The listing last taken, along some events. -/
def lastListing (A : Account R When) :
    State R When → List (DriverModel R) → List (Event R When) → List (DriverModel R)
  | _, last, [] => last
  | s, last, e :: es => lastListing A (step A s e) ((e.listing A s).getD last) es

/-- The models kept are those of a listing, the first of an id. -/
def Lists (s : State R When) (listing : List (DriverModel R)) : Prop :=
  ∀ id, (s.models.find? fun m => m.id = id) =
    (listing.find? fun m => m.id = id).map DriverModel.served

theorem lists_step (A : Account R When) {s : State R When} {last : List (DriverModel R)}
    (h : Lists s last) (e : Event R When) : Lists (step A s e) ((e.listing A s).getD last) := by
  intro id
  rcases step_cases A s e with ⟨models, w, hl, hm, -⟩ | ⟨hl, hm, -⟩
  · rw [hl, hm]
    exact find?_sorted models id
  · rw [hl, hm]
    exact h id

theorem lists_after (A : Account R When) {s : State R When} {last : List (DriverModel R)}
    (h : Lists s last) (es : List (Event R When)) : Lists (after A s es) (lastListing A s last es) := by
  induction es generalizing s last with
  | nil => exact h
  | cons e es ih => exact ih (lists_step A h e)

/-! ## What is answered -/

/-- A look-up in a list filtered by the id it looks for. -/
theorem find?_filter_id (q : Text → Bool) (id : Text) (models : List (DriverModel R)) :
    ((models.filter fun m => q m.id).find? fun m => m.id = id) =
      if q id then models.find? fun m => m.id = id else none := by
  induction models with
  | nil => rw [List.filter_nil]; split <;> rfl
  | cons m models ih =>
      by_cases hid : m.id = id
      · rw [List.find?_cons_of_pos (by simpa using hid)]
        by_cases hq : q m.id = true
        · rw [List.filter_cons, if_pos hq, List.find?_cons_of_pos (by simpa using hid), if_pos (hid ▸ hq)]
        · rw [List.filter_cons, if_neg hq, ih, if_neg (hid ▸ hq), if_neg (hid ▸ hq)]
      · rw [List.find?_cons_of_neg (by simpa using hid), ← ih]
        by_cases hq : q m.id = true
        · rw [List.filter_cons, if_pos hq, List.find?_cons_of_neg (by simpa using hid)]
        · rw [List.filter_cons, if_neg hq]

/-- `find` is a look-up in what is exposed: whether a model is kept is a
matter of its id, and its view has the same. -/
theorem find_eq (A : Account R When) {s : State R When} (h : Kept s) (id : Text) :
    s.find A id = (s.exposed A).find? fun m => m.id = id := by
  have hview : (fun m => decide (m.id = id)) ∘ A.view.apply = fun m : DriverModel R => decide (m.id = id) := by
    funext m
    simp only [Function.comp_apply, A.view.apply_id]
  have hfilter := find?_filter_id (exposedBy s.patterns.1 s.patterns.2) id s.models
  rw [State.exposed, List.find?_map, hview]
  refine Eq.trans ?_ (congrArg (Option.map A.view.apply) hfilter.symm)
  rw [State.find, h.index]
  cases hf : s.models.find? fun m => m.id = id with
  | none =>
      rw [ite_self]
      rfl
  | some m =>
      have hid : m.id = id := by simpa using List.find?_some hf
      have hk : s.keeps m = exposedBy s.patterns.1 s.patterns.2 id := by rw [State.keeps, hid]
      simp only [hk]
      split <;> rfl

theorem find_isSome_iff (A : Account R When) {s : State R When} (h : Kept s) (id : Text) :
    (s.find A id).isSome ↔ ∃ m ∈ s.exposed A, m.id = id := by
  rw [find_eq A h, List.find?_isSome]
  simp only [decide_eq_true_eq]

theorem summary_exposed (A : Account R When) (s : State R When) :
    (s.summary A).exposed = (s.exposed A).length := by
  rw [State.exposed, List.length_map, ← List.countP_eq_length_filter]
  rfl

/-- In every state an account goes through: a model is found exactly when
one of that id is exposed; as many are counted as are exposed; the list is
in order with no id twice, and has for each id the first model of the
listing last taken; nothing in it serves a rerank; and a failed read leaves
the list, the index and the time of the last good one. -/
theorem catalogue_agrees (A : Account R When) (file : Stored) (get : Text → Value)
    (es : List (Event R When)) :
    let s := after A (init A file get) es
    (∀ id, (s.find A id).isSome ↔ ∃ m ∈ s.exposed A, m.id = id) ∧
      (s.summary A).exposed = (s.exposed A).length ∧
      (s.models.Pairwise fun a b => a.id < b.id) ∧
      Lists s (lastListing A (blank file get) [] (.load :: es)) ∧
      (∀ m ∈ s.models, "rerank".toList ∉ m.surfaces) ∧
      ∀ failure now writes, (refresh A s (.failed failure) now writes).models = s.models ∧
        (refresh A s (.failed failure) now writes).byId = s.byId ∧
        (refresh A s (.failed failure) now writes).refreshedAt = s.refreshedAt := by
  have kept : Kept (after A (init A file get) es) := kept_after A (kept_blank file get) (.load :: es)
  refine ⟨find_isSome_iff A kept, summary_exposed A _, kept.ordered, ?_, ?_, fun _ _ _ => ⟨rfl, rfl, rfl⟩⟩
  · exact lists_after A (s := blank file get) (fun _ => rfl) (.load :: es)
  · exact fun m hm => kept.served m hm _ (List.mem_singleton.mpr rfl)

end InferenceDriver.Catalogue

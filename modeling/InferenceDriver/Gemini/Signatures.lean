/-
# `Gemini.Signatures` — the calls a model made, by id

`SignatureCache`: what has to go back with a call and cannot travel with it
is kept under the call's id, for a day, the newest few thousand of them.
An entry can be lost, by its age or by the ones that came after; it is never
changed but by a call of the same id (`only_of_uses`).
-/
import InferenceDriver.Gemini.Wire
import InferenceDriver.Lib.Lts

namespace InferenceDriver.Gemini

structure SignatureCache where
  entries : Nat := 4096
  seconds : ℚ := 24 * 60 * 60
  /-- The calls, with the time they expire. -/
  items : Dict Text (ℚ × RememberedCall) := .empty

namespace SignatureCache

/-- `while len(items) > n: items.popitem(last=False)`. -/
def newest {V : Type} (n : Nat) (items : Dict Text V) : Dict Text V where
  items := items.items.drop (items.items.length - n)
  nodup := items.nodup.sublist ((List.drop_sublist _ _).map _)

/-- `remember`, at a time. -/
def remember (c : SignatureCache) (now : ℚ) (callId : Text) (call : RememberedCall) : SignatureCache :=
  let items := (c.items.erase callId).push callId (now + c.seconds, call) (c.items.mem_keys_erase callId)
  { c with items := newest c.entries items }

/-- `recall`, at a time. -/
def recallCall (c : SignatureCache) (now : ℚ) (callId : Text) : Option RememberedCall × SignatureCache :=
  match c.items.get? callId with
  | none => (none, c)
  | some (expires, call) =>
      if expires ≤ now then (none, { c with items := c.items.erase callId }) else (some call, c)

/-! ## What is there -/

theorem get?_newest {V : Type} {n : Nat} {items : Dict Text V} {id : Text} {v : V}
    (h : (newest n items).get? id = some v) : items.get? id = some v :=
  Dict.mem_iff.mp (List.mem_of_mem_drop (Dict.mem_iff.mpr h))

theorem get?_remember {c : SignatureCache} {now : ℚ} {id id' : Text} {call : RememberedCall}
    {e : ℚ × RememberedCall} (h : (c.remember now id call).items.get? id' = some e) :
    if id' = id then e = (now + c.seconds, call) else c.items.get? id' = some e := by
  have h := get?_newest h
  split
  · rename_i hid
    rw [hid, Dict.get?_push_self] at h
    exact (Option.some.inj h).symm
  · rename_i hid
    rwa [Dict.get?_push_ne _ _ _ hid, Dict.get?_erase_ne _ hid] at h

theorem get?_recall {c : SignatureCache} {now : ℚ} {id id' : Text} {e : ℚ × RememberedCall}
    (h : (c.recallCall now id).2.items.get? id' = some e) : c.items.get? id' = some e := by
  rw [recallCall] at h
  split at h
  · exact h
  · split at h
    · rcases eq_or_ne id' id with rfl | hid
      · rw [Dict.get?_erase_self] at h
        cases h
      · rwa [Dict.get?_erase_ne _ hid] at h
    · exact h

/-- What is recalled is held, and has not expired. -/
theorem recall_eq_some {c : SignatureCache} {now : ℚ} {id : Text} {call : RememberedCall} :
    (c.recallCall now id).1 = some call ↔ ∃ expires, c.items.get? id = some (expires, call) ∧ now < expires := by
  rw [recallCall]
  split
  · rename_i hget
    rw [hget]
    simp
  · rename_i expires call' hget
    rw [hget]
    split
    · rename_i hexpired
      constructor
      · intro h
        cases h
      · rintro ⟨expires', heq, hlt⟩
        cases heq
        exact absurd hexpired (not_le.mpr hlt)
    · rename_i hlt
      constructor
      · intro h
        cases h
        exact ⟨expires, rfl, not_le.mp hlt⟩
      · rintro ⟨expires', heq, -⟩
        cases heq
        rfl

/-- **The cache never holds more than its bound.** -/
theorem length_remember (c : SignatureCache) (now : ℚ) (id : Text) (call : RememberedCall) :
    (c.remember now id call).items.items.length ≤ c.entries := by
  show (List.drop _ _).length ≤ _
  rw [List.length_drop]
  omega

/-- A call that was just remembered is recalled until it expires. -/
theorem recall_remember {c : SignatureCache} (hroom : 0 < c.entries) {now now' : ℚ} {id : Text}
    {call : RememberedCall} (hnow : now' < now + c.seconds) :
    ((c.remember now id call).recallCall now' id).1 = some call := by
  have hget : (c.remember now id call).items.get? id = some (now + c.seconds, call) := by
    refine Dict.mem_iff.mp ?_
    show _ ∈ List.drop _ ((c.items.erase id).items ++ [(id, now + c.seconds, call)])
    rw [List.drop_append_of_le_length]
    · exact List.mem_append_right _ List.mem_cons_self
    · show List.length (_ ++ [_]) - _ ≤ _
      rw [List.length_append, List.length_singleton]
      omega
  rw [recallCall, hget]
  exact congrArg Prod.fst (if_neg (not_le.mpr hnow))

/-- Asking drops only what is of no more use, then or later. -/
theorem recall_recall (c : SignatureCache) {now now' : ℚ} (h : now ≤ now') (id id' : Text) :
    ((c.recallCall now id).2.recallCall now' id').1 = (c.recallCall now' id').1 := by
  ext call
  rw [recall_eq_some, recall_eq_some]
  refine exists_congr fun expires => and_congr_left fun hgood => ⟨get?_recall, fun hget => ?_⟩
  rw [recallCall]
  split
  · exact hget
  · rename_i expires' call' hget'
    split
    · rename_i hexpired
      rcases eq_or_ne id' id with rfl | hid
      · rw [hget] at hget'
        cases hget'
        exact absurd (hexpired.trans h) (not_le.mpr hgood)
      · exact (Dict.get?_erase_ne _ hid).trans hget
    · exact hget

/-! ## Uses -/

/-- What is done with the cache. -/
inductive Use where
  | remember (callId : Text) (call : RememberedCall)
  | lookUp (callId : Text)

/-- The cache as the conversations use it, each use at its time. -/
def uses : Lts.System SignatureCache (ℚ × Use) where
  init := fun c => c.items = .empty
  step c u :=
    match u.2 with
    | .remember callId call => some (c.remember u.1 callId call)
    | .lookUp callId => some (c.recallCall u.1 callId).2

/-- No call of these ids is remembered. -/
def Other (ids : List Text) (u : ℚ × Use) : Prop := ∀ id ∈ ids, ∀ call, u.2 ≠ .remember id call

/-- What is held under an id, if anything is, is this call. -/
def Only (id : Text) (call : RememberedCall) (c : SignatureCache) : Prop :=
  ∀ expires call', c.items.get? id = some (expires, call') → call' = call

theorem only_remember_self (c : SignatureCache) (now : ℚ) (id : Text) (call : RememberedCall) :
    Only id call (c.remember now id call) := by
  intro expires call' h
  have h := get?_remember h
  rw [if_pos rfl] at h
  exact congrArg Prod.snd h

theorem only_remember_ne {c : SignatureCache} {id id' : Text} {call : RememberedCall} (h : Only id call c)
    (hid : id ≠ id') (now : ℚ) (call' : RememberedCall) : Only id call (c.remember now id' call') := by
  intro expires call'' hget
  have hget := get?_remember hget
  rw [if_neg hid] at hget
  exact h expires call'' hget

theorem only_recall {c : SignatureCache} {id : Text} {call : RememberedCall} (h : Only id call c) (now : ℚ)
    (id' : Text) : Only id call (c.recallCall now id').2 :=
  fun expires call' hget => h expires call' (get?_recall hget)

/-- Whatever else the cache is used for, a call is not changed. -/
theorem only_of_uses {c c' : SignatureCache} {ids : List Text}
    (huses : Lts.Run (uses.at c) (fun _ u => Other ids u) c') {id : Text} (hid : id ∈ ids)
    {call : RememberedCall} (h : Only id call c) : Only id call c' := by
  refine huses.invariant (fun s hs => hs ▸ h) fun s u s' hs hother hstep => ?_
  obtain ⟨now, use⟩ := u
  cases use with
  | remember id' call' =>
      cases hstep
      refine only_remember_ne hs (fun he => ?_) now call'
      exact hother id hid call' (congrArg (Use.remember · call') he.symm)
  | lookUp id' =>
      cases hstep
      exact only_recall hs now id'

/-! ## The calls of an answer -/

/-- What `read_parts` remembers, the `n`-th call at `clock n`. -/
def rememberAll (c : SignatureCache) (clock : Nat → ℚ) : List (Text × RememberedCall) → SignatureCache
  | [] => c
  | (callId, call) :: rest => rememberAll (c.remember (clock 0) callId call) (fun n => clock (n + 1)) rest

theorem only_rememberAll_other {id : Text} {call : RememberedCall} (calls : List (Text × RememberedCall))
    (clock : Nat → ℚ) {c : SignatureCache} (hid : id ∉ calls.map Prod.fst) (h : Only id call c) :
    Only id call (c.rememberAll clock calls) := by
  induction calls generalizing c clock with
  | nil => exact h
  | cons made rest ih =>
      rw [List.map_cons, List.mem_cons, not_or] at hid
      exact ih _ hid.2 (only_remember_ne h hid.1 _ _)

/-- The calls of an answer, of different ids, are what is held under them. -/
theorem only_rememberAll {calls : List (Text × RememberedCall)} (hnodup : (calls.map Prod.fst).Nodup)
    (clock : Nat → ℚ) (c : SignatureCache) {id : Text} {call : RememberedCall} (hmem : (id, call) ∈ calls) :
    Only id call (c.rememberAll clock calls) := by
  induction calls generalizing c clock with
  | nil => cases hmem
  | cons made rest ih =>
      rw [List.map_cons, List.nodup_cons] at hnodup
      rcases List.mem_cons.mp hmem with rfl | hmem
      · exact only_rememberAll_other rest _ hnodup.1 (only_remember_self c _ _ _)
      · exact ih hnodup.2 _ _ hmem

/-! ## Held -/

/-- A call is held under this id, until after the clock was last read. -/
def Held (clock : Nat → ℚ) (id : Text) (call : RememberedCall) (c : SignatureCache) : Prop :=
  ∃ expires, c.items.get? id = some (expires, call) ∧ ∀ n, clock n < expires

theorem recall_held {clock : Nat → ℚ} {id : Text} {call : RememberedCall} {c : SignatureCache}
    (h : Held clock id call c) (n : Nat) : c.recallCall (clock n) id = (some call, c) := by
  obtain ⟨expires, hget, hclock⟩ := h
  rw [recallCall, hget]
  exact if_neg (not_le.mpr (hclock n))

/-- Recalling a call, or another, loses none that is held. -/
theorem held_recall {clock : Nat → ℚ} {id : Text} {call : RememberedCall} {c : SignatureCache}
    (h : Held clock id call c) (n : Nat) (id' : Text) : Held clock id call (c.recallCall (clock n) id').2 := by
  rcases eq_or_ne id' id with rfl | hid
  · rw [recall_held h n]
    exact h
  · obtain ⟨expires, hget, hclock⟩ := h
    refine ⟨expires, ?_, hclock⟩
    rw [recallCall]
    split
    · exact hget
    · split
      · exact (Dict.get?_erase_ne _ hid.symm).trans hget
      · exact hget

end SignatureCache

end InferenceDriver.Gemini

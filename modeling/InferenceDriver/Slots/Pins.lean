/-
# `Slots.Pins` — one conversation a slot, and never a busy one

`slots.py` keeps a map from conversations to the slots of one engine.  A
request asks `_choose` for a slot; when it may have none it waits on an
event that the next release sets, and asks again.

The event loop runs one request at a time and only changes request at an
`await`, so an execution is a sequence of four kinds of atomic step: a
request ARRIVES and asks, a woken request RESUMES and asks again, a holder
RELEASES its slot, a request is CANCELLED where it stands.  `pins_safe` is
what holds in every state of every such sequence, for any number of
requests: the busy slots are the held ones and are held once, no slot has
two owners, and a request that waits for a wake-up is one that could have
nothing now.

The fact under all of it is `choose_spec`: what `_choose` does to the
owners, whichever of its branches it takes, is to pass the one slot on.
-/
import Mathlib.Data.Finset.Erase
import Mathlib.Data.Finset.Insert
import Mathlib.Data.List.MinMax
import InferenceDriver.Lib.Lts
import InferenceDriver.Py.Dict

namespace InferenceDriver.Slots

variable {Key : Type} [DecidableEq Key]

/-- An `asyncio.Event`, by its identity. -/
abbrev Event := Nat

/-- `SlotPins`. -/
structure SlotPins (Key : Type) where
  total : Nat
  total_pos : 0 < total
  owners : Dict Key Nat
  busy : Finset Nat
  freed : Option Event

namespace SlotPins

/-- `SlotPins(total)`. -/
def new (total : Nat) : Except String (SlotPins Key) :=
  if h : total < 1 then .error "a pinned engine needs at least one slot"
  else .ok { total, total_pos := Nat.not_lt.mp h, owners := .empty, busy := ∅, freed := none }

def idle (p : SlotPins Key) : List Nat := (List.range p.total).filter fun slot => slot ∉ p.busy

/-- `owned.get(slot)`, in the inverted map: a later conversation overwrites
an earlier one. -/
def ownerOf (p : SlotPins Key) (slot : Nat) : Option Key :=
  (p.owners.items.reverse.find? fun e => e.2 = slot).map (·.1)

/-- `order.index(owned[slot])`, of a slot that is owned. -/
def age (p : SlotPins Key) (slot : Nat) : Nat :=
  (p.ownerOf slot).elim 0 fun owner => p.owners.keys.idxOf owner

/-- `if key is not None: self._owners[key] = slot`. -/
def claim (owners : Dict Key Nat) (key : Option Key) (slot : Nat) : Dict Key Nat :=
  match key with
  | none => owners
  | some k => owners.set k slot

/-- `_choose` for a request that owns no slot. -/
def place (p : SlotPins Key) (key : Option Key) : Option (Nat × Dict Key Nat) :=
  if p.idle = [] then none
  else
    match p.idle.filter fun slot => (p.ownerOf slot).isNone with
    | slot :: _ => some (slot, claim p.owners key slot)
    | [] =>
        -- Every idle slot is owned: the owner used least recently loses it.
        match p.idle.argmin p.age with
        | none => none
        | some slot =>
            some (slot, claim ((p.ownerOf slot).elim p.owners p.owners.erase) key slot)

/-- `_choose`: the slot this request may have now and the owners then, or
none, and it waits. -/
def choose (p : SlotPins Key) (key : Option Key) : Option (Nat × Dict Key Nat) :=
  match key with
  | none => p.place none
  | some k =>
      match p.owners.get? k with
      | none => p.place (some k)
      | some slot => if slot ∈ p.busy then none else some (slot, p.owners.moveToEnd k)

/-! ## What `_choose` does -/

/-- The owners hold slots of the engine, each its own. -/
structure Owned (p : SlotPins Key) : Prop where
  lt : ∀ k slot, p.owners.get? k = some slot → slot < p.total
  inj : ∀ k k' slot, p.owners.get? k = some slot → p.owners.get? k' = some slot → k = k'

omit [DecidableEq Key] in
theorem mem_idle {p : SlotPins Key} {slot : Nat} :
    slot ∈ p.idle ↔ slot < p.total ∧ slot ∉ p.busy := by
  simp [idle]

theorem ownerOf_eq_some {p : SlotPins Key} {slot : Nat} {k : Key} (h : p.ownerOf slot = some k) :
    p.owners.get? k = some slot := by
  obtain ⟨⟨k', s'⟩, he, rfl⟩ := Option.map_eq_some_iff.mp h
  have hs : s' = slot := by simpa using List.find?_some he
  exact Dict.mem_iff.mp (List.mem_reverse.mp (hs ▸ List.mem_of_find?_eq_some he))

theorem ownerOf_eq_none {p : SlotPins Key} {slot : Nat} (h : p.ownerOf slot = none) (k : Key) :
    p.owners.get? k ≠ some slot := by
  intro hk
  have hn := List.find?_eq_none.mp (Option.map_eq_none_iff.mp h) (k, slot)
    (List.mem_reverse.mpr (Dict.mem_iff.mpr hk))
  simp at hn

/-- What a request that owns no slot is given: an idle slot, and the owner
it had, if any, loses it. -/
theorem place_eq_some {p : SlotPins Key} {key : Option Key} {slot : Nat} {owners : Dict Key Nat}
    (w : p.Owned) (h : p.place key = some (slot, owners)) :
    slot ∈ p.idle ∧ ∃ o : Dict Key Nat, owners = claim o key slot ∧
      ∀ k s, o.get? k = some s ↔ p.owners.get? k = some s ∧ s ≠ slot := by
  unfold place at h
  split at h
  · cases h
  · split at h
    · rename_i hu
      cases h
      have hm := hu ▸ List.mem_cons_self
      obtain ⟨hi, ho⟩ := List.mem_filter.mp hm
      have hno := ownerOf_eq_none (Option.isNone_iff_eq_none.mp ho)
      exact ⟨hi, p.owners, rfl, fun k s => ⟨fun hk => ⟨hk, fun e => hno k (e ▸ hk)⟩, fun hk => hk.1⟩⟩
    · rename_i hu
      split at h
      · cases h
      · rename_i slot' ha
        cases h
        have hi : slot ∈ p.idle := List.argmin_mem ha
        refine ⟨hi, _, rfl, fun k s => ?_⟩
        cases ho : p.ownerOf slot with
        | none =>
            have : slot ∈ p.idle.filter fun slot => (p.ownerOf slot).isNone :=
              List.mem_filter.mpr ⟨hi, by rw [ho]; rfl⟩
            rw [hu] at this
            cases this
        | some v =>
            have hv := ownerOf_eq_some ho
            show (p.owners.erase v).get? k = some s ↔ _
            by_cases hk : k = v
            · subst hk
              rw [Dict.get?_erase_self, hv]
              constructor
              · rintro ⟨⟩
              · rintro ⟨he, hne⟩; exact absurd (Option.some.inj he).symm hne
            · rw [Dict.get?_erase_ne _ hk]
              exact ⟨fun he => ⟨he, fun e => hk (w.inj k v slot (e ▸ he) hv)⟩, fun he => he.1⟩

/-- **The slot passes to the request's conversation, and no other slot
changes its owner.** -/
theorem choose_spec {p : SlotPins Key} {key : Option Key} {slot : Nat} {owners : Dict Key Nat}
    (w : p.Owned) (h : p.choose key = some (slot, owners)) :
    slot ∈ p.idle ∧
      ∀ k s, owners.get? k = some s ↔
        (p.owners.get? k = some s ∧ s ≠ slot) ∨ (key = some k ∧ s = slot) := by
  cases key with
  | none =>
      obtain ⟨hi, o, rfl, ho⟩ := place_eq_some w h
      refine ⟨hi, fun k s => ?_⟩
      simp [ho]
  | some k₀ =>
      simp only [choose] at h
      split at h
      · rename_i hn
        obtain ⟨hi, o, rfl, ho⟩ := place_eq_some w h
        refine ⟨hi, fun k s => ?_⟩
        simp only [claim, Option.some.injEq]
        by_cases hk : k = k₀
        · subst hk
          rw [Dict.get?_set_self, hn]
          simp [eq_comm]
        · rw [Dict.get?_set_ne _ _ hk, ho]
          simp [Ne.symm hk]
      · rename_i slot' hs
        split at h
        · cases h
        · rename_i hb
          cases h
          refine ⟨mem_idle.mpr ⟨w.lt _ _ hs, hb⟩, fun k s => ?_⟩
          rw [Dict.get?_moveToEnd]
          constructor
          · intro hk
            by_cases he : s = slot
            · subst he
              exact Or.inr ⟨by rw [w.inj k k₀ s hk hs], rfl⟩
            · exact Or.inl ⟨hk, he⟩
          · rintro (⟨hk, -⟩ | ⟨hk, rfl⟩)
            · exact hk
            · cases hk; exact hs

/-- A request gets nothing when its own slot is busy, or when it has none
and no slot is idle. -/
theorem choose_eq_none {p : SlotPins Key} {key : Option Key} :
    p.choose key = none ↔
      (∃ k slot, key = some k ∧ p.owners.get? k = some slot ∧ slot ∈ p.busy) ∨
        ((∀ k, key = some k → p.owners.get? k = none) ∧ p.idle = []) := by
  have hplace : ∀ key : Option Key, p.place key = none ↔ p.idle = [] := by
    intro key
    unfold place
    constructor
    · intro h
      split at h
      · assumption
      · split at h
        · cases h
        · split at h
          · rename_i ha; exact List.argmin_eq_none.mp ha
          · cases h
    · intro h; rw [if_pos h]
  cases key with
  | none =>
      rw [choose, hplace]
      simp
  | some k =>
      simp only [choose]
      split
      · rename_i hn
        rw [hplace]
        simp [hn]
      · rename_i slot hs
        split
        · rename_i hb
          exact ⟨fun _ => Or.inl ⟨k, slot, rfl, hs, hb⟩, fun _ => rfl⟩
        · rename_i hb
          constructor
          · rintro ⟨⟩
          · rintro (⟨k', slot', hk, hs', hb'⟩ | ⟨hn, -⟩)
            · cases hk
              rw [hs] at hs'
              cases hs'
              exact absurd hb' hb
            · rw [hn k rfl] at hs
              cases hs

/-- The map after a request is given what `_choose` found. -/
def grant (p : SlotPins Key) (slot : Nat) (owners : Dict Key Nat) : SlotPins Key :=
  { p with owners, busy := insert slot p.busy }

theorem Owned.grant {p : SlotPins Key} {key : Option Key} {slot : Nat} {owners : Dict Key Nat}
    (w : p.Owned) (h : p.choose key = some (slot, owners)) : (p.grant slot owners).Owned := by
  obtain ⟨hi, ho⟩ := choose_spec w h
  have hlt := (mem_idle.mp hi).1
  refine ⟨fun k s hk => ?_, fun k k' s hk hk' => ?_⟩
  · rcases (ho k s).mp hk with ⟨hk, -⟩ | ⟨-, rfl⟩
    · exact w.lt k s hk
    · exact hlt
  · rcases (ho k s).mp hk with ⟨h₁, hne⟩ | ⟨h₁, rfl⟩
    · rcases (ho k' s).mp hk' with ⟨h₂, -⟩ | ⟨-, he⟩
      · exact w.inj k k' s h₁ h₂
      · exact absurd he hne
    · rcases (ho k' _).mp hk' with ⟨-, hne⟩ | ⟨h₂, -⟩
      · exact absurd rfl hne
      · exact Option.some.inj (h₁.symm.trans h₂)

/-- Who could have nothing can have nothing after a grant either. -/
theorem choose_none_grant {p : SlotPins Key} {key key' : Option Key} {slot : Nat}
    {owners : Dict Key Nat} (w : p.Owned) (h : p.choose key = some (slot, owners))
    (hn : p.choose key' = none) : (p.grant slot owners).choose key' = none := by
  obtain ⟨hi, ho⟩ := choose_spec w h
  rcases choose_eq_none.mp hn with ⟨k, s, hk, hs, hb⟩ | ⟨-, hidle⟩
  · have hne : s ≠ slot := fun e => (mem_idle.mp hi).2 (e ▸ hb)
    exact choose_eq_none.mpr
      (Or.inl ⟨k, s, hk, (ho k s).mpr (Or.inl ⟨hs, hne⟩), Finset.mem_insert_of_mem hb⟩)
  · rw [hidle] at hi
    cases hi

end SlotPins

/-! ## The requests -/

/-- Where a request is in `hold`. -/
inductive Phase (Key : Type) where
  /-- Not in `hold`: not yet, or no longer. -/
  | out
  /-- At `await self._freed.wait()`. -/
  | waiting (key : Option Key) (event : Event)
  /-- At the `yield`. -/
  | holding (slot : Nat)

variable {Req : Type}

structure State (Key Req : Type) where
  pins : SlotPins Key
  reqs : Req → Phase Key
  /-- The events that are set. -/
  fired : Finset Event
  /-- The next event to be made. -/
  fresh : Event

namespace State

variable [DecidableEq Req] (s : State Key Req)

/-- The loop of `hold`, up to the next `await` or the `yield`. -/
def ask (r : Req) (key : Option Key) : State Key Req :=
  match s.pins.choose key with
  | some (slot, owners) =>
      { s with pins := s.pins.grant slot owners, reqs := Function.update s.reqs r (.holding slot) }
  | none =>
      match s.pins.freed with
      | some e => { s with reqs := Function.update s.reqs r (.waiting key e) }
      | none =>
          { s with
            pins := { s.pins with freed := some s.fresh }
            reqs := Function.update s.reqs r (.waiting key s.fresh)
            fresh := s.fresh + 1 }

/-- The `finally` of `hold`. -/
def free (r : Req) (slot : Nat) : State Key Req :=
  { s with
    pins := { s.pins with busy := s.pins.busy.erase slot, freed := none }
    reqs := Function.update s.reqs r .out
    fired := s.pins.freed.elim s.fired fun e => insert e s.fired }

end State

inductive Act (Key Req : Type) where
  | arrive (r : Req) (key : Option Key)
  | resume (r : Req)
  | release (r : Req)
  | cancel (r : Req)

/-- The request that moves. -/
def Act.req : Act Key Req → Req
  | .arrive r _ => r
  | .resume r => r
  | .release r => r
  | .cancel r => r

/-- One atomic step of the event loop. -/
def step [DecidableEq Req] (s : State Key Req) : Act Key Req → Option (State Key Req)
  | .arrive r key =>
      match s.reqs r with
      | .out => some (s.ask r key)
      | _ => none
  | .resume r =>
      match s.reqs r with
      | .waiting key e => if e ∈ s.fired then some (s.ask r key) else none
      | _ => none
  | .release r =>
      match s.reqs r with
      | .holding slot => some (s.free r slot)
      | _ => none
  | .cancel r =>
      match s.reqs r with
      | .waiting _ _ => some { s with reqs := Function.update s.reqs r .out }
      -- The cancellation is thrown in at the `yield`: the `finally` runs.
      | .holding slot => some (s.free r slot)
      | .out => none

/-- Nobody in `hold` yet. -/
def State.start (pins : SlotPins Key) : State Key Req :=
  { pins, reqs := fun _ => .out, fired := ∅, fresh := 0 }

/-- The requests of one engine with `total` slots. -/
def system (Key Req : Type) [DecidableEq Key] [DecidableEq Req] (total : Nat) :
    Lts.System (State Key Req) (Act Key Req) where
  init s := ∃ pins, SlotPins.new total = .ok pins ∧ s = State.start pins
  step := step

/-! ## What a step does to the requests -/

/-- Where something is after another, or it itself, has moved. -/
theorem update_eq {A B : Type} [DecidableEq A] {f : A → B} {a a' : A} {x y : B}
    (h : Function.update f a x a' = y) : (a' = a ∧ x = y) ∨ (a' ≠ a ∧ f a' = y) := by
  by_cases ha : a' = a
  · subst ha
    rw [Function.update_self] at h
    exact Or.inl ⟨rfl, h⟩
  · rw [Function.update_of_ne ha] at h
    exact Or.inr ⟨ha, h⟩

section Frame
variable [DecidableEq Req] {s s' : State Key Req}

/-- Asking ends in a slot or in a wait. -/
theorem ask_self (s : State Key Req) (r : Req) (key : Option Key) :
    (∃ slot, (s.ask r key).reqs r = .holding slot) ∨
      ∃ key' e, (s.ask r key).reqs r = .waiting key' e := by
  unfold State.ask
  split
  · exact Or.inl ⟨_, Function.update_self _ _ _⟩
  · split
    · exact Or.inr ⟨_, _, Function.update_self _ _ _⟩
    · exact Or.inr ⟨_, _, Function.update_self _ _ _⟩

theorem ask_other {r r' : Req} (h : r' ≠ r) (key : Option Key) :
    (s.ask r key).reqs r' = s.reqs r' := by
  unfold State.ask
  split
  · exact Function.update_of_ne h _ _
  · split
    · exact Function.update_of_ne h _ _
    · exact Function.update_of_ne h _ _

/-- A step moves one request. -/
theorem step_other {a : Act Key Req} (h : step s a = some s') {r : Req} (hr : r ≠ a.req) :
    s'.reqs r = s.reqs r := by
  cases a with
  | arrive r₀ key =>
      simp only [step] at h
      split at h
      · cases h; exact ask_other hr key
      · cases h
  | resume r₀ =>
      simp only [step] at h
      split at h
      · split at h
        · cases h; exact ask_other hr _
        · cases h
      · cases h
  | release r₀ =>
      simp only [step] at h
      split at h
      · cases h; exact Function.update_of_ne hr _ _
      · cases h
  | cancel r₀ =>
      simp only [step] at h
      split at h
      · cases h; exact Function.update_of_ne hr _ _
      · cases h; exact Function.update_of_ne hr _ _
      · cases h

/-- Where the request is that has asked. -/
theorem step_arrive {r : Req} {key : Option Key} (h : step s (.arrive r key) = some s') :
    (∃ slot, s'.reqs r = .holding slot) ∨ ∃ key' e, s'.reqs r = .waiting key' e := by
  simp only [step] at h
  split at h
  · cases h; exact ask_self s r key
  · cases h

theorem step_resume {r : Req} (h : step s (.resume r) = some s') :
    (∃ slot, s'.reqs r = .holding slot) ∨ ∃ key' e, s'.reqs r = .waiting key' e := by
  simp only [step] at h
  split at h
  · split at h
    · cases h; exact ask_self s r _
    · cases h
  · cases h

/-- Where the request is that has left. -/
theorem step_release {r : Req} (h : step s (.release r) = some s') : s'.reqs r = .out := by
  simp only [step] at h
  split at h
  · cases h; exact Function.update_self _ _ _
  · cases h

theorem step_cancel {r : Req} (h : step s (.cancel r) = some s') : s'.reqs r = .out := by
  simp only [step] at h
  split at h
  · cases h; exact Function.update_self _ _ _
  · cases h; exact Function.update_self _ _ _
  · cases h

end Frame

/-! ## The invariant -/

structure Inv (n : Nat) (s : State Key Req) : Prop where
  total : s.pins.total = n
  owned : s.pins.Owned
  busy : ∀ slot, slot ∈ s.pins.busy ↔ ∃ r, s.reqs r = .holding slot
  once : ∀ r r' slot, s.reqs r = .holding slot → s.reqs r' = .holding slot → r = r'
  held : ∀ r slot, s.reqs r = .holding slot → slot < n
  fired : ∀ e ∈ s.fired, e < s.fresh
  freed : ∀ e, s.pins.freed = some e → e ∉ s.fired ∧ e < s.fresh
  waiting : ∀ r key e, s.reqs r = .waiting key e → e ∉ s.fired →
    s.pins.freed = some e ∧ s.pins.choose key = none

theorem inv_start {total : Nat} {pins : SlotPins Key} (h : SlotPins.new total = .ok pins) :
    Inv total (State.start pins : State Key Req) := by
  unfold SlotPins.new at h
  split at h
  · cases h
  · cases h
    refine ⟨rfl, ⟨?_, ?_⟩, ?_, ?_, ?_, ?_, ?_, ?_⟩
    · intro k slot hk; cases hk
    · intro k k' slot hk; cases hk
    · intro slot
      exact ⟨fun hm => absurd hm (Finset.notMem_empty slot), fun ⟨r, hr⟩ => (by cases hr)⟩
    · intro r r' slot hr; cases hr
    · intro r slot hr; cases hr
    · intro e he; exact absurd he (Finset.notMem_empty e)
    · intro e he; cases he
    · intro r key e hr; cases hr

section Steps
variable [DecidableEq Req] {total : Nat} {s : State Key Req}

/-- A request that is given a slot. -/
theorem Inv.grant (hi : Inv total s) {r : Req} (hr : ∀ slot, s.reqs r ≠ .holding slot)
    {key : Option Key} {slot : Nat} {owners : Dict Key Nat}
    (hc : s.pins.choose key = some (slot, owners)) :
    Inv total { s with
      pins := s.pins.grant slot owners
      reqs := Function.update s.reqs r (.holding slot) } := by
  obtain ⟨hidle, -⟩ := SlotPins.choose_spec hi.owned hc
  obtain ⟨hlt, hfree⟩ := SlotPins.mem_idle.mp hidle
  have hnone : ∀ r', s.reqs r' ≠ .holding slot := fun r' h => hfree ((hi.busy slot).mpr ⟨r', h⟩)
  refine ⟨hi.total, hi.owned.grant hc, ?busy, ?once, ?held, hi.fired, hi.freed, ?waiting⟩
  case busy =>
    intro slot'
    rw [SlotPins.grant, Finset.mem_insert, hi.busy]
    constructor
    · rintro (rfl | ⟨r', h⟩)
      · exact ⟨r, Function.update_self r _ _⟩
      · have hne : r' ≠ r := fun e => hr slot' (e ▸ h)
        exact ⟨r', (Function.update_of_ne hne _ _).trans h⟩
    · rintro ⟨r', h⟩
      rcases update_eq h with ⟨-, h⟩ | ⟨-, h⟩
      · cases h; exact Or.inl rfl
      · exact Or.inr ⟨r', h⟩
  case once =>
    intro r₁ r₂ slot' h₁ h₂
    rcases update_eq h₁ with ⟨rfl, e₁⟩ | ⟨-, old₁⟩
    · rcases update_eq h₂ with ⟨rfl, -⟩ | ⟨-, old₂⟩
      · rfl
      · cases e₁; exact absurd old₂ (hnone r₂)
    · rcases update_eq h₂ with ⟨rfl, e₂⟩ | ⟨-, old₂⟩
      · cases e₂; exact absurd old₁ (hnone r₁)
      · exact hi.once r₁ r₂ slot' old₁ old₂
  case held =>
    intro r' slot' h
    rcases update_eq h with ⟨-, e⟩ | ⟨-, h⟩
    · cases e; exact hi.total ▸ hlt
    · exact hi.held r' slot' h
  case waiting =>
    intro r' key' e h he
    rcases update_eq h with ⟨-, h⟩ | ⟨-, h⟩
    · cases h
    · obtain ⟨hf, hn⟩ := hi.waiting r' key' e h he
      exact ⟨hf, SlotPins.choose_none_grant hi.owned hc hn⟩

/-- A request that has to wait, on an event that is not set. -/
theorem Inv.wait (hi : Inv total s) {r : Req} (hr : ∀ slot, s.reqs r ≠ .holding slot)
    {key : Option Key} (hc : s.pins.choose key = none) {e : Event} {fresh : Event}
    (hle : s.fresh ≤ fresh) (he : e ∉ s.fired ∧ e < fresh)
    (hf : ∀ e', s.pins.freed = some e' → e' = e) :
    Inv total { s with
      pins := { s.pins with freed := some e }
      reqs := Function.update s.reqs r (.waiting key e)
      fresh := fresh } := by
  have hold : ∀ r' slot, Function.update s.reqs r (.waiting key e) r' = .holding slot →
      s.reqs r' = .holding slot := by
    intro r' slot h
    rcases update_eq h with ⟨-, h⟩ | ⟨-, h⟩
    · cases h
    · exact h
  refine ⟨hi.total, ⟨hi.owned.lt, hi.owned.inj⟩, ?busy, ?once,
    fun r' slot h => hi.held r' slot (hold r' slot h), ?fired, ?freed, ?waiting⟩
  case busy =>
    intro slot
    show slot ∈ s.pins.busy ↔ _
    rw [hi.busy]
    constructor
    · rintro ⟨r', h⟩
      have hne : r' ≠ r := fun e => hr slot (e ▸ h)
      exact ⟨r', (Function.update_of_ne hne _ _).trans h⟩
    · rintro ⟨r', h⟩
      exact ⟨r', hold r' slot h⟩
  case once =>
    intro r₁ r₂ slot h₁ h₂
    exact hi.once r₁ r₂ slot (hold r₁ slot h₁) (hold r₂ slot h₂)
  case fired =>
    intro e' he'
    exact Nat.lt_of_lt_of_le (hi.fired e' he') hle
  case freed =>
    intro e' he'
    cases he'
    exact he
  case waiting =>
    intro r' key' e' h he'
    rcases update_eq h with ⟨-, h⟩ | ⟨-, h⟩
    · cases h
      exact ⟨rfl, hc⟩
    · obtain ⟨hf', hn⟩ := hi.waiting r' key' e' h he'
      exact ⟨congrArg some (hf e' hf').symm, hn⟩

/-- A request that is not holding may ask. -/
theorem Inv.ask (hi : Inv total s) {r : Req} (hr : ∀ slot, s.reqs r ≠ .holding slot)
    (key : Option Key) : Inv total (s.ask r key) := by
  unfold State.ask
  split
  · rename_i slot owners hc
    exact hi.grant hr hc
  · rename_i hc
    split
    · rename_i e hf
      have := hi.wait hr hc (e := e) (Nat.le_refl s.fresh) (hi.freed e hf)
        fun e' h => Option.some.inj (h.symm.trans hf)
      rwa [← hf] at this
    · rename_i hf
      exact hi.wait hr hc (Nat.le_succ s.fresh)
        ⟨fun h => Nat.lt_irrefl _ (hi.fired _ h), Nat.lt_succ_self _⟩
        fun e' h => by cases hf.symm.trans h

/-- A holder leaves: its slot is idle, and whoever waits is woken. -/
theorem Inv.free (hi : Inv total s) {r : Req} {slot : Nat} (hr : s.reqs r = .holding slot) :
    Inv total (s.free r slot) := by
  have hfired : ∀ e, e ∈ (s.free r slot).fired ↔ s.pins.freed = some e ∨ e ∈ s.fired := by
    intro e
    unfold State.free
    cases s.pins.freed with
    | none => simp
    | some e' => simp [eq_comm]
  have hold : ∀ r' slot', (s.free r slot).reqs r' = .holding slot' →
      r' ≠ r ∧ s.reqs r' = .holding slot' := by
    intro r' slot' h
    rcases update_eq h with ⟨-, h⟩ | h
    · cases h
    · exact h
  refine ⟨hi.total, ⟨hi.owned.lt, hi.owned.inj⟩, ?busy, ?once, ?held, ?fired, ?freed, ?waiting⟩
  case busy =>
    intro slot'
    show slot' ∈ s.pins.busy.erase slot ↔ _
    rw [Finset.mem_erase, hi.busy]
    constructor
    · rintro ⟨hne, r', h⟩
      have hr' : r' ≠ r := by
        rintro rfl
        rw [hr] at h
        cases h
        exact hne rfl
      exact ⟨r', (Function.update_of_ne hr' _ _).trans h⟩
    · rintro ⟨r', h⟩
      obtain ⟨hne, h'⟩ := hold r' slot' h
      exact ⟨fun e => hne (hi.once r' r slot' h' (e ▸ hr)), r', h'⟩
  case once =>
    intro r₁ r₂ slot' h₁ h₂
    exact hi.once r₁ r₂ slot' (hold r₁ slot' h₁).2 (hold r₂ slot' h₂).2
  case held =>
    intro r' slot' h
    exact hi.held r' slot' (hold r' slot' h).2
  case fired =>
    intro e he
    rcases (hfired e).mp he with h | h
    · exact (hi.freed e h).2
    · exact hi.fired e h
  case freed =>
    intro e he
    cases he
  case waiting =>
    -- A waiter on an event that is not set waits on the current one, and
    -- that one has just been set.
    intro r' key e h he
    rw [hfired, not_or] at he
    rcases update_eq h with ⟨-, h⟩ | ⟨-, h⟩
    · cases h
    · exact absurd (hi.waiting r' key e h he.2).1 he.1

/-- A waiter that is cancelled takes nothing with it. -/
theorem Inv.drop (hi : Inv total s) {r : Req} {key : Option Key} {e : Event}
    (hr : s.reqs r = .waiting key e) : Inv total { s with reqs := Function.update s.reqs r .out } := by
  have old : ∀ r' x, Function.update s.reqs r .out r' = x → x ≠ .out → s.reqs r' = x := by
    intro r' x h hx
    rcases update_eq h with ⟨-, h⟩ | ⟨-, h⟩
    · exact absurd h.symm hx
    · exact h
  refine ⟨hi.total, hi.owned, ?busy, ?once, ?held, hi.fired, hi.freed, ?waiting⟩
  case busy =>
    intro slot
    show slot ∈ s.pins.busy ↔ _
    rw [hi.busy]
    constructor
    · rintro ⟨r', h⟩
      have hne : r' ≠ r := by rintro rfl; rw [hr] at h; cases h
      exact ⟨r', (Function.update_of_ne hne _ _).trans h⟩
    · rintro ⟨r', h⟩
      exact ⟨r', old r' _ h (fun e => (by cases e))⟩
  case once =>
    intro r₁ r₂ slot h₁ h₂
    exact hi.once r₁ r₂ slot (old r₁ _ h₁ fun e => (by cases e)) (old r₂ _ h₂ fun e => (by cases e))
  case held =>
    intro r' slot h
    exact hi.held r' slot (old r' _ h fun e => (by cases e))
  case waiting =>
    intro r' key' e' h he
    exact hi.waiting r' key' e' (old r' _ h fun e => (by cases e)) he

theorem Inv.step (hi : Inv total s) {a : Act Key Req} {s' : State Key Req} (h : step s a = some s') :
    Inv total s' := by
  cases a with
  | arrive r key =>
      simp only [Slots.step] at h
      split at h
      · rename_i hr
        cases h
        exact hi.ask (fun slot e => by cases hr.symm.trans e) key
      · cases h
  | resume r =>
      simp only [Slots.step] at h
      split at h
      · rename_i key e hr
        split at h
        · cases h
          exact hi.ask (fun slot e => by cases hr.symm.trans e) key
        · cases h
      · cases h
  | release r =>
      simp only [Slots.step] at h
      split at h
      · rename_i slot hr
        cases h
        exact hi.free hr
      · cases h
  | cancel r =>
      simp only [Slots.step] at h
      split at h
      · rename_i key e hr
        cases h
        exact hi.drop hr
      · rename_i slot hr
        cases h
        exact hi.free hr
      · cases h

theorem reach_inv (h : Lts.Reach (system Key Req total) s) : Inv total s := by
  refine h.invariant ?start ?step
  case start =>
    rintro s ⟨pins, hp, rfl⟩
    exact inv_start hp
  case step =>
    intro s a s' hi hs
    exact hi.step hs

end Steps

/-- **`hold` is safe and loses no wake-up**, in every state of every
interleaving of arrivals, resumptions, releases and cancellations. -/
theorem pins_safe [DecidableEq Req] {total : Nat} {s : State Key Req}
    (h : Lts.Reach (system Key Req total) s) :
    (∀ r r' slot, s.reqs r = .holding slot → s.reqs r' = .holding slot → r = r') ∧
    (∀ r slot, s.reqs r = .holding slot → slot < total) ∧
    (∀ slot, slot ∈ s.pins.busy ↔ ∃ r, s.reqs r = .holding slot) ∧
    (∀ k k' slot, s.pins.owners.get? k = some slot → s.pins.owners.get? k' = some slot → k = k') ∧
    (∀ r key e, s.reqs r = .waiting key e → e ∉ s.fired → s.pins.choose key = none) := by
  have hi := reach_inv h
  exact ⟨hi.once, hi.held, hi.busy, hi.owned.inj, fun r key e hr he => (hi.waiting r key e hr he).2⟩

/-- One slot, held by a request of no conversation: the next one waits, and
has nothing to wait for yet. -/
theorem pins_safe_waiting : ∃ s : State Nat Nat, Lts.Reach (system Nat Nat 1) s ∧
    s.reqs 0 = .holding 0 ∧ s.reqs 1 = .waiting (some 7) 0 ∧ s.pins.choose (some 7) = none := by
  obtain ⟨pins, hp, rfl⟩ : ∃ pins : SlotPins Nat, SlotPins.new 1 = .ok pins ∧
      pins = ⟨1, Nat.one_pos, .empty, ∅, none⟩ := ⟨_, rfl, rfl⟩
  have h₀ : Lts.Reach (system Nat Nat 1) (State.start _) := .start ⟨_, hp, rfl⟩
  have h₁ := h₀.next (l := .arrive 0 none) rfl
  have h₂ := h₁.next (l := .arrive 1 (some 7)) rfl
  exact ⟨_, h₂, rfl, rfl, (pins_safe h₂).2.2.2.2 1 (some 7) 0 rfl (Finset.notMem_empty 0)⟩

end InferenceDriver.Slots

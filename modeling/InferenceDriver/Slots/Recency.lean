/-
# `Slots.Recency` — who gives up its slot

`_owners` is kept in the order in which its conversations last claimed
their slots: a hold moves its conversation to the end, and nothing else
changes the order.  So when every idle slot is owned, the first of their
owners in that order is the one that claimed its slot longest ago.

The claims of a run are its log, and `Recent` ties the order of the map to
the log.  `pins_lru` is what follows for every run: a conversation keeps
its slot until it is evicted, and who is evicted when.
-/
import InferenceDriver.Slots.Pins

namespace InferenceDriver.Slots

variable {Key : Type} [DecidableEq Key]

/-- A slot taken, and the conversation of the request that took it. -/
structure Claim (Key : Type) where
  key : Option Key
  slot : Nat
deriving DecidableEq

/-- How many claims ago a conversation last claimed its slot. -/
def since (log : List (Claim Key)) (k : Key) : Nat :=
  log.reverse.findIdx fun c => c.key = some k

/-- The last claim of a conversation. -/
def lastClaim (log : List (Claim Key)) (k : Key) : Option (Claim Key) :=
  log.reverse.find? fun c => c.key = some k

theorem since_self (log : List (Claim Key)) (k : Key) (slot : Nat) :
    since (log ++ [⟨some k, slot⟩]) k = 0 := by
  rw [since, List.reverse_append, List.reverse_singleton, List.singleton_append, List.findIdx_cons]
  simp

theorem since_other {log : List (Claim Key)} {c : Claim Key} {k : Key} (h : c.key ≠ some k) :
    since (log ++ [c]) k = since log k + 1 := by
  rw [since, List.reverse_append, List.reverse_singleton, List.singleton_append, List.findIdx_cons,
    decide_eq_false h]
  rfl

theorem lastClaim_self (log : List (Claim Key)) (k : Key) (slot : Nat) :
    lastClaim (log ++ [⟨some k, slot⟩]) k = some ⟨some k, slot⟩ := by
  rw [lastClaim, List.reverse_append, List.reverse_singleton, List.singleton_append]
  exact List.find?_cons_of_pos (decide_eq_true rfl)

theorem lastClaim_other {log : List (Claim Key)} {c : Claim Key} {k : Key} (h : c.key ≠ some k) :
    lastClaim (log ++ [c]) k = lastClaim log k := by
  rw [lastClaim, List.reverse_append, List.reverse_singleton, List.singleton_append]
  exact List.find?_cons_of_neg (by simpa using h)

/-! ## The order of the map -/

/-- The conversations stand in the order of their last claims, the longest
ago first, and each owns the slot it claimed last. -/
structure Recent (log : List (Claim Key)) (owners : Dict Key Nat) : Prop where
  last : ∀ k slot, owners.get? k = some slot → lastClaim log k = some ⟨some k, slot⟩
  order : owners.keys.Pairwise fun k k' => since log k' < since log k

/-- The conversations that do not claim keep their order. -/
theorem Recent.rest {log : List (Claim Key)} {owners : Dict Key Nat} (h : Recent log owners)
    {c : Claim Key} {ks : List Key} (hks : ks.Sublist owners.keys) (hc : ∀ k ∈ ks, c.key ≠ some k) :
    ks.Pairwise fun k k' => since (log ++ [c]) k' < since (log ++ [c]) k := by
  refine (h.order.sublist hks).imp_of_mem fun {k k'} hk hk' hlt => ?_
  rw [since_other (hc k hk), since_other (hc k' hk')]
  exact Nat.succ_lt_succ hlt

/-- Of two conversations the one further to the front claimed longer ago. -/
theorem Recent.since_lt {log : List (Claim Key)} {d : Dict Key Nat} (h : Recent log d) {k k' : Key}
    (hk : k ∈ d.keys) (hk' : k' ∈ d.keys) (hlt : d.keys.idxOf k < d.keys.idxOf k') :
    since log k' < since log k := by
  have hp := List.pairwise_iff_getElem.mp h.order _ _ (List.idxOf_lt_length_of_mem hk)
    (List.idxOf_lt_length_of_mem hk') hlt
  rwa [List.getElem_idxOf, List.getElem_idxOf] at hp

namespace SlotPins

variable {p : SlotPins Key} {key : Option Key} {slot : Nat} {owners : Dict Key Nat}

/-- `SlotPins.owner`. -/
abbrev owner (p : SlotPins Key) (k : Key) : Option Nat := p.owners.get? k

/-- What a claim leaves of an order: some of the others, and the claimant
at the end. -/
def Follows (key : Option Key) (old new : List Key) : Prop :=
  ∃ ks, ks.Sublist old ∧ (∀ k ∈ ks, key ≠ some k) ∧ new = ks ++ key.toList

theorem follows_claim {d d' : Dict Key Nat} (hd : d'.keys.Sublist d.keys) (hnew : ∀ k, key = some k → d.get? k = none)
    (slot : Nat) : Follows key d.keys (claim d' key slot).keys := by
  cases key with
  | none => exact ⟨d'.keys, hd, fun k _ h => (by cases h), (List.append_nil _).symm⟩
  | some k =>
      have hout : k ∉ d.keys := by
        intro hk
        obtain ⟨v, hv⟩ := Dict.mem_keys_iff.mp hk
        rw [hnew k rfl] at hv
        cases hv
      have hout' : k ∉ d'.keys := fun hk => hout (hd.mem hk)
      refine ⟨d'.keys, hd, fun k' hk' h => ?_, Dict.keys_set_new hout' slot⟩
      exact hout' (Option.some.inj h ▸ hk')

/-- A request that owns no slot. -/
theorem place_spec (hnew : ∀ k, key = some k → p.owner k = none) (h : p.place key = some (slot, owners)) :
    Follows key p.owners.keys owners.keys ∧ slot ∈ p.idle ∧
      (p.ownerOf slot = none ∨ ∀ i ∈ p.idle, p.ownerOf i ≠ none ∧ p.age slot ≤ p.age i) := by
  rw [place] at h
  split at h
  · cases h
  · split at h
    · rename_i hu
      cases h
      obtain ⟨hi, ho⟩ := List.mem_filter.mp (hu ▸ List.mem_cons_self)
      exact ⟨follows_claim (List.Sublist.refl _) hnew slot, hi, Or.inl (Option.isNone_iff_eq_none.mp ho)⟩
    · rename_i hu
      split at h
      · cases h
      · rename_i slot' ha
        cases h
        have hall : ∀ i ∈ p.idle, p.ownerOf i ≠ none := fun i hi hno =>
          List.filter_eq_nil_iff.mp hu i hi (Option.isNone_iff_eq_none.mpr hno)
        refine ⟨?_, List.argmin_mem ha, Or.inr fun i hi => ⟨hall i hi, List.le_of_mem_argmin hi ha⟩⟩
        refine follows_claim ?_ hnew slot
        cases p.ownerOf slot with
        | none => exact List.Sublist.refl _
        | some v =>
            rw [Option.elim_some, Dict.keys_erase]
            exact List.filter_sublist

/-- A request is given its own slot, or is placed. -/
theorem choose_cases (h : p.choose key = some (slot, owners)) :
    (∃ k, key = some k ∧ p.owner k = some slot ∧ owners = p.owners.moveToEnd k) ∨
      ((∀ k, key = some k → p.owner k = none) ∧ p.place key = some (slot, owners)) := by
  cases key with
  | none => exact Or.inr ⟨fun k hk => (by cases hk), h⟩
  | some k =>
      rw [choose] at h
      split at h
      · rename_i hno
        exact Or.inr ⟨fun k' hk' => Option.some.inj hk' ▸ hno, h⟩
      · rename_i slot' hs
        split at h
        · cases h
        · cases h
          exact Or.inl ⟨k, rfl, hs, rfl⟩

theorem choose_follows (h : p.choose key = some (slot, owners)) :
    Follows key p.owners.keys owners.keys := by
  rcases choose_cases h with ⟨k, rfl, hs, rfl⟩ | ⟨hnew, h⟩
  · refine ⟨(p.owners.erase k).keys, ?_, fun k' hk' heq => ?_, Dict.keys_moveToEnd hs⟩
    · rw [Dict.keys_erase]
      exact List.filter_sublist
    · exact Dict.mem_keys_erase p.owners k (Option.some.inj heq ▸ hk')
  · exact (place_spec hnew h).1

/-- **The order is kept by every claim.** -/
theorem Recent.choose {log : List (Claim Key)} (w : p.Owned) (hr : Recent log p.owners)
    (h : p.choose key = some (slot, owners)) : Recent (log ++ [⟨key, slot⟩]) owners := by
  obtain ⟨-, ho⟩ := choose_spec w h
  obtain ⟨ks, hks, hne, hkeys⟩ := choose_follows h
  refine ⟨fun k s hk => ?_, ?_⟩
  · rcases eq_or_ne key (some k) with rfl | hkey
    · rcases (ho k s).mp hk with ⟨hold, hs⟩ | ⟨-, rfl⟩
      · -- its own slot is the one it is given
        rcases choose_cases h with ⟨k', hk', hown, -⟩ | ⟨hnew, -⟩
        · cases hk'
          exact absurd (Option.some.inj (hold.symm.trans hown)) hs
        · cases hold.symm.trans (hnew k rfl)
      · exact lastClaim_self log k s
    · rcases (ho k s).mp hk with ⟨hold, -⟩ | ⟨heq, -⟩
      · rw [lastClaim_other hkey]
        exact hr.last k s hold
      · exact absurd heq hkey
  · rw [hkeys]
    have hrest := hr.rest (c := ⟨key, slot⟩) hks hne
    cases key with
    | none => rwa [Option.toList_none, List.append_nil]
    | some k =>
        refine List.pairwise_append.mpr ⟨hrest, List.pairwise_singleton _ _, fun k₁ h₁ k₂ h₂ => ?_⟩
        cases List.mem_singleton.mp h₂
        rw [since_self, since_other (hne k₁ h₁)]
        exact Nat.succ_pos _

/-! ## Evictions -/

theorem ownerOf_eq_of_owner (w : p.Owned) {k : Key} (hk : p.owner k = some slot) : p.ownerOf slot = some k := by
  cases ho : p.ownerOf slot with
  | none => exact absurd hk (ownerOf_eq_none ho k)
  | some k' => rw [w.inj k' k slot (ownerOf_eq_some ho) hk]

theorem age_of_owner (w : p.Owned) {k : Key} (hk : p.owner k = some slot) :
    p.age slot = p.owners.keys.idxOf k := by
  rw [age, ownerOf_eq_of_owner w hk]
  rfl

/-- Who loses its slot, and when. -/
theorem choose_evicts {log : List (Claim Key)} (w : p.Owned) (hr : Recent log p.owners)
    (h : p.choose key = some (slot, owners)) {k : Key} {s : Nat} (hk : p.owner k = some s)
    (hgone : owners.get? k = none) :
    slot = s ∧ (∀ k', key = some k' → p.owner k' = none) ∧ s ∈ p.idle ∧
      ∀ i ∈ p.idle, ∃ k', p.owner k' = some i ∧ (k' = k ∨ since log k' < since log k) := by
  obtain ⟨hidle, ho⟩ := choose_spec w h
  have heq : slot = s := by
    by_contra hne
    have := (ho k s).mpr (Or.inl ⟨hk, Ne.symm hne⟩)
    rw [hgone] at this
    cases this
  subst heq
  rcases choose_cases h with ⟨k', rfl, hs, rfl⟩ | ⟨hnew, hplace⟩
  · rw [Dict.get?_moveToEnd] at hgone
    cases hgone.symm.trans hk
  · refine ⟨rfl, hnew, hidle, fun i hi => ?_⟩
    rcases (place_spec hnew hplace).2.2 with hno | hall
    · exact absurd hk (ownerOf_eq_none hno k)
    · obtain ⟨hown, hage⟩ := hall i hi
      obtain ⟨k', hk'⟩ := Option.ne_none_iff_exists'.mp hown
      have hk' := ownerOf_eq_some hk'
      refine ⟨k', hk', ?_⟩
      rcases eq_or_ne k' k with heq | hne
      · exact Or.inl heq
      · rw [age_of_owner w hk, age_of_owner w hk'] at hage
        have hm := Dict.mem_keys_iff.mpr ⟨_, hk⟩
        have hm' := Dict.mem_keys_iff.mpr ⟨_, hk'⟩
        have hdiff : p.owners.keys.idxOf k ≠ p.owners.keys.idxOf k' := fun he =>
          hne ((List.idxOf_inj hm).mp he).symm
        exact Or.inr (hr.since_lt hm hm' (Nat.lt_of_le_of_ne hage hdiff))

/-- No more conversations than slots. -/
theorem Owned.length_le (w : p.Owned) : p.owners.keys.length ≤ p.total := by
  have hval : p.owners.values.Nodup := by
    refine (List.nodup_map_iff_inj_on (List.Nodup.of_map _ p.owners.nodup)).mpr ?_
    rintro ⟨k, s⟩ hk ⟨k', s'⟩ hk' heq
    cases heq
    rw [w.inj k k' s (Dict.mem_iff.mp hk) (Dict.mem_iff.mp hk')]
  have hsub : p.owners.values ⊆ List.range p.total := by
    intro s hs
    obtain ⟨k, hk⟩ := Dict.mem_values_iff.mp hs
    exact List.mem_range.mpr (w.lt k s hk)
  have hlen := (List.subperm_of_subset hval hsub).length_le
  rw [List.length_range] at hlen
  rw [Dict.keys, List.length_map]
  rwa [Dict.values, List.length_map] at hlen

end SlotPins

/-! ## Runs -/

variable {Req : Type}

/-- Under which key a step asks for a slot. -/
def asks (s : State Key Req) : Act Key Req → Option (Option Key)
  | .arrive r key =>
      match s.reqs r with
      | .out => some key
      | _ => none
  | .resume r =>
      match s.reqs r with
      | .waiting key e => if e ∈ s.fired then some key else none
      | _ => none
  | .release _ => none
  | .cancel _ => none

/-- The slot a step takes, if it takes one. -/
def claims (s : State Key Req) (a : Act Key Req) : List (Claim Key) :=
  match asks s a with
  | none => []
  | some key =>
      match s.pins.choose key with
      | none => []
      | some (slot, _) => [⟨key, slot⟩]

section Steps
variable [DecidableEq Req] {s s' : State Key Req} {a : Act Key Req} {total : Nat}

/-- What asking does to the owners. -/
theorem ask_owners (s : State Key Req) (r : Req) (key : Option Key) :
    (s.pins.choose key = none ∧ (s.ask r key).pins.owners = s.pins.owners) ∨
      ∃ slot owners, s.pins.choose key = some (slot, owners) ∧ (s.ask r key).pins.owners = owners := by
  rw [State.ask]
  split
  · rename_i slot owners hc
    exact Or.inr ⟨slot, owners, hc, rfl⟩
  · rename_i hc
    refine Or.inl ⟨hc, ?_⟩
    split
    · rfl
    · rfl

/-- A step changes the owners by what it claims. -/
theorem step_owners (h : step s a = some s') :
    (claims s a = [] ∧ s'.pins.owners = s.pins.owners) ∨
      ∃ key slot owners, s.pins.choose key = some (slot, owners) ∧ claims s a = [⟨key, slot⟩] ∧
        s'.pins.owners = owners := by
  have asked : ∀ r key, asks s a = some key → s' = s.ask r key →
      (claims s a = [] ∧ s'.pins.owners = s.pins.owners) ∨
        ∃ key slot owners, s.pins.choose key = some (slot, owners) ∧ claims s a = [⟨key, slot⟩] ∧
          s'.pins.owners = owners := by
    rintro r key ha rfl
    rw [claims, ha]
    rcases ask_owners s r key with ⟨hc, ho⟩ | ⟨slot, owners, hc, ho⟩
    · exact Or.inl ⟨by simp only [hc], ho⟩
    · exact Or.inr ⟨key, slot, owners, hc, by simp only [hc], ho⟩
  cases a with
  | arrive r key =>
      simp only [step] at h
      split at h
      · rename_i hr
        cases h
        exact asked r key (by simp only [asks, hr]) rfl
      · cases h
  | resume r =>
      simp only [step] at h
      split at h
      · rename_i key e hr
        split at h
        · rename_i he
          cases h
          exact asked r key (by simp only [asks, hr, if_pos he]) rfl
        · cases h
      · cases h
  | release r =>
      simp only [step] at h
      split at h
      · cases h
        exact Or.inl ⟨rfl, rfl⟩
      · cases h
  | cancel r =>
      simp only [step] at h
      split at h
      · cases h
        exact Or.inl ⟨rfl, rfl⟩
      · cases h
        exact Or.inl ⟨rfl, rfl⟩
      · cases h

theorem logged_recent {log : List (Claim Key)} (h : Lts.Logged (system Key Req total) claims log s) :
    Recent log s.pins.owners := by
  refine h.invariant (I := fun log s => Recent log s.pins.owners) ?start ?step
  case start =>
    rintro s ⟨pins, hp, rfl⟩
    rw [SlotPins.new] at hp
    split at hp
    · cases hp
    · cases hp
      exact ⟨fun k slot hk => (by cases hk), List.Pairwise.nil⟩
  case step =>
    intro log s a s' hreach hr hs
    rcases step_owners hs with ⟨hc, ho⟩ | ⟨key, slot, owners, hchoose, hc, ho⟩
    · rw [hc, ho, List.append_nil]
      exact hr
    · rw [hc, ho]
      exact SlotPins.Recent.choose (reach_inv hreach).owned hr hchoose

/-- A step after which the conversation still owns a slot, if it did. -/
def Spares (k : Key) (s : State Key Req) (a : Act Key Req) : Prop :=
  ∀ s', step s a = some s' → s.pins.owner k ≠ none → s'.pins.owner k ≠ none

/-- An owner that is not evicted has the slot it had. -/
theorem step_keeps (hi : Inv total s) (h : step s a = some s') {k : Key} {slot : Nat}
    (hk : s.pins.owner k = some slot) (hspares : Spares k s a) : s'.pins.owner k = some slot := by
  have hstill := hspares s' h (by rw [hk]; exact Option.some_ne_none slot)
  rcases step_owners h with ⟨-, ho⟩ | ⟨key, slot', owners, hchoose, -, ho⟩
  · rw [SlotPins.owner, ho]
    exact hk
  · obtain ⟨slot₂, h₂⟩ := Option.ne_none_iff_exists'.mp hstill
    rw [SlotPins.owner, ho] at h₂ ⊢
    obtain ⟨-, hspec⟩ := SlotPins.choose_spec hi.owned hchoose
    rcases (hspec k slot₂).mp h₂ with ⟨hold, -⟩ | ⟨hkey, heq⟩
    · rw [h₂]
      exact hold.symm.trans hk
    · rcases SlotPins.choose_cases hchoose with ⟨k', hk', hown, -⟩ | ⟨hnew, -⟩
      · cases hkey.symm.trans hk'
        rw [h₂, heq]
        exact hown.symm.trans hk
      · rw [hnew k hkey] at hk
        cases hk

omit [DecidableEq Req] in
/-- A hold of an owner is given its slot. -/
theorem claims_own {k : Key} {slot : Nat} (hk : s.pins.owner k = some slot) {c : Claim Key}
    (hc : c ∈ claims s a) (hkey : c.key = some k) : c.slot = slot := by
  rw [claims] at hc
  split at hc
  · cases hc
  · split at hc
    · cases hc
    · rename_i slot' owners hchoose
      cases List.mem_singleton.mp hc
      cases hkey
      rcases SlotPins.choose_cases hchoose with ⟨k', hk', hown, -⟩ | ⟨hnew, -⟩
      · cases hk'
        exact Option.some.inj (hown.symm.trans hk)
      · rw [hnew k rfl] at hk
        cases hk

/-- **Least recently used out**, in every run, with its claims as the log:
an owner keeps its slot, and is given it by every later hold, until it is
evicted; it is evicted only by a request that owns nothing, when every idle
slot is owned, and is then the owner of an idle slot whose last claim is
the longest ago; who becomes an owner is the conversation of a request that
took the slot; and there are no more owners than slots. -/
theorem pins_lru {log : List (Claim Key)} (h : Lts.Logged (system Key Req total) claims log s) :
    (∀ k slot, s.pins.owner k = some slot → lastClaim log k = some ⟨some k, slot⟩ ∧
      ∀ t, Lts.Run ((system Key Req total).at s) (Spares k) t → t.pins.owner k = some slot ∧
        ∀ a, ∀ c ∈ claims t a, c.key = some k → c.slot = slot) ∧
    (∀ a s' k slot, step s a = some s' → s.pins.owner k = some slot → s'.pins.owner k = none →
      ∃ key, claims s a = [⟨key, slot⟩] ∧ (∀ k', key = some k' → s.pins.owner k' = none) ∧
        slot ∈ s.pins.idle ∧
        ∀ i ∈ s.pins.idle, ∃ k', s.pins.owner k' = some i ∧ (k' = k ∨ since log k' < since log k)) ∧
    (∀ a s' k slot, step s a = some s' → s'.pins.owner k = some slot →
      s.pins.owner k = some slot ∨ claims s a = [⟨some k, slot⟩]) ∧
    s.pins.owners.keys.length ≤ total := by
  have hreach := h.reach
  have hinv := reach_inv hreach
  have hrecent := logged_recent h
  refine ⟨fun k slot hk => ⟨hrecent.last k slot hk, fun t ht => ?_⟩, fun a s' k slot hs hk hgone => ?_,
    fun a s' k slot hs hk => ?_, ?_⟩
  · have hown : t.pins.owner k = some slot := by
      induction ht with
      | start heq => exact heq ▸ hk
      | next hrun hspares hstep ih => exact step_keeps (reach_inv (hrun.reach hreach)) hstep ih hspares
    exact ⟨hown, fun a c hc hkey => claims_own hown hc hkey⟩
  · rcases step_owners hs with ⟨-, ho⟩ | ⟨key, slot', owners, hchoose, hc, ho⟩
    · rw [SlotPins.owner, ho] at hgone
      cases hgone.symm.trans hk
    · rw [SlotPins.owner, ho] at hgone
      obtain ⟨rfl, hnew, hidle, hall⟩ := SlotPins.choose_evicts hinv.owned hrecent hchoose hk hgone
      exact ⟨key, hc, hnew, hidle, hall⟩
  · rcases step_owners hs with ⟨-, ho⟩ | ⟨key, slot', owners, hchoose, hc, ho⟩
    · rw [SlotPins.owner, ho] at hk
      exact Or.inl hk
    · rw [SlotPins.owner, ho] at hk
      rcases ((SlotPins.choose_spec hinv.owned hchoose).2 k slot).mp hk with ⟨hold, -⟩ | ⟨rfl, rfl⟩
      · exact Or.inl hold
      · exact Or.inr hc
  · exact hinv.total ▸ hinv.owned.length_le

end Steps

/-- Two slots, and conversations `0`, `1`, `0` one after the other: the next
one takes the slot of `1`. -/
theorem pins_lru_third : ∃ (log : List (Claim Nat)) (s s' : State Nat Nat),
    Lts.Logged (system Nat Nat 2) claims log s ∧ step s (.arrive 3 (some 2)) = some s' ∧
      s.pins.owner 1 = some 1 ∧ s'.pins.owner 1 = none ∧
      ∃ key, claims s (.arrive 3 (some 2)) = [⟨key, 1⟩] ∧ ∀ k', key = some k' → s.pins.owner k' = none := by
  obtain ⟨pins, hp, rfl⟩ : ∃ pins : SlotPins Nat, SlotPins.new 2 = .ok pins ∧
      pins = ⟨2, Nat.two_pos, .empty, ∅, none⟩ := ⟨_, rfl, rfl⟩
  have h₀ : Lts.Logged (system Nat Nat 2) claims [] (State.start _) := .start ⟨_, hp, rfl⟩
  have h₁ := (h₀.next (l := .arrive 0 (some 0)) rfl).next (l := .release 0) rfl
  have h₂ := (h₁.next (l := .arrive 1 (some 1)) rfl).next (l := .release 1) rfl
  have h₃ := (h₂.next (l := .arrive 2 (some 0)) rfl).next (l := .release 2) rfl
  refine ⟨_, _, _, h₃, rfl, rfl, rfl, ?_⟩
  obtain ⟨key, hc, hnew, -⟩ := (pins_lru h₃).2.1 (.arrive 3 (some 2)) _ 1 1 rfl rfl rfl
  exact ⟨key, hc, hnew⟩

end InferenceDriver.Slots

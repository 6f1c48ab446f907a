/-
# `Py.Dict` — dictionaries that keep the order of insertion

A `dict` or an `OrderedDict`: the list of its items, no key twice.
Assigning to a key that is there replaces its value in place; a new key
goes to the end.
-/
import Mathlib.Data.List.Nodup

namespace InferenceDriver

structure Dict (K V : Type) where
  items : List (K × V)
  nodup : (items.map (·.1)).Nodup

namespace Dict

variable {K V : Type} [DecidableEq K]

def empty : Dict K V := ⟨[], List.nodup_nil⟩

def keys (d : Dict K V) : List K := d.items.map (·.1)

/-- `d.get(k)`. -/
def get? (d : Dict K V) (k : K) : Option V := (d.items.find? fun e => e.1 = k).map (·.2)

omit [DecidableEq K] in
theorem eq_empty {d : Dict K V} (h : d.items = []) : d = empty := by
  obtain ⟨items, nodup⟩ := d
  cases h
  rfl

theorem get?_empty (k : K) (v : V) : (empty : Dict K V).get? k ≠ some v := by
  intro h
  cases h

/-- `del d[k]`. -/
def erase (d : Dict K V) (k : K) : Dict K V where
  items := d.items.filter fun e => !(e.1 = k)
  nodup := d.nodup.sublist (List.filter_sublist.map _)

theorem mem_iff {d : Dict K V} {k : K} {v : V} : (k, v) ∈ d.items ↔ d.get? k = some v := by
  obtain ⟨items, nodup⟩ := d
  show (k, v) ∈ items ↔ (items.find? fun e => e.1 = k).map (·.2) = some v
  induction items with
  | nil => simp
  | cons e es ih =>
      simp only [List.map_cons, List.nodup_cons] at nodup
      have ih := ih nodup.2
      by_cases hk : e.1 = k
      · simp only [List.find?_cons, hk, decide_true, Option.map_some, Option.some.injEq, List.mem_cons]
        constructor
        · rintro (rfl | h)
          · rfl
          · exact absurd (List.mem_map.mpr ⟨(k, v), h, rfl⟩) (hk ▸ nodup.1)
        · intro hv
          exact Or.inl (by rw [← hk, ← hv])
      · simp only [List.find?_cons, hk, decide_false, List.mem_cons, ← ih]
        constructor
        · rintro (rfl | h)
          · exact absurd rfl hk
          · exact h
        · exact Or.inr

theorem mem_keys_iff {d : Dict K V} {k : K} : k ∈ d.keys ↔ ∃ v, d.get? k = some v := by
  simp only [keys, List.mem_map]
  constructor
  · rintro ⟨⟨k', v⟩, h, rfl⟩
    exact ⟨v, mem_iff.mp h⟩
  · rintro ⟨v, h⟩
    exact ⟨(k, v), mem_iff.mpr h, rfl⟩

/-- Two dictionaries that hold the same items answer alike. -/
theorem get?_eq_some_of_mem_iff {d d' : Dict K V} {k k' : K}
    (h : ∀ v, (k, v) ∈ d.items ↔ (k', v) ∈ d'.items) : d.get? k = d'.get? k' := by
  cases hd : d'.get? k' with
  | some v => exact mem_iff.mp ((h v).mpr (mem_iff.mpr hd))
  | none =>
      cases hc : d.get? k with
      | none => rfl
      | some v => rw [mem_iff.mp ((h v).mp (mem_iff.mpr hc))] at hd; cases hd

theorem get?_erase_self (d : Dict K V) (k : K) : (d.erase k).get? k = none := by
  cases h : (d.erase k).get? k with
  | none => rfl
  | some v =>
      have := List.mem_filter.mp (mem_iff.mpr h)
      simp at this

theorem get?_erase_ne (d : Dict K V) {k k' : K} (h : k' ≠ k) :
    (d.erase k).get? k' = d.get? k' := by
  refine get?_eq_some_of_mem_iff fun v => ?_
  simp only [erase, List.mem_filter]
  exact ⟨fun hm => hm.1, fun hm => ⟨hm, by simpa using h⟩⟩

theorem mem_keys_erase (d : Dict K V) (k : K) : k ∉ (d.erase k).keys := by
  rw [mem_keys_iff]
  rintro ⟨v, hv⟩
  rw [get?_erase_self] at hv
  cases hv

theorem keys_erase (d : Dict K V) (k : K) : (d.erase k).keys = d.keys.filter fun k' => !(k' = k) := by
  rw [keys, keys, List.filter_map]
  rfl

/-- A key that is not there, with its value, at the end. -/
def push (d : Dict K V) (k : K) (v : V) (h : k ∉ d.keys) : Dict K V where
  items := d.items ++ [(k, v)]
  nodup := by
    rw [List.map_append, List.map_cons, List.map_nil]
    exact d.nodup.append (List.nodup_singleton k) (by simpa [keys] using h)

theorem get?_push_self (d : Dict K V) (k : K) (v : V) (h : k ∉ d.keys) :
    (d.push k v h).get? k = some v :=
  mem_iff.mp (List.mem_append_right _ List.mem_cons_self)

theorem get?_push_ne (d : Dict K V) {k k' : K} (v : V) (h : k ∉ d.keys) (hk : k' ≠ k) :
    (d.push k v h).get? k' = d.get? k' := by
  refine get?_eq_some_of_mem_iff fun w => ?_
  simp [push, hk]

omit [DecidableEq K] in
theorem keys_push (d : Dict K V) (k : K) (v : V) (h : k ∉ d.keys) : (d.push k v h).keys = d.keys ++ [k] :=
  List.map_append

/-- `d.move_to_end(k)`, of a key that is there. -/
def moveToEnd (d : Dict K V) (k : K) : Dict K V :=
  match d.get? k with
  | none => d
  | some v => (d.erase k).push k v (d.mem_keys_erase k)

@[simp] theorem get?_moveToEnd (d : Dict K V) (k k' : K) :
    (d.moveToEnd k).get? k' = d.get? k' := by
  rw [moveToEnd]
  split
  · rfl
  · rename_i v hv
    by_cases hk : k' = k
    · rw [hk, get?_push_self, hv]
    · rw [get?_push_ne _ _ _ hk, get?_erase_ne _ hk]

theorem keys_moveToEnd {d : Dict K V} {k : K} {v : V} (h : d.get? k = some v) :
    (d.moveToEnd k).keys = (d.erase k).keys ++ [k] := by
  rw [moveToEnd, h]
  exact keys_push _ _ _ _

/-- `d[k] = v`. -/
def set (d : Dict K V) (k : K) (v : V) : Dict K V :=
  if h : k ∈ d.keys then
    { items := d.items.map fun e => if e.1 = k then (k, v) else e
      nodup := by
        have : (d.items.map fun e => if e.1 = k then (k, v) else e).map (·.1) = d.keys := by
          rw [List.map_map, keys]
          refine List.map_congr_left fun e _ => ?_
          by_cases he : e.1 = k
          · simp [he]
          · simp [he]
        rw [this]
        exact d.nodup }
  else d.push k v h

theorem keys_set_new {d : Dict K V} {k : K} (h : k ∉ d.keys) (v : V) : (d.set k v).keys = d.keys ++ [k] := by
  rw [set, dif_neg h]
  exact keys_push d k v h

theorem get?_set_self (d : Dict K V) (k : K) (v : V) : (d.set k v).get? k = some v := by
  rw [set]
  split
  · rename_i h
    obtain ⟨w, hw⟩ := mem_keys_iff.mp h
    exact mem_iff.mp (List.mem_map.mpr ⟨(k, w), mem_iff.mpr hw, by simp⟩)
  · exact get?_push_self d k v _

theorem get?_set_ne (d : Dict K V) {k k' : K} (v : V) (hk : k' ≠ k) :
    (d.set k v).get? k' = d.get? k' := by
  rw [set]
  split
  · refine get?_eq_some_of_mem_iff fun w => ?_
    simp only [List.mem_map, Prod.exists]
    constructor
    · rintro ⟨a, b, hab, he⟩
      split at he
      · cases he; exact absurd rfl hk
      · cases he; exact hab
    · intro hw
      exact ⟨k', w, hw, by simp [hk]⟩
  · exact get?_push_ne d v _ hk

/-! ## Defaults, values, displays -/

/-- `d.setdefault(k, v)`. -/
def setdefault (d : Dict K V) (k : K) (v : V) : Dict K V :=
  if h : k ∈ d.keys then d else d.push k v h

/-- What is there stays; what is not is put there. -/
theorem get?_setdefault (d : Dict K V) (k k' : K) (v : V) :
    (d.setdefault k v).get? k' = (d.get? k').or (if k' = k then some v else none) := by
  rw [setdefault]
  by_cases h : k ∈ d.keys
  · rw [dif_pos h]
    by_cases hk : k' = k
    · obtain ⟨w, hw⟩ := mem_keys_iff.mp h
      rw [hk, hw]
      rfl
    · rw [if_neg hk, Option.or_none]
  · rw [dif_neg h]
    by_cases hk : k' = k
    · have hd : d.get? k = none := by
        cases hd : d.get? k with
        | none => rfl
        | some w => exact absurd (mem_keys_iff.mpr ⟨w, hd⟩) h
      rw [hk, get?_push_self, hd, if_pos rfl]
      rfl
    · rw [get?_push_ne _ _ _ hk, if_neg hk, Option.or_none]

/-- `d.values()`. -/
def values (d : Dict K V) : List V := d.items.map (·.2)

theorem mem_values_iff {d : Dict K V} {v : V} : v ∈ d.values ↔ ∃ k, d.get? k = some v := by
  simp only [values, List.mem_map, Prod.exists, exists_eq_right, mem_iff]

/-- A dict display: of a key written twice, the later value. -/
def ofList (l : List (K × V)) : Dict K V := l.foldl (fun d e => d.set e.1 e.2) empty

theorem get?_foldl_set {l : List (K × V)} (nodup : (l.map (·.1)).Nodup) (d : Dict K V) (k : K) :
    (l.foldl (fun d e => d.set e.1 e.2) d).get? k =
      ((l.find? fun e => e.1 = k).map (·.2)).or (d.get? k) := by
  induction l generalizing d with
  | nil => rfl
  | cons e l ih =>
      obtain ⟨hout, nodup⟩ := List.nodup_cons.mp nodup
      rw [List.foldl_cons, ih nodup]
      by_cases hk : e.1 = k
      · have hnone : (l.find? fun e => e.1 = k) = none := by
          refine List.find?_eq_none.mpr fun e' he' h => hout ?_
          exact List.mem_map.mpr ⟨e', he', (of_decide_eq_true h).trans hk.symm⟩
        rw [hnone, List.find?_cons_of_pos (by simpa using hk), hk, get?_set_self]
        rfl
      · rw [List.find?_cons_of_neg (by simpa using hk), get?_set_ne _ _ (Ne.symm hk)]

/-- Of distinct keys, each has the value it is written with. -/
theorem get?_ofList {l : List (K × V)} (nodup : (l.map (·.1)).Nodup) (k : K) :
    (ofList l).get? k = (l.find? fun e => e.1 = k).map (·.2) := by
  rw [ofList, get?_foldl_set nodup]
  exact Option.or_none

/-! ## Folding into a dictionary -/

/-- Values put to their keys one after the other, each onto what is there:
a key has what was put to it, in order. -/
theorem get?_foldl_put {A : Type} (key : A → K) (put : V → A → V) (v : V) (l : List A) (d : Dict K V) (k : K) :
    (l.foldl (fun d x => d.set (key x) (put ((d.get? (key x)).getD v) x)) d).get? k =
      (l.filter fun x => key x = k).foldl (fun o x => some (put (o.getD v) x)) (d.get? k) := by
  induction l generalizing d with
  | nil => rfl
  | cons x l ih =>
      rw [List.foldl_cons, ih]
      rcases eq_or_ne (key x) k with rfl | hk
      · rw [get?_set_self, List.filter_cons_of_pos (by simp), List.foldl_cons]
      · rw [get?_set_ne _ _ hk.symm, List.filter_cons_of_neg (by simpa using hk)]

end Dict

end InferenceDriver

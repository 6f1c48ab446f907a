/-
# `Lib.Rows` — loops over rows that may fail

A loop that reads rows, keeps what some of them come to, and ends at the
first that cannot be read.  Such a reader reads a list by its parts
(`ByParts`): what it makes of two lists, one after the other, is what it
makes of each.  One reader after another is such a reader again
(`ByParts.bind`), so what a chain of them makes of a list is what it makes
of its rows, each read alone (`ByParts.alone`).
-/
import InferenceDriver.Lib.Checks
import Mathlib.Data.List.Forall2

namespace Rows

open Checks

variable {ε α β γ : Type}

variable {row : α → Except ε (Option β)}

/-- A reader of lists that reads them part by part. -/
def ByParts (read : List α → Except ε (List β)) : Prop :=
  read [] = .ok [] ∧ ∀ l m out, read (l ++ m) = .ok out ↔ ∃ a b, read l = .ok a ∧ read m = .ok b ∧ out = a ++ b

theorem ByParts.bind {read : List α → Except ε (List β)} {next : List β → Except ε (List γ)}
    (h : ByParts read) (h' : ByParts next) : ByParts fun l => read l >>= next := by
  refine ⟨?_, fun l m out => ?_⟩
  · show read [] >>= next = _
    rw [h.1]
    exact h'.1
  · simp only [bind_eq_ok]
    constructor
    · rintro ⟨ab, hab, hout⟩
      obtain ⟨a, b, ha, hb, rfl⟩ := (h.2 l m ab).mp hab
      obtain ⟨a', b', ha', hb', rfl⟩ := (h'.2 a b out).mp hout
      exact ⟨a', b', ⟨a, ha, ha'⟩, ⟨b, hb, hb'⟩, rfl⟩
    · rintro ⟨a', b', ⟨a, ha, ha'⟩, ⟨b, hb, hb'⟩, rfl⟩
      exact ⟨a ++ b, (h.2 l m _).mpr ⟨a, b, ha, hb, rfl⟩, (h'.2 a b _).mpr ⟨a', b', ha', hb', rfl⟩⟩

/-- What it reads is what it reads of each, one after the other. -/
theorem ByParts.alone {read : List α → Except ε (List β)} (h : ByParts read) {l : List α} {out : List β} :
    read l = .ok out ↔ ∃ parts, List.Forall₂ (fun entry part => read [entry] = .ok part) l parts ∧ out = parts.flatten := by
  induction l generalizing out with
  | nil =>
      rw [h.1]
      constructor
      · intro hout
        cases hout
        exact ⟨[], .nil, rfl⟩
      · rintro ⟨parts, hparts, rfl⟩
        cases hparts
        rfl
  | cons entry l ih =>
      rw [show entry :: l = [entry] ++ l from rfl, h.2]
      constructor
      · rintro ⟨a, b, ha, hb, rfl⟩
        obtain ⟨parts, hparts, rfl⟩ := ih.mp hb
        exact ⟨a :: parts, .cons ha hparts, rfl⟩
      · rintro ⟨parts, hparts, rfl⟩
        cases hparts with
        | cons ha hparts => exact ⟨_, _, ha, ih.mpr ⟨_, hparts, rfl⟩, rfl⟩

/-- It reads a list when it reads each alone, and then it is these. -/
theorem ByParts.isOk {read : List α → Except ε (List β)} (h : ByParts read) {l : List α} :
    (∃ parts, List.Forall₂ (fun entry part => read [entry] = .ok part) l parts ∧ read l = .ok parts.flatten) ↔
      ∀ entry ∈ l, ∃ out, read [entry] = .ok out := by
  constructor
  · rintro ⟨parts, hparts, -⟩ entry hentry
    induction hparts with
    | nil => cases hentry
    | cons hpart _ ih =>
        rcases List.mem_cons.mp hentry with rfl | hentry
        · exact ⟨_, hpart⟩
        · exact ih hentry
  · intro hl
    have hparts : ∃ parts, List.Forall₂ (fun entry part => read [entry] = .ok part) l parts := by
      induction l with
      | nil => exact ⟨[], .nil⟩
      | cons entry l ih =>
          obtain ⟨out, hout⟩ := hl entry List.mem_cons_self
          obtain ⟨parts, hparts⟩ := ih fun e he => hl e (List.mem_cons_of_mem _ he)
          exact ⟨out :: parts, .cons hout hparts⟩
    obtain ⟨parts, hparts⟩ := hparts
    exact ⟨parts, hparts, h.alone.mpr ⟨parts, hparts, rfl⟩⟩

end Rows

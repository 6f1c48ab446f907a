/-
# `Lib.Once` — what is said once

A line is said unless one of the same key was.  What has been said never
holds a key twice, and its line of a key is the first there was.
-/
import Mathlib.Data.List.Nodup

namespace InferenceDriver.Once

variable {α κ : Type} [DecidableEq κ] (key : α → κ)

/-- A line, said if it has not been. -/
def tell (said : List α) (line : α) : List α := if key line ∈ said.map key then said else said ++ [line]

/-- Lines, one after the other. -/
def tellAll (said lines : List α) : List α := lines.foldl (tell key) said

theorem tellAll_append (said lines more : List α) :
    tellAll key said (lines ++ more) = tellAll key (tellAll key said lines) more := List.foldl_append

variable {key}

theorem nodup_tell {said : List α} (h : (said.map key).Nodup) (line : α) : ((tell key said line).map key).Nodup := by
  rw [tell]
  split
  · exact h
  · rename_i hnew
    rw [List.map_append, List.map_singleton]
    exact h.append (List.nodup_singleton _) (List.disjoint_singleton.mpr hnew)

theorem nodup_tellAll {said : List α} (h : (said.map key).Nodup) (lines : List α) :
    ((tellAll key said lines).map key).Nodup := by
  induction lines generalizing said with
  | nil => exact h
  | cons line lines ih => exact ih (nodup_tell h line)

/-- No key is said twice. -/
theorem nodup_said (lines : List α) : ((tellAll key [] lines).map key).Nodup := by
  have hnone : (([] : List α).map key).Nodup := List.nodup_nil
  exact nodup_tellAll hnone lines

theorem find?_tell (said : List α) (line : α) (k : κ) :
    ((tell key said line).find? fun a => key a = k) = (said ++ [line]).find? fun a => key a = k := by
  rw [tell]
  split
  · rename_i hold
    rw [List.find?_append]
    cases hfind : said.find? fun a => key a = k with
    | some a => rfl
    | none =>
        have hk : key line ≠ k := by
          rintro rfl
          obtain ⟨a, ha, hkey⟩ := List.mem_map.mp hold
          exact List.find?_eq_none.mp hfind a ha (decide_eq_true hkey)
        rw [List.find?_cons_of_neg (by simpa using hk)]
        rfl
  · rfl

/-- The line said of a key is the first one. -/
theorem find?_tellAll (said lines : List α) (k : κ) :
    ((tellAll key said lines).find? fun a => key a = k) = (said ++ lines).find? fun a => key a = k := by
  induction lines generalizing said with
  | nil => rw [List.append_nil]; rfl
  | cons line lines ih =>
      refine (ih (tell key said line)).trans ?_
      rw [List.find?_append, find?_tell, ← List.find?_append, List.append_assoc, List.singleton_append]

/-- A line is said exactly when it is the first of its key. -/
theorem mem_tellAll {lines : List α} {line : α} :
    line ∈ tellAll key [] lines ↔ (lines.find? fun a => key a = key line) = some line := by
  have hfirst : ((tellAll key [] lines).find? fun a => key a = key line) = ([] ++ lines).find? fun a => key a = key line :=
    find?_tellAll [] lines (key line)
  rw [List.nil_append] at hfirst
  rw [← hfirst]
  constructor
  · intro hmem
    cases hfind : (tellAll key [] lines).find? fun a => key a = key line with
    | none => exact absurd (decide_eq_true rfl) (List.find?_eq_none.mp hfind line hmem)
    | some a =>
        have hkey : key a = key line := by simpa using List.find?_some hfind
        rw [List.inj_on_of_nodup_map (nodup_said lines) (List.mem_of_find?_eq_some hfind) hmem hkey]
  · exact List.mem_of_find?_eq_some

end InferenceDriver.Once

/-
  Maps, as functions and as association lists: what is found after a change.
-/
import Mathlib.Data.List.AList

namespace Ovn

variable {κ β γ : Type*} [DecidableEq κ]

section
variable {u v : κ} {b c : β}

theorem update_true_iff {f : κ → Bool} :
    Function.update f v true u = true ↔ u = v ∨ f u = true := by
  by_cases h : u = v <;> simp [h]

theorem update_false_iff {f : κ → Bool} :
    Function.update f v false u = true ↔ u ≠ v ∧ f u = true := by
  by_cases h : u = v <;> simp [h]

theorem update_some_iff {f : κ → Option β} :
    Function.update f v (some b) u = some c ↔ u = v ∧ b = c ∨ u ≠ v ∧ f u = some c := by
  by_cases h : u = v <;> simp [h]

theorem update_none_iff {f : κ → Option β} :
    Function.update f v none u = some c ↔ u ≠ v ∧ f u = some c := by
  by_cases h : u = v <;> simp [h]

theorem update_eq_or_none (f : κ → Option β) (v u : κ) :
    Function.update f v none u = f u ∨ Function.update f v none u = none := by
  by_cases h : u = v <;> simp [h]

theorem mem_update_iff {f : κ → List β} {l : List β} :
    b ∈ Function.update f v l u ↔ u = v ∧ b ∈ l ∨ u ≠ v ∧ b ∈ f u := by
  by_cases h : u = v <;> simp [h]

theorem mem_update {f : κ → List β} {l : List β} (h : b ∈ f u) (hl : u = v → b ∈ l) :
    b ∈ Function.update f v l u :=
  mem_update_iff.2 ((em (u = v)).imp (fun hu => ⟨hu, hl hu⟩) fun hu => ⟨hu, h⟩)

end

theorem lookup_insert_eq (m : AList fun _ : κ => β) (u v : κ) (b : β) :
    (m.insert v b).lookup u = if u = v then some b else m.lookup u := by
  split
  next h => rw [h, AList.lookup_insert]
  next h => rw [AList.lookup_insert_ne h]

theorem lookup_erase_eq (m : AList fun _ : κ => β) (u v : κ) :
    (m.erase v).lookup u = if u = v then none else m.lookup u := by
  split
  next h => rw [h, AList.lookup_erase]
  next h => rw [AList.lookup_erase_ne h]

variable {m : AList fun _ : κ => β}

theorem lookup_insert_iff {u v : κ} {b c : β} :
    (m.insert v b).lookup u = some c ↔ u = v ∧ b = c ∨ u ≠ v ∧ m.lookup u = some c := by
  by_cases h : u = v <;> simp [lookup_insert_eq, h]

theorem lookup_erase_iff {u v : κ} {c : β} :
    (m.erase v).lookup u = some c ↔ u ≠ v ∧ m.lookup u = some c := by simp [lookup_erase_eq]

theorem exists_lookup_insert {v : κ} {b c : β} (hv : m.lookup v = none) :
    (∃ u, (m.insert v b).lookup u = some c) ↔ c = b ∨ ∃ u, m.lookup u = some c := by
  simp only [lookup_insert_iff]
  grind

theorem lookup_foldl_erase (l : List ((_ : κ) × γ)) : ∀ (m : AList fun _ : κ => β) (u : κ),
      (l.foldl (fun m r => m.erase r.1) m).lookup u = if u ∈ l.map Sigma.fst then none
        else m.lookup u := by
  induction l with
  | nil => exact fun m u => rfl
  | cons r l ih =>
    intro m u
    rw [List.foldl_cons, ih, lookup_erase_eq, List.map_cons]
    by_cases h : u = r.1
    · simp [h]
    · rw [if_neg h]
      refine if_congr ?_ rfl rfl
      rw [List.mem_cons, or_iff_right h]

theorem mem_entries_iff {u : κ} {b : β} :
    (⟨u, b⟩ : (_ : κ) × β) ∈ m.entries ↔ m.lookup u = some b := AList.mem_lookup_iff.symm

def filterValues (p : β → Bool) (m : AList fun _ : κ => β) : AList fun _ : κ => β where
  entries := m.entries.filter fun r => p r.2
  nodupKeys := m.nodupKeys.sublist List.filter_sublist

omit [DecidableEq κ] in
theorem filterValues_eq_self {p : β → Bool} (h : ∀ r ∈ m.entries, p r.2 = true) :
    filterValues p m = m :=
  AList.ext (List.filter_eq_self.2 h)

end Ovn

/-
  Tables of prioritized entries.

  A lookup takes one of the matching entries of the highest priority; which one, where there
  are several, is not specified.
-/
import Mathlib.Data.List.MinMax

namespace Ovn

/-- A lookup in tables whose entries have a priority and match some states. -/
structure Lookup (φ σ : Type*) (priority : φ → ℕ) (hits : φ → σ → Bool) where
  pick : List φ → σ → Option φ
  pick_none : ∀ {l s}, pick l s = none → ∀ f ∈ l, hits f s = false
  pick_some : ∀ {l s f}, pick l s = some f →
    f ∈ l ∧ hits f s = true ∧ ∀ g ∈ l, hits g s = true → priority g ≤ priority f

namespace Lookup

variable {φ σ : Type*} {priority : φ → ℕ} {hits : φ → σ → Bool}

/-- **Lookups.** If some entry matches, and the matching entries that are not below it all
    have the property `P`, the lookup finds an entry with `P`. -/
theorem exists_pick (L : Lookup φ σ priority hits) {l : List φ} {s : σ} {P : φ → Prop} {f : φ}
    (hf : f ∈ l) (hs : hits f s = true)
    (hP : ∀ g ∈ l, hits g s = true → priority f ≤ priority g → P g) :
    ∃ g, L.pick l s = some g ∧ P g := by
  match hp : L.pick l s with
  | none => exact absurd hs (by simp [L.pick_none hp f hf])
  | some g =>
    obtain ⟨hg, hgs, hmax⟩ := L.pick_some hp
    exact ⟨g, rfl, hP g hg hgs (hmax f hf hs)⟩

def first (priority : φ → ℕ) (hits : φ → σ → Bool) : Lookup φ σ priority hits where
  pick l s := (l.filter (hits · s)).argmax priority
  pick_none h f hf := by
    rw [List.argmax_eq_none, List.filter_eq_nil_iff] at h
    simpa using h f hf
  pick_some h := by
    have hm := List.mem_filter.1 (List.argmax_mem h)
    exact ⟨hm.1, hm.2, fun g hg hgs => List.le_of_mem_argmax (List.mem_filter.2 ⟨hg, hgs⟩) h⟩

end Lookup

end Ovn

/-
  The join of two relations under changes of both, and loops that add facts.
-/
import Ovn.Lib.Ends
import Mathlib.Data.Set.Basic

namespace Ovn

/-! ## Joins -/

section
variable {α β γ : Type*}

/-- `x` reaches `z` directly, or through some `y`. -/
def Joined (a : α → γ → Prop) (g : α → β → Prop) (m : β → γ → Prop) (x : α) (z : γ) : Prop :=
  a x z ∨ ∃ y, g x y ∧ m y z

variable {a a' : α → γ → Prop} {g g' : α → β → Prop} {m m' : β → γ → Prop} {x : α} {z : γ}

theorem Joined.mono (h : Joined a g m x z) (ha : a x z → a' x z) (hg : ∀ y, g x y → g' x y)
    (hm : ∀ y, m y z → m' y z) : Joined a' g' m' x z := by
  rcases h with h | ⟨y, hy, hz⟩
  · exact .inl (ha h)
  · exact .inr ⟨y, hg y hy, hm y hz⟩

/-- **What is new in a join** comes from a new pair of one of the three relations, joined with
    the others as they are now. -/
theorem Joined.cases_new (h : Joined a' g' m' x z) :
    Joined a g m x z ∨ (a' x z ∧ ¬ a x z) ∨ (∃ y, g' x y ∧ ¬ g x y ∧ m' y z) ∨
      ∃ y, g x y ∧ g' x y ∧ m' y z ∧ ¬ m y z := by
  rcases h with h | ⟨y, hy, hz⟩
  · by_cases ha : a x z
    · exact .inl (.inl ha)
    · exact .inr (.inl ⟨h, ha⟩)
  · by_cases hg : g x y
    · by_cases hm : m y z
      · exact .inl (.inr ⟨y, hg, hm⟩)
      · exact .inr (.inr (.inr ⟨y, hg, hy, hz, hm⟩))
    · exact .inr (.inr (.inl ⟨y, hy, hg, hz⟩))

end

/-! ## Loops that add facts -/

universe u

variable {ε ι φ : Type*} {σ : Type u}

/-- **Loops.** If each element adds its facts to those of the state, as long as the facts `X₀`
    are there, then the loop adds the facts of all elements. -/
theorem Ends.foldlM_union {E : ε → Prop} {f : σ → ι → Except ε σ} {R : Set φ → σ → Prop}
    {F : ι → Set φ} (X₀ : Set φ) (l : List ι)
    (hf : ∀ b ∈ l, ∀ X s, X₀ ⊆ X → R X s → Ends E (R (X ∪ F b)) (f s b)) {X : Set φ} {s : σ}
    (hX : X₀ ⊆ X) (hs : R X s) : Ends E (R (X ∪ {p | ∃ b ∈ l, p ∈ F b})) (l.foldlM f s) := by
  refine Ends.foldlM_done (R := fun done => R (X ∪ {p | ∃ b ∈ done, p ∈ F b})) ?_ ?_
  · intro done b s hpre hs
    have hU : X ∪ {p | ∃ c ∈ done ++ [b], p ∈ F c} = X ∪ {p | ∃ c ∈ done, p ∈ F c} ∪ F b := by
      ext p
      simp [or_assoc]
    rw [hU]
    exact hf b (hpre.subset List.mem_concat_self) _ s (hX.trans Set.subset_union_left) hs
  · simp_all

end Ovn

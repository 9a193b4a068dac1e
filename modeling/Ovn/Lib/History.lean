/-
  The versions of a database that clients read with a delay: a client has a copy of some version,
  and the copy only moves to later ones.
-/
import Mathlib.Order.Basic

namespace Ovn

structure History (α : Type*) where
  version : ℕ → α
  last : ℕ

namespace History

variable {α : Type*} (h : History α)

def start (a : α) : History α := ⟨fun _ => a, 0⟩

def current : α := h.version h.last

def push (a : α) : History α := ⟨Function.update h.version (h.last + 1) a, h.last + 1⟩

variable {h}

@[simp]
theorem last_push (a : α) : (h.push a).last = h.last + 1 := rfl

@[simp]
theorem current_push (a : α) : (h.push a).current = a := Function.update_self ..

theorem version_push_last (a : α) : (h.push a).version (h.last + 1) = a := Function.update_self ..

theorem version_push {i : ℕ} (hi : i ≤ h.last) (a : α) : (h.push a).version i = h.version i :=
  Function.update_of_ne (by omega) _ _

theorem forall_push_le {P : α → α → Prop} {a : α}
    (hold : ∀ i j, i ≤ j → j ≤ h.last → P (h.version i) (h.version j))
    (hnew : ∀ i ≤ h.last, P (h.version i) a) (hself : P a a) :
    ∀ i j, i ≤ j → j ≤ (h.push a).last → P ((h.push a).version i) ((h.push a).version j) := by
  intro i j hij hj
  rcases Nat.lt_or_eq_of_le hj with hj | rfl
  · have hj : j ≤ h.last := Nat.lt_succ_iff.1 hj
    rw [version_push hj, version_push (Nat.le_trans hij hj)]
    exact hold i j hij hj
  · rw [last_push, version_push_last]
    rcases Nat.lt_or_eq_of_le hij with hi | rfl
    · have hi : i ≤ h.last := Nat.lt_succ_iff.1 hi
      rw [version_push hi]
      exact hnew i hi
    · rw [last_push, version_push_last]
      exact hself

theorem forall_push {P : α → Prop} {a : α} (hold : ∀ i ≤ h.last, P (h.version i)) (hnew : P a)
    (i : ℕ) (hi : i ≤ (h.push a).last) : P ((h.push a).version i) :=
  forall_push_le (P := fun _ b => P b) (fun _ j _ => hold j) (fun _ _ => hnew) hnew i i
    (Nat.le_refl i) hi

end History

end Ovn

/-
  Runs of a system that is driven by inputs, and the rule that proves invariants of them.
-/
import Mathlib.Data.Option.Basic

namespace Ovn

/-- A system: the state it starts in, and the state an input leads to where it is possible. -/
structure System (σ α : Type*) where
  init : σ
  next : σ → α → Option σ

namespace System

variable {σ α : Type*} (S : System σ α)

/-- The states reached by inputs each of which met `P` in the state it was given to. -/
inductive Reached (P : σ → α → Prop) : σ → Prop
  | init : Reached P S.init
  | step {s s' : σ} {a : α} : Reached P s → P s a → S.next s a = some s' → Reached P s'

def exec (P : σ → α → Prop) [∀ s a, Decidable (P s a)] : σ → List α → Option σ
  | s, [] => some s
  | s, a :: as => if P s a then (S.next s a).bind fun s' => exec P s' as else none

variable {S}

/-- **Invariants.** What holds at the start and is kept by every input that meets `P` holds
    in every state such inputs reach. -/
theorem Reached.invariant {P : σ → α → Prop} {I : σ → Prop} (h0 : I S.init)
    (hs : ∀ s a s', I s → P s a → S.next s a = some s' → I s') {s : σ}
    (h : S.Reached P s) : I s := by
  induction h with
  | init => exact h0
  | step _ hP hn ih => exact hs _ _ _ ih hP hn

theorem Reached.mono {P Q : σ → α → Prop} (hPQ : ∀ s a, P s a → Q s a) {s : σ}
    (h : S.Reached P s) : S.Reached Q s := by
  induction h with
  | init => exact .init
  | step _ hP hn ih => exact ih.step (hPQ _ _ hP) hn

theorem Reached.exec {P : σ → α → Prop} [∀ s a, Decidable (P s a)] :
    ∀ {l : List α} {s s' : σ}, S.Reached P s → S.exec P s l = some s' → S.Reached P s'
  | [], s, s', h, he => by
    obtain rfl : s = s' := by simpa [System.exec] using he
    exact h
  | a :: l, s, s', h, he => by
    rw [System.exec] at he
    by_cases hP : P s a
    · rw [if_pos hP] at he
      obtain ⟨t, ht, he⟩ := Option.bind_eq_some_iff.1 he
      exact Reached.exec (h.step hP ht) he
    · rw [if_neg hP] at he
      cases he

end System

end Ovn

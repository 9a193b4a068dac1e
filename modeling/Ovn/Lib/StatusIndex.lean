/-
  Objects that are kept in one set for each status: the sets as a function of the statuses, and
  when they are the partition that the statuses say.
-/
import Mathlib.Data.List.Nodup

namespace Ovn

open Function (update update_apply update_idem update_self)

/-- The objects that are listed for each status. -/
abbrev StatusIndex (κ α : Type*) : Type _ := κ → List α

namespace StatusIndex

variable {κ α : Type*} [DecidableEq κ] [DecidableEq α]

def empty (κ α : Type*) : StatusIndex κ α := fun _ => []

def add (ix : StatusIndex κ α) (k : κ) (a : α) : StatusIndex κ α :=
  update ix k (if a ∈ ix k then ix k else a :: ix k)

def remove (ix : StatusIndex κ α) (k : κ) (a : α) : StatusIndex κ α :=
  update ix k ((ix k).filter (· ≠ a))

/-- Every object with a status is listed exactly once, for its status, and no other object is. -/
structure Partitions (ix : StatusIndex κ α) (status : α → Option κ) : Prop where
  nodup : ∀ k, (ix k).Nodup
  mem : ∀ k a, a ∈ ix k ↔ status a = some k

variable {ix : StatusIndex κ α} {k k' : κ} {a b : α}

theorem mem_add : b ∈ ix.add k a k' ↔ b ∈ ix k' ∨ k' = k ∧ b = a := by
  unfold add
  grind [update_apply]

theorem mem_remove : b ∈ ix.remove k a k' ↔ b ∈ ix k' ∧ ¬ (k' = k ∧ b = a) := by
  unfold remove
  grind [update_apply]

theorem nodup_add (h : ∀ k, (ix k).Nodup) (k' : κ) : (ix.add k a k').Nodup := by
  unfold add
  rw [update_apply]
  split
  · split
    · exact h k
    next hno => exact List.nodup_cons.2 ⟨hno, h k⟩
  · exact h k'

theorem nodup_remove (h : ∀ k, (ix k).Nodup) (k' : κ) : (ix.remove k a k').Nodup := by
  unfold remove
  rw [update_apply]
  split
  · exact (h k).filter _
  · exact h k'

variable {status : α → Option κ}

theorem Partitions.add (h : ix.Partitions status) (ha : status a = none) :
    (ix.add k a).Partitions (update status a (some k)) := by
  refine ⟨nodup_add h.nodup, fun k' b => ?_⟩
  rw [mem_add, h.mem, update_apply]
  by_cases hb : b = a
  · subst hb
    rw [if_pos rfl, ha, Option.some_inj, and_iff_left rfl, or_iff_right nofun, eq_comm]
  · rw [if_neg hb, or_iff_left fun h => hb h.2]

theorem Partitions.remove (h : ix.Partitions status) (ha : status a = some k) :
    (ix.remove k a).Partitions (update status a none) := by
  refine ⟨nodup_remove h.nodup, fun k' b => ?_⟩
  rw [mem_remove, h.mem, update_apply]
  by_cases hb : b = a
  · simp_all
  · rw [if_neg hb, and_iff_left fun h => hb h.2]

theorem Partitions.move (h : ix.Partitions status) (ha : status a = some k) (k' : κ) :
    ((ix.remove k a).add k' a).Partitions (update status a (some k')) := by
  have := (h.remove ha).add (k := k') (update_self a none status)
  rwa [update_idem] at this

end StatusIndex

end Ovn

/-
  Hash tables whose entries collect the join of what is added for their key.
-/
import Mathlib.Data.List.Nodup
import Mathlib.Order.Bounds.Basic

namespace Ovn.JoinTable

open Function (update update_of_ne update_self)
open List

/-- Where the keys are kept. -/
structure Layout (κ : Type*) where
  mask : ℕ
  bucketOf : κ → ℕ
  bucketOf_le : ∀ k, bucketOf k ≤ mask

variable {κ ν : Type*}

def entries (L : Layout κ) (buckets : ℕ → List (κ × ν)) : List (κ × ν) :=
  (List.range (L.mask + 1)).flatMap buckets

def Has (L : Layout κ) (buckets : ℕ → List (κ × ν)) (k : κ) : Prop :=
  k ∈ (buckets (L.bucketOf k)).map Prod.fst

instance [DecidableEq κ] (L : Layout κ) (buckets : ℕ → List (κ × ν)) (k : κ) :
    Decidable (Has L buckets k) :=
  inferInstanceAs (Decidable (k ∈ (buckets (L.bucketOf k)).map Prod.fst))

def insert [Bot ν] (L : Layout κ) (k : κ) (buckets : ℕ → List (κ × ν)) : ℕ → List (κ × ν) :=
  update buckets (L.bucketOf k) ((k, ⊥) :: buckets (L.bucketOf k))

def merge [DecidableEq κ] [Max ν] (L : Layout κ) (k : κ) (v : ν)
    (buckets : ℕ → List (κ × ν)) : ℕ → List (κ × ν) :=
  update buckets (L.bucketOf k)
    ((buckets (L.bucketOf k)).map fun e => if e.1 = k then (e.1, e.2 ⊔ v) else e)

def add [DecidableEq κ] [Max ν] [Bot ν] (L : Layout κ) (buckets : ℕ → List (κ × ν))
    (a : κ × ν) : ℕ → List (κ × ν) :=
  merge L a.1 a.2 (if Has L buckets a.1 then buckets else insert L a.1 buckets)

/-- What the entry of a key is to be: the join of what is added for it. -/
def Joins [LE ν] (A : Set (κ × ν)) (e : κ × ν) : Prop :=
  (∃ v, (e.1, v) ∈ A) ∧ IsLUB {v | (e.1, v) ∈ A} e.2

/-- The table has what `A` adds, and keys of `P` for which nothing may be added yet. -/
structure Ok [Preorder ν] (L : Layout κ) (A : Set (κ × ν)) (P : Set κ)
    (buckets : ℕ → List (κ × ν)) : Prop where
  placed : ∀ b, ∀ e ∈ buckets b, L.bucketOf e.1 = b
  nodup : ∀ b, ((buckets b).map Prod.fst).Nodup
  entry : ∀ b, ∀ e ∈ buckets b, IsLUB {v | (e.1, v) ∈ A} e.2 ∧ ((∃ v, (e.1, v) ∈ A) ∨ e.1 ∈ P)
  kept : ∀ e ∈ A, Has L buckets e.1

section
variable [SemilatticeSup ν] {L : Layout κ} {A : Set (κ × ν)} {P P' : Set κ}
  {buckets : ℕ → List (κ × ν)} {k k' : κ} {v : ν}

theorem ok_empty (L : Layout κ) : Ok L (∅ : Set (κ × ν)) ∅ fun _ => [] :=
  ⟨fun _ _ h => (nomatch h), fun _ => nodup_nil, fun _ _ h => (nomatch h), fun _ h => h.elim⟩

theorem Ok.mono (h : Ok L A P buckets) (hP : P ⊆ P') : Ok L A P' buckets :=
  ⟨h.placed, h.nodup, fun b e he => ⟨(h.entry b e he).1, (h.entry b e he).2.imp_right (@hP _)⟩,
    h.kept⟩

/-- **The entries.** Each key is in the table once, with the join of what is added for it. -/
theorem Ok.entries_spec (h : Ok L A ∅ buckets) :
    (∀ e, e ∈ entries L buckets ↔ Joins A e) ∧ ((entries L buckets).map Prod.fst).Nodup := by
  have hmem : ∀ e, e ∈ entries L buckets ↔ e ∈ buckets (L.bucketOf e.1) := by
    intro e
    unfold entries
    rw [mem_flatMap]
    constructor
    · rintro ⟨b, -, he⟩
      rwa [h.placed b e he]
    · intro he
      exact ⟨_, mem_range.2 (Nat.lt_succ_of_le (L.bucketOf_le e.1)), he⟩
  refine ⟨fun e => ?_, ?_⟩
  · rw [hmem]
    constructor
    · intro he
      obtain ⟨hlub, hex⟩ := h.entry _ e he
      exact ⟨hex.resolve_right fun hP => hP, hlub⟩
    · rintro ⟨⟨v, hv⟩, hlub⟩
      obtain ⟨e', he', hk⟩ := mem_map.1 (h.kept _ hv)
      have hlub' := (h.entry _ e' he').1
      rw [hk] at hlub'
      obtain rfl : e' = e := Prod.ext hk (hlub'.unique hlub)
      exact he'
  · unfold entries
    rw [map_flatMap]
    refine nodup_flatMap.2 ⟨fun b _ => h.nodup b, ?_⟩
    refine nodup_range.pairwise_of_forall_ne fun b _ b' _ hb => ?_
    intro k hk hk'
    obtain ⟨e, he, rfl⟩ := mem_map.1 hk
    obtain ⟨e', he', hee⟩ := mem_map.1 hk'
    apply hb
    rw [← h.placed b e he, ← h.placed b' e' he', hee]

/-! ### Insertion -/

theorem has_insert [OrderBot ν] : Has L (insert L k buckets) k' ↔ k' = k ∨ Has L buckets k' := by
  unfold Has insert
  by_cases hb : L.bucketOf k' = L.bucketOf k
  · rw [hb, update_self, map_cons, mem_cons]
  · rw [update_of_ne hb]
    have hk : k' ≠ k := fun hk => hb (by rw [hk])
    simp [hk]

theorem mem_insert [OrderBot ν] {b : ℕ} {e : κ × ν} :
    e ∈ insert L k buckets b ↔ (b = L.bucketOf k ∧ e = (k, ⊥)) ∨ e ∈ buckets b := by
  unfold insert
  by_cases hb : b = L.bucketOf k <;> simp [hb]

theorem Ok.insert [OrderBot ν] (h : Ok L A P buckets) (hk : ¬ Has L buckets k) :
    Ok L A (Insert.insert k P) (insert L k buckets) where
  placed b e he := by
    rcases mem_insert.1 he with ⟨rfl, rfl⟩ | he
    · rfl
    · exact h.placed b e he
  nodup b := by
    unfold JoinTable.insert
    by_cases hb : b = L.bucketOf k
    · subst hb
      rw [update_self, map_cons, nodup_cons]
      exact ⟨hk, h.nodup _⟩
    · rw [update_of_ne hb]
      exact h.nodup b
  entry b e he := by
    rcases mem_insert.1 he with ⟨-, rfl⟩ | he
    · -- nothing is added for the new key yet
      have hnone : {v | (k, v) ∈ A} = ∅ := by
        ext v
        exact ⟨fun hv => hk (h.kept _ hv), fun hv => hv.elim⟩
      refine ⟨?_, .inr (Set.mem_insert k P)⟩
      rw [hnone]
      exact isLUB_empty
    · exact ⟨(h.entry b e he).1, (h.entry b e he).2.imp_right (Set.mem_insert_of_mem k)⟩
  kept e he := has_insert.2 (.inr (h.kept e he))

end

/-! ### Joining -/

section
variable [DecidableEq κ] [SemilatticeSup ν] {L : Layout κ} {A : Set (κ × ν)} {P P' : Set κ}
  {buckets : ℕ → List (κ × ν)} {k k' : κ} {v : ν}

theorem map_fst_merge (L : Layout κ) (k : κ) (v : ν) (buckets : ℕ → List (κ × ν)) (b : ℕ) :
    (merge L k v buckets b).map Prod.fst = (buckets b).map Prod.fst := by
  unfold merge
  by_cases hb : b = L.bucketOf k
  · subst hb
    rw [update_self, map_map]
    refine map_congr_left fun e _ => ?_
    by_cases hk : e.1 = k <;> simp [hk]
  · rw [update_of_ne hb]

theorem has_merge : Has L (merge L k v buckets) k' ↔ Has L buckets k' := by
  unfold Has
  rw [map_fst_merge]

theorem Ok.mem_merge (h : Ok L A P buckets) {b : ℕ} {e : κ × ν} (he : e ∈ merge L k v buckets b) :
    (e.1 ≠ k ∧ e ∈ buckets b) ∨ ∃ w, (k, w) ∈ buckets b ∧ e = (k, w ⊔ v) := by
  unfold merge at he
  by_cases hb : b = L.bucketOf k
  · subst hb
    rw [update_self] at he
    obtain ⟨e', he', rfl⟩ := mem_map.1 he
    by_cases hk : e'.1 = k
    · subst hk
      exact .inr ⟨e'.2, he', by simp⟩
    · exact .inl ⟨by simp [hk], by simpa [hk] using he'⟩
  · rw [update_of_ne hb] at he
    refine .inl ⟨?_, he⟩
    rintro rfl
    exact hb (h.placed b e he).symm

theorem Ok.merge (h : Ok L A P buckets) (hk : Has L buckets k) (hP : P ⊆ Insert.insert k P') :
    Ok L (Insert.insert (k, v) A) P' (merge L k v buckets) where
  placed b e he := by
    rcases h.mem_merge he with ⟨-, he'⟩ | ⟨w, he', rfl⟩
    · exact h.placed b e he'
    · exact h.placed b (k, w) he'
  nodup b := by
    rw [map_fst_merge]
    exact h.nodup b
  entry b e he := by
    rcases h.mem_merge he with ⟨hne, he'⟩ | ⟨w, he', rfl⟩
    · obtain ⟨hlub, hex⟩ := h.entry b e he'
      have hset : ∀ v', (e.1, v') ∈ Insert.insert (k, v) A ↔ (e.1, v') ∈ A := by
        simp [hne]
      simp only [hset]
      exact ⟨hlub, hex.imp_right fun he => (hP he).resolve_left hne⟩
    · have hset : {v' | (k, v') ∈ Insert.insert (k, v) A} = Insert.insert v {v' | (k, v') ∈ A} := by
        ext v'
        simp
      refine ⟨?_, .inl ⟨v, Set.mem_insert _ _⟩⟩
      rw [hset, sup_comm]
      exact (h.entry b _ he').1.insert v
  kept e he := by
    rw [has_merge]
    rcases he with rfl | he
    · exact hk
    · exact h.kept e he

/-! ### One worker -/

variable [OrderBot ν]

theorem Ok.add (h : Ok L A ∅ buckets) (a : κ × ν) :
    Ok L (Insert.insert a A) ∅ (add L buckets a) := by
  unfold JoinTable.add
  by_cases hk : Has L buckets a.1
  · rw [if_pos hk]
    exact h.merge hk (Set.empty_subset _)
  · rw [if_neg hk]
    exact (h.insert hk).merge (has_insert.2 (.inl rfl)) subset_rfl

theorem Ok.foldl_add : ∀ (as : List (κ × ν)) {A : Set (κ × ν)} {buckets : ℕ → List (κ × ν)},
    Ok L A ∅ buckets → Ok L (A ∪ {a | a ∈ as}) ∅ (as.foldl (JoinTable.add L) buckets)
  | [], A, buckets, h => by simpa using h
  | a :: as, A, buckets, h => by
    have := Ok.foldl_add as (h.add a)
    have hA : Insert.insert a A ∪ {x | x ∈ as} = A ∪ {x | x ∈ a :: as} := by
      ext x
      simp [or_assoc, or_left_comm]
    rwa [hA] at this

end

end Ovn.JoinTable

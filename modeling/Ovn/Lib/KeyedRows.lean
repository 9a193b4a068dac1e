/-
  Changing the rows of a table by their keys.
-/
import Ovn.Lib.Ends
import Ovn.Lib.TrackedTable

namespace Ovn

open List

variable {κ ρ β : Type*} [DecidableEq κ]

structure HashOrder (ι : Type*) where
  order : List ι → List ι
  perm (l : List ι) : (order l).Perm l

def HashOrder.listed (ι : Type*) : HashOrder ι := ⟨id, List.Perm.refl⟩

def modifyRow (key : ρ → κ) (k : κ) (g : ρ → ρ) (rows : List ρ) : List ρ :=
  rows.map fun r => if key r = k then g r else r

def dropRow (key : ρ → κ) (k : κ) (rows : List ρ) : List ρ := rows.filter fun r => key r ≠ k

/-- Changes the row that has the key, which is added first where there is none. -/
def upsertRow (key : ρ → κ) (k : κ) (new : ρ) (g : ρ → ρ) (rows : List ρ) : List ρ :=
  if k ∈ rows.map key then modifyRow key k g rows else rows ++ [g new]

section
variable {key : ρ → κ} {k v : κ} {g : ρ → ρ} {new : ρ} {rows : List ρ}

theorem rowOf_cons (r : ρ) : rowOf key (r :: rows) v = if key r = v then some r
    else rowOf key rows v := by
  unfold rowOf
  by_cases h : key r = v <;> simp [h]

theorem rowOf_modifyRow (hg : ∀ r, key (g r) = key r) : rowOf key (modifyRow key k g rows) v =
    if v = k then (rowOf key rows v).map g else rowOf key rows v := by
  induction rows with
  | nil => simp [modifyRow, rowOf]
  | cons r rows ih =>
    rw [modifyRow, map_cons, rowOf_cons, rowOf_cons]
    rw [modifyRow] at ih
    rw [ih]
    by_cases hk : key r = k
    · by_cases hv : key r = v
      · subst hk hv
        simp [hg]
      · have hne : v ≠ k := fun h => hv (hk.trans h.symm)
        simp [hk, hg, Ne.symm hne]
    · by_cases hv : key r = v
      · simp_all
      · simp [hk, hv]

theorem map_modifyRow (hg : ∀ r, key (g r) = key r) :
    (modifyRow key k g rows).map key = rows.map key := by
  rw [modifyRow, map_map]
  refine map_congr_left fun r _ => ?_
  by_cases h : key r = k <;> simp [h, hg]

/-- **A loop of changes**, each of which makes the same row of whatever has its key: the last one of
    a key counts. -/
theorem rowOf_foldl_modifyRow {ι : Type*} {n : ι → κ} {row : ι → ρ} {f : ι → ρ → ρ} :
    ∀ (l : List ι) (rows : List ρ), (∀ i ∈ l, key (row i) = n i) →
      (∀ i ∈ l, ∀ r, key r = n i → f i r = row i) → (∀ i ∈ l, ∀ r, key (f i r) = key r) →
      rowOf key (l.foldl (fun rows i => modifyRow key (n i) (f i) rows) rows) v =
        (rowOf key rows v).map fun r => (rowOf key (l.map row).reverse v).getD r
  | [], rows, _, _, _ => Option.map_id'.symm
  | i :: l, rows, hrow, hf, hkey => by
    have hrec := rowOf_foldl_modifyRow l (modifyRow key (n i) (f i) rows)
      (forall_mem_cons.1 hrow).2 (forall_mem_cons.1 hf).2
      (forall_mem_cons.1 hkey).2
    rw [foldl_cons, hrec, rowOf_modifyRow (hkey i mem_cons_self), map_cons, reverse_cons,
      rowOf_append, rowOf_singleton, hrow i mem_cons_self]
    cases hv : rowOf key rows v with
    | none =>
      rw [Option.map_none, ite_self]
      rfl
    | some r =>
      by_cases hn : v = n i
      · rw [if_pos hn, if_pos hn.symm, Option.map_some,
          hf i mem_cons_self r ((mem_of_rowOf hv).2.trans hn)]
        cases rowOf key (l.map row).reverse v <;> rfl
      · rw [if_neg hn, if_neg (Ne.symm hn), Option.or_none]

theorem map_foldl_modifyRow {ι : Type*} {n : ι → κ} {f : ι → ρ → ρ} (l : List ι) (rows : List ρ)
    (hkey : ∀ i ∈ l, ∀ r, key (f i r) = key r) :
    (l.foldl (fun rows i => modifyRow key (n i) (f i) rows) rows).map key = rows.map key :=
  foldl_same (g := map key) fun i hi _ => map_modifyRow (hkey i hi)

theorem rowOf_dropRow : rowOf key (dropRow key k rows) v =
    if v = k then none else rowOf key rows v := by
  induction rows with
  | nil => simp [dropRow, rowOf]
  | cons r rows ih =>
    rw [dropRow] at ih
    rw [dropRow, filter_cons, rowOf_cons]
    by_cases hk : key r = k
    · rw [if_neg (by simp [hk]), ih]
      split
      · rfl
      next hne => rw [if_neg fun h => hne (h.symm.trans hk)]
    · rw [if_pos (by simp [hk]), rowOf_cons, ih]
      by_cases hv : key r = v
      · rw [if_pos hv, if_neg fun h => hk (hv.trans h), if_pos hv]
      · rw [if_neg hv, if_neg hv]

theorem nodup_dropRow (h : (rows.map key).Nodup) : ((dropRow key k rows).map key).Nodup :=
  h.sublist (filter_sublist.map key)

theorem length_dropRow_lt {r : ρ} (hr : r ∈ rows) :
    (dropRow key (key r) rows).length < rows.length := by
  refine length_filter_lt_length_iff_exists.2 ⟨r, hr, ?_⟩
  simp

theorem rowOf_upsertRow (hnew : key new = k) (hg : ∀ r, key (g r) = key r) :
    rowOf key (upsertRow key k new g rows) v =
      if v = k then some (g ((rowOf key rows k).getD new)) else rowOf key rows v := by
  unfold upsertRow
  split
  next hin =>
    rw [rowOf_modifyRow hg]
    split
    · rename_i hv
      obtain ⟨r, hr⟩ := Option.isSome_iff_exists.1 (isSome_rowOf.2 hin)
      rw [hv, hr]
      rfl
    · rfl
  next hno =>
    have hnone : rowOf key rows k = none := rowOf_eq_none.2 hno
    rw [rowOf_append, rowOf_singleton, hg, hnew]
    by_cases hv : v = k
    · subst hv
      simp [hnone]
    · simp [hv, Ne.symm hv]

theorem nodup_upsertRow (hnew : key new = k) (hg : ∀ r, key (g r) = key r)
    (h : (rows.map key).Nodup) : ((upsertRow key k new g rows).map key).Nodup := by
  unfold upsertRow
  split
  · rwa [map_modifyRow hg]
  next hno =>
    rw [map_append, map_singleton, hg, hnew]
    exact nodup_append.2 ⟨h, nodup_singleton k, fun a ha b hb hab =>
      hno (by rwa [hab, mem_singleton.1 hb] at ha)⟩

theorem mem_upsertRow {r : ρ} (h : r ∈ upsertRow key k new g rows) :
    r ∈ rows ∨ ∃ r₀, (r₀ ∈ rows ∨ r₀ = new) ∧ r = g r₀ := by
  unfold upsertRow at h
  split at h
  · obtain ⟨r₀, hr0, rfl⟩ := mem_map.1 h
    split
    · exact .inr ⟨r₀, .inl hr0, rfl⟩
    · exact .inl hr0
  · rcases mem_append.1 h with h | h
    · exact .inl h
    · exact .inr ⟨new, .inr rfl, mem_singleton.1 h⟩

theorem mem_modifyRow {r : ρ} (h : r ∈ modifyRow key k g rows) :
    r ∈ rows ∨ ∃ r₀ ∈ rows, r = g r₀ := by
  obtain ⟨r₀, hr0, rfl⟩ := mem_map.1 h
  split
  · exact .inr ⟨r₀, hr0, rfl⟩
  · exact .inl hr0

theorem length_modifyRow : (modifyRow key k g rows).length = rows.length := length_map _

theorem mem_flatMap_upsertRow {φ : ρ → List β} {b x : β}
    (hg : ∀ r x, x ∈ φ (g r) ↔ x ∈ φ r ∨ x = b) (hnew : φ new = []) :
    x ∈ (upsertRow key k new g rows).flatMap φ ↔ x ∈ rows.flatMap φ ∨ x = b := by
  unfold upsertRow
  split
  next hin =>
    obtain ⟨r₀, hr0, hk⟩ := mem_map.1 hin
    simp only [modifyRow, mem_flatMap, mem_map, exists_exists_and_eq_and]
    constructor
    · rintro ⟨r, hr, hx⟩
      split at hx
      · exact ((hg r x).1 hx).imp_left fun hx => ⟨r, hr, hx⟩
      · exact .inl ⟨r, hr, hx⟩
    · rintro (⟨r, hr, hx⟩ | rfl)
      · refine ⟨r, hr, ?_⟩
        split
        · exact (hg r x).2 (.inl hx)
        · exact hx
      · exact ⟨r₀, hr0, by rw [if_pos hk]; exact (hg r₀ x).2 (.inr rfl)⟩
  · simp_all

end

end Ovn

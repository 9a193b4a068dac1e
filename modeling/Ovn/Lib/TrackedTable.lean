/-
  Tables of rows that are replaced by newer ones, with the rows tracked that are new, deleted or
  changed, and the rule for a loop over the tracked rows that brings a map up to date.
-/
import Mathlib.Data.List.Nodup

namespace Ovn

open List

variable {κ ρ β : Type*} [DecidableEq κ]

/-! ## Tables -/

def rowOf (key : ρ → κ) (rows : List ρ) (u : κ) : Option ρ := rows.find? fun r => key r = u

section
variable {key : ρ → κ} {rows : List ρ} {u : κ} {r : ρ}

theorem mem_of_rowOf (h : rowOf key rows u = some r) : r ∈ rows ∧ key r = u := by
  refine ⟨mem_of_find?_eq_some h, ?_⟩
  have := List.find?_some h
  simpa using this

theorem rowOf_eq_none : rowOf key rows u = none ↔ u ∉ rows.map key := by
  simp [rowOf]

theorem rowOf_append {rows' : List ρ} :
    rowOf key (rows ++ rows') u = (rowOf key rows u).or (rowOf key rows' u) := by
  rw [rowOf, List.find?_append]
  rfl

theorem rowOf_singleton : rowOf key [r] u = if key r = u then some r else none := by
  rw [rowOf]
  simp

theorem isSome_rowOf : (rowOf key rows u).isSome ↔ u ∈ rows.map key := by
  rw [← not_iff_not, ← rowOf_eq_none, Option.not_isSome_iff_eq_none]

theorem rowOf_of_mem (hnodup : (rows.map key).Nodup) (hr : r ∈ rows) :
    rowOf key rows (key r) = some r := by
  cases h : rowOf key rows (key r) with
  | none => exact absurd (mem_map_of_mem hr) (rowOf_eq_none.1 h)
  | some r' =>
    obtain ⟨hr', hk⟩ := mem_of_rowOf h
    rw [inj_on_of_nodup_map hnodup hr' hr hk]

theorem rowOf_self_iff (hnodup : (rows.map key).Nodup) :
    rowOf key rows (key r) = some r ↔ r ∈ rows :=
  ⟨fun h => (mem_of_rowOf h).1, rowOf_of_mem hnodup⟩

/-- A column of the row with a key. -/
theorem mem_getD_rowOf (hnodup : (rows.map key).Nodup) {φ : ρ → List β} {x : β} :
    x ∈ ((rowOf key rows u).map φ).getD [] ↔ ∃ r ∈ rows, key r = u ∧ x ∈ φ r := by
  constructor
  · intro h
    cases hr : rowOf key rows u with
    | none => simp [hr] at h
    | some r => exact ⟨r, (mem_of_rowOf hr).1, (mem_of_rowOf hr).2, by simpa [hr] using h⟩
  · rintro ⟨r, hr, rfl, hx⟩
    rwa [rowOf_of_mem hnodup hr]

end

/-! ## Tracked rows -/

structure TrackedRow (ρ : Type*) where
  row : ρ
  isNew : Bool
  isDeleted : Bool

/-- A tracked row says what became of it between two tables. -/
structure TrackedRow.Of (key : ρ → κ) (old new : List ρ) (t : TrackedRow ρ) : Prop where
  isNew : t.isNew = true ↔ key t.row ∉ old.map key
  isDeleted : t.isDeleted = true ↔ key t.row ∉ new.map key
  row : t.isDeleted = false → t.row ∈ new

omit [DecidableEq κ] in
theorem TrackedRow.Of.mem_old {key : ρ → κ} {old new : List ρ} {t : TrackedRow ρ}
    (h : t.Of key old new)
    (hn : t.isNew = false) : key t.row ∈ old.map key := by
  by_contra hno
  cases (h.isNew.2 hno).symm.trans hn

/-- The tracked rows say how one table became another.  A row may be tracked that did not
    change, and one that came and went. -/
structure Tracks (key : ρ → κ) (old new : List ρ) (ts : List (TrackedRow ρ)) : Prop where
  nodup : (ts.map fun t => key t.row).Nodup
  each : ∀ t ∈ ts, t.Of key old new
  changed : ∀ r ∈ new, r ∉ old → ∃ t ∈ ts, t.row = r
  deleted : ∀ r ∈ old, key r ∉ new.map key → ∃ t ∈ ts, key t.row = key r

omit [DecidableEq κ] in
theorem Tracks.same (key : ρ → κ) (rows : List ρ) : Tracks key rows rows [] where
  nodup := nodup_nil
  each := nofun
  changed _ hr hno := absurd hr hno
  deleted _ hr hno := absurd (mem_map_of_mem hr) hno

omit [DecidableEq κ] in
variable {key : ρ → κ}

theorem Tracks.replaced {r r' : ρ} (h : key r' = key r) :
    Tracks key [r] [r'] [⟨r', false, false⟩] where
  nodup := nodup_singleton _
  each t ht := by
    obtain rfl := mem_singleton.1 ht
    exact ⟨by simp [h], by simp, fun _ => mem_singleton_self _⟩
  changed s hs _ := ⟨_, mem_singleton_self _, (mem_singleton.1 hs).symm⟩
  deleted s hs _ := ⟨_, mem_singleton_self _, by rw [mem_singleton.1 hs, h]⟩

variable {old new : List ρ} {ts : List (TrackedRow ρ)}

theorem Tracks.rowOf_eq (h : Tracks key old new ts) (hold : (old.map key).Nodup) {u : κ}
    (hu : u ∉ ts.map fun t => key t.row) : rowOf key new u = rowOf key old u := by
  have hkey : ∀ t ∈ ts, key t.row ≠ u := fun t ht hk => hu (mem_map.2 ⟨t, ht, hk⟩)
  cases hn : rowOf key new u with
  | some r =>
    obtain ⟨hr, rfl⟩ := mem_of_rowOf hn
    have hin : r ∈ old := by
      by_contra hno
      obtain ⟨t, ht, rfl⟩ := h.changed r hr hno
      exact hkey t ht rfl
    exact (rowOf_of_mem hold hin).symm
  | none =>
    cases ho : rowOf key old u with
    | none => rfl
    | some r =>
      obtain ⟨hr, rfl⟩ := mem_of_rowOf ho
      obtain ⟨t, ht, hk⟩ := h.deleted r hr (rowOf_eq_none.1 hn)
      exact absurd hk (hkey t ht)

/-- Every tracked row was there and still is. -/
def OnlyUpdates (ts : List (TrackedRow ρ)) : Prop := ∀ t ∈ ts, t.isNew = false ∧ t.isDeleted = false

omit [DecidableEq κ] in
theorem onlyUpdates_of_not_any (h : ¬ (ts.any fun t => t.isNew || t.isDeleted) = true) :
    OnlyUpdates ts := by
  intro t ht
  have hno : ¬ (t.isNew || t.isDeleted) = true := fun hc => h (any_eq_true.2 ⟨t, ht, hc⟩)
  rwa [Bool.not_eq_true, Bool.or_eq_false_iff] at hno

omit [DecidableEq κ] in
theorem Tracks.keys_perm (h : Tracks key old new ts) (hts : OnlyUpdates ts)
    (hold : (old.map key).Nodup)
    (hnew : (new.map key).Nodup) : (new.map key).Perm (old.map key) := by
  rw [perm_ext_iff_of_nodup hnew hold]
  intro u
  constructor
  · intro hu
    obtain ⟨r, hr, rfl⟩ := mem_map.1 hu
    by_cases hin : r ∈ old
    · exact mem_map_of_mem hin
    · obtain ⟨t, ht, rfl⟩ := h.changed r hr hin
      exact (h.each t ht).mem_old (hts t ht).1
  · intro hu
    obtain ⟨r, hr, rfl⟩ := mem_map.1 hu
    by_contra hno
    obtain ⟨t, ht, hk⟩ := h.deleted r hr hno
    exact hno (hk ▸ mem_map_of_mem ((h.each t ht).row (hts t ht).2))

omit [DecidableEq κ] in
theorem Tracks.sublist {ts' : List (TrackedRow ρ)} (h : Tracks key old new ts)
    (hsub : ts'.Sublist ts)
    (hskip : ∀ t ∈ ts, t ∉ ts' → t.row ∈ old ∧ t.isDeleted = false) : Tracks key old new ts' where
  nodup := h.nodup.sublist (hsub.map _)
  each t ht := h.each t (hsub.subset ht)
  changed r hr hno := by
    obtain ⟨t, ht, rfl⟩ := h.changed r hr hno
    refine ⟨t, ?_, rfl⟩
    by_contra hnot
    exact hno (hskip t ht hnot).1
  deleted r hr hno := by
    obtain ⟨t, ht, hk⟩ := h.deleted r hr hno
    refine ⟨t, ?_, hk⟩
    by_contra hnot
    exact hno (hk ▸ mem_map_of_mem ((h.each t ht).row (hskip t ht hnot).2))

/-! ## Bringing a map up to date -/

/-- The map is up to date but for the keys that are still to come. -/
def Partly (keys : List κ) (old new m : κ → β) : Prop :=
  ∀ u, m u = if u ∈ keys then old u else new u

namespace Partly

variable {keys : List κ} {old new m : κ → β} {k : κ}

theorem start (h : ∀ u, u ∉ keys → new u = old u) : Partly keys old new old := by
  intro u
  split
  · rfl
  · exact (h u ‹_›).symm

theorem head (h : Partly (k :: keys) old new m) : m k = old k := by
  rw [h k, if_pos mem_cons_self]

theorem step (h : Partly (k :: keys) old new m) (hk : k ∉ keys) {m' : κ → β}
    (hself : m' k = new k) (hother : ∀ u, u ≠ k → m' u = m u) : Partly keys old new m' := by
  intro u
  by_cases hu : u = k
  · rw [hu, hself, if_neg hk]
  · rw [hother u hu, h u]
    simp [hu]

theorem done (h : Partly [] old new m) : m = new := by
  funext u
  exact h u

end Partly

end Ovn

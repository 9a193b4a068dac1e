/-
  A cache of rows of a table, keyed by what the rows hold.

  Rows are put into the cache and dropped from it by their keys: group by group, and one by one as
  they are tracked.  `Refresh` says when that leaves exactly the rows that are wanted.
-/
import Ovn.Lib.Ends
import Ovn.Lib.Maps
import Ovn.Lib.TrackedTable

namespace Ovn.RowCache

open List

variable {ρ κ β ι : Type*} [DecidableEq κ]

/-! ## Putting and dropping -/

section
variable (entry : ρ → Option (κ × β))

def put (c : κ → Option β) (r : ρ) : κ → Option β :=
  match entry r with
  | none => c
  | some e => Function.update c e.1 (some e.2)

def drop (c : κ → Option β) (r : ρ) : κ → Option β :=
  match entry r with
  | none => c
  | some e => Function.update c e.1 none

/-- The rows of a group are put if it is wanted, or else dropped. -/
def handle (c : κ → Option β) (g : Bool × List ρ) : κ → Option β :=
  g.2.foldl (fun c r => if g.1 then put entry c r else drop entry c r) c

/-- A tracked row is dropped unless it is new, and put unless it is deleted or not wanted. -/
def track (wanted : ρ → Bool) (c : κ → Option β) (t : TrackedRow ρ) : κ → Option β :=
  let c := if t.isNew then c else drop entry c t.row
  if t.isDeleted || !wanted t.row then c else put entry c t.row

/-- The rows that are wanted are cached, and nothing else. -/
def Exactly (rows : List ρ) (want : ρ → Prop) (c : κ → Option β) : Prop :=
  ∀ k v, c k = some v ↔ ∃ r ∈ rows, want r ∧ entry r = some (k, v)

end

section
variable {entry : ρ → Option (κ × β)} {c : κ → Option β} {r : ρ} {k : κ} {v : β} {b : Bool}

/-- Where `b` says whether the row is put or dropped. -/
theorem step_of_entry (h : entry r = some (k, v)) :
    (if b then put entry c r else drop entry c r) k = if b then some v else none := by
  cases b <;> simp [put, drop, h]

theorem step_of_ne (h : ∀ v, entry r ≠ some (k, v)) :
    (if b then put entry c r else drop entry c r) k = c k := by
  cases he : entry r with
  | none => cases b <;> simp [put, drop, he]
  | some e =>
    have hk : k ≠ e.1 := fun hk => h e.2 (hk ▸ he)
    cases b <;> simp [put, drop, he, hk]

variable {g : Bool × List ρ}

theorem handle_of_ne (h : ∀ r ∈ g.2, ∀ v, entry r ≠ some (k, v)) : handle entry c g k = c k := by
  exact foldl_same (g := fun c : κ → Option β => c k) fun r hr c => step_of_ne (h r hr)

theorem handle_of_entry (hv : ∀ r ∈ g.2, ∀ v', entry r = some (k, v') → v' = v)
    (h : ∃ r ∈ g.2, entry r = some (k, v)) : handle entry c g k = if g.1 then some v else none := by
  refine foldl_sets (g := fun c : κ → Option β => c k)
    (fun r hr he c => step_of_entry he) (fun r hr he c => ?_) (.inr h)
  exact step_of_ne fun v' h' => he (hv r hr v' h' ▸ h')

variable {gs : List (Bool × List ρ)}

theorem groups_of_ne (h : ∀ g ∈ gs, ∀ r ∈ g.2, ∀ v, entry r ≠ some (k, v)) :
    gs.foldl (handle entry) c k = c k :=
  foldl_same (g := fun c : κ → Option β => c k) fun g hg _ => handle_of_ne (h g hg)

theorem groups_of_entry (hv : ∀ g ∈ gs, ∀ r ∈ g.2, ∀ v', entry r = some (k, v') → v' = v ∧ g.1 = b)
    (h : ∃ g ∈ gs, ∃ r ∈ g.2, entry r = some (k, v)) :
    gs.foldl (handle entry) c k = if b then some v else none := by
  refine foldl_sets (g := fun c : κ → Option β => c k)
    (fun g hg he c => ?_) (fun g hg he c => ?_) (.inr h)
  · obtain ⟨r, hr, hrk⟩ := id he
    rw [handle_of_entry (fun r' hr' v' h' => (hv g hg r' hr' v' h').1) he, (hv g hg r hr v hrk).2]
  · refine handle_of_ne fun r hr v' hrk => he ⟨r, hr, ?_⟩
    rw [hrk, (hv g hg r hr v' hrk).1]

theorem of_handle_eq_some (h : handle entry c g k = some v) :
    c k = some v ∨ g.1 = true ∧ ∃ r ∈ g.2, entry r = some (k, v) := by
  have hor := foldl_or (Q := fun c : κ → Option β => c k = some v)
    (P := fun r => g.1 = true ∧ entry r = some (k, v)) (fun r _ c hc => ?_) h
  · exact hor.imp_right fun ⟨r, hr, hb, he⟩ => ⟨hb, r, hr, he⟩
  · by_cases he : ∃ w, entry r = some (k, w)
    · obtain ⟨w, he⟩ := he
      rw [step_of_entry he] at hc
      split at hc
      next hb => exact .inr ⟨hb, he.trans (by cases hc; rfl)⟩
      next => cases hc
    · rw [step_of_ne fun w hw => he ⟨w, hw⟩] at hc
      exact .inl hc

theorem of_groups_eq_some (h : gs.foldl (handle entry) c k = some v) :
    c k = some v ∨ ∃ g ∈ gs, g.1 = true ∧ ∃ r ∈ g.2, entry r = some (k, v) :=
  foldl_or (Q := fun c : κ → Option β => c k = some v) (fun _ _ _ => of_handle_eq_some) h

theorem groups_exactly {rows : List ρ} {want : ρ → Prop} (hsub : ∀ g ∈ gs, ∀ r ∈ g.2, r ∈ rows)
    (hwants : ∀ g ∈ gs, ∀ r ∈ g.2, (g.1 = true ↔ want r))
    (hall : ∀ r ∈ rows, want r → ∃ g ∈ gs, r ∈ g.2)
    (hunique : ∀ r ∈ rows, ∀ r' ∈ rows, ∀ k v v', entry r = some (k, v) → entry r' = some (k, v') →
      r = r') :
    Exactly entry rows want (gs.foldl (handle entry) fun _ => none) := by
  intro k v
  have hrow : ∀ g ∈ gs, ∀ r ∈ g.2, ∀ w, entry r = some (k, w) → ∀ c : κ → Option β,
      gs.foldl (handle entry) c k = if g.1 then some w else none := by
    intro g hg r hr w he c
    refine groups_of_entry (fun g' hg' r' hr' v' he' => ?_) ⟨g, hg, r, hr, he⟩
    obtain rfl := hunique r' (hsub g' hg' r' hr') r (hsub g hg r hr) k v' w he' he
    rw [he, Option.some.injEq, Prod.mk.injEq] at he'
    exact ⟨he'.2.symm, Bool.eq_iff_iff.2 ((hwants g' hg' r' hr').trans (hwants g hg r' hr).symm)⟩
  constructor
  · intro hk
    by_cases hin : ∃ g ∈ gs, ∃ r ∈ g.2, ∃ w, entry r = some (k, w)
    · obtain ⟨g, hg, r, hr, w, he⟩ := hin
      rw [hrow g hg r hr w he] at hk
      split at hk
      next hw =>
        cases hk
        exact ⟨r, hsub g hg r hr, (hwants g hg r hr).1 hw, he⟩
      next => cases hk
    · rw [groups_of_ne fun g hg r hr w he => hin ⟨g, hg, r, hr, w, he⟩] at hk
      cases hk
  · rintro ⟨r, hr, hw, he⟩
    obtain ⟨g, hg, hrg⟩ := hall r hr hw
    rw [hrow g hg r hrg v he, if_pos ((hwants g hg r hrg).2 hw)]

variable {wanted : ρ → Bool} {t : TrackedRow ρ}

theorem track_of_ne (h : ∀ v, entry t.row ≠ some (k, v)) : track entry wanted c t k = c k := by
  unfold track
  have hdrop : (if t.isNew then c else drop entry c t.row) k = c k := by
    split
    · rfl
    · exact step_of_ne (b := false) h
  split
  · exact hdrop
  · exact (step_of_ne (b := true) h).trans hdrop

theorem track_of_entry (h : entry t.row = some (k, v)) : track entry wanted c t k =
    if t.isDeleted = false ∧ wanted t.row = true then some v else if t.isNew then c k
    else none := by
  unfold track
  cases hd : t.isDeleted <;> cases hw : wanted t.row <;>
    simp
  case false.true => exact step_of_entry (b := true) h
  all_goals
    cases hn : t.isNew
    · exact step_of_entry (b := false) h
    · rfl

theorem tracks_of_ne {ts : List (TrackedRow ρ)} (h : ∀ t ∈ ts, ∀ v, entry t.row ≠ some (k, v)) :
    ts.foldl (track entry wanted) c k = c k :=
  foldl_same (g := fun c : κ → Option β => c k) fun t ht _ => track_of_ne (h t ht)

theorem tracks_of_mem {key : ρ → ι} {ts : List (TrackedRow ρ)}
    (hnodup : (ts.map fun t => key t.row).Nodup)
    (ht : t ∈ ts) (h : ∀ t' ∈ ts, ∀ v, entry t'.row = some (k, v) → key t'.row = key t.row) :
    ts.foldl (track entry wanted) c k = track entry wanted c t k := by
  obtain ⟨l, l', rfl⟩ := append_of_mem ht
  rw [map_append, map_cons] at hnodup
  obtain ⟨-, hr, hl⟩ := nodup_append.1 hnodup
  have hbefore : ∀ t' ∈ l, ∀ v, entry t'.row ≠ some (k, v) := fun t' ht' v hv =>
    hl _ (mem_map_of_mem ht') _ mem_cons_self (h t' (mem_append_left _ ht') v hv)
  have hafter : ∀ t' ∈ l', ∀ v, entry t'.row ≠ some (k, v) := fun t' ht' v hv =>
    (nodup_cons.1 hr).1 ((h t' (mem_append_right _ (mem_cons_of_mem t ht')) v hv) ▸
      mem_map_of_mem ht')
  rw [foldl_append, foldl_cons, tracks_of_ne hafter]
  have hc : l.foldl (track entry wanted) c k = c k := tracks_of_ne hbefore
  by_cases he : ∃ v, entry t.row = some (k, v)
  · obtain ⟨v, he⟩ := he
    rw [track_of_entry he, track_of_entry he, hc]
  · have he : ∀ v, entry t.row ≠ some (k, v) := fun v hv => he ⟨v, hv⟩
    rw [track_of_ne he, track_of_ne he, hc]

end

omit [DecidableEq κ] in
theorem Exactly.unique {entry : ρ → Option (κ × β)} {rows : List ρ} {want : ρ → Prop}
    {c c' : κ → Option β}
    (h : Exactly entry rows want c) (h' : Exactly entry rows want c') : c = c' := by
  ext k v
  rw [h k v, h' k v]

omit [DecidableEq κ] in
theorem Exactly.congr {entry entry' : ρ → Option (κ × β)} {rows : List ρ} {want : ρ → Prop}
    {c : κ → Option β}
    (h : Exactly entry rows want c) (he : ∀ r ∈ rows, entry' r = entry r) :
    Exactly entry' rows want c := by
  intro k v
  rw [h k v]
  exact exists_congr fun r => and_congr_right fun hr => by rw [he r hr]

/-! ## A refresh -/

/-- Rows of a table that is replaced are cached by the groups `before`, by what is tracked of them,
    and by the groups `after`.  What that leaves out is what it was, no cached row changes its key,
    and no two rows have the same. -/
structure Refresh (key : ρ → ι) (entry entry' : ρ → Option (κ × β)) (old new : List ρ)
    (want want' : ρ → Prop) (before after : List (Bool × List ρ)) (ts : List (TrackedRow ρ))
    (wanted : ρ → Bool) : Prop where
  nodup : (old.map key).Nodup
  tracks : Tracks key old new ts
  keeps : ∀ r ∈ old, want r → ∀ r', (r' ∈ new ∨ ∃ t ∈ ts, t.row = r') → key r' = key r →
    (entry' r').map Prod.fst = (entry r).map Prod.fst
  unique : ∀ r r', (r ∈ new ∨ ∃ t ∈ ts, t.row = r) → (r' ∈ new ∨ ∃ t ∈ ts, t.row = r') → ∀ e e',
    entry' r = some e → entry' r' = some e' → e.1 = e'.1 → key r = key r'
  unique_old : ∀ r ∈ old, want r → ∀ r', (r' ∈ new ∨ ∃ t ∈ ts, t.row = r') → ∀ e e',
    entry r = some e → entry' r' = some e' → e.1 = e'.1 → key r = key r'
  nodup_new : (new.map key).Nodup
  before_sub : ∀ g ∈ before, ∀ r ∈ g.2, r ∈ new
  after_sub : ∀ g ∈ after, ∀ r ∈ g.2, r ∈ new
  after_wants : ∀ g ∈ after, ∀ r ∈ g.2, (g.1 = true ↔ want' r)
  before_wants : ∀ g ∈ before, ∀ r ∈ g.2, (∀ g' ∈ after, r ∉ g'.2) → (g.1 = true ↔ want' r)
  tracked_wants : ∀ r ∈ new, (∀ g ∈ after, r ∉ g.2) → (wanted r = true ↔ want' r)
  rest : ∀ r ∈ new, (∀ t ∈ ts, key t.row ≠ key r) → (∀ g ∈ before, r ∉ g.2) →
    (∀ g ∈ after, r ∉ g.2) →
    entry' r = entry r ∧ (want' r ↔ want r)

namespace Refresh

variable {key : ρ → ι} {entry entry' : ρ → Option (κ × β)} {old new : List ρ}
    {want want' : ρ → Prop}
  {before after : List (Bool × List ρ)} {ts : List (TrackedRow ρ)} {wanted : ρ → Bool}
  {c : κ → Option β} {k : κ} {v : β} {r : ρ}

section
variable (h : Refresh key entry entry' old new want want' before after ts wanted)
include h

omit [DecidableEq κ] in
theorem eq_of_entry (hr : r ∈ new)
    (he : entry' r = some (k, v)) {r' : ρ} (hr' : r' ∈ new) {v' : β}
    (he' : entry' r' = some (k, v')) :
    r' = r :=
  inj_on_of_nodup_map h.nodup_new hr' hr (h.unique r' r (.inl hr') (.inl hr) _ _ he' he rfl)

variable {w : β}

/-- What groups of the new table leave of a row that they hold. -/
theorem groups_eq (hr : r ∈ new) (he : entry' r = some (k, v)) {gs : List (Bool × List ρ)}
    (hsub : ∀ g ∈ gs, ∀ r ∈ g.2, r ∈ new) (hwants : ∀ g ∈ gs, r ∈ g.2 → (g.1 = true ↔ want' r))
    (hin : ∃ g ∈ gs, r ∈ g.2) : gs.foldl (handle entry') c k = some w ↔ want' r ∧ v = w := by
  obtain ⟨g₀, hg0, hr0⟩ := hin
  have hall : ∀ g ∈ gs, ∀ r' ∈ g.2, ∀ v', entry' r' = some (k, v') → v' = v ∧ g.1 = g₀.1 := by
    intro g hg r' hr' v' he'
    obtain rfl := h.eq_of_entry hr he (hsub g hg r' hr') he'
    rw [he, Option.some.injEq, Prod.mk.injEq] at he'
    exact ⟨he'.2.symm, Bool.eq_iff_iff.2 ((hwants g hg hr').trans (hwants g₀ hg0 hr0).symm)⟩
  rw [groups_of_entry hall ⟨g₀, hg0, r, hr0, he⟩, ← hwants g₀ hg0 hr0]
  cases g₀.1 <;> simp

omit h in
theorem groups_ne {gs : List (Bool × List ρ)} (hsub : ∀ g ∈ gs, ∀ r ∈ g.2, r ∈ new)
    (hk : ∀ r ∈ new, ∀ v, entry' r = some (k, v) → ∀ g ∈ gs, r ∉ g.2) :
    gs.foldl (handle entry') c k = c k :=
  groups_of_ne fun g hg r hr v he => hk r (hsub g hg r hr) v he g hg hr

omit [DecidableEq κ] in
theorem cached_iff (hc : Exactly entry old want c) (hr : r ∈ new) (hold : r ∈ old)
    (he : entry r = some (k, v)) (he' : entry' r = some (k, v)) :
    c k = some w ↔ want r ∧ v = w := by
  rw [hc k w]
  constructor
  · rintro ⟨r', hr', hw', hk'⟩
    have hkey := h.unique_old r' hr' hw' r (.inl hr) _ _ hk' he' rfl
    obtain rfl := inj_on_of_nodup_map h.nodup hr' hold hkey
    rw [hk', Option.some.injEq, Prod.mk.injEq] at he
    exact ⟨hw', he.2.symm⟩
  · rintro ⟨hw, rfl⟩
    exact ⟨r, hold, hw, he⟩

theorem middle_iff (hc : Exactly entry old want c) (hr : r ∈ new) (he : entry' r = some (k, v))
    (hafter : ∀ g ∈ after, r ∉ g.2) :
    ts.foldl (track entry' wanted) (before.foldl (handle entry') c) k = some w ↔ want' r ∧
    v = w := by
  have hfirst : (∃ g ∈ before, r ∈ g.2) →
      (before.foldl (handle entry') c k = some w ↔ want' r ∧ v = w) := fun hin =>
    h.groups_eq hr he h.before_sub (fun g hg hrg => h.before_wants g hg r hrg hafter) hin
  have hskip : (¬ ∃ g ∈ before, r ∈ g.2) → before.foldl (handle entry') c k = c k := by
    intro hno
    refine groups_ne h.before_sub fun r' hr' v' he' g hg hrg => hno ⟨g, hg, ?_⟩
    exact h.eq_of_entry hr he hr' he' ▸ hrg
  by_cases htr : ∃ t ∈ ts, key t.row = key r
  · obtain ⟨t, ht, hkey⟩ := htr
    have hnd : t.isDeleted = false := by
      rw [Bool.eq_false_iff]
      intro hd
      exact (h.tracks.each t ht).isDeleted.1 hd (hkey ▸ mem_map_of_mem hr)
    obtain rfl := inj_on_of_nodup_map h.nodup_new ((h.tracks.each t ht).row hnd) hr hkey
    have hone : ∀ t' ∈ ts, ∀ v', entry' t'.row = some (k, v') → key t'.row = key t.row :=
      fun t' ht' v' he' => h.unique _ _ (.inr ⟨t', ht', rfl⟩) (.inl hr) _ _ he' he rfl
    rw [tracks_of_mem h.tracks.nodup ht hone, track_of_entry he, hnd, ← h.tracked_wants _ hr hafter]
    by_cases hw : wanted t.row = true
    · simp [hw]
    simp only [hw, and_false, if_false, false_and, iff_false, Bool.false_eq_true]
    have hw' : ¬ want' t.row := fun hw' => hw ((h.tracked_wants _ hr hafter).2 hw')
    split
    next hn =>
      intro hcw
      by_cases hin : ∃ g ∈ before, t.row ∈ g.2
      · exact hw' ((hfirst hin).1 hcw).1
      · -- the row is new, so that no row of its key was cached
        rw [hskip hin, hc k w] at hcw
        obtain ⟨r', hr', hwr', hk'⟩ := hcw
        have hkey' := h.unique_old r' hr' hwr' _ (.inl hr) _ _ hk' he rfl
        exact (h.tracks.each t ht).isNew.1 hn (hkey' ▸ mem_map_of_mem hr')
    next => exact nofun
  · have htr : ∀ t ∈ ts, key t.row ≠ key r := fun t ht hk => htr ⟨t, ht, hk⟩
    have hnone : ∀ t ∈ ts, ∀ v', entry' t.row ≠ some (k, v') := fun t ht v' he' =>
      htr t ht (h.unique _ _ (.inr ⟨t, ht, rfl⟩) (.inl hr) _ _ he' he rfl)
    rw [tracks_of_ne hnone]
    by_cases hin : ∃ g ∈ before, r ∈ g.2
    · exact hfirst hin
    have hold : r ∈ old := by
      by_contra hno
      obtain ⟨t, ht, rfl⟩ := h.tracks.changed r hr hno
      exact htr t ht rfl
    obtain ⟨hee, hww⟩ := h.rest r hr htr (fun g hg hrg => hin ⟨g, hg, hrg⟩) hafter
    rw [hskip hin, h.cached_iff hc hr hold (hee ▸ he) he, hww]

theorem middle_none (hc : Exactly entry old want c) (hk : ∀ r ∈ new, ∀ v, entry' r ≠ some (k, v)) :
    ts.foldl (track entry' wanted) (before.foldl (handle entry') c) k = none := by
  have hfirst : before.foldl (handle entry') c k = c k :=
    groups_ne h.before_sub fun r hr v he => absurd he (hk r hr v)
  have hdeleted : ∀ t ∈ ts, ∀ v, entry' t.row = some (k, v) → t.isDeleted = true := by
    intro t ht v he
    by_contra hnd
    exact hk t.row ((h.tracks.each t ht).row (Bool.eq_false_iff.2 hnd)) v he
  by_cases htr : ∃ t ∈ ts, ∃ v, entry' t.row = some (k, v)
  · obtain ⟨t, ht, v, he⟩ := htr
    have hone : ∀ t' ∈ ts, ∀ v', entry' t'.row = some (k, v') → key t'.row = key t.row :=
      fun t' ht' v' he' => h.unique _ _ (.inr ⟨t', ht', rfl⟩) (.inr ⟨t, ht, rfl⟩) _ _ he' he rfl
    rw [tracks_of_mem h.tracks.nodup ht hone, track_of_entry he, hdeleted t ht v he, hfirst]
    simp only [Bool.true_eq_false, false_and, if_false]
    split
    next hn =>
      rw [Option.eq_none_iff_forall_ne_some]
      intro w hcw
      obtain ⟨r, hr, hwr, hkr⟩ := (hc k w).1 hcw
      have hkey := h.unique_old r hr hwr _ (.inr ⟨t, ht, rfl⟩) _ _ hkr he rfl
      exact (h.tracks.each t ht).isNew.1 hn (hkey ▸ mem_map_of_mem hr)
    next => rfl
  · have htr : ∀ t ∈ ts, ∀ v, entry' t.row ≠ some (k, v) := fun t ht v he => htr ⟨t, ht, v, he⟩
    rw [tracks_of_ne htr, hfirst, Option.eq_none_iff_forall_ne_some]
    intro w hcw
    obtain ⟨r, hr, hwr, hkr⟩ := (hc k w).1 hcw
    -- a row that was cached is still there with its key, or it is tracked with it
    have hkeeps : ∀ r', (r' ∈ new ∨ ∃ t ∈ ts, t.row = r') → key r' = key r →
        ∃ v, entry' r' = some (k, v) := by
      intro r' hr' hkey
      have := h.keeps r hr hwr r' hr' hkey
      rw [hkr, Option.map_some, Option.map_eq_some_iff] at this
      obtain ⟨⟨k', v⟩, he, rfl⟩ := this
      exact ⟨v, he⟩
    by_cases hin : key r ∈ new.map key
    · obtain ⟨r', hr', hkey⟩ := mem_map.1 hin
      obtain ⟨v, he⟩ := hkeeps r' (.inl hr') hkey
      exact hk r' hr' v he
    · obtain ⟨t, ht, hkey⟩ := h.tracks.deleted r hr hin
      obtain ⟨v, he⟩ := hkeeps t.row (.inr ⟨t, ht, rfl⟩) hkey
      exact htr t ht v he

theorem exactly (hc : Exactly entry old want c) : Exactly entry' new want'
      (after.foldl (handle entry')
        (ts.foldl (track entry' wanted) (before.foldl (handle entry') c))) := by
  intro k w
  by_cases hk : ∃ r ∈ new, ∃ v, entry' r = some (k, v)
  · obtain ⟨r, hr, v, he⟩ := hk
    have hspec : (∃ r' ∈ new, want' r' ∧ entry' r' = some (k, w)) ↔ want' r ∧ v = w := by
      constructor
      · rintro ⟨r', hr', hw', he'⟩
        obtain rfl := h.eq_of_entry hr he hr' he'
        rw [he, Option.some.injEq, Prod.mk.injEq] at he'
        exact ⟨hw', he'.2⟩
      · rintro ⟨hw, rfl⟩
        exact ⟨r, hr, hw, he⟩
    rw [hspec]
    by_cases hin : ∃ g ∈ after, r ∈ g.2
    · exact h.groups_eq hr he h.after_sub (fun g hg hrg => h.after_wants g hg r hrg) hin
    · have hin : ∀ g ∈ after, r ∉ g.2 := fun g hg hrg => hin ⟨g, hg, hrg⟩
      rw [groups_ne h.after_sub fun r' hr' v' he' => h.eq_of_entry hr he hr' he' ▸ hin]
      exact h.middle_iff hc hr he hin
  · have hk : ∀ r ∈ new, ∀ v, entry' r ≠ some (k, v) := fun r hr v he => hk ⟨r, hr, v, he⟩
    rw [groups_ne h.after_sub fun r hr v he => absurd he (hk r hr v), h.middle_none hc hk]
    refine ⟨nofun, ?_⟩
    rintro ⟨r, hr, -, he⟩
    exact absurd he (hk r hr w)

end

end Refresh

end Ovn.RowCache

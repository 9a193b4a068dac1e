/-
  What the southbound database has after the logical flow table is synchronized, and when every
  flow has its datapaths.
-/
import Ovn.Northd.LflowSync
import Ovn.Lib.Ends

namespace Ovn.LflowSync

open Function (update update_apply update_of_ne update_self)
open List

/-! ## Datapaths of a group -/

namespace Sync

variable (dps : Datapaths)

/-- The datapaths of a group, unless there is one that is not found. -/
def validDatapaths (l : List ℕ) : Option (List (DpType × ℕ)) :=
  if ∀ u ∈ l, (dps.fromSbrec u).isSome then some (l.filterMap dps.fromSbrec) else none

/-- A datapath of a group, before any that is not found, has an index beyond the bitmaps of a
    type. -/
def Overflows (t : DpType) : List ℕ → Prop
  | [] => False
  | u :: us => ∃ x, dps.fromSbrec u = some x ∧ (bitmapRoom (dps.size t) ≤ x.2 ∨ Overflows t us)

variable {dps}

theorem groupDatapaths_cases (t : DpType) : ∀ l : List ℕ,
    Overflows dps t l ∧ groupDatapaths dps t l = .error .outOfBounds ∨
    ¬ Overflows dps t l ∧ groupDatapaths dps t l = .ok (validDatapaths dps l)
  | [] => .inr ⟨id, rfl⟩
  | u :: us => by
    unfold Overflows groupDatapaths validDatapaths
    cases hu : dps.fromSbrec u with
    | none => exact .inr ⟨nofun, by simp [hu]⟩
    | some x =>
      dsimp only
      split
      next hlt =>
        have hroom : ¬ bitmapRoom (dps.size t) ≤ x.2 := by omega
        rcases groupDatapaths_cases t us with ⟨hover, heq⟩ | ⟨hover, heq⟩
        · exact .inl ⟨⟨x, rfl, .inr hover⟩, by rw [heq]; rfl⟩
        · refine .inr ⟨?_, ?_⟩
          · rintro ⟨y, hy, hle | hus⟩
            · exact hroom (Option.some_inj.1 hy ▸ hle)
            · exact hover hus
          · rw [heq]
            unfold validDatapaths
            by_cases hall : ∀ v ∈ us, (dps.fromSbrec v).isSome
            · simp [hu, bind, Except.bind]
            · simp [hu, hall, bind, Except.bind]
      next hge => exact .inl ⟨⟨x, rfl, .inl (by omega)⟩, rfl⟩

theorem not_overflows {t : DpType} : ∀ {l : List ℕ},
    (∀ u ∈ l, ∀ x, dps.fromSbrec u = some x → x.1 = t) → ¬ Overflows dps t l
  | [], _ => id
  | u :: us, h => by
    rintro ⟨x, hx, hle | hus⟩
    · obtain rfl := h u mem_cons_self x hx
      have hlt := ((dps.fromSbrec_iff u x.1 x.2).1 hx).1
      unfold bitmapRoom at hle
      omega
    · exact not_overflows (fun v hv => h v (mem_cons_of_mem u hv)) hus

/-- The group is taken for one of a bitmap of a type, although it has a datapath of the other
    type, or its datapaths do not fit into such a bitmap. -/
def Misleading (dps : Datapaths) (t : DpType) (b : Finset ℕ) (l : List ℕ) : Prop :=
  Overflows dps t l ∨ ∃ ods, validDatapaths dps l = some ods ∧ groupBitmap dps t ods = b ∧
    ∃ x ∈ ods, x.1 ≠ t

theorem mem_of_validDatapaths {l : List ℕ} {ods : List (DpType × ℕ)}
    (h : validDatapaths dps l = some ods)
    {x : DpType × ℕ} (hx : x ∈ ods) : ∃ u ∈ l, dps.fromSbrec u = some x := by
  unfold validDatapaths at h
  split at h
  · cases h
    exact mem_filterMap.1 hx
  · cases h

theorem not_misleading {t : DpType} {b : Finset ℕ} {l : List ℕ}
    (h : ∀ u ∈ l, ∀ x, dps.fromSbrec u = some x → x.1 = t) : ¬ Misleading dps t b l := by
  rintro (hover | ⟨ods, hv, -, x, hx, hne⟩)
  · exact not_overflows h hover
  · obtain ⟨u, hu, hux⟩ := mem_of_validDatapaths hv hx
    exact hne (h u hu x hux)

end Sync

namespace Datapaths

variable (dps : Datapaths)

/-- The bindings are exactly those of the datapaths in a bitmap. -/
def Exactly (t : DpType) (bitmap : Finset ℕ) (l : List ℕ) : Prop :=
  ∀ u, u ∈ l ↔ ∃ i ∈ bitmap, dps.sb t i = u

variable {dps} {t t' : DpType} {b b' : Finset ℕ} {l : List ℕ}

theorem fromSbrec_sb {i : ℕ} (h : i < dps.size t) : dps.fromSbrec (dps.sb t i) = some (t, i) :=
  (dps.fromSbrec_iff _ t i).2 ⟨h, rfl⟩

theorem sb_inj {i j : ℕ} (hi : i < dps.size t) (hj : j < dps.size t')
    (h : dps.sb t i = dps.sb t' j) :
    t = t' ∧ i = j := by
  have heq := fromSbrec_sb hi
  rw [h, fromSbrec_sb hj] at heq
  cases heq
  exact ⟨rfl, rfl⟩

theorem exactly_bindings (hb : ∀ i ∈ b, i < dps.size t) : dps.Exactly t b (dps.bindings t b) := by
  intro u
  unfold bindings
  rw [mem_map]
  refine exists_congr fun i => and_congr_left fun _ => ?_
  rw [mem_filter, mem_range, decide_eq_true_iff]
  exact and_iff_right_of_imp (hb i)

theorem nodup_bindings (t : DpType) (b : Finset ℕ) : (dps.bindings t b).Nodup := by
  refine (nodup_range.filter _).map_on fun i hi j hj h => ?_
  rw [mem_filter, mem_range] at hi hj
  exact (sb_inj hi.1 hj.1 h).2

theorem Exactly.unique (hb : ∀ i ∈ b, i < dps.size t) (hb' : ∀ i ∈ b', i < dps.size t')
    (hne : b.Nonempty) (h : dps.Exactly t b l) (h' : dps.Exactly t' b' l) : t = t' ∧ b = b' := by
  have hsub : ∀ i ∈ b, t = t' ∧ i ∈ b' := by
    intro i hi
    obtain ⟨j, hj, hij⟩ := (h' _).1 ((h _).2 ⟨i, hi, rfl⟩)
    obtain ⟨ht, rfl⟩ := sb_inj (hb i hi) (hb' j hj) hij.symm
    exact ⟨ht, hj⟩
  obtain ⟨i, hi⟩ := hne
  obtain ⟨rfl, -⟩ := hsub i hi
  refine ⟨rfl, Finset.Subset.antisymm (fun i hi => (hsub i hi).2) fun j hj => ?_⟩
  obtain ⟨i, hi, hij⟩ := (h _).1 ((h' _).2 ⟨j, hj, rfl⟩)
  obtain ⟨-, rfl⟩ := sb_inj (hb i hi) (hb' j hj) hij
  exact hi

section
variable (hb : ∀ i ∈ b, i < dps.size t) (h : dps.Exactly t b l)
include hb h

theorem Exactly.fromSbrec {u : ℕ} (hu : u ∈ l) : ∃ i ∈ b, dps.fromSbrec u = some (t, i) := by
  obtain ⟨i, hi, rfl⟩ := (h u).1 hu
  exact ⟨i, hi, fromSbrec_sb (hb i hi)⟩

theorem Exactly.validDatapaths : Sync.validDatapaths dps l = some (l.filterMap dps.fromSbrec) := by
  refine if_pos fun u hu => ?_
  obtain ⟨i, -, hi⟩ := h.fromSbrec hb hu
  rw [hi]
  rfl

theorem Exactly.mem_filterMap (x : DpType × ℕ) :
    x ∈ l.filterMap dps.fromSbrec ↔ x.1 = t ∧ x.2 ∈ b := by
  rw [List.mem_filterMap]
  constructor
  · rintro ⟨u, hu, hx⟩
    obtain ⟨i, hi, hui⟩ := h.fromSbrec hb hu
    cases hui.symm.trans hx
    exact ⟨rfl, hi⟩
  · rintro ⟨rfl, hx⟩
    exact ⟨_, (h _).2 ⟨x.2, hx, rfl⟩, fromSbrec_sb (hb _ hx)⟩

theorem Exactly.groupBitmap : Sync.groupBitmap dps t (l.filterMap dps.fromSbrec) = b := by
  ext i
  unfold Sync.groupBitmap
  rw [Finset.mem_filter, mem_toFinset, mem_map]
  constructor
  · rintro ⟨⟨x, hx, rfl⟩, -⟩
    exact ((h.mem_filterMap hb x).1 hx).2
  · intro hi
    exact ⟨⟨(t, i), (h.mem_filterMap hb (t, i)).2 ⟨rfl, hi⟩, rfl⟩, hb i hi⟩

theorem Exactly.length (hnodup : l.Nodup) : (l.filterMap dps.fromSbrec).length = b.card := by
  have himage : l.toFinset = b.image (dps.sb t) := by
    ext u
    rw [mem_toFinset, Finset.mem_image]
    exact h u
  rw [filterMap_length_eq_length.2 fun u hu => (h.fromSbrec hb hu).elim fun i hi => hi.2 ▸ rfl,
    ← toFinset_card_of_nodup hnodup,
    himage, Finset.card_image_of_injOn]
  intro i hi j hj hij
  exact (sb_inj (hb i hi) (hb j hj) hij).2

theorem Exactly.findSome (hne : b.Nonempty) : ∃ u us, l = u :: us ∧
    ((u :: us).findSome? dps.fromSbrec).map (·.1) = some t := by
  obtain ⟨i, hi⟩ := hne
  cases l with
  | nil => exact absurd ((h _).2 ⟨i, hi, rfl⟩) not_mem_nil
  | cons u us =>
    obtain ⟨j, -, hj⟩ := h.fromSbrec hb mem_cons_self
    refine ⟨u, us, rfl, ?_⟩
    rw [findSome?_cons, hj]
    rfl

end

/-- A group that is valid and has the bitmap is the right one if its datapaths have the type. -/
theorem exactly_of_groupBitmap {ods : List (DpType × ℕ)} (hv : Sync.validDatapaths dps l = some ods)
    (hbitmap : Sync.groupBitmap dps t ods = b) (ht : ∀ x ∈ ods, x.1 = t) : dps.Exactly t b l := by
  unfold Sync.validDatapaths at hv
  split at hv
  next hall =>
    cases hv
    intro u
    constructor
    · intro hu
      obtain ⟨x, hx⟩ := Option.isSome_iff_exists.1 (hall u hu)
      have hmem := List.mem_filterMap.2 ⟨u, hu, hx⟩
      obtain ⟨t', i⟩ := x
      obtain rfl : t' = t := ht _ hmem
      obtain ⟨hlt, hsb⟩ := (dps.fromSbrec_iff u t' i).1 hx
      refine ⟨i, ?_, hsb⟩
      rw [← hbitmap]
      exact Finset.mem_filter.2 ⟨mem_toFinset.2 (mem_map_of_mem hmem), hlt⟩
    · rintro ⟨i, hi, rfl⟩
      rw [← hbitmap] at hi
      obtain ⟨hi, hlt⟩ := Finset.mem_filter.1 hi
      obtain ⟨x, hx, rfl⟩ := mem_map.1 (mem_toFinset.1 hi)
      have hxt := ht x hx
      obtain ⟨u, hu, hux⟩ := List.mem_filterMap.1 hx
      obtain ⟨-, hsb⟩ := (dps.fromSbrec_iff u x.1 x.2).1 hux
      rw [← hxt, hsb]
      exact hu
  · cases hv

end Datapaths

/-! ## Synchronization -/

/-- The datapaths that a row refers to, itself or by its group. -/
def SbFlow.datapaths (groups : ℕ → Option (List ℕ)) (r : SbFlow) : List ℕ :=
  r.logicalDatapath.toList ++ (r.logicalDpGroup.bind groups).getD []

/-- A row is that of a flow, with exactly its datapaths. -/
def Refers (dps : Datapaths) (groups : ℕ → Option (List ℕ)) (f : Lflow) (r : SbFlow) : Prop :=
  r.spec = f.spec ∧ dps.Exactly f.dpType f.dpgBitmap (r.datapaths groups)

/-- The rows are one to one those of the flows that have a datapath; flows whose rows name one
    group have the same datapaths. -/
def Synced {dps : Datapaths} (table : Table dps) (s : Sync) : Prop :=
  ∃ l : List (Lflow × SbFlow), (l.map (·.1)).Perm (table.entries.filter (·.dpgBitmap.Nonempty)) ∧
    (l.map (·.2)).Perm s.rows ∧ (∀ p ∈ l, Refers dps s.groups p.1 p.2) ∧
    ∀ p ∈ l, ∀ q ∈ l, ∀ u, p.2.logicalDpGroup = some u → q.2.logicalDpGroup = some u →
      p.1.dpType = q.1.dpType ∧ p.1.dpgBitmap = q.1.dpgBitmap

/-- A flow with several datapaths, which are those of no group that is known, finds a misleading
    group at its row. -/
def Sync.Misled (dps : Datapaths) (s : Sync) (sbflow : SbFlow) : Prop :=
  ∃ f u l, s.ovnLflowFind dps sbflow = some f ∧ 1 < f.dpgBitmap.card ∧
    s.ovnDpGroupGet f.dpType f.dpgBitmap = none ∧ sbflow.logicalDpGroup = some u ∧
    s.groups u = some l ∧
    Misleading dps f.dpType f.dpgBitmap l

/-- No flow is misled, from a state on. -/
def Sync.Sound (dps : Datapaths) : Sync → List SbFlow → Prop
  | _, [] => True
  | s, r :: rs => ¬ s.Misled dps r ∧ ∀ s', s.syncRow dps r = .ok s' → Sound dps s' rs

namespace Sync

variable {dps : Datapaths} {s s' : Sync} {f : Lflow} {r : SbFlow} {t : DpType} {b : Finset ℕ}
variable {g : DpGroup}

theorem ovnDpGroupFind_some {n : ℕ} (h : s.ovnDpGroupFind t b n = some g) :
    g ∈ s.dpGroups t ∧ g.bitmap = b := by
  have hg := find?_some h
  rw [decide_eq_true_iff] at hg
  exact ⟨mem_of_find?_eq_some h, hg.2⟩

theorem ovnDpGroupFind_none {n : ℕ} (h : s.ovnDpGroupFind t b n = none) (hg : g ∈ s.dpGroups t)
    (hb : g.bitmap = b) : b.card ≠ n := by
  intro hn
  exact find?_eq_none.1 h g hg (decide_eq_true ⟨hb ▸ hn, hb⟩)

/-- What `reuse` does, by the group of the row. -/
inductive Reuses (dps : Datapaths) (s : Sync) (t : DpType) (sbGroup : Option ℕ)
    (desired : Finset ℕ) :
    Except Failure Reuse → Prop
  | noGroup : sbGroup.bind s.groups = none → Reuses dps s t sbGroup desired (.ok .insert)
  | overflow (u : ℕ) (l : List ℕ) : sbGroup = some u → s.groups u = some l → Overflows dps t l →
      Reuses dps s t sbGroup desired (.error .outOfBounds)
  | keep (u : ℕ) (l : List ℕ) (ods : List (DpType × ℕ)) : sbGroup = some u → s.groups u = some l →
      ¬ Overflows dps t l → validDatapaths dps l = some ods → groupBitmap dps t ods = desired →
      Reuses dps s t sbGroup desired (.ok (.keep u))
  | insert (u : ℕ) (l : List ℕ) (ods : List (DpType × ℕ)) (g : DpGroup) : sbGroup = some u →
      s.groups u = some l → ¬ Overflows dps t l → validDatapaths dps l = some ods →
      groupBitmap dps t ods ≠ desired → g ∈ s.dpGroups t → g.bitmap = groupBitmap dps t ods →
      Reuses dps s t sbGroup desired (.ok .insert)
  | modify (u : ℕ) (l : List ℕ) : sbGroup = some u → s.groups u = some l → ¬ Overflows dps t l →
      (∀ ods, validDatapaths dps l = some ods → groupBitmap dps t ods ≠ desired ∧
        s.ovnDpGroupFind t (groupBitmap dps t ods) ods.length = none) →
      Reuses dps s t sbGroup desired (.ok (.modify u))

theorem reuses (dps : Datapaths) (s : Sync) (t : DpType) (sbGroup : Option ℕ) (desired : Finset ℕ) :
    Reuses dps s t sbGroup desired (s.reuse dps t sbGroup desired) := by
  unfold reuse
  split
  next hnone =>
    refine .noGroup ?_
    cases sbGroup with
    | none => rfl
    | some u => simpa using hnone
  next u l hl =>
    obtain ⟨u', rfl, hm⟩ := Option.bind_eq_some_iff.1 hl
    obtain ⟨l', hl', heq⟩ := Option.map_eq_some_iff.1 hm
    cases heq
    rcases groupDatapaths_cases t l with ⟨hover, heq⟩ | ⟨hover, heq⟩
    · rw [heq]
      exact .overflow u l rfl hl' hover
    · rw [heq]
      cases hv : validDatapaths dps l with
      | none => exact .modify u l rfl hl' hover fun ods hods => absurd (hv.symm.trans hods) nofun
      | some ods =>
        show Reuses dps s t (some u) desired (.ok _)
        split
        next hb => exact .keep u l ods rfl hl' hover hv hb
        next hb =>
          split
          next hfind =>
            obtain ⟨g, hg⟩ := Option.isSome_iff_exists.1 hfind
            obtain ⟨hin, hgb⟩ := ovnDpGroupFind_some hg
            exact .insert u l ods g rfl hl' hover hv hb hin hgb
          next hfind =>
            refine .modify u l rfl hl' hover fun ods' hods' => ?_
            cases hv.symm.trans hods'
            exact ⟨hb, Option.not_isSome_iff_eq_none.1 hfind⟩

variable {sbGroup : Option ℕ} {u : ℕ}

structure Created (dps : Datapaths) (s : Sync) (t : DpType) (sbGroup : Option ℕ)
    (desired : Finset ℕ) (u : ℕ)
    (s' : Sync) : Prop where
  lflows : s'.lflows = s.lflows
  rows : s'.rows = s.rows
  dpGroups : s'.dpGroups = update s.dpGroups t (⟨desired, u⟩ :: s.dpGroups t)
  how : (Reuses dps s t sbGroup desired (.ok (.keep u)) ∧ s'.groups = s.groups ∧ s'.next = s.next) ∨
    s'.groups = update s.groups u (some (dps.bindings t desired)) ∧
      (Reuses dps s t sbGroup desired (.ok (.modify u)) ∧ s'.next = s.next ∨
        Reuses dps s t sbGroup desired (.ok .insert) ∧ u = s.next ∧ s'.next = s.next + 1)

theorem created (dps : Datapaths) (s : Sync) (t : DpType) (sbGroup : Option ℕ)
    (desired : Finset ℕ) :
    Ends (fun _ => ∃ u l, sbGroup = some u ∧ s.groups u = some l ∧ Overflows dps t l)
      (fun p => Created dps s t sbGroup desired p.2 p.1)
      (s.ovnDpGroupCreate dps t sbGroup desired) := by
  have hr := reuses dps s t sbGroup desired
  unfold ovnDpGroupCreate
  cases hreuse : s.reuse dps t sbGroup desired with
  | error e =>
    rw [hreuse] at hr
    cases hr with
    | overflow u l hgroup hu hover => exact ⟨u, l, hgroup, hu, hover⟩
  | ok how =>
    rw [hreuse] at hr
    cases how with
    | keep u => exact ⟨rfl, rfl, rfl, .inl ⟨hr, rfl, rfl⟩⟩
    | modify u => exact ⟨rfl, rfl, rfl, .inr ⟨rfl, .inl ⟨hr, rfl⟩⟩⟩
    | insert => exact ⟨rfl, rfl, rfl, .inr ⟨rfl, .inr ⟨hr, rfl, rfl⟩⟩⟩

theorem Reuses.groups_of_modify (h : Reuses dps s t sbGroup b (.ok (.modify u))) :
    sbGroup = some u ∧ ∃ l, s.groups u = some l ∧ ¬ Overflows dps t l ∧
      ∀ ods, validDatapaths dps l = some ods → groupBitmap dps t ods ≠ b ∧
        s.ovnDpGroupFind t (groupBitmap dps t ods) ods.length = none := by
  cases h with
  | modify _ l hgroup hu hover hno => exact ⟨hgroup, l, hu, hover, hno⟩

theorem Created.fresh (hc : Created dps s t sbGroup b u s')
    (h : ∀ u, s.next ≤ u → s.groups u = none) : ∀ u, s'.next ≤ u → s'.groups u = none := by
  intro v hv
  rcases hc.how with ⟨-, hgroups, hnext⟩ | ⟨hgroups, ⟨hr, hnext⟩ | ⟨-, hu, hnext⟩⟩
  · rw [hgroups]
    exact h v (hnext ▸ hv)
  · rw [hgroups, update_apply]
    split
    next hvu =>
      obtain ⟨-, l, hl, -⟩ := hr.groups_of_modify
      rw [h u (by omega)] at hl
      cases hl
    · exact h v (hnext ▸ hv)
  · rw [hgroups, update_of_ne (by omega)]
    exact h v (by omega)

inductive Placed (dps : Datapaths) (s : Sync) (f : Lflow) (sbGroup : Option ℕ) : Sync → Prop
  | single : f.dpgBitmap.card = 1 → Placed dps s f sbGroup
      { s with rows := s.rows ++ [⟨f.spec, (dps.bindings f.dpType f.dpgBitmap).head?, none⟩] }
  | lost (g : DpGroup) : g ∈ s.dpGroups f.dpType → g.bitmap = f.dpgBitmap →
    s.groups g.dpgUuid = none →
      Placed dps s f sbGroup { s with rows := s.rows ++ [⟨f.spec, none, sbGroup⟩] }
  | known (g : DpGroup) : 1 < f.dpgBitmap.card → g ∈ s.dpGroups f.dpType → g.bitmap = f.dpgBitmap →
      Placed dps s f sbGroup { s with rows := s.rows ++ [⟨f.spec, none, some g.dpgUuid⟩] }
  | created (u : ℕ) (s₁ : Sync) : 1 < f.dpgBitmap.card →
    s.ovnDpGroupGet f.dpType f.dpgBitmap = none →
      Created dps s f.dpType sbGroup f.dpgBitmap u s₁ →
      Placed dps s f sbGroup { s₁ with rows := s₁.rows ++ [⟨f.spec, none, some u⟩] }

theorem Placed.lflows (hp : Placed dps s f sbGroup s') : s'.lflows = s.lflows := by
  cases hp with
  | single | lost | known => rfl
  | created u s₁ _ _ hc => exact hc.lflows

theorem syncLflowToSb_spec (dps : Datapaths) (s : Sync) (f : Lflow) (sbflow : Option SbFlow) :
    Ends (fun _ => f.dpgBitmap = ∅ ∨ 1 < f.dpgBitmap.card ∧
      s.ovnDpGroupGet f.dpType f.dpgBitmap = none ∧
        ∃ u l, sbflow.bind (·.logicalDpGroup) = some u ∧ s.groups u = some l ∧
          Overflows dps f.dpType l)
      (fun s' => f.dpgBitmap.Nonempty ∧ Placed dps s f (sbflow.bind (·.logicalDpGroup)) s')
      (s.syncLflowToSb dps f sbflow) := by
  unfold syncLflowToSb
  split
  next h0 => exact .inl (Finset.card_eq_zero.1 h0)
  next h0 =>
    have hne : f.dpgBitmap.Nonempty := Finset.card_ne_zero.1 h0
    split
    · rename_i h1
      exact ⟨hne, .single h1⟩
    have hlt : 1 < f.dpgBitmap.card := by omega
    split
    · rename_i g hg
      obtain ⟨hin, hb⟩ := ovnDpGroupFind_some hg
      split
      · rename_i hnone
        exact ⟨hne, .lost g hin hb hnone⟩
      · exact ⟨hne, .known g hlt hin hb⟩
    · rename_i hnone
      refine ((created dps s f.dpType _ f.dpgBitmap).weaken fun _ hover => ?_).bind fun p hp => ?_
      · exact .inr ⟨hlt, hnone, hover⟩
      · exact ⟨hne, .created _ _ hlt hnone hp⟩

/-! ## No flow is misled -/

/-- A known group is in the database, with its datapaths. -/
def Exact (dps : Datapaths) (groups : ℕ → Option (List ℕ)) (t : DpType) (g : DpGroup) : Prop :=
  (∀ i ∈ g.bitmap, i < dps.size t) ∧ 1 < g.bitmap.card ∧
    ∃ l, groups g.dpgUuid = some l ∧ l.Nodup ∧ dps.Exactly t g.bitmap l

def Has (dps : Datapaths) (s : Sync) (f : Lflow) (r : SbFlow) : Prop :=
  r.spec = f.spec ∧ (f.dpgBitmap.card = 1 ∧ r.logicalDpGroup = none ∧
      r.logicalDatapath = (dps.bindings f.dpType f.dpgBitmap).head? ∨
    r.logicalDatapath = none ∧ ∃ g ∈ s.dpGroups f.dpType, g.bitmap = f.dpgBitmap ∧
      r.logicalDpGroup = some g.dpgUuid)

/-- The groups that are known are right, and the flows are done or left. -/
structure Good (table : Table dps) (s : Sync) : Prop where
  known : ∀ t, ∀ g ∈ s.dpGroups t, Exact dps s.groups t g
  fresh : ∀ u, s.next ≤ u → s.groups u = none
  nodup : ∀ u l, s.groups u = some l → l.Nodup
  done : ∃ l : List (Lflow × SbFlow), l.map (·.2) = s.rows ∧
    (l.map (·.1) ++ s.lflows).Perm table.entries ∧
    ∀ p ∈ l, Has dps s p.1 p.2

variable {table : Table dps}

theorem Has.mono (h : Has dps s f r) (hsub : ∀ g ∈ s.dpGroups f.dpType, g ∈ s'.dpGroups f.dpType) :
    Has dps s' f r := by
  obtain ⟨hspec, hone | ⟨hdp, g, hg, hb, hu⟩⟩ := h
  · exact ⟨hspec, .inl hone⟩
  · exact ⟨hspec, .inr ⟨hdp, g, hsub g hg, hb, hu⟩⟩

theorem Good.finish (h : Good table s) (hf : f ∈ s.lflows) {r : SbFlow}
    (hrows : s'.rows = s.rows ++ [r])
    (hlflows : s'.lflows = s.lflows.erase f)
    (hknown : ∀ t, ∀ g ∈ s'.dpGroups t, Exact dps s'.groups t g)
    (hfresh : ∀ u, s'.next ≤ u → s'.groups u = none)
    (hnodup : ∀ u l, s'.groups u = some l → l.Nodup)
    (hsub : ∀ t, ∀ g ∈ s.dpGroups t, g ∈ s'.dpGroups t) (hr : Has dps s' f r) : Good table s' := by
  refine ⟨hknown, hfresh, hnodup, ?_⟩
  obtain ⟨l, hl, hperm, hhas⟩ := h.done
  refine ⟨l ++ [(f, r)], ?_, ?_, fun p hp => ?_⟩
  · rw [map_append, hl, hrows]
    rfl
  · rw [map_append, hlflows, append_assoc]
    exact ((perm_cons_erase hf).symm.append_left _).trans hperm
  · rcases mem_append.1 hp with hp | hp
    · exact (hhas p hp).mono (hsub p.1.dpType)
    · cases mem_singleton.1 hp
      exact hr

theorem Good.created (h : Good table s) (hb : ∀ i ∈ b, i < dps.size t) (hcard : 1 < b.card)
    {s₁ : Sync}
    (hc : Created dps s t sbGroup b u s₁)
    (hkeep : Reuses dps s t sbGroup b (.ok (.keep u)) → ∃ l, s.groups u = some l ∧
      dps.Exactly t b l)
    (hmodify : Reuses dps s t sbGroup b (.ok (.modify u)) → ∀ t', ∀ g ∈ s.dpGroups t',
      g.dpgUuid ≠ u) :
    (∀ t, ∀ g ∈ s₁.dpGroups t, Exact dps s₁.groups t g) ∧ (∀ u, s₁.next ≤ u → s₁.groups u = none) ∧
      (∀ u l, s₁.groups u = some l → l.Nodup) ∧ (∀ t, ∀ g ∈ s.dpGroups t, g ∈ s₁.dpGroups t) ∧
      ⟨b, u⟩ ∈ s₁.dpGroups t := by
  have hmem : ∀ t' g, g ∈ s₁.dpGroups t' ↔ g ∈ s.dpGroups t' ∨ t' = t ∧ g = ⟨b, u⟩ := by
    intro t' g
    rw [hc.dpGroups, update_apply]
    split
    next ht =>
      subst ht
      rw [mem_cons, or_comm, and_iff_right rfl]
    next ht => exact (or_iff_left fun hg => ht hg.1).symm
  have hnew : ⟨b, u⟩ ∈ s₁.dpGroups t := (hmem _ _).2 (.inr ⟨rfl, rfl⟩)
  have hsub : ∀ t, ∀ g ∈ s.dpGroups t, g ∈ s₁.dpGroups t := fun t' g hg => (hmem t' g).2 (.inl hg)
  rcases hc.how with ⟨hr, hgroups, -⟩ | ⟨hgroups, hhow⟩
  · obtain ⟨l, hl, hex⟩ := hkeep hr
    refine ⟨fun t' g hg => ?_, hc.fresh h.fresh, hgroups ▸ h.nodup, hsub, hnew⟩
    rw [hgroups]
    rcases (hmem t' g).1 hg with hg | ⟨rfl, rfl⟩
    · exact h.known t' g hg
    · exact ⟨hb, hcard, l, hl, h.nodup u l hl, hex⟩
  · -- the row that is written is not that of a known group
    have hother : ∀ t', ∀ g ∈ s.dpGroups t', g.dpgUuid ≠ u := by
      intro t' g hg
      rcases hhow with ⟨hr, -⟩ | ⟨-, hu, -⟩
      · exact hmodify hr t' g hg
      · intro heq
        obtain ⟨-, -, l, hl, -⟩ := h.known t' g hg
        rw [heq, hu, h.fresh s.next (le_refl _)] at hl
        cases hl
    refine ⟨fun t' g hg => ?_, hc.fresh h.fresh, fun v l hl => ?_, hsub, hnew⟩
    · rcases (hmem t' g).1 hg with hg | ⟨rfl, rfl⟩
      · unfold Exact
        rw [hgroups, update_of_ne (hother t' g hg)]
        exact h.known t' g hg
      · refine ⟨hb, hcard, _, hgroups ▸ update_self .., Datapaths.nodup_bindings .., ?_⟩
        exact Datapaths.exactly_bindings hb
    · rw [hgroups, update_apply] at hl
      split at hl
      · cases hl
        exact Datapaths.nodup_bindings ..
      · exact h.nodup v l hl

theorem Good.mem_entries (h : Good table s) (hf : f ∈ s.lflows) : f ∈ table.entries := by
  obtain ⟨l, -, hperm, -⟩ := h.done
  exact hperm.mem_iff.1 (mem_append_right _ hf)

theorem Good.place (h : Good table s) (hf : f ∈ s.lflows)
    (hkeep : ∀ u, 1 < f.dpgBitmap.card → s.ovnDpGroupGet f.dpType f.dpgBitmap = none →
      Reuses dps s f.dpType sbGroup f.dpgBitmap (.ok (.keep u)) →
      ∃ l, s.groups u = some l ∧ dps.Exactly f.dpType f.dpgBitmap l)
    (hmodify : ∀ u, Reuses dps s f.dpType sbGroup f.dpgBitmap (.ok (.modify u)) →
      ∀ t', ∀ g ∈ s.dpGroups t', g.dpgUuid ≠ u)
    (hp : Placed dps s f sbGroup s') : Good table { s' with lflows := s'.lflows.erase f } := by
  have hsame : ∀ t, ∀ g ∈ s.dpGroups t, g ∈ s.dpGroups t := fun _ _ hg => hg
  cases hp with
  | single hcard =>
    exact h.finish hf rfl rfl h.known h.fresh h.nodup hsame ⟨rfl, .inl ⟨hcard, rfl, rfl⟩⟩
  | lost g hg _ hnone =>
    obtain ⟨-, -, l, hl, -⟩ := h.known _ g hg
    cases hnone.symm.trans hl
  | known g hcard hg hb =>
    exact h.finish hf rfl rfl h.known h.fresh h.nodup hsame ⟨rfl, .inr ⟨rfl, g, hg, hb, rfl⟩⟩
  | created u s₁ hcard hnone hc =>
    obtain ⟨hknown, hfresh, hnodup, hsub, hnew⟩ := h.created (table.lt_size f (h.mem_entries hf))
      hcard hc
      (hkeep u hcard hnone) (hmodify u)
    refine h.finish hf (r := ⟨f.spec, none, some u⟩) ?_ ?_ hknown hfresh hnodup hsub
      ⟨rfl, .inr ⟨rfl, _, hnew, rfl, rfl⟩⟩
    · rw [hc.rows]
    · rw [hc.lflows]

variable {sbflow : SbFlow}

theorem ovnLflowFind_some (h : s.ovnLflowFind dps sbflow = some f) :
    f ∈ s.lflows ∧ rowType dps s.groups sbflow = some f.dpType ∧ f.spec = sbflow.spec := by
  obtain ⟨t, ht, hfind⟩ := Option.bind_eq_some_iff.1 h
  have hf := find?_some hfind
  rw [decide_eq_true_iff] at hf
  exact ⟨mem_of_find?_eq_some hfind, by rw [ht, hf.1], hf.2⟩

theorem rowType_group (hf : s.ovnLflowFind dps sbflow = some f) {v : ℕ} {vs : List ℕ}
    (hgroup : sbflow.logicalDpGroup = some u) (hu : s.groups u = some (v :: vs)) :
    ((v :: vs).findSome? dps.fromSbrec).map (·.1) = some f.dpType := by
  have hrow := (ovnLflowFind_some hf).2.1
  unfold rowType at hrow
  rw [hgroup, Option.bind_some, hu] at hrow
  exact hrow

/-- A group that is rewritten is not a known one. -/
theorem Good.modify_unknown (h : Good table s) (hfind : s.ovnLflowFind dps sbflow = some f)
    (hr : Reuses dps s f.dpType sbflow.logicalDpGroup f.dpgBitmap (.ok (.modify u))) (t' : DpType)
    (hg : g ∈ s.dpGroups t') : g.dpgUuid ≠ u := by
  intro hu
  obtain ⟨hlt, hcard, l, hl, hnodup, hex⟩ := h.known t' g hg
  rw [hu] at hl
  obtain ⟨hgroup, l', hl', -, hno⟩ := hr.groups_of_modify
  cases hl.symm.trans hl'
  -- the flow has the type of the group, so that the group is found among the known ones
  obtain ⟨v, vs, rfl, htype⟩ := hex.findSome hlt (Finset.card_pos.1 (by omega))
  cases htype.symm.trans (rowType_group hfind hgroup hl)
  have hfound := (hno _ (hex.validDatapaths hlt)).2
  rw [hex.groupBitmap hlt, hex.length hlt hnodup] at hfound
  exact ovnDpGroupFind_none hfound hg rfl rfl

theorem head_bindings {i : ℕ} (hi : i < dps.size t) :
    (dps.bindings t {i}).head? = some (dps.sb t i) := by
  have hex : dps.Exactly t {i} (dps.bindings t {i}) := Datapaths.exactly_bindings fun j hj =>
    Finset.mem_singleton.1 hj ▸ hi
  cases hl : dps.bindings t {i} with
  | nil =>
    rw [hl] at hex
    exact absurd ((hex _).2 ⟨i, Finset.mem_singleton_self i, rfl⟩) not_mem_nil
  | cons u us =>
    rw [hl] at hex
    obtain ⟨j, hj, rfl⟩ := (hex u).1 mem_cons_self
    rw [Finset.mem_singleton.1 hj]
    rfl

theorem Good.refers (h : Good table s) (hf : ∀ i ∈ f.dpgBitmap, i < dps.size f.dpType)
    (hr : Has dps s f r) :
    Refers dps s.groups f r := by
  obtain ⟨hspec, ⟨hcard, hgroup, hdp⟩ | ⟨hdp, g, hg, hb, hgroup⟩⟩ := hr
  · refine ⟨hspec, ?_⟩
    obtain ⟨i, hi⟩ := Finset.card_eq_one.1 hcard
    rw [hi, head_bindings (hf i (hi ▸ Finset.mem_singleton_self i))] at hdp
    unfold SbFlow.datapaths
    rw [hdp, hgroup, hi]
    intro u
    simp [eq_comm]
  · refine ⟨hspec, ?_⟩
    obtain ⟨-, -, l, hl, -, hex⟩ := h.known _ g hg
    unfold SbFlow.datapaths
    rw [hdp, hgroup, Option.bind_some, hl, ← hb]
    exact hex

/-- The flows that are left are taken one after the other. -/
theorem ends_rest {E : Failure → Prop} {P : Sync → Prop} {l : List Lflow}
    (hstep : ∀ s f, P s → f ∈ s.lflows →
      Ends E (fun s' => P s' ∧ s'.lflows = s.lflows.erase f) (s.syncNew dps f))
    (hl : l.Perm s.lflows) (hP : P s) :
    Ends E (fun s' => P s' ∧ s'.lflows = []) (l.foldlM (Sync.syncNew dps) s) := by
  have := Ends.foldlM (E := E) (I := fun l s => P s ∧ l.Perm s.lflows)
    (f := Sync.syncNew dps) (fun f l s hs => ?_) l s ⟨hP, hl⟩
  · exact this.mono fun s' hs' => ⟨hs'.1, nil_perm.1 hs'.2⟩
  · refine (hstep s f hs.1 (hs.2.mem_iff.1 mem_cons_self)).mono fun s' hs' => ⟨hs'.1, ?_⟩
    have hperm := hs.2.erase f
    rw [erase_cons_head] at hperm
    rw [hs'.2]
    exact hperm

section
variable (hall : ∀ f ∈ table.entries, f.dpgBitmap.Nonempty)
include hall

theorem Good.syncRow (h : Good table s) (hmisled : ¬ s.Misled dps sbflow) :
    Ends (fun _ => False) (Good table) (s.syncRow dps sbflow) := by
  unfold Sync.syncRow
  cases hfind : s.ovnLflowFind dps sbflow with
  | none => exact h
  | some f =>
    have hf := (ovnLflowFind_some hfind).1
    have hspec := (syncLflowToSb_spec dps s f (some sbflow)).weaken (F := fun _ => False) ?_
    · refine hspec.bind fun s' hs' => h.place hf (fun u hcard hnone hr => ?_)
        (fun u hr t' g hg => h.modify_unknown hfind hr t' hg) hs'.2
      cases hr with
      | keep _ l ods hgroup hl hover hv hb =>
        refine ⟨l, hl, Datapaths.exactly_of_groupBitmap hv hb fun x hx => ?_⟩
        by_contra hne
        exact hmisled ⟨f, u, l, hfind, hcard, hnone, hgroup, hl, .inr ⟨ods, hv, hb, x, hx, hne⟩⟩
    · rintro _ (hempty | ⟨hcard, hnone, u, l, hgroup, hl, hover⟩)
      · exact (hall f (h.mem_entries hf)).ne_empty hempty
      · exact hmisled ⟨f, u, l, hfind, hcard, hnone, hgroup, hl, .inl hover⟩

theorem Good.syncNew (h : Good table s) (hf : f ∈ s.lflows) :
    Ends (fun _ => False) (fun s' => Good table s' ∧ s'.lflows = s.lflows.erase f)
      (s.syncNew dps f) := by
  have hspec := (syncLflowToSb_spec dps s f none).weaken (F := fun _ => False) ?_
  · refine hspec.bind fun s' hs' => ⟨h.place hf (fun u _ _ hr => ?_) (fun u hr => ?_) hs'.2,
      congrArg (fun l => List.erase l f) hs'.2.lflows⟩
    · cases hr with
      | keep _ _ _ hgroup => cases hgroup
    · cases hr.groups_of_modify.1
  · rintro _ (hempty | ⟨-, -, u, l, hgroup, -⟩)
    · exact (hall f (h.mem_entries hf)).ne_empty hempty
    · cases hgroup

theorem Good.synced (h : Good table s) (hend : s.lflows = []) : Synced table s := by
  obtain ⟨l, hl, hperm, hhas⟩ := h.done
  rw [hend, append_nil] at hperm
  have hmem : ∀ p ∈ l, p.1 ∈ table.entries := fun p hp => hperm.mem_iff.1 (mem_map_of_mem hp)
  refine ⟨l, ?_, hl ▸ Perm.refl _, fun p hp => h.refers (table.lt_size p.1 (hmem p hp)) (hhas p hp),
    fun p hp q hq u hpu hqu => ?_⟩
  · rw [filter_eq_self.2 fun f hf => decide_eq_true (hall f hf)]
    exact hperm
  · obtain ⟨-, ⟨-, hno, -⟩ | ⟨-, g, hg, hb, hgu⟩⟩ := hhas p hp
    · cases hno.symm.trans hpu
    obtain ⟨-, ⟨-, hno, -⟩ | ⟨-, g', hg', hb', hgu'⟩⟩ := hhas q hq
    · cases hno.symm.trans hqu
    obtain ⟨hlt, hcard, c, hc, -, hex⟩ := h.known _ g hg
    obtain ⟨hlt', -, c', hc', -, hex'⟩ := h.known _ g' hg'
    cases hgu.symm.trans hpu
    rw [← Option.some_inj.1 (hgu'.symm.trans hqu), hc'] at hc
    cases hc
    rw [← hb, ← hb']
    exact hex.unique hlt hlt' (Finset.card_pos.1 (by omega)) hex'

theorem Good.syncRows (rows : List SbFlow) (h : Good table s)
    (hsound : Sound dps s rows) :
    Ends (fun _ => False) (Good table) (rows.foldlM (Sync.syncRow dps) s) := by
  have := Ends.foldlM (E := fun _ => False) (I := fun l s => Good table s ∧ Sound dps s l)
    (f := Sync.syncRow dps) (fun r l s hs => ?_) rows s ⟨h, hsound⟩
  · exact this.mono fun s' hs' => hs'.1
  · have hgood := hs.1.syncRow hall hs.2.1
    cases hres : s.syncRow dps r with
    | error e =>
      rw [hres] at hgood
      exact hgood
    | ok s' =>
      rw [hres] at hgood
      exact ⟨hgood, hs.2.2 s' hres⟩

theorem Good.syncRest (h : Good table s) {l : List Lflow} (hl : l.Perm s.lflows) :
    Ends (fun _ => False) (fun s' => Good table s' ∧ s'.lflows = [])
      (l.foldlM (Sync.syncNew dps) s) :=
  ends_rest (fun _ _ hs hf => hs.syncNew hall hf) hl h

end

end Sync

theorem good_start {dps : Datapaths} (table : Table dps) (sb : Sb) :
    Sync.Good table (start table sb) :=
  ⟨nofun, sb.fresh, sb.nodup, [], rfl, Perm.refl _, nofun⟩

/-! ## A flow that is misled -/

namespace Sync

variable {dps : Datapaths} {s s' : Sync} {f : Lflow} {r : SbFlow} {table : Table dps}

/-- The flows that are done have a datapath. -/
structure Base (table : Table dps) (s : Sync) : Prop where
  fresh : ∀ u, s.next ≤ u → s.groups u = none
  done : ∃ d, (d ++ s.lflows).Perm table.entries ∧ ∀ f ∈ d, f.dpgBitmap.Nonempty

theorem Base.mem_entries (h : Base table s) (hf : f ∈ s.lflows) : f ∈ table.entries := by
  obtain ⟨d, hperm, -⟩ := h.done
  exact hperm.mem_iff.1 (mem_append_right _ hf)

variable {sbGroup : Option ℕ}

theorem Base.place (h : Base table s) (hf : f ∈ s.lflows) (hne : f.dpgBitmap.Nonempty)
    (hp : Placed dps s f sbGroup s') : Base table { s' with lflows := s'.lflows.erase f } := by
  refine ⟨?_, ?_⟩
  · cases hp with
    | single | lost | known => exact h.fresh
    | created u s₁ _ _ hc => exact hc.fresh h.fresh
  · obtain ⟨d, hperm, hd⟩ := h.done
    refine ⟨d ++ [f], ?_, forall_mem_append.2 ⟨hd, forall_mem_singleton.2 hne⟩⟩
    rw [hp.lflows, append_assoc]
    exact ((perm_cons_erase hf).symm.append_left _).trans hperm

/-- A row names a group that does not have the datapaths of its flow; the group starts with a
    datapath of the type of the flow. -/
structure Wrong (table : Table dps) (s : Sync) : Prop where
  base : Base table s
  wrong : ∃ f ∈ table.entries, ∃ r ∈ s.rows, ∃ u v vs, r.spec = f.spec ∧ r.logicalDatapath = none ∧
    r.logicalDpGroup = some u ∧ ⟨f.dpgBitmap, u⟩ ∈ s.dpGroups f.dpType ∧
    s.groups u = some (v :: vs) ∧
    ((v :: vs).findSome? dps.fromSbrec).map (·.1) = some f.dpType ∧
    ¬ dps.Exactly f.dpType f.dpgBitmap (v :: vs)

theorem Wrong.place (h : Wrong table s) (hf : f ∈ s.lflows) (hne : f.dpgBitmap.Nonempty)
    (htype : ∀ u v vs, sbGroup = some u → s.groups u = some (v :: vs) →
      ((v :: vs).findSome? dps.fromSbrec).map (·.1) = some f.dpType)
    (hp : Placed dps s f sbGroup s') : Wrong table { s' with lflows := s'.lflows.erase f } := by
  refine ⟨h.base.place hf hne hp, ?_⟩
  obtain ⟨f₀, hf0, r, hr, u, v, vs, hspec, hdp, hgroup, hknown, hu, hfirst, hnot⟩ := h.wrong
  cases hp with
  | single | lost | known =>
    exact ⟨f₀, hf0, r, mem_append_left _ hr, u, v, vs, hspec, hdp, hgroup, hknown, hu, hfirst, hnot⟩
  | created w s₁ hcard hnone hc =>
    have hr1 : r ∈ s₁.rows ++ [⟨f.spec, none, some w⟩] := mem_append_left _ (hc.rows ▸ hr)
    have hknown1 : ⟨f₀.dpgBitmap, u⟩ ∈ s₁.dpGroups f₀.dpType := by
      rw [hc.dpGroups, update_apply]
      split
      next ht => exact mem_cons_of_mem _ (ht ▸ hknown)
      · exact hknown
    by_cases hsame : s₁.groups u = s.groups u
    · exact ⟨f₀, hf0, r, hr1, u, v, vs, hspec, hdp, hgroup, hknown1, hsame.trans hu, hfirst, hnot⟩
    -- the group is rewritten for another flow of the same type
    rcases hc.how with ⟨-, hgroups, -⟩ | ⟨hgroups, hhow⟩
    · exact absurd (congrFun hgroups u) hsame
    have hwu : w = u := by
      by_contra hwu
      exact hsame (by rw [hgroups, update_of_ne (Ne.symm hwu)])
    subst hwu
    rcases hhow with ⟨hre, -⟩ | ⟨-, hw, -⟩
    · obtain ⟨hgroup', -⟩ := hre.groups_of_modify
      have ht : f₀.dpType = f.dpType :=
        Option.some_inj.1 (hfirst.symm.trans (htype w v vs hgroup' hu))
      have hb : f₀.dpgBitmap ≠ f.dpgBitmap := by
        intro hb
        exact ovnDpGroupFind_none hnone (ht ▸ hknown) hb rfl
      have hlt := table.lt_size f (h.base.mem_entries hf)
      have hex := Datapaths.exactly_bindings hlt
      obtain ⟨v', vs', hl', hfirst'⟩ := hex.findSome hlt hne
      refine ⟨f₀, hf0, r, hr1, w, v', vs', hspec, hdp, hgroup, hknown1, ?_, ht ▸ hfirst',
        fun hex' => ?_⟩
      · rw [hgroups, update_self, hl']
      · rw [hl'] at hex
        exact hb (hex.unique hlt (table.lt_size f₀ hf0) hne hex').2.symm
    · rw [h.base.fresh w (by omega)] at hu
      cases hu

variable {P : Sync → Prop}

/-- What holds of the flow of a row and is kept when that is placed is kept by the loop over the
    rows. -/
theorem ends_syncRow (hP : P s) (r : SbFlow)
    (hplace : ∀ f s', s.ovnLflowFind dps r = some f → f.dpgBitmap.Nonempty →
      Placed dps s f r.logicalDpGroup s' → P { s' with lflows := s'.lflows.erase f }) :
    Ends (fun _ => True) P (s.syncRow dps r) := by
  unfold Sync.syncRow
  cases hfind : s.ovnLflowFind dps r with
  | none => exact hP
  | some f =>
    refine Ends.bind ((syncLflowToSb_spec dps s f (some r)).weaken fun _ _ => trivial)
      fun s' hs' => ?_
    exact hplace f s' hfind hs'.1 hs'.2

theorem Base.syncRow (h : Base table s) (r : SbFlow) :
    Ends (fun _ => True) (Base table) (s.syncRow dps r) :=
  ends_syncRow h r fun _ _ hfind hne hp => h.place (ovnLflowFind_some hfind).1 hne hp

theorem Wrong.syncRow (h : Wrong table s) (r : SbFlow) :
    Ends (fun _ => True) (Wrong table) (s.syncRow dps r) :=
  ends_syncRow h r fun _ _ hfind hne hp => h.place (ovnLflowFind_some hfind).1 hne
    (fun _ _ _ hgroup hu => rowType_group hfind hgroup hu) hp

theorem Base.misled (h : Base table s) (hm : s.Misled dps r) :
    Ends (fun _ => True) (Wrong table) (s.syncRow dps r) := by
  obtain ⟨f, u, l, hfind, hcard, hnone, hgroup, hu, hmis⟩ := hm
  obtain ⟨hf, -, hspec⟩ := ovnLflowFind_some hfind
  have hmem := h.mem_entries hf
  unfold Sync.syncRow
  rw [hfind]
  refine Ends.bind ((syncLflowToSb_spec dps s f (some r)).weaken fun _ _ => trivial)
    fun s' hs' => ?_
  refine ⟨h.place hf hs'.1 hs'.2, f, hmem, ?_⟩
  cases hs'.2 with
  | single h1 => omega
  | lost g hg hb | known g _ hg hb => exact absurd rfl (ovnDpGroupFind_none hnone hg hb)
  | created w s₁ _ _ hc =>
    -- the bits fit, so that the group has the bitmap and is kept
    have hkept : ∀ {ods}, ¬ Overflows dps f.dpType l → validDatapaths dps l = some ods →
        groupBitmap dps f.dpType ods ≠ f.dpgBitmap → False := by
      intro ods hover hods hb
      obtain ⟨ods', hods', hb', -⟩ := hmis.resolve_left hover
      cases hods.symm.trans hods'
      exact hb hb'
    have hsame : ∀ {v l'}, r.logicalDpGroup = some v → s.groups v = some l' → v = u ∧ l' = l := by
      intro v l' hv hl'
      cases hgroup.symm.trans hv
      exact ⟨rfl, Option.some_inj.1 (hl'.symm.trans hu)⟩
    rcases hc.how with ⟨hr, hgroups, -⟩ | ⟨-, ⟨hr, -⟩ | ⟨hr, -⟩⟩
    · cases hr with
      | keep _ l' ods hv hl' hover hods hb =>
        obtain ⟨rfl, rfl⟩ := hsame hv hl'
        obtain ⟨ods', hods', -, x, hx, hne⟩ := hmis.resolve_left hover
        obtain ⟨v, hvl, hvx⟩ := mem_of_validDatapaths hods' hx
        cases l' with
        | nil => cases hvl
        | cons a as =>
          refine ⟨_, mem_append_right _ mem_cons_self, w, a, as, rfl, rfl, rfl, ?_, ?_,
            rowType_group hfind hgroup hu, fun hex => ?_⟩
          · simp [hc.dpGroups, update_self]
          · rw [hgroups, hu]
          · obtain ⟨i, -, hi⟩ := hex.fromSbrec (table.lt_size f hmem) hvl
            cases hvx.symm.trans hi
            exact hne rfl
    · obtain ⟨hv, l', hl', hover, hno⟩ := hr.groups_of_modify
      obtain ⟨rfl, rfl⟩ := hsame hv hl'
      obtain ⟨ods, hods, hb, -⟩ := hmis.resolve_left hover
      exact absurd hb (hno ods hods).1
    · cases hr with
      | noGroup hnone =>
        rw [show Option.bind (some r) (·.logicalDpGroup) = some u from hgroup, Option.bind_some,
          hu] at hnone
        cases hnone
      | insert _ l' ods g hv hl' hover hods hb =>
        obtain ⟨rfl, rfl⟩ := hsame hv hl'
        exact (hkept hover hods hb).elim

theorem ends_syncNew (f : Lflow)
    (hplace : ∀ s', f.dpgBitmap.Nonempty → Placed dps s f none s' →
      P { s' with lflows := s'.lflows.erase f }) :
    Ends (fun _ => True) P (s.syncNew dps f) := by
  refine Ends.bind ((syncLflowToSb_spec dps s f none).weaken fun _ _ => trivial) fun s' hs' => ?_
  exact hplace s' hs'.1 hs'.2

variable {l : List Lflow}

/-- What is kept by the flows that are left holds in the end, when none is left. -/
theorem ends_syncRest
    (hplace : ∀ s f s', P s → f ∈ s.lflows → f.dpgBitmap.Nonempty → Placed dps s f none s' →
      P { s' with lflows := s'.lflows.erase f })
    (hl : l.Perm s.lflows) (hP : P s) :
    Ends (fun _ => True) (fun s' => P s' ∧ s'.lflows = []) (l.foldlM (Sync.syncNew dps) s) :=
  ends_rest (fun s f hs hf => ends_syncNew f fun s' hne hp =>
    ⟨hplace s f s' hs hf hne hp, congrArg (List.erase · f) hp.lflows⟩) hl hP

theorem Base.syncRest (h : Base table s) (hl : l.Perm s.lflows) :
    Ends (fun _ => True) (fun s' => Base table s' ∧ s'.lflows = [])
      (l.foldlM (Sync.syncNew dps) s) :=
  ends_syncRest (fun _ _ _ hs hf hne hp => hs.place hf hne hp) hl h

theorem Wrong.syncRest (h : Wrong table s) (hl : l.Perm s.lflows) :
    Ends (fun _ => True) (fun s' => Wrong table s' ∧ s'.lflows = [])
      (l.foldlM (Sync.syncNew dps) s) :=
  ends_syncRest (fun _ _ _ hs hf hne hp => hs.place hf hne (by intro _ _ _ hgroup; cases hgroup) hp)
    hl h

theorem Wrong.not_synced (h : Wrong table s) : ¬ Synced table s := by
  rintro ⟨l, hflows, hrows, hrefers, -⟩
  obtain ⟨f, hf, r, hr, u, v, vs, hspec, hdp, hgroup, -, hu, hfirst, hnot⟩ := h.wrong
  obtain ⟨p, hp, rfl⟩ := mem_map.1 (hrows.mem_iff.2 hr)
  obtain ⟨hpspec, hex⟩ := hrefers p hp
  have hmem := mem_filter.1 (hflows.mem_iff.1 (mem_map_of_mem hp))
  unfold SbFlow.datapaths at hex
  rw [hdp, hgroup, Option.bind_some, hu] at hex
  -- the row is that of a flow of the same type, which is the flow
  obtain ⟨v', vs', heq, hfirst'⟩ := hex.findSome (table.lt_size p.1 hmem.1)
    (of_decide_eq_true hmem.2)
  rw [← heq] at hfirst'
  have ht : p.1.dpType = f.dpType := Option.some_inj.1 (hfirst'.symm.trans hfirst)
  have : p.1 = f := inj_on_of_nodup_map table.nodup hmem.1 hf
    (Prod.ext ht (hpspec.symm.trans hspec))
  exact hnot (this ▸ hex)

/-- If the flows are synchronized in the end, none is misled. -/
theorem Base.sound (rest : Sync → Except Failure Sync)
    (hrest : ∀ s, Wrong table s → Ends (fun _ => True) (Wrong table) (rest s)) :
    ∀ {rows : List SbFlow} {s s' : Sync}, Base table s →
      (rows.foldlM (Sync.syncRow dps) s >>= rest) = .ok s' →
      Synced table s' → Sound dps s rows
  | [], _, _, _, _, _ => trivial
  | r :: rows, s, s', h, hok, hsynced => by
    rw [foldlM_cons] at hok
    cases hres : s.syncRow dps r with
    | error e =>
      rw [hres] at hok
      cases hok
    | ok s₁ =>
      rw [hres] at hok
      have hok : (rows.foldlM (Sync.syncRow dps) s₁ >>= rest) = .ok s' := hok
      refine ⟨fun hm => ?_, fun s₂ hs2 => ?_⟩
      · have hwrong := h.misled hm
        rw [hres] at hwrong
        have hend := Ends.bind (Ends.foldlM (I := fun _ s => Wrong table s)
          (fun r _ s hs => hs.syncRow r) rows s₁ hwrong) hrest
        rw [hok] at hend
        exact Wrong.not_synced hend hsynced
      · cases hres.symm.trans hs2
        have hbase := h.syncRow r
        rw [hres] at hbase
        exact Base.sound rest hrest hbase hok hsynced

end Sync

theorem base_start {dps : Datapaths} (table : Table dps) (sb : Sb) :
    Sync.Base table (start table sb) :=
  ⟨sb.fresh, [], Perm.refl _, nofun⟩

section
variable {dps : Datapaths} {table : Table dps} {o : HashOrder Lflow} {sb : Sb} {s : Sync}

theorem sound_of_synced (hok : lflowTableSyncToSb table o sb = .ok s) (hsynced : Synced table s) :
    Sync.Sound dps (start table sb) sb.flows :=
  Sync.Base.sound _ (fun s hs => (hs.syncRest (o.perm s.lflows)).mono fun _ hs' => hs'.1)
    (base_start table sb)
    hok hsynced

theorem nonempty_of_ok (hok : lflowTableSyncToSb table o sb = .ok s) :
    ∀ f ∈ table.entries, f.dpgBitmap.Nonempty := by
  intro f hf
  have hend := Ends.bind (Ends.foldlM (I := fun _ s => Sync.Base table s)
    (fun r _ s hs => hs.syncRow r) sb.flows _ (base_start table sb))
    fun s₁ hs1 => hs1.syncRest (o.perm s₁.lflows)
  unfold lflowTableSyncToSb at hok
  rw [hok] at hend
  obtain ⟨hbase, hnil⟩ := hend
  obtain ⟨d, hperm, hd⟩ := hbase.done
  rw [hnil, append_nil] at hperm
  exact hd f (hperm.mem_iff.2 hf)

theorem synced_of_sound (hall : ∀ f ∈ table.entries, f.dpgBitmap.Nonempty)
    (hsound : Sync.Sound dps (start table sb) sb.flows) :
    ∃ s, lflowTableSyncToSb table o sb = .ok s ∧ Synced table s := by
  have hend := Ends.bind (Sync.Good.syncRows hall sb.flows (good_start table sb) hsound)
    fun s₁ hs1 => hs1.syncRest hall (o.perm s₁.lflows)
  obtain ⟨s, hs, hgood⟩ := hend.exists_ok
  exact ⟨s, hs, hgood.1.synced hall hgood.2⟩

end

end Ovn.LflowSync

/-
  What a full run of the mac_cache node builds, and what its handlers do to each part of the cache.
-/
import Ovn.Controller.MacCache
import Ovn.Lib.KeyedRows

namespace Ovn.MacCache

open RowCache
open List

/-! ## What the cache should hold -/

def localThreshold (loc : Finset ℕ) (d : Datapath) : Option Threshold :=
  if d.tunnelKey ∈ loc then threshold d else none

def sbThresholds (sb : Sb) (loc : Finset ℕ) : Thresholds := fun k =>
  (rowOf Datapath.tunnelKey sb.datapaths k).bind (localThreshold loc)

def mbWants (sb : Sb) (loc : Finset ℕ) (r : MacBinding) : Prop :=
  ∃ k, keyOf sb.datapaths r.datapath = some k ∧ (sbThresholds sb loc k).isSome

def fdbWants (sb : Sb) (loc : Finset ℕ) (r : Fdb) : Prop := (sbThresholds sb loc r.dpKey).isSome

/-- The cache holds the thresholds of the local datapaths, and the rows of datapaths that have
    one. -/
structure Exact (pr : Parser) (sb : Sb) (loc : Finset ℕ) (c : Cache) : Prop where
  thresholds : c.thresholds = sbThresholds sb loc
  macBindings : Exactly (pr.mbEntry (keyOf sb.datapaths)) sb.macBindings (mbWants sb loc)
    c.macBindings
  fdbs : Exactly pr.fdbEntry sb.fdbs (fdbWants sb loc) c.fdbs

theorem Exact.unique {pr : Parser} {sb : Sb} {loc : Finset ℕ} {c c' : Cache} (h : Exact pr sb loc c)
    (h' : Exact pr sb loc c') : c = c' := by
  cases c
  obtain rfl : _ = _ := h.thresholds.trans h'.thresholds.symm
  obtain rfl : _ = _ := h.macBindings.unique h'.macBindings
  obtain rfl : _ = _ := h.fdbs.unique h'.fdbs
  rfl

section
variable {sb : Sb} {loc : Finset ℕ} {d : Datapath} {k : ℕ} {ths : Thresholds}

theorem sbThresholds_row (hd : d ∈ sb.datapaths) :
    sbThresholds sb loc d.tunnelKey = localThreshold loc d := by
  rw [sbThresholds, rowOf_of_mem sb.nodup_keys hd, Option.bind_some]

theorem sbThresholds_of_not_mem (hk : k ∉ loc) : sbThresholds sb loc k = none := by
  unfold sbThresholds
  cases hr : rowOf Datapath.tunnelKey sb.datapaths k with
  | none => rfl
  | some d =>
    obtain ⟨-, rfl⟩ := mem_of_rowOf hr
    exact if_neg hk

section
variable (hd : d ∈ sb.datapaths)
include hd

theorem keyOf_row : keyOf sb.datapaths d.uuid = some d.tunnelKey := by
  rw [keyOf, rowOf_of_mem sb.nodup_datapaths hd, Option.map_some]

theorem eq_of_tunnelKey {d' : Datapath} (hd' : d' ∈ sb.datapaths) (h : d.tunnelKey = d'.tunnelKey) :
    d = d' := inj_on_of_nodup_map sb.nodup_keys hd hd' h

theorem eq_of_uuid {d' : Datapath} (hd' : d' ∈ sb.datapaths) (h : d.uuid = d'.uuid) : d = d' :=
  inj_on_of_nodup_map sb.nodup_datapaths hd hd' h

theorem mbWants_row {r : MacBinding} (hr : r.datapath = d.uuid) :
    mbWants sb loc r ↔ (sbThresholds sb loc d.tunnelKey).isSome := by
  simp [hr, keyOf_row hd, mbWants]

end

theorem exists_datapath {r : MacBinding} (hr : r ∈ sb.macBindings) :
    ∃ d ∈ sb.datapaths, r.datapath = d.uuid := by
  obtain ⟨d, hd, h⟩ := mem_map.1 (sb.refs r hr)
  exact ⟨d, hd, h.symm⟩

theorem mem_mbGroup {r : MacBinding} :
    r ∈ (mbGroup sb ths d).2 ↔ r ∈ sb.macBindings ∧ r.datapath = d.uuid := by
  simp [mbGroup]

theorem mem_of_mbGroups {ds : List Datapath} :
    ∀ g ∈ ds.map (mbGroup sb ths), ∀ r ∈ g.2, r ∈ sb.macBindings := by
  intro g hg r hr
  obtain ⟨d, -, rfl⟩ := mem_map.1 hg
  exact (mem_mbGroup.1 hr).1

theorem mem_fdbGroup {r : Fdb} :
    r ∈ (fdbGroup sb ths d).2 ↔ r ∈ sb.fdbs ∧ r.dpKey = d.tunnelKey := by
  simp [fdbGroup]

theorem mem_of_fdbGroups {ds : List Datapath} :
    ∀ g ∈ ds.map (fdbGroup sb ths), ∀ r ∈ g.2, r ∈ sb.fdbs := by
  intro g hg r hr
  obtain ⟨d, -, rfl⟩ := mem_map.1 hg
  exact (mem_fdbGroup.1 hr).1

/-! ## The handlers, read off -/

theorem thresholdAdd_apply : thresholdAdd ths d k =
    if d.tunnelKey = k then (ths k).or (threshold d) else ths k := by
  unfold thresholdAdd
  by_cases hk : d.tunnelKey = k
  · subst hk
    cases hc : ths d.tunnelKey with
    | some t => simp [hc]
    | none => cases ht : threshold d <;> simp [hc]
  · split
    · rfl
    · cases threshold d with
      | none => rfl
      | some t => exact Function.update_of_ne (Ne.symm hk) _ _

theorem thresholdReplace_apply : thresholdReplace loc ths d k =
    if d.tunnelKey = k then localThreshold loc d else ths k := by
  unfold thresholdReplace localThreshold
  by_cases hk : d.tunnelKey = k
  · subst hk
    by_cases hl : d.tunnelKey ∈ loc
    · simp [hl, thresholdAdd_apply]
    · simp [hl]
  · have hu : Function.update ths d.tunnelKey none k = ths k := Function.update_of_ne
      (Ne.symm hk) _ _
    by_cases hl : d.tunnelKey ∈ loc
    · simp [hl, thresholdAdd_apply, hk, hu]
    · simp [hl, hk, hu]

theorem replaces_of_ne {ds : List Datapath} (h : ∀ d ∈ ds, d.tunnelKey ≠ k) :
    ds.foldl (thresholdReplace loc) ths k = ths k :=
  foldl_same (g := fun ths : Thresholds => ths k) fun d hd _ => by
    rw [thresholdReplace_apply, if_neg (h d hd)]

theorem replaces_of_mem {x : Option Threshold} {ds : List Datapath}
    (hx : ∀ d ∈ ds, d.tunnelKey = k → localThreshold loc d = x) (h : ∃ d ∈ ds, d.tunnelKey = k) :
    ds.foldl (thresholdReplace loc) ths k = x := by
  refine foldl_sets (g := fun ths : Thresholds => ths k)
    (fun d hd hk ths => ?_) (fun d hd hk ths => ?_) (.inr h)
  · rw [thresholdReplace_apply, if_pos hk, hx d hd hk]
  · rw [thresholdReplace_apply, if_neg hk]

theorem foldl_handleForDatapath (pr : Parser) (dpKey : ℕ → Option ℕ) (sb : Sb) :
    ∀ (ds : List Datapath) (c : Cache),
    ds.foldl (handleForDatapath pr dpKey sb) c = ⟨c.thresholds,
      (ds.map (mbGroup sb c.thresholds)).foldl (handle (pr.mbEntry dpKey)) c.macBindings,
      (ds.map (fdbGroup sb c.thresholds)).foldl (handle pr.fdbEntry) c.fdbs⟩
  | [], _ => rfl
  | d :: ds, c => by
    rw [foldl_cons, foldl_handleForDatapath pr dpKey sb ds]
    rfl

end

def replacedDps (tdps : List TrackedDatapath) : List Datapath :=
  (tdps.filter fun t => t.trackedType ≠ .updated).map TrackedDatapath.dp

def runtimeThresholds (ch : Change) (tdps : List TrackedDatapath) (ths : Thresholds) : Thresholds :=
  (replacedDps tdps).foldl (thresholdReplace ch.localDatapaths) ths

def Change.trackedDps (ch : Change) : List Datapath := ch.datapaths.map fun t => t.row

def lastThresholds (ch : Change) (ths : Thresholds) : Thresholds :=
  let ths := ch.trackedDps.foldl (thresholdReplace ch.localDatapaths) ths
  if syncNeeded ch then thresholdsSync ch.localDatapaths ths else ths

theorem handlers_eq (pr : Parser) (ch : Change) (c : Cache) :
    handlers pr ch c = ch.runtime.map fun tdps =>
    let ths := runtimeThresholds ch tdps c.thresholds
    let last := lastThresholds ch ths
    ⟨last, (ch.trackedDps.map (mbGroup ch.sb last)).foldl (handle (pr.mbEntry ch.dpKey))
        ((updatedRows ch.macBindings).foldl
          (track (pr.mbEntry ch.dpKey) (mbWanted ch.dpKey ch.localDatapaths ths))
          (((tdps.map TrackedDatapath.dp).map (mbGroup ch.sb ths)).foldl
            (handle (pr.mbEntry ch.dpKey)) c.macBindings)),
      (ch.trackedDps.map (fdbGroup ch.sb last)).foldl (handle pr.fdbEntry)
        ((updatedRows ch.fdbs).foldl (track pr.fdbEntry (fdbWanted ch.localDatapaths ths))
          (((tdps.map TrackedDatapath.dp).map (fdbGroup ch.sb ths)).foldl (handle pr.fdbEntry)
            c.fdbs))⟩ := by
  unfold handlers runtimeDataHandler
  cases ch.runtime with
  | none => rfl
  | some tdps =>
    have hths : (tdps.filter fun t => t.trackedType ≠ .updated).foldl
        (fun ths t => thresholdReplace ch.localDatapaths ths t.dp) c.thresholds =
          runtimeThresholds ch tdps c.thresholds := by
      rw [runtimeThresholds, replacedDps, foldl_map]
    simp only [Option.pure_def, Option.bind_eq_bind, Option.bind_some, hths]
    rw [← foldl_map, foldl_handleForDatapath, sbDatapathBindingHandler, ← foldl_map,
      ← foldl_map (g := thresholdReplace ch.localDatapaths),
      foldl_handleForDatapath]
    rfl

/-! ## The full run -/

/-- No two rows of a table have the same key. -/
def Distinct {ρ κ β : Type} (entry : ρ → Option (κ × β)) (uuid : ρ → ℕ) (rows : List ρ) : Prop :=
  ∀ r ∈ rows, ∀ r' ∈ rows, ∀ e e', entry r = some e → entry r' = some e' → e.1 = e'.1 →
    uuid r = uuid r'

/-- No two MAC bindings have the same key, and no two FDB rows. -/
structure Unique (pr : Parser) (sb : Sb) : Prop where
  macBindings : Distinct (pr.mbEntry (keyOf sb.datapaths)) MacBinding.uuid sb.macBindings
  fdbs : Distinct pr.fdbEntry Fdb.uuid sb.fdbs

section
variable {pr : Parser} {sb : Sb} {loc : Finset ℕ}

theorem hasThreshold_thresholdAdd {ths : Thresholds} {d : Datapath} (h : ths d.tunnelKey = none) :
    hasThreshold (thresholdAdd ths d) d = (threshold d).isSome := by
  rw [hasThreshold, thresholdAdd_apply, if_pos rfl, h, Option.none_or]

theorem hasThreshold_sbThresholds {d : Datapath} (hd : d ∈ sb.datapaths) (hl : d.tunnelKey ∈ loc) :
    hasThreshold (sbThresholds sb loc) d = (threshold d).isSome := by
  rw [hasThreshold, sbThresholds_row hd, localThreshold, if_pos hl]

/-- A full run handles the rows of the local datapaths; each gets its threshold right before. -/
theorem foldl_run : ∀ (ds : List Datapath) (c : Cache), (ds.map Datapath.tunnelKey).Nodup →
    (∀ d ∈ ds, d ∈ sb.datapaths) → (∀ d ∈ ds, c.thresholds d.tunnelKey = none) →
    ds.foldl (fun c d => if d.tunnelKey ∈ loc then
        handleForDatapath pr (keyOf sb.datapaths) sb
          { c with thresholds := thresholdAdd c.thresholds d } d
      else c)
        c =
        ⟨fun k => (c.thresholds k).or ((rowOf Datapath.tunnelKey ds k).bind (localThreshold loc)),
        ((ds.filter (·.tunnelKey ∈ loc)).map (mbGroup sb (sbThresholds sb loc))).foldl
          (handle (pr.mbEntry (keyOf sb.datapaths))) c.macBindings,
        ((ds.filter (·.tunnelKey ∈ loc)).map (fdbGroup sb (sbThresholds sb loc))).foldl
          (handle pr.fdbEntry) c.fdbs⟩
  | [], c, _, _, _ => by
    cases c
    simp [rowOf]
  | d :: ds, c, hnodup, hsub, hnone => by
    have hd := hnone d mem_cons_self
    obtain ⟨hne, hnodup⟩ := nodup_cons.1 hnodup
    have hno : rowOf Datapath.tunnelKey ds d.tunnelKey = none := rowOf_eq_none.2 hne
    rw [foldl_cons]
    by_cases hl : d.tunnelKey ∈ loc
    · rw [if_pos hl, foldl_run ds _ hnodup (forall_mem_cons.1 hsub).2 ?_,
        filter_cons_of_pos (by simpa using hl)]
      · have hg : hasThreshold (thresholdAdd c.thresholds d) d = hasThreshold (sbThresholds sb loc)
          d := by
          rw [hasThreshold_thresholdAdd hd, hasThreshold_sbThresholds (hsub d mem_cons_self) hl]
        simp only [handleForDatapath, mbHandleForDatapath, fdbHandleForDatapath, map_cons,
          foldl_cons,
          mbGroup, fdbGroup, hg, Cache.mk.injEq, and_true]
        ext1 k
        rw [thresholdAdd_apply, rowOf_cons]
        by_cases hk : d.tunnelKey = k
        · subst hk
          simp [hno, localThreshold, hl]
        · simp [hk]
      · intro d' hd'
        show thresholdAdd c.thresholds d d'.tunnelKey = none
        rw [thresholdAdd_apply, if_neg, hnone d' (mem_cons_of_mem d hd')]
        exact fun h => hne (h ▸ mem_map_of_mem hd')
    · rw [if_neg hl, foldl_run ds _ hnodup (forall_mem_cons.1 hsub).2
        (forall_mem_cons.1 hnone).2, filter_cons_of_neg (by simpa using hl)]
      simp only [Cache.mk.injEq, and_true]
      ext1 k
      rw [rowOf_cons]
      by_cases hk : d.tunnelKey = k
      · subst hk
        simp [hno, localThreshold, hl]
      · simp [hk]

theorem enMacCacheRun_eq (pr : Parser) (sb : Sb) (loc : Finset ℕ) : enMacCacheRun pr sb loc =
    ⟨sbThresholds sb loc,
      ((sb.datapaths.filter (·.tunnelKey ∈ loc)).map (mbGroup sb (sbThresholds sb loc))).foldl
        (handle (pr.mbEntry (keyOf sb.datapaths))) fun _ => none,
      ((sb.datapaths.filter (·.tunnelKey ∈ loc)).map (fdbGroup sb (sbThresholds sb loc))).foldl
        (handle pr.fdbEntry) fun _ => none⟩ := by
  rw [enMacCacheRun, foldl_run sb.datapaths .empty sb.nodup_keys (fun _ h => h) (fun _ _ => rfl)]
  rfl

theorem mem_of_isSome {k : ℕ} (h : (sbThresholds sb loc k).isSome) :
    k ∈ loc ∧ ∃ d ∈ sb.datapaths, d.tunnelKey = k := by
  constructor
  · by_contra hk
    rw [sbThresholds_of_not_mem hk] at h
    cases h
  · unfold sbThresholds at h
    cases hr : rowOf Datapath.tunnelKey sb.datapaths k with
    | none =>
      rw [hr] at h
      cases h
    | some d => exact ⟨d, mem_of_rowOf hr⟩

theorem enMacCacheRun_exact (hu : Unique pr sb) : Exact pr sb loc (enMacCacheRun pr sb loc) := by
  rw [enMacCacheRun_eq]
  refine ⟨rfl, groups_exactly mem_of_mbGroups ?_ ?_ ?_, groups_exactly mem_of_fdbGroups ?_ ?_ ?_⟩
  · intro g hg r hr
    obtain ⟨d, hd, rfl⟩ := mem_map.1 hg
    exact (mbWants_row (mem_of_mem_filter hd) (mem_mbGroup.1 hr).2).symm
  · intro r hr hw
    obtain ⟨d, hd, hrd⟩ := exists_datapath hr
    have hl := (mem_of_isSome ((mbWants_row hd hrd).1 hw)).1
    exact ⟨_, mem_map_of_mem (mem_filter.2 ⟨hd, by simpa using hl⟩), mem_mbGroup.2 ⟨hr, hrd⟩⟩
  · intro r hr r' hr' k v v' he he'
    exact inj_on_of_nodup_map sb.nodup_macBindings hr hr'
      (hu.macBindings r hr r' hr' _ _ he he' rfl)
  · intro g hg r hr
    obtain ⟨d, hd, rfl⟩ := mem_map.1 hg
    rw [fdbWants, (mem_fdbGroup.1 hr).2]
    rfl
  · intro r hr hw
    obtain ⟨hl, d, hd, hk⟩ := mem_of_isSome hw
    exact ⟨_, mem_map_of_mem (mem_filter.2 ⟨hd, by simpa [hk] using hl⟩),
      mem_fdbGroup.2 ⟨hr, hk.symm⟩⟩
  · intro r hr r' hr' k v v' he he'
    exact inj_on_of_nodup_map sb.nodup_fdbs hr hr' (hu.fdbs r hr r' hr' _ _ he he' rfl)

/-- Every cached entry has a threshold for its datapath key. -/
structure Covered (c : Cache) : Prop where
  macBindings : ∀ k v, c.macBindings k = some v → (c.thresholds k.dpKey).isSome
  fdbs : ∀ k v, c.fdbs k = some v → (c.thresholds k.dpKey).isSome

theorem mbEntry_dpKey {dpKey : ℕ → Option ℕ} {r : MacBinding} {e : MbKey × MbValue}
    (h : pr.mbEntry dpKey r = some e) : dpKey r.datapath = some e.1.dpKey := by
  simp only [Parser.mbEntry, Option.pure_def, Option.bind_eq_bind, Option.bind_eq_some_iff,
    Option.some.injEq] at h
  obtain ⟨k, hk, _, _, _, _, rfl⟩ := h
  exact hk

theorem fdbEntry_dpKey {r : Fdb} {e : FdbKey × FdbValue} (h : pr.fdbEntry r = some e) :
    e.1.dpKey = r.dpKey := by
  simp only [Parser.fdbEntry, Option.pure_def, Option.bind_eq_bind, Option.bind_eq_some_iff,
    Option.some.injEq] at h
  obtain ⟨_, _, rfl⟩ := h
  rfl

theorem enMacCacheRun_covered (pr : Parser) (sb : Sb) (loc : Finset ℕ) :
    Covered (enMacCacheRun pr sb loc) := by
  rw [enMacCacheRun_eq]
  constructor
  · intro k v h
    obtain ⟨g, hg, hth, r, hr, he⟩ := (of_groups_eq_some h).resolve_left nofun
    obtain ⟨d, hd, rfl⟩ := mem_map.1 hg
    have hk := mbEntry_dpKey he
    rw [(mem_mbGroup.1 hr).2, keyOf_row (mem_of_mem_filter hd), Option.some.injEq] at hk
    rw [← hk]
    exact hth
  · intro k v h
    obtain ⟨g, hg, hth, r, hr, he⟩ := (of_groups_eq_some h).resolve_left nofun
    obtain ⟨d, hd, rfl⟩ := mem_map.1 hg
    rw [fdbEntry_dpKey he, (mem_fdbGroup.1 hr).2]
    exact hth

theorem statsRun_ok {κ β : Type} {find : κ → Option β} {dpKey : κ → ℕ} {ths : Thresholds}
    (h : ∀ k v, find k = some v → (ths (dpKey k)).isSome) (sbrec : β → ℕ) (now : ℕ)
    (timestamp : ℕ → ℕ)
    (stats : List (κ × ℕ)) : ∃ out, statsRun find dpKey sbrec ths now timestamp stats =
      .ok out := by
  have hstep : ∀ out s, ∃ out', statsStep find dpKey sbrec ths now timestamp out s = .ok out' := by
    intro out s
    unfold statsStep
    cases hf : find s.1 with
    | none => exact ⟨out, rfl⟩
    | some e =>
      obtain ⟨t, ht⟩ := Option.isSome_iff_exists.1 (h s.1 e hf)
      simp only [ht]
      split
      · exact ⟨_, rfl⟩
      · exact ⟨_, rfl⟩
  have hall : ∀ (stats : List (κ × ℕ)) (out : List ℕ), ∃ out',
      stats.foldlM (statsStep find dpKey sbrec ths now timestamp) out = .ok out' := by
    intro stats
    induction stats with
    | nil => exact fun out => ⟨out, rfl⟩
    | cons s stats ih =>
      intro out
      obtain ⟨out', h⟩ := hstep out s
      rw [foldlM_cons, h]
      exact ih out'
  exact hall stats []

end

end Ovn.MacCache

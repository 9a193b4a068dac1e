/-
  The MAC cache holds what a full run would build, as long as no cached row changes its key.

  Handlers remove an entry by what its row holds now, so an entry whose row got another address
  stays behind; once its datapath loses its threshold, its statistics are read with none.
-/
import Ovn.Controller.MacCacheRun

namespace Ovn.MacCache

open RowCache
open List

/-! ## Changes -/

/-- What the database and the runtime data say of a change: every row that changed is tracked,
    tracked datapaths have rows, and a datapath key that became local or stopped being so is that of
    one tracked as new or removed. -/
structure Valid (s : State) (ch : Change) : Prop where
  datapaths : Tracks Datapath.uuid s.sb.datapaths ch.sb.datapaths
    (ch.datapaths.map Tracked.toTrackedRow)
  macBindings : Tracks MacBinding.uuid s.sb.macBindings ch.sb.macBindings
    (ch.macBindings.map Tracked.toTrackedRow)
  fdbs : Tracks Fdb.uuid s.sb.fdbs ch.sb.fdbs (ch.fdbs.map Tracked.toTrackedRow)
  mbUpdated : ∀ t ∈ ch.macBindings, t.isUpdated = false → t.row ∈ s.sb.macBindings
  fdbUpdated : ∀ t ∈ ch.fdbs, t.isUpdated = false → t.row ∈ s.sb.fdbs
  tdps : ∀ tdps, ch.runtime = some tdps → ∀ t ∈ tdps, t.dp ∈ ch.sb.datapaths
  locals : ∀ tdps, ch.runtime = some tdps → ∀ k, (k ∈ s.localDatapaths ↔ k ∈ ch.localDatapaths) ∨
    ∃ t ∈ tdps, t.trackedType ≠ .updated ∧ t.dp.tunnelKey = k

def Change.mbRows (ch : Change) : List MacBinding :=
  ch.sb.macBindings ++ ch.macBindings.map fun t => t.row

def Change.fdbRows (ch : Change) : List Fdb := ch.sb.fdbs ++ ch.fdbs.map fun t => t.row

/-- The change leaves the keys of rows on local datapaths as they are: those of the datapaths, of
    their MAC bindings and of their FDB rows; the key of a deleted datapath is not local; and no two
    rows have the same key. -/
structure Steady (pr : Parser) (s : State) (ch : Change) : Prop where
  dpKeeps : ∀ d ∈ s.sb.datapaths, d.tunnelKey ∈ s.localDatapaths →
    ∀ d' ∈ ch.sb.datapaths ++ ch.trackedDps,
    d'.uuid = d.uuid → d'.tunnelKey = d.tunnelKey
  dpDeleted : ∀ t ∈ ch.datapaths, t.isDeleted = true → t.row.tunnelKey ∉ ch.localDatapaths
  mbKeeps : ∀ r ∈ s.sb.macBindings,
    (∃ k ∈ s.localDatapaths, keyOf s.sb.datapaths r.datapath = some k) →
    ∀ t ∈ ch.macBindings, t.row.uuid = r.uuid →
      (pr.mbEntry ch.dpKey t.row).map Prod.fst = (pr.mbEntry (keyOf s.sb.datapaths) r).map Prod.fst
  fdbKeeps : ∀ r ∈ s.sb.fdbs, r.dpKey ∈ s.localDatapaths → ∀ t ∈ ch.fdbs, t.row.uuid = r.uuid →
    (pr.fdbEntry t.row).map Prod.fst = (pr.fdbEntry r).map Prod.fst
  unique : Unique pr s.sb
  mbDistinct : Distinct (pr.mbEntry ch.dpKey) MacBinding.uuid ch.mbRows
  mbDistinct_old : ∀ r ∈ s.sb.macBindings, ∀ r' ∈ ch.mbRows, ∀ e e',
    pr.mbEntry (keyOf s.sb.datapaths) r = some e → pr.mbEntry ch.dpKey r' = some e' → e.1 = e'.1 →
    r.uuid = r'.uuid
  fdbDistinct : Distinct pr.fdbEntry Fdb.uuid (s.sb.fdbs ++ ch.fdbRows)

section
variable {pr : Parser} {s : State} {ch : Change} {tdps : List TrackedDatapath} {k : ℕ}
    {d : Datapath}

/-! ## Cached rows -/

theorem tracks_updatedRows {ρ : Type} {key : ρ → ℕ} {old new : List ρ} {ts : List (Tracked ρ)}
    (h : Tracks key old new (ts.map Tracked.toTrackedRow))
    (hu : ∀ t ∈ ts, t.isUpdated = false → t.row ∈ old) :
    Tracks key old new (updatedRows ts) := by
  refine h.sublist (filter_sublist.map _) ?_
  intro _ hmem hnot
  obtain ⟨t, ht, rfl⟩ := mem_map.1 hmem
  have hno : t.isUpdated = false := by
    by_contra hup
    exact hnot (mem_map_of_mem (mem_filter.2 ⟨ht, by simpa using hup⟩))
  exact ⟨hu t ht hno, (Bool.or_eq_false_iff.1 hno).2⟩

theorem mem_rows {ρ : Type} {new : List ρ} {ts : List (Tracked ρ)} {r : ρ}
    (h : r ∈ new ∨ ∃ t ∈ updatedRows ts, t.row = r) : r ∈ new ++ ts.map fun t => t.row := by
  rcases h with h | ⟨_, hmem, rfl⟩
  · exact mem_append_left _ h
  · obtain ⟨t, ht, rfl⟩ := mem_map.1 hmem
    exact mem_append_right _ (mem_map.2 ⟨t, mem_of_mem_filter ht, rfl⟩)

/-- A row that has the key of an old one is that row or tracked. -/
theorem same_or_tracked {ρ : Type} {key : ρ → ℕ} {old new : List ρ} {ts : List (Tracked ρ)}
    {r r' : ρ}
    (h : Tracks key old new (ts.map Tracked.toTrackedRow)) (hnodup : (old.map key).Nodup)
    (hr : r ∈ old)
    (hr' : r' ∈ new ∨ ∃ t ∈ updatedRows ts, t.row = r') (hu : key r' = key r) :
    r' = r ∧ r' ∈ new ∨ ∃ t ∈ ts, t.row = r' := by
  rcases hr' with hr' | ⟨_, hmem, rfl⟩
  · by_cases hold : r' ∈ old
    · exact .inl ⟨inj_on_of_nodup_map hnodup hold hr hu, hr'⟩
    · obtain ⟨_, hmem, rfl⟩ := h.changed r' hr' hold
      obtain ⟨t, ht, rfl⟩ := mem_map.1 hmem
      exact .inr ⟨t, ht, rfl⟩
  · obtain ⟨t, ht, rfl⟩ := mem_map.1 hmem
    exact .inr ⟨t, mem_of_mem_filter ht, rfl⟩

theorem dpKey_row (hd : d ∈ ch.sb.datapaths) : ch.dpKey d.uuid = some d.tunnelKey := by
  rw [Change.dpKey, keyOf, rowOf_append, rowOf_of_mem ch.sb.nodup_datapaths hd]
  rfl

theorem dpKey_eq_keyOf {r : MacBinding} (hr : r ∈ ch.sb.macBindings) :
    ch.dpKey r.datapath = keyOf ch.sb.datapaths r.datapath := by
  obtain ⟨d, hd, h⟩ := exists_datapath hr
  rw [h, dpKey_row hd, keyOf_row hd]

theorem mb_untracked {ths : Thresholds} {r : MacBinding} (hr : r ∈ ch.sb.macBindings)
    (hno : ∀ g ∈ ch.trackedDps.map (mbGroup ch.sb ths), r ∉ g.2) (hrd : r.datapath = d.uuid) :
    ∀ d' ∈ ch.trackedDps, d'.uuid ≠ d.uuid := fun _ hd' hu =>
  hno _ (mem_map_of_mem hd') (mem_mbGroup.2 ⟨hr, hrd.trans hu.symm⟩)

theorem fdb_untracked {ths : Thresholds} {r : Fdb} (hr : r ∈ ch.sb.fdbs)
    (hno : ∀ g ∈ ch.trackedDps.map (fdbGroup ch.sb ths), r ∉ g.2) :
    ∀ d ∈ ch.trackedDps, d.tunnelKey ≠ r.dpKey := fun _ hd hk =>
  hno _ (mem_map_of_mem hd) (mem_fdbGroup.2 ⟨hr, hk.symm⟩)

/-! ## Thresholds -/

/-- The thresholds after the runtime data was handled. -/
abbrev midThresholds (s : State) (ch : Change) (tdps : List TrackedDatapath) : Thresholds :=
  runtimeThresholds ch tdps (sbThresholds s.sb s.localDatapaths)

theorem midThresholds_of_ne (h : ∀ t ∈ tdps, t.dp.tunnelKey ≠ k) :
    midThresholds s ch tdps k = sbThresholds s.sb s.localDatapaths k := by
  refine replaces_of_ne fun d hd => ?_
  obtain ⟨t, ht, rfl⟩ := mem_map.1 hd
  exact h t (mem_of_mem_filter ht)

section
variable (hv : Valid s ch)
include hv

theorem Valid.row_of_mem {t : Tracked Datapath} (ht : t ∈ ch.datapaths)
    (hd : t.row.uuid ∈ ch.sb.datapaths.map Datapath.uuid) : t.row ∈ ch.sb.datapaths := by
  have hof := hv.datapaths.each _ (mem_map_of_mem ht)
  refine hof.row (Bool.eq_false_iff.2 fun h => hof.isDeleted.1 h hd)

theorem Valid.mem_old (hd : d ∈ ch.sb.datapaths)
    (hno : ∀ d' ∈ ch.trackedDps, d'.uuid ≠ d.uuid) : d ∈ s.sb.datapaths := by
  by_contra hnot
  obtain ⟨_, hmem, rfl⟩ := hv.datapaths.changed d hd hnot
  obtain ⟨t, ht, rfl⟩ := mem_map.1 hmem
  exact hno _ (mem_map_of_mem ht) rfl

variable (hr : ch.runtime = some tdps)
include hr

theorem midThresholds_row (hd : d ∈ ch.sb.datapaths)
    (hno : ∀ d' ∈ ch.trackedDps, d'.uuid ≠ d.uuid) :
    midThresholds s ch tdps d.tunnelKey = sbThresholds ch.sb ch.localDatapaths d.tunnelKey := by
  rw [sbThresholds_row hd]
  have hrow : ∀ d' ∈ replacedDps tdps, d'.tunnelKey = d.tunnelKey →
      localThreshold ch.localDatapaths d' = localThreshold ch.localDatapaths d := by
    intro d' hd' hk
    obtain ⟨t, ht, rfl⟩ := mem_map.1 hd'
    rw [eq_of_tunnelKey (hv.tdps tdps hr t (mem_of_mem_filter ht)) hd hk]
  by_cases hin : ∃ d' ∈ replacedDps tdps, d'.tunnelKey = d.tunnelKey
  · exact replaces_of_mem hrow hin
  · have hin : ∀ d' ∈ replacedDps tdps, d'.tunnelKey ≠ d.tunnelKey :=
      fun d' hd' hk => hin ⟨d', hd', hk⟩
    rw [midThresholds, runtimeThresholds, replaces_of_ne hin, sbThresholds_row (hv.mem_old hd hno)]
    rcases hv.locals tdps hr d.tunnelKey with hl | ⟨t, ht, hty, hk⟩
    · simp only [localThreshold, hl]
    · exact absurd hk (hin t.dp (mem_map_of_mem (mem_filter.2 ⟨ht, by simpa using hty⟩)))

variable (hs : Steady pr s ch)
include hs

theorem midThresholds_key (hno : ∀ d ∈ ch.trackedDps, d.tunnelKey ≠ k) :
    midThresholds s ch tdps k = sbThresholds ch.sb ch.localDatapaths k := by
  cases hrow : rowOf Datapath.tunnelKey ch.sb.datapaths k with
  | some d =>
    obtain ⟨hd, rfl⟩ := mem_of_rowOf hrow
    refine midThresholds_row hv hr hd fun d' hd' hu => ?_
    obtain ⟨t, ht, rfl⟩ := mem_map.1 hd'
    have ht' := hv.row_of_mem ht (hu ▸ mem_map_of_mem hd)
    exact hno _ (mem_map_of_mem ht) (congrArg Datapath.tunnelKey (eq_of_uuid ht' hd hu))
  | none =>
    have hnone := rowOf_eq_none.1 hrow
    have htdps : ∀ t ∈ tdps, t.dp.tunnelKey ≠ k := fun t ht hk =>
      hnone (mem_map.2 ⟨t.dp, hv.tdps tdps hr t ht, hk⟩)
    rw [midThresholds_of_ne htdps, sbThresholds, sbThresholds, hrow]
    cases hold : rowOf Datapath.tunnelKey s.sb.datapaths k with
    | none => rfl
    | some d =>
      obtain ⟨hd, rfl⟩ := mem_of_rowOf hold
      -- the row was deleted or got another key, which the rows of local datapaths do not
      refine if_neg fun hl => ?_
      by_cases hu : d.uuid ∈ ch.sb.datapaths.map Datapath.uuid
      · obtain ⟨d', hd', hu⟩ := mem_map.1 hu
        exact hnone (mem_map.2 ⟨d', hd', hs.dpKeeps d hd hl d' (mem_append_left _ hd') hu⟩)
      · obtain ⟨_, hmem, hu⟩ := hv.datapaths.deleted d hd hu
        obtain ⟨t, ht, rfl⟩ := mem_map.1 hmem
        have ht : t.row ∈ ch.trackedDps := mem_map_of_mem ht
        exact hno _ ht (hs.dpKeeps d hd hl _ (mem_append_right _ ht) hu)

/-- **The handlers leave the thresholds of the local datapaths.** -/
theorem lastThresholds_eq :
    lastThresholds ch (midThresholds s ch tdps) = sbThresholds ch.sb ch.localDatapaths := by
  ext1 k
  have hreplaced : ch.trackedDps.foldl (thresholdReplace ch.localDatapaths)
      (midThresholds s ch tdps) k =
        sbThresholds ch.sb ch.localDatapaths k := by
    by_cases hin : ∃ d ∈ ch.trackedDps, d.tunnelKey = k
    · refine replaces_of_mem (fun d hd hk => ?_) hin
      subst hk
      obtain ⟨t, ht, rfl⟩ := mem_map.1 hd
      by_cases hl : t.row.tunnelKey ∈ ch.localDatapaths
      · have hof := hv.datapaths.each _ (mem_map_of_mem ht)
        have hrow := hof.row (Bool.eq_false_iff.2 fun h => hs.dpDeleted t ht h hl)
        exact (sbThresholds_row hrow).symm
      · rw [sbThresholds_of_not_mem hl, localThreshold, if_neg hl]
    · have hin : ∀ d ∈ ch.trackedDps, d.tunnelKey ≠ k := fun d hd hk => hin ⟨d, hd, hk⟩
      rw [replaces_of_ne hin, midThresholds_key hv hr hs hin]
  unfold lastThresholds
  split
  · unfold thresholdsSync
    split
    · exact hreplaced
    next hl => exact (sbThresholds_of_not_mem hl).symm
  · exact hreplaced

omit hr in
theorem mb_keeps {r r' : MacBinding} (hr : r ∈ s.sb.macBindings)
    (hw : mbWants s.sb s.localDatapaths r)
    (hr' : r' ∈ ch.sb.macBindings ∨ ∃ t ∈ updatedRows ch.macBindings, t.row = r')
    (hu : r'.uuid = r.uuid) :
    (pr.mbEntry ch.dpKey r').map Prod.fst = (pr.mbEntry (keyOf s.sb.datapaths) r).map Prod.fst := by
  obtain ⟨k, hk, hth⟩ := hw
  have hl := (mem_of_isSome hth).1
  obtain ⟨rfl, hr'⟩ | ⟨t, ht, rfl⟩ := same_or_tracked hv.macBindings s.sb.nodup_macBindings
    hr hr' hu
  · obtain ⟨d, hd, hrd⟩ := exists_datapath hr
    obtain ⟨d', hd', hrd'⟩ := exists_datapath hr'
    rw [hrd, keyOf_row hd, Option.some.injEq] at hk
    have hkey := hs.dpKeeps d hd (hk ▸ hl) d' (mem_append_left _ hd') (hrd' ▸ hrd)
    have hdp : ch.dpKey r'.datapath = keyOf s.sb.datapaths r'.datapath := by
      rw [hrd', dpKey_row hd', ← hrd', hrd, keyOf_row hd, hkey]
    rw [Parser.mbEntry, Parser.mbEntry, hdp]
  · exact hs.mbKeeps r hr ⟨k, hl, hk⟩ t ht hu

theorem mb_refresh : Refresh MacBinding.uuid (pr.mbEntry (keyOf s.sb.datapaths))
    (pr.mbEntry ch.dpKey)
    s.sb.macBindings ch.sb.macBindings (mbWants s.sb s.localDatapaths)
      (mbWants ch.sb ch.localDatapaths)
    ((tdps.map TrackedDatapath.dp).map (mbGroup ch.sb (midThresholds s ch tdps)))
    (ch.trackedDps.map (mbGroup ch.sb (sbThresholds ch.sb ch.localDatapaths)))
    (updatedRows ch.macBindings)
    (mbWanted ch.dpKey ch.localDatapaths (midThresholds s ch tdps)) where
  nodup := s.sb.nodup_macBindings
  tracks := tracks_updatedRows hv.macBindings hv.mbUpdated
  keeps r hr hw r' hr' hu := mb_keeps hv hs hr hw hr' hu
  unique r r' hr hr' e e' he he' hk := hs.mbDistinct r (mem_rows hr) r' (mem_rows hr') e e'
    he he' hk
  unique_old r hr _ r' hr' e e' he he' hk := hs.mbDistinct_old r hr r' (mem_rows hr') e e' he he' hk
  nodup_new := ch.sb.nodup_macBindings
  before_sub := mem_of_mbGroups
  after_sub := mem_of_mbGroups
  after_wants g hg r hr := by
    obtain ⟨d, hd, rfl⟩ := mem_map.1 hg
    obtain ⟨t, ht, rfl⟩ := mem_map.1 hd
    obtain ⟨hrm, hrd⟩ := mem_mbGroup.1 hr
    exact (mbWants_row (hv.row_of_mem ht (hrd ▸ ch.sb.refs r hrm)) hrd).symm
  before_wants g hg r hr hno := by
    obtain ⟨d, hd, rfl⟩ := mem_map.1 hg
    obtain ⟨t, ht, rfl⟩ := mem_map.1 hd
    obtain ⟨hrm, hrd⟩ := mem_mbGroup.1 hr
    have htd := hv.tdps tdps ‹_› t ht
    rw [mbWants_row htd hrd, ← midThresholds_row hv ‹_› htd (mb_untracked hrm hno hrd)]
    rfl
  tracked_wants r hr hno := by
    obtain ⟨d, hd, hrd⟩ := exists_datapath hr
    rw [mbWants_row hd hrd, mbWanted, hrd, dpKey_row hd, Option.any_some,
      midThresholds_row hv ‹_› hd (mb_untracked hr hno hrd), Bool.and_eq_true, decide_eq_true_iff]
    exact and_iff_right_of_imp fun h => (mem_of_isSome h).1
  rest r hr _ hbefore hno := by
    obtain ⟨d, hd, hrd⟩ := exists_datapath hr
    have hun := mb_untracked hr hno hrd
    have hold := hv.mem_old hd hun
    have htdps : ∀ t ∈ tdps, t.dp.tunnelKey ≠ d.tunnelKey := by
      intro t ht hk
      refine hbefore _ (mem_map_of_mem (mem_map_of_mem ht)) (mem_mbGroup.2 ⟨hr, ?_⟩)
      rw [eq_of_tunnelKey (hv.tdps tdps ‹_› t ht) hd hk, hrd]
    constructor
    · rw [Parser.mbEntry, Parser.mbEntry, hrd, dpKey_row hd, keyOf_row hold]
    · rw [mbWants_row hd hrd, mbWants_row hold hrd, ← midThresholds_row hv ‹_› hd hun,
        midThresholds_of_ne htdps]

omit hr in
theorem fdb_keeps {r r' : Fdb} (hr : r ∈ s.sb.fdbs)
    (hw : fdbWants s.sb s.localDatapaths r)
    (hr' : r' ∈ ch.sb.fdbs ∨ ∃ t ∈ updatedRows ch.fdbs, t.row = r') (hu : r'.uuid = r.uuid) :
    (pr.fdbEntry r').map Prod.fst = (pr.fdbEntry r).map Prod.fst := by
  obtain ⟨rfl, -⟩ | ⟨t, ht, rfl⟩ := same_or_tracked hv.fdbs s.sb.nodup_fdbs hr hr' hu
  · rfl
  · exact hs.fdbKeeps r hr (mem_of_isSome hw).1 t ht hu

theorem fdb_refresh : Refresh Fdb.uuid pr.fdbEntry pr.fdbEntry
    s.sb.fdbs ch.sb.fdbs (fdbWants s.sb s.localDatapaths) (fdbWants ch.sb ch.localDatapaths)
    ((tdps.map TrackedDatapath.dp).map (fdbGroup ch.sb (midThresholds s ch tdps)))
    (ch.trackedDps.map (fdbGroup ch.sb (sbThresholds ch.sb ch.localDatapaths)))
    (updatedRows ch.fdbs) (fdbWanted ch.localDatapaths (midThresholds s ch tdps)) where
  nodup := s.sb.nodup_fdbs
  tracks := tracks_updatedRows hv.fdbs hv.fdbUpdated
  keeps r hr hw r' hr' hu := fdb_keeps hv hs hr hw hr' hu
  unique r r' hr hr' e e' he he' hk :=
    hs.fdbDistinct r (mem_append_right _ (mem_rows hr)) r' (mem_append_right _ (mem_rows hr')) e e'
      he he' hk
  unique_old r hr _ r' hr' e e' he he' hk :=
    hs.fdbDistinct r (mem_append_left _ hr) r' (mem_append_right _ (mem_rows hr')) e e' he he' hk
  nodup_new := ch.sb.nodup_fdbs
  before_sub := mem_of_fdbGroups
  after_sub := mem_of_fdbGroups
  after_wants g hg r hr := by
    obtain ⟨d, -, rfl⟩ := mem_map.1 hg
    rw [fdbWants, (mem_fdbGroup.1 hr).2]
    rfl
  before_wants g hg r hr hno := by
    obtain ⟨d, -, rfl⟩ := mem_map.1 hg
    obtain ⟨hrm, hk⟩ := mem_fdbGroup.1 hr
    rw [fdbWants, ← midThresholds_key hv ‹_› hs (fdb_untracked hrm hno), hk]
    rfl
  tracked_wants r hr hno := by
    rw [fdbWanted, midThresholds_key hv ‹_› hs (fdb_untracked hr hno), Bool.and_eq_true,
      decide_eq_true_iff]
    exact and_iff_right_of_imp fun h => (mem_of_isSome h).1
  rest r hr _ hbefore hno := by
    have htdps : ∀ t ∈ tdps, t.dp.tunnelKey ≠ r.dpKey := fun t ht hk =>
      hbefore _ (mem_map_of_mem (mem_map_of_mem ht)) (mem_fdbGroup.2 ⟨hr, hk.symm⟩)
    refine ⟨rfl, ?_⟩
    rw [fdbWants, fdbWants, ← midThresholds_key hv ‹_› hs (fdb_untracked hr hno),
      midThresholds_of_ne htdps]

end

/-! ## Steps and runs -/

theorem Steady.unique_new (hs : Steady pr s ch) : Unique pr ch.sb where
  macBindings r hr r' hr' e e' he he' hk := by
    have hentry : ∀ r ∈ ch.sb.macBindings,
      pr.mbEntry ch.dpKey r = pr.mbEntry (keyOf ch.sb.datapaths) r :=
      fun r hr => by rw [Parser.mbEntry, Parser.mbEntry, dpKey_eq_keyOf hr]
    rw [← hentry r hr] at he
    rw [← hentry r' hr'] at he'
    exact hs.mbDistinct r (mem_append_left _ hr) r' (mem_append_left _ hr') e e' he he' hk
  fdbs r hr r' hr' :=
    hs.fdbDistinct r (mem_append_right _ (mem_append_left _ hr)) r'
      (mem_append_right _ (mem_append_left _ hr'))

/-- **A step**: what the handlers leave of a cache that is exact is exact. -/
theorem handlers_exact (hv : Valid s ch) (hs : Steady pr s ch)
    (h : Exact pr s.sb s.localDatapaths s.cache) {c : Cache}
    (hc : handlers pr ch s.cache = some c) :
    Exact pr ch.sb ch.localDatapaths c := by
  rw [handlers_eq, Option.map_eq_some_iff] at hc
  obtain ⟨tdps, hr, rfl⟩ := hc
  have hlast := lastThresholds_eq hv hr hs
  rw [midThresholds, ← h.thresholds] at hlast
  refine ⟨hlast, ?_, ?_⟩
  · have hmb := (mb_refresh hv hr hs).exactly h.macBindings
    rw [midThresholds, ← h.thresholds, ← hlast] at hmb
    refine hmb.congr fun r hr => ?_
    rw [Parser.mbEntry, Parser.mbEntry, dpKey_eq_keyOf hr]
  · have hfdb := (fdb_refresh hv hr hs).exactly h.fdbs
    rw [midThresholds, ← h.thresholds, ← hlast] at hfdb
    exact hfdb

theorem step_cache (hv : Valid s ch) (hs : Steady pr s ch)
    (h : s.cache = enMacCacheRun pr s.sb s.localDatapaths) :
    (step pr s ch).cache = enMacCacheRun pr ch.sb ch.localDatapaths := by
  unfold step
  cases hc : handlers pr ch s.cache with
  | none => rfl
  | some c =>
    have hexact : Exact pr s.sb s.localDatapaths s.cache := h ▸ enMacCacheRun_exact hs.unique
    exact (handlers_exact hv hs hexact hc).unique (enMacCacheRun_exact hs.unique_new)

end

/-- **The MAC cache is maintained exactly**: after any steady changes it is what a full run would
    build from the southbound content, every cached entry has a threshold, and statistics are never
    read without one. -/
theorem mac_cache_exact (pr : Parser) (sb : Sb) (loc : Finset ℕ) {s : State}
    (h : (system pr sb loc).Reached (fun s ch => Valid s ch ∧ Steady pr s ch) s) :
    s.cache = enMacCacheRun pr s.sb s.localDatapaths ∧ Covered s.cache ∧
      ∀ now timestamp, (∀ stats, ∃ out, macBindingStatsRun s.cache now timestamp stats = .ok out) ∧
        ∀ stats, ∃ out, fdbStatsRun s.cache now timestamp stats = .ok out := by
  have hinit : (system pr sb loc).init.cache =
      enMacCacheRun pr (system pr sb loc).init.sb (system pr sb loc).init.localDatapaths := rfl
  have hrun : s.cache = enMacCacheRun pr s.sb s.localDatapaths := by
    refine h.invariant (I := fun s => s.cache = enMacCacheRun pr s.sb s.localDatapaths) hinit ?_
    rintro s ch s' ih ⟨hv, hs⟩ hn
    cases hn
    exact step_cache hv hs ih
  have hcov : Covered s.cache := hrun ▸ enMacCacheRun_covered pr s.sb s.localDatapaths
  refine ⟨hrun, hcov, fun now timestamp => ⟨fun stats => ?_, fun stats => ?_⟩⟩
  · exact statsRun_ok hcov.macBindings _ now timestamp stats
  · exact statsRun_ok hcov.fdbs _ now timestamp stats

def twoIps : Parser where
  ip46Parse s := if s = "10.0.0.1" then some 1 else if s = "10.0.0.2" then some 2 else none
  ethAddrFromString s := if s = "00:00:00:00:00:01" then some 1 else none

def agingDp (age : ℕ) : Datapath := ⟨1, 5, age, 0⟩

def boundIp (ip : String) : MacBinding := ⟨7 * 2 ^ 96, 1, ip, "00:00:00:00:00:01"⟩

def agingSb (age : ℕ) (ip : Option String) : Sb where
  datapaths := [agingDp age]
  macBindings := ip.toList.map boundIp
  fdbs := []
  nodup_datapaths := nodup_singleton _
  nodup_keys := nodup_singleton _
  nodup_macBindings := by cases ip <;> simp
  nodup_fdbs := nodup_nil
  refs := by cases ip <;> simp [boundIp, agingDp]

def learned : Change where
  sb := agingSb 2 (some "10.0.0.1")
  localDatapaths := {5}
  runtime := some [⟨agingDp 2, .new⟩]
  macBindings := [⟨⟨boundIp "10.0.0.1", true, false⟩, true⟩]
  fdbs := []
  datapaths := []

theorem mac_cache_exact_learned :
    ∃ s : State,
      (system twoIps (agingSb 2 none) ∅).Reached (fun s ch => Valid s ch ∧ Steady twoIps s ch) s ∧
      (s.cache.macBindings ⟨7, 5, 1⟩).isSome ∧ s.cache = enMacCacheRun twoIps s.sb
        s.localDatapaths := by
  have hv : Valid (system twoIps (agingSb 2 none) ∅).init learned := {
    datapaths := Tracks.same _ _
    macBindings := {
      nodup := nodup_singleton _
      each := fun t ht => by
        obtain rfl := mem_singleton.1 ht
        exact ⟨by decide, by decide, fun _ => mem_singleton_self _⟩
      changed := fun r hr _ => ⟨_, mem_singleton_self _, (mem_singleton.1 hr).symm⟩
      deleted := nofun }
    fdbs := Tracks.same _ _
    mbUpdated := fun t ht hu => by
      obtain rfl := mem_singleton.1 ht
      cases hu
    fdbUpdated := nofun
    tdps := by
      rintro _ ⟨⟩ t ht
      obtain rfl := mem_singleton.1 ht
      exact mem_singleton_self _
    locals := by
      rintro _ ⟨⟩ k
      by_cases hk : k = 5
      · exact .inr ⟨_, mem_singleton_self _, nofun, hk.symm⟩
      · refine .inl ⟨fun h => absurd h (Finset.notMem_empty k), fun h => absurd ?_ hk⟩
        exact Finset.mem_singleton.1 h }
  have hone : ∀ r ∈ learned.mbRows, r.uuid = 7 * 2 ^ 96 := by
    intro r hr
    simp only [Change.mbRows, learned, agingSb, Option.toList_some, map_cons, map_nil,
      cons_append, nil_append, mem_cons, not_mem_nil, or_false, or_self] at hr
    rw [hr]
    rfl
  have hs : Steady twoIps (system twoIps (agingSb 2 none) ∅).init learned := {
    dpKeeps := fun d _ hl => absurd hl (Finset.notMem_empty _)
    dpDeleted := nofun
    mbKeeps := nofun
    fdbKeeps := nofun
    unique := ⟨nofun, nofun⟩
    mbDistinct := fun r hr r' hr' _ _ _ _ _ => (hone r hr).trans (hone r' hr').symm
    mbDistinct_old := nofun
    fdbDistinct := nofun }
  have hreached := System.Reached.init.step
    (P := fun s ch => Valid s ch ∧ Steady twoIps s ch) ⟨hv, hs⟩ rfl
  exact ⟨_, hreached, by decide, (mac_cache_exact twoIps (agingSb 2 none) ∅ hreached).1⟩

def readdressed : Change where
  sb := agingSb 2 (some "10.0.0.2")
  localDatapaths := {5}
  runtime := some []
  macBindings := [⟨⟨boundIp "10.0.0.2", false, false⟩, true⟩]
  fdbs := []
  datapaths := []

def ageless : Change where
  sb := agingSb 0 (some "10.0.0.2")
  localDatapaths := {5}
  runtime := some []
  macBindings := []
  fdbs := []
  datapaths := [⟨⟨agingDp 0, false, false⟩, false⟩]

/-- A MAC binding gets another address and its datapath loses its threshold: the entry of the old
    address is still cached, and its statistics are read without a threshold. -/
theorem not_mac_cache_exact :
    ∃ s : State, (system twoIps (agingSb 2 (some "10.0.0.1")) {5}).Reached Valid s ∧
      s.cache ≠ enMacCacheRun twoIps s.sb s.localDatapaths ∧ ¬ Covered s.cache ∧
      macBindingStatsRun s.cache 0 (fun _ => 0) [(⟨7, 5, 1⟩, 0)] = .error ⟨7, 5, 1⟩ := by
  have hfirst : Valid (system twoIps (agingSb 2 (some "10.0.0.1")) {5}).init readdressed := {
    datapaths := Tracks.same _ _
    macBindings := Tracks.replaced rfl
    fdbs := Tracks.same _ _
    mbUpdated := fun t ht hu => by
      obtain rfl := mem_singleton.1 ht
      cases hu
    fdbUpdated := nofun
    tdps := by
      rintro _ ⟨⟩ t ht
      cases ht
    locals := fun _ _ k => .inl .rfl }
  have hsecond :
    Valid (step twoIps (system twoIps (agingSb 2 (some "10.0.0.1")) {5}).init readdressed)
    ageless := {
    datapaths := Tracks.replaced rfl
    macBindings := Tracks.same _ _
    fdbs := Tracks.same _ _
    mbUpdated := nofun
    fdbUpdated := nofun
    tdps := by
      rintro _ ⟨⟩ t ht
      cases ht
    locals := fun _ _ k => .inl .rfl }
  refine ⟨_, (System.Reached.init.step hfirst rfl).step hsecond rfl, ?_⟩
  refine ⟨fun h => ?_, fun h => ?_, by decide⟩
  · have := congrArg (fun c => (c.macBindings ⟨7, 5, 1⟩).isSome) h
    revert this
    decide
  · have := h.macBindings ⟨7, 5, 1⟩ ⟨1, 7 * 2 ^ 96⟩ (by decide)
    revert this
    decide

end Ovn.MacCache

/-
  What `build_datapaths` leaves: a southbound row for every datapath that has a key, and a key of
  its own for every datapath.
-/
import Ovn.Northd.Datapaths
import Ovn.Lib.Ends

namespace Ovn.Datapaths

open Function (update update_apply update_of_ne update_self)
open List

namespace State

variable {s : State}

/-! ## `join_datapaths` -/

def rowFor (rows : List SbRow) (u : ℕ) : Option SbRow := rows.find? fun r => r.dp = some u

theorem rowFor_some {rows : List SbRow} {u : ℕ} {r : SbRow} (h : rowFor rows u = some r) :
    r ∈ rows ∧ r.dp = some u := by
  refine ⟨mem_of_find?_eq_some h, ?_⟩
  have := find?_some h
  simpa using this

/-- The loop over the southbound rows, of which `done` are done. -/
structure Rows (rows done : List SbRow) (s : State) : Prop where
  datapaths : ∀ u, u ∈ s.datapaths ↔ (rowFor done u).isSome
  nodup : s.datapaths.Nodup
  sbOnly : s.sbOnly.Perm s.datapaths
  sbRow : ∀ u, s.sbRow u = rowFor done u
  nb : ∀ u, s.nb u = none
  tunnelKey : ∀ u, s.tunnelKey u = 0
  rest : s.nbOnly = [] ∧ s.both = [] ∧ s.lrList = [] ∧ s.tnlids = ∅ ∧ s.hint = 0
  sb : ∀ r, r ∈ s.sb ↔ r ∈ rows ∧ (r ∈ done → ∃ u, r.dp = some u ∧ rowFor done u = some r)
  ids : (s.sb.map (·.id)).Nodup

theorem rowFor_append (done : List SbRow) (r : SbRow) (u : ℕ) :
    rowFor (done ++ [r]) u = (rowFor done u).or (if r.dp = some u then some r else none) := by
  unfold rowFor
  simp

theorem Rows.delete {rows done : List SbRow} {row : SbRow} (h : Rows rows done s)
    (hrow : row ∈ rows)
    (hids : (rows.map (·.id)).Nodup) (hnew : row ∉ done)
    (hdup : ∀ u, row.dp = some u → (rowFor done u).isSome) :
    Rows rows (done ++ [row]) (s.sbDelete row.id) := by
  have hfor : ∀ u, rowFor (done ++ [row]) u = rowFor done u := by
    intro u
    rw [rowFor_append]
    split
    next hu =>
      obtain ⟨r, hr⟩ := Option.isSome_iff_exists.1 (hdup u hu)
      rw [hr]
      rfl
    · rw [Option.or_none]
  refine { h with
    datapaths := fun u => by rw [hfor]; exact h.datapaths u
    sbRow := fun u => by rw [hfor]; exact h.sbRow u
    sb := fun r => ?_
    ids := nodup_dropRow h.ids }
  change r ∈ dropRow (·.id) row.id s.sb ↔ _
  rw [dropRow, mem_filter, h.sb]
  simp only [hfor, mem_append, mem_singleton]
  constructor
  · rintro ⟨⟨hr, hd⟩, hne⟩
    refine ⟨hr, ?_⟩
    rintro (hin | rfl)
    · exact hd hin
    · simp at hne
  · rintro ⟨hr, hd⟩
    refine ⟨⟨hr, fun hin => hd (.inl hin)⟩, ?_⟩
    rw [decide_eq_true_iff]
    intro heq
    have : r = row := inj_on_of_nodup_map hids hr hrow heq
    subst this
    obtain ⟨u, hu, hfu⟩ := hd (.inr rfl)
    exact hnew (rowFor_some hfu).1

theorem Rows.step {rows done : List SbRow} {row : SbRow} (h : Rows rows done s) (hrow : row ∈ rows)
    (hids : (rows.map (·.id)).Nodup) (hnew : row ∉ done) :
    Rows rows (done ++ [row]) (s.joinRow row) := by
  unfold joinRow
  cases hdp : row.dp with
  | none =>
    refine h.delete hrow hids hnew fun u hu => ?_
    rw [hdp] at hu
    cases hu
  | some key =>
    dsimp only
    split
    next hin =>
      refine h.delete hrow hids hnew fun u hu => ?_
      rw [hdp] at hu
      cases hu
      exact (h.datapaths key).1 hin
    next hout =>
      have hnone : rowFor done key = none :=
        Option.not_isSome_iff_eq_none.1 fun hs => hout ((h.datapaths key).2 hs)
      have hfor : ∀ u, rowFor (done ++ [row]) u = if u = key then some row else rowFor done u := by
        intro u
        rw [rowFor_append, hdp]
        by_cases hu : u = key
        · simp_all
        · rw [if_neg hu, if_neg fun he => hu (Option.some_inj.1 he).symm, Option.or_none]
      refine
        { datapaths := fun u => ?_
          nodup := nodup_cons.2 ⟨hout, h.nodup⟩
          sbOnly := ?_
          sbRow := fun u => ?_
          nb := fun u => ?_
          tunnelKey := fun u => ?_
          rest := h.rest
          sb := fun r => ?_
          ids := h.ids }
      · rw [hfor]
        change u ∈ key :: s.datapaths ↔ _
        rw [mem_cons, h.datapaths]
        by_cases hu : u = key <;> simp [hu]
      · exact (perm_append_singleton key s.sbOnly).trans (Perm.cons key h.sbOnly)
      · rw [hfor]
        change update s.sbRow key (some row) u = _
        rw [update_apply, h.sbRow]
      · change update s.nb key none u = none
        rw [update_apply, h.nb, ite_self]
      · change update s.tunnelKey key 0 u = 0
        rw [update_apply, h.tunnelKey, ite_self]
      · change r ∈ s.sb ↔ _
        rw [h.sb]
        refine and_congr_right fun _ => ?_
        constructor
        · intro hd hin
          rcases mem_append.1 hin with hin | hin
          · obtain ⟨u, hu, hfu⟩ := hd hin
            refine ⟨u, hu, ?_⟩
            rw [hfor, if_neg, hfu]
            rintro rfl
            rw [hnone] at hfu
            cases hfu
          · simp_all
        · intro hd hin
          obtain ⟨u, hu, hfu⟩ := hd (mem_append_left _ hin)
          refine ⟨u, hu, ?_⟩
          rw [hfor] at hfu
          split at hfu
          · cases hfu
            exact absurd hin hnew
          · exact hfu

/-- The loops over the northbound rows, of which `done` are done. -/
structure Joined (s₀ : State) (done : List NbDatapath) (s : State) : Prop where
  datapaths : ∀ u, u ∈ s.datapaths ↔ u ∈ s₀.datapaths ∨ u ∈ done.map (·.uuid)
  nodup : s.datapaths.Nodup
  nb : ∀ d ∈ done, s.nb d.uuid = some d
  nbNone : ∀ u, u ∉ done.map (·.uuid) → s.nb u = none
  sbRow : ∀ u, s.sbRow u = s₀.sbRow u
  tunnelKey : ∀ u, s.tunnelKey u = 0
  both : s.both = (done.map (·.uuid)).filter (· ∈ s₀.datapaths)
  nbOnly : s.nbOnly = (done.map (·.uuid)).filter (· ∉ s₀.datapaths)
  sbOnly : s.sbOnly = s₀.sbOnly.filter (· ∉ done.map (·.uuid))
  lrList : s.lrList = (done.filter (·.kind = .router)).map (·.uuid)
  tnlids : s.tnlids = ∅
  hint : s.hint = 0
  sb : s.sb = s₀.sb

theorem filter_ne_of_notMem {l : List ℕ} {u : ℕ} (h : u ∉ l) : l.filter (· ≠ u) = l := by
  refine filter_eq_self.2 fun v hv => ?_
  rw [decide_eq_true_iff]
  rintro rfl
  exact h hv

theorem Joined.step {s₀ : State} {done : List NbDatapath} {d : NbDatapath} (h : Joined s₀ done s)
    (hrow : ∀ u, u ∉ s₀.datapaths → s₀.sbRow u = none) (hsbOnly : ∀ u ∈ s₀.sbOnly, u ∈ s₀.datapaths)
    (hnew : d.uuid ∉ done.map (·.uuid)) : Joined s₀ (done ++ [d]) { s.joinNb d with
      lrList := if d.kind = .router then s.lrList ++ [d.uuid] else s.lrList } := by
  have hmap : (done ++ [d]).map (·.uuid) = done.map (·.uuid) ++ [d.uuid] := by simp
  have hlr : (if d.kind = .router then s.lrList ++ [d.uuid] else s.lrList) =
      ((done ++ [d]).filter (·.kind = .router)).map (·.uuid) := by
    rw [h.lrList]
    by_cases hk : d.kind = .router <;> simp [hk]
  have hnb : ∀ e ∈ done ++ [d], update s.nb d.uuid (some d) e.uuid = some e := by
    intro e he
    rcases mem_append.1 he with he | he
    · simp_all [update_of_ne, h.nb e he]
    · simp_all
  have hnone : ∀ u, u ∉ (done ++ [d]).map (·.uuid) → update s.nb d.uuid (some d) u = none := by
    intro u hu
    rw [hmap, mem_append, not_or, mem_singleton] at hu
    rw [update_of_ne hu.2, h.nbNone u hu.1]
  have hsb : s₀.sbOnly.filter (· ∉ (done ++ [d]).map (·.uuid)) = s.sbOnly.filter (· ≠ d.uuid) := by
    rw [h.sbOnly, filter_filter]
    refine filter_congr fun u _ => ?_
    by_cases hu : u = d.uuid <;> simp [hu]
  unfold joinNb
  split
  next hin =>
    -- the datapath was made from a row
    have hin0 : d.uuid ∈ s₀.datapaths := ((h.datapaths d.uuid).1 hin).resolve_right hnew
    refine { h with
        datapaths := fun u => ?_
        nb := hnb
        nbNone := hnone
        both := ?_
        nbOnly := ?_
        sbOnly := hsb.symm
        lrList := hlr }
    · change u ∈ s.datapaths ↔ _
      rw [h.datapaths, hmap, mem_append, mem_singleton, ← or_assoc]
      refine (or_iff_left_of_imp ?_).symm
      rintro rfl
      exact .inl hin0
    · change s.both.filter (· ≠ d.uuid) ++ [d.uuid] = _
      rw [h.both, filter_ne_of_notMem fun hu => hnew (mem_of_mem_filter hu)]
      simp [hin0]
    · change s.nbOnly.filter (· ≠ d.uuid) = _
      rw [h.nbOnly, filter_ne_of_notMem fun hu => hnew (mem_of_mem_filter hu)]
      simp [hin0]
  next hout =>
    have hout0 : d.uuid ∉ s₀.datapaths := fun hin => hout ((h.datapaths d.uuid).2 (.inl hin))
    refine { h with
        datapaths := fun u => ?_
        nodup := nodup_cons.2 ⟨hout, h.nodup⟩
        nb := hnb
        nbNone := hnone
        sbRow := fun u => ?_
        tunnelKey := fun u => ?_
        both := ?_
        nbOnly := ?_
        sbOnly := ?_
        lrList := hlr }
    · change u ∈ d.uuid :: s.datapaths ↔ _
      rw [mem_cons, h.datapaths, hmap, mem_append, mem_singleton, or_comm, or_assoc]
    · change update s.sbRow d.uuid none u = _
      rw [update_apply, h.sbRow]
      split
      · rename_i hu
        rw [hu, hrow _ hout0]
      · rfl
    · change update s.tunnelKey d.uuid 0 u = 0
      rw [update_apply, h.tunnelKey, ite_self]
    · change s.both = _
      rw [h.both]
      simp [hout0]
    · change s.nbOnly ++ [d.uuid] = _
      rw [h.nbOnly]
      simp [hout0]
    · change s.sbOnly = _
      rw [hsb, filter_ne_of_notMem]
      intro hu
      rw [h.sbOnly] at hu
      exact hout0 (hsbOnly _ (mem_of_mem_filter hu))

theorem lrList_joinNb (d : NbDatapath) : (s.joinNb d).lrList = s.lrList := by
  unfold joinNb
  split <;> rfl

theorem rows_end (sb : Sb) : Rows sb.rows sb.rows (sb.rows.foldl joinRow (start sb)) := by
  refine foldl_split (fun done row rest hl s hs => ?_)
    ⟨fun u => ?_, nodup_nil, Perm.refl _, fun _ => rfl, fun _ => rfl, fun _ => rfl,
      ⟨rfl, rfl, rfl, rfl, rfl⟩, fun r => ?_, sb.nodup⟩
  · refine hs.step (hl ▸ mem_append_right _ mem_cons_self) sb.nodup fun hin => ?_
    have hnodup := (Nodup.of_map _ sb.nodup)
    rw [hl] at hnodup
    exact (nodup_append.1 hnodup).2.2 row hin row mem_cons_self rfl
  · exact iff_of_false not_mem_nil Bool.false_ne_true
  · exact ⟨fun hr => ⟨hr, nofun⟩, fun hr => hr.1⟩

theorem nodup_datapaths (nb : Nb) : (nb.datapaths.map (·.uuid)).Nodup := by
  unfold Nb.datapaths
  rw [map_append, map_map]
  exact nb.nodup.sublist ((Sublist.refl _).append (filter_sublist.map _))

theorem joined_end (nb : Nb) (sb : Sb) :
    Joined (sb.rows.foldl joinRow (start sb)) nb.datapaths (joinDatapaths nb sb (start sb)) := by
  have hrows := rows_end sb
  have hrow : ∀ u, u ∉ (sb.rows.foldl joinRow (start sb)).datapaths →
      (sb.rows.foldl joinRow (start sb)).sbRow u = none := by
    intro u hu
    rw [hrows.sbRow]
    exact Option.not_isSome_iff_eq_none.1 fun hs => hu ((hrows.datapaths u).2 hs)
  have hsbOnly : ∀ u ∈ (sb.rows.foldl joinRow (start sb)).sbOnly,
      u ∈ (sb.rows.foldl joinRow (start sb)).datapaths := fun u hu => hrows.sbOnly.mem_iff.1 hu
  have hnodup := nodup_datapaths nb
  unfold joinDatapaths
  generalize sb.rows.foldl joinRow (start sb) = s₀ at hrows hrow hsbOnly
  have hswitches : Joined s₀ nb.switches (nb.switches.foldl joinNb s₀) := by
    refine foldl_split (fun done d rest hl s hs => ?_)
      ⟨fun u => ?_, hrows.nodup, nofun, fun u _ => hrows.nb u,
        fun _ => rfl, hrows.tunnelKey, hrows.rest.2.1, hrows.rest.1, ?_, hrows.rest.2.2.1,
        hrows.rest.2.2.2.1, hrows.rest.2.2.2.2, rfl⟩
    · have hd : d.uuid ∉ done.map (·.uuid) := by
        simp_all [nodup_append, Nb.datapaths]
      have hkind : d.kind ≠ .router := by
        rw [nb.switch d (hl ▸ mem_append_right _ mem_cons_self)]
        decide
      have hstep := hs.step hrow hsbOnly hd
      rw [if_neg hkind, ← lrList_joinNb d] at hstep
      exact hstep
    · simp
    · simp
  have hrouters := foldl_split (l := nb.routers) (f := joinRouter)
    (R := fun done => Joined s₀ (nb.switches ++ (done.filter (·.2)).map (·.1)))
    (fun done d rest hl s hs => ?_) (s := nb.switches.foldl joinNb s₀) ?_
  · exact hrouters
  · rw [filter_append, map_append, ← append_assoc, filter_singleton]
    unfold joinRouter
    by_cases hen : d.2 = true
    · have hd : d.1.uuid ∉ (nb.switches ++ (done.filter (·.2)).map (·.1)).map (·.uuid) := by
        have hsplit : nb.datapaths = (nb.switches ++ (done.filter (·.2)).map (·.1)) ++
            ((d :: rest).filter (·.2)).map (·.1) := by
          unfold Nb.datapaths
          rw [hl, filter_append, map_append, append_assoc]
        rw [hsplit, map_append, nodup_append] at hnodup
        refine fun hin => hnodup.2.2 _ hin d.1.uuid ?_ rfl
        rw [filter_cons_of_pos hen]
        exact mem_cons_self
      have hkind : d.1.kind = .router := nb.router d (hl ▸ mem_append_right _ mem_cons_self)
      have hstep := hs.step hrow hsbOnly hd
      rw [if_pos hkind] at hstep
      rw [if_neg (by simp [hen]), if_neg, hen]
      · have hlr := lrList_joinNb (s := s) d.1
        dsimp only
        rw [hlr]
        exact hstep
      · simp [hs.nbNone _ hd]
    · simpa [hen] using hs
  · simp [*]

/-! ## Requested and existing keys -/

/-- The keys of the datapaths are those that are taken, and no two have the same. -/
structure Keyed (ods : List ℕ) (s : State) : Prop where
  taken : ∀ k, k ≠ 0 → (k ∈ s.tnlids ↔ ∃ u ∈ ods, s.tunnelKey u = k)
  distinct : ∀ u ∈ ods, ∀ v ∈ ods, s.tunnelKey u ≠ 0 → s.tunnelKey u = s.tunnelKey v → u = v

def assign (s : State) (od key : ℕ) : State :=
  { s with tnlids := insert key s.tnlids, tunnelKey := update s.tunnelKey od key }

theorem tunnelKey_assign (od key u : ℕ) :
    (s.assign od key).tunnelKey u = if u = od then key else s.tunnelKey u :=
  update_apply ..

theorem Keyed.assign {ods : List ℕ} {od key : ℕ} (h : Keyed ods s) (hod : od ∈ ods)
    (hzero : s.tunnelKey od = 0) (hkey : key ∉ s.tnlids) : Keyed ods (s.assign od key) := by
  refine ⟨fun k hk => ?_, fun u hu v hv hne heq => ?_⟩
  · change k ∈ insert key s.tnlids ↔ _
    rw [Finset.mem_insert, h.taken k hk]
    constructor
    · rintro (rfl | ⟨u, hu, huk⟩)
      · exact ⟨od, hod, by rw [tunnelKey_assign, if_pos rfl]⟩
      · refine ⟨u, hu, ?_⟩
        rw [tunnelKey_assign, if_neg, huk]
        rintro rfl
        exact hk (huk.symm.trans hzero)
    · rintro ⟨u, hu, huk⟩
      rw [tunnelKey_assign] at huk
      split at huk
      · exact .inl huk.symm
      · exact .inr ⟨u, hu, huk⟩
  · rw [tunnelKey_assign, tunnelKey_assign] at heq
    rw [tunnelKey_assign] at hne
    split at heq
    next huo =>
      rw [if_pos huo] at hne
      split at heq
      · omega
      · exact absurd ((h.taken key hne).2 ⟨v, hv, heq.symm⟩) hkey
    next huo =>
      rw [if_neg huo] at hne
      split at heq
      · exact absurd ((h.taken key (heq ▸ hne)).2 ⟨u, hu, heq⟩) hkey
      · exact h.distinct u hu v hv hne heq

def SameButKeys (s s' : State) : Prop :=
  s' = { s with tnlids := s'.tnlids, tunnelKey := s'.tunnelKey }

theorem SameButKeys.assign {s₀ : State} (h : SameButKeys s₀ s) (od key : ℕ) :
    SameButKeys s₀ (s.assign od key) := by
  rw [h]
  rfl

def Admitted (vxlan : Bool) (d : NbDatapath) : Prop :=
  d.interconnTs = true ∨ vxlan = false ∨ d.requested < 2 ^ 12

/-- The loop over the requests, with the datapaths that are left. -/
structure Requesting (vxlan : Bool) (ods : List ℕ) (s₀ : State) (left : List ℕ) (s : State) :
    Prop where
  same : SameButKeys s₀ s
  nodup : left.Nodup
  subset : ∀ u ∈ left, u ∈ ods
  zero : ∀ u ∈ left, s.tunnelKey u = 0
  keyed : Keyed ods s
  requested : ∀ u, s.tunnelKey u ≠ 0 →
    ∃ d, s.nb u = some d ∧ Admitted vxlan d ∧ d.requested = s.tunnelKey u
  given : ∀ u ∈ ods, u ∉ left → ∀ d, s.nb u = some d → d.requested ≠ 0 → Admitted vxlan d →
    d.requested ∈ s.tnlids

theorem Requesting.step {vxlan : Bool} {ods left : List ℕ} {s₀ : State} {od : ℕ}
    (h : Requesting vxlan ods s₀ (od :: left) s) :
    Requesting vxlan ods s₀ left (s.assignRequestedTnlId vxlan od) := by
  obtain ⟨hnot, hnodup⟩ := nodup_cons.1 h.nodup
  -- a request that is not looked at, or whose key is taken
  have hskip :
    (∀ d, s.nb od = some d → d.requested ≠ 0 → Admitted vxlan d → d.requested ∈ s.tnlids) →
      Requesting vxlan ods s₀ left s := by
    intro hod
    refine { h with
      nodup := hnodup
      subset := (forall_mem_cons.1 h.subset).2
      zero := (forall_mem_cons.1 h.zero).2
      given := fun u hu hn d hd => ?_ }
    by_cases huo : u = od
    · exact hod d (huo ▸ hd)
    · exact h.given u hu (fun hin => (mem_cons.1 hin).elim huo hn) d hd
  unfold assignRequestedTnlId
  split
  next hnb => simp_all
  next d hnb =>
    have hskip : (d.requested ≠ 0 → Admitted vxlan d → d.requested ∈ s.tnlids) →
        Requesting vxlan ods s₀ left s := by simp_all
    split
    · simp_all
    have hadmitted : Admitted vxlan d ↔ ¬ (!d.interconnTs && vxlan && d.requested ≥ 2 ^ 12) =
      true := by
      unfold Admitted
      cases d.interconnTs <;> cases vxlan <;> simp
    split
    next hvx => exact hskip fun _ hadm => absurd hvx (hadmitted.1 hadm)
    next hvx =>
      split
      · rename_i hin
        exact hskip fun _ _ => hin
      · rename_i hout
        have hzero := h.zero od mem_cons_self
        refine
          { same := h.same.assign od d.requested
            nodup := hnodup
            subset := (forall_mem_cons.1 h.subset).2
            zero := fun u hu => ?_
            keyed := h.keyed.assign (h.subset od mem_cons_self) hzero hout
            requested := fun u hu => ?_
            given := fun u hu hn d' hd' hne hadm => ?_ }
        · refine (tunnelKey_assign od d.requested u).trans ((if_neg ?_).trans
            (h.zero u (mem_cons_of_mem od hu)))
          rintro rfl
          exact hnot hu
        · have hkey : (s.assign od d.requested).tunnelKey u ≠ 0 := hu
          change ∃ e, s.nb u = some e ∧ Admitted vxlan e ∧
            e.requested = (s.assign od d.requested).tunnelKey u
          rw [tunnelKey_assign] at hkey ⊢
          split
          next huo => exact ⟨d, huo ▸ hnb, hadmitted.2 hvx, rfl⟩
          · rename_i huo
            rw [if_neg huo] at hkey
            exact h.requested u hkey
        · by_cases huo : u = od
          · simp_all
          · exact Finset.mem_insert_of_mem (h.given u hu (fun hin =>
              (mem_cons.1 hin).elim huo hn) d' hd' hne hadm)

/-- The loop that keeps existing keys, with the datapaths that are left. -/
structure Keeping (ods rows : List ℕ) (s₁ : State) (left : List ℕ) (s : State) : Prop where
  same : SameButKeys s₁ s
  subset : ∀ u ∈ left, u ∈ ods
  keyed : Keyed ods s
  kept : ∀ u, s₁.tunnelKey u ≠ 0 → s.tunnelKey u = s₁.tunnelKey u
  existing : ∀ u, s₁.tunnelKey u = 0 → s.tunnelKey u ≠ 0 →
    ∃ row, s.sbRow u = some row ∧ s.tunnelKey u = row.tunnelKey
  given : ∀ u ∈ rows, u ∉ left → ∀ row, s.sbRow u = some row → s.tunnelKey u ≠ 0 ∨
    row.tunnelKey ∈ s.tnlids

theorem Keeping.step {ods rows left : List ℕ} {s₁ : State} {od : ℕ}
    (h : Keeping ods rows s₁ (od :: left) s) : Keeping ods rows s₁ left (s.keepTnlId od) := by
  have hsub : ∀ u ∈ left, u ∈ ods := (forall_mem_cons.1 h.subset).2
  have hskip : (∀ row, s.sbRow od = some row → s.tunnelKey od ≠ 0 ∨ row.tunnelKey ∈ s.tnlids) →
      Keeping ods rows s₁ left s := by
    intro hod
    refine { h with subset := hsub, given := fun u hu hn row hrow => ?_ }
    by_cases huo : u = od
    · subst huo
      exact hod row hrow
    · exact h.given u hu (fun hin => (mem_cons.1 hin).elim huo hn) row hrow
  unfold keepTnlId
  split
  next hrow => simp_all
  next row hrow =>
    split
    · rename_i hfree
      refine
        { same := h.same.assign od row.tunnelKey
          subset := hsub
          keyed := h.keyed.assign (h.subset od mem_cons_self) hfree.1 hfree.2
          kept := fun u hu => ?_
          existing := fun u hu hne => ?_
          given := fun u hu hn row' hrow' => ?_ }
      · refine (tunnelKey_assign od row.tunnelKey u).trans ((if_neg ?_).trans (h.kept u hu))
        rintro rfl
        exact hu ((h.kept u hu).symm.trans hfree.1)
      · have hne : (s.assign od row.tunnelKey).tunnelKey u ≠ 0 := hne
        change ∃ row', s.sbRow u = some row' ∧ (s.assign od row.tunnelKey).tunnelKey
          u = row'.tunnelKey
        rw [tunnelKey_assign] at hne ⊢
        split
        · simp [*]
        · rename_i huo
          rw [if_neg huo] at hne
          exact h.existing u hu hne
      · by_cases huo : u = od
        · simp_all
        · refine (h.given u hu (fun hin => (mem_cons.1 hin).elim huo hn) row' hrow').imp
            (fun hne => ?_) Finset.mem_insert_of_mem
          exact fun he => hne
            (((tunnelKey_assign od row.tunnelKey u).trans (if_neg huo)).symm.trans he)
    · rename_i hfree
      refine hskip fun row' hr => ?_
      cases hrow.symm.trans hr
      rw [not_and_or, not_not] at hfree
      exact hfree

/-! ## New keys -/

def Gone (ods left : List ℕ) (s : State) (u : ℕ) : Prop := u ∈ ods ∧ u ∉ left ∧ s.tunnelKey u = 0

instance (ods left : List ℕ) (s : State) (u : ℕ) : Decidable (Gone ods left s u) :=
  inferInstanceAs (Decidable (_ ∧ _))

/-- The loop that allocates keys, with the datapaths that are left. -/
structure Allocating (max : ℕ) (ods : List ℕ) (s₂ : State) (left : List ℕ) (s : State) : Prop where
  fields : s.nb = s₂.nb ∧ s.sbRow = s₂.sbRow ∧ s.sbOnly = s₂.sbOnly ∧ s.lrList = s₂.lrList
  nodup : left.Nodup
  subset : ∀ u ∈ left, u ∈ ods
  keyed : Keyed ods s
  kept : ∀ u, s₂.tunnelKey u ≠ 0 → s.tunnelKey u = s₂.tunnelKey u
  fresh : ∀ u, s₂.tunnelKey u = 0 → s.tunnelKey u ≠ 0 → 1 ≤ s.tunnelKey u ∧ s.tunnelKey u ≤ max
  unseen : ∀ u ∈ left, s.tunnelKey u = s₂.tunnelKey u
  datapaths : s.datapaths = s₂.datapaths.filter (¬ Gone ods left s ·)
  both : s.both = s₂.both.filter (¬ Gone ods left s ·)
  nbOnly : s.nbOnly = s₂.nbOnly.filter (¬ Gone ods left s ·)
  sb : ∀ r, r ∈ s.sb ↔ r ∈ s₂.sb ∧ ∀ u row, Gone ods left s u → s.sbRow u = some row → r.id ≠ row.id
  ids : (s.sb.map (·.id)).Nodup
  full : ∀ u, Gone ods left s u → ∀ k, 1 ≤ k → k ≤ max → k ∈ s.tnlids
  hint : s.hint ≤ max

section
variable {max : ℕ} {ods left : List ℕ} {s₂ : State} {od : ℕ}

section
variable (h : Allocating max ods s₂ (od :: left) s)
include h

theorem Allocating.skip (hne : s.tunnelKey od ≠ 0) : Allocating max ods s₂ left s := by
  have hgone : ∀ u, Gone ods left s u ↔ Gone ods (od :: left) s u := by
    intro u
    unfold Gone
    rw [mem_cons, not_or]
    constructor
    · rintro ⟨hu, hl, hz⟩
      refine ⟨hu, ⟨?_, hl⟩, hz⟩
      rintro rfl
      exact hne hz
    · simp_all
  exact { h with
      nodup := (nodup_cons.1 h.nodup).2
      subset := (forall_mem_cons.1 h.subset).2
      unseen := (forall_mem_cons.1 h.unseen).2
      datapaths := by simpa only [hgone] using h.datapaths
      both := by simpa only [hgone] using h.both
      nbOnly := by simpa only [hgone] using h.nbOnly
      sb := by simpa only [hgone] using h.sb
      full := by simpa only [hgone] using h.full }

theorem Allocating.give (hzero : s.tunnelKey od = 0) {key : ℕ} (hkey : key ∉ s.tnlids)
    (h1 : 1 ≤ key) (h2 : key ≤ max) :
    Allocating max ods s₂ left { s.assign od key with hint := key } := by
  obtain ⟨hnot, hnodup⟩ := nodup_cons.1 h.nodup
  have hod := h.subset od mem_cons_self
  have hold : s₂.tunnelKey od = 0 := (h.unseen od mem_cons_self).symm.trans hzero
  have htk : ∀ u, ({ s.assign od key with hint := key } : State).tunnelKey u =
      if u = od then key else s.tunnelKey u := fun u => tunnelKey_assign od key u
  have hgone : ∀ u, Gone ods left { s.assign od key with hint := key } u ↔
    Gone ods (od :: left) s u := by
    intro u
    unfold Gone
    rw [htk, mem_cons, not_or]
    constructor
    · rintro ⟨hu, hl, hz⟩
      split at hz
      · omega
      next huo => exact ⟨hu, ⟨huo, hl⟩, hz⟩
    · simp_all
  have hfilter : ∀ l : List ℕ, l.filter (¬ Gone ods (od :: left) s ·) =
      l.filter (¬ Gone ods left { s.assign od key with hint := key } ·) := fun l =>
    filter_congr fun u _ => by simp only [hgone]
  have hkeyed := h.keyed.assign hod hzero hkey
  refine
    { fields := h.fields
      nodup := hnodup
      subset := (forall_mem_cons.1 h.subset).2
      keyed := ⟨hkeyed.taken, hkeyed.distinct⟩
      kept := fun u hu => ?_
      fresh := fun u hu hne => ?_
      unseen := fun u hu => ?_
      datapaths := h.datapaths.trans (hfilter _)
      both := h.both.trans (hfilter _)
      nbOnly := h.nbOnly.trans (hfilter _)
      sb := fun r => (h.sb r).trans (and_congr_right fun _ => forall₂_congr fun u row =>
        imp_congr_left (hgone u).symm)
      ids := h.ids
      full := fun u hu k hk1 hk2 => Finset.mem_insert_of_mem (h.full u ((hgone u).1 hu) k hk1 hk2)
      hint := h2 }
  · rw [htk, if_neg, h.kept u hu]
    rintro rfl
    exact hu hold
  · rw [htk] at hne ⊢
    split
    · exact ⟨h1, h2⟩
    next huo =>
      rw [if_neg huo] at hne
      exact h.fresh u hu hne
  · rw [htk, if_neg]
    · exact h.unseen u (mem_cons_of_mem od hu)
    · rintro rfl
      exact hnot hu

theorem Allocating.drop (hzero : s.tunnelKey od = 0) (hsbOnly : ∀ u ∈ ods, u ∉ s₂.sbOnly)
    (hfull : ∀ k, 1 ≤ k → k ≤ max → k ∈ s.tnlids) {hint : ℕ} (hhint : hint ≤ max) {sb : List SbRow}
    (hsb : ∀ r, r ∈ sb ↔ r ∈ s.sb ∧ ∀ row, s.sbRow od = some row → r.id ≠ row.id)
    (hids : (sb.map (·.id)).Nodup) : Allocating max ods s₂ left
      (({ s with hint := hint, sb := sb } : State).listRemove od |>.ovnDatapathDestroy od) := by
  obtain ⟨hnot, hnodup⟩ := nodup_cons.1 h.nodup
  have hod := h.subset od mem_cons_self
  set s' := (({ s with hint := hint, sb := sb } : State).listRemove od |>.ovnDatapathDestroy od)
    with hs'
  have hgone : ∀ u, Gone ods left s' u ↔ Gone ods (od :: left) s u ∨ u = od := by
    intro u
    unfold Gone
    rw [mem_cons, not_or]
    constructor
    · rintro ⟨hu, hl, hz⟩
      by_cases huo : u = od
      · exact .inr huo
      · exact .inl ⟨hu, ⟨huo, hl⟩, hz⟩
    · rintro (⟨hu, ⟨-, hl⟩, hz⟩ | rfl)
      · exact ⟨hu, hl, hz⟩
      · exact ⟨hod, hnot, hzero⟩
  have hfilter : ∀ l l₂ : List ℕ, l = l₂.filter (¬ Gone ods (od :: left) s ·) →
      l.filter (· ≠ od) = l₂.filter (¬ Gone ods left s' ·) := by
    intro l l₂ hl
    rw [hl, filter_filter]
    refine filter_congr fun u _ => ?_
    rw [Bool.eq_iff_iff]
    simp only [Bool.and_eq_true, decide_eq_true_eq, hgone, not_or]
    exact and_comm
  refine
    { fields := ⟨h.fields.1, h.fields.2.1, ?_, h.fields.2.2.2⟩
      nodup := hnodup
      subset := (forall_mem_cons.1 h.subset).2
      keyed := ⟨h.keyed.taken, h.keyed.distinct⟩
      kept := h.kept
      fresh := h.fresh
      unseen := (forall_mem_cons.1 h.unseen).2
      datapaths := hfilter _ _ h.datapaths
      both := hfilter _ _ h.both
      nbOnly := hfilter _ _ h.nbOnly
      sb := fun r => ?_
      ids := hids
      full := fun u _ => hfull
      hint := hhint }
  · change s.sbOnly.filter (· ≠ od) = _
    rw [h.fields.2.2.1, filter_ne_of_notMem (hsbOnly od hod)]
  · change r ∈ sb ↔ _
    rw [hsb, h.sb, and_assoc]
    refine and_congr_right fun _ => ?_
    constructor
    · rintro ⟨hall, hrow⟩ u row hu
      rcases (hgone u).1 hu with hu | rfl
      · exact hall u row hu
      · exact hrow row
    · intro hall
      exact ⟨fun u row hu => hall u row ((hgone u).2 (.inl hu)), fun row =>
        hall od row ((hgone od).2 (.inr rfl))⟩

end

theorem Allocating.step (hmax : 1 ≤ max) (hmax' : max + 1 < 2 ^ 32)
    (hsbOnly : ∀ u ∈ ods, u ∉ s₂.sbOnly)
    (h : Allocating max ods s₂ (od :: left) s) :
    Allocating max ods s₂ left (s.ovnDatapathAllocateKey max od) := by
  have hhint := h.hint
  unfold ovnDatapathAllocateKey minDpKeyLocal
  split
  next hzero =>
    obtain ⟨key, heq, hkey, h1, h2⟩ | ⟨hint, hle, heq, hfull⟩ :=
      Tnlid.ovnAllocateTnlid_spec hmax hmax' s.tnlids (by omega : s.hint + 1 < 2 ^ 32)
    · rw [heq]
      dsimp only
      rw [if_pos (by omega)]
      exact h.give hzero hkey h1 h2
    · have hself : update s.tunnelKey od 0 = s.tunnelKey := by rw [← hzero, Function.update_eq_self]
      rw [heq]
      dsimp only
      rw [if_neg (by simp), hself]
      cases hrow : s.sbRow od with
      | none =>
        refine h.drop hzero hsbOnly hfull hle (fun r => ?_) h.ids
        rw [hrow]
        exact (and_iff_left nofun).symm
      | some row =>
        refine h.drop hzero hsbOnly hfull hle (fun r => ?_) (nodup_dropRow h.ids)
        rw [dropRow, mem_filter, decide_eq_true_iff, hrow]
        refine and_congr_right fun _ => ⟨fun hne row' hr => ?_, fun hall => hall row rfl⟩
        cases hr
        exact hne
  next hne => exact h.skip hne

end

end State

end Ovn.Datapaths

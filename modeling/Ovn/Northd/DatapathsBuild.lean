/-
  Datapath synchronization: what holds after `build_datapaths`, and when it does.
-/
import Ovn.Northd.DatapathsSync

namespace Ovn.Datapaths

open List

namespace State

variable {s : State}

/-! ## The keys before new ones are allocated -/

def ods (s : State) : List ℕ := s.both ++ s.nbOnly

section
variable {s₀ : State} {done : List NbDatapath}

theorem Joined.mem_ods (h : Joined s₀ done s) {u : ℕ} : u ∈ s.ods ↔ u ∈ done.map (·.uuid) := by
  unfold ods
  rw [h.both, h.nbOnly, mem_append, mem_filter, mem_filter]
  simp only [decide_eq_true_eq]
  tauto

theorem Joined.nodup_ods (h : Joined s₀ done s) (hnodup : (done.map (·.uuid)).Nodup) :
    s.ods.Nodup := by
  unfold ods
  rw [h.both, h.nbOnly]
  refine nodup_append.2 ⟨hnodup.filter _, hnodup.filter _, fun a ha b hb hab => ?_⟩
  have ha := of_decide_eq_true (mem_filter.1 ha).2
  have hb := of_decide_eq_true (mem_filter.1 hb).2
  exact hb (hab ▸ ha)

theorem Joined.notMem_sbOnly (h : Joined s₀ done s) {u : ℕ} (hu : u ∈ s.ods) : u ∉ s.sbOnly := by
  rw [h.sbOnly, mem_filter]
  rintro ⟨-, hn⟩
  exact of_decide_eq_true hn (h.mem_ods.1 hu)

end

theorem SameButKeys.ods {s' : State} (h : SameButKeys s s') : s'.ods = s.ods ∧ s'.both = s.both ∧
    s'.nbOnly = s.nbOnly := by
  rw [h]
  exact ⟨rfl, rfl, rfl⟩

/-- What holds of the keys before new ones are allocated. -/
structure Assigned (nb : Nb) (sb : Sb) (vxlan : Bool) (s : State) : Prop where
  same : SameButKeys (joinDatapaths nb sb (start sb)) s
  keyed : Keyed s.ods s
  /-- A key is requested, or that of the row. -/
  origin : ∀ u, s.tunnelKey u ≠ 0 →
    (∃ d, s.nb u = some d ∧ Admitted vxlan d ∧ d.requested = s.tunnelKey u) ∨
    ∃ row, s.sbRow u = some row ∧ row.tunnelKey = s.tunnelKey u
  /-- A request that is looked at is granted to somebody. -/
  requested : ∀ u ∈ s.ods, ∀ d, s.nb u = some d → d.requested ≠ 0 → Admitted vxlan d →
    ∃ v ∈ s.ods, ∃ e, s.nb v = some e ∧ e.requested = d.requested ∧ s.tunnelKey v = d.requested
  /-- The key of the row is kept if there is no request and nobody else has it. -/
  existing : ∀ u ∈ s.both, ∀ d, s.nb u = some d → d.requested = 0 → ∀ row, s.sbRow u = some row →
    row.tunnelKey ≠ 0 → (∀ v ∈ s.ods, ∀ e, s.nb v = some e → e.requested ≠ row.tunnelKey) →
    (∀ v ∈ s.ods, ∀ row', s.sbRow v = some row' → row'.tunnelKey = row.tunnelKey → v = u) →
    s.tunnelKey u = row.tunnelKey

theorem assigned_assignKeys (nb : Nb) (sb : Sb) (vxlan : Bool) :
    Assigned nb sb vxlan (assignKeys nb sb vxlan) := by
  have hj := joined_end nb sb
  have hnodup := hj.nodup_ods (nodup_datapaths nb)
  unfold assignKeys
  dsimp only
  set sJ := joinDatapaths nb sb (start sb)
  have hstart : Requesting vxlan sJ.ods sJ sJ.ods sJ := by
    refine ⟨rfl, hnodup, fun _ hu => hu, fun u _ => hj.tunnelKey u,
      ⟨fun k hk => ?_, fun u _ v _ hne => ?_⟩,
      fun u hne => absurd (hj.tunnelKey u) hne, fun u hu hn => absurd hu hn⟩
    · rw [hj.tnlids]
      refine iff_of_false (Finset.notMem_empty k) ?_
      rintro ⟨u, -, hu⟩
      exact hk (hu.symm.trans (hj.tunnelKey u))
    · exact absurd (hj.tunnelKey u) hne
  have hboth := foldl_left (I := fun l s => Requesting vxlan sJ.ods sJ (l ++ sJ.nbOnly) s)
    (fun _ _ _ hs => Requesting.step hs) sJ.both sJ hstart
  rw [hboth.same.ods.2.2]
  have hall := foldl_left (I := fun l s => Requesting vxlan sJ.ods sJ l s)
    (fun _ _ _ hs => Requesting.step hs) sJ.nbOnly _ hboth
  rw [hall.same.ods.2.1]
  set s₁ := sJ.nbOnly.foldl (assignRequestedTnlId vxlan)
    (sJ.both.foldl (assignRequestedTnlId vxlan) sJ)
  have hkeep := foldl_left (I := fun l s => Keeping sJ.ods sJ.both s₁ l s)
    (fun _ _ _ hs => Keeping.step hs)
    sJ.both s₁ ⟨rfl, fun u hu => mem_append_left _ hu, hall.keyed, fun _ _ => rfl,
      fun u hu hne => absurd hu hne, fun u hu hn => absurd hu hn⟩
  set s₂ := sJ.both.foldl keepTnlId s₁
  have hsame : SameButKeys sJ s₂ := by
    have h1 := hall.same
    have h2 := hkeep.same
    unfold SameButKeys at h1 h2 ⊢
    rw [h2, h1]
  have hnb : s₂.nb = s₁.nb := by
    have h2 := hkeep.same
    rw [h2]
  have horigin : ∀ u, s₂.tunnelKey u ≠ 0 →
      (∃ d, s₂.nb u = some d ∧ Admitted vxlan d ∧ d.requested = s₂.tunnelKey u) ∨
      ∃ row, s₂.sbRow u = some row ∧ row.tunnelKey = s₂.tunnelKey u := by
    intro u hne
    by_cases h1 : s₁.tunnelKey u = 0
    · obtain ⟨row, hrow, heq⟩ := hkeep.existing u h1 hne
      exact .inr ⟨row, hrow, heq.symm⟩
    · rw [hnb, hkeep.kept u h1]
      exact .inl (hall.requested u h1)
  rw [← hsame.ods.1] at hkeep hall
  refine ⟨hsame, hkeep.keyed, horigin, fun u hu d hd hne hadm => ?_,
    fun u hu d hd hzero row hrow hne hreq hrows => ?_⟩
  · rw [hnb] at hd ⊢
    have htaken := hall.given u hu not_mem_nil d hd hne hadm
    obtain ⟨v, hv, hvk⟩ := (hall.keyed.taken d.requested hne).1 htaken
    obtain ⟨e, he, -, hek⟩ := hall.requested v (hvk ▸ hne)
    refine ⟨v, hv, e, he, hek.trans hvk, ?_⟩
    rw [hkeep.kept v (hvk ▸ hne), hvk]
  · -- whoever has the key of the row has it from its own row
    have hself : ∀ v ∈ s₂.ods, s₂.tunnelKey v = row.tunnelKey → v = u := by
      intro v hv hvk
      rcases horigin v (hvk ▸ hne) with ⟨e, he, -, hek⟩ | ⟨row', hrow', heq⟩
      · exact absurd (hek.trans hvk) (hreq v hv e he)
      · exact hrows v hv row' hrow' (heq.trans hvk)
    by_cases hkey : s₂.tunnelKey u = 0
    · have htaken := (hkeep.given u (hsame.ods.2.1 ▸ hu) not_mem_nil row hrow).resolve_left
        (not_not.2 hkey)
      obtain ⟨v, hv, hvk⟩ := (hkeep.keyed.taken _ hne).1 htaken
      exact hself v hv hvk ▸ hvk
    · have hzero1 : s₁.tunnelKey u = 0 := by
        by_contra h1
        obtain ⟨e, he, -, hek⟩ := hall.requested u h1
        rw [← hnb, hd] at he
        cases he
        exact h1 (hek.symm.trans hzero)
      obtain ⟨row', hrow', heq⟩ := hkeep.existing u hzero1 hkey
      rw [hrow] at hrow'
      cases hrow'
      exact heq

/-! ## The keys afterwards -/

theorem getOvnMaxDpKeyLocal_range (vxlan : Bool) :
    1 ≤ getOvnMaxDpKeyLocal vxlan ∧ getOvnMaxDpKeyLocal vxlan + 1 < 2 ^ 32 := by
  cases vxlan <;> decide

theorem allocating_allocateKeys {max : ℕ} (hmax : 1 ≤ max ∧ max + 1 < 2 ^ 32) (hhint : s.hint ≤ max)
    (hkeyed : Keyed s.ods s)
    (hnodup : s.ods.Nodup) (hsbOnly : ∀ u ∈ s.ods, u ∉ s.sbOnly) (hids : (s.sb.map (·.id)).Nodup) :
    Allocating max s.ods s [] (allocateKeys max s) := by
  have hno : ∀ u, ¬ Gone s.ods s.ods s u := fun u hu => hu.2.1 hu.1
  have hfilter : ∀ l : List ℕ, l = l.filter (¬ Gone s.ods s.ods s ·) := fun l =>
    (filter_eq_self.2 fun u _ => decide_eq_true (hno u)).symm
  have hstart : Allocating max s.ods s s.ods s := by
    refine ⟨⟨rfl, rfl, rfl, rfl⟩, hnodup, fun _ hu => hu, hkeyed, fun _ _ => rfl,
      fun u hu hne => absurd hu hne, fun _ _ => rfl, hfilter _, hfilter _, hfilter _,
        fun r => ?_, hids,
      fun u hu => absurd hu (hno u), hhint⟩
    exact (and_iff_left fun u row hu => absurd hu (hno u)).symm
  have hboth := foldl_left (I := fun l s' => Allocating max s.ods s (l ++ s.nbOnly) s')
    (fun _ _ _ hs => Allocating.step hmax.1 hmax.2 hsbOnly hs) s.both s hstart
  unfold allocateKeys
  dsimp only
  have hrest : (s.both.foldl (ovnDatapathAllocateKey max) s).nbOnly = s.nbOnly := by
    rw [hboth.nbOnly]
    refine filter_eq_self.2 fun u hu => decide_eq_true fun hgone => ?_
    exact hgone.2.1 hu
  rw [hrest]
  exact foldl_left (I := fun l s' => Allocating max s.ods s l s')
    (fun _ _ _ hs => Allocating.step hmax.1 hmax.2 hsbOnly hs) s.nbOnly _ hboth

/-! ## The southbound rows -/

def rowId (s : State) (u : ℕ) : RowId :=
  match s.sbRow u with
  | some row => row.id
  | none => .inserted u

def RowsApart (s : State) : Prop :=
  ∀ u v row row', s.sbRow u = some row → s.sbRow v = some row' → row.id = row'.id → u = v

def SameButSb (s s' : State) : Prop := s' = { s with sb := s'.sb }

/-- What is left of a row when the datapaths in the list are synchronized. -/
def synced (s : State) (done : List ℕ) (u : ℕ) (row : SbRow) : SbRow :=
  if u ∈ done then ⟨row.id, some u, s.tunnelKey u⟩ else row

theorem id_synced (done : List ℕ) (u : ℕ) (row : SbRow) : (s.synced done u row).id = row.id := by
  unfold synced
  split <;> rfl

section
variable {s₃ : State}

/-- The loop over the rows that were there, with the datapaths that are done. -/
structure Syncing (s₃ : State) (done : List ℕ) (s : State) : Prop where
  same : SameButSb s₃ s
  ids : s.sb.map (·.id) = s₃.sb.map (·.id)
  sb : ∀ r, r ∈ s.sb ↔ ∃ u ∈ s₃.datapaths, ∃ row, s₃.sbRow u = some row ∧ r = s₃.synced done u row

theorem Syncing.step (hapart : RowsApart s₃) {done : List ℕ} {od : ℕ} (h : Syncing s₃ done s) :
    Syncing s₃ (done ++ [od]) (s.syncRow od) := by
  have hrow : s.sbRow = s₃.sbRow := by
    rw [h.same]
  have hkey : s.tunnelKey = s₃.tunnelKey := by
    rw [h.same]
  have hother : ∀ u row, u ≠ od → s₃.synced (done ++ [od]) u row = s₃.synced done u row := by
    intro u row hu
    refine if_congr ?_ rfl rfl
    rw [mem_append, mem_singleton, or_iff_left hu]
  unfold syncRow
  rw [hrow]
  cases hod : s₃.sbRow od with
  | none =>
    refine ⟨h.same, h.ids, fun r => (h.sb r).trans ?_⟩
    refine exists_congr fun u => and_congr_right fun _ => exists_congr fun row =>
      and_congr_right fun hu => ?_
    rw [hother]
    rintro rfl
    rw [hod] at hu
    cases hu
  | some row₀ =>
    refine ⟨?_, (map_modifyRow (by intro r; rfl)).trans h.ids, fun r => ?_⟩
    · have hs := h.same
      unfold SameButSb at hs ⊢
      rw [hs]
    · dsimp only [modifyRow]
      rw [mem_map]
      have hself : s₃.synced (done ++ [od]) od row₀ = ⟨row₀.id, some od, s₃.tunnelKey od⟩ :=
        if_pos (mem_append_right _ mem_cons_self)
      have hrow : ∀ u row, s₃.sbRow u = some row → (if (s₃.synced done u row).id = row₀.id then
          (⟨(s₃.synced done u row).id, some od, s.tunnelKey od⟩ : SbRow)
            else s₃.synced done u row) =
          s₃.synced (done ++ [od]) u row := by
        intro u row hur
        split
        next hid =>
          have hid := (id_synced done u row).symm.trans hid
          obtain rfl := hapart u od row row₀ hur hod hid
          cases hur.symm.trans hod
          rw [hself, id_synced, hkey]
        next hid =>
          rw [hother]
          rintro rfl
          cases hur.symm.trans hod
          exact hid (id_synced done u row₀)
      constructor
      · rintro ⟨r₁, hr1, rfl⟩
        obtain ⟨u, hu, row, hur, rfl⟩ := (h.sb r₁).1 hr1
        exact ⟨u, hu, row, hur, hrow u row hur⟩
      · rintro ⟨u, hu, row, hur, rfl⟩
        exact ⟨s₃.synced done u row, (h.sb _).2 ⟨u, hu, row, hur, rfl⟩, hrow u row hur⟩

theorem foldl_insertRow (l : List ℕ) : ∀ s : State, l.foldl insertRow s =
    { s with sb := s.sb ++ l.map fun u => ⟨.inserted u, some u, s.tunnelKey u⟩ } := by
  induction l with
  | nil => simp
  | cons u l ih => simp [foldl_cons, ih, append_assoc, insertRow]

/-- The loop over the rows without a northbound one, with the datapaths that are done. -/
structure Deleting (s₅ : State) (done : List ℕ) (s : State) : Prop where
  fields : s.nb = s₅.nb ∧ s.sbRow = s₅.sbRow ∧ s.tunnelKey = s₅.tunnelKey ∧ s.lrList = s₅.lrList
  datapaths : s.datapaths = s₅.datapaths.filter (· ∉ done)
  ids : (s.sb.map (·.id)).Nodup
  sb : ∀ r, r ∈ s.sb ↔ r ∈ s₅.sb ∧ ∀ u ∈ done, ∀ row, s₅.sbRow u = some row → r.id ≠ row.id

theorem Deleting.step {s₅ : State} {done : List ℕ} {od : ℕ} (h : Deleting s₅ done s) :
    Deleting s₅ (done ++ [od]) (s.deleteSbOnly od) := by
  have hdp : s.datapaths.filter (· ≠ od) = s₅.datapaths.filter (· ∉ done ++ [od]) := by
    rw [h.datapaths, filter_filter]
    refine filter_congr fun u _ => ?_
    by_cases hu : u = od <;> simp [hu]
  have hall : ∀ r : SbRow, (∀ u ∈ done ++ [od], ∀ row, s₅.sbRow u = some row → r.id ≠ row.id) ↔
      (∀ u ∈ done, ∀ row, s₅.sbRow u = some row → r.id ≠ row.id) ∧
      ∀ row, s₅.sbRow od = some row → r.id ≠ row.id := by
    intro r
    rw [forall_mem_append, forall_mem_singleton]
  have hrow : (s.listRemove od).sbRow od = s₅.sbRow od := congrFun h.fields.2.1 od
  unfold deleteSbOnly
  dsimp only
  rw [hrow]
  cases hod : s₅.sbRow od with
  | none =>
    refine ⟨h.fields, hdp, h.ids, fun r => ?_⟩
    rw [hall, hod]
    exact (h.sb r).trans (and_congr_right fun _ => (and_iff_left nofun).symm)
  | some row =>
    refine ⟨h.fields, hdp, nodup_dropRow h.ids, fun r => ?_⟩
    change r ∈ dropRow (·.id) row.id s.sb ↔ _
    rw [dropRow, mem_filter, decide_eq_true_iff, hall, hod, h.sb, and_assoc]
    refine and_congr_right fun _ => and_congr_right fun _ => ⟨fun hne row' hr => ?_,
      fun hr => hr row rfl⟩
    cases hr
    exact hne

end

/-! ## `build_datapaths` -/

/-- The state in which keys are allocated has the datapaths and rows that were joined. -/
structure Loaded (nb : Nb) (sb : Sb) (s : State) : Prop where
  mem_ods : ∀ u, u ∈ s.ods ↔ u ∈ nb.datapaths.map (·.uuid)
  nodup_ods : s.ods.Nodup
  both : ∀ u, u ∈ s.both ↔ u ∈ s.ods ∧ (s.sbRow u).isSome
  nbOnly : ∀ u, u ∈ s.nbOnly ↔ u ∈ s.ods ∧ s.sbRow u = none
  datapaths : ∀ u, u ∈ s.datapaths ↔ u ∈ s.ods ∨ u ∈ s.sbOnly
  nodup : s.datapaths.Nodup
  apart : ∀ u ∈ s.ods, u ∉ s.sbOnly
  stale : ∀ u ∈ s.sbOnly, (s.sbRow u).isSome
  sbRow : ∀ u, s.sbRow u = rowFor sb.rows u
  sb : ∀ r, r ∈ s.sb ↔ ∃ u ∈ s.datapaths, s.sbRow u = some r
  ids : (s.sb.map (·.id)).Nodup
  lrList : s.lrList = (nb.datapaths.filter (·.kind = .router)).map (·.uuid)
  row : ∀ d ∈ nb.datapaths, s.nb d.uuid = some d

theorem loaded_joinDatapaths (nb : Nb) (sb : Sb) :
    Loaded nb sb (joinDatapaths nb sb (start sb)) := by
  have hr := rows_end sb
  have hj := joined_end nb sb
  have hrow : ∀ u, (joinDatapaths nb sb (start sb)).sbRow u = rowFor sb.rows u := fun u =>
    (hj.sbRow u).trans (hr.sbRow u)
  refine
    { mem_ods := fun u => hj.mem_ods
      nodup_ods := hj.nodup_ods (nodup_datapaths nb)
      both := fun u => ?_
      nbOnly := fun u => ?_
      datapaths := fun u => ?_
      nodup := hj.nodup
      apart := fun u hu => hj.notMem_sbOnly hu
      stale := fun u hu => ?_
      sbRow := hrow
      sb := fun r => ?_
      ids := hj.sb ▸ hr.ids
      lrList := hj.lrList
      row := hj.nb }
  · rw [hj.mem_ods, hrow, ← hr.datapaths, hj.both, mem_filter, decide_eq_true_iff]
  · rw [hj.mem_ods, hrow, ← Option.not_isSome_iff_eq_none, ← hr.datapaths, hj.nbOnly, mem_filter,
      decide_eq_true_iff]
  · rw [hj.datapaths, hj.mem_ods, hj.sbOnly, mem_filter, hr.sbOnly.mem_iff, decide_eq_true_iff]
    tauto
  · rw [hj.sbOnly, mem_filter] at hu
    rw [hrow, ← hr.datapaths]
    exact hr.sbOnly.mem_iff.1 hu.1
  · rw [hj.sb, hr.sb]
    constructor
    · rintro ⟨hin, hd⟩
      obtain ⟨u, -, hu⟩ := hd hin
      refine ⟨u, (hj.datapaths u).2 (.inl ((hr.datapaths u).2 (hu ▸ rfl))), (hrow u).trans hu⟩
    · rintro ⟨u, -, hu⟩
      rw [hrow] at hu
      obtain ⟨hin, hdp⟩ := rowFor_some hu
      exact ⟨hin, fun _ => ⟨u, hdp, hu⟩⟩

variable {nb : Nb} {sb : Sb}

theorem Loaded.same {s' : State} (h : Loaded nb sb s) (hs : SameButKeys s s') :
    Loaded nb sb s' := by
  rw [hs]
  exact { h with }

theorem Loaded.rowsApart (h : Loaded nb sb s) : RowsApart s := by
  intro u v row row' hu hv hid
  rw [h.sbRow] at hu hv
  obtain ⟨hu1, hu2⟩ := rowFor_some hu
  obtain ⟨hv1, hv2⟩ := rowFor_some hv
  have : row = row' := inj_on_of_nodup_map sb.nodup hu1 hv1 hid
  subst this
  exact Option.some_inj.1 (hu2.symm.trans hv2)

theorem Loaded.old (h : Loaded nb sb s) {u : ℕ} {row : SbRow} (hu : s.sbRow u = some row) :
    ∃ k, row.id = .old k := by
  rw [h.sbRow] at hu
  exact sb.old row (rowFor_some hu).1

section
variable {nb : Nb} {sb : Sb} {s₂ s₃ : State}

/-- New keys are allocated: datapaths without one are gone, with their rows. -/
structure Allocated (s₂ s₃ : State) : Prop where
  fields : s₃.nb = s₂.nb ∧ s₃.sbRow = s₂.sbRow ∧ s₃.sbOnly = s₂.sbOnly ∧ s₃.lrList = s₂.lrList
  datapaths : ∀ u, u ∈ s₃.datapaths ↔ u ∈ s₂.datapaths ∧ (u ∈ s₂.ods → s₃.tunnelKey u ≠ 0)
  nodup : s₃.datapaths.Nodup
  both : ∀ u, u ∈ s₃.both ↔ u ∈ s₂.both ∧ s₃.tunnelKey u ≠ 0
  nbOnly : ∀ u, u ∈ s₃.nbOnly ↔ u ∈ s₂.nbOnly ∧ s₃.tunnelKey u ≠ 0
  nodup_nbOnly : s₃.nbOnly.Nodup
  sb : ∀ r, r ∈ s₃.sb ↔ ∃ u ∈ s₃.datapaths, s₃.sbRow u = some r
  ids : (s₃.sb.map (·.id)).Nodup

theorem Allocating.allocated {max : ℕ} (hl : Loaded nb sb s₂) (h : Allocating max s₂.ods s₂ [] s₃) :
    Allocated s₂ s₃ := by
  have hgone : ∀ u, Gone s₂.ods [] s₃ u ↔ u ∈ s₂.ods ∧ s₃.tunnelKey u = 0 := fun u =>
    and_congr_right fun _ => and_iff_right not_mem_nil
  have hkept : ∀ u ∈ s₂.ods, ¬ Gone s₂.ods [] s₃ u ↔ s₃.tunnelKey u ≠ 0 := by
    intro u hu
    rw [hgone, and_iff_right hu]
  have hdp : ∀ u, u ∈ s₃.datapaths ↔ u ∈ s₂.datapaths ∧ (u ∈ s₂.ods → s₃.tunnelKey u ≠ 0) := by
    intro u
    rw [h.datapaths, mem_filter, decide_eq_true_iff, hgone, not_and]
  have hsub : s₂.nbOnly.Nodup := (nodup_append.1 hl.nodup_ods).2.1
  refine ⟨h.fields, hdp, h.datapaths ▸ hl.nodup.filter _, fun u => ?_, fun u => ?_,
    h.nbOnly ▸ hsub.filter _,
    fun r => ?_, h.ids⟩
  · rw [h.both, mem_filter, decide_eq_true_iff]
    exact and_congr_right fun hu => hkept u ((hl.both u).1 hu).1
  · rw [h.nbOnly, mem_filter, decide_eq_true_iff]
    exact and_congr_right fun hu => hkept u ((hl.nbOnly u).1 hu).1
  · rw [h.sb, hl.sb, h.fields.2.1]
    constructor
    · rintro ⟨⟨u, hu, hur⟩, hall⟩
      refine ⟨u, (hdp u).2 ⟨hu, fun hods hzero => ?_⟩, hur⟩
      exact hall u r ((hgone u).2 ⟨hods, hzero⟩) hur rfl
    · rintro ⟨u, hu, hur⟩
      obtain ⟨hu2, hne⟩ := (hdp u).1 hu
      refine ⟨⟨u, hu2, hur⟩, fun v row hv hvr hid => ?_⟩
      obtain rfl := hl.rowsApart u v r row hur hvr hid
      exact hne hv.1 ((hgone u).1 hv).2

structure Built (s₂ s₃ s : State) : Prop where
  nb : s.nb = s₂.nb
  lrList : s.lrList = s₂.lrList
  tunnelKey : s.tunnelKey = s₃.tunnelKey
  datapaths : ∀ u, u ∈ s.datapaths ↔ u ∈ s₂.ods ∧ s.tunnelKey u ≠ 0
  nodup : s.datapaths.Nodup
  sb : ∀ r, r ∈ s.sb ↔ ∃ u ∈ s.datapaths, r = ⟨s₂.rowId u, some u, s.tunnelKey u⟩
  ids : (s.sb.map (·.id)).Nodup

theorem Syncing.done (ha : Allocated s₂ s₃) (hl : Loaded nb sb s₂) :
    Syncing s₃ s₃.both (s₃.both.foldl syncRow s₃) := by
  have hapart : RowsApart s₃ := by
    intro u v row row'
    rw [ha.fields.2.1]
    exact hl.rowsApart u v row row'
  refine foldl_split (fun done od rest _ s hs => hs.step hapart)
    ⟨rfl, rfl, fun r => (ha.sb r).trans ?_⟩
  refine exists_congr fun u => and_congr_right fun _ => ⟨fun hu => ⟨r, hu, rfl⟩, ?_⟩
  rintro ⟨row, hu, rfl⟩
  exact hu

section
variable (ha : Allocated s₂ s₃) (hl : Loaded nb sb s₂)
include ha hl

theorem Syncing.mem_inserted (hs : Syncing s₃ s₃.both s) (r : SbRow) :
    r ∈ s.sb ++ s₃.nbOnly.map (fun u => ⟨.inserted u, some u, s₃.tunnelKey u⟩) ↔
      (∃ u ∈ s₂.sbOnly, s₂.sbRow u = some r) ∨
      ∃ u ∈ s₂.ods, s₃.tunnelKey u ≠ 0 ∧ r = ⟨s₂.rowId u, some u, s₃.tunnelKey u⟩ := by
  have hrowId : ∀ {u row}, s₂.sbRow u = some row → s₂.rowId u = row.id := by
    intro u row hu
    unfold rowId
    rw [hu]
  have hnone : ∀ {u}, s₂.sbRow u = none → s₂.rowId u = .inserted u := by
    intro u hu
    unfold rowId
    rw [hu]
  have hsynced : ∀ {u row}, u ∈ s₃.both → s₂.sbRow u = some row →
      s₃.synced s₃.both u row = ⟨s₂.rowId u, some u, s₃.tunnelKey u⟩ := by
    intro u row hu hur
    rw [hrowId hur]
    exact if_pos hu
  rw [mem_append, hs.sb, mem_map, ha.fields.2.1]
  constructor
  · rintro (⟨u, hu, row, hur, rfl⟩ | ⟨u, hu, rfl⟩)
    · obtain ⟨hu2, hne⟩ := (ha.datapaths u).1 hu
      rcases (hl.datapaths u).1 hu2 with hods | hstale
      · have hboth : u ∈ s₃.both := (ha.both u).2 ⟨(hl.both u).2 ⟨hods, hur ▸ rfl⟩, hne hods⟩
        exact .inr ⟨u, hods, hne hods, hsynced hboth hur⟩
      have hboth : u ∉ s₃.both := by
        intro hb
        exact hl.apart u ((hl.both u).1 ((ha.both u).1 hb).1).1 hstale
      refine .inl ⟨u, hstale, ?_⟩
      rw [synced, if_neg hboth]
      exact hur
    · obtain ⟨hu2, hne⟩ := (ha.nbOnly u).1 hu
      obtain ⟨hods, hun⟩ := (hl.nbOnly u).1 hu2
      exact .inr ⟨u, hods, hne, by rw [hnone hun]⟩
  · rintro (⟨u, hstale, hur⟩ | ⟨u, hods, hne, rfl⟩)
    · have hods : u ∉ s₂.ods := fun hods => hl.apart u hods hstale
      refine .inl ⟨u, (ha.datapaths u).2 ⟨(hl.datapaths u).2 (.inr hstale), fun h => absurd h hods⟩,
        r, hur, ?_⟩
      rw [synced, if_neg]
      exact fun hb => hods ((hl.both u).1 ((ha.both u).1 hb).1).1
    · cases hur : s₂.sbRow u with
      | none =>
        refine .inr ⟨u, (ha.nbOnly u).2 ⟨(hl.nbOnly u).2 ⟨hods, hur⟩, hne⟩, ?_⟩
        rw [hnone hur]
      | some row =>
        have hboth : u ∈ s₃.both := (ha.both u).2 ⟨(hl.both u).2 ⟨hods, hur ▸ rfl⟩, hne⟩
        exact .inl ⟨u, (ha.datapaths u).2 ⟨(hl.datapaths u).2 (.inl hods), fun _ => hne⟩, row, hur,
          (hsynced hboth hur).symm⟩

theorem Syncing.ids_inserted (hs : Syncing s₃ s₃.both s) :
    ((s.sb ++ s₃.nbOnly.map (fun u => (⟨.inserted u, some u, s₃.tunnelKey u⟩ : SbRow))).map
      (·.id)).Nodup := by
  rw [map_append, hs.ids, map_map]
  refine nodup_append.2 ⟨ha.ids, ha.nodup_nbOnly.map fun u v huv => RowId.inserted.inj huv,
    fun a ha' b hb hab => ?_⟩
  obtain ⟨r, hr, rfl⟩ := mem_map.1 ha'
  obtain ⟨v, -, rfl⟩ := mem_map.1 hb
  obtain ⟨u, -, hur⟩ := (ha.sb r).1 hr
  rw [ha.fields.2.1] at hur
  obtain ⟨k, hk⟩ := hl.old hur
  cases hk.symm.trans hab

theorem Allocated.built : Built s₂ s₃ (let s := s₃.both.foldl syncRow s₃
      let s := s.nbOnly.foldl insertRow s
      s.sbOnly.foldl deleteSbOnly s) := by
  have hs := Syncing.done ha hl
  dsimp only
  generalize s₃.both.foldl syncRow s₃ = s₄ at hs
  have hsame : s₄.nb = s₃.nb ∧ s₄.sbRow = s₃.sbRow ∧ s₄.tunnelKey = s₃.tunnelKey ∧
    s₄.datapaths = s₃.datapaths ∧
      s₄.sbOnly = s₃.sbOnly ∧ s₄.nbOnly = s₃.nbOnly ∧ s₄.lrList = s₃.lrList := by
    have h := hs.same
    rw [h]
    exact ⟨rfl, rfl, rfl, rfl, rfl, rfl, rfl⟩
  obtain ⟨hnb, hsbRow, hkey, hdatapaths, hsbOnly, hnbOnly, hlr⟩ := hsame
  obtain ⟨hnb3, hsbRow3, hsbOnly3, hlr3⟩ := ha.fields
  have hids := hs.ids_inserted ha hl
  have hmem := hs.mem_inserted ha hl
  rw [← hnbOnly, ← hkey] at hids
  rw [← hnbOnly, ← hkey, ← hsbOnly3, ← hsbOnly] at hmem
  rw [foldl_insertRow]
  have hd := foldl_split (R := Deleting { s₄ with sb := s₄.sb ++ s₄.nbOnly.map fun u =>
      (⟨.inserted u, some u, s₄.tunnelKey u⟩ : SbRow) }) (l := s₄.sbOnly)
        (fun _ _ _ _ _ h => h.step)
    ⟨⟨rfl, rfl, rfl, rfl⟩, (filter_eq_self.2 fun _ _ => rfl).symm, hids,
      fun r => (and_iff_left nofun).symm⟩
  obtain ⟨hnb6, -, hkey6, hlr6⟩ := hd.fields
  have hdp := hd.datapaths
  have hsb := hd.sb
  have hids6 := hd.ids
  generalize List.foldl deleteSbOnly _ s₄.sbOnly = s₆ at hnb6 hkey6 hlr6 hdp hsb hids6 ⊢
  have hkept : ∀ u, u ∈ s₆.datapaths ↔ u ∈ s₂.ods ∧ s₆.tunnelKey u ≠ 0 := by
    intro u
    rw [hdp, hdatapaths, mem_filter, decide_eq_true_iff, ha.datapaths, hl.datapaths, hkey6, hkey,
      hsbOnly, hsbOnly3]
    have := hl.apart u
    tauto
  refine ⟨hnb6.trans (hnb.trans hnb3), hlr6.trans (hlr.trans hlr3), hkey6.trans hkey, hkept, ?_,
    fun r => ?_,
    hids6⟩
  · rw [hdp, hdatapaths]
    exact ha.nodup.filter _
  · rw [hsb, hmem, hsbRow, hsbRow3]
    constructor
    · rintro ⟨⟨u, hstale, hur⟩ | ⟨u, hods, hne, rfl⟩, hall⟩
      · exact absurd rfl (hall u hstale r hur)
      · simp_all
    · rintro ⟨u, hu, rfl⟩
      obtain ⟨hods, hne⟩ := (hkept u).1 hu
      rw [hkey6] at hne ⊢
      refine ⟨.inr ⟨u, hods, hne, rfl⟩, fun v hv row hvr hid => ?_⟩
      unfold rowId at hid
      cases hur : s₂.sbRow u with
      | none =>
        rw [hur] at hid
        obtain ⟨k, hk⟩ := hl.old hvr
        cases hid.trans hk
      | some row' =>
        rw [hur] at hid
        obtain rfl := hl.rowsApart u v row' row hur hvr hid
        exact hl.apart u hods (hsbOnly3 ▸ hsbOnly ▸ hv)

end

end

theorem buildDatapaths_spec (nb : Nb) (sb : Sb) (chassis : List (List Encap)) :
    ∃ s₂ s₃, Assigned nb sb (isVxlanMode chassis) s₂ ∧ Loaded nb sb s₂ ∧
      Allocating (getOvnMaxDpKeyLocal (isVxlanMode chassis)) s₂.ods s₂ [] s₃ ∧
      Built s₂ s₃ (buildDatapaths nb sb chassis) := by
  have hassigned := assigned_assignKeys nb sb (isVxlanMode chassis)
  have hl := (loaded_joinDatapaths nb sb).same hassigned.same
  have hhint : (assignKeys nb sb (isVxlanMode chassis)).hint = 0 := by
    rw [hassigned.same]
    exact (joined_end nb sb).hint
  have halloc := allocating_allocateKeys (getOvnMaxDpKeyLocal_range (isVxlanMode chassis))
    (hhint ▸ Nat.zero_le _) hassigned.keyed hl.nodup_ods hl.apart hl.ids
  exact ⟨_, _, hassigned, hl, halloc, (halloc.allocated hl).built hl⟩

end State

/-! ## Synchronization -/

/-- The datapaths are synchronized: what holds after `build_datapaths`. -/
structure Synchronized (nb : Nb) (sb : Sb) (chassis : List (List Encap)) (s : State) : Prop where
  /-- The datapaths are those of the switches and enabled routers that have a key. -/
  datapaths : s.datapaths.Nodup ∧
    ∀ u, u ∈ s.datapaths ↔ (∃ d ∈ nb.datapaths, d.uuid = u) ∧ s.tunnelKey u ≠ 0
  /-- There is exactly one row for each, with its key. -/
  rows :
    (s.sb.map fun r => (r.dp, r.tunnelKey)).Perm (s.datapaths.map fun u => (some u, s.tunnelKey u))
  distinct : ∀ u ∈ s.datapaths, ∀ v ∈ s.datapaths, s.tunnelKey u = s.tunnelKey v → u = v
  /-- A key above the maximum is one that is requested, or that the row had already. -/
  bounded : ∀ d ∈ nb.datapaths, d.uuid ∈ s.datapaths →
    s.tunnelKey d.uuid ≤ getOvnMaxDpKeyLocal (isVxlanMode chassis) ∨
      State.Admitted (isVxlanMode chassis) d ∧ d.requested = s.tunnelKey d.uuid ∨
      ∃ row, State.rowFor sb.rows d.uuid = some row ∧ row.tunnelKey = s.tunnelKey d.uuid
  /-- A request that VXLAN admits is met, for one of those that make it. -/
  requested : ∀ d ∈ nb.datapaths, d.requested ≠ 0 → State.Admitted (isVxlanMode chassis) d →
    ∃ e ∈ nb.datapaths, e.uuid ∈ s.datapaths ∧ e.requested = d.requested ∧
      s.tunnelKey e.uuid = d.requested
  /-- The key in the row is kept where none is requested, unless there is a conflict. -/
  existing : ∀ d ∈ nb.datapaths, d.requested = 0 → ∀ row, State.rowFor sb.rows d.uuid = some row →
    row.tunnelKey ≠ 0 → (∀ e ∈ nb.datapaths, e.requested ≠ row.tunnelKey) →
    (∀ e ∈ nb.datapaths, ∀ row', State.rowFor sb.rows e.uuid = some row' →
      row'.tunnelKey = row.tunnelKey → e.uuid = d.uuid) →
    d.uuid ∈ s.datapaths ∧ s.tunnelKey d.uuid = row.tunnelKey
  /-- A datapath is dropped only if no key is left. -/
  dropped : ∀ d ∈ nb.datapaths, d.uuid ∉ s.datapaths → ∀ k, 1 ≤ k →
    k ≤ getOvnMaxDpKeyLocal (isVxlanMode chassis) → ∃ u ∈ s.datapaths, s.tunnelKey u = k
  switches : ∀ u, u ∈ s.lsDatapaths ↔ u ∈ s.datapaths ∧ ∃ d ∈ nb.datapaths, d.uuid = u ∧
    d.kind = .switch
  routers : ∀ u, u ∈ s.lrDatapaths ↔ u ∈ s.datapaths ∧ ∃ d ∈ nb.datapaths, d.uuid = u ∧
    d.kind = .router
  /-- `lr_list` is made before keys are given out, and a router that is dropped stays in it. -/
  lrList : s.lrList.Nodup ∧ (∀ u ∈ s.lrDatapaths, u ∈ s.lrList) ∧
    ((∀ d ∈ nb.datapaths, d.kind = .router → d.uuid ∈ s.datapaths) → ∀ u ∈ s.lrList,
      u ∈ s.lrDatapaths)

section
variable {nb : Nb} {sb : Sb}

open State

variable {vxlan : Bool} {d : NbDatapath} {s₂ : State}

theorem State.Built.rows {s₃ s : State} (h : Built s₂ s₃ s) :
    (s.sb.map fun r => (r.dp, r.tunnelKey)).Perm
      (s.datapaths.map fun u => (some u, s.tunnelKey u)) := by
  have hperm : s.sb.Perm (s.datapaths.map fun u => ⟨s₂.rowId u, some u, s.tunnelKey u⟩) := by
    refine (perm_ext_iff_of_nodup h.ids.of_map ?_).2 fun r => ?_
    · exact h.nodup.map fun u v huv => Option.some_inj.1 (SbRow.mk.inj huv).2.1
    · rw [h.sb, mem_map]
      exact exists_congr fun u => and_congr_right fun _ => eq_comm
  have := hperm.map fun r : SbRow => (r.dp, r.tunnelKey)
  rwa [map_map] at this

theorem State.Loaded.mem_datapaths (hl : Loaded nb sb s₂) (u : ℕ) :
    u ∈ s₂.ods ↔ ∃ d ∈ nb.datapaths, d.uuid = u := by
  rw [hl.mem_ods, mem_map]

theorem State.Loaded.kind (hl : Loaded nb sb s₂) {u : ℕ} (hu : u ∈ s₂.ods) (k : Kind) :
    (∃ d, s₂.nb u = some d ∧ d.kind = k) ↔ ∃ d ∈ nb.datapaths, d.uuid = u ∧ d.kind = k := by
  obtain ⟨d, hd, rfl⟩ := (hl.mem_datapaths u).1 hu
  constructor
  · rintro ⟨e, he, hk⟩
    rw [hl.row d hd] at he
    cases he
    exact ⟨d, hd, rfl, hk⟩
  · rintro ⟨e, he, heq, hk⟩
    exact ⟨e, heq ▸ hl.row e he, hk⟩

theorem any_router_iff (o : Option NbDatapath) :
    o.any (·.kind = .router) = true ↔ ∃ d, o = some d ∧ d.kind = .router := by
  cases o <;> simp

theorem not_any_router_iff {o : Option NbDatapath} (h : o.isSome) :
    (!o.any (·.kind = .router)) = true ↔ ∃ d, o = some d ∧ d.kind = .switch := by
  obtain ⟨d, rfl⟩ := Option.isSome_iff_exists.1 h
  rcases d with ⟨_ | _, _, _, _⟩ <;> simp

section
variable (h : Assigned nb sb vxlan s₂) (hl : Loaded nb sb s₂) (hd : d ∈ nb.datapaths)
include h hl hd

theorem State.Assigned.exists_requested (hne : d.requested ≠ 0) (hadm : Admitted vxlan d) :
    ∃ e ∈ nb.datapaths, e.requested = d.requested ∧ s₂.tunnelKey e.uuid = d.requested := by
  obtain ⟨v, hv, e, he, heq, hkey⟩ := h.requested d.uuid ((hl.mem_datapaths _).2 ⟨d, hd, rfl⟩) d
    (hl.row d hd) hne hadm
  obtain ⟨e', he', rfl⟩ := (hl.mem_datapaths v).1 hv
  cases (hl.row e' he').symm.trans he
  exact ⟨e, he', heq, hkey⟩

theorem State.Assigned.tunnelKey_existing (hzero : d.requested = 0) {row : SbRow}
    (hrow : rowFor sb.rows d.uuid = some row) (hne : row.tunnelKey ≠ 0)
    (hreq : ∀ e ∈ nb.datapaths, e.requested ≠ row.tunnelKey)
    (hrows : ∀ e ∈ nb.datapaths, ∀ row', rowFor sb.rows e.uuid = some row' →
      row'.tunnelKey = row.tunnelKey → e.uuid = d.uuid) :
    s₂.tunnelKey d.uuid = row.tunnelKey := by
  have hrow2 := (hl.sbRow d.uuid).trans hrow
  have hmem : d.uuid ∈ s₂.both := (hl.both _).2 ⟨(hl.mem_datapaths _).2 ⟨d, hd, rfl⟩, hrow2 ▸ rfl⟩
  refine h.existing d.uuid hmem d (hl.row d hd) hzero row hrow2 hne (fun v hv e he => ?_)
    fun v hv row' hrow' heq => ?_
  · obtain ⟨e', he', rfl⟩ := (hl.mem_datapaths v).1 hv
    cases (hl.row e' he').symm.trans he
    exact hreq e he'
  · obtain ⟨e', he', rfl⟩ := (hl.mem_datapaths v).1 hv
    exact hrows e' he' row' ((hl.sbRow _).symm.trans hrow') heq

end

variable (nb sb) (chassis : List (List Encap))

theorem mem_lrList (u : ℕ) :
    u ∈ (buildDatapaths nb sb chassis).lrList ↔ ∃ d ∈ nb.datapaths, d.uuid = u ∧
      d.kind = .router := by
  obtain ⟨s₂, s₃, -, hl, -, hb⟩ := buildDatapaths_spec nb sb chassis
  rw [hb.lrList, hl.lrList, mem_map]
  refine exists_congr fun d => ?_
  rw [mem_filter, decide_eq_true_iff, and_assoc, and_comm (a := d.kind = _)]

/-- **Synchronization**: whatever the databases hold. -/
theorem buildDatapaths_synchronized :
    Synchronized nb sb chassis (buildDatapaths nb sb chassis) := by
  have hlrList := mem_lrList nb sb chassis
  obtain ⟨s₂, s₃, hassigned, hl, halloc, hb⟩ := buildDatapaths_spec nb sb chassis
  generalize buildDatapaths nb sb chassis = s at hb hlrList
  have hods := hl.mem_datapaths
  have hkept : ∀ u, s₂.tunnelKey u ≠ 0 → s.tunnelKey u = s₂.tunnelKey u := fun u hu =>
    (congrFun hb.tunnelKey u).trans (halloc.kept u hu)
  have hin : ∀ {d}, d ∈ nb.datapaths → s₂.tunnelKey d.uuid ≠ 0 → d.uuid ∈ s.datapaths := by
    intro d hd hne
    exact (hb.datapaths _).2 ⟨(hods _).2 ⟨d, hd, rfl⟩, hkept _ hne ▸ hne⟩
  have hrouters : ∀ u, u ∈ s.lrDatapaths ↔ u ∈ s.datapaths ∧ ∃ d ∈ nb.datapaths, d.uuid = u ∧
      d.kind = .router := by
    intro u
    unfold lrDatapaths
    rw [mem_filter, any_router_iff, hb.nb]
    exact and_congr_right fun hu => hl.kind ((hb.datapaths u).1 hu).1 .router
  refine
    { datapaths := ⟨hb.nodup, fun u => (hb.datapaths u).trans (and_congr_left fun _ => hods u)⟩
      rows := hb.rows
      distinct := fun u hu v hv heq => ?_
      bounded := fun d hd hmem => ?_
      requested := fun d hd hne hadm => ?_
      existing := fun d hd hzero row hrow hne hreq hrows => ?_
      dropped := fun d hd hnot k h₁ h₂ => ?_
      switches := fun u => ?_
      routers := hrouters
      lrList := ⟨?_, fun u hu => (hlrList u).2 ((hrouters u).1 hu).2, fun hall u hu => ?_⟩ }
  · rw [hb.tunnelKey] at heq
    obtain ⟨hu, hne⟩ := (hb.datapaths u).1 hu
    exact halloc.keyed.distinct u hu v ((hb.datapaths v).1 hv).1 (hb.tunnelKey ▸ hne) heq
  · by_cases hzero : s₂.tunnelKey d.uuid = 0
    · have hne := ((hb.datapaths _).1 hmem).2
      rw [hb.tunnelKey] at hne ⊢
      exact .inl (halloc.fresh _ hzero hne).2
    · rw [hkept _ hzero]
      refine .inr ((hassigned.origin _ hzero).imp ?_ ?_)
      · rintro ⟨e, he, hadm, heq⟩
        cases (hl.row d hd).symm.trans he
        exact ⟨hadm, heq⟩
      · rintro ⟨row, hrow, heq⟩
        exact ⟨row, (hl.sbRow _).symm.trans hrow, heq⟩
  · obtain ⟨e, he, heq, hkey⟩ := hassigned.exists_requested hl hd hne hadm
    have hkey₀ : s₂.tunnelKey e.uuid ≠ 0 := hkey ▸ hne
    exact ⟨e, he, hin he hkey₀, heq, (hkept _ hkey₀).trans hkey⟩
  · have hkey := hassigned.tunnelKey_existing hl hd hzero hrow hne hreq hrows
    have hkey₀ : s₂.tunnelKey d.uuid ≠ 0 := hkey ▸ hne
    exact ⟨hin hd hkey₀, (hkept _ hkey₀).trans hkey⟩
  · have hd := (hods _).2 ⟨d, hd, rfl⟩
    have hzero : s₃.tunnelKey d.uuid = 0 := by
      by_contra hne
      exact hnot ((hb.datapaths _).2 ⟨hd, hb.tunnelKey ▸ hne⟩)
    have hk : k ≠ 0 := by omega
    obtain ⟨u, hu, hkey⟩ := (halloc.keyed.taken k hk).1
      (halloc.full d.uuid ⟨hd, not_mem_nil, hzero⟩ k h₁ h₂)
    rw [hb.tunnelKey]
    exact ⟨u, (hb.datapaths u).2 ⟨hu, hb.tunnelKey ▸ hkey ▸ hk⟩, hkey⟩
  · unfold lsDatapaths
    rw [mem_filter, hb.nb]
    refine and_congr_right fun hu => ?_
    have hu := ((hb.datapaths u).1 hu).1
    obtain ⟨d, hd, rfl⟩ := (hods u).1 hu
    rw [not_any_router_iff (hl.row d hd ▸ rfl)]
    exact hl.kind hu .switch
  · rw [hb.lrList, hl.lrList]
    exact (nodup_datapaths nb).sublist (filter_sublist.map _)
  · obtain ⟨d, hd, rfl, hkind⟩ := (hlrList u).1 hu
    exact (hrouters _).2 ⟨hall d hd hkind, d, hd, rfl, hkind⟩

/-- Without requests and rows, a key is one of the range. -/
theorem tunnelKey_le_of_fresh (hreq : ∀ d ∈ nb.datapaths, d.requested = 0) (hsb : sb.rows = [])
    {d : NbDatapath}
    (hd : d ∈ nb.datapaths) :
    (buildDatapaths nb sb chassis).tunnelKey d.uuid ≤ getOvnMaxDpKeyLocal
      (isVxlanMode chassis) := by
  obtain ⟨s₂, s₃, hassigned, hl, halloc, hb⟩ := buildDatapaths_spec nb sb chassis
  have hzero : s₂.tunnelKey d.uuid = 0 := by
    by_contra hne
    obtain ⟨e, he, -, heq⟩ | ⟨row, hrow, -⟩ := hassigned.origin _ hne
    · cases (hl.row d hd).symm.trans he
      exact hne (heq.symm.trans (hreq d hd))
    · rw [hl.sbRow, hsb] at hrow
      cases hrow
  rw [hb.tunnelKey]
  by_cases hne : s₃.tunnelKey d.uuid = 0
  · exact hne ▸ Nat.zero_le _
  · exact (halloc.fresh _ hzero hne).2

/-- If there are more datapaths than keys, one is dropped. -/
theorem exists_dropped (hreq : ∀ d ∈ nb.datapaths, d.requested = 0) (hsb : sb.rows = [])
    (hmany : getOvnMaxDpKeyLocal (isVxlanMode chassis) < nb.datapaths.length) :
    ∃ d ∈ nb.datapaths, d.uuid ∉ (buildDatapaths nb sb chassis).datapaths := by
  obtain ⟨s₂, s₃, -, hl, halloc, hb⟩ := buildDatapaths_spec nb sb chassis
  by_contra! hall
  have hle := fun d => tunnelKey_le_of_fresh nb sb chassis hreq hsb (d := d)
  have hsub : (nb.datapaths.map fun d => (buildDatapaths nb sb chassis).tunnelKey d.uuid) ⊆
      range' 1 (getOvnMaxDpKeyLocal (isVxlanMode chassis)) := by
    intro k hk
    obtain ⟨d, hd, rfl⟩ := mem_map.1 hk
    have hne := ((hb.datapaths _).1 (hall d hd)).2
    have := hle d hd
    rw [mem_range'_1]
    omega
  have hnodup :
    (nb.datapaths.map fun d => (buildDatapaths nb sb chassis).tunnelKey d.uuid).Nodup := by
    refine (nodup_datapaths nb).of_map.map_on fun d hd e he heq => ?_
    have hu := (hb.datapaths _).1 (hall d hd)
    rw [hb.tunnelKey] at heq hu
    have huuid := halloc.keyed.distinct _ hu.1 _ ((hb.datapaths _).1 (hall e he)).1 hu.2 heq
    exact inj_on_of_nodup_map (nodup_datapaths nb) hd he huuid
  have hlen := (hnodup.subperm hsub).length_le
  rw [length_map, length_range'] at hlen
  omega

end

/-- A northbound database with nothing but routers. -/
def manyRouters (n : ℕ) : Nb where
  switches := []
  routers := (range n).map fun u => (⟨.router, u, 0, false⟩, true)
  switch := nofun
  router d hd := by
    obtain ⟨u, -, rfl⟩ := mem_map.1 hd
    rfl
  nodup := by
    rw [map_nil, nil_append, map_map]
    exact nodup_range.map fun u v huv => huv

theorem manyRouters_datapaths (n : ℕ) :
    (manyRouters n).datapaths = (range n).map fun u => ⟨.router, u, 0, false⟩ := by
  have hall : (manyRouters n).routers.filter (·.2) = (manyRouters n).routers := by
    refine filter_eq_self.2 fun r hr => ?_
    obtain ⟨u, -, rfl⟩ := mem_map.1 hr
    rfl
  rw [Nb.datapaths, hall]
  exact map_map

/-- With one router more than there are keys, one that is dropped stays in `lr_list`. -/
theorem manyRouters_lrList (chassis : List (List Encap)) {n : ℕ}
    (hmany : getOvnMaxDpKeyLocal (isVxlanMode chassis) < n) :
    ∃ u ∈ (State.buildDatapaths (manyRouters n) ⟨[], nofun, nodup_nil⟩ chassis).lrList,
      u ∉ (State.buildDatapaths (manyRouters n) ⟨[], nofun, nodup_nil⟩ chassis).datapaths := by
  have hrouter : ∀ d ∈ (manyRouters n).datapaths, d.requested = 0 ∧ d.kind = .router := by
    intro d hd
    rw [manyRouters_datapaths] at hd
    obtain ⟨u, -, rfl⟩ := mem_map.1 hd
    exact ⟨rfl, rfl⟩
  obtain ⟨d, hd, hnot⟩ := exists_dropped (manyRouters n) ⟨[], nofun, nodup_nil⟩ chassis
    (fun d hd => (hrouter d hd).1) rfl (by rwa [manyRouters_datapaths, length_map, length_range])
  exact ⟨d.uuid, (mem_lrList _ _ _ _).2 ⟨d, hd, rfl, (hrouter d hd).2⟩, hnot⟩

/-- A switch that is no interconnection switch is given a key above the maximum that it requests;
    and a router that is dropped for lack of keys stays in `lr_list`. -/
theorem not_synchronized :
    (∃ nb sb chassis, ∃ d ∈ nb.datapaths, d.interconnTs = false ∧
      getOvnMaxDpKeyLocal (isVxlanMode chassis) < (State.buildDatapaths nb sb chassis).tunnelKey
        d.uuid) ∧
    ∃ nb sb chassis, ∃ u ∈ (State.buildDatapaths nb sb chassis).lrList,
      u ∉ (State.buildDatapaths nb sb chassis).datapaths :=
  ⟨⟨⟨[⟨.switch, 1, 16711681, false⟩], [], by decide, by decide, by decide⟩, ⟨[], nofun, nodup_nil⟩,
    [[.geneve]], _, mem_cons_self, rfl, by decide⟩,
    manyRouters 4096, ⟨[], nofun, nodup_nil⟩, [[.vxlan]], manyRouters_lrList [[.vxlan]] (by decide)⟩

end Ovn.Datapaths

/-
  Conntrack zones are exclusive.

  Every state of a run in which nobody gives up a zone that another user keeps has a zone for
  every user, shared only by users that have requested it, and a bitmap of the zones in use.
-/
import Ovn.Controller.CtZonesUpdate
import Mathlib.Data.List.Induction

namespace Ovn.CtZone

open Function (update update_of_ne update_self)
open List

/-! ## Requests -/

def Datapath.Requests (d : Datapath) (u : String) (y : ℕ) : Prop :=
  ∃ name, d.name = some name ∧ u = allocNatZoneKey name "snat" ∧ d.snatCtZone = (y : ℤ)

section
variable {rt : Runtime}

theorem lookup_request (m : Simap) (d : Datapath) (u : String) (y : ℕ) : (match d.name with
      | none => m
      | some name =>
        if d.snatCtZone ≥ 0 then m.insert (allocNatZoneKey name "snat") d.snatCtZone.toNat
        else m).lookup u = some y ↔
      d.Requests u y ∨ (∀ z, ¬ d.Requests u z) ∧ m.lookup u = some y := by
  unfold Datapath.Requests
  cases d.name with
  | none => simp
  | some name =>
    dsimp only
    by_cases hpos : d.snatCtZone ≥ 0
    · have hz : ∀ z : ℕ, d.snatCtZone = z ↔ d.snatCtZone.toNat = z := fun z => by omega
      rw [if_pos hpos, lookup_insert_iff]
      by_cases hu : u = allocNatZoneKey name "snat" <;> simp [hz]
    · have hneg : ∀ z : ℕ, d.snatCtZone ≠ z := fun z hz => hpos (hz ▸ Int.natCast_nonneg z)
      simp [if_neg hpos, hneg]

/-- The requests, of which a later one replaces an earlier one of the same user. -/
theorem lookup_reqSnatZones : (∀ u y, rt.reqSnatZones.lookup u = some y →
      ∃ d ∈ rt.localDatapaths, d.Requests u y) ∧
    ∀ d ∈ rt.localDatapaths, ∀ u y, d.Requests u y → (rt.reqSnatZones.lookup u).isSome := by
  unfold Runtime.reqSnatZones
  induction rt.localDatapaths using List.reverseRecOn with
  | nil => simp
  | append_singleton l d ih =>
    simp only [foldl_append, Option.isSome_iff_exists, mem_append, mem_singleton] at ih ⊢
    refine ⟨fun u y hu => ?_, fun e he u y hr => ?_⟩
    · rcases (lookup_request _ d u y).1 hu with hr | ⟨-, hu⟩
      · exact ⟨d, .inr rfl, hr⟩
      · simp_all
    · by_cases hd : ∃ z, d.Requests u z
      · exact hd.imp fun z hz => (lookup_request _ d u z).2 (.inl hz)
      · have he : e ∈ l := he.resolve_right fun h => hd ⟨y, h ▸ hr⟩
        exact (ih.2 e he u y hr).imp fun z hz => (lookup_request _ d u z).2
          (.inr ⟨not_exists.1 hd, hz⟩)

theorem mem_allUsers_of_requests {d : Datapath} {u : String} {y : ℕ} (hd : d ∈ rt.localDatapaths)
    (h : d.Requests u y) : u ∈ rt.allUsers := by
  obtain ⟨name, hn, rfl, -⟩ := h
  refine mem_dedup.2 (mem_append_right _ (mem_flatMap.2 ⟨d, hd, ?_⟩))
  unfold Datapath.natKeys
  rw [hn]
  exact mem_cons_of_mem _ mem_cons_self

end

/-! ## Restoring -/

def Zones.records (s : Zones) (bridge : Option Simap) : List SimapNode :=
  (s.pending.entries.filterMap fun e => if e.2.add then some ⟨e.1, e.2.zone⟩ else none) ++
  (bridge.elim [] fun ids => ids.entries.filter fun r => r.1 ∉ s.pending)

def restoredName (dpTable : DpTable) (name : String) : String :=
  (ctZoneNameFromUuid dpTable name).getD name

theorem mem_records {s : Zones} {bridge : Option Simap} {u : String} {x : ℕ} :
    (⟨u, x⟩ : SimapNode) ∈ s.records bridge ↔ s.recorded bridge u = some x := by
  have hadds :
    (∃ e ∈ s.pending.entries, (if e.2.add then some (⟨e.1, e.2.zone⟩ : SimapNode) else none) =
      some ⟨u, x⟩) ↔ ∃ e, s.pending.lookup u = some e ∧ e.add = true ∧ e.zone = x := by
    constructor
    · rintro ⟨e, he, heq⟩
      split at heq
      next hadd =>
        cases heq
        exact ⟨e.2, mem_entries_iff.1 he, hadd, rfl⟩
      · cases heq
    · rintro ⟨e, he, hadd, rfl⟩
      exact ⟨⟨u, e⟩, mem_entries_iff.2 he, if_pos hadd⟩
  have hids : (⟨u, x⟩ : SimapNode) ∈ (bridge.elim [] fun ids => ids.entries.filter fun r =>
      r.1 ∉ s.pending) ↔ s.pending.lookup u = none ∧ bridge.bind (AList.lookup u) = some x := by
    cases bridge <;> simp [mem_entries_iff, and_comm, AList.lookup_eq_none]
  unfold Zones.records Zones.recorded
  rw [mem_append, mem_filterMap, hadds, hids]
  cases s.pending.lookup u <;> simp

def Zones.Restores (s : Zones) (bridge : Option Simap) (dpTable : DpTable) (u : String) (x : ℕ) :
    Prop :=
  ∃ n, s.recorded bridge n = some x ∧ restoredName dpTable n = u

/-- What is restored makes sense: one zone for a user, of the range of the bitmap, under a name
    that is not replaced again. -/
structure Restorable (bridge : Option Simap) (dpTable : DpTable) (s : Zones) : Prop where
  agree : ∀ u x y, s.Restores bridge dpTable u x → s.Restores bridge dpTable u y → x = y
  ranged : ∀ u x, s.Restores bridge dpTable u x → 1 ≤ x ∧ x ≤ maxCtZones
  stable : ∀ u x, s.Restores bridge dpTable u x → ctZoneNameFromUuid dpTable u = none
  named : ∀ u ∈ s.current, ctZoneNameFromUuid dpTable u = none

section
variable {bridge : Option Simap} {dpTable : DpTable} {t s : Zones} {todo : List SimapNode}

/-- The loops that restore the zones of `t`, with the entries that are to come. -/
structure Restoring (bridge : Option Simap) (dpTable : DpTable) (t : Zones)
    (todo : List SimapNode) (s : Zones) : Prop where
  kept : ∀ u x, s.current.lookup u = some x → t.Restores bridge dpTable u x
  used : ∀ x, s.bitmap x = true → x = 0 ∨ ∃ u, s.current.lookup u = some x
  zero : s.bitmap 0 = true
  set : ∀ u x, s.current.lookup u = some x → s.bitmap x = true ∨ (⟨u, x⟩ : SimapNode) ∈ todo
  recorded : s.Recorded bridge
  same : ∀ n x, ctZoneNameFromUuid dpTable n = none → t.recorded bridge n = some x →
    s.recorded bridge n = some x
  grown : ∀ n ∈ t.pending, n ∈ s.pending
  fresh : ∀ n ∈ s.pending, n ∉ t.pending → ctZoneNameFromUuid dpTable n = none →
    ∃ x, s.current.lookup n = some x ∧ s.bitmap x = true

theorem restoredName_of_none {n : String} (h : ctZoneNameFromUuid dpTable n = none) :
    restoredName dpTable n = n := by
  unfold restoredName
  rw [h]
  rfl

theorem Restoring.put (ht : Restorable bridge dpTable t) {n u : String} {x : ℕ}
    (h : Restoring bridge dpTable t (⟨n, x⟩ :: todo) s) (hu : t.Restores bridge dpTable u x)
    {pending : AList fun _ : String => PendingEntry}
    (hn : ctZoneNameFromUuid dpTable n = none → n = u)
    (hrec : Zones.recorded ⟨s.bitmap, pending, s.current⟩ bridge u = some x)
    (hsame : ∀ m, ctZoneNameFromUuid dpTable m = none → m ≠ u →
      Zones.recorded ⟨s.bitmap, pending, s.current⟩ bridge m = s.recorded bridge m)
    (hpend : ∀ m, ctZoneNameFromUuid dpTable m = none → m ≠ u → (m ∈ pending ↔ m ∈ s.pending))
    (hgrown : ∀ m ∈ s.pending, m ∈ pending) : Restoring bridge dpTable t todo
      ⟨update s.bitmap x true, pending, s.current.insert u x⟩ := by
  -- a name that has a zone is not replaced
  have hstable : ∀ v y, s.current.lookup v = some y → ctZoneNameFromUuid dpTable v = none :=
    fun v y hv => ht.stable v y (h.kept v y hv)
  constructor
  · intro v y hv
    rcases lookup_insert_iff.1 hv with ⟨rfl, rfl⟩ | ⟨-, hv⟩
    · exact hu
    · exact h.kept v y hv
  · intro y hy
    rcases update_true_iff.1 hy with rfl | hy
    · exact .inr ⟨u, AList.lookup_insert _⟩
    · refine (h.used y hy).imp_right fun ⟨v, hv⟩ => ⟨v, lookup_insert_iff.2 ?_⟩
      by_cases hvu : v = u
      · exact .inl ⟨hvu, ht.agree u x y hu (hvu ▸ h.kept v y hv)⟩
      · exact .inr ⟨hvu, hv⟩
  · exact update_true_iff.2 (.inr h.zero)
  · intro v y hv
    rcases lookup_insert_iff.1 hv with ⟨-, rfl⟩ | ⟨hvu, hv⟩
    · exact .inl (update_self ..)
    · refine (h.set v y hv).imp (fun hbit => update_true_iff.2 (.inr hbit)) fun hin => ?_
      rcases mem_cons.1 hin with heq | hin
      · cases heq
        exact absurd (hn (hstable n x hv)) hvu
      · exact hin
  · intro v y hv
    rcases lookup_insert_iff.1 hv with ⟨rfl, rfl⟩ | ⟨hvu, hv⟩
    · exact hrec
    · exact (hsame v (hstable v y hv) hvu).trans (h.recorded v y hv)
  · intro m y hm hy
    by_cases hmu : m = u
    · subst hmu
      have : y = x := ht.agree m y x ⟨m, hy, restoredName_of_none hm⟩ hu
      exact this ▸ hrec
    · exact (hsame m hm hmu).trans (h.same m y hm hy)
  · exact fun m hm => hgrown m (h.grown m hm)
  · intro m hm hout hnone
    by_cases hmu : m = u
    · exact ⟨x, hmu ▸ AList.lookup_insert _, update_self ..⟩
    · obtain ⟨y, hy, hbit⟩ := h.fresh m ((hpend m hnone hmu).1 hm) hout hnone
      exact ⟨y, lookup_insert_iff.2 (.inr ⟨hmu, hy⟩), update_true_iff.2 (.inr hbit)⟩

theorem Restoring.visit (ht : Restorable bridge dpTable t) {n : String} {x : ℕ}
    (h : Restoring bridge dpTable t (⟨n, x⟩ :: todo) s) (hn : t.recorded bridge n = some x) :
    Restoring bridge dpTable t todo (ctZoneRestore dpTable s n x) := by
  have hrestores : t.Restores bridge dpTable (restoredName dpTable n) x := ⟨n, hn, rfl⟩
  unfold ctZoneRestore
  split
  next u hname =>
    have hu : restoredName dpTable n = u := by simp [hname, restoredName]
    rw [hu] at hrestores
    have hrec :
      ∀ m, Zones.recorded ((s.addPendingCtZoneEntry .dbQueued x false n).addPendingCtZoneEntry
        .dbQueued x true u) bridge m = if m = u then some x else if m = n then none
          else s.recorded bridge m := by simp [recorded_addPending]
    have hmn : ∀ m, ctZoneNameFromUuid dpTable m = none → m ≠ n := by
      rintro m hm rfl
      cases hname.symm.trans hm
    have hmem : ∀ m, m ∈ (s.pending.insert n ⟨.dbQueued, x, false⟩).insert u ⟨.dbQueued, x, true⟩ ↔
        m = u ∨ m = n ∨ m ∈ s.pending := fun m => by rw [AList.mem_insert, AList.mem_insert]
    refine h.put ht hrestores (fun hnone => absurd rfl (hmn n hnone)) ((hrec u).trans (if_pos rfl))
      (fun m hm hmu => (hrec m).trans ((if_neg hmu).trans (if_neg (hmn m hm)))) (fun m hm hmu => ?_)
      fun m hm => (hmem m).2 (.inr (.inr hm))
    exact (hmem m).trans ((or_iff_right hmu).trans (or_iff_right (hmn m hm)))
  next hname =>
    rw [restoredName_of_none hname] at hrestores
    exact h.put ht hrestores (fun _ => rfl) (h.same n x hname hn) (fun _ _ _ => rfl)
      (fun _ _ _ => .rfl) fun _ hm => hm

theorem Restoring.skip (ht : Restorable bridge dpTable t) {n : String} {x : ℕ}
    (h : Restoring bridge dpTable t (⟨n, x⟩ :: todo) s) (hin : n ∈ s.pending)
    (hout : n ∉ t.pending) :
    Restoring bridge dpTable t todo s := by
  refine { h with set := fun u y hu => ?_ }
  rcases h.set u y hu with hbit | hmem
  · exact .inl hbit
  rcases mem_cons.1 hmem with heq | hmem
  · cases heq
    obtain ⟨x', hx', hbit⟩ := h.fresh n hin hout (ht.stable n x (h.kept n x hu))
    have hx : x' = x := Option.some_inj.1 (hx'.symm.trans hu)
    exact .inl (hx ▸ hbit)
  · exact .inr hmem

/-- **`restore_ct_zones`**: every zone is a restored one and has its bit set. -/
theorem restoreCtZones_spec (o : Orders) (ht : Restorable bridge dpTable t)
    (hrec : t.Recorded bridge) :
    (restoreCtZones o dpTable bridge t).Marked ∧ (restoreCtZones o dpTable bridge t).Ranged ∧
    (restoreCtZones o dpTable bridge t).Recorded bridge ∧
    ∀ u x, (restoreCtZones o dpTable bridge t).current.lookup u = some x →
      t.Restores bridge dpTable u x := by
  let adds := fun l : List ((_ : String) × PendingEntry) =>
    l.filterMap fun e => if e.2.add then some (⟨e.1, e.2.zone⟩ : SimapNode) else none
  let ids : List SimapNode := bridge.elim [] fun ids => o.externalIds.order ids.entries
  let news := fun l : List SimapNode => l.filter fun r => r.1 ∉ t.pending
  suffices hend : Restoring bridge dpTable t [] (restoreCtZones o dpTable bridge t) by
    refine ⟨fun x => ⟨hend.used x, ?_⟩, fun u x hu => ht.ranged u x (hend.kept u x hu),
      hend.recorded,
      hend.kept⟩
    rintro (rfl | ⟨u, hu⟩)
    · exact hend.zero
    · exact (hend.set u x hu).resolve_right not_mem_nil
  have hkept : ∀ u x, t.current.lookup u = some x → t.Restores bridge dpTable u x := fun u x hu =>
    ⟨u, hrec u x hu, restoredName_of_none (ht.named u (AList.lookup_isSome.1 (hu ▸ rfl)))⟩
  have hstart : Restoring bridge dpTable t (adds (o.pending.order t.pending.entries) ++ news ids)
      { t with bitmap := update (fun _ => false) 0 true } := by
    refine ⟨hkept, fun x hx => .inl ?_, by rfl, fun u x hu => .inr ?_, hrec,
      fun _ _ _ h => h, fun _ h => h, fun n hn hout => absurd hn hout⟩
    · by_contra h0
      have hx : update (fun _ => false) 0 true x = true := hx
      rw [update_of_ne h0] at hx
      cases hx
    · have hmem := mem_records.2 (hrec u x hu)
      rcases mem_append.1 hmem with hin | hin
      · exact mem_append_left _ (((o.pending.perm _).filterMap _).mem_iff.2 hin)
      · refine mem_append_right _ ?_
        cases bridge with
        | none => exact hin
        | some ids => exact ((o.externalIds.perm _).filter _).mem_iff.2 hin
  have hpending :=
    foldl_left (I := fun left s => Restoring bridge dpTable t (adds left ++ news ids) s ∧
      ∀ e ∈ left, e ∈ t.pending.entries)
    (f := fun s ctpe => if ctpe.2.add then ctZoneRestore dpTable s ctpe.1 ctpe.2.zone else s)
    (fun e left s hs => ?_) _ _ ⟨hstart, fun e he => (o.pending.perm _).mem_iff.1 he⟩
  · cases hb : bridge with
    | none =>
      subst hb
      exact hpending.1
    | some m =>
      subst hb
      have hids := foldl_left (I := fun left s => Restoring (some m) dpTable t (news left) s ∧
          ∀ r ∈ left, r ∈ m.entries)
        (f := fun s node => if node.1 ∈ s.pending then s else ctZoneRestore dpTable s node.1 node.2)
        (fun r left s hs => ?_) (o.externalIds.order m.entries) _
        ⟨hpending.1, fun r hr => (o.externalIds.perm _).mem_iff.1 hr⟩
      · exact hids.1
      · refine ⟨?_, (forall_mem_cons.1 hs.2).2⟩
        have hr := mem_entries_iff.1 (hs.2 r mem_cons_self)
        by_cases hout : r.1 ∈ t.pending
        · rw [if_pos (hs.1.grown _ hout)]
          have hnews : news (r :: left) = news left := filter_cons_of_neg (by simpa using hout)
          exact hnews ▸ hs.1
        · have hnews : news (r :: left) = r :: news left := filter_cons_of_pos (by simpa using hout)
          have hs' := hnews ▸ hs.1
          split
          next hin => exact hs'.skip ht hin hout
          · refine hs'.visit ht ?_
            unfold Zones.recorded
            rw [AList.lookup_eq_none.2 hout]
            exact hr
  · refine ⟨?_, (forall_mem_cons.1 hs.2).2⟩
    have he := mem_entries_iff.1 (hs.2 e mem_cons_self)
    split
    next hadd =>
      have hadds : adds (e :: left) = ⟨e.1, e.2.zone⟩ :: adds left :=
        filterMap_cons_some (if_pos hadd)
      have hs' := hadds ▸ hs.1
      refine Restoring.visit ht hs' ?_
      unfold Zones.recorded
      rw [he]
      exact if_pos hadd
    next hadd =>
      have hadds : adds (e :: left) = adds left := filterMap_cons_none (if_neg hadd)
      exact hadds ▸ hs.1

end

/-! ## The handler -/

def trackedPorts (q : TrackedType → Bool) (l : List TrackedLport) : List String :=
  (l.filter fun t => t.hasZone && q t.trackedType).map (·.logicalPort)

abbrev addedPorts : List TrackedLport → List String := trackedPorts (· ≠ .removed)

abbrev removedPorts : List TrackedLport → List String := trackedPorts (· = .removed)

theorem trackedPorts_cons (q : TrackedType → Bool) (l : TrackedLport) (left : List TrackedLport) :
    trackedPorts q (l :: left) = if l.hasZone = true ∧ q l.trackedType = true then
      l.logicalPort :: trackedPorts q left else trackedPorts q left := by
  unfold trackedPorts
  rw [filter_cons]
  by_cases h : l.hasZone = true ∧ q l.trackedType = true
  · rw [if_pos h, if_pos (by simp [h]), map_cons]
  · rw [if_neg h, if_neg (by simpa using h)]

theorem mem_trackedPorts_cons {q : TrackedType → Bool} {l : TrackedLport} {left : List TrackedLport}
    {u : String} : u ∈ trackedPorts q (l :: left) ↔
      (l.hasZone = true ∧ q l.trackedType = true ∧ u = l.logicalPort) ∨
      u ∈ trackedPorts q left := by
  rw [trackedPorts_cons]
  split
  next h =>
    simp [h]
  next h => simp_all

/-- The handler goes through the ports, up to a new datapath. -/
theorem handleDatapaths_split : ∀ (tdps : List TrackedDatapath) (p : Zones × ℕ),
    ∃ done rest, tdps.flatMap (·.lports) = done ++ rest ∧
      (handleDatapaths tdps p).2 = (done.foldl handleLport p).1 ∧
      ((handleDatapaths tdps p).1 = true → rest = [])
  | [], p => ⟨[], [], rfl, rfl, fun _ => rfl⟩
  | tdp :: tdps, p => by
    unfold handleDatapaths
    split
    · exact ⟨[], _, rfl, rfl, nofun⟩
    · obtain ⟨done, rest, heq, hres, hrest⟩ := handleDatapaths_split tdps
        (tdp.lports.foldl handleLport p)
      refine ⟨tdp.lports ++ done, rest, ?_, ?_, hrest⟩
      · rw [flatMap_cons, heq, append_assoc]
      · rw [hres, foldl_append]

section
variable {bridge : Option Simap} {s : Zones} {l : TrackedLport} {left : List TrackedLport}
  {p : Zones × ℕ}

/-- What a port does to the zones: nothing, or it loses its zone, or it takes a free one. -/
inductive PortStep (p : Zones × ℕ) (l : TrackedLport) : Zones × ℕ → Prop
  | unchanged
      (removed : l.hasZone = true → l.trackedType = .removed →
        p.1.current.lookup l.logicalPort = none)
      (added : l.hasZone = true → l.trackedType ≠ .removed →
        (p.1.current.lookup l.logicalPort).isSome = true ∨
          ∀ x, p.2 ≤ x → x ≤ maxCtZones → p.1.bitmap x = true) : PortStep p l p
  | removed (zone : ℕ) (hzone : l.hasZone = true) (htype : l.trackedType = .removed)
      (hcur : p.1.current.lookup l.logicalPort = some zone) : PortStep p l
        (⟨update p.1.bitmap zone false,
          (p.1.addPendingCtZoneEntry .ofQueued zone false l.logicalPort).pending,
          p.1.current.erase l.logicalPort⟩, p.2)
  | added (zone : ℕ) (hzone : l.hasZone = true) (htype : l.trackedType ≠ .removed)
      (hcur : p.1.current.lookup l.logicalPort = none) (hle : p.2 ≤ zone) (hmax : zone ≤ maxCtZones)
      (hfree : p.1.bitmap zone = false) (hmiss : ∀ x, p.2 ≤ x → x < zone → p.1.bitmap x = true) :
      PortStep p l (⟨update p.1.bitmap zone true,
        (p.1.addPendingCtZoneEntry .ofQueued zone true l.logicalPort).pending,
        p.1.current.insert l.logicalPort zone⟩, zone + 1)

theorem portStep_handleLport (hstart : p.2 ≤ maxCtZones + 1) : PortStep p l (handleLport p l) := by
  have halloc : l.hasZone = true → l.trackedType ≠ .removed → PortStep p l
      (if (p.1.current.lookup l.logicalPort).isNone then p.1.allocIdToCtZone l.logicalPort p.2
        else p) := by
    intro hzone htype
    cases hcur : p.1.current.lookup l.logicalPort with
    | some x => exact .unchanged (fun _ h => absurd h htype) fun _ _ => .inl (by rw [hcur]; rfl)
    | none =>
      rcases allocIdToCtZone_cases l.logicalPort hstart with ⟨heq, hfull⟩ |
        ⟨zone, hle, hmax, hfree, hmiss, heq⟩
      · rw [heq]
        exact .unchanged (fun _ h => absurd h htype) fun _ _ => .inr hfull
      · rw [heq]
        exact .added zone hzone htype hcur hle hmax hfree hmiss
  unfold handleLport
  by_cases hzone : l.hasZone = true
  · rw [if_neg (by rw [hzone]; decide)]
    cases htype : l.trackedType with
    | new | updated => exact halloc hzone (by rw [htype]; decide)
    | removed =>
      dsimp only
      split
      next zone hcur => exact .removed zone hzone htype hcur
      next hcur => exact .unchanged (fun _ _ => hcur) fun _ h => absurd htype h
  · rw [if_pos (by simpa using hzone)]
    exact .unchanged (fun h => absurd h hzone) fun h => absurd h hzone

/-- The loop over the ports, with those that are left: no zone is shared that was not. -/
structure Handling (bridge : Option Simap) (s : Zones) (left : List TrackedLport) (p : Zones × ℕ) :
    Prop where
  marked : p.1.Marked
  ranged : p.1.Ranged
  recorded : p.1.Recorded bridge
  shared : ∀ u v x, u ≠ v → p.1.current.lookup u = some x → p.1.current.lookup v = some x →
    s.current.lookup u = some x ∧ s.current.lookup v = some x
  solo : ∀ u ∈ removedPorts left, p.1.Solo u
  start : 1 ≤ p.2 ∧ p.2 ≤ maxCtZones + 1

theorem Handling.step (h : Handling bridge s (l :: left) p) :
    Handling bridge s left (handleLport p l) := by
  have hsolo : ∀ u ∈ removedPorts left, p.1.Solo u := fun u hu =>
    h.solo u (mem_trackedPorts_cons.2 (.inr hu))
  have hstep := portStep_handleLport (l := l) h.start.2
  generalize handleLport p l = p' at hstep
  cases hstep with
  | unchanged => exact { h with solo := hsolo }
  | removed zone hzone htype hcur =>
    have hself := h.solo l.logicalPort
      (mem_trackedPorts_cons.2 (.inl ⟨hzone, by simpa using htype, rfl⟩))
    have hold : ∀ u x, (p.1.current.erase l.logicalPort).lookup u = some x →
        p.1.current.lookup u = some x := fun u x hu => (lookup_erase_iff.1 hu).2
    refine ⟨h.marked.drop h.ranged hcur hself, h.ranged.drop, h.recorded.drop _ _ _ _,
      fun u v x huv hu hv => h.shared u v x huv (hold u x hu) (hold v x hv),
        fun u hu x hx v hv => ?_,
      h.start⟩
    exact hsolo u hu x (hold u x hx) v (hold v x hv)
  | added zone hzone htype hcur hle hmax hfree hmiss =>
    refine ⟨h.marked.put hcur, h.ranged.put ⟨Nat.le_trans h.start.1 hle, hmax⟩,
      h.recorded.put _ _ _ _, fun u v x huv hu hv => ?_, fun u hu x hx v hv => ?_,
      ⟨Nat.le_add_left 1 zone, Nat.succ_le_succ hmax⟩⟩
    · obtain ⟨hu, hv⟩ := shared_put h.marked hfree huv hu hv
      exact h.shared u v x huv hu hv
    · by_contra hvu
      obtain ⟨hv, hx⟩ := shared_put h.marked hfree hvu hv hx
      exact hvu (hsolo u hu x hx v hv)

/-- The loop over the ports when there is room for all of them. -/
structure Filling (s : Zones) (ports left : List TrackedLport) (p : Zones × ℕ) : Prop where
  subset : ∀ u ∈ addedPorts left, u ∈ addedPorts ports
  kept : ∀ u x, s.current.lookup u = some x → u ∉ removedPorts ports → p.1.current.lookup u = some x
  held : ∀ u x, p.1.current.lookup u = some x → (s.current.lookup u).isSome ∨ u ∈ addedPorts ports
  gone : ∀ u ∈ removedPorts ports, u ∈ removedPorts left ∨ p.1.current.lookup u = none
  given : ∀ u ∈ addedPorts ports, u ∈ addedPorts left ∨ (p.1.current.lookup u).isSome
  room : ∃ taken : List ℕ, taken.length + (addedPorts left).length ≤ maxCtZones ∧
    (∀ x, p.1.bitmap x = true → x = 0 ∨ x ∈ taken) ∧ ∀ x, 1 ≤ x → x < p.2 → x ∈ taken

theorem exists_zone_notMem (taken : List ℕ) (h : taken.length < maxCtZones) :
    ∃ x, 1 ≤ x ∧ x ≤ maxCtZones ∧ x ∉ taken := by
  by_contra hall
  have hsub : List.range' 1 maxCtZones ⊆ taken := by
    intro x hx
    have hx := mem_range'_1.1 hx
    by_contra hn
    exact hall ⟨x, hx.1, by omega, hn⟩
  have hlen := (subperm_of_subset nodup_range' hsub).length_le
  rw [length_range'] at hlen
  omega

theorem Filling.step {ports : List TrackedLport} (hh : Handling bridge s (l :: left) p)
    (hdisj : ∀ u ∈ addedPorts ports, u ∉ removedPorts ports)
    (hl : l.hasZone = true → l.trackedType = .removed → l.logicalPort ∈ removedPorts ports)
    (h : Filling s ports (l :: left) p) : Filling s ports left (handleLport p l) := by
  have hsub : ∀ u ∈ addedPorts left, u ∈ addedPorts ports := fun u hu =>
    h.subset u (mem_trackedPorts_cons.2 (.inr hu))
  -- what is still to be done is done at this port or at a later one
  have hgone : ∀ u ∈ removedPorts ports, (l.hasZone = true ∧ l.trackedType = .removed ∧
      u = l.logicalPort) ∨ u ∈ removedPorts left ∨ p.1.current.lookup u = none := fun u hu => by
    simpa [mem_trackedPorts_cons, or_assoc] using h.gone u hu
  have hgiven : ∀ u ∈ addedPorts ports, (l.hasZone = true ∧ l.trackedType ≠ .removed ∧
      u = l.logicalPort) ∨ u ∈ addedPorts left ∨ (p.1.current.lookup u).isSome := fun u hu => by
    simpa [addedPorts, mem_trackedPorts_cons, or_assoc] using h.given u hu
  obtain ⟨taken, hlen, hbits, hbelow⟩ := h.room
  have hcons : addedPorts (l :: left) = if l.hasZone = true ∧
      (decide (l.trackedType ≠ .removed)) = true then l.logicalPort :: addedPorts left
      else addedPorts left := trackedPorts_cons _ l left
  rw [hcons] at hlen
  have hstep := portStep_handleLport (l := l) hh.start.2
  generalize handleLport p l = p' at hstep
  cases hstep with
  | unchanged hremoved hadded =>
    refine ⟨hsub, h.kept, h.held, fun u hu => ?_, fun u hu => ?_, ⟨taken, ?_, hbits, hbelow⟩⟩
    · rcases hgone u hu with ⟨h1, h2, rfl⟩ | hdone
      · exact .inr (hremoved h1 h2)
      · exact hdone
    · rcases hgiven u hu with ⟨h1, h2, rfl⟩ | hdone
      · refine .inr ((hadded h1 h2).resolve_right fun hfull => ?_)
        -- all zones are taken, but there is room
        rw [if_pos ⟨h1, decide_eq_true h2⟩, length_cons] at hlen
        obtain ⟨x, hx1, hx2, hx⟩ := exists_zone_notMem taken (by omega)
        rcases Nat.lt_or_ge x p.2 with hlt | hge
        · exact hx (hbelow x hx1 hlt)
        · rcases hbits x (hfull x hge hx2) with h0 | hin
          · omega
          · exact hx hin
      · exact hdone
    · split at hlen
      · rw [length_cons] at hlen
        omega
      · exact hlen
  | removed zone hzone htype hcur =>
    have hport := hl hzone htype
    refine ⟨hsub, fun u x hu hn => lookup_erase_iff.2 ⟨?_, h.kept u x hu hn⟩,
      fun u x hu => h.held u x (lookup_erase_iff.1 hu).2, fun u hu => ?_, fun u hu => ?_,
      ⟨taken, ?_, fun x hx => hbits x (update_false_iff.1 hx).2, hbelow⟩⟩
    · rintro rfl
      exact hn hport
    · rw [lookup_erase_eq]
      rcases hgone u hu with ⟨-, -, hul⟩ | hin | hnone
      · exact .inr (if_pos hul)
      · exact .inl hin
      · exact .inr (by rw [hnone, ite_self])
    · rw [lookup_erase_eq, if_neg]
      · exact (hgiven u hu).resolve_left fun hl => hl.2.1 htype
      · rintro rfl
        exact hdisj _ hu hport
    · simp_all
  | added zone hzone htype hcur hle hmax hfree hmiss =>
    have hadd : l.logicalPort ∈ addedPorts ports :=
      h.subset _ (mem_trackedPorts_cons.2 (.inl ⟨hzone, by simpa using htype, rfl⟩))
    refine ⟨hsub, fun u x hu hn => lookup_insert_iff.2 (.inr ⟨?_, h.kept u x hu hn⟩),
      fun u x hu => ?_,
      fun u hu => ?_, fun u hu => ?_, ⟨zone :: taken, ?_, fun x hx => ?_, fun x h1 h2 => ?_⟩⟩
    · rintro rfl
      cases hcur.symm.trans (h.kept _ x hu hn)
    · rcases lookup_insert_iff.1 hu with ⟨rfl, -⟩ | ⟨-, hu⟩
      · exact .inr hadd
      · exact h.held u x hu
    · rw [lookup_insert_eq, if_neg]
      · exact (hgone u hu).resolve_left fun hl => htype hl.2.1
      · rintro rfl
        exact hdisj _ hadd hu
    · rw [lookup_insert_eq]
      split
      · exact .inr rfl
      next hne => exact (hgiven u hu).resolve_left fun hl => hne hl.2.2
    · rw [if_pos ⟨hzone, by simpa using htype⟩, length_cons] at hlen
      rw [length_cons]
      omega
    · rcases update_true_iff.1 hx with rfl | hx
      · exact .inr mem_cons_self
      · exact (hbits x hx).imp_right (mem_cons_of_mem zone)
    · rcases Nat.lt_or_ge x p.2 with hlt | hge
      · exact mem_cons_of_mem zone (hbelow x h1 hlt)
      · rcases Nat.lt_or_eq_of_le (Nat.le_of_lt_succ h2) with hlt | rfl
        · rcases hbits x (hmiss x hge hlt) with h0 | hin
          · omega
          · exact mem_cons_of_mem zone hin
        · exact mem_cons_self

end

/-! ## Runs -/

def Input.lports (i : Input) : List TrackedLport := (i.tracked.getD []).flatMap (·.lports)

/-- The node is computed anew from `s`: the requests are valid, what is restored makes sense, and
    nobody gives up a zone that another user keeps. -/
structure Input.Runnable (i : Input) (bridge : Option Simap) (s : Zones) : Prop where
  valid : ∀ d ∈ i.rt.localDatapaths, ∀ u y, d.Requests u y → 1 ≤ y ∧ y ≤ maxCtZones
  /-- Datapaths of one name do not request two zones. -/
  agree : ∀ d ∈ i.rt.localDatapaths, ∀ e ∈ i.rt.localDatapaths, ∀ u x y, d.Requests u x →
    e.Requests u y → x = y
  restorable : Restorable bridge i.dpTable s
  gone : ∀ u v x, s.Restores bridge i.dpTable u x → s.Restores bridge i.dpTable v x →
    u ∉ i.rt.allUsers → v ∈ i.rt.allUsers → i.rt.reqSnatZones.lookup v = none →
    ∃ w, i.rt.reqSnatZones.lookup w = some x
  moved : ∀ u x y, s.Restores bridge i.dpTable u x → u ∈ i.rt.allUsers →
    i.rt.reqSnatZones.lookup u = some y → y ≠ x → (∀ w, i.rt.reqSnatZones.lookup w ≠ some x) ∧
      ∀ v, s.Restores bridge i.dpTable v x → v ∈ i.rt.allUsers → i.rt.reqSnatZones.lookup v ≠ none
  /-- Users that are restored with one zone and do not request it had it before. -/
  shared : ∀ u v x, u ≠ v → s.Restores bridge i.dpTable u x → s.Restores bridge i.dpTable v x →
    u ∈ i.rt.allUsers → v ∈ i.rt.allUsers → (∀ w, i.rt.reqSnatZones.lookup w ≠ some x) →
    i.rt.reqSnatZones.lookup u = none → i.rt.reqSnatZones.lookup v = none →
    s.current.lookup u = some x ∧ s.current.lookup v = some x

/-- The changes are handled: the tracked ports say how the users changed, and there is room for
    those that are new. -/
structure Input.Handleable (i : Input) (s : State) : Prop where
  users : ∀ u, u ∈ i.rt.allUsers ↔
    (u ∈ s.rt.allUsers ∧ u ∉ removedPorts i.lports) ∨ u ∈ addedPorts i.lports
  apart : ∀ u ∈ addedPorts i.lports, u ∉ removedPorts i.lports
  room : s.rt.allUsers.length + (addedPorts i.lports).length ≤ maxCtZones
  datapaths : ∀ d ∈ i.rt.localDatapaths, d ∈ s.rt.localDatapaths ∨ ∃ t ∈ i.trackedDps, t.row = d

/-- What is asked of the steps.  The bridge keeps the zones that are no longer pending, and a port
    that is removed does not share its zone. -/
def Op.Fine (s : State) : Op → Prop
  | .iterate i => (s.handles i = true → ∀ u ∈ removedPorts i.lports, s.zones.Solo u) ∧
    ((s.handled i).1 = true → i.Handleable s) ∧
    ((s.handled i).1 = false → i.Runnable s.bridge (s.handled i).2)
  | .bridge ids => ∀ u x, s.zones.current.lookup u = some x → u ∉ s.zones.pending →
    ids.bind (AList.lookup u) = some x
  | .advance _ | .commit => True

/-- The zones of the users are as they should be. -/
structure State.Exclusive (s : State) : Prop where
  /-- Every user has a zone, unless they are exhausted. -/
  assigned : ∀ u ∈ s.rt.allUsers, (s.zones.current.lookup u).isSome ∨
    ∀ x, 1 ≤ x → x ≤ maxCtZones → s.zones.bitmap x = true
  honoured : ∀ d ∈ s.rt.localDatapaths, ∀ name, d.name = some name → 1 ≤ d.snatCtZone →
    d.snatCtZone ≤ maxCtZones →
    s.zones.current.lookup (allocNatZoneKey name "snat") = some d.snatCtZone.toNat
  /-- Two users share a zone only if both have requested it. -/
  shared : ∀ u v x, u ≠ v → s.zones.current.lookup u = some x → s.zones.current.lookup v = some x →
    (⟨u, x⟩ : SimapNode) ∈ s.asked ∧ (⟨v, x⟩ : SimapNode) ∈ s.asked
  /-- The bit of a zone is set if and only if it is reserved or some user has it. -/
  inUse : ∀ x, s.zones.bitmap x = true ↔
    x = 0 ∨ ∃ u ∈ s.rt.allUsers, s.zones.current.lookup u = some x

structure State.Inv (s : State) : Prop where
  recorded : s.zones.Recorded s.bridge
  shared : ∀ u v x, u ≠ v → s.zones.current.lookup u = some x → s.zones.current.lookup v = some x →
    (⟨u, x⟩ : SimapNode) ∈ s.asked ∧ (⟨v, x⟩ : SimapNode) ∈ s.asked
  ranged : s.zones.Ranged
  exclusive : s.ran = true → s.Exclusive
  held : ∀ u x, s.zones.current.lookup u = some x → u ∈ s.rt.allUsers

/-- Users that share a zone have requested it. -/
def Zones.Asked (asked : List SimapNode) (z : Zones) : Prop :=
  ∀ u v x, u ≠ v → z.current.lookup u = some x → z.current.lookup v = some x →
    (⟨u, x⟩ : SimapNode) ∈ asked ∧ (⟨v, x⟩ : SimapNode) ∈ asked

theorem Handling.asked {bridge : Option Simap} {z : Zones} {left : List TrackedLport}
    {p : Zones × ℕ}
    {asked : List SimapNode} (h : Handling bridge z left p) (hz : z.Asked asked) :
    p.1.Asked asked := by
  intro u v x huv hu hv
  obtain ⟨hu, hv⟩ := h.shared u v x huv hu hv
  exact hz u v x huv hu hv

section
variable {s : State} {i : Input}

/-- What the ports have done, up to a new datapath, shares no zone that was not shared. -/
theorem State.Inv.handling (h : s.Inv) (hran : s.ran = true) {done rest : List TrackedLport}
    (hdone : i.lports = done ++ rest) (hsolo : ∀ u ∈ removedPorts i.lports, s.zones.Solo u) :
    Handling s.bridge s.zones done (s.zones, 1) := by
  refine ⟨fun x => ?_, h.ranged, h.recorded, fun _ _ _ _ hu hv => ⟨hu, hv⟩, fun u hu => hsolo u ?_,
    ⟨Nat.le_refl 1, Nat.le_add_left 1 maxCtZones⟩⟩
  · rw [(h.exclusive hran).inUse]
    refine or_congr_right (exists_congr fun u => ?_)
    exact ⟨fun hu => hu.2, fun hu => ⟨h.held u x hu, hu⟩⟩
  · simp_all [trackedPorts]

theorem State.handled_cases (s : State) (i : Input) : s.handled i = (false, s.zones) ∨
    ∃ done rest, i.lports = done ++ rest ∧ (s.handles i = true ∧ s.ran = true ∧
      ctZonesDatapathBindingHandler i.rt i.trackedDps s.zones = true) ∧
      (s.handled i).2 = (done.foldl handleLport (s.zones, 1)).1 ∧
      ((s.handled i).1 = true → rest = []) := by
  unfold State.handled
  split
  next hhandles =>
    unfold ctZonesRuntimeDataHandler Input.lports
    cases i.tracked with
    | none => exact .inl rfl
    | some tdps =>
      obtain ⟨done, rest, hports, heq, hrest⟩ := handleDatapaths_split tdps (s.zones, 1)
      have hands := hhandles
      unfold State.handles at hands
      rw [Bool.and_eq_true, Bool.and_eq_true] at hands
      exact .inr ⟨done, rest, hports, ⟨hhandles, hands.1.1, hands.2⟩, heq, hrest⟩
  · exact .inl rfl

/-- What the handlers leave can be restored, and shares only what was requested. -/
theorem State.Inv.handled (h : s.Inv)
    (hsolo : s.handles i = true → ∀ u ∈ removedPorts i.lports, s.zones.Solo u) :
    (s.handled i).2.Recorded s.bridge ∧ (s.handled i).2.Asked s.asked := by
  rcases s.handled_cases i with heq | ⟨done, rest, hports, ⟨hhandles, hran, -⟩, heq, -⟩
  · rw [heq]
    exact ⟨h.recorded, h.shared⟩
  have hend := foldl_left (fun _ _ _ => Handling.step) _ _ (h.handling hran hports (hsolo hhandles))
  rw [heq]
  exact ⟨hend.recorded, hend.asked h.shared⟩

theorem Input.Runnable.compatible {bridge : Option Simap} {z r : Zones} (h : i.Runnable bridge z)
    (hr : ∀ u x, r.current.lookup u = some x → z.Restores bridge i.dpTable u x) :
    Compatible i.rt.allUsers i.rt.reqSnatZones r := by
  refine ⟨fun u y hu => ?_, fun u y hu => ?_, fun u v x hu hgone hv hin hq => ?_,
    fun u x y hu hin hy hne => ?_⟩
  · obtain ⟨d, hd, hreq⟩ := lookup_reqSnatZones.1 u y hu
    exact mem_allUsers_of_requests hd hreq
  · obtain ⟨d, hd, hreq⟩ := lookup_reqSnatZones.1 u y hu
    exact h.valid d hd u y hreq
  · exact h.gone u v x (hr u x hu) (hr v x hv) hgone hin hq
  · obtain ⟨h1, h2⟩ := h.moved u x y (hr u x hu) hin hy hne
    exact ⟨h1, fun v hv => h2 v (hr v x hv)⟩

theorem Input.Runnable.lookup {bridge : Option Simap} {z : Zones} (h : i.Runnable bridge z)
    {d : Datapath} (hd : d ∈ i.rt.localDatapaths) {u : String} {y : ℕ} (hreq : d.Requests u y) :
    i.rt.reqSnatZones.lookup u = some y := by
  obtain ⟨y', hy'⟩ := Option.isSome_iff_exists.1 (lookup_reqSnatZones.2 d hd u y hreq)
  obtain ⟨e, he, hreq'⟩ := lookup_reqSnatZones.1 u y' hy'
  rw [hy', h.agree d hd e he u y y' hreq hreq']

theorem Datapath.requests_toNat {d : Datapath} {name : String} (hname : d.name = some name)
    (hpos : 0 ≤ d.snatCtZone) : d.Requests (allocNatZoneKey name "snat") d.snatCtZone.toNat :=
  ⟨name, hname, rfl, (Int.toNat_of_nonneg hpos).symm⟩

/-- **A recomputation** leaves the zones as they should be. -/
theorem State.Inv.run (h : s.Inv) (hfine : (Op.iterate i).Fine s) (hrun : (s.handled i).1 = false) :
    (s.iterate i).Inv := by
  obtain ⟨hsolo, -, hrunnable⟩ := hfine
  have hr := hrunnable hrun
  obtain ⟨hrec, hshared⟩ := h.handled hsolo
  obtain ⟨hm1, hr1, hrec1, hkept⟩ := restoreCtZones_spec i.orders hr.restorable hrec
  have hup := updateCtZones_spec i.orders i.rt hm1 hr1 hrec1 (hr.compatible hkept)
  have hzones : (s.iterate i).zones = enCtZonesRun i s.bridge (s.handled i).2 := by
    unfold State.iterate
    rw [hrun]
    rfl
  have hasked : (s.iterate i).zones.Asked (s.iterate i).asked := by
    intro u v x huv hu hv
    rw [hzones] at hu hv
    rcases hup.shared u v x huv hu hv with ⟨hqu, hqv⟩ | ⟨⟨hu, hv⟩, ⟨hinu, hinv⟩, ⟨hqu, hqv⟩, hno⟩
    · exact ⟨mem_append_right _ (mem_entries_iff.2 hqu), mem_append_right _ (mem_entries_iff.2 hqv)⟩
    · obtain ⟨hu, hv⟩ := hr.shared u v x huv (hkept u x hu) (hkept v x hv) hinu hinv hno hqu hqv
      obtain ⟨hau, hav⟩ := hshared u v x huv hu hv
      exact ⟨mem_append_left _ hau, mem_append_left _ hav⟩
  refine ⟨hzones ▸ hup.recorded, hasked, hzones ▸ hup.ranged, fun _ => ⟨?_, ?_, hasked, ?_⟩, ?_⟩
  · rw [hzones]
    exact hup.assigned
  · intro d hd name hname hpos _
    rw [hzones]
    exact hup.honoured _ _ (hr.lookup hd (Datapath.requests_toNat hname (by omega)))
  · intro x
    rw [hzones]
    refine (hup.marked x).trans (or_congr_right (exists_congr fun u => ?_))
    exact ⟨fun hu => ⟨hup.held u x hu, hu⟩, fun hu => hu.2⟩
  · rw [hzones]
    exact hup.held

theorem length_entries_le {m : Simap} {users : List String}
    (h : ∀ u x, m.lookup u = some x → u ∈ users) :
    (m.entries.map Sigma.snd).length ≤ users.length := by
  have hsub : m.entries.keys ⊆ users := by
    intro u hu
    obtain ⟨x, hx⟩ := Option.isSome_iff_exists.1 (AList.lookup_isSome.2 (AList.mem_keys.2 hu))
    exact h u x hx
  have hlen := (subperm_of_subset m.nodupKeys hsub).length_le
  rw [length_map]
  exact Nat.le_trans (Nat.le_of_eq (length_map _).symm) hlen

theorem State.Inv.isSome (h : s.Inv) (hran : s.ran = true)
    (hroom : s.rt.allUsers.length ≤ maxCtZones)
    {u : String} (hu : u ∈ s.rt.allUsers) : (s.zones.current.lookup u).isSome := by
  by_contra hnone
  have hall := ((h.exclusive hran).assigned u hu).resolve_left hnone
  -- the others are too few to have all zones
  have hheld : ∀ v x, s.zones.current.lookup v = some x → v ∈ s.rt.allUsers.erase u := by
    intro v x hv
    refine (mem_erase_of_ne ?_).2 (h.held v x hv)
    rintro rfl
    exact hnone (hv ▸ rfl)
  have hlen := length_entries_le hheld
  rw [length_erase_of_mem hu] at hlen
  have hpos := length_pos_of_mem hu
  obtain ⟨x, hx1, hx2, hx⟩ := exists_zone_notMem (s.zones.current.entries.map Sigma.snd) (by omega)
  rcases ((h.exclusive hran).inUse x).1 (hall x hx1 hx2) with h0 | ⟨v, -, hv⟩
  · omega
  · exact hx (mem_map.2 ⟨⟨v, x⟩, mem_entries_iff.2 hv, rfl⟩)

/-- **A handled change** leaves the zones as they should be. -/
theorem State.Inv.handle (h : s.Inv) (hfine : (Op.iterate i).Fine s)
    (hok : (s.handled i).1 = true) :
    (s.iterate i).Inv := by
  obtain ⟨hsolo, hhandleable, -⟩ := hfine
  have hh := hhandleable hok
  obtain heq | ⟨done, rest, hports, ⟨hhandles, hran, hdp⟩, heq, hrest⟩ := s.handled_cases i
  · rw [heq] at hok
    cases hok
  rw [hrest hok, append_nil] at hports
  subst hports
  obtain ⟨p, hp, hend, hfill⟩ : ∃ p : Zones × ℕ, (s.iterate i).zones = p.1 ∧
      Handling s.bridge s.zones [] p ∧ Filling s.zones i.lports [] p := by
    refine ⟨_, (if_pos hok).trans heq,
      (foldl_left (I := fun left p => (Handling s.bridge s.zones left p ∧
      Filling s.zones i.lports left p) ∧ ∀ u ∈ removedPorts left, u ∈ removedPorts i.lports)
      (fun l left p hp => ?_) i.lports (s.zones, 1) ⟨⟨?_, ?_⟩, fun _ hu => hu⟩).1⟩
    · refine ⟨⟨hp.1.1.step, hp.1.2.step hp.1.1 hh.apart fun h1 h2 => ?_⟩, fun u hu => ?_⟩
      · exact hp.2 _ (mem_trackedPorts_cons.2 (.inl ⟨h1, by simpa using h2, rfl⟩))
      · exact hp.2 u (mem_trackedPorts_cons.2 (.inr hu))
    · exact h.handling hran (append_nil _).symm (hsolo hhandles)
    · refine ⟨fun _ hu => hu, fun _ _ hu _ => hu, fun u x hu => .inl (hu ▸ rfl),
        fun _ hu => .inl hu,
        fun _ hu => .inl hu, ⟨s.zones.current.entries.map Sigma.snd, ?_, fun x hx => ?_,
          fun x h1 h2 => absurd h1 (Nat.not_le.2 h2)⟩⟩
      · exact Nat.le_trans (Nat.add_le_add_right (length_entries_le h.held) _) hh.room
      · refine (((h.exclusive hran).inUse x).1 hx).imp_right fun ⟨u, _, hu⟩ => ?_
        exact mem_map.2 ⟨⟨u, x⟩, mem_entries_iff.2 hu, rfl⟩
  have hgone : ∀ u ∈ removedPorts i.lports, p.1.current.lookup u = none := fun u hu =>
    (hfill.gone u hu).resolve_left not_mem_nil
  have hheld : ∀ u x, p.1.current.lookup u = some x → u ∈ i.rt.allUsers := by
    intro u x hu
    refine (hh.users u).2 ((hfill.held u x hu).imp_left fun hsome => ⟨?_, fun hr => ?_⟩)
    · obtain ⟨y, hy⟩ := Option.isSome_iff_exists.1 hsome
      exact h.held u y hy
    · rw [hgone u hr] at hu
      cases hu
  have hasked : p.1.Asked (s.iterate i).asked := fun u v x huv hu hv =>
    (hend.asked h.shared u v x huv hu hv).imp (mem_append_left _) (mem_append_left _)
  refine ⟨hp ▸ hend.recorded, hp ▸ hasked, hp ▸ hend.ranged, fun _ => ⟨fun u hu => .inl ?_,
    fun d hd name hname hpos hmax => ?_, hp ▸ hasked, fun x => ?_⟩, hp ▸ hheld⟩
  · rw [hp]
    rcases (hh.users u).1 hu with ⟨hold, hn⟩ | hadd
    · have hroom := hh.room
      obtain ⟨x, hx⟩ := Option.isSome_iff_exists.1 (h.isSome hran (by omega) hold)
      rw [hfill.kept u x hx hn]
      rfl
    · exact (hfill.given u hadd).resolve_left not_mem_nil
  · -- the handler of the datapaths has found the zone, or the datapath is as before
    have hold : s.zones.current.lookup (allocNatZoneKey name "snat") = some d.snatCtZone.toNat := by
      rcases hh.datapaths d hd with hd' | ⟨t, ht, rfl⟩
      · exact (h.exclusive hran).honoured d hd' name hname hpos hmax
      have hun := all_eq_true.1 hdp t ht
      unfold datapathUnchanged at hun
      have hlocal : (i.rt.localDatapaths.any fun d => d.tunnelKey = t.row.tunnelKey) = true :=
        any_eq_true.2 ⟨t.row, hd, by simp⟩
      have hne : t.row.snatCtZone ≠ -1 := by omega
      rw [hlocal, hname] at hun
      simp only [Bool.not_true, Bool.false_eq_true, if_false] at hun
      split at hun
      · cases hun
      · split at hun
        · cases hun
        next zone hzone => rw [hzone, ← of_decide_eq_true hun, Int.toNat_natCast]
    rw [hp]
    refine hfill.kept _ _ hold fun hr => ?_
    have hin := mem_allUsers_of_requests hd (Datapath.requests_toNat hname (by omega))
    rcases (hh.users _).1 hin with ⟨-, hn⟩ | hadd
    · exact hn hr
    · exact hh.apart _ hadd hr
  · rw [hp]
    refine (hend.marked x).trans (or_congr_right (exists_congr fun u => ?_))
    exact ⟨fun hu => ⟨hheld u x hu, hu⟩, fun hu => hu.2⟩

/-- Steps that change only what is pending and what is in the bridge keep what is recorded. -/
theorem State.Inv.congr (h : s.Inv) (pending : AList fun _ : String => PendingEntry)
    (bridge : Option Simap)
    (hrec : ∀ u x, s.zones.current.lookup u = some x → s.zones.recorded s.bridge u = some x →
      Zones.recorded { s.zones with pending := pending } bridge u = some x) :
    State.Inv { s with zones := { s.zones with pending := pending }, bridge := bridge } := by
  refine ⟨fun u x hu => hrec u x hu (h.recorded u x hu), h.shared, h.ranged, fun hr => ?_, h.held⟩
  obtain ⟨h1, h2, h3, h4⟩ := h.exclusive hr
  exact ⟨h1, h2, h3, h4⟩

theorem recorded_advance (f : String → PendingState) (u : String) :
    (s.advance f).zones.recorded s.bridge u = s.zones.recorded s.bridge u := by
  refine (foldl_left (I := fun (left : List ((_ : String) × PendingEntry))
      (m : AList fun _ : String => PendingEntry) =>
        (∀ e ∈ left, s.zones.pending.lookup e.1 = some e.2) ∧
    ∀ u, Zones.recorded ⟨s.zones.bitmap, m, s.zones.current⟩ s.bridge u = s.zones.recorded
      s.bridge u)
    (fun e left m hm => ⟨(forall_mem_cons.1 hm.1).2, fun u => ?_⟩) _ _
    ⟨fun e he => mem_entries_iff.1 he, fun _ => rfl⟩).2 u
  have hinsert := recorded_addPending (s := ⟨s.zones.bitmap, m, s.zones.current⟩) s.bridge
    (f e.1) e.2.zone e.2.add e.1 u
  refine hinsert.trans ?_
  split
  next hu =>
    unfold Zones.recorded
    rw [hu, hm.1 e mem_cons_self]
  · exact hm.2 u

theorem lookup_commitEntry (m : Simap) (e : (_ : String) × PendingEntry) (v : String) :
    (commitEntry m e).lookup v =
      if v = e.1 then (if e.2.add then some e.2.zone else none) else m.lookup v := by
  unfold commitEntry
  split
  · rw [lookup_insert_eq]
  · rw [lookup_erase_eq]

theorem recorded_commit (u : String) :
    s.commit.zones.recorded s.commit.bridge u = s.zones.recorded s.bridge u := by
  unfold State.commit
  cases hb : s.bridge with
  | none =>
    rw [hb]
  | some ids =>
    set sent := s.zones.pending.entries.filter fun e => e.2.state = .dbSent
    have hmem : ∀ e ∈ sent, s.zones.pending.lookup e.1 = some e.2 := fun e he =>
      mem_entries_iff.1 (mem_of_mem_filter he)
    -- the bridge has what is committed, and for all others what it had
    have hids := foldl_left (I := fun left (m : Simap) =>
        (∀ e ∈ sent, e.1 ∈ left.map Sigma.fst ∨ m.lookup e.1 = if e.2.add then some e.2.zone
          else none) ∧
        (∀ e ∈ left, e ∈ sent) ∧ ∀ v, v ∉ sent.map Sigma.fst → m.lookup v = ids.lookup v)
      (f := commitEntry) (fun e left m hm => ?_) sent ids
      ⟨fun e he => .inl (mem_map_of_mem he), fun _ he => he, fun _ _ => rfl⟩
    · obtain ⟨hin, -, hout⟩ := hids
      unfold Zones.recorded
      rw [lookup_foldl_erase]
      by_cases hu : u ∈ sent.map Sigma.fst
      · obtain ⟨e, he, rfl⟩ := mem_map.1 hu
        rw [if_pos hu, hmem e he]
        exact (hin e he).resolve_left not_mem_nil
      · simp_all
    · have he := hm.2.1 e mem_cons_self
      refine ⟨fun e' he' => ?_, (forall_mem_cons.1 hm.2.1).2, fun v hv => ?_⟩
      · rw [lookup_commitEntry]
        by_cases heq : e'.1 = e.1
        · have h1 := hmem e' he'
          rw [heq, hmem e he] at h1
          rw [if_pos heq, Option.some_inj.1 h1]
          exact .inr rfl
        · rw [if_neg heq]
          refine (hm.1 e' he').imp_left fun hl => ?_
          exact (mem_cons.1 hl).resolve_left heq
      · rw [lookup_commitEntry, if_neg]
        · exact hm.2.2 v hv
        · rintro rfl
          exact hv (mem_map_of_mem he)

theorem State.Inv.op (h : s.Inv) (op : Op) (hop : op.Fine s) : (op.run s).Inv := by
  cases op with
  | iterate i =>
    cases hok : (s.handled i).1 with
    | true => exact h.handle hop hok
    | false => exact h.run hop hok
  | advance f => exact h.congr _ _ fun u x _ hx => (recorded_advance f u).trans hx
  | commit =>
    have hrec := recorded_commit (s := s)
    change s.commit.Inv
    unfold State.commit at hrec ⊢
    split at hrec
    · exact h
    · exact h.congr _ _ fun u x _ hx => (hrec u).trans hx
  | bridge ids =>
    refine h.congr s.zones.pending ids fun u x hu hx => ?_
    unfold Zones.recorded at hx ⊢
    cases hpend : s.zones.pending.lookup u with
    | none => exact hop u x hu (AList.lookup_eq_none.1 hpend)
    | some e =>
      rw [hpend] at hx
      exact hx

end

/-- **Conntrack zones are exclusive.** In every run in which valid zones are requested, what is
    restored makes sense and nobody gives up a zone that another user keeps, the zones are as they
    should be in every state once the node has run. -/
theorem zones_exclusive (bridge : Option Simap) {s : State}
    (h : (system bridge).Reached (fun s op => op.Fine s) s) (hran : s.ran = true) :
    s.Exclusive := by
  have hinv : s.Inv := h.invariant
    ⟨fun u x hu => (by cases hu), fun u v x _ hu => (by cases hu), fun u x hu => (by cases hu),
      fun hr => (by cases hr), fun u x hu => (by cases hu)⟩
    fun s op s' hs hop hnext => by
      cases hnext
      exact hs.op op hop
  exact hinv.exclusive hran

def routers (ports : List String) (a b : ℤ) (tracked : Option (List TrackedDatapath)) : Input where
  rt := ⟨ports, [⟨1, 1, some "A", a⟩, ⟨2, 2, some "B", b⟩]⟩
  dpTable := ⟨[], fun _ => none⟩
  trackedDps := []
  tracked := tracked
  recompute := tracked.isNone
  orders := ⟨.listed _, .listed _, .listed _, .listed _⟩

/-- A port becomes local. -/
def newPort : Input := routers ["p1"] 5 6 (some [⟨.updated, [⟨"p1", .vif, .new⟩]⟩])

/-- Two routers request zones, then a port is given one by the handler. -/
theorem zones_exclusive_routers : ∃ s, (system (some ∅)).Reached (fun s op => op.Fine s) s ∧
    s.zones.current.lookup "A_snat" = some 5 ∧ s.zones.current.lookup "B_snat" = some 6 ∧
    s.zones.current.lookup "p1" = some 3 ∧ s.Exclusive := by
  have hreq : ∀ d ∈ (routers [] 5 6 none).rt.localDatapaths, ∀ u y, d.Requests u y →
      u = "A_snat" ∧ y = 5 ∨ u = "B_snat" ∧ y = 6 := by
    rintro d hd u y ⟨name, hname, rfl, hy⟩
    have hd : d = ⟨1, 1, some "A", 5⟩ ∨ d = ⟨2, 2, some "B", 6⟩ := by simpa [routers] using hd
    rcases hd with rfl | rfl
    · cases hname
      exact .inl ⟨by decide, (Int.ofNat.inj hy).symm⟩
    · cases hname
      exact .inr ⟨by decide, (Int.ofNat.inj hy).symm⟩
  have hnone : ∀ u x, ¬ (State.init (some ∅)).zones.Restores (some ∅) ⟨[], fun _ => none⟩ u x := by
    rintro u x ⟨n, hn, -⟩
    cases hn
  have hrun : (routers [] 5 6 none).Runnable (some ∅) (State.init (some ∅)).zones := by
    refine ⟨fun d hd u y hr => ?_, fun d hd e he u x y hx hy => ?_,
      ⟨fun u x y h => absurd h (hnone u x), fun u x h => absurd h (hnone u x),
        fun u x h => absurd h (hnone u x), fun u hu => absurd hu (AList.notMem_empty u)⟩,
      fun u v x h => absurd h (hnone u x), fun u x y h => absurd h (hnone u x),
      fun u v x _ h => absurd h (hnone u x)⟩
    · rcases hreq d hd u y hr with ⟨-, rfl⟩ | ⟨-, rfl⟩ <;> decide
    · rcases hreq d hd u x hx with ⟨rfl, rfl⟩ | ⟨rfl, rfl⟩ <;>
        rcases hreq e he _ y hy with ⟨h, rfl⟩ | ⟨h, rfl⟩
      exacts [rfl, absurd h (by decide), absurd h (by decide), rfl]
  have hfine : (Op.iterate (routers [] 5 6 none)).Fine (State.init (some ∅)) :=
    ⟨nofun, nofun, fun _ => hrun⟩
  have hreached := (System.Reached.init (S := system (some ∅))).step hfine rfl
  have hfine' :
    (Op.iterate newPort).Fine ((Op.iterate (routers [] 5 6 none)).run (State.init (some ∅))) := by
    refine ⟨fun _ => nofun, fun _ => ⟨fun u => ?_, fun u _ => nofun, by decide,
      fun d hd => .inl hd⟩, nofun⟩
    show u ∈ "p1" :: (routers [] 5 6 none).rt.allUsers ↔
      u ∈ (routers [] 5 6 none).rt.allUsers ∧ u ∉ [] ∨ u ∈ ["p1"]
    simp [or_comm]
  have hreached := hreached.step hfine' rfl
  exact ⟨_, hreached, by decide, by decide, by decide, zones_exclusive (some ∅) hreached rfl⟩

/-- Two routers swap the zones they request, and a port is given the zone of one of them. -/
theorem zones_not_exclusive : ∃ s, (system (some ∅)).Reached (fun _ _ => True) s ∧ s.ran = true ∧
    s.zones.current.lookup "B_snat" = some 5 ∧ s.zones.current.lookup "p3" = some 5 ∧
    ¬ s.Exclusive := by
  have hreached := (((System.Reached.init (S := system (some ∅)) (P := fun _ _ => True)).step
    (a := .iterate (routers [] 5 6 none)) trivial rfl).step
    (a := .iterate (routers [] 6 5 none)) trivial rfl).step
    (a := .iterate (routers ["p1", "p2", "p3"] 6 5 (some [⟨.updated,
      [⟨"p1", .vif, .new⟩, ⟨"p2", .vif, .new⟩, ⟨"p3", .vif, .new⟩]⟩]))) trivial rfl
  refine ⟨_, hreached, rfl, by decide, by decide, fun h => ?_⟩
  exact absurd (h.shared "p3" "B_snat" 5 (by decide) (by decide) (by decide)).1 (by decide)

end Ovn.CtZone

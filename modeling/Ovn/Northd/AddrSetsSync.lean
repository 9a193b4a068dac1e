/-
  The southbound address sets match the northbound content as long as no two sets have the same
  name.

  A sync has one row for each set that is synced, so a user-defined set does not override a
  generated set of its name: both get a row.  Where names are distinct the changes that are handled
  on their own leave what a sync would.
-/
import Ovn.Northd.AddrSets

namespace Ovn.AddrSets

open PortGroups (PortGroup)
open List

/-! ## What the rows should be -/

/-- No two sets have the same name. -/
def Distinct (pr : Parser) (c : Content) : Prop := ((addrSets pr c).map AddrSet.name).Nodup

/-- **The southbound rows match the content**: there is one row for each name in use and no other,
    it holds the user-defined set of the name, or else the addresses generated for it. -/
structure Synced (pr : Parser) (c : Content) (sb : List SbAddressSet) : Prop where
  nodup : (sb.map NamedSet.name).Nodup
  names : ∀ n, n ∈ sb.map NamedSet.name ↔ n ∈ (addrSets pr c).map AddrSet.name
  holds : ∀ r ∈ sb, (∃ a ∈ c.addressSets, a.name = r.name ∧ a.addresses = r.values) ∨
    (∀ a ∈ c.addressSets, a.name ≠ r.name) ∧
      ∃ g ∈ generatedSets pr c, g.name = r.name ∧ g.addresses.toFinset = r.values

def AddrSet.row (a : AddrSet) : SbAddressSet := ⟨a.name, a.addresses.toFinset⟩

def AddrSet.Sorted (a : AddrSet) : Prop := a.addresses.Pairwise (· ≤ ·)

section
variable {pr : Parser} {c : Content} {a : AddrSet} {sb : List SbAddressSet} {r : SbAddressSet}

theorem AddrSet.Sorted.update_eq (h : a.Sorted) (hr : r.name = a.name) :
    r.update a.addresses = a.row := by
  rw [NamedSet.update_eq h, hr]
  rfl

theorem sorted_sortedFromSvec (n : String) (v : List String) :
    (⟨n, sortedFromSvec v⟩ : AddrSet).Sorted :=
  (pairwise_mergeSort
    (fun a b c hab hbc => by simpa using le_trans (of_decide_eq_true hab) (of_decide_eq_true hbc))
    (fun a b => by simpa using le_total a b) v).imp fun h => of_decide_eq_true h

theorem sorted_sort (n : String) (s : Finset String) : (⟨n, s.sort⟩ : AddrSet).Sorted :=
  Finset.pairwise_sort s _

theorem sorted_portGroupSets {lsp : ℕ → Lsp} {g : PortGroup} (h : a ∈ portGroupSets pr lsp g) :
    a.Sorted := by
  simp only [portGroupSets, mem_cons, not_mem_nil, or_false] at h
  rcases h with rfl | rfl <;> exact sorted_sortedFromSvec _ _

theorem sorted_lrSets {l : LrStateful} (h : a ∈ lrSets l) : a.Sorted := by
  rcases mem_append.1 h with h | h
  all_goals
    split at h
    · cases h
    · rw [mem_singleton.1 h]
      exact sorted_sort _ _

theorem mem_addrSets : a ∈ addrSets pr c ↔ a ∈ generatedSets pr c ∨ ∃ u ∈ c.addressSets,
    userSet u = a := by
  rw [addrSets, mem_append, mem_map]

theorem mem_generatedSets : a ∈ generatedSets pr c ↔ a = ⟨"svc_monitor_mac", [c.svcMonitorMac]⟩ ∨
    (∃ g ∈ c.portGroups, a ∈ portGroupSets pr c.lsp g) ∨ ∃ l ∈ c.lrStatefuls, a ∈ lrSets l := by
  rw [generatedSets, mem_cons, mem_append, mem_flatMap, mem_flatMap]

theorem sorted_addrSets (h : a ∈ addrSets pr c) : a.Sorted := by
  rcases mem_addrSets.1 h with h | ⟨u, -, rfl⟩
  · rcases mem_generatedSets.1 h with rfl | ⟨g, -, hg⟩ | ⟨l, -, hl⟩
    · exact pairwise_singleton _ _
    · exact sorted_portGroupSets hg
    · exact sorted_lrSets hl
  · exact sorted_sort _ _

/-! ## The full sync -/

/-- **A sync has a row for each set**, whatever was there before. -/
theorem syncAddrSets_eq (pr : Parser) (c : Content) (sb : List SbAddressSet) :
    syncAddrSets pr c sb = (addrSets pr c).map AddrSet.row :=
  (Claims.rows_foldl NamedSet.name (addrSets pr c) _
    (fun a _ => (rfl : (⟨a.name, a.addresses.toFinset⟩ : SbAddressSet) = a.row))
    fun _ ha _ hr => (sorted_addrSets ha).update_eq hr).trans (nil_append _)

theorem map_name_row (l : List AddrSet) :
    (l.map AddrSet.row).map NamedSet.name = l.map AddrSet.name := by
  rw [map_map]
  rfl

theorem Distinct.holds (h : Distinct pr c) (ha : a ∈ addrSets pr c) :
    (∃ u ∈ c.addressSets, u.name = a.row.name ∧ u.addresses = a.row.values) ∨
      (∀ u ∈ c.addressSets, u.name ≠ a.row.name) ∧
        ∃ g ∈ generatedSets pr c, g.name = a.row.name ∧ g.addresses.toFinset = a.row.values := by
  rcases mem_addrSets.1 ha with hg | ⟨u, hu, rfl⟩
  · refine .inr ⟨fun u hu hn => ?_, a, hg, rfl, rfl⟩
    rw [Distinct, addrSets, map_append] at h
    refine (nodup_append.1 h).2.2 a.name (mem_map_of_mem hg) u.name ?_ hn.symm
    exact mem_map.2 ⟨userSet u, mem_map_of_mem hu, rfl⟩
  · exact .inl ⟨u, hu, rfl, (Finset.sort_toFinset u.addresses _).symm⟩

/-- **A sync matches exactly if the names are distinct.** -/
theorem synced_syncAddrSets : Synced pr c (syncAddrSets pr c sb) ↔ Distinct pr c := by
  rw [syncAddrSets_eq]
  constructor
  · intro h
    have hnodup := h.nodup
    rwa [map_name_row] at hnodup
  · intro h
    refine ⟨by rwa [map_name_row], fun n => by rw [map_name_row], fun r hr => ?_⟩
    obtain ⟨a, ha, rfl⟩ := mem_map.1 hr
    exact h.holds ha

theorem Distinct.synced_iff (h : Distinct pr c) : Synced pr c sb ↔
    (sb.map NamedSet.name).Nodup ∧ ∀ r, r ∈ sb ↔ r ∈ (addrSets pr c).map AddrSet.row := by
  have hrows : (((addrSets pr c).map AddrSet.row).map NamedSet.name).Nodup := by rwa [map_name_row]
  constructor
  · intro hs
    have hsub : ∀ r ∈ sb, r ∈ (addrSets pr c).map AddrSet.row := by
      rintro ⟨n, values⟩ hr
      rcases hs.holds _ hr with ⟨u, hu, hn, hv⟩ | ⟨-, g, hg, hn, hv⟩
      · refine mem_map.2 ⟨userSet u, mem_addrSets.2 (.inr ⟨u, hu, rfl⟩), ?_⟩
        rw [AddrSet.row, userSet, Finset.sort_toFinset]
        exact congrArg₂ NamedSet.mk hn hv
      · exact mem_map.2 ⟨g, mem_addrSets.2 (.inl hg), congrArg₂ NamedSet.mk hn hv⟩
    refine ⟨hs.nodup, fun r => ⟨hsub r, fun hr => ?_⟩⟩
    have hn : r.name ∈ (addrSets pr c).map AddrSet.name := by
      rw [← map_name_row]
      exact mem_map_of_mem hr
    obtain ⟨r', hr', hname⟩ := mem_map.1 ((hs.names r.name).2 hn)
    rwa [← inj_on_of_nodup_map hrows (hsub r' hr') hr hname]
  · rintro ⟨hnodup, hmem⟩
    refine ⟨hnodup, fun n => ?_, fun r hr => ?_⟩
    · simp_all [← map_name_row, mem_map]
    · obtain ⟨a, ha, rfl⟩ := mem_map.1 ((hmem r).1 hr)
      exact h.holds ha

end

/-! ## Changes -/

def Input.updates (pr : Parser) (inp : Input) : List AddrSet :=
  inp.trackedSets.map (fun t => userSet t.row) ++
    inp.trackedGroups.flatMap fun t => portGroupSets pr inp.content.lsp t.row

/-- The tables changed as it is tracked.  The ports, the routers and the MAC are the same: a change
    of one of them has all synced. -/
structure Input.Valid (s : State) (inp : Input) : Prop where
  sets : Tracks AddressSet.uuid s.content.addressSets inp.content.addressSets inp.trackedSets
  groups : Tracks PortGroup.uuid s.content.portGroups inp.content.portGroups inp.trackedGroups
  lsp : inp.content.lsp = s.content.lsp
  lrStatefuls : inp.content.lrStatefuls = s.content.lrStatefuls
  svcMonitorMac : inp.content.svcMonitorMac = s.content.svcMonitorMac

section
variable {pr : Parser} {c : Content} {sb sb' : List SbAddressSet} {s : State} {inp : Input}

theorem map_name_updates (l : List AddrSet) (sb : List SbAddressSet) :
    (l.foldl (fun sb a => updateSbAddrSet a sb) sb).map NamedSet.name = sb.map NamedSet.name :=
  map_foldl_modifyRow l sb fun _ _ _ => rfl

theorem foldlM_updates {ι : Type} {f : ι → List AddrSet} : ∀ (l : List ι) (sb : List SbAddressSet),
    l.foldlM (fun sb i => if (f i).all fun a => a.name ∈ sb.map NamedSet.name then
      some ((f i).foldl (fun sb a => updateSbAddrSet a sb) sb) else none) sb = some sb' →
    sb' = (l.flatMap f).foldl (fun sb a => updateSbAddrSet a sb) sb ∧
      ∀ a ∈ l.flatMap f, a.name ∈ sb.map NamedSet.name
  | [], sb, h => ⟨(Option.some.inj h).symm, nofun⟩
  | i :: l, sb, h => by
    rw [foldlM_cons] at h
    obtain ⟨sb₁, h1, h⟩ := Option.bind_eq_some_iff.1 h
    split at h1
    next hall =>
      obtain rfl := Option.some.inj h1
      obtain ⟨heq, hnames⟩ := foldlM_updates l _ h
      rw [map_name_updates] at hnames
      rw [flatMap_cons, foldl_append]
      exact ⟨heq, forall_mem_append.2 ⟨fun a ha => of_decide_eq_true (all_eq_true.1 hall a ha),
        hnames⟩⟩
    · cases h1

theorem handlers_eq_some (h : handlers pr inp sb = some sb') :
    OnlyUpdates inp.trackedSets ∧ OnlyUpdates inp.trackedGroups ∧
    sb' = (inp.updates pr).foldl (fun sb a => updateSbAddrSet a sb) sb ∧
    ∀ a ∈ inp.updates pr, a.name ∈ sb.map NamedSet.name := by
  obtain ⟨sb₁, h1, h2⟩ := Option.bind_eq_some_iff.1 h
  unfold nbAddressSetHandler at h1
  unfold nbPortGroupHandler at h2
  split at h1
  · cases h1
  next hsets =>
    split at h2
    · cases h2
    next hgroups =>
      have hfirst : sb₁ = (inp.trackedSets.flatMap fun t => [userSet t.row]).foldl
          (fun sb a => updateSbAddrSet a sb) sb ∧
          ∀ a ∈ inp.trackedSets.flatMap fun t => [userSet t.row],
            a.name ∈ sb.map NamedSet.name := by
        refine foldlM_updates inp.trackedSets sb
          (h1 ▸ congrArg (List.foldlM · sb inp.trackedSets) ?_)
        funext sb t
        refine if_congr ?_ rfl rfl
        rw [all_cons, all_nil, Bool.and_true]
        exact decide_eq_true_iff
      rw [← map_eq_flatMap] at hfirst
      obtain ⟨rfl, hn1⟩ := hfirst
      obtain ⟨rfl, hn2⟩ := foldlM_updates _ _ h2
      rw [map_name_updates] at hn2
      exact ⟨onlyUpdates_of_not_any hsets, onlyUpdates_of_not_any hgroups, (foldl_append ..).symm,
        forall_mem_append.2 ⟨hn1, hn2⟩⟩

theorem Input.Valid.updates_subset (hv : inp.Valid s) (hsets : OnlyUpdates inp.trackedSets)
    (hgroups : OnlyUpdates inp.trackedGroups) {a : AddrSet} (ha : a ∈ inp.updates pr) :
    a ∈ addrSets pr inp.content := by
  rcases mem_append.1 ha with ha | ha
  · obtain ⟨t, ht, rfl⟩ := mem_map.1 ha
    exact mem_addrSets.2 (.inr ⟨t.row, (hv.sets.each t ht).row (hsets t ht).2, rfl⟩)
  · obtain ⟨t, ht, ha⟩ := mem_flatMap.1 ha
    exact mem_addrSets.2 (.inl (mem_generatedSets.2
      (.inr (.inl ⟨t.row, (hv.groups.each t ht).row (hgroups t ht).2, ha⟩))))

theorem Input.Valid.mem_addrSets (hv : inp.Valid s) {a : AddrSet}
    (ha : a ∈ addrSets pr inp.content) :
    a ∈ inp.updates pr ∨ a ∈ addrSets pr s.content := by
  rcases AddrSets.mem_addrSets.1 ha with ha | ⟨u, hu, rfl⟩
  · rcases mem_generatedSets.1 ha with rfl | ⟨g, hg, ha⟩ | ⟨l, hl, ha⟩
    · refine .inr (AddrSets.mem_addrSets.2 (.inl (mem_generatedSets.2 (.inl ?_))))
      rw [hv.svcMonitorMac]
    · by_cases hold : g ∈ s.content.portGroups
      · rw [hv.lsp] at ha
        exact .inr
          (AddrSets.mem_addrSets.2 (.inl (mem_generatedSets.2 (.inr (.inl ⟨g, hold, ha⟩)))))
      · obtain ⟨t, ht, rfl⟩ := hv.groups.changed g hg hold
        exact .inl (mem_append_right _ (mem_flatMap.2 ⟨t, ht, ha⟩))
    · rw [hv.lrStatefuls] at hl
      exact .inr (AddrSets.mem_addrSets.2 (.inl (mem_generatedSets.2 (.inr (.inr ⟨l, hl, ha⟩)))))
  · by_cases hold : u ∈ s.content.addressSets
    · exact .inr (AddrSets.mem_addrSets.2 (.inr ⟨u, hold, rfl⟩))
    · obtain ⟨t, ht, rfl⟩ := hv.sets.changed u hu hold
      exact .inl (mem_append_left _ (mem_map.2 ⟨t, ht, rfl⟩))

theorem length_addrSets (pr : Parser) (c : Content) : (addrSets pr c).length =
    1 + (2 * c.portGroups.length + (c.lrStatefuls.flatMap lrSets).length) +
      c.addressSets.length := by
  have htwo : ∀ gs : List PortGroup,
    (gs.flatMap (portGroupSets pr c.lsp)).length = 2 * gs.length := by
    intro gs
    induction gs with
    | nil => rfl
    | cons g gs ih =>
      rw [flatMap_cons, length_append, ih]
      show 2 + 2 * gs.length = 2 * (gs.length + 1)
      omega
  rw [addrSets, generatedSets, length_append, length_cons, length_append, htwo, length_map]
  omega

theorem Input.Valid.length_eq (hv : inp.Valid s) (hsets : OnlyUpdates inp.trackedSets)
    (hgroups : OnlyUpdates inp.trackedGroups) :
    (addrSets pr inp.content).length = (addrSets pr s.content).length := by
  have h1 :=
    (hv.sets.keys_perm hsets s.content.nodup_addressSets inp.content.nodup_addressSets).length_eq
  have h2 :=
    (hv.groups.keys_perm hgroups s.content.nodup_portGroups inp.content.nodup_portGroups).length_eq
  rw [length_map, length_map] at h1 h2
  rw [length_addrSets, length_addrSets, h1, h2, hv.lrStatefuls]

/-- Rows that match still do after the updates, if names are the same, and distinct, and each set is
    updated or was there before. -/
theorem Synced.updates {c c' : Content} {us : List AddrSet} (hs : Synced pr c sb)
    (hd : Distinct pr c)
    (hd' : Distinct pr c')
    (hsame : ∀ n, n ∈ (addrSets pr c').map AddrSet.name ↔ n ∈ (addrSets pr c).map AddrSet.name)
    (hus : ∀ a ∈ us, a ∈ addrSets pr c') (hold : ∀ a ∈ addrSets pr c', a ∈ us ∨ a ∈ addrSets pr c) :
    Synced pr c' (us.foldl (fun sb a => updateSbAddrSet a sb) sb) := by
  obtain ⟨hnodup, hmem⟩ := hd.synced_iff.1 hs
  have hnodup' : ((us.foldl (fun sb a => updateSbAddrSet a sb) sb).map NamedSet.name).Nodup := by
    rwa [map_name_updates]
  have hrows : (((addrSets pr c').map AddrSet.row).map NamedSet.name).Nodup := by rwa [map_name_row]
  have hloop : ∀ n, rowOf NamedSet.name (us.foldl (fun sb a => updateSbAddrSet a sb) sb) n =
      (rowOf NamedSet.name sb n).map
        fun r => (rowOf NamedSet.name (us.map AddrSet.row).reverse n).getD r :=
    fun n => rowOf_foldl_modifyRow us sb (fun _ _ => rfl)
      (fun a ha _ hr => (sorted_addrSets (hus a ha)).update_eq hr) fun _ _ _ => rfl
  have hrow : ∀ n, rowOf NamedSet.name (us.foldl (fun sb a => updateSbAddrSet a sb) sb) n =
      rowOf NamedSet.name ((addrSets pr c').map AddrSet.row) n := by
    intro n
    rw [hloop]
    cases hw : rowOf NamedSet.name ((addrSets pr c').map AddrSet.row) n with
    | none =>
      have hno := rowOf_eq_none.1 hw
      rw [map_name_row, hsame, ← hs.names] at hno
      rw [rowOf_eq_none.2 hno]
      rfl
    | some r =>
      obtain ⟨hr, rfl⟩ := mem_of_rowOf hw
      obtain ⟨a, ha, rfl⟩ := mem_map.1 hr
      cases hu : rowOf NamedSet.name (us.map AddrSet.row).reverse a.row.name with
      | some r' =>
        -- an update of the name is that of the set
        obtain ⟨hr', hname⟩ := mem_of_rowOf hu
        obtain ⟨b, hb, rfl⟩ := mem_map.1 (mem_reverse.1 hr')
        have hab := inj_on_of_nodup_map hrows (mem_map_of_mem (hus b hb)) hr hname
        have hin : a.row.name ∈ sb.map NamedSet.name := by
          rw [hs.names, ← hsame]
          exact mem_map_of_mem ha
        obtain ⟨r₀, hr0⟩ := Option.isSome_iff_exists.1 (isSome_rowOf.2 hin)
        rw [hr0, ← hab]
        rfl
      | none =>
        have hno : a ∉ us := fun hin => rowOf_eq_none.1 hu (mem_map_of_mem
          (mem_reverse.2 (mem_map_of_mem hin)))
        have hin := (hmem a.row).2 (mem_map_of_mem ((hold a ha).resolve_left hno))
        rw [rowOf_of_mem hnodup hin]
        rfl
  refine hd'.synced_iff.2 ⟨hnodup', fun r => ?_⟩
  rw [← rowOf_self_iff hnodup', ← rowOf_self_iff hrows, hrow]

/-- **Changes that are handled** leave rows that match exactly if the names are still distinct. -/
theorem synced_handlers (hs : Synced pr s.content s.sb) (hd : Distinct pr s.content)
    (hv : inp.Valid s)
    (h : handlers pr inp s.sb = some sb') :
    Synced pr inp.content sb' ↔ Distinct pr inp.content := by
  obtain ⟨hsets, hgroups, rfl, hnames⟩ := handlers_eq_some h
  have hlength : ((addrSets pr inp.content).map AddrSet.name).length
      = ((addrSets pr s.content).map AddrSet.name).length := by
    rw [length_map, length_map, hv.length_eq hsets hgroups]
  constructor
  · -- the rows have the names of before, which were distinct
    intro hnew
    have hsub : (addrSets pr s.content).map AddrSet.name ⊆ (addrSets pr inp.content).map
      AddrSet.name := by
      intro n hn
      rw [← hnew.names, map_name_updates, hs.names]
      exact hn
    exact ((hd.subperm hsub).perm_of_length_le hlength.le).nodup hd
  · intro hd'
    -- all names were there before, so they are the names of before
    have hsub : (addrSets pr inp.content).map AddrSet.name ⊆ (addrSets pr s.content).map
      AddrSet.name := by
      intro n hn
      obtain ⟨a, ha, rfl⟩ := mem_map.1 hn
      rcases hv.mem_addrSets ha with ha | ha
      · exact (hs.names a.name).1 (hnames a ha)
      · exact mem_map_of_mem ha
    have hperm := (hd'.subperm hsub).perm_of_length_le hlength.ge
    exact hs.updates hd hd' (fun n => hperm.mem_iff)
      (fun a ha => hv.updates_subset hsets hgroups ha)
      fun a ha => hv.mem_addrSets ha

end

/-! ## Runs -/

/-- What is asked of each step: what is tracked is what changed, and the names of all sets are
    distinct. -/
def Action.Careful (pr : Parser) (s : State) : Action → Prop
  | .recompute content _ => Distinct pr content
  | .change inp => inp.Valid s ∧ Distinct pr inp.content

theorem synced_of_reached {pr : Parser} {c : Content} {sb : List SbAddressSet} (hc : Distinct pr c)
    {s : State}
    (h : (addrSetSync pr c sb).Reached (Action.Careful pr) s) :
    Synced pr s.content s.sb ∧ Distinct pr s.content := by
  have hinit : Synced pr c (syncAddrSets pr c sb) ∧ Distinct pr c := ⟨synced_syncAddrSets.2 hc, hc⟩
  refine h.invariant (I := fun s => Synced pr s.content s.sb ∧ Distinct pr s.content) hinit ?_
  rintro s a s' ⟨hs, hd⟩ ha hnext
  obtain rfl := Option.some.inj hnext
  cases a with
  | recompute content sb => exact ⟨synced_syncAddrSets.2 ha, ha⟩
  | change inp =>
    refine ⟨?_, ha.2⟩
    show Synced pr inp.content ((handlers pr inp s.sb).getD (syncAddrSets pr inp.content s.sb))
    cases hh : handlers pr inp s.sb with
    | none => exact synced_syncAddrSets.2 ha.2
    | some sb' => exact (synced_handlers hs hd ha.1 hh).2 ha.2

/-- **Southbound address sets.** A sync matches the content exactly if the names of all sets are
    distinct. While they are, the rows match the content, and a change that is handled on its own
    leaves rows that match exactly if the names are distinct afterwards. -/
theorem address_sets_match (pr : Parser) :
    (∀ c sb, Synced pr c (syncAddrSets pr c sb) ↔ Distinct pr c) ∧
    ∀ c sb s, Distinct pr c → (addrSetSync pr c sb).Reached (Action.Careful pr) s →
      Synced pr s.content s.sb ∧ ∀ inp : Input, inp.Valid s → ∀ sb',
        handlers pr inp s.sb = some sb' →
        (Synced pr inp.content sb' ↔ Distinct pr inp.content) :=
  ⟨fun _ _ => synced_syncAddrSets, fun _ _ _ hc h =>
    ⟨(synced_of_reached hc h).1, fun _ hv _ hh =>
      synced_handlers (synced_of_reached hc h).1 (synced_of_reached hc h).2 hv hh⟩⟩

/-! A port group without ports, and an address set. -/

private def noAddresses : Parser := ⟨fun _ => false, fun _ => ([], [])⟩

private def oneSet (name : String) (addresses : Finset String) : Content where
  addressSets := [⟨1, name, addresses⟩]
  portGroups := [⟨2, "web", []⟩]
  lsp _ := ⟨[], none⟩
  lrStatefuls := []
  svcMonitorMac := "0a:00:00:00:00:01"
  nodup_addressSets := nodup_singleton _
  nodup_portGroups := nodup_singleton _

private def changeSet (addresses : Finset String) : Input where
  content := oneSet "hosts" addresses
  trackedSets := [⟨⟨1, "hosts", addresses⟩, false, false⟩]
  trackedGroups := []

private theorem oneSet_distinct (addresses : Finset String) :
    Distinct noAddresses (oneSet "hosts" addresses) := by
  show ["svc_monitor_mac", "web" ++ "_ip4", "web" ++ "_ip6", "hosts"].Nodup
  decide

private theorem handlers_changeSet {sb : List SbAddressSet} (h : "hosts" ∈ sb.map NamedSet.name)
    (addresses : Finset String) : handlers noAddresses (changeSet addresses) sb =
      some (updateSbAddrSet (userSet ⟨1, "hosts", addresses⟩) sb) := by
  have hfirst : nbAddressSetHandler (changeSet addresses).trackedSets sb =
      some (updateSbAddrSet (userSet ⟨1, "hosts", addresses⟩) sb) := by
    show (if "hosts" ∈ sb.map NamedSet.name then some _ else none).bind some = _
    rw [if_pos h]
    rfl
  rw [handlers, hfirst]
  rfl

theorem address_sets_match_hosts :
    ∃ (s : State) (sb' : List SbAddressSet), s.content = oneSet "hosts" ∅ ∧
    Synced noAddresses s.content s.sb ∧ handlers noAddresses (changeSet {"10.0.0.1"}) s.sb =
      some sb' ∧
    Synced noAddresses (changeSet {"10.0.0.1"}).content sb' := by
  have h := (address_sets_match noAddresses).2 (oneSet "hosts" ∅) [] _ (oneSet_distinct ∅) .init
  have hv : (changeSet {"10.0.0.1"}).Valid (addrSetSync noAddresses (oneSet "hosts" ∅) []).init :=
    ⟨Tracks.replaced rfl, Tracks.same _ _, rfl, rfl, rfl⟩
  have hname : "hosts" ∈ ((addrSetSync noAddresses (oneSet "hosts" ∅) []).init.sb).map
    NamedSet.name := by
    decide
  have hh := handlers_changeSet hname {"10.0.0.1"}
  exact ⟨_, _, rfl, h.1, hh, (h.2 _ hv _ hh).2 (oneSet_distinct _)⟩

/-- An address set has the name of a set that is generated. -/
theorem not_address_sets_match : ∃ pr c sb, ¬ Synced pr c (syncAddrSets pr c sb) := by
  refine ⟨noAddresses, oneSet "web_ip4" ∅, [], fun h => ?_⟩
  have hd : ["svc_monitor_mac", "web" ++ "_ip4", "web" ++ "_ip6", "web_ip4"].Nodup :=
    synced_syncAddrSets.1 h
  exact absurd hd (by decide)

end Ovn.AddrSets

/-
  The references of the desired flows.

  The list of a flow and the list of a row hold the same references, also in the middle of a
  removal: then there are flows, those that the removal waits for, whose references have left the
  lists of the rows.
-/
import Ovn.Ofctrl.FlowFrame
import Ovn.Ofctrl.FlowTables

namespace Ovn.FlowTable

open Function (update update_of_ne update_self)
open List

/-! ## The lists of the rows -/

/-- What is in the row with the uuid, nothing where there is none. -/
def rowList (φ : SbToFlow → List ℕ) (table : List SbToFlow) (u : ℕ) : List ℕ :=
  ((rowOf (·.sbUuid) table u).map φ).getD []

def rowFlows (table : List SbToFlow) (u : ℕ) : List ℕ := rowList (·.flows) table u

def rowAs (table : List SbToFlow) (u : ℕ) : List ℕ := rowList (·.asRefs) table u

def asLists (table : List SbToFlow) : List (List ℕ) :=
  table.flatMap fun stf => stf.addrsets.flatMap fun sar => sar.asIpToFlowMap.map (·.flows)

theorem asRefs_mapAs_filter (p : ℕ → Bool) (stf : SbToFlow) :
    (stf.mapAs (·.filter p)).asRefs = stf.asRefs.filter p := by
  simp only [SbToFlow.mapAs, SbToFlow.asRefs, flatMap_map, filter_flatMap]

section
variable {table : List SbToFlow} {u v r x : ℕ} {l : List ℕ} {φ : SbToFlow → List ℕ}

theorem rowList_modifyRow {g : SbToFlow → SbToFlow} (f : List ℕ → List ℕ) (h0 : f [] = [])
    (hk : ∀ stf, (g stf).sbUuid = stf.sbUuid) (hg : ∀ stf, φ (g stf) = f (φ stf)) :
    rowList φ (modifyRow (·.sbUuid) u g table) v =
      if v = u then f (rowList φ table v) else rowList φ table v := by
  unfold rowList
  rw [rowOf_modifyRow hk]
  split
  · cases rowOf (·.sbUuid) table v with
    | none => exact h0.symm
    | some stf => exact hg stf
  · rfl

theorem rowFlows_dropRef : rowFlows (modifyRow (·.sbUuid) u (SbToFlow.dropRef r) table) v =
    if v = u then (rowFlows table v).filter (· ≠ r) else rowFlows table v :=
  rowList_modifyRow (·.filter (· ≠ r)) rfl (fun _ => rfl) fun _ => rfl

theorem rowAs_dropRef : rowAs (modifyRow (·.sbUuid) u (SbToFlow.dropRef r) table) v =
    if v = u then (rowAs table v).filter (· ≠ r) else rowAs table v :=
  rowList_modifyRow (·.filter (· ≠ r)) rfl (fun _ => rfl) (asRefs_mapAs_filter _)

theorem rowFlows_dropAs : rowFlows (modifyRow (·.sbUuid) u (SbToFlow.dropAs r) table) v =
    rowFlows table v :=
  (rowList_modifyRow (g := SbToFlow.dropAs r) id rfl (fun _ => rfl) fun _ => rfl).trans (ite_self _)

theorem mem_asLists_dropAs (h : l ∈ asLists (modifyRow (·.sbUuid) u (SbToFlow.dropAs r) table)) :
    ∃ l₀ ∈ asLists table, l.Sublist l₀ := by
  simp only [asLists, mem_flatMap, mem_map] at h
  obtain ⟨stf, hstf, sar, hsar, n, hn, rfl⟩ := h
  rcases mem_modifyRow hstf with hstf | ⟨stf, hin, rfl⟩
  · refine ⟨n.flows, ?_, List.Sublist.refl _⟩
    simp only [asLists, mem_flatMap, mem_map]
    exact ⟨stf, hstf, sar, hsar, n, hn, rfl⟩
  · simp only [SbToFlow.dropAs, SbToFlow.mapAs, mem_map] at hsar
    obtain ⟨sar, hsar, rfl⟩ := hsar
    obtain ⟨n, hin', rfl⟩ := mem_map.1 hn
    refine ⟨n.flows, ?_, filter_sublist⟩
    simp only [asLists, mem_flatMap, mem_map]
    exact ⟨stf, hin, sar, hsar, n, hin', rfl⟩

theorem asLists_dropRef : asLists (modifyRow (·.sbUuid) u (SbToFlow.dropRef r) table) =
    asLists (modifyRow (·.sbUuid) u (SbToFlow.dropAs r) table) := by
  unfold asLists modifyRow
  rw [flatMap_map, flatMap_map]
  refine flatMap_congr fun stf _ => ?_
  split <;> rfl

theorem keys_dropRef : (modifyRow (·.sbUuid) u (SbToFlow.dropRef r) table).map (·.sbUuid) =
    table.map (·.sbUuid) := map_modifyRow fun _ => rfl

theorem mem_rowList_modifyRow {g : SbToFlow → SbToFlow} (hk : ∀ stf, (g stf).sbUuid = stf.sbUuid)
    (hg : ∀ stf, ∀ x ∈ φ (g stf), x ∈ φ stf)
    (h : x ∈ rowList φ (modifyRow (·.sbUuid) u g table) v) :
    x ∈ rowList φ table v := by
  unfold rowList at h ⊢
  rw [rowOf_modifyRow hk] at h
  cases hrow : rowOf (·.sbUuid) table v with
  | none => simp [hrow] at h
  | some stf =>
    rw [hrow] at h
    split at h
    · exact hg stf x h
    · exact h

variable {g : ℕ → SbToFlow → SbToFlow}

/-- The loop over references, each of which changes its row. -/
abbrev eachRow (sbUuid : ℕ → ℕ) (g : ℕ → SbToFlow → SbToFlow) (rs : List ℕ)
    (table : List SbToFlow) :=
  rs.foldl (fun table r => modifyRow (·.sbUuid) (sbUuid r) (g r) table) table

/-- References leave the lists of their rows one after the other. -/
theorem rowList_foldl_drop (sbUuid : ℕ → ℕ) (hk : ∀ r stf, (g r stf).sbUuid = stf.sbUuid)
    (hg : ∀ r stf, φ (g r stf) = (φ stf).filter (· ≠ r)) (rs : List ℕ) (table : List SbToFlow) :
    rowList φ (eachRow sbUuid g rs table) v =
      (rowList φ table v).filter fun x => ¬ (x ∈ rs ∧ sbUuid x = v) := by
  induction rs generalizing table with
  | nil => simp
  | cons r rs ih =>
    rw [eachRow, foldl_cons, ih, rowList_modifyRow (·.filter (· ≠ r)) rfl (hk r) (hg r)]
    split
    next hv =>
      rw [filter_filter]
      refine filter_congr fun x _ => ?_
      by_cases hx : x = r <;> simp [hx, hv]
    next hv =>
      refine filter_congr fun x _ => ?_
      by_cases hx : x = r
      · simp [hx, Ne.symm hv]
      · simp [hx]

theorem mem_asLists_foldl_drop (sbUuid : ℕ → ℕ)
    (hg : ∀ r u table, asLists (modifyRow (·.sbUuid) u (g r) table) = asLists
      (modifyRow (·.sbUuid) u (SbToFlow.dropAs r) table))
    (rs : List ℕ) (table : List SbToFlow)
    (h : l ∈ asLists (eachRow sbUuid g rs table)) :
    ∃ l₀ ∈ asLists table, l.Sublist l₀ := by
  induction rs generalizing table with
  | nil => exact ⟨l, h, List.Sublist.refl l⟩
  | cons r rs ih =>
    obtain ⟨l₁, hl1, hsub⟩ := ih _ h
    rw [hg] at hl1
    obtain ⟨l₂, hl2, hsub'⟩ := mem_asLists_dropAs hl1
    exact ⟨l₂, hl2, hsub.trans hsub'⟩

theorem rowFlows_foldl_dropAs (sbUuid : ℕ → ℕ) (rs : List ℕ) (table : List SbToFlow) :
    rowFlows (eachRow sbUuid SbToFlow.dropAs rs table) v = rowFlows table v :=
  foldl_same (g := (rowFlows · v)) fun _ _ _ => rowFlows_dropAs ..

theorem keys_foldl_drop (sbUuid : ℕ → ℕ) (hk : ∀ r stf, (g r stf).sbUuid = stf.sbUuid) (rs : List ℕ)
    (table : List SbToFlow) :
    (eachRow sbUuid g rs table).map (·.sbUuid) = table.map (·.sbUuid) :=
  map_foldl_modifyRow rs table fun r _ => hk r

section
variable (sbUuid : ℕ → ℕ) (rs : List ℕ) (table : List SbToFlow)

theorem rowAs_foldl_dropAs : rowAs (eachRow sbUuid SbToFlow.dropAs rs table) v =
      (rowAs table v).filter fun x => ¬ (x ∈ rs ∧ sbUuid x = v) :=
  rowList_foldl_drop (g := SbToFlow.dropAs) sbUuid (fun _ _ => rfl)
    (fun _ stf => asRefs_mapAs_filter _ stf) rs table

theorem rowAs_foldl_dropRef : rowAs (eachRow sbUuid SbToFlow.dropRef rs table) v =
      (rowAs table v).filter fun x => ¬ (x ∈ rs ∧ sbUuid x = v) :=
  rowList_foldl_drop (g := SbToFlow.dropRef) sbUuid (fun _ _ => rfl)
    (fun _ stf => asRefs_mapAs_filter _ stf) rs table

theorem rowFlows_foldl_dropRef :
    rowFlows (eachRow sbUuid SbToFlow.dropRef rs table) v = (rowFlows table v).filter
      fun x => ¬ (x ∈ rs ∧ sbUuid x = v) :=
  rowList_foldl_drop (g := SbToFlow.dropRef) sbUuid (fun _ _ => rfl) (fun _ _ => rfl) rs table

end

theorem rowList_dropRow : rowList φ (dropRow (·.sbUuid) u table) v =
    if v = u then [] else rowList φ table v := by
  unfold rowList
  rw [rowOf_dropRow]
  split <;> rfl

theorem mem_rowList (h : (table.map (·.sbUuid)).Nodup) :
    x ∈ rowList φ table u ↔ ∃ stf ∈ table, stf.sbUuid = u ∧ x ∈ φ stf :=
  mem_getD_rowOf h

theorem mem_asLists_dropRow (h : l ∈ asLists (dropRow (·.sbUuid) u table)) : l ∈ asLists table := by
  obtain ⟨stf, hstf, hl⟩ := mem_flatMap.1 h
  exact mem_flatMap.2 ⟨stf, mem_of_mem_filter hstf, hl⟩

theorem mem_asRefs_addRef {info : AddrsetInfo} {stf : SbToFlow} :
    x ∈ (stf.addRef r (some info)).asRefs ↔ x ∈ stf.asRefs ∨ x = r := by
  refine mem_flatMap_upsertRow (fun sar x => ?_) (by rfl)
  dsimp only [SbAddrsetRef.addRef]
  refine mem_flatMap_upsertRow (fun n x => ?_) (by rfl)
  rw [mem_append, mem_singleton]

variable {asInfo : Option AddrsetInfo}

theorem rowFlows_addRef :
    rowFlows (upsertRow (·.sbUuid) u ⟨u, [], []⟩ (SbToFlow.addRef r asInfo) table) v =
      if v = u then rowFlows table v ++ [r] else rowFlows table v := by
  unfold rowFlows rowList
  rw [rowOf_upsertRow (by rfl) (by intro _; rfl)]
  split
  next hv =>
    subst hv
    cases rowOf (·.sbUuid) table v <;> rfl
  · rfl

theorem mem_rowAs_addRef :
    x ∈ rowAs (upsertRow (·.sbUuid) u ⟨u, [], []⟩ (SbToFlow.addRef r asInfo) table) v ↔
      x ∈ rowAs table v ∨ (v = u ∧ x = r ∧ asInfo.isSome) := by
  unfold rowAs rowList
  rw [rowOf_upsertRow (by rfl) (by intro _; rfl)]
  by_cases hv : v = u
  · subst hv
    rw [if_pos rfl]
    cases asInfo with
    | none => cases rowOf (·.sbUuid) table v <;> simp [SbToFlow.addRef, SbToFlow.asRefs]
    | some info =>
      rw [Option.map_some, Option.getD_some, mem_asRefs_addRef]
      cases rowOf (·.sbUuid) table v <;> simp [SbToFlow.asRefs]
  · simp [hv]

theorem mem_asLists_addRef
    (h : l ∈ asLists (upsertRow (·.sbUuid) u ⟨u, [], []⟩ (SbToFlow.addRef r asInfo) table)) :
    l ∈ asLists table ∨ ∃ l₀, (l₀ ∈ asLists table ∨ l₀ = []) ∧ l = l₀ ++ [r] := by
  simp only [asLists, mem_flatMap, mem_map] at h ⊢
  obtain ⟨stf, hstf, sar, hsar, n, hn, rfl⟩ := h
  rcases mem_upsertRow hstf with hstf | ⟨stf, hrow, rfl⟩
  · exact .inl ⟨stf, hstf, sar, hsar, n, hn, rfl⟩
  -- what was in the row before, was in the table
  have hin : ∀ {sar : SbAddrsetRef} {n : AsIpToFlow}, sar ∈ stf.addrsets → n ∈ sar.asIpToFlowMap →
      ∃ a ∈ table, ∃ b ∈ a.addrsets, ∃ c ∈ b.asIpToFlowMap, c.flows = n.flows := by
    intro sar n hsar hn
    rcases hrow with hrow | rfl
    · exact ⟨stf, hrow, sar, hsar, n, hn, rfl⟩
    · cases hsar
  cases asInfo with
  | none => exact .inl (hin hsar hn)
  | some info =>
    rcases mem_upsertRow hsar with hsar | ⟨sar, hset, rfl⟩
    · exact .inl (hin hsar hn)
    have hin' : ∀ {n : AsIpToFlow}, n ∈ sar.asIpToFlowMap →
        ∃ a ∈ table, ∃ b ∈ a.addrsets, ∃ c ∈ b.asIpToFlowMap, c.flows = n.flows := by
      intro n hn
      rcases hset with hset | rfl
      · exact hin hset hn
      · cases hn
    dsimp only [SbAddrsetRef.addRef] at hn
    rcases mem_upsertRow hn with hn | ⟨n, haddr, rfl⟩
    · exact .inl (hin' hn)
    · exact .inr ⟨n.flows, haddr.imp hin' fun h => by rw [h], rfl⟩

end

/-! ## The invariant -/

variable {μ α : Type}

namespace Tables

/-- The lists agree, but for the flows of `D`, whose references are detached from the rows.  Where
    `single` holds, no flow has two references from one row. -/
structure Linked (single : Prop) (D : List ℕ) (t : Tables μ α) : Prop where
  keys : (t.uuidFlowTable.map (·.sbUuid)).Nodup
  owner : ∀ f ∈ t.matchFlowTable, ∀ r ∈ t.references f, (t.sfr r).flow = f
  listed : ∀ u r, r ∈ rowFlows t.uuidFlowTable u ↔ (t.sfr r).sbUuid = u ∧
    (t.sfr r).flow ∈ t.matchFlowTable ∧ (t.sfr r).flow ∉ D ∧ r ∈ t.references (t.sfr r).flow
  once : single → ∀ f ∈ t.matchFlowTable, ∀ r ∈ t.references f, ∀ r' ∈ t.references f,
    (t.sfr r).sbUuid = (t.sfr r').sbUuid → r = r'
  referenced : ∀ f ∈ t.matchFlowTable, f ∉ D → t.references f ≠ []
  alone : ∀ u, ∀ r ∈ rowAs t.uuidFlowTable u,
    r ∈ rowFlows t.uuidFlowTable u ∧ t.references (t.sfr r).flow = [r]
  nodupRefs : ∀ f ∈ t.matchFlowTable, (t.references f).Nodup
  nodupRows : ∀ u, (rowFlows t.uuidFlowTable u).Nodup
  nodupAs : ∀ l ∈ asLists t.uuidFlowTable, l.Nodup ∧ ∀ r ∈ l, r < t.nextSfr
  freshRefs : ∀ f ∈ t.matchFlowTable, ∀ r ∈ t.references f, r < t.nextSfr
  freshFlows : ∀ f ∈ t.matchFlowTable, f < t.nextFlow

theorem linked_empty {single : Prop} (desired : ℕ → DesiredFlow μ α)
    (installed : ℕ → InstalledFlow μ α) (sfr : ℕ → SbFlowRef) :
    (Tables.empty desired installed sfr).Linked single [] where
  keys := nodup_nil
  owner := nofun
  listed u r := by simp [Tables.empty, rowFlows, rowList, rowOf]
  once := nofun
  referenced := nofun
  alone u r hr := by simp [Tables.empty, rowAs, rowList, rowOf] at hr
  nodupRefs := nofun
  nodupRows u := nodup_nil
  nodupAs l hl := by simp [Tables.empty, asLists] at hl
  freshRefs := nofun
  freshFlows := nofun

section
variable {single : Prop} {D : List ℕ} {t : Tables μ α}

theorem Linked.core (h : t.Linked single D) {c : Core μ α}
    (hm : c.matchFlowTable = t.matchFlowTable)
    (hn : c.nextFlow = t.nextFlow) : ({ t with toCore := c } : Tables μ α).Linked single D :=
  { h with
    owner := fun f hf => h.owner f (hm ▸ hf)
    listed := fun u r => by
      have := h.listed u r
      rw [← hm] at this
      exact this
    once := fun hs f hf => h.once hs f (hm ▸ hf)
    referenced := fun f hf => h.referenced f (hm ▸ hf)
    nodupRefs := fun f hf => h.nodupRefs f (hm ▸ hf)
    freshRefs := fun f hf => h.freshRefs f (hm ▸ hf)
    freshFlows := fun f hf => lt_of_lt_of_eq (h.freshFlows f (hm ▸ hf)) hn.symm }

theorem Linked.listNodes (h : t.Linked single D) (l : List ℕ) :
    ({ t with listNodes := l } : Tables μ α).Linked single D :=
  { h with }

variable {u r : ℕ}

section
variable (h : t.Linked single D) (hr : r ∈ rowFlows t.uuidFlowTable u)
include h hr

theorem Linked.of_rowFlows :
    (t.sfr r).flow ∈ t.matchFlowTable ∧ (t.sfr r).flow ∉ D ∧ r ∈ t.references (t.sfr r).flow :=
  ((h.listed u r).1 hr).2

theorem Linked.uuid_of_rowFlows : (t.sfr r).sbUuid = u := ((h.listed u r).1 hr).1

theorem Linked.lt_of_rowFlows : r < t.nextSfr :=
  h.freshRefs _ (h.of_rowFlows hr).1 r (h.of_rowFlows hr).2.2

end

theorem Linked.ne_of_rowAs (h : t.Linked single D) {f : ℕ} (hr : r ∈ rowAs t.uuidFlowTable u)
    (hf : t.references f = []) : (t.sfr r).flow ≠ f := by
  intro he
  have := (h.alone u r hr).2
  rw [he, hf] at this
  cases this

/-! ## New references -/

section
variable {f u g v x : ℕ} {asInfo : Option AddrsetInfo}

theorem references_link_self :
    (t.linkFlowToSb f u asInfo).references f = t.references f ++ [t.nextSfr] := update_self ..

theorem references_link_of_ne (hg : g ≠ f) :
    (t.linkFlowToSb f u asInfo).references g = t.references g := update_of_ne hg _ _

theorem mem_references_link : x ∈ (t.linkFlowToSb f u asInfo).references g ↔
    x ∈ t.references g ∨ (g = f ∧ x = t.nextSfr) := by
  by_cases hg : g = f
  · subst hg
    rw [references_link_self]
    simp
  · rw [references_link_of_ne hg]
    simp [hg]

theorem sfr_link_self : (t.linkFlowToSb f u asInfo).sfr t.nextSfr = ⟨f, u⟩ := update_self ..

theorem sfr_link_of_lt (hx : x < t.nextSfr) : (t.linkFlowToSb f u asInfo).sfr x = t.sfr x :=
  update_of_ne (Nat.ne_of_lt hx) _ _

theorem rowFlows_link : rowFlows (t.linkFlowToSb f u asInfo).uuidFlowTable v =
    if v = u then rowFlows t.uuidFlowTable v ++ [t.nextSfr] else rowFlows t.uuidFlowTable v :=
  rowFlows_addRef

end

theorem nodup_append_fresh {l : List ℕ} (h : l.Nodup) (hr : ∀ x ∈ l, x < r) : (l ++ [r]).Nodup :=
  nodup_append_comm.2 (nodup_cons.2 ⟨fun hin => Nat.lt_irrefl r (hr r hin), h⟩)

theorem Linked.linkFlowToSb (h : t.Linked single D) {f : ℕ} {asInfo : Option AddrsetInfo}
    (hf : f ∈ t.matchFlowTable) (hD : ∀ g ∈ D, g = f ∧ t.references f = [])
    (hs : single → ∀ r ∈ t.references f, (t.sfr r).sbUuid ≠ u)
    (has : asInfo.isSome → t.references f = [])
    (hno : ∀ v, ∀ r ∈ rowAs t.uuidFlowTable v, (t.sfr r).flow ≠ f) :
    (t.linkFlowToSb f u asInfo).Linked single [] where
  keys := nodup_upsertRow rfl (fun _ => rfl) h.keys
  owner g hg r hr := by
    rcases mem_references_link.1 hr with hr | ⟨rfl, rfl⟩
    · rw [sfr_link_of_lt (h.freshRefs g hg r hr), h.owner g hg r hr]
    · rw [sfr_link_self]
  listed v r := by
    have hrow : r ∈ rowFlows (t.linkFlowToSb f u asInfo).uuidFlowTable v ↔
        r ∈ rowFlows t.uuidFlowTable v ∨ (v = u ∧ r = t.nextSfr) := by
      rw [rowFlows_link]
      by_cases hv : v = u <;> simp [hv]
    rw [hrow, mem_references_link]
    by_cases hr : r = t.nextSfr
    · subst hr
      have hnot : t.nextSfr ∉ rowFlows t.uuidFlowTable v := fun hin =>
        Nat.lt_irrefl _ (h.lt_of_rowFlows hin)
      rw [sfr_link_self]
      constructor
      · rintro (hin | ⟨rfl, -⟩)
        · exact absurd hin hnot
        · exact ⟨rfl, hf, not_mem_nil, .inr ⟨rfl, rfl⟩⟩
      · rintro ⟨rfl, -⟩
        exact .inr ⟨rfl, rfl⟩
    · have hsfr : (t.linkFlowToSb f u asInfo).sfr r = t.sfr r := update_of_ne hr _ _
      rw [hsfr, h.listed]
      simp only [hr, and_false, or_false, not_mem_nil, not_false_eq_true, true_and]
      refine and_congr_right fun _ => and_congr_right fun _ => ?_
      refine ⟨fun hin => hin.2, fun hin => ⟨fun hd => ?_, hin⟩⟩
      obtain ⟨he, hempty⟩ := hD _ hd
      rw [he, hempty] at hin
      cases hin
  once hsingle g hg r hr r' hr' hu := by
    have key : ∀ x ∈ t.references g, (t.linkFlowToSb f u asInfo).sfr x = t.sfr x := fun x hx =>
      sfr_link_of_lt (h.freshRefs g hg x hx)
    rcases mem_references_link.1 hr with hr | ⟨he, rfl⟩
    · rw [key r hr] at hu
      rcases mem_references_link.1 hr' with hr' | ⟨he, rfl⟩
      · rw [key r' hr'] at hu
        exact h.once hsingle g hg r hr r' hr' hu
      · simp_all [sfr_link_self]
    · rcases mem_references_link.1 hr' with hr' | ⟨-, rfl⟩
      · rw [sfr_link_self, key r' hr'] at hu
        exact absurd hu.symm (hs hsingle r' (he ▸ hr'))
      · rfl
  referenced g hg _ := by
    by_cases he : g = f
    · exact ne_nil_of_mem (mem_references_link.2 (.inr ⟨he, rfl⟩))
    · obtain ⟨r, hr⟩ := exists_mem_of_ne_nil _ (h.referenced g hg fun hd => he (hD g hd).1)
      exact ne_nil_of_mem (mem_references_link.2 (.inl hr))
  alone v r hr := by
    rw [rowFlows_link]
    rcases mem_rowAs_addRef.1 hr with hr | ⟨rfl, rfl, hsome⟩
    · obtain ⟨hin, halone⟩ := h.alone v r hr
      rw [sfr_link_of_lt (h.lt_of_rowFlows hin), references_link_of_ne (hno v r hr)]
      refine ⟨?_, halone⟩
      split
      · exact mem_append_left _ hin
      · exact hin
    · simp [sfr_link_self, references_link_self, has hsome]
  nodupRefs g hg := by
    by_cases he : g = f
    · subst he
      rw [references_link_self]
      exact nodup_append_fresh (h.nodupRefs g hg) (h.freshRefs g hg)
    · rw [references_link_of_ne he]
      exact h.nodupRefs g hg
  nodupRows v := by
    rw [rowFlows_link]
    split
    · exact nodup_append_fresh (h.nodupRows v) fun r hr => h.lt_of_rowFlows hr
    · exact h.nodupRows v
  nodupAs l hl := by
    rcases mem_asLists_addRef hl with hl | ⟨l₀, hl0, rfl⟩
    · exact ⟨(h.nodupAs l hl).1, fun r hr => Nat.lt_succ_of_lt ((h.nodupAs l hl).2 r hr)⟩
    have hold : l₀.Nodup ∧ ∀ r ∈ l₀, r < t.nextSfr := by
      rcases hl0 with hl0 | rfl
      · exact h.nodupAs l₀ hl0
      · exact ⟨nodup_nil, nofun⟩
    exact ⟨nodup_append_fresh hold.1 hold.2, forall_mem_append.2
      ⟨fun r hr => Nat.lt_succ_of_lt (hold.2 r hr), forall_mem_singleton.2 (Nat.lt_succ_self _)⟩⟩
  freshRefs g hg r hr := by
    rcases mem_references_link.1 hr with hr | ⟨rfl, rfl⟩
    · exact Nat.lt_succ_of_lt (h.freshRefs g hg r hr)
    · exact Nat.lt_succ_self _
  freshFlows := h.freshFlows

theorem Linked.lessAs (h : t.Linked single D) {table : List SbToFlow}
    (hkeys : (table.map (·.sbUuid)).Nodup)
    (hflows : ∀ v, rowFlows table v = rowFlows t.uuidFlowTable v)
    (has : ∀ v, ∀ r ∈ rowAs table v, r ∈ rowAs t.uuidFlowTable v)
    (hlists : ∀ l ∈ asLists table, ∃ l₀ ∈ asLists t.uuidFlowTable, l.Sublist l₀) :
    ({ t with uuidFlowTable := table } : Tables μ α).Linked single D :=
  { h with
    keys := hkeys
    listed := fun u r => by
      rw [← h.listed u r, ← hflows u]
    alone := fun v r hr => by
      obtain ⟨hin, halone⟩ := h.alone v r (has v r hr)
      exact ⟨(hflows v).symm ▸ hin, halone⟩
    nodupRows := fun v => (hflows v).symm ▸ h.nodupRows v
    nodupAs := fun l hl => by
      obtain ⟨l₀, hl0, hsub⟩ := hlists l hl
      have hold := h.nodupAs l₀ hl0
      exact ⟨hold.1.sublist hsub, fun r hr => hold.2 r (hsub.subset hr)⟩ }

theorem matchFlowTable_trackAdd (c : Core μ α) (f : ℕ) :
    (c.trackFlowAddOrModify f).matchFlowTable = c.matchFlowTable := by
  unfold Core.trackFlowAddOrModify
  split <;> rfl

theorem nextFlow_trackAdd (c : Core μ α) (f : ℕ) :
    (c.trackFlowAddOrModify f).nextFlow = c.nextFlow := by
  unfold Core.trackFlowAddOrModify
  split <;> rfl

theorem Linked.insertFlow [DecidableEq μ] (h : t.Linked single []) (flow : OvnFlow μ α) : ({ t with
        toCore := t.toCore.insertFlow flow
        references := update t.references t.nextFlow [] } : Tables μ α).Linked single
      [t.nextFlow] := by
  have hne : ∀ g ∈ t.matchFlowTable, g ≠ t.nextFlow := fun g hg => Nat.ne_of_lt (h.freshFlows g hg)
  have hrefs : ∀ g ∈ t.matchFlowTable,
      update t.references t.nextFlow [] g = t.references g := fun g hg =>
    update_of_ne (hne g hg) _ _
  -- the new flow has no references
  have hold : ∀ g ∈ t.nextFlow :: t.matchFlowTable, ∀ r ∈ update t.references t.nextFlow [] g,
      g ∈ t.matchFlowTable ∧ r ∈ t.references g := by simp_all
  exact { h with
      owner := fun g hg r hr => h.owner g (hold g hg r hr).1 r (hold g hg r hr).2
      listed := fun u r => by
        rw [h.listed u r]
        refine and_congr_right fun _ => ⟨fun ⟨hm, _, hr⟩ => ?_, fun ⟨hm, _, hr⟩ => ?_⟩
        · refine ⟨mem_cons_of_mem _ hm, by simpa using hne _ hm, ?_⟩
          change r ∈ update t.references t.nextFlow [] (t.sfr r).flow
          rwa [hrefs _ hm]
        · exact ⟨(hold _ hm r hr).1, not_mem_nil, (hold _ hm r hr).2⟩
      once := fun hs g hg r hr r' hr' =>
        h.once hs g (hold g hg r hr).1 r (hold g hg r hr).2 r' (hold g hg r' hr').2
      referenced := fun g hg hD => by
        rcases mem_cons.1 hg with rfl | hg
        · exact absurd (mem_singleton_self _) hD
        · change update t.references t.nextFlow [] g ≠ []
          rw [hrefs g hg]
          exact h.referenced g hg not_mem_nil
      alone := fun u r hr => by
        obtain ⟨hin, halone⟩ := h.alone u r hr
        exact ⟨hin, (hrefs _ (h.of_rowFlows hin).1).trans halone⟩
      nodupRefs := fun g hg => by
        rcases mem_cons.1 hg with rfl | hg
        · simp
        · change (update t.references t.nextFlow [] g).Nodup
          rw [hrefs g hg]
          exact h.nodupRefs g hg
      freshRefs := fun g hg r hr => h.freshRefs g (hold g hg r hr).1 r (hold g hg r hr).2
      freshFlows := fun g hg => by
        rcases mem_cons.1 hg with rfl | hg
        · exact Nat.lt_succ_self _
        · exact Nat.lt_succ_of_lt (h.freshFlows g hg) }

theorem Linked.insertLinked [DecidableEq μ] (h : t.Linked single []) (flow : OvnFlow μ α) (u : ℕ)
    (asInfo : Option AddrsetInfo) : (t.insertLinked flow u asInfo).Linked single [] := by
  have hempty : update t.references t.nextFlow [] t.nextFlow = [] := update_self ..
  have hi := h.insertFlow flow
  refine Linked.core (Linked.linkFlowToSb hi mem_cons_self ?_ ?_ (fun _ => hempty) ?_)
    (matchFlowTable_trackAdd _ _) (nextFlow_trackAdd _ _)
  · simp
  · simp
  · exact fun v r hr => hi.ne_of_rowAs hr hempty

theorem Linked.checkAndAddFlowMetered [DecidableEq μ] (h : t.Linked single []) (flow : OvnFlow μ α)
    (u : ℕ) (asInfo : Option AddrsetInfo) :
    (t.checkAndAddFlowMetered flow u asInfo).Linked single [] := by
  unfold Tables.checkAndAddFlowMetered
  split
  · exact h
  · exact h.insertLinked flow u asInfo

/-- **Adding or appending a flow** keeps the lists in agreement, and each row has one reference to
    a flow as long as what is appended to is not yet referenced by the row. -/
theorem Linked.addOrAppendFlow [DecidableEq μ] [DecidableEq α] (h : t.Linked single [])
    (o : HashOrder ℕ) (flow : OvnFlow μ α) (u : ℕ) (asInfo : Option AddrsetInfo)
    (hs : single → ∀ f, t.desiredFlowLookupConjunctive o flow = some f →
      ∀ r ∈ t.references f, (t.sfr r).sbUuid ≠ u) :
    (t.addOrAppendFlow o flow u asInfo).Linked single [] := by
  unfold Tables.addOrAppendFlow
  split
  · exact h.insertLinked flow u asInfo
  next f hf =>
    have hm := (Core.lookupConjunctive_mem hf).1
    have hl : ∀ c : Core μ α, c.matchFlowTable = t.matchFlowTable → c.nextFlow = t.nextFlow →
        ({ t with
            toCore := c
            uuidFlowTable := (t.references f).foldl (fun table r =>
              modifyRow (·.sbUuid) (t.sfr r).sbUuid (SbToFlow.dropAs r) table) t.uuidFlowTable } :
          Tables μ α).Linked single [] := fun c hc hn =>
      (h.lessAs ((keys_foldl_drop (g := SbToFlow.dropAs) _ (fun _ _ => rfl) _ _).symm ▸ h.keys)
        (fun v => rowFlows_foldl_dropAs _ _ _) (fun v r hr => by
          rw [rowAs_foldl_dropAs] at hr
          exact mem_of_mem_filter hr)
        fun l hl => mem_asLists_foldl_drop _ (fun _ _ _ => rfl) _ _ hl).core hc hn
    refine Linked.core (Linked.linkFlowToSb (hl _ rfl rfl) hm (nofun)
      (fun hsingle => hs hsingle f hf) (fun hsome => absurd hsome (by simp)) ?_)
      (matchFlowTable_trackAdd _ _) (nextFlow_trackAdd _ _)
    intro v r hr he
    rw [rowAs_foldl_dropAs, mem_filter] at hr
    obtain ⟨hin, hnot⟩ := hr
    have hrow := (h.alone v r hin).1
    have hr' := (h.of_rowFlows hrow).2.2
    rw [he] at hr'
    simp [hr', h.uuid_of_rowFlows hrow] at hnot

end

end Tables

end Ovn.FlowTable

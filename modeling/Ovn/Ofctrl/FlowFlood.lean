/-
  Removing desired flows.

  No assertion of the removal functions fails, and the lists of references stay in agreement, as
  long as no flow has two references from one row.  With two of them, the flood removal meets the
  flow twice and aborts.
-/
import Ovn.Ofctrl.FlowRefs

namespace Ovn.FlowTable

open Function (update update_of_ne update_self)
open List

variable {μ α : Type}

namespace Core

/-- Flows are removed one after the other. -/
inductive Removes (c : Core μ α) : Core μ α → Prop
  | refl : Removes c c
  | step {c₁ c₂ : Core μ α} {f : ℕ} : Removes c c₁ → f ∈ c₁.matchFlowTable →
      c₁.removeFlow f = .ok c₂ → Removes c c₂

theorem Removes.trans {a b c : Core μ α} (hab : a.Removes b) (hbc : b.Removes c) : a.Removes c := by
  induction hbc with
  | refl => exact hab
  | step _ hf hok ih => exact ih.step hf hok

theorem unlinkInstalledToDesired_ok {c : Core μ α} {i d : ℕ}
    (h : (c.desired d).installedFlow = some i) :
    ∃ c', c.unlinkInstalledToDesired i d = .ok c' ∧ (c'.desired d).installedFlow = none ∧
      c'.matchFlowTable = c.matchFlowTable ∧ c'.nextFlow = c.nextFlow := by
  refine ⟨_, if_neg (not_not.2 h), ?_, rfl, rfl⟩
  simp [setDesired]

theorem removeFlow_ok (c : Core μ α) (f : ℕ) : ∃ c', c.removeFlow f = .ok c' ∧
    c'.matchFlowTable = c.matchFlowTable.filter (· ≠ f) ∧ c'.nextFlow = c.nextFlow := by
  unfold removeFlow trackOrDestroyForFlowDel
  split
  · unfold trackFlowDel
    split
    next hc => exact ⟨_, if_neg (not_not.2 hc.2), rfl, rfl⟩
    · exact ⟨_, rfl, rfl, rfl⟩
  · split
    next hi => exact ⟨_, if_neg (not_not.2 hi), rfl, rfl⟩
    next i hi =>
      obtain ⟨c', hc', hnone, hm, hn⟩ := unlinkInstalledToDesired_ok hi
      rw [hc']
      exact ⟨c', if_neg (not_not.2 hnone), hm, hn⟩

end Core

namespace Tables

variable {single : Prop} {D : List ℕ} {t : Tables μ α}

/-! ## Steps of a removal -/

/-- What a removal leaves alone: references, and what waits in `D`. -/
structure Removed (D : List ℕ) (t t' : Tables μ α) : Prop where
  core : t.toCore.Removes t'.toCore
  sfr : t'.sfr = t.sfr
  rows : t'.uuidFlowTable.length ≤ t.uuidFlowTable.length
  kept : ∀ f ∈ D, t'.references f = t.references f ∧ (f ∈ t.matchFlowTable → f ∈ t'.matchFlowTable)

theorem Removed.refl (D : List ℕ) (t : Tables μ α) : Removed D t t :=
  ⟨.refl, rfl, Nat.le_refl _, fun _ _ => ⟨rfl, id⟩⟩

theorem Removed.trans {t₁ t₂ t₃ : Tables μ α} (h : Removed D t₁ t₂) (h' : Removed D t₂ t₃) :
    Removed D t₁ t₃ :=
  ⟨h.core.trans h'.core, h'.sfr.trans h.sfr, Nat.le_trans h'.rows h.rows, fun f hf =>
    ⟨(h'.kept f hf).1.trans (h.kept f hf).1, fun hm => (h'.kept f hf).2 ((h.kept f hf).2 hm)⟩⟩

theorem Removed.mono {D' : List ℕ} {t' : Tables μ α} (h : Removed D t t') (hD : D' ⊆ D) :
    Removed D' t t' :=
  { h with kept := fun f hf => h.kept f (hD hf) }

variable {f : ℕ}

theorem Linked.removeFlow (h : t.Linked single (f :: D)) (hf : f ∈ t.matchFlowTable)
    (he : t.references f = []) :
    ∃ t', t.removeFlow f = .ok t' ∧ t'.Linked single D ∧ t'.listNodes = t.listNodes ∧
      t'.uuidFlowTable = t.uuidFlowTable ∧ ∀ K, f ∉ K → Removed K t t' := by
  obtain ⟨c, hc, hm, hn⟩ := t.toCore.removeFlow_ok f
  have hmem : ∀ g, g ∈ c.matchFlowTable ↔ g ∈ t.matchFlowTable ∧ g ≠ f := fun g => by
    rw [hm, mem_filter, decide_eq_true_iff]
  refine ⟨{ t with toCore := c }, ?_, ?_, rfl, rfl, fun K hK => ?_⟩
  · rw [Tables.removeFlow, if_neg (not_not.2 he), hc]
    rfl
  · exact { h with
        owner := fun g hg => h.owner g ((hmem g).1 hg).1
        listed := fun u r => by
          rw [h.listed u r]
          refine and_congr_right fun _ => ⟨fun ⟨hg, hnot, hr⟩ => ?_, fun ⟨hg, hnot, hr⟩ => ?_⟩
          · simp_all
          · simp_all
        once := fun hs g hg => h.once hs g ((hmem g).1 hg).1
        referenced := fun g hg hnot => h.referenced g ((hmem g).1 hg).1 fun hin =>
          (mem_cons.1 hin).elim ((hmem g).1 hg).2 hnot
        nodupRefs := fun g hg => h.nodupRefs g ((hmem g).1 hg).1
        freshRefs := fun g hg => h.freshRefs g ((hmem g).1 hg).1
        freshFlows := fun g hg => lt_of_lt_of_eq (h.freshFlows g ((hmem g).1 hg).1) hn.symm }
  · refine ⟨.step .refl hf hc, rfl, Nat.le_refl _, fun g hg => ⟨rfl, fun hgm => ?_⟩⟩
    exact (hmem g).2 ⟨hgm, fun he => hK (he ▸ hg)⟩

section
variable {r u x v g : ℕ}

theorem mem_references_unlink : x ∈ (t.unlinkRef r).references g ↔
    x ∈ t.references g ∧ ¬ (g = (t.sfr r).flow ∧ x = r) := by
  change x ∈ update t.references _ _ g ↔ _
  by_cases hg : g = (t.sfr r).flow
  · rw [hg]
    simp
  · simp [hg]

theorem Linked.unlinkRef {D' : List ℕ} (h : t.Linked single D) (hr : r ∈ rowFlows t.uuidFlowTable u)
    (hD : ∀ g, g ∈ D' ↔
      g ∈ D ∨ (g = (t.sfr r).flow ∧ (t.unlinkRef r).references (t.sfr r).flow = [])) :
    (t.unlinkRef r).Linked single D' := by
  obtain ⟨hfm, hfD, hrf⟩ := h.of_rowFlows hr
  have hsub : ∀ {g x}, x ∈ (t.unlinkRef r).references g → x ∈ t.references g := fun hx =>
    (mem_references_unlink.1 hx).1
  have hne : ∀ {g x}, x ∈ (t.unlinkRef r).references g → g ∈ t.matchFlowTable → x ≠ r := by
    intro g x hx hg he
    obtain ⟨hx, hnot⟩ := mem_references_unlink.1 hx
    rw [he] at hx
    exact hnot ⟨(h.owner g hg r hx).symm, he⟩
  have hrow : ∀ v, rowFlows (t.unlinkRef r).uuidFlowTable v = (rowFlows t.uuidFlowTable v).filter
    (· ≠ r) := by
    intro v
    rw [Tables.unlinkRef, rowFlows_dropRef]
    split
    · rfl
    next hv =>
      refine (filter_eq_self.2 fun x hx => ?_).symm
      rw [decide_eq_true_iff]
      rintro rfl
      exact hv (h.uuid_of_rowFlows hx).symm
  exact
    { keys := keys_dropRef.symm ▸ h.keys
      owner := fun g hg x hx => h.owner g hg x (hsub hx)
      listed := fun v x => by
        rw [hrow, mem_filter, decide_eq_true_iff, h.listed]
        constructor
        · rintro ⟨⟨hxu, hxm, hxD, hx⟩, hxr⟩
          have hx' : x ∈ (t.unlinkRef r).references (t.sfr x).flow :=
            mem_references_unlink.2 ⟨hx, fun hc => hxr hc.2⟩
          refine ⟨hxu, hxm, fun hd => ?_, hx'⟩
          rcases (hD _).1 hd with hd | ⟨he, hempty⟩
          · exact hxD hd
          · rw [show (t.sfr x).flow = (t.sfr r).flow from he, hempty] at hx'
            cases hx'
        · rintro ⟨hxu, hxm, hxD, hx⟩
          exact ⟨⟨hxu, hxm, fun hd => hxD ((hD _).2 (.inl hd)), hsub hx⟩, hne hx hxm⟩
      once := fun hs g hg x hx y hy => h.once hs g hg x (hsub hx) y (hsub hy)
      referenced := fun g hg hgD => by
        by_cases he : g = (t.sfr r).flow
        · simp_all
        · change update t.references _ _ g ≠ []
          rw [update_of_ne he]
          exact h.referenced g hg fun hd => hgD ((hD g).2 (.inl hd))
      alone := fun v x hx => by
        have hx' : x ∈ rowAs t.uuidFlowTable v ∧ x ≠ r := by
          rw [Tables.unlinkRef, rowAs_dropRef] at hx
          split at hx
          · simpa using hx
          next hv =>
            refine ⟨hx, ?_⟩
            rintro rfl
            exact hv (h.uuid_of_rowFlows (h.alone v x hx).1).symm
        obtain ⟨hin, halone⟩ := h.alone v x hx'.1
        refine ⟨?_, ?_⟩
        · simp_all
        · -- the flow of a tracked reference has no other
          have hne' : (t.sfr x).flow ≠ (t.sfr r).flow := by
            intro he
            rw [he] at halone
            rw [halone, mem_singleton] at hrf
            exact hx'.2 hrf.symm
          change update t.references _ _ (t.sfr x).flow = [x]
          rw [update_of_ne hne', halone]
      nodupRefs := fun g hg => by
        change (update t.references _ _ g).Nodup
        by_cases he : g = (t.sfr r).flow
        · rw [he, update_self]
          exact (h.nodupRefs _ hfm).filter _
        · rw [update_of_ne he]
          exact h.nodupRefs g hg
      nodupRows := fun v => (hrow v).symm ▸ (h.nodupRows v).filter _
      nodupAs := fun l hl => by
        rw [Tables.unlinkRef, asLists_dropRef] at hl
        obtain ⟨l₀, hl0, hsub⟩ := mem_asLists_dropAs hl
        exact ⟨(h.nodupAs l₀ hl0).1.sublist hsub, fun x hx => (h.nodupAs l₀ hl0).2 x
          (hsub.subset hx)⟩
      freshRefs := fun g hg x hx => h.freshRefs g hg x (hsub hx)
      freshFlows := h.freshFlows }

end

variable {r : ℕ}

theorem Removed.unlinkRef {K : List ℕ} (hK : (t.sfr r).flow ∉ K) : Removed K t (t.unlinkRef r) where
  core := .refl
  sfr := rfl
  rows := Nat.le_of_eq length_modifyRow
  kept _ hf := ⟨update_of_ne (ne_of_mem_of_not_mem hf hK) _ _, id⟩

theorem Linked.congr {D' : List ℕ} (h : t.Linked single D) (hD : ∀ f, f ∈ D' ↔ f ∈ D) :
    t.Linked single D' :=
  { h with
    listed := fun u r => by rw [h.listed u r, hD]
    referenced := fun f hf hnot => h.referenced f hf fun hin => hnot ((hD f).2 hin) }

theorem Linked.detachRefs (h : t.Linked single D) (hf : f ∈ t.matchFlowTable)
    (hne : t.references f ≠ []) :
    ∃ table, t.detachRefs f = .ok { t with uuidFlowTable := table } ∧
      table.length = t.uuidFlowTable.length ∧
      ({ t with uuidFlowTable := table } : Tables μ α).Linked single (f :: D) := by
  refine ⟨_, if_neg hne, ?_, ?_⟩
  · exact foldl_same (g := length) fun _ _ _ => length_modifyRow ..
  -- a reference is one of the flow where the flow is its owner
  have hown : ∀ {v x}, x ∈ rowFlows t.uuidFlowTable v →
      (¬ (x ∈ t.references f ∧ (t.sfr x).sbUuid = v) ↔ (t.sfr x).flow ≠ f) := by
    intro v x hx
    refine not_congr ⟨fun hc => h.owner f hf x hc.1, fun hc => ⟨?_, h.uuid_of_rowFlows hx⟩⟩
    exact hc ▸ (h.of_rowFlows hx).2.2
  exact { h with
      keys := (keys_foldl_drop (g := SbToFlow.dropRef) _ (fun _ _ => rfl) _ _).symm ▸ h.keys
      listed := fun v x => by
        rw [rowFlows_foldl_dropRef, mem_filter, decide_eq_true_iff, mem_cons, not_or]
        constructor
        · rintro ⟨hx, hnot⟩
          obtain ⟨hxu, hxm, hxD, hxr⟩ := (h.listed v x).1 hx
          exact ⟨hxu, hxm, ⟨(hown hx).1 hnot, hxD⟩, hxr⟩
        · rintro ⟨hxu, hxm, ⟨hxf, hxD⟩, hxr⟩
          have hx := (h.listed v x).2 ⟨hxu, hxm, hxD, hxr⟩
          exact ⟨hx, (hown hx).2 hxf⟩
      referenced := fun g hg hnot => h.referenced g hg fun hin => hnot (mem_cons_of_mem f hin)
      alone := fun v x hx => by
        rw [rowAs_foldl_dropRef, mem_filter] at hx
        obtain ⟨hin, halone⟩ := h.alone v x hx.1
        rw [rowFlows_foldl_dropRef, mem_filter]
        exact ⟨⟨hin, hx.2⟩, halone⟩
      nodupRows := fun v => by
        rw [rowFlows_foldl_dropRef]
        exact (h.nodupRows v).filter _
      nodupAs := fun l hl => by
        obtain ⟨l₀, hl0, hsub⟩ :=
          mem_asLists_foldl_drop _ (fun _ _ _ => asLists_dropRef) _ _ hl
        exact ⟨(h.nodupAs l₀ hl0).1.sublist hsub,
          fun x hx => (h.nodupAs l₀ hl0).2 x (hsub.subset hx)⟩ }

theorem Linked.dropDetached (h : t.Linked single D) (hf : f ∈ D) :
    ({ t with references := update t.references f ((t.references f).filter (· ≠ r)) } :
      Tables μ α).Linked single D := by
  have hsub : ∀ {g x}, x ∈ update t.references f ((t.references f).filter (· ≠ r)) g →
      x ∈ t.references g := by
    intro g x hx
    by_cases he : g = f
    · simp_all
    · rwa [update_of_ne he] at hx
  have hout : ∀ {g}, g ∉ D →
      update t.references f ((t.references f).filter (· ≠ r)) g = t.references g := by
    intro g hg
    exact update_of_ne (ne_of_mem_of_not_mem hf hg).symm _ _
  exact { h with
      owner := fun g hg x hx => h.owner g hg x (hsub hx)
      listed := fun v x => by
        rw [h.listed v x]
        refine and_congr_right fun _ => and_congr_right fun _ => and_congr_right fun hx => ?_
        dsimp only
        rw [hout hx]
      once := fun hs g hg x hx y hy => h.once hs g hg x (hsub hx) y (hsub hy)
      referenced := fun g hg hnot => by
        dsimp only
        rw [hout hnot]
        exact h.referenced g hg hnot
      alone := fun v x hx => by
        obtain ⟨hin, halone⟩ := h.alone v x hx
        exact ⟨hin, (hout (h.of_rowFlows hin).2.1).trans halone⟩
      nodupRefs := fun g hg => by
        dsimp only
        by_cases he : g = f
        · rw [he, update_self]
          exact (h.nodupRefs f (he ▸ hg)).filter _
        · rw [update_of_ne he]
          exact h.nodupRefs g hg
      freshRefs := fun g hg x hx => h.freshRefs g hg x (hsub hx) }

/-! ## Removing a row -/

/-- The removal functions fail only by an assertion, and not where the references are single. -/
def Aborts (single : Prop) (e : Fail) : Prop := e = .assertion ∧ ¬ single

variable {l : List ℕ}

theorem filter_ne_head (h : (r :: l).Nodup) : (r :: l).filter (· ≠ r) = l := by
  rw [filter_cons_of_neg (by simp)]
  refine filter_eq_self.2 fun x hx => ?_
  rw [decide_eq_true_iff]
  rintro rfl
  exact (nodup_cons.1 h).1 hx

/-- The state of the first loop: the references that are left, and the flows that wait for the
    other rows that they have. -/
structure Unlinking (single : Prop) (flood : Bool) (D : List ℕ) (u : ℕ) (t₀ : Tables μ α)
    (l : List ℕ) (s : Tables μ α × List ℕ) : Prop where
  linked : s.1.Linked single D
  left : rowFlows s.1.uuidFlowTable u = l
  keys : s.1.uuidFlowTable.map (·.sbUuid) = t₀.uuidFlowTable.map (·.sbUuid)
  nodes : ∀ f, f ∈ s.1.listNodes ↔ f ∈ s.2 ∨ f ∈ D
  nodup : s.2.Nodup
  waiting : ∀ f ∈ s.2, f ∈ s.1.matchFlowTable ∧ f ∉ D ∧
    (single → ∀ r ∈ s.1.references f, (s.1.sfr r).sbUuid ≠ u)
  quiet : flood = false → s.2 = []
  removed : Removed D t₀ s.1

theorem ends_removeRef {u : ℕ} {t₀ : Tables μ α} {s : Tables μ α × List ℕ} {flood : Bool}
    (h : Unlinking single flood D u t₀ (r :: l) s) :
    Ends (Aborts single) (Unlinking single flood D u t₀ l) (removeRef flood s r) := by
  obtain ⟨t, tbr⟩ := s
  have hr : r ∈ rowFlows t.uuidFlowTable u := h.left ▸ mem_cons_self
  obtain ⟨hfm, hfD, hrf⟩ := h.linked.of_rowFlows hr
  have hu := h.linked.uuid_of_rowFlows hr
  have hkeys : (t.unlinkRef r).uuidFlowTable.map (·.sbUuid) = t₀.uuidFlowTable.map (·.sbUuid) :=
    keys_dropRef.trans h.keys
  have hleft : rowFlows (t.unlinkRef r).uuidFlowTable u = l := by
    rw [Tables.unlinkRef, rowFlows_dropRef, if_pos hu.symm]
    have hnodup := h.linked.nodupRows u
    rw [h.left] at hnodup ⊢
    exact filter_ne_head hnodup
  have hwait : ∀ f ∈ tbr, f ∈ t.matchFlowTable ∧ f ∉ D ∧
      (single → ∀ x ∈ (t.unlinkRef r).references f, (t.sfr x).sbUuid ≠ u) := fun f hf =>
    ⟨(h.waiting f hf).1, (h.waiting f hf).2.1, fun hs x hx =>
      (h.waiting f hf).2.2 hs x (mem_references_unlink.1 hx).1⟩
  have hremoved : Removed D t₀ (t.unlinkRef r) := h.removed.trans (Removed.unlinkRef hfD)
  unfold removeRef
  dsimp only
  split
  · -- the flow waits already: it had two references from the row
    rename_i hin
    refine ⟨rfl, fun hs => ?_⟩
    rcases (h.nodes _).1 hin with hin | hin
    · exact (h.waiting _ hin).2.2 hs r hrf hu
    · exact hfD hin
  rename_i hnot
  have htbr : (t.sfr r).flow ∉ tbr := fun hin => hnot ((h.nodes _).2 (.inl hin))
  split
  next hempty =>
    have hl : (t.unlinkRef r).Linked single ((t.sfr r).flow :: D) :=
      h.linked.unlinkRef hr fun g => by simp [hempty, or_comm]
    obtain ⟨t', hok, hl', hnodes, htable, hrem⟩ := hl.removeFlow hfm hempty
    rw [hok]
    exact
      { linked := hl'
        left := htable.symm ▸ hleft
        keys := htable.symm ▸ hkeys
        nodes := fun f => hnodes.symm ▸ h.nodes f
        nodup := h.nodup
        waiting := fun f hf => by
          have hkept := (hrem tbr htbr).kept f hf
          obtain ⟨hm, hD, hs⟩ := hwait f hf
          refine ⟨hkept.2 hm, hD, ?_⟩
          rw [hkept.1, (hrem tbr htbr).sfr]
          exact hs
        quiet := h.quiet
        removed := hremoved.trans (hrem D hfD) }
  rename_i hne
  have hl : (t.unlinkRef r).Linked single D := h.linked.unlinkRef hr fun g => by simp [hne]
  split
  next hflood =>
    exact
      { linked := hl.listNodes _
        left := hleft
        keys := hkeys
        nodes := fun f => by
          rw [mem_cons, mem_append, mem_singleton, or_assoc, or_left_comm]
          exact or_congr_right (h.nodes f)
        nodup := nodup_append_comm.2 (nodup_cons.2 ⟨htbr, h.nodup⟩)
        waiting := fun f hf => by
          rcases mem_append.1 hf with hf | hf
          · exact hwait f hf
          · rw [mem_singleton.1 hf]
            refine ⟨hfm, hfD, fun hs x hx hxu => ?_⟩
            obtain ⟨hx, hxr⟩ := mem_references_unlink.1 hx
            exact hxr ⟨rfl, h.linked.once hs _ hfm x hx r hrf (hxu.trans hu.symm)⟩
        quiet := fun hq => absurd hflood (by simp [hq])
        removed := { hremoved with } }
  · exact ⟨hl, hleft, hkeys, h.nodes, h.nodup, hwait, h.quiet, hremoved⟩

/-- Nothing waits but what is detached, and that is still in the table. -/
structure Ready (single : Prop) (D : List ℕ) (t : Tables μ α) : Prop where
  linked : t.Linked single D
  nodes : ∀ f, f ∈ t.listNodes ↔ f ∈ D
  present : ∀ f ∈ D, f ∈ t.matchFlowTable

/-- **A row is removed**, with the references that it has. -/
theorem ends_removeRow {stf : SbToFlow} (flood : Bool) (h : Ready single D t)
    (hstf : t.sbToFlowFind stf.sbUuid = some stf) :
    Ends (Aborts single)
      (fun s => s.1.Linked single D ∧ (∀ f, f ∈ s.1.listNodes ↔ f ∈ s.2 ∨ f ∈ D) ∧
      s.2.Nodup ∧ (∀ f ∈ s.2, f ∈ s.1.matchFlowTable ∧ f ∉ D) ∧ (flood = false → s.2 = []) ∧
      Removed D t s.1 ∧ s.1.uuidFlowTable.length < t.uuidFlowTable.length)
        (t.removeRow flood stf) := by
  have hrow : rowFlows t.uuidFlowTable stf.sbUuid = stf.flows := by
    have : rowOf (·.sbUuid) t.uuidFlowTable stf.sbUuid = some stf := hstf
    rw [rowFlows, rowList, this]
    rfl
  have h0 : Unlinking single flood D stf.sbUuid t stf.flows (t, []) :=
    { linked := h.linked
      left := hrow
      keys := rfl
      nodes := fun f => by simp [h.nodes f]
      nodup := nodup_nil
      waiting := forall_mem_nil _
      quiet := fun _ => rfl
      removed := Removed.refl D t }
  refine Ends.bind (Ends.foldlM (I := Unlinking single flood D stf.sbUuid t)
    (fun r l s hs => ends_removeRef hs) stf.flows (t, []) h0) ?_
  rintro ⟨t', tbr⟩ h'
  have hflows : rowFlows t'.uuidFlowTable stf.sbUuid = [] := h'.left
  have has : rowAs t'.uuidFlowTable stf.sbUuid = [] := by
    refine eq_nil_iff_forall_not_mem.2 fun r hr => ?_
    have := (h'.linked.alone _ r hr).1
    rw [hflows] at this
    cases this
  have hmem : stf.sbUuid ∈ t'.uuidFlowTable.map (·.sbUuid) := by
    have hk : t'.uuidFlowTable.map (·.sbUuid) = t.uuidFlowTable.map (·.sbUuid) := h'.keys
    rw [hk]
    exact isSome_rowOf.1 (Option.isSome_iff_exists.2 ⟨stf, hstf⟩)
  obtain ⟨row, hin, hk⟩ := mem_map.1 hmem
  have hlt : (dropRow (·.sbUuid) stf.sbUuid t'.uuidFlowTable).length < t.uuidFlowTable.length := by
    rw [← hk]
    exact Nat.lt_of_lt_of_le (length_dropRow_lt hin) h'.removed.rows
  have hassert : ((t'.sbToFlowFind stf.sbUuid).map (·.asRefs)).getD [] = [] := has
  dsimp only
  rw [if_neg (not_not.2 hassert)]
  refine ⟨h'.linked.lessAs (nodup_dropRow h'.linked.keys) (fun v => ?_) (fun v r hr => ?_)
    fun l hl => ?_, h'.nodes, h'.nodup,
    fun f hf => ⟨(h'.waiting f hf).1, (h'.waiting f hf).2.1⟩, h'.quiet, ?_, hlt⟩
  · simp_all [rowFlows, rowList_dropRow]
  · simp_all [rowAs, rowList_dropRow]
  · exact ⟨l, mem_asLists_dropRow hl, List.Sublist.refl l⟩
  · exact ⟨h'.removed.core, h'.removed.sfr, Nat.le_of_lt hlt, h'.removed.kept⟩

/-! ## The flood -/

/-- A function that removes rows from tables of `n` rows at most. -/
def RemovesRows (single : Prop) (n : ℕ) (remove : Removal μ α) : Prop :=
  ∀ (D : List ℕ) (s : Tables μ α × List ℕ) (stf : SbToFlow), Ready single D s.1 →
    s.1.sbToFlowFind stf.sbUuid = some stf → s.1.uuidFlowTable.length ≤ n →
    Ends (Aborts single) (fun s' => Ready single D s'.1 ∧ Removed D s.1 s'.1) (remove s stf)

section
variable {n : ℕ} {remove : Removal μ α} {s : Tables μ α × List ℕ} {f : ℕ}

theorem ends_floodRemoveUuid (hremove : RemovesRows single n remove) (h : Ready single D s.1)
    (hn : s.1.uuidFlowTable.length ≤ n) (u : ℕ) :
    Ends (Aborts single) (fun s' => Ready single D s'.1 ∧ Removed D s.1 s'.1)
      (floodRemoveUuid remove s u) := by
  unfold floodRemoveUuid
  split
  · exact ⟨h, Removed.refl D s.1⟩
  next stf hstf =>
    have hu : stf.sbUuid = u := (mem_of_rowOf hstf).2
    exact hremove D s stf h (hu ▸ hstf) hn

/-- The state of the last loop, with the references that the flow has left. -/
def Flooding (single : Prop) (D : List ℕ) (t₀ : Tables μ α) (f : ℕ) (rs : List ℕ)
    (s : Tables μ α × List ℕ) : Prop :=
  Ready single (f :: D) s.1 ∧ s.1.references f = rs ∧ Removed D t₀ s.1

theorem ends_floodRef {t₀ : Tables μ α} {r : ℕ} {rs : List ℕ}
    (hremove : RemovesRows single n remove)
    (hn : t₀.uuidFlowTable.length ≤ n) (hf : f ∉ D) (h : Flooding single D t₀ f (r :: rs) s) :
    Ends (Aborts single) (Flooding single D t₀ f rs) (floodRef remove f s r) := by
  obtain ⟨hready, hrefs, hrem⟩ := h
  refine Ends.bind (Q := fun s' => Ready single (f :: D) s'.1 ∧ Removed (f :: D) s.1 s'.1) ?_ ?_
  · split
    · exact ⟨hready, Removed.refl _ s.1⟩
    · exact ends_floodRemoveUuid hremove (s := (s.1, _ :: s.2)) hready (Nat.le_trans hrem.rows hn) _
  · rintro s' ⟨hready', hrem'⟩
    -- the recursion left the references of the waiting flow alone
    have hrefs' : s'.1.references f = r :: rs := (hrem'.kept f mem_cons_self).1.trans hrefs
    have hnodup : (r :: rs).Nodup :=
      hrefs' ▸ hready'.linked.nodupRefs f (hready'.present f mem_cons_self)
    have hrem'' := hrem.trans (hrem'.mono (subset_cons_self f D))
    refine ⟨⟨hready'.linked.dropDetached mem_cons_self, hready'.nodes, hready'.present⟩, ?_, ?_⟩
    · dsimp only
      rw [update_self, hrefs', filter_ne_head hnodup]
    · refine ⟨hrem''.core, hrem''.sfr, hrem''.rows, fun g hg => ⟨?_, (hrem''.kept g hg).2⟩⟩
      dsimp only
      rw [update_of_ne (ne_of_mem_of_not_mem hg hf), (hrem''.kept g hg).1]

theorem ends_floodFlow (hremove : RemovesRows single n remove) (h : Ready single (f :: D) s.1)
    (hn : s.1.uuidFlowTable.length ≤ n) (hf : f ∉ D) :
    Ends (Aborts single) (fun s' => Ready single D s'.1 ∧ Removed D s.1 s'.1)
      (floodFlow remove s f) := by
  refine Ends.bind (Ends.foldlM (I := Flooding single D s.1 f)
    (fun r rs s' h' => ends_floodRef hremove hn hf h') _ s ⟨h, rfl, Removed.refl D s.1⟩) ?_
  rintro s' ⟨h', hrefs, hrem⟩
  obtain ⟨t', hok, hl, hnodes, -, hrem'⟩ :=
    (h'.linked.listNodes (s'.1.listNodes.filter (· ≠ f))).removeFlow (h'.present f mem_cons_self)
      hrefs
  rw [hok]
  have hrem'' := hrem' D hf
  refine ⟨⟨hl, fun g => ?_, fun g hg => (hrem''.kept g hg).2 (h'.present g (mem_cons_of_mem f hg))⟩,
    hrem.trans ⟨hrem''.core, hrem''.sfr, hrem''.rows, hrem''.kept⟩⟩
  rw [hnodes, mem_filter, h'.nodes, decide_eq_true_iff, mem_cons]
  constructor
  · rintro ⟨hg | hg, hne⟩
    · exact absurd hg hne
    · exact hg
  · exact fun hg => ⟨.inr hg, ne_of_mem_of_not_mem hg hf⟩

end

theorem ends_detachRefs {tbr : List ℕ} (h : t.Linked single D)
    (htbr : ∀ f ∈ tbr, f ∈ t.matchFlowTable ∧ f ∉ D) :
    Ends (Aborts single) (fun t' => t'.Linked single (tbr ++ D) ∧ t'.toCore = t.toCore ∧
      t'.references = t.references ∧ t'.sfr = t.sfr ∧ t'.listNodes = t.listNodes ∧
      t'.uuidFlowTable.length = t.uuidFlowTable.length) (tbr.foldlM detachRefs t) := by
  refine Ends.foldlM_done (R := fun done (t' : Tables μ α) => t'.Linked single (done ++ D) ∧
    t'.toCore = t.toCore ∧
    t'.references = t.references ∧ t'.sfr = t.sfr ∧ t'.listNodes = t.listNodes ∧
    t'.uuidFlowTable.length = t.uuidFlowTable.length) ?_ ⟨h, rfl, rfl, rfl, rfl, rfl⟩
  rintro done f t' hpre ⟨hl, hcore, hrefs, hsfr, hnodes, hlen⟩
  have hf := hpre.subset mem_concat_self
  have hne : t'.references f ≠ [] := hrefs ▸ h.referenced f (htbr f hf).1 (htbr f hf).2
  have hm : f ∈ t'.matchFlowTable := hcore ▸ (htbr f hf).1
  obtain ⟨table, hok, hlen', hl'⟩ := hl.detachRefs hm hne
  rw [hok]
  refine ⟨hl'.congr fun g => ?_, hcore, hrefs, hsfr, hnodes, hlen'.trans hlen⟩
  simp only [mem_append, mem_cons]
  exact ⟨fun h => by tauto, fun h => by tauto⟩

/-- **The flood removal** of a row with everything that shares flows with it. -/
theorem ends_floodRemove (single : Prop) : ∀ fuel, RemovesRows single fuel
      (floodRemove fuel : Removal μ α)
  | 0, D, s, stf, _, hstf, hn => by
    have hin := (mem_of_rowOf hstf).1
    rw [length_eq_zero_iff.1 (Nat.le_zero.1 hn)] at hin
    cases hin
  | fuel + 1, D, s, stf, h, hstf, hn => by
    refine Ends.bind (ends_removeRow true h hstf) ?_
    rintro ⟨t₁, tbr⟩ ⟨hl1, hnodes1, hnodup, htbr, -, hrem1, hlt⟩
    refine Ends.bind (ends_detachRefs hl1 htbr) ?_
    rintro t₂ ⟨hl2, hcore, hrefs, hsfr, hnodes, hlen⟩
    have hrem2 : Removed D t₁ t₂ :=
      ⟨hcore ▸ .refl, hsfr, Nat.le_of_eq hlen, fun f _ => ⟨by rw [hrefs], fun hm => hcore ▸ hm⟩⟩
    have hready : Ready single (tbr ++ D) t₂ := by
      refine ⟨hl2, fun f => ?_, fun f hf => ?_⟩
      · rw [hnodes, mem_append]
        exact hnodes1 f
      · rw [hcore]
        rcases mem_append.1 hf with hf | hf
        · exact (htbr f hf).1
        · exact (hrem1.kept f hf).2 (h.present f hf)
    have hlen2 : t₂.uuidFlowTable.length ≤ fuel := by
      rw [hlen]
      exact Nat.le_of_lt_succ (Nat.lt_of_lt_of_le hlt hn)
    have hloop := Ends.foldlM (E := Aborts single) (f := floodFlow (floodRemove fuel))
      (I := fun l (s' : Tables μ α × List ℕ) => l.Nodup ∧ (∀ f ∈ l, f ∉ D) ∧
        Ready single (l ++ D) s'.1 ∧ Removed D t₂ s'.1) ?_ tbr (t₂, s.2)
      ⟨hnodup, fun f hf => (htbr f hf).2, hready, Removed.refl D t₂⟩
    · exact hloop.mono fun s' hs' => ⟨hs'.2.2.1, (hrem1.trans hrem2).trans hs'.2.2.2⟩
    · rintro f l s' ⟨hnd, hD, hr, hrm⟩
      obtain ⟨hfl, hnd⟩ := nodup_cons.1 hnd
      have hfD : f ∉ l ++ D := fun hin => (mem_append.1 hin).elim hfl (hD f mem_cons_self)
      refine (ends_floodFlow (ends_floodRemove single fuel) hr (Nat.le_trans hrm.rows hlen2)
        hfD).mono ?_
      rintro s'' ⟨hr'', hrm''⟩
      exact ⟨hnd, (forall_mem_cons.1 hD).2, hr'', hrm.trans (hrm''.mono (subset_append_right l D))⟩

/-! ## The removal functions -/

theorem ends_removeFlows (h : Ready single [] t) (u : ℕ) :
    Ends (Aborts single) (fun t' => Ready single [] t' ∧ t.toCore.Removes t'.toCore)
      (t.removeFlows u) := by
  unfold removeFlows
  split
  · exact ⟨h, .refl⟩
  next stf hstf =>
    have hu : stf.sbUuid = u := (mem_of_rowOf hstf).2
    refine Ends.map ((ends_removeRow false h (hu ▸ hstf)).mono ?_)
    rintro ⟨t', tbr⟩ ⟨hl, hnodes, -, -, hquiet, hrem, -⟩
    obtain rfl : tbr = [] := hquiet rfl
    refine ⟨⟨hl, fun f => ?_, nofun⟩, hrem.core⟩
    rw [hnodes f]
    exact or_self_iff

theorem ends_floodRemoveFlows (h : Ready single [] t) (nodes : List ℕ) :
    Ends (Aborts single) (fun t' => Ready single [] t' ∧ t.toCore.Removes t'.toCore)
      (t.floodRemoveFlows nodes) := by
  refine Ends.map ((Ends.foldlM (I := fun _ (s : Tables μ α × List ℕ) =>
    Ready single [] s.1 ∧ Removed [] t s.1) ?_ nodes (t, nodes) ⟨h, Removed.refl [] t⟩).mono
    fun s hs => ⟨hs.1, hs.2.core⟩)
  rintro u l s ⟨hready, hrem⟩
  refine (ends_floodRemoveUuid (ends_floodRemove single _) hready hrem.rows u).mono ?_
  exact fun s' hs' => ⟨hs'.1, hrem.trans hs'.2⟩

/-- The loop of `ofctrl_remove_flows_for_as_ip`, with the references that are left. -/
theorem ends_removeAsRef {u : ℕ} {c₀ : Core μ α} (h : Ready single [] t) (hl : (r :: l).Nodup)
    (has : ∀ x ∈ r :: l, x ∈ rowAs t.uuidFlowTable u) (hc : c₀.Removes t.toCore) :
    Ends (Aborts single) (fun t' => Ready single [] t' ∧ l.Nodup ∧
      (∀ x ∈ l, x ∈ rowAs t'.uuidFlowTable u) ∧ c₀.Removes t'.toCore) (removeAsRef t r) := by
  obtain ⟨hr, halone⟩ := h.linked.alone u r (has r mem_cons_self)
  have hfm := (h.linked.of_rowFlows hr).1
  have hnodes : t.listNodes = [] := eq_nil_iff_forall_not_mem.2 fun f hf =>
    not_mem_nil ((h.nodes f).1 hf)
  have hempty : (t.unlinkRef r).references (t.sfr r).flow = [] := by
    refine (update_self ..).trans ?_
    rw [halone]
    simp
  have hunlink : (t.unlinkRef r).Linked single [(t.sfr r).flow] :=
    h.linked.unlinkRef hr fun g => by simp [hempty]
  obtain ⟨t', hok, hl', hnodes', htable, hrem⟩ := hunlink.removeFlow hfm hempty
  unfold removeAsRef
  rw [if_neg (not_not.2 halone)]
  rw [if_neg (by rw [show (t.unlinkRef r).listNodes = t.listNodes from rfl, hnodes]; simp), hok]
  refine ⟨⟨hl', fun f => ?_, nofun⟩, (nodup_cons.1 hl).2,
    fun x hx => ?_, hc.trans (hrem [] not_mem_nil).core⟩
  · rw [hnodes', show (t.unlinkRef r).listNodes = t.listNodes from rfl, hnodes]
  · have hx' := has x (mem_cons_of_mem r hx)
    rw [htable, Tables.unlinkRef, rowAs_dropRef]
    split
    · exact mem_filter.2 ⟨hx', by simpa using ne_of_mem_of_not_mem hx (nodup_cons.1 hl).1⟩
    · exact hx'

theorem ends_removeFlowsForAsIp (h : Ready single [] t) (u : ℕ) (info : AddrsetInfo) (n : ℕ) :
    Ends (Aborts single) (fun s => Ready single [] s.1 ∧ t.toCore.Removes s.1.toCore)
      (t.removeFlowsForAsIp u info n) := by
  unfold removeFlowsForAsIp
  split
  · exact ⟨h, .refl⟩
  rename_i stf hstf
  split
  · exact ⟨h, .refl⟩
  rename_i sar hsar
  split
  · exact ⟨h, .refl⟩
  rename_i itfn hitfn
  obtain ⟨hsar, -⟩ := mem_of_rowOf hsar
  obtain ⟨hitfn, -⟩ := mem_of_rowOf hitfn
  have hrow : rowAs t.uuidFlowTable u = stf.asRefs := by
    have : rowOf (·.sbUuid) t.uuidFlowTable u = some stf := hstf
    rw [rowAs, rowList, this]
    rfl
  have hlist : itfn.flows ∈ asLists t.uuidFlowTable := mem_flatMap.2
    ⟨stf, (mem_of_rowOf hstf).1, mem_flatMap.2 ⟨sar, hsar, mem_map.2 ⟨itfn, hitfn, rfl⟩⟩⟩
  have hin : ∀ x ∈ itfn.flows, x ∈ rowAs t.uuidFlowTable u := fun x hx => hrow.symm ▸
    mem_flatMap.2 ⟨sar, hsar, mem_flatMap.2 ⟨itfn, hitfn, hx⟩⟩
  refine Ends.bind (Ends.foldlM (I := fun l (t' : Tables μ α) => Ready single [] t' ∧ l.Nodup ∧
    (∀ x ∈ l, x ∈ rowAs t'.uuidFlowTable u) ∧ t.toCore.Removes t'.toCore)
    (fun r l t' ht' => ends_removeAsRef ht'.1 ht'.2.1 ht'.2.2.1 ht'.2.2.2) itfn.flows t
    ⟨h, (h.linked.nodupAs _ hlist).1, hin, .refl⟩) ?_
  rintro t' ⟨h', -, -, hc⟩
  refine ⟨⟨h'.linked.lessAs ?_ (fun v => ?_) (fun v r hr => ?_) fun l hl => ?_, h'.nodes,
    h'.present⟩, hc⟩
  · rw [map_modifyRow fun _ => by rfl]
    exact h'.linked.keys
  · exact (rowList_modifyRow id rfl (by intro _; rfl) (by intro _; rfl)).trans (ite_self _)
  · refine mem_rowList_modifyRow (by intro _; rfl) ?_ hr
    intro stf x hx
    obtain ⟨sar, hsar, hx⟩ := mem_flatMap.1 hx
    rcases mem_modifyRow hsar with hsar | ⟨sar, hset, rfl⟩
    · exact mem_flatMap.2 ⟨sar, hsar, hx⟩
    · obtain ⟨n, hn, hx⟩ := mem_flatMap.1 hx
      exact mem_flatMap.2 ⟨sar, hset, mem_flatMap.2 ⟨n, mem_of_mem_filter hn, hx⟩⟩
  · refine ⟨l, ?_, List.Sublist.refl l⟩
    simp only [asLists, mem_flatMap, mem_map] at hl ⊢
    obtain ⟨stf, hstf, sar, hsar, n, hn, rfl⟩ := hl
    rcases mem_modifyRow hstf with hstf | ⟨stf, hrow, rfl⟩
    · exact ⟨stf, hstf, sar, hsar, n, hn, rfl⟩
    · rcases mem_modifyRow hsar with hsar | ⟨sar, hset, rfl⟩
      · exact ⟨stf, hrow, sar, hsar, n, hn, rfl⟩
      · exact ⟨stf, hrow, sar, hset, n, mem_of_mem_filter hn, rfl⟩

/-! ## Clearing and installing -/

theorem Ready.core (h : Ready single D t) {c : Core μ α} (hm : c.matchFlowTable = t.matchFlowTable)
    (hn : c.nextFlow = t.nextFlow) : Ready single D ({ t with toCore := c } : Tables μ α) :=
  ⟨h.linked.core hm hn, h.nodes, fun f hf => hm.symm ▸ h.present f hf⟩

theorem Ready.same (h : Ready single D t) {c : Core μ α} (hc : t.toCore.Same c) :
    Ready single D ({ t with toCore := c } : Tables μ α) := h.core hc.matchFlowTable hc.nextFlow

theorem ends_desiredFlowDestroy (h : Ready single D t) (f : ℕ) :
    Ends (fun _ => True) (Ready single D) (t.desiredFlowDestroy f) := by
  unfold desiredFlowDestroy
  split
  · trivial
  · exact Ends.map ((Core.same_desiredFlowDestroy f).mono fun c hc => h.same hc)

theorem ends_clearTracked (h : Ready single D t) (f : ℕ) :
    Ends (fun _ => True) (Ready single D) (clearTracked t f) := by
  have h' := h.same (Core.same_untrack f)
  unfold clearTracked
  dsimp only
  split
  · split
    · exact ends_desiredFlowDestroy h' f
    · refine Ends.bind (Core.same_unlinkInstalledToDesired _ f) fun c hc => ?_
      exact ends_desiredFlowDestroy (h'.same hc) f
  · exact h'

theorem ends_desiredFlowTableClear (h : Ready single [] t) :
    Ends (fun _ => True) (Ready single []) t.desiredFlowTableClear := by
  have h' : Ready single [] ({ t with changeTracked := false } : Tables μ α) := h.core rfl rfl
  refine Ends.bind (Ends.foldlM (I := fun _ => Ready single [])
    (fun f _ t' ht' => ends_clearTracked ht' f) _ _ h') fun t' ht' => ?_
  exact Ends.foldlM (fun u _ t₂ ht2 =>
    ((ends_removeFlows ht2 u).mono fun t₃ ht3 => ht3.1).weaken fun _ _ => trivial) _ t' ht'

theorem ends_installedFlowTableClear (h : Ready single [] t) :
    Ends (fun _ => True) (Ready single []) t.installedFlowTableClear := by
  refine Ends.map (Ends.mono ?_ fun c hc => h.same hc)
  refine Core.EndsSame.foldlM (fun c i => ?_) _
  have hsame : c.Same { c with installedFlows := c.installedFlows.filter (· ≠ i) } :=
    ⟨rfl, rfl, rfl, fun _ => rfl, fun _ => rfl⟩
  exact Core.EndsSame.of_same hsame
    (Core.EndsSame.bind (Core.same_unlinkAllRefs i) fun c' => Core.same_installedFlowDestroy i)

theorem ends_put [DecidableEq μ] [DecidableEq α] (fits : FlowMod μ α → Bool) (h : Ready single [] t)
    (o : Orders) (changed : Bool) :
    Ends (fun _ => True) (Ready single []) (t.put fits o changed) := by
  refine Ends.bind (Q := t.toCore.Same) ?_ fun c hc => ?_
  · split
    · exact Core.Same.refl _
    · split
      · exact Core.same_updateInstalledFlowsByCompare fits o
      · split
        · trivial
        · exact Core.same_updateInstalledFlowsByTrack fits o
  · split
    · trivial
    · exact h.core hc.matchFlowTable hc.nextFlow

/-! ## Every run -/

structure Consistent (t : Tables μ α) : Prop where
  /-- A flow and a row have one reference at most between them. -/
  single : ∀ f ∈ t.matchFlowTable, ∀ u,
    (t.references f).countP (fun r => decide ((t.sfr r).sbUuid = u)) ≤ 1
  /-- The flows and the rows list the same references. -/
  same : ∀ f u r, (f ∈ t.matchFlowTable ∧ r ∈ t.references f ∧ (t.sfr r).sbUuid = u) ↔
    ∃ stf ∈ t.uuidFlowTable, stf.sbUuid = u ∧ r ∈ stf.flows ∧ (t.sfr r).flow = f
  /-- A reference that is tracked by an address is the only one of its flow. -/
  alone : ∀ stf ∈ t.uuidFlowTable, ∀ r ∈ stf.asRefs, t.references (t.sfr r).flow = [r]
  referenced : ∀ f ∈ t.matchFlowTable, t.references f ≠ []

theorem Linked.consistent (h : t.Linked True []) : t.Consistent where
  single f hf u := by
    have hnodup := (h.nodupRefs f hf).filter fun r => decide ((t.sfr r).sbUuid = u)
    have hmem : ∀ r ∈ (t.references f).filter (fun r => decide ((t.sfr r).sbUuid = u)),
        r ∈ t.references f ∧ (t.sfr r).sbUuid = u := by
      simp
    rw [countP_eq_length_filter]
    revert hnodup hmem
    generalize (t.references f).filter _ = l
    intro hnodup hmem
    match l with
    | [] => exact Nat.zero_le 1
    | [_] => exact Nat.le_refl 1
    | a :: b :: l =>
      have ha := hmem a mem_cons_self
      have hb := hmem b (mem_cons_of_mem a mem_cons_self)
      have hab : a = b := h.once trivial f hf a ha.1 b hb.1 (ha.2.trans hb.2.symm)
      exact absurd (hab ▸ mem_cons_self) (nodup_cons.1 hnodup).1
  same f u r := by
    constructor
    · rintro ⟨hf, hr, hu⟩
      have how := h.owner f hf r hr
      have hrow : r ∈ rowFlows t.uuidFlowTable u :=
        (h.listed u r).2 ⟨hu, how.symm ▸ hf, not_mem_nil, how.symm ▸ hr⟩
      obtain ⟨stf, hin, hk, hx⟩ := (mem_rowList h.keys).1 hrow
      exact ⟨stf, hin, hk, hx, how⟩
    · rintro ⟨stf, hin, hk, hx, rfl⟩
      have hrow : r ∈ rowFlows t.uuidFlowTable u := (mem_rowList h.keys).2 ⟨stf, hin, hk, hx⟩
      obtain ⟨hm, -, hr⟩ := h.of_rowFlows hrow
      exact ⟨hm, hr, h.uuid_of_rowFlows hrow⟩
  alone stf hin r hr := (h.alone stf.sbUuid r ((mem_rowList h.keys).2 ⟨stf, hin, rfl, hr⟩)).2
  referenced f hf := h.referenced f hf not_mem_nil

end Tables

section
variable [DecidableEq μ] [DecidableEq α]

/-- Where the flow is appended to one of the table, the row does not reference that one yet. -/
def Call.New (t : Tables μ α) : Call μ α → Prop
  | .addOrAppendFlow o flow u _ =>
    ∀ f ∈ t.desiredFlowLookupConjunctive o flow, ∀ r ∈ t.references f, (t.sfr r).sbUuid ≠ u
  | _ => True

def Op.New (t : Tables μ α) : Op μ α → Prop
  | .call c => c.New t
  | _ => True

instance (t : Tables μ α) : ∀ c : Call μ α, Decidable (c.New t)
  | .addOrAppendFlow o flow u _ =>
    inferInstanceAs (Decidable (∀ f ∈ t.desiredFlowLookupConjunctive o flow,
      ∀ r ∈ t.references f, (t.sfr r).sbUuid ≠ u))
  | .addFlow .. | .removeFlows _ | .floodRemoveFlows _ | .removeFlowsForAsIp .. =>
    inferInstanceAs (Decidable True)

instance (t : Tables μ α) : ∀ op : Op μ α, Decidable (op.New t)
  | .call c => inferInstanceAs (Decidable (c.New t))
  | .clear | .put .. | .clearInstalled => inferInstanceAs (Decidable True)

variable {t : Tables μ α}

theorem Call.ends_run {single : Prop} (h : t.Ready single []) (c : Call μ α)
    (hc : single → c.New t) :
    Ends (Tables.Aborts single) (Tables.Ready single []) (c.run t) := by
  have hempty : ∀ {t' : Tables μ α}, t'.listNodes = t.listNodes → t'.Linked single [] →
      t'.Ready single [] := fun hn hl =>
    ⟨hl, fun f => hn ▸ h.nodes f, nofun⟩
  cases c with
  | addFlow flow u asInfo =>
    refine hempty ?_ (h.linked.checkAndAddFlowMetered flow u asInfo)
    unfold Tables.checkAndAddFlowMetered
    split <;> rfl
  | addOrAppendFlow o flow u asInfo =>
    refine hempty ?_ (h.linked.addOrAppendFlow o flow u asInfo hc)
    unfold Tables.addOrAppendFlow
    split <;> rfl
  | removeFlows u => exact (Tables.ends_removeFlows h u).mono fun _ ht => ht.1
  | floodRemoveFlows nodes => exact (Tables.ends_floodRemoveFlows h nodes).mono fun _ ht => ht.1
  | removeFlowsForAsIp u info n =>
    exact Ends.map ((Tables.ends_removeFlowsForAsIp h u info n).mono fun _ ht => ht.1)

theorem Op.ends_run {single : Prop} (fits : FlowMod μ α → Bool) (h : t.Ready single [])
    (op : Op μ α)
    (hop : single → op.New t) : Ends (fun _ => True) (Tables.Ready single []) (op.run fits t) := by
  cases op with
  | call c => exact (c.ends_run h hop).weaken fun _ _ => trivial
  | clear => exact Tables.ends_desiredFlowTableClear h
  | put o changed => exact Tables.ends_put fits h o changed
  | clearInstalled => exact Tables.ends_installedFlowTableClear h

/-- The references are in order in every state of a run, with single ones if every step is new. -/
theorem ready_of_reached {single : Prop} {fits : FlowMod μ α → Bool} {desired : ℕ → DesiredFlow μ α}
    {installed : ℕ → InstalledFlow μ α} {sfr : ℕ → SbFlowRef} {P : Tables μ α → Op μ α → Prop}
    (hP : ∀ t op, P t op → single → op.New t)
    (h : (system fits desired installed sfr).Reached P t) :
    t.Ready single [] := by
  refine h.invariant ?_ fun t op t' ht hop hnext => ?_
  · exact ⟨Tables.linked_empty desired installed sfr, fun f => .rfl, nofun⟩
  · exact (op.ends_run fits ht (hP t op hop)).of_toOption hnext

end

/-- **References.** As long as no row appends to a flow that it references already, the references
    are as they should be in every state of every run, and none of the functions fails. -/
theorem references_consistent [DecidableEq μ] [DecidableEq α] (fits : FlowMod μ α → Bool)
    (desired : ℕ → DesiredFlow μ α) (installed : ℕ → InstalledFlow μ α) (sfr : ℕ → SbFlowRef)
    {t : Tables μ α} (h : (system fits desired installed sfr).Reached (fun t op => op.New t) t) :
    t.Consistent ∧ ∀ c : Call μ α, c.New t → ∃ t', c.run t = .ok t' := by
  have hready : t.Ready True [] := ready_of_reached (fun _ _ hop _ => hop) h
  refine ⟨hready.linked.consistent, fun c hc => ?_⟩
  obtain ⟨t', ht', -⟩ := ((c.ends_run hready fun _ => hc).weaken fun _ he => he.2 trivial).exists_ok
  exact ⟨t', ht'⟩

def appendConjunction (u clause : ℕ) : Op Unit Unit :=
  .call (.addOrAppendFlow ⟨id, List.Perm.refl⟩ ⟨⟨0, 0, ()⟩, [.conjunction clause 2 1], 0, 0⟩ u none)

def unitSystem : System (Tables Unit Unit) (Op Unit Unit) :=
  system (fun _ => true) (fun _ => ⟨⟨⟨0, 0, ()⟩, [], 0, 0⟩, none, false⟩)
    (fun _ => ⟨⟨⟨0, 0, ()⟩, [], 0, 0⟩, []⟩) fun _ => ⟨0, 0⟩

/-- Two rows share a flow, which the flood removal of one of them removes. -/
theorem references_consistent_shared : ∃ t, unitSystem.exec (fun t op => op.New t) unitSystem.init
      [appendConjunction 1 0, appendConjunction 2 1] = some t ∧
    t.references 0 = [0, 1] ∧ t.Consistent ∧ ∃ t', (Call.floodRemoveFlows [1]).run t = .ok t' := by
  obtain ⟨t, ht⟩ := Option.isSome_iff_exists.1 (show (unitSystem.exec (fun t op => op.New t)
    unitSystem.init [appendConjunction 1 0, appendConjunction 2 1]).isSome by decide)
  have hrefs : (unitSystem.exec (fun t op => op.New t) unitSystem.init
      [appendConjunction 1 0, appendConjunction 2 1]).map (·.references 0) = some [0,
        1] := by decide
  have h := references_consistent _ _ _ _ (System.Reached.init.exec ht)
  rw [ht] at hrefs
  exact ⟨t, ht, Option.some_inj.1 hrefs, h.1, h.2 _ trivial⟩

/-- A row that appends twice to a flow has two references to it, and the flood removal of the row
    aborts. -/
theorem references_inconsistent : ∃ t, unitSystem.Reached (fun _ _ => True) t ∧ ¬ t.Consistent ∧
    (Call.floodRemoveFlows [1]).run t = .error .assertion := by
  refine ⟨_, (System.Reached.init.step (a := appendConjunction 1 0) trivial rfl).step
    (a := appendConjunction 1 1) trivial rfl, fun h => ?_, rfl⟩
  exact absurd (h.single 0 (by decide) 1) (by decide)

end Ovn.FlowTable

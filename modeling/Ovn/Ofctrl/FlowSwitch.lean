/-
  Comparing leaves the switch with the flows that are desired.
-/
import Ovn.Ofctrl.FlowPut

namespace Ovn.FlowTable

open Function (update update_self update_of_ne)
open List

variable {μ α : Type}

/-- What a flow does to packets. -/
def OvnFlow.acts (f : OvnFlow μ α) : List (Ofpact α) × ℕ := (f.ofpacts, f.cookie)

namespace Core

variable {c c' : Core μ α} {but left but' left' : List ℕ} {i d f : ℕ}

theorem insertPreferred_head {l l' : List ℕ}
    (h : c.insertPreferred (c.desired f).toOvnFlow f l = .ok l') :
    l'.head? = some f ∨ l'.head? = l.head? := by
  cases l with
  | nil => grind [insertPreferred]
  | cons g gs =>
    cases hrec : c.insertPreferred (c.desired f).toOvnFlow f gs <;> grind [insertPreferred_cons,
      Except.map]

theorem acts_installedFlowMod (fits : FlowMod μ α → Bool) (j : ℕ) :
    ((c.installedFlowMod fits i d).installed j).acts =
      if j = i then (c.desired d).acts else (c.installed j).acts := by
  rw [Core.installedFlowMod, addFlowMod_eq]
  by_cases hj : j = i <;> simp [setInstalled, hj, OvnFlow.acts]

variable [DecidableEq μ]

/-- The table of a switch that was empty when the first of the messages arrived. -/
def switch (c : Core μ α) : Switch μ α := c.msgs.foldl FlowMod.apply fun _ => none

/-- One flow for each key that a desired flow has, that of one that no other is preferred over. -/
def Follows (c : Core μ α) (sw : Switch μ α) : Prop := ∀ key,
  (sw key = none ↔ ∀ d ∈ c.matchFlowTable, (c.desired d).key ≠ key) ∧
  ∀ x, sw key = some x → ∃ d ∈ c.matchFlowTable, (c.desired d).key = key ∧ x = (c.desired d).acts ∧
    ∀ e ∈ c.matchFlowTable, (c.desired e).key = key → (c.desired d).rank ≤ (c.desired e).rank

/-- The switch has the installed flows.  But for `left`, the desired flows are linked, and but for
    `but`, the installed ones have the actions of the first flow they are linked to. -/
structure InSync (but left : List ℕ) (c : Core μ α) : Prop where
  shown : ∀ i ∈ c.installedFlows, c.switch (c.installed i).key = some (c.installed i).acts
  absent : ∀ key, (∀ i ∈ c.installedFlows, (c.installed i).key ≠ key) → c.switch key = none
  linked : ∀ d ∈ c.matchFlowTable, d ∈ left ∨ c.linkOf d ≠ none
  active : ∀ i ∈ c.installedFlows, i ∈ but ∨
    ∃ d, (c.refsOf i).head? = some d ∧ (c.installed i).acts = (c.desired d).acts

theorem InSync.follows (h : InSync [] [] c) (hw : c.Wired True) (ht : c.trackedFlows = []) :
    c.Follows c.switch := by
  intro key
  have hlinked : ∀ d ∈ c.matchFlowTable, ∃ i ∈ c.installedFlows, d ∈ c.refsOf i ∧
      (c.desired d).key = (c.installed i).key := fun d hd => by
    have hlink := h.linked d hd
    cases hi : c.linkOf d <;> grind [hw.listed d, hw.linked]
  by_cases hfree : ∀ i ∈ c.installedFlows, (c.installed i).key ≠ key
  · grind [h.absent key hfree]
  · push Not at hfree
    obtain ⟨i, hi, rfl⟩ := hfree
    obtain ⟨d, hd, hacts⟩ := (h.active i hi).resolve_left not_mem_nil
    obtain ⟨l, hl⟩ := head?_eq_some_iff.1 hd
    have hsorted := hw.sorted i hi
    rw [hl, pairwise_cons] at hsorted
    have hmem := hw.linked i hi d (mem_of_mem_head? hd)
    grind [h.shown i hi, hw.keys, OvnFlow.Ahead]

theorem InSync.rewired {refs : ℕ → List ℕ} {link : ℕ → Option ℕ} (h : InSync but left c)
    (hr : c.Rewired c' refs link)
    (hlink : ∀ d ∈ c.matchFlowTable, d ∈ left ∨ c.linkOf d ≠ none → d ∈ left' ∨ link d ≠ none)
    (hrefs : ∀ i ∈ c.installedFlows, i ∈ but' ∨ i ∉ but ∧ (refs i).head? = (c.refsOf i).head? ∨
      ∃ d, (refs i).head? = some d ∧ (c.installed i).acts = (c.desired d).acts) :
    InSync but' left' c' := by
  have hsw : c'.switch = c.switch := by rw [switch, hr.msgs, switch]
  constructor <;> simp only [hsw, hr.installedFlows, hr.same.matchFlowTable, hr.flow, hr.same.flow,
    refsOf, linkOf, hr.refs, hr.link]
  · exact h.shown
  · exact h.absent
  · exact fun d hd => hlink d hd (h.linked d hd)
  · grind [h.active, refsOf]

theorem InSync.linkFirst (h : InSync but left c) (hrefs : c.refsOf i = [])
    (hacts : (c.installed i).acts = (c.desired f).acts) (hb : but ⊆ i :: but')
    (hl : left ⊆ f :: left') :
    Ends (fun _ => True) (InSync but' left') (c.linkInstalledToDesired i f) := by
  cases hok : c.linkInstalledToDesired i f with
  | error => trivial
  | ok c₁ =>
    obtain ⟨refs, hins, hr⟩ := linkInstalledToDesired_ok hok
    rw [hrefs] at hins
    cases hins
    exact h.rewired hr (by grind) (by grind)

section
variable {fits : FlowMod μ α → Bool} (hfits : ∀ m, fits m = true)
include hfits

theorem switch_addFlowMod (m : FlowMod μ α) : (c.addFlowMod fits m).switch = m.apply c.switch := by
  simp [addFlowMod, hfits, switch]

section
variable (h : InSync but left c) (hw : c.Wired True) (hi : i ∈ c.installedFlows)
include h hw hi

theorem InSync.installedFlowMod
    (hb : ∀ j ∈ c.installedFlows, j ∈ but' ∨ if j = i then (c.refsOf i).head? = some d
      else j ∉ but) :
    InSync but' left (c.installedFlowMod fits i d) := by
  have hm := modified_installedFlowMod (c := c) fits i d
  have hsw : (c.installedFlowMod fits i d).switch =
      update c.switch (c.installed i).key (some (c.desired d).acts) := by
    refine (switch_addFlowMod hfits _).trans ?_
    change FlowMod.apply c.switch _ = _
    split
    · rfl
    next hcookie => simp [FlowMod.apply, h.shown i hi, OvnFlow.acts, not_not.1 hcookie]
  constructor <;> simp only [hsw, hm.installedFlows, hm.same.matchFlowTable, hm.key, hm.same.flow,
    hm.refs, hm.link, acts_installedFlowMod]
  · grind [h.shown, hw.keys]
  · grind [h.absent]
  · exact h.linked
  · grind [h.active]

theorem InSync.installedFlowDel (hb : but ⊆ i :: but') :
    InSync but' left (c.installedFlowDel fits i) := by
  have hsw : (c.installedFlowDel fits i).switch = update c.switch (c.installed i).key none :=
    switch_addFlowMod hfits _
  rw [installedFlowDel_eq] at hsw ⊢
  constructor <;> try rw [hsw]
  · grind [h.shown, hw.keys]
  · grind [h.absent]
  · exact h.linked
  · grind [h.active, refsOf]

end

section
variable (h : InSync but (f :: left) c) (hw : c.Wired True)
include h hw

theorem InSync.installNew
    (hfree : ∀ i ∈ c.installedFlows, (c.installed i).key ≠ (c.desired f).key) :
    Ends (fun _ => True) (InSync but left)
      ((c.installedFlowAdd fits f).linkInstalledToDesired c.nextInstalled f) := by
  have hsw : (c.installedFlowAdd fits f).switch =
      update c.switch (c.desired f).key (some (c.desired f).acts) := switch_addFlowMod hfits _
  have hrefs := refsOf_installedFlowAdd (c := c) fits f
  rw [installedFlowAdd_eq] at hsw hrefs ⊢
  refine InSync.linkFirst ⟨?_, ?_, h.linked, ?_⟩ hrefs (by simp [OvnFlow.acts])
    (Subset.refl (c.nextInstalled :: but)) (Subset.refl _)
  · rw [hsw]
    grind [h.shown, hw.freshInstalled]
  · rw [hsw]
    intro key hkey
    obtain ⟨hne, hkey⟩ := forall_mem_cons.1 hkey
    simp only [update_self] at hne
    rw [update_of_ne hne.symm]
    exact h.absent key fun i hi => by
      simpa [Nat.ne_of_lt (hw.freshInstalled i hi)] using hkey i hi
  · grind [h.active, refsOf]

/-- A flow that becomes the first is the one that is installed. -/
theorem InSync.linkConflict (hf : f ∈ c.matchFlowTable) (hnone : c.linkOf f = none)
    (hi : i ∈ c.installedFlows) (hkey : (c.desired f).key = (c.installed i).key) :
    Ends (fun _ => True) (InSync but left) (c.linkConflict fits i f) := by
  unfold Core.linkConflict
  cases hok : c.linkInstalledToDesired i f with
  | error => trivial
  | ok c₁ =>
    obtain ⟨refs, hins, hr⟩ := linkInstalledToDesired_ok hok
    have hhead := insertPreferred_head hins
    have hactive : c₁.active i = refs.head? := by rw [Core.active, hr.refs, update_self]
    change InSync but left (if _ then _ else _)
    split
    · have h₁ : InSync (i :: but) left c₁ := h.rewired hr (by grind) (by grind)
      exact h₁.installedFlowMod hfits (hw.link hf hnone hi hkey hins hr)
        (hr.installedFlows ▸ hi) (by grind [refsOf, Core.active])
    · exact h.rewired hr (by grind) (by grind)

theorem InSync.compareDesired {table : List ℕ} (hc : Comparing True table c) (hf : f ∈ table) :
    Ends (fun _ => True) (InSync but left) (c.compareDesired fits f) := by
  unfold Core.compareDesired
  split
  next hnone => exact h.installNew hfits hw (installedFlowLookup_none hnone)
  next i hi =>
    obtain ⟨hin, hkey⟩ := installedFlowLookup_some hi
    split
    next hlink => exact h.linkConflict hfits hw (hc.perm.mem_iff.1 hf) hlink hin hkey.symm
    · exact { h with linked := by grind [h.linked, linkOf] }

end

variable [DecidableEq α]

theorem InSync.compareInstalled {table l : List ℕ} (hl : ComparingLeft True table (i :: l) c)
    (h : InSync (i :: l) table c) :
    Ends (fun _ => True) (InSync l table) (c.compareInstalled fits table i) := by
  have hi := hl.2.2 i mem_cons_self
  refine Ends.bind ((ends_unlinkAllRefs hl.1.wired hi).weaken fun _ _ => trivial) fun c₁ hr => ?_
  have hw := hl.1.wired.unlinkAll hi hr
  have hi1 : i ∈ c₁.installedFlows := hr.installedFlows ▸ hi
  have hrefs : c₁.refsOf i = [] := (hr.refs i).trans (update_self ..)
  have h1 : InSync (i :: l) table c₁ :=
    h.rewired hr (fun d hd _ => .inl (hl.1.perm.mem_iff.2 hd)) (by grind)
  split
  · exact (ends_installedFlowDestroy
      (h1.installedFlowDel hfits hw hi1 (Subset.refl _))).weaken fun _ (_ : Clash True _) => trivial
  next d _ =>
    split
    next hsame =>
      refine h1.linkFirst hrefs ?_ (Subset.refl _) (subset_cons_self _ _)
      simpa [sameActions, OvnFlow.acts, and_comm] using hsame
    · have hm := modified_installedFlowMod (c := c₁) fits i d
      refine (h1.installedFlowMod hfits hw hi1 (by grind)).linkFirst
        (hm.refs ▸ hrefs) ?_ (Subset.refl (i :: l)) (subset_cons_self _ _)
      rw [acts_installedFlowMod, if_pos rfl, hm.same.flow]

theorem InSync.updateInstalledFlowsByCompare (o : Orders) (hw : c.Wired True)
    (h : InSync c.installedFlows c.matchFlowTable c) :
    Ends (Clash True) (fun c' => c'.Follows c'.switch)
      (c.updateInstalledFlowsByCompare fits o) := by
  unfold Core.updateInstalledFlowsByCompare
  split
  · exact clash_assertion
  next hquiet =>
  have hinst := o.installedFlows.perm c.installedFlows
  have hperm := o.matchFlowTable.perm c.matchFlowTable
  refine Ends.bind
    (Ends.foldlM (I := fun l c' => ComparingLeft True (o.matchFlowTable.order _) l c' ∧
    InSync l (o.matchFlowTable.order _) c')
    (fun i l c' hc' => (ends_compareInstalled fits hc'.1).and (hc'.2.compareInstalled hfits hc'.1))
      _ c
    ⟨⟨⟨hw, not_not.1 hquiet, hperm⟩, hinst.nodup_iff.2 hw.nodupInstalled, fun j => hinst.mem_iff.1⟩,
      { h with
        linked := fun d hd => .inl (hperm.mem_iff.2 hd)
        active := fun i hi => .inl (hinst.mem_iff.2 hi) }⟩) fun c₁ h1 => ?_
  refine (Ends.foldlM (I := fun l c' => l ⊆ o.matchFlowTable.order c.matchFlowTable ∧
    Comparing True (o.matchFlowTable.order _) c' ∧ InSync [] l c')
    (fun d l c' hc' => ?_) _ c₁ ⟨Subset.refl _, h1.1.1, h1.2⟩).mono
    fun c' hc' => hc'.2.2.follows hc'.2.1.wired hc'.2.1.quiet
  obtain ⟨hd, hl⟩ := cons_subset.1 hc'.1
  exact ((ends_compareDesired fits hc'.2.1 hd).and
    (hc'.2.2.compareDesired hfits hc'.2.1.wired hc'.2.1 hd)).mono fun _ => And.intro hl

end

end Core

/-- **Recomputing.** Where the switch has the installed flows, and changes are not tracked, it has
    the flows that are desired when `ofctrl_put` is done. -/
theorem put_compares [DecidableEq μ] [DecidableEq α] {fits : FlowMod μ α → Bool}
    (hfits : ∀ m, fits m = true) {desired : ℕ → DesiredFlow μ α} {installed : ℕ → InstalledFlow μ α}
    {sfr : ℕ → SbFlowRef} {t t' : Tables μ α} (o : Orders)
    (h : (system fits desired installed sfr).Reached (fun t op => op.Logical ∧ op.SameMeter t) t)
    (hs : t.toCore.InSync t.installedFlows t.matchFlowTable) (hc : t.changeTracked = false)
    (hput : t.put fits o true = .ok t') : t.toCore.Follows t'.toCore.switch := by
  have hend : Ends (Core.Clash True) (t.toCore.Follows ·.toCore.switch) (t.put fits o true) := by
    simp only [Tables.put, hc]
    refine Ends.bind
      ((hs.updateInstalledFlowsByCompare hfits o (installed_of_reached h).1.wired).and
      (Core.same_updateInstalledFlowsByCompare fits o)) fun c hf => ?_
    simp only [Core.Follows, hf.2.matchFlowTable, hf.2.flow] at hf
    split
    · exact Core.clash_assertion
    · exact hf.1
  rwa [hput] at hend

/-- The flow of one row takes the place of that of another, which the switch has. -/
theorem put_compares_replaced : ∃ t t' : Tables Unit Unit,
    t.toCore.switch ⟨0, 0, ()⟩ = some ([.conjunction 1 2 1], 0) ∧
    putListed.run (fun _ => true) t = .ok t' ∧
    t.toCore.Follows t'.toCore.switch ∧ t'.toCore.switch ⟨0, 0, ()⟩ = some
      ([.conjunction 2 2 1], 0) := by
  have hinit : unitSystem.Reached (fun t op => op.Logical ∧ op.SameMeter t) unitSystem.init := .init
  have hput := (hinit.step (a := appendMetered 1 7) ⟨trivial, by decide⟩ rfl).step (a := putListed)
    ⟨trivial, trivial⟩ rfl
  have hreached := (hput.step (a := Op.clear (μ := Unit) (α := Unit)) ⟨trivial, trivial⟩ rfl).step
    (a := appendMetered 2 7) ⟨trivial, by decide⟩ rfl
  refine ⟨_, _, rfl, rfl, put_compares (fun _ => rfl)
    ⟨⟨id, Perm.refl⟩, ⟨id, Perm.refl⟩, ⟨id, Perm.refl⟩⟩ hreached ?_ rfl rfl, rfl⟩
  refine ⟨?_, fun key hkey => ?_, fun _ => .inl, fun _ => .inl⟩
  · decide
  · have hne : key ≠ ⟨0, 0, ()⟩ := (hkey 0 mem_cons_self).symm
    exact update_of_ne hne (some ([Ofpact.conjunction 1 2 1], 0)) fun _ => none

end Ovn.FlowTable

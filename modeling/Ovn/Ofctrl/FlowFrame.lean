/-
  What installing flows leaves alone: the desired flows with their actions, and which of them are
  in the match table.  Only their links change.
-/
import Ovn.Lib.Ends
import Ovn.Lib.Maps
import Ovn.Ofctrl.FlowCore

namespace Ovn.FlowTable.Core

variable {μ α : Type}

theorem desiredFlowLookup_mem [DecidableEq μ] {c : Core μ α} {table : List ℕ} {target : OvnFlow μ α}
    {matchCb : ℕ → Bool} {f : ℕ} (h : c.desiredFlowLookup table target matchCb = some f) :
    f ∈ table ∧ (c.desired f).key = target.key ∧ (c.desired f).ctrlMeterId = target.ctrlMeterId ∧
      matchCb f = true := by
  have hf := List.find?_some h
  simp only [Bool.and_eq_true, decide_eq_true_eq] at hf
  exact ⟨List.mem_of_find?_eq_some h, hf.1.1, hf.1.2, hf.2⟩

theorem lookupConjunctive_mem [DecidableEq μ] {c : Core μ α} {o : HashOrder ℕ}
    {target : OvnFlow μ α}
    {f : ℕ} (h : c.desiredFlowLookupConjunctive o target = some f) :
    f ∈ c.matchFlowTable ∧ (c.desired f).key = target.key ∧
      (c.desired f).ctrlMeterId = target.ctrlMeterId ∧ (c.desired f).hasConj = true := by
  obtain ⟨hin, hrest⟩ := desiredFlowLookup_mem h
  exact ⟨(o.perm _).mem_iff.1 hin, hrest⟩

/-- Two states that differ in links, installed flows and what is tracked. -/
structure Same (c c' : Core μ α) : Prop where
  matchFlowTable : c'.matchFlowTable = c.matchFlowTable
  nextFlow : c'.nextFlow = c.nextFlow
  changeTracked : c'.changeTracked = c.changeTracked
  flow : ∀ d, (c'.desired d).toOvnFlow = (c.desired d).toOvnFlow
  isDeleted : ∀ d, (c'.desired d).isDeleted = (c.desired d).isDeleted

theorem Same.refl (c : Core μ α) : c.Same c := ⟨rfl, rfl, rfl, fun _ => rfl, fun _ => rfl⟩

theorem Same.trans {a b c : Core μ α} (h : a.Same b) (h' : b.Same c) : a.Same c :=
  ⟨h'.1.trans h.1, h'.2.trans h.2, h'.3.trans h.3, fun d => (h'.4 d).trans (h.4 d),
    fun d => (h'.5 d).trans (h.5 d)⟩

theorem same_setLink (c : Core μ α) (d : ℕ) (i : Option ℕ) :
    c.Same (c.setDesired d fun x => { x with installedFlow := i }) := by
  refine ⟨rfl, rfl, rfl, fun e => ?_, fun e => ?_⟩
  · by_cases he : e = d <;> simp [setDesired, he]
  · by_cases he : e = d <;> simp [setDesired, he]

theorem same_setInstalled (c : Core μ α) (i : ℕ) (g : InstalledFlow μ α → InstalledFlow μ α) :
    c.Same (c.setInstalled i g) := ⟨rfl, rfl, rfl, fun _ => rfl, fun _ => rfl⟩

section
variable (fits : FlowMod μ α → Bool) (c : Core μ α)

theorem addFlowMod_eq (m : FlowMod μ α) :
    c.addFlowMod fits m = { c with msgs := if fits m then c.msgs ++ [m] else c.msgs } := by
  unfold addFlowMod
  split <;> rfl

theorem installedFlowAdd_eq (d : ℕ) : c.installedFlowAdd fits d = { c with
      installed := Function.update c.installed c.nextInstalled ⟨(c.desired d).toOvnFlow, []⟩
      installedFlows := c.nextInstalled :: c.installedFlows
      nextInstalled := c.nextInstalled + 1
      msgs := (c.addFlowMod fits
        (.add (c.desired d).key (c.desired d).ofpacts (c.desired d).cookie)).msgs } := by
  simp only [installedFlowAdd, addFlowMod_eq]

theorem installedFlowDel_eq (i : ℕ) : c.installedFlowDel fits i = { c with
      installedFlows := c.installedFlows.filter (· ≠ i)
      msgs := (c.addFlowMod fits (.deleteStrict (c.installed i).key)).msgs } := by
  simp only [installedFlowDel, addFlowMod_eq]

theorem same_addFlowMod (m : FlowMod μ α) : c.Same (c.addFlowMod fits m) := by
  rw [addFlowMod_eq]
  exact ⟨rfl, rfl, rfl, fun _ => rfl, fun _ => rfl⟩

end

/-- The result is the same but for links. -/
abbrev EndsSame (c : Core μ α) (x : Except Fail (Core μ α)) : Prop := Ends (fun _ => True) c.Same x

section
variable {c : Core μ α}

theorem EndsSame.bind {x : Except Fail (Core μ α)} {f : Core μ α → Except Fail (Core μ α)}
    (hx : c.EndsSame x) (hf : ∀ a : Core μ α, a.EndsSame (f a)) : c.EndsSame (x >>= f) :=
  Ends.bind hx fun a ha => (hf a).mono fun _ hb => ha.trans hb

theorem EndsSame.of_same {c' : Core μ α} {x : Except Fail (Core μ α)} (h : c.Same c')
    (hx : c'.EndsSame x) : c.EndsSame x := hx.mono fun _ hb => h.trans hb

/-- A loop that leaves the flows alone in every iteration. -/
theorem EndsSame.foldlM {f : Core μ α → ℕ → Except Fail (Core μ α)}
    (hf : ∀ (c : Core μ α) d, c.EndsSame (f c d))
    (l : List ℕ) : c.EndsSame (l.foldlM f c) :=
  Ends.foldlM (I := fun _ => c.Same) (fun d _ c' hc' => (hf c' d).mono fun _ => hc'.trans) l c
    (Same.refl c)

theorem same_linkInstalledToDesired (i f : ℕ) : c.EndsSame (c.linkInstalledToDesired i f) := by
  unfold linkInstalledToDesired
  split
  · trivial
  · exact (same_setInstalled c i _).trans (same_setLink _ f (some i))

theorem same_replaceInstalledToDesired (i old new : ℕ) :
    c.EndsSame (c.replaceInstalledToDesired i old new) := by
  unfold replaceInstalledToDesired
  split
  · trivial
  · exact ((same_setInstalled c i _).trans (same_setLink _ old none)).trans
      (same_setLink _ new (some i))

theorem same_unlinkInstalledToDesired (i d : ℕ) : c.EndsSame (c.unlinkInstalledToDesired i d) := by
  unfold unlinkInstalledToDesired
  split
  · trivial
  · exact (same_setInstalled c i _).trans (same_setLink _ d none)

theorem same_unlinkAllRefs (i : ℕ) : c.EndsSame (c.unlinkAllRefs i) :=
  EndsSame.foldlM (fun _ d => same_unlinkInstalledToDesired i d) _

theorem same_desiredFlowDestroy (f : ℕ) : c.EndsSame (c.desiredFlowDestroy f) := by
  unfold desiredFlowDestroy
  split
  · trivial
  · exact Same.refl c

theorem same_installedFlowDestroy (i : ℕ) : c.EndsSame (c.installedFlowDestroy i) := by
  unfold installedFlowDestroy
  split
  · trivial
  · exact Same.refl c

theorem same_untrack (f : ℕ) : c.Same (c.untrack f) := ⟨rfl, rfl, rfl, fun _ => rfl, fun _ => rfl⟩

section
variable (fits : FlowMod μ α → Bool)

theorem same_installedFlowAdd (d : ℕ) : c.Same (c.installedFlowAdd fits d) :=
  { same_addFlowMod fits c _ with }

theorem same_installedFlowMod (i d : ℕ) : c.Same (c.installedFlowMod fits i d) :=
  (same_setInstalled c i _).trans (same_addFlowMod fits _ _)

theorem same_installedFlowDel (i : ℕ) : c.Same (c.installedFlowDel fits i) :=
  { same_addFlowMod fits c _ with }

theorem same_linkConflict (i d : ℕ) : c.EndsSame (c.linkConflict fits i d) := by
  refine Ends.bind (same_linkInstalledToDesired i d) fun c' hc' => ?_
  split
  · exact hc'.trans (same_installedFlowMod fits i d)
  · exact hc'

variable [DecidableEq μ] [DecidableEq α]

theorem same_compareInstalled (table : List ℕ) (i : ℕ) :
    c.EndsSame (c.compareInstalled fits table i) := by
  refine EndsSame.bind (same_unlinkAllRefs i) fun c' => ?_
  split
  · exact EndsSame.of_same (same_installedFlowDel fits i) (same_installedFlowDestroy i)
  · refine EndsSame.of_same ?_ (same_linkInstalledToDesired i _)
    split
    · exact Same.refl c'
    · exact same_installedFlowMod fits i _

omit [DecidableEq α] in
theorem same_compareDesired (d : ℕ) : c.EndsSame (c.compareDesired fits d) := by
  unfold compareDesired
  split
  · exact EndsSame.of_same (same_installedFlowAdd fits d) (same_linkInstalledToDesired _ d)
  · split
    · exact same_linkConflict fits _ d
    · exact Same.refl c

theorem same_updateInstalledFlowsByCompare (o : Orders) :
    c.EndsSame (c.updateInstalledFlowsByCompare fits o) := by
  unfold updateInstalledFlowsByCompare
  split
  · trivial
  · exact EndsSame.bind (EndsSame.foldlM (fun _ i => same_compareInstalled fits _ i) _) fun _ =>
      EndsSame.foldlM (fun _ d => same_compareDesired fits d) _

theorem same_mergeTrackedFlow (o : HashOrder ℕ) (deleted : List ℕ) (f : ℕ) :
    Ends (fun _ => True) (fun s => c.Same s.1) (mergeTrackedFlow o (c, deleted) f) := by
  unfold mergeTrackedFlow
  dsimp only
  split
  · exact Same.refl c
  refine Ends.bind (Q := fun _ => True) ?_ fun found _ => ?_
  · cases c.deletedFlowLookup (c.desired f).toOvnFlow (o.order deleted) <;> trivial
  · split
    · exact Same.refl c
    · split
      · trivial
      · refine Ends.bind (Q := c.Same) ?_ fun c₁ h1 => ?_
        · split
          · exact same_replaceInstalledToDesired _ _ f
          · split
            · trivial
            · exact same_unlinkInstalledToDesired _ _
        · refine Ends.bind (Q := c.Same) ?_ fun c₂ h2 => h2.trans (same_untrack f)
          exact EndsSame.of_same (h1.trans (same_untrack _)) (same_desiredFlowDestroy _)

omit [DecidableEq α] in
theorem same_updateTracked (f : ℕ) : c.EndsSame (c.updateTracked fits f) := by
  unfold updateTracked
  refine EndsSame.of_same (same_untrack f) ?_
  dsimp only
  generalize c.untrack f = c
  split
  · split
    · exact same_desiredFlowDestroy f
    · refine EndsSame.bind (same_unlinkInstalledToDesired _ f) fun c₁ => ?_
      refine EndsSame.bind ?_ fun c₂ => same_desiredFlowDestroy f
      split
      · exact EndsSame.of_same (same_installedFlowDel fits _) (same_installedFlowDestroy _)
      · split
        · exact same_installedFlowMod fits _ _
        · exact Same.refl c₁
  · split
    · exact EndsSame.of_same (same_installedFlowAdd fits f) (same_linkInstalledToDesired _ f)
    · split
      · exact same_installedFlowMod fits _ f
      · split
        · exact same_linkConflict fits _ f
        · exact Same.refl c

theorem same_updateInstalledFlowsByTrack (o : Orders) :
    c.EndsSame (c.updateInstalledFlowsByTrack fits o) := by
  have hmerge : Ends (fun _ => True) (fun s => c.Same s.1)
      (c.trackedFlows.foldlM (mergeTrackedFlow o.deletedFlows) (c, [])) :=
    Ends.foldlM (I := fun _ (s : Core μ α × List ℕ) => c.Same s.1)
      (fun f _ s hs => (same_mergeTrackedFlow o.deletedFlows s.2 f).mono fun _ => hs.trans) _ _
      (Same.refl c)
  refine Ends.bind hmerge ?_
  rintro ⟨c', _⟩ hc'
  exact EndsSame.of_same hc' (EndsSame.foldlM (fun _ f => same_updateTracked fits f) _)

end

end

end Ovn.FlowTable.Core

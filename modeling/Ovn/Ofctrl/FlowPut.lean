/-
  Installing flows keeps the links in order.

  `flow_is_preferred` is never asked about two flows of conjunctions, as long as the flows of
  conjunctions with one key have one meter.  The lookup that merges them compares meters, and the
  lookup of installed flows does not.
-/
import Ovn.Ofctrl.FlowFlood
import Ovn.Ofctrl.FlowLinks

namespace Ovn.FlowTable

open Function (update update_apply update_eq_self update_idem update_of_ne update_self)
open List

variable {μ α : Type}

namespace Core

variable {c c' : Core μ α} {peaceful : Prop}

/-- The code that is not reached is reached only without peace. -/
def Clash (peaceful : Prop) (e : Fail) : Prop := e = .notReached → ¬ peaceful

theorem clash_assertion : Clash peaceful .assertion := fun h => by cases h

/-! ## Steps -/

variable {i : ℕ}

theorem Wired.installedFlowDel (h : c.Wired peaceful) (fits : FlowMod μ α → Bool)
    (hempty : c.refsOf i = []) : (c.installedFlowDel fits i).Wired peaceful := by
  have hmem : ∀ {j}, j ∈ c.installedFlows.filter (· ≠ i) → j ∈ c.installedFlows := mem_of_mem_filter
  rw [installedFlowDel_eq]
  refine { h with
      linked := fun j hj => h.linked j (hmem hj)
      listed := fun d hd j hl => ?_
      sorted := fun j hj => h.sorted j (hmem hj)
      keys := fun j hj k hk => h.keys j (hmem hj) k (hmem hk)
      freshInstalled := fun j hj => h.freshInstalled j (hmem hj)
      nodupInstalled := h.nodupInstalled.filter _ }
  obtain ⟨hj, hin⟩ := h.listed d hd j hl
  refine ⟨mem_filter.2 ⟨hj, ?_⟩, hin⟩
  rw [decide_eq_true_iff]
  rintro rfl
  rw [hempty] at hin
  cases hin

theorem Wired.installedFlowAdd {d : ℕ} (h : c.Wired peaceful) (fits : FlowMod μ α → Bool)
    (hfree : ∀ i ∈ c.installedFlows, (c.installed i).key ≠ (c.desired d).key) :
    (c.installedFlowAdd fits d).Wired peaceful := by
  have hold : ∀ i ∈ c.installedFlows, update c.installed c.nextInstalled
      ⟨(c.desired d).toOvnFlow, []⟩ i = c.installed i := fun i hi =>
    update_of_ne (Nat.ne_of_lt (h.freshInstalled i hi)) _ _
  have hself : update c.installed c.nextInstalled ⟨(c.desired d).toOvnFlow, []⟩
      c.nextInstalled = ⟨(c.desired d).toOvnFlow, []⟩ := update_self ..
  have hc : ({ c with
      installed := update c.installed c.nextInstalled ⟨(c.desired d).toOvnFlow, []⟩
      installedFlows := c.nextInstalled :: c.installedFlows
      nextInstalled := c.nextInstalled + 1 } : Core μ α).Wired peaceful := by
    refine { h with
        linked := fun i hi e he => ?_
        listed := fun e he i hl => ?_
        sorted := fun i hi => ?_
        keys := fun i hi j hj hkey => ?_
        freshInstalled := forall_mem_cons.2 ⟨Nat.lt_succ_self _,
          fun i hi => Nat.lt_succ_of_lt (h.freshInstalled i hi)⟩
        nodupInstalled := ?_ }
    · rcases mem_cons.1 hi with rfl | hi
      · simp only [refsOf, hself] at he
        cases he
      · simp only [refsOf, hold i hi] at he ⊢
        exact h.linked i hi e he
    · obtain ⟨hi, hin⟩ := h.listed e he i hl
      refine ⟨mem_cons_of_mem _ hi, ?_⟩
      simp only [refsOf, hold i hi]
      exact hin
    · rcases mem_cons.1 hi with rfl | hi
      · simp [refsOf]
      · simp only [refsOf, hold i hi]
        exact h.sorted i hi
    · rcases mem_cons.1 hi with rfl | hi
      · rcases mem_cons.1 hj with rfl | hj
        · rfl
        · simp only [hself, hold j hj] at hkey
          exact absurd hkey.symm (hfree j hj)
      · rcases mem_cons.1 hj with rfl | hj
        · simp_all
        · simp only [hold i hi, hold j hj] at hkey
          exact h.keys i hi j hj hkey
    · exact nodup_cons.2 ⟨fun hin => Nat.lt_irrefl _ (h.freshInstalled _ hin), h.nodupInstalled⟩
  rw [installedFlowAdd_eq]
  exact { hc with }

theorem refsOf_installedFlowAdd (fits : FlowMod μ α → Bool) (d : ℕ) :
    (c.installedFlowAdd fits d).refsOf c.nextInstalled = [] := by
  simp [Core.installedFlowAdd, refsOf]

/-- The links are in order, and what is tracked and installed is as in `c`. -/
structure Relinked (peaceful : Prop) (c c' : Core μ α) : Prop where
  wired : c'.Wired peaceful
  trackedFlows : c'.trackedFlows = c.trackedFlows
  installedFlows : c'.installedFlows = c.installedFlows

section
variable {i f : ℕ} (h : c.Wired peaceful) (hf : f ∈ c.matchFlowTable) (hnone : c.linkOf f = none)
  (hi : i ∈ c.installedFlows) (hkey : (c.desired f).key = (c.installed i).key)
include h hf hnone hi hkey

theorem ends_link
    (hpeace : peaceful → (c.desired f).hasConj = true → ∀ g ∈ c.refsOf i,
      (c.desired g).hasConj ≠ true) :
    Ends (Clash peaceful) (c.Relinked peaceful) (c.linkInstalledToDesired i f) := by
  cases hok : c.linkInstalledToDesired i f with
  | ok c' =>
    obtain ⟨refs, hins, hr⟩ := linkInstalledToDesired_ok hok
    exact ⟨h.link hf hnone hi hkey hins hr, hr.trackedFlows, hr.installedFlows⟩
  | error e =>
    intro _ hp
    unfold linkInstalledToDesired at hok
    split at hok
    next e' he' =>
      obtain ⟨-, hfc, g, hg, hgc⟩ := insertPreferred_error he'
      exact hpeace hp hfc g hg hgc
    · cases hok

/-- Two flows of conjunctions would be linked: one is deleted but still tracked. -/
theorem Wired.peace (hdel : peaceful → (c.desired f).hasConj = true → ∀ g ∈ c.trackedFlows,
      (c.desired g).isDeleted = true → (c.desired g).hasConj = true →
      (c.desired f).key ≠ (c.desired g).key)
    (hp : peaceful) (hfc : (c.desired f).hasConj = true) :
    ∀ g ∈ c.refsOf i, (c.desired g).hasConj ≠ true := by
  intro g hg hgc
  obtain ⟨hlink, hgk, hin⟩ := h.linked i hi g hg
  rcases hin with hin | ⟨hin, hgd⟩
  · have he : g = f := h.unique hp g hin f hf hgc hfc (hgk.trans hkey.symm)
    rw [he, hnone] at hlink
    cases hlink
  · exact hdel hp hfc g hin hgd hgc (hkey.trans hgk.symm)

end

/-- What the modification of an installed flow leaves alone. -/
structure Modified (c c' : Core μ α) : Prop where
  same : c.Same c'
  trackedFlows : c'.trackedFlows = c.trackedFlows
  installedFlows : c'.installedFlows = c.installedFlows
  nextInstalled : c'.nextInstalled = c.nextInstalled
  refs : c'.refsOf = c.refsOf
  link : c'.linkOf = c.linkOf
  key : ∀ j, (c'.installed j).key = (c.installed j).key

theorem modified_installedFlowMod (fits : FlowMod μ α → Bool) (i d : ℕ) :
    c.Modified (c.installedFlowMod fits i d) := by
  have hs := same_installedFlowMod (c := c) fits i d
  unfold Core.installedFlowMod at hs ⊢
  rw [addFlowMod_eq] at hs ⊢
  refine ⟨hs, rfl, rfl, rfl, funext fun j => ?_, rfl, fun j => ?_⟩
  · by_cases hj : j = i <;> simp [refsOf, setInstalled, hj]
  · by_cases hj : j = i <;> simp [setInstalled, hj]

theorem Wired.modified (h : c.Wired peaceful) (hm : c.Modified c') : c'.Wired peaceful := by
  refine h.relinked hm.same hm.trackedFlows hm.installedFlows hm.nextInstalled hm.key ?_
  rw [hm.refs, hm.link]
  exact ⟨h.linked, h.listed, h.sorted⟩

variable {f : ℕ}

theorem ends_linkConflict (fits : FlowMod μ α → Bool)
    (h : Ends (Clash peaceful) (c.Relinked peaceful) (c.linkInstalledToDesired i f)) :
    Ends (Clash peaceful) (c.Relinked peaceful) (c.linkConflict fits i f) := by
  refine Ends.bind h fun c₁ h1 => ?_
  split
  · have hm := modified_installedFlowMod (c := c₁) fits i f
    exact ⟨h1.wired.modified hm, hm.trackedFlows.trans h1.trackedFlows,
      hm.installedFlows.trans h1.installedFlows⟩
  · exact h1

/-! ## Comparing -/

theorem Rewired.refl (c : Core μ α) : c.Rewired c c.refsOf c.linkOf :=
  ⟨Same.refl c, rfl, rfl, rfl, rfl, fun _ => rfl, fun _ => rfl, fun _ => rfl⟩

theorem Rewired.trans {c'' : Core μ α} {r r' : ℕ → List ℕ} {l l' : ℕ → Option ℕ}
    (h : c.Rewired c' r l) (h' : c'.Rewired c'' r' l') : c.Rewired c'' r' l' :=
  ⟨h.same.trans h'.same, h'.trackedFlows.trans h.trackedFlows,
    h'.installedFlows.trans h.installedFlows,
    h'.nextInstalled.trans h.nextInstalled, h'.msgs.trans h.msgs,
    fun i => (h'.flow i).trans (h.flow i), h'.refs, h'.link⟩

theorem Rewired.congr {r r' : ℕ → List ℕ} {l l' : ℕ → Option ℕ} (h : c.Rewired c' r l)
    (hr : ∀ i, r' i = r i) (hl : ∀ d, l' d = l d) : c.Rewired c' r' l' :=
  { h with refs := fun i => (h.refs i).trans (hr i).symm, link :=
    fun d => (h.link d).trans (hl d).symm }

theorem ends_unlinkAllRefs (h : c.Wired peaceful) (hi : i ∈ c.installedFlows) :
    Ends (Clash peaceful) (fun c' => c.Rewired c' (update c.refsOf i [])
      fun d => if d ∈ c.refsOf i then none else c.linkOf d) (c.unlinkAllRefs i) := by
  have hloop := Ends.foldlM_done (E := Clash peaceful)
    (f := fun c d => unlinkInstalledToDesired c i d)
    (R := fun done c' => c.Rewired c' (update c.refsOf i ((c.refsOf i).filter fun d => d ∉ done))
      fun d => if d ∈ done then none else c.linkOf d) (l := c.refsOf i) (s := c) ?_ ?_
  · refine hloop.mono fun c' hc' => ?_
    have hnil : (c.refsOf i).filter (fun d => d ∉ c.refsOf i) = [] := by simp
    rwa [hnil] at hc'
  · intro done d c' hpre hc'
    by_cases hdone : d ∈ done
    · -- not linked any more
      have hlink : (c'.desired d).installedFlow ≠ some i := by simp [hc'.link d, if_pos hdone]
      rw [unlinkInstalledToDesired, if_pos hlink]
      exact clash_assertion
    · have hlink : c'.linkOf d = some i := by
        rw [linkOf, hc'.link d, if_neg hdone]
        exact (h.linked i hi d (hpre.subset mem_concat_self)).1
      obtain ⟨c'', hok, hr⟩ := unlinkInstalledToDesired_rewired hlink
      rw [hok]
      have hrefs : c'.refsOf = _ := funext hc'.refs
      have hlinks : c'.linkOf = _ := funext hc'.link
      have hr' := hc'.trans hr
      rw [hrefs, hlinks] at hr'
      rw [update_self, update_idem, filter_filter] at hr'
      refine hr'.congr (fun j => congrFun (congrArg _ (filter_congr fun e _ => ?_)) j) fun e => ?_
      · by_cases he : e = d <;> simp [he]
      · by_cases he : e = d <;> simp [he]
  · simpa using Rewired.refl c

theorem Wired.unlinkAll (h : c.Wired peaceful) (hi : i ∈ c.installedFlows)
    (hr : c.Rewired c' (update c.refsOf i []) fun d => if d ∈ c.refsOf i then none
      else c.linkOf d) :
    c'.Wired peaceful := by
  refine h.rewired hr ⟨fun j hj d hd => ?_, fun d hd j hl => ?_, fun j hj => ?_⟩
  · obtain ⟨-, hd⟩ | ⟨hji, hd⟩ := mem_update_iff.1 hd
    · cases hd
    · have hd' := h.linked j hj d hd
      rw [if_neg fun hin => hji (Option.some_inj.1 (hd'.1.symm.trans (h.linked i hi d hin).1))]
      exact hd'
  · by_cases hin : d ∈ c.refsOf i
    · rw [if_pos hin] at hl
      cases hl
    · rw [if_neg hin] at hl
      obtain ⟨hj, hdj⟩ := h.listed d hd j hl
      refine ⟨hj, mem_update_iff.2 (.inr ⟨?_, hdj⟩)⟩
      rintro rfl
      exact hin hdj
  · rw [update_apply]
    split
    · exact Pairwise.nil
    · exact h.sorted j hj

theorem ends_installedFlowDestroy {Q : Core μ α → Prop} (h : Q c) :
    Ends (Clash peaceful) Q (c.installedFlowDestroy i) := by
  unfold installedFlowDestroy
  split
  · exact clash_assertion
  · exact h

theorem ends_desiredFlowDestroy {Q : Core μ α → Prop} (h : Q c) :
    Ends (Clash peaceful) Q (c.desiredFlowDestroy f) := by
  unfold desiredFlowDestroy
  split
  · exact clash_assertion
  · exact h

theorem Wired.unlinked (h : c.Wired peaceful) (hf : f ∈ c.matchFlowTable)
    (hfree : ∀ i ∈ c.installedFlows, (c.installed i).key ≠ (c.desired f).key) :
    c.linkOf f = none := by
  cases hlink : c.linkOf f with
  | none => rfl
  | some i =>
    obtain ⟨hi, hin⟩ := h.listed f (.inl hf) i hlink
    exact absurd (h.linked i hi f hin).2.1.symm (hfree i hi)

theorem untrack_eq {l : List ℕ} (ht : c.trackedFlows = f :: l) (h : c.trackedFlows.Nodup) :
    (c.untrack f).trackedFlows = l := by
  change c.trackedFlows.filter (· ≠ f) = l
  rw [ht] at h ⊢
  exact Tables.filter_ne_head h

theorem Wired.dropDeleted (h : c.Wired peaceful) (hlink : c.linkOf f = some i) :
    ∃ c', (c.untrack f).unlinkInstalledToDesired i f = .ok c' ∧ c'.Wired peaceful ∧
      (c.untrack f).Rewired c' (update c.refsOf i ((c.refsOf i).filter (· ≠ f)))
        (update c.linkOf f none) := by
  obtain ⟨c₁, hok, hr⟩ := unlinkInstalledToDesired_rewired hlink
  obtain ⟨c', hok', hr'⟩ := unlinkInstalledToDesired_rewired (c := c.untrack f) hlink
  have hnone : c₁.linkOf f = none := (hr.link f).trans (update_self ..)
  have hw : (c₁.untrack f).Wired peaceful := (h.unlink hlink hr).untrack fun _ => hnone
  have heq : c' = c₁.untrack f := by
    have h1 : c.unlinkInstalledToDesired i f = .ok _ := if_neg (not_not.2 hlink)
    have h2 : (c.untrack f).unlinkInstalledToDesired i f = .ok _ := if_neg (not_not.2 hlink)
    rw [hok] at h1
    rw [hok'] at h2
    cases h1
    cases h2
    rfl
  exact ⟨c', hok', heq ▸ hw, hr'⟩

theorem ends_installNew (fits : FlowMod μ α → Bool) (h : c.Wired peaceful)
    (hf : f ∈ c.matchFlowTable)
    (hfree : ∀ i ∈ c.installedFlows, (c.installed i).key ≠ (c.desired f).key) :
    Ends (Clash peaceful) (fun c' => c'.Wired peaceful ∧ c'.trackedFlows = c.trackedFlows)
      ((c.installedFlowAdd fits f).linkInstalledToDesired c.nextInstalled f) := by
  have hnone := h.unlinked hf hfree
  have hw := h.installedFlowAdd fits hfree
  have hrefs := refsOf_installedFlowAdd (c := c) fits f
  have hkey : ((c.installedFlowAdd fits f).desired f).key =
      ((c.installedFlowAdd fits f).installed c.nextInstalled).key := by
    rw [installedFlowAdd_eq]
    dsimp only
    rw [update_self]
  refine (ends_link hw ?_ ?_ ?_ hkey ?_).mono fun c' hc' => ⟨hc'.1, hc'.2.trans ?_⟩
  · rw [installedFlowAdd_eq]
    exact hf
  · rw [installedFlowAdd_eq]
    exact hnone
  · exact mem_cons_self
  · intro _ _ g hg
    rw [hrefs] at hg
    cases hg
  · rw [installedFlowAdd_eq]

/-- The state of `merge_tracked_flows`: the deleted flows that were met, and those to come. -/
structure Merging (peaceful : Prop) (l : List ℕ) (s : Core μ α × List ℕ) : Prop where
  wired : s.1.Wired peaceful
  nodup : l.Nodup
  left : ∀ f ∈ l, f ∈ s.1.trackedFlows ∧ f ∉ s.2
  deleted : ∀ d ∈ s.2, d ∈ s.1.trackedFlows ∧ (s.1.desired d).isDeleted = true

/-- A flow that replaces the deleted one is wired in its place, and neither is tracked any more. -/
theorem Merging.merged {d : ℕ} {l deleted : List ℕ} {c₁ : Core μ α}
    (h : Merging peaceful (f :: l) (c, deleted)) (hd : d ∈ deleted) (h1 : c₁.Wired peaceful)
    (hs : c.Same c₁) (ht : c₁.trackedFlows = c.trackedFlows) (hnone : c₁.linkOf d = none)
    (hf : (c.desired f).isDeleted = false) :
    Merging peaceful l (((c₁.untrack d).untrack f), deleted.filter (· ≠ d)) := by
  obtain ⟨hfl, hnodup⟩ := nodup_cons.1 h.nodup
  have hmem : ∀ e, e ∈ ((c₁.untrack d).untrack f).trackedFlows ↔
      e ∈ c.trackedFlows ∧ e ≠ d ∧ e ≠ f := by
    intro e
    change e ∈ (c₁.trackedFlows.filter (· ≠ d)).filter (· ≠ f) ↔ _
    simp only [mem_filter, decide_eq_true_eq, ht, and_assoc]
  refine ⟨(h1.untrack fun _ => hnone).untrack fun hdel => ?_, hnodup, fun e he => ?_,
    fun e he => ?_⟩
  · exact absurd ((hs.isDeleted f).symm.trans hdel) (by rw [hf]; decide)
  · have hel := h.left e (mem_cons_of_mem f he)
    refine ⟨(hmem e).2 ⟨hel.1, ?_, ne_of_mem_of_not_mem he hfl⟩, fun hin => ?_⟩
    · rintro rfl
      exact hel.2 hd
    · exact hel.2 (mem_of_mem_filter hin)
  · obtain ⟨hin, hne⟩ := mem_filter.1 he
    rw [decide_eq_true_iff] at hne
    obtain ⟨htr, hdel⟩ := h.deleted e hin
    refine ⟨(hmem e).2 ⟨htr, hne, ?_⟩, (hs.isDeleted e).trans hdel⟩
    rintro rfl
    exact absurd (hf.symm.trans hdel) (by decide)

section
variable [DecidableEq μ] [DecidableEq α] (fits : FlowMod μ α → Bool)

/-- What comparing needs: nothing is tracked, and the order is one of the table. -/
structure Comparing (peaceful : Prop) (table : List ℕ) (c : Core μ α) : Prop where
  wired : c.Wired peaceful
  quiet : c.trackedFlows = []
  perm : table.Perm c.matchFlowTable

/-- The first loop of comparing, with the installed flows that are left. -/
def ComparingLeft (peaceful : Prop) (table l : List ℕ) (c : Core μ α) : Prop :=
  Comparing peaceful table c ∧ l.Nodup ∧ ∀ j ∈ l, j ∈ c.installedFlows

theorem ends_compareInstalled {table l : List ℕ} {i : ℕ}
    (hl : ComparingLeft peaceful table (i :: l) c) :
    Ends (Clash peaceful) (ComparingLeft peaceful table l) (c.compareInstalled fits table i) := by
  obtain ⟨h, hnodup, hl⟩ := hl
  obtain ⟨hil, hnodup⟩ := nodup_cons.1 hnodup
  have hi := hl i mem_cons_self
  refine Ends.bind (ends_unlinkAllRefs h.wired hi) fun c₁ hr => ?_
  have h1 := h.wired.unlinkAll hi hr
  have hrefs : c₁.refsOf i = [] := (hr.refs i).trans (update_self ..)
  have hi1 : i ∈ c₁.installedFlows := hr.installedFlows.symm ▸ hi
  have hperm : table.Perm c₁.matchFlowTable := hr.same.matchFlowTable.symm ▸ h.perm
  have hquiet : c₁.trackedFlows = [] := hr.trackedFlows.trans h.quiet
  have hrest : ∀ j ∈ l, j ∈ c₁.installedFlows ∧ j ≠ i := fun j hj =>
    ⟨hr.installedFlows.symm ▸ hl j (mem_cons_of_mem i hj), ne_of_mem_of_not_mem hj hil⟩
  split
  · refine ends_installedFlowDestroy ⟨⟨h1.installedFlowDel fits hrefs, ?_, ?_⟩, hnodup, ?_⟩
    · rw [installedFlowDel_eq]
      exact hquiet
    · rw [installedFlowDel_eq]
      exact hperm
    · intro j hj
      exact mem_filter.2 ⟨(hrest j hj).1, by simpa using (hrest j hj).2⟩
  next d hd =>
    obtain ⟨hin, hkey, -⟩ := desiredFlowLookup_mem hd
    have hdm : d ∈ c₁.matchFlowTable := hperm.mem_iff.1 hin
    have hnone : c₁.linkOf d = none := by
      cases hlink : c₁.linkOf d with
      | none => rfl
      | some j =>
        -- it would be linked to the installed flow with its key, which is this one
        obtain ⟨hj, hdj⟩ := h1.listed d (.inl hdm) j hlink
        have hji : j = i := h1.keys j hj i hi1 ((h1.linked j hj d hdj).2.1.symm.trans hkey)
        rw [hji, hrefs] at hdj
        cases hdj
    have hc2 : ∀ c₂ : Core μ α, c₁.Modified c₂ →
        Ends (Clash peaceful) (ComparingLeft peaceful table l) (c₂.linkInstalledToDesired i d) := by
      intro c₂ hm
      have hsame := same_linkInstalledToDesired (c := c₂) i d
      refine ((ends_link (h1.modified hm) (hm.same.matchFlowTable.symm ▸ hdm) (hm.link ▸ hnone)
        (hm.installedFlows.symm ▸ hi1) ?_ ?_).and hsame).mono ?_
      · rw [hm.key, hm.same.flow]
        exact hkey
      · simp [hm.refs, hrefs]
      · rintro c₃ ⟨⟨h3, ht3, hinst3⟩, hs3⟩
        refine ⟨⟨h3, (ht3.trans hm.trackedFlows).trans hquiet, ?_⟩, hnodup, fun j hj => ?_⟩
        · rw [hs3.matchFlowTable, hm.same.matchFlowTable]
          exact hperm
        · rw [hinst3, hm.installedFlows]
          exact (hrest j hj).1
    split
    · exact hc2 c₁ ⟨Same.refl c₁, rfl, rfl, rfl, rfl, rfl, fun _ => rfl⟩
    · exact hc2 _ (modified_installedFlowMod fits i d)

omit [DecidableEq α] in
theorem installedFlowLookup_some {flow : OvnFlow μ α} {i : ℕ}
    (h : c.installedFlowLookup flow = some i) :
    i ∈ c.installedFlows ∧ (c.installed i).key = flow.key :=
  ⟨mem_of_find?_eq_some h, by simpa using find?_some h⟩

omit [DecidableEq α] in
theorem installedFlowLookup_none {flow : OvnFlow μ α} (h : c.installedFlowLookup flow = none) :
    ∀ i ∈ c.installedFlows, (c.installed i).key ≠ flow.key := fun i hi => by
  simpa using find?_eq_none.1 h i hi

omit [DecidableEq α] in
theorem ends_compareDesired {table : List ℕ} {d : ℕ} (h : Comparing peaceful table c)
    (hd : d ∈ table) :
    Ends (Clash peaceful) (Comparing peaceful table) (c.compareDesired fits d) := by
  have hdm : d ∈ c.matchFlowTable := h.perm.mem_iff.1 hd
  have hsame := same_compareDesired (c := c) fits d
  have hw : Ends (Clash peaceful) (fun c' => c'.Wired peaceful ∧ c'.trackedFlows = c.trackedFlows)
      (c.compareDesired fits d) := by
    unfold compareDesired
    split
    next hnone => exact ends_installNew fits h.wired hdm (installedFlowLookup_none hnone)
    next i hi =>
      obtain ⟨hin, hkey⟩ := installedFlowLookup_some hi
      split
      · rename_i hlink
        refine (ends_linkConflict fits (ends_link h.wired hdm hlink hin hkey.symm ?_)).mono
          fun c' hc' => ⟨hc'.1, hc'.2⟩
        refine h.wired.peace hdm hlink hin hkey.symm fun _ _ g hg => ?_
        rw [h.quiet] at hg
        cases hg
      · exact ⟨h.wired, rfl⟩
  refine (hw.and hsame).mono ?_
  rintro c' ⟨⟨hw', ht⟩, hs⟩
  exact ⟨hw', ht.trans h.quiet, hs.matchFlowTable.symm ▸ h.perm⟩

theorem ends_updateInstalledFlowsByCompare (o : Orders) (h : c.Wired peaceful) :
    Ends (Clash peaceful) (fun c' => c'.Wired peaceful)
      (c.updateInstalledFlowsByCompare fits o) := by
  unfold updateInstalledFlowsByCompare
  split
  · exact clash_assertion
  rename_i hquiet
  have hperm := o.matchFlowTable.perm c.matchFlowTable
  have h0 : Comparing peaceful (o.matchFlowTable.order c.matchFlowTable) c :=
    ⟨h, not_not.1 hquiet, hperm⟩
  have hinst := o.installedFlows.perm c.installedFlows
  refine Ends.bind
    (Ends.foldlM (I := ComparingLeft peaceful (o.matchFlowTable.order c.matchFlowTable))
    (fun i l c' hc' => ends_compareInstalled fits hc') _ c
    ⟨h0, hinst.nodup_iff.2 h.nodupInstalled, fun j hj => hinst.mem_iff.1 hj⟩) fun c₁ h1 => ?_
  refine (Ends.foldlM (I := fun l c' => (∀ d ∈ l, d ∈ o.matchFlowTable.order c.matchFlowTable) ∧
    Comparing peaceful (o.matchFlowTable.order c.matchFlowTable) c') ?_ _ c₁
    ⟨fun _ hd => hd, h1.1⟩).mono fun c' hc' => hc'.2.wired
  rintro d l c' ⟨hl, hc'⟩
  refine (ends_compareDesired fits hc' (hl d mem_cons_self)).mono fun c₂ h2 => ⟨?_, h2⟩
  exact (forall_mem_cons.1 hl).2

/-! ## Tracking -/

omit [DecidableEq α] in
/-- **The loop of `update_installed_flows_by_track`**, with the flows that are left. -/
theorem ends_updateTracked {f : ℕ} {l : List ℕ} (h : c.Wired peaceful)
    (ht : c.trackedFlows = f :: l) :
    Ends (Clash peaceful) (fun c' => c'.Wired peaceful ∧ c'.trackedFlows = l)
      (c.updateTracked fits f) := by
  have hl := untrack_eq ht h.nodupTracked
  have hft : f ∈ c.trackedFlows := ht ▸ mem_cons_self
  unfold updateTracked
  dsimp only
  split
  next hdel =>
    split
    · rename_i hlink
      exact ends_desiredFlowDestroy ⟨h.untrack fun _ => hlink, hl⟩
    rename_i i hlink
    obtain ⟨c₁, hok, hw, hr⟩ := h.dropDeleted hlink
    rw [hok]
    have ht1 : c₁.trackedFlows = l := hr.trackedFlows.trans hl
    refine Ends.bind (Q := (c₁ = ·)) rfl ?_
    rintro _ rfl
    refine Ends.bind (Q := fun c' => c'.Wired peaceful ∧ c'.trackedFlows = l) ?_
      fun c₂ hc2 => ends_desiredFlowDestroy hc2
    split
    · rename_i hactive
      have hempty : c₁.refsOf i = [] := head?_eq_none_iff.1 hactive
      refine ends_installedFlowDestroy ⟨hw.installedFlowDel fits hempty, ?_⟩
      rw [installedFlowDel_eq]
      exact ht1
    · rename_i d _
      split
      · have hm := modified_installedFlowMod (c := c₁) fits i d
        exact ⟨hw.modified hm, hm.trackedFlows.trans ht1⟩
      · exact ⟨hw, ht1⟩
  next hdel =>
    have hdel' : (c.desired f).isDeleted = false := Bool.eq_false_iff.2 hdel
    have hfm : f ∈ c.matchFlowTable := h.present f hft hdel'
    have hw := h.untrack (f := f) fun hd => absurd hd hdel
    split
    · rename_i hnone
      exact (ends_installNew fits hw hfm (installedFlowLookup_none hnone)).mono
        fun c' hc' => ⟨hc'.1, hc'.2.trans hl⟩
    · rename_i i hi
      obtain ⟨hin, hkey⟩ := installedFlowLookup_some hi
      split
      · have hm := modified_installedFlowMod (c := c.untrack f) fits i f
        exact ⟨hw.modified hm, hm.trackedFlows.trans hl⟩
      split
      · rename_i hlink
        refine (ends_linkConflict fits (ends_link hw hfm hlink hin hkey.symm ?_)).mono
          fun c' hc' => ⟨hc'.1, hc'.2.trans hl⟩
        -- the deleted ones come before this one, and are gone
        refine hw.peace hfm hlink hin hkey.symm fun hp hfc g hg hgd hgc => ?_
        have hord := h.order hp
        rw [ht] at hord
        rw [hl] at hg
        exact (pairwise_cons.1 hord).1 g hg hdel' hgd hfc hgc
      · exact ⟨hw, hl⟩

/-- A deleted flow that is found is one of those met, the same as the new one, and linked. -/
theorem deletedFlowLookup_some {target : OvnFlow μ α} {d : ℕ} : ∀ {l : List ℕ},
    c.deletedFlowLookup target l = .ok (some d) →
    d ∈ l ∧ (c.desired d).key = target.key ∧ (c.desired d).ofpacts = target.ofpacts ∧
      (c.desired d).cookie = target.cookie ∧
      ∃ i, c.linkOf d = some i ∧ (c.installed i).ofpacts = target.ofpacts ∧
        (c.installed i).cookie = target.cookie
  | e :: l, h => by
    unfold deletedFlowLookup at h
    split at h
    next hsame =>
      split at h
      · cases h
      rename_i i hlink
      split at h
      · rename_i hsame'
        cases h
        simp only [sameActions, Bool.and_eq_true, decide_eq_true_eq] at hsame hsame'
        exact ⟨mem_cons_self, hsame.1, hsame.2.2, hsame.2.1, i, hlink, hsame'.2, hsame'.1⟩
      · exact ⟨mem_cons_of_mem e (deletedFlowLookup_some h).1, (deletedFlowLookup_some h).2⟩
    · exact ⟨mem_cons_of_mem e (deletedFlowLookup_some h).1, (deletedFlowLookup_some h).2⟩

theorem ends_deletedFlowLookup {target : OvnFlow μ α} : ∀ l : List ℕ,
    Ends (Clash peaceful) (fun r => c.deletedFlowLookup target l = .ok r)
      (c.deletedFlowLookup target l) := by
  intro l
  cases hl : c.deletedFlowLookup target l with
  | ok r => rfl
  | error e =>
    induction l with
    | nil => cases hl
    | cons d l ih =>
      unfold deletedFlowLookup at hl
      split at hl
      · split at hl
        · cases hl
          exact clash_assertion
        · split at hl
          · cases hl
          · exact ih hl
      · exact ih hl

theorem ends_mergeTrackedFlow {f : ℕ} {l : List ℕ} {s : Core μ α × List ℕ} (o : HashOrder ℕ)
    (h : Merging peaceful (f :: l) s) :
    Ends (Clash peaceful) (Merging peaceful l) (mergeTrackedFlow o s f) := by
  obtain ⟨c, deleted⟩ := s
  obtain ⟨hfl, hnodup⟩ := nodup_cons.1 h.nodup
  obtain ⟨hft, hfd⟩ := h.left f mem_cons_self
  unfold mergeTrackedFlow
  dsimp only
  split
  next hdel =>
    refine ⟨h.wired, hnodup, fun e he => ?_, forall_mem_cons.2 ⟨⟨hft, hdel⟩, h.deleted⟩⟩
    have hel := h.left e (mem_cons_of_mem f he)
    refine ⟨hel.1, fun hin => ?_⟩
    rcases mem_cons.1 hin with rfl | hin
    · exact hfl he
    · exact hel.2 hin
  next hdel =>
    have hdel' : (c.desired f).isDeleted = false := Bool.eq_false_iff.2 hdel
    have hfm : f ∈ c.matchFlowTable := h.wired.present f hft hdel'
    refine Ends.bind (ends_deletedFlowLookup _) fun found hfound => ?_
    split
    · exact ⟨h.wired, hnodup, (forall_mem_cons.1 h.left).2, h.deleted⟩
    rename_i d
    obtain ⟨hin, hkey, hacts, -, i, hlink, -⟩ := deletedFlowLookup_some hfound
    have hdd : d ∈ deleted := (o.perm deleted).mem_iff.1 hin
    have hdt := (h.deleted d hdd).1
    obtain ⟨hi, hdi⟩ := h.wired.listed d (.inr hdt) i hlink
    have hne : d ≠ f := by
      rintro rfl
      exact hfd hdd
    split
    · exact clash_assertion
    rename_i j hj
    obtain rfl : j = i := Option.some_inj.1 (hj.symm.trans hlink)
    refine Ends.bind (Q := fun c₁ => c₁.Wired peaceful ∧ c.Same c₁ ∧
      c₁.trackedFlows = c.trackedFlows ∧ c₁.linkOf d = none) ?_ ?_
    · split
      · rename_i hnone
        obtain ⟨c₁, hok, hr⟩ := replaceInstalledToDesired_rewired hlink
        rw [hok]
        refine ⟨h.wired.replace hlink hi hfm hnone hkey hacts hdi hr, hr.same, hr.trackedFlows, ?_⟩
        rw [linkOf, hr.link d, update_of_ne hne, update_self]
      · split
        · exact clash_assertion
        · obtain ⟨c₁, hok, hr⟩ := unlinkInstalledToDesired_rewired hlink
          rw [hok]
          refine ⟨h.wired.unlink hlink hr, hr.same, hr.trackedFlows, ?_⟩
          rw [linkOf, hr.link d, update_self]
    · rintro c₁ ⟨h1, hs, ht, hnone⟩
      refine Ends.bind (ends_desiredFlowDestroy rfl) ?_
      rintro _ rfl
      exact h.merged hdd h1 hs ht hnone hdel'

theorem ends_updateInstalledFlowsByTrack (o : Orders) (h : c.Wired peaceful) :
    Ends (Clash peaceful) (fun c' => c'.Wired peaceful) (c.updateInstalledFlowsByTrack fits o) := by
  have h0 : Merging peaceful c.trackedFlows (c, []) :=
    ⟨h, h.nodupTracked, fun f hf => ⟨hf, not_mem_nil⟩, nofun⟩
  refine Ends.bind (Ends.foldlM (I := Merging peaceful)
    (fun f l s hs => ends_mergeTrackedFlow o.deletedFlows hs) _ _ h0) ?_
  rintro ⟨c₁, deleted⟩ h1
  exact (Ends.foldlM (I := fun l (c' : Core μ α) => c'.Wired peaceful ∧ c'.trackedFlows = l)
    (fun f l c' hc' => ends_updateTracked fits hc'.1 hc'.2) _ c₁ ⟨h1.wired, rfl⟩).mono
      fun c' hc' => hc'.1

end

/-! ## Clearing -/

theorem Wired.removes (h : c.Wired peaceful) (hq : c.Quiet) (hr : c.Removes c') :
    c'.Wired peaceful ∧ c'.Quiet := by
  induction hr with
  | refl => exact ⟨h, hq⟩
  | step _ hf hok ih => exact ⟨ih.1.removeFlow ih.2 hf hok, ih.2.removeFlow hok⟩

theorem Wired.setTracked (h : c.Wired peaceful) (b : Bool) :
    ({ c with changeTracked := b } : Core μ α).Wired peaceful := { h with }

theorem Quiet.trackAdd (h : c.Quiet) (f : ℕ) : (c.trackFlowAddOrModify f).Quiet := by
  unfold trackFlowAddOrModify
  split
  · exact h
  next ht =>
    intro hc
    have hc' : c.changeTracked = false := hc
    simp [hc'] at ht

def dropInstalled (i : ℕ) (c : Core μ α) : Core μ α :=
  { c with installedFlows := c.installedFlows.filter (· ≠ i) }

/-- The links of a flow that is removed from the installed ones are cut. -/
theorem ends_clearInstalled {l : List ℕ} (h : c.Wired peaceful) (hl : c.installedFlows = i :: l) :
    Ends (Clash peaceful) (fun c' => c'.Wired peaceful ∧ c'.installedFlows = l ∧
        c'.trackedFlows = c.trackedFlows ∧ c'.changeTracked = c.changeTracked) (do
        let c := { c with installedFlows := c.installedFlows.filter (· ≠ i) }
        let c ← c.unlinkAllRefs i
        c.installedFlowDestroy i) := by
  have hi : i ∈ c.installedFlows := hl ▸ mem_cons_self
  have hrest : c.installedFlows.filter (· ≠ i) = l := by
    have hnodup := h.nodupInstalled
    rw [hl] at hnodup ⊢
    exact Tables.filter_ne_head hnodup
  -- the links are cut whether the flow is still in the table or not
  have hun : ∀ (ds : List ℕ) (c₁ : Core μ α),
      ds.foldlM (fun c d => unlinkInstalledToDesired c i d) (c₁.dropInstalled i) =
      (ds.foldlM (fun c d => unlinkInstalledToDesired c i d) c₁).map (dropInstalled i) := by
    intro ds
    induction ds with
    | nil => exact fun c₁ => rfl
    | cons d ds ih =>
      intro c₁
      have hstep : (c₁.dropInstalled i).unlinkInstalledToDesired i d =
          (c₁.unlinkInstalledToDesired i d).map (dropInstalled i) := by
        unfold unlinkInstalledToDesired dropInstalled
        split <;> rfl
      rw [foldlM_cons, foldlM_cons, hstep]
      cases c₁.unlinkInstalledToDesired i d with
      | error e => rfl
      | ok c₂ => exact ih c₂
  have hall := ends_unlinkAllRefs h hi
  have heq := hun (c.installed i).desiredRefs c
  refine Ends.bind ?_ fun c₁ hc1 => ends_installedFlowDestroy hc1
  change Ends _ _ ((c.installed i).desiredRefs.foldlM _ (c.dropInstalled i))
  rw [heq]
  refine Ends.map (hall.mono fun c₂ hr => ?_)
  have hw := h.unlinkAll hi hr
  have hempty : c₂.refsOf i = [] := (hr.refs i).trans (update_self ..)
  have hdel := hw.installedFlowDel (fun _ => false) hempty
  exact ⟨{ hdel with }, (congrArg _ hr.installedFlows).trans hrest, hr.trackedFlows,
    hr.same.changeTracked⟩

end Core

/-! ## Every run -/

namespace Tables

variable {peaceful : Prop} {t : Tables μ α}

/-- The links are in order, and nothing is tracked that should not be. -/
structure Installed (peaceful : Prop) (t : Tables μ α) : Prop where
  wired : t.toCore.Wired peaceful
  quiet : t.toCore.Quiet

theorem ends_destroy {f : ℕ} {Q : Tables μ α → Prop} (h : Q t) :
    Ends (Core.Clash peaceful) Q (t.desiredFlowDestroy f) := by
  unfold desiredFlowDestroy
  split
  · exact Core.clash_assertion
  · refine Ends.map (Ends.mono (Core.ends_desiredFlowDestroy rfl) ?_)
    rintro _ rfl
    exact h

theorem ends_clearTracked_wired {f : ℕ} {l : List ℕ} (h : t.toCore.Wired peaceful)
    (ht : t.trackedFlows = f :: l) :
    Ends (Core.Clash peaceful) (fun t' => t'.toCore.Wired peaceful ∧ t'.trackedFlows = l ∧
      t'.changeTracked = t.changeTracked) (clearTracked t f) := by
  have hl := Core.untrack_eq ht h.nodupTracked
  unfold clearTracked
  dsimp only
  split
  next hdel =>
    split
    · rename_i hlink
      exact ends_destroy ⟨h.untrack fun _ => hlink, hl, rfl⟩
    rename_i i hlink
    obtain ⟨c₁, hok, hw, hr⟩ := h.dropDeleted hlink
    rw [hok]
    refine Ends.bind rfl ?_
    rintro _ rfl
    exact ends_destroy ⟨hw, hr.trackedFlows.trans hl, hr.same.changeTracked⟩
  next hdel => exact ⟨h.untrack fun hd => absurd hd hdel, hl, rfl⟩

theorem Installed.removes {β : Type} {f : β → Tables μ α} {x : Except Fail β}
    (h : Installed peaceful t)
    (hx : Ends (Aborts False) (fun s => Ready False [] (f s) ∧ t.toCore.Removes (f s).toCore) x) :
    Ends (Core.Clash peaceful) (fun s => Installed peaceful (f s) ∧ Ready False [] (f s)) x := by
  refine (hx.weaken fun e he => ?_).mono fun s hs => ?_
  · rw [he.1]
    exact Core.clash_assertion
  · obtain ⟨hw, hq⟩ := h.wired.removes h.quiet hs.2
    exact ⟨⟨hw, hq⟩, hs.1⟩

theorem ends_desiredFlowTableClear_wired (hready : Ready False [] t) (h : Installed peaceful t) :
    Ends (Core.Clash peaceful) (Installed peaceful) t.desiredFlowTableClear := by
  have h0 : ({ t with changeTracked := false } : Tables μ α).toCore.Wired peaceful :=
    h.wired.setTracked false
  have hr0 : Ready False [] ({ t with changeTracked := false } : Tables μ α) := hready.core rfl rfl
  refine Ends.bind (Q := fun t' => (t'.toCore.Wired peaceful ∧ t'.trackedFlows = [] ∧
    t'.changeTracked = false) ∧ Ready False [] t') ?_ ?_
  · refine Ends.and ?_ ?_
    · exact Ends.foldlM (I := fun l (t' : Tables μ α) => t'.toCore.Wired peaceful ∧
        t'.trackedFlows = l ∧ t'.changeTracked = false) (fun f l t' ht' =>
        (ends_clearTracked_wired ht'.1 ht'.2.1).mono fun t₂ h2 => ⟨h2.1, h2.2.1,
          h2.2.2.trans ht'.2.2⟩)
        _ _ ⟨h0, rfl, rfl⟩
    · exact Ends.foldlM (I := fun _ => Ready False []) (fun f _ t' ht' => ends_clearTracked ht' f) _
        _ hr0
  · rintro t₁ ⟨⟨hw, ht, hc⟩, hr⟩
    refine (Ends.foldlM (I := fun _ (t' : Tables μ α) => Installed peaceful t' ∧ Ready False [] t')
      ?_ _ t₁
      ⟨⟨hw, fun _ => ht⟩, hr⟩).mono fun t' ht' => ht'.1
    rintro u l t' ⟨hi, hr'⟩
    exact hi.removes (ends_removeFlows hr' u)

theorem ends_installedFlowTableClear_wired (h : Installed peaceful t) :
    Ends (Core.Clash peaceful) (Installed peaceful) t.installedFlowTableClear := by
  refine Ends.map
    ((Ends.foldlM (I := fun l (c : Core μ α) => c.Wired peaceful ∧ c.installedFlows = l ∧
    c.trackedFlows = t.trackedFlows ∧ c.changeTracked = t.changeTracked) ?_ _ t.toCore
    ⟨h.wired, rfl, rfl, rfl⟩).mono fun c hc => ⟨hc.1, fun hf => ?_⟩)
  · rintro i l c ⟨hw, hl, ht, hc⟩
    exact (Core.ends_clearInstalled hw hl).mono fun c' h' =>
      ⟨h'.1, h'.2.1, h'.2.2.1.trans ht, h'.2.2.2.trans hc⟩
  · exact hc.2.2.1.trans (h.quiet (hc.2.2.2.symm.trans hf))

section
variable [DecidableEq μ] [DecidableEq α]

theorem ends_put_wired (fits : FlowMod μ α → Bool) (h : Installed peaceful t) (o : Orders)
    (changed : Bool) :
    Ends (Core.Clash peaceful) (Installed peaceful) (t.put fits o changed) := by
  refine Ends.bind (Q := fun c => c.Wired peaceful) ?_ fun c hc => ?_
  · split
    · exact h.wired
    · split
      · exact Core.ends_updateInstalledFlowsByCompare fits o h.wired
      · split
        · exact Core.clash_assertion
        · exact Core.ends_updateInstalledFlowsByTrack fits o h.wired
  · split
    · exact Core.clash_assertion
    next ht => exact ⟨hc.setTracked true, fun hf => by cases hf⟩

omit [DecidableEq μ] [DecidableEq α] in
theorem Installed.insertLinked (h : Installed peaceful t) (flow : OvnFlow μ α) (u : ℕ)
    (asInfo : Option AddrsetInfo)
    (hnew : peaceful → flow.hasConj = true → ∀ d ∈ t.matchFlowTable, (t.desired d).hasConj = true →
      (t.desired d).key ≠ flow.key) : Installed peaceful (t.insertLinked flow u asInfo) :=
  ⟨(h.wired.insertFlow flow hnew).trackAdd mem_cons_self,
    Core.Quiet.trackAdd (c := t.toCore.insertFlow flow) h.quiet _⟩

/-- What is appended to a flow of conjunctions leaves it one. -/
theorem hasConj_appendOfpacts {f g : List (Ofpact α)} (h : f.any (·.isConj) = true) :
    (Core.appendOfpacts f g).any (·.isConj) = true := by
  unfold Core.appendOfpacts
  rw [any_append, h, Bool.true_or]

theorem Installed.addOrAppendFlow (h : Installed peaceful t) (o : HashOrder ℕ) (flow : OvnFlow μ α)
    (u : ℕ)
    (asInfo : Option AddrsetInfo)
    (hmeter : peaceful → flow.hasConj = true → ∀ d ∈ t.matchFlowTable,
      (t.desired d).hasConj = true →
      (t.desired d).key = flow.key → (t.desired d).ctrlMeterId = flow.ctrlMeterId) :
    Installed peaceful (t.addOrAppendFlow o flow u asInfo) := by
  unfold Tables.addOrAppendFlow
  split
  next hnone =>
    refine h.insertLinked flow u asInfo fun hp hc d hd hdc hk => ?_
    have hnot := find?_eq_none.1 hnone d ((o.perm _).mem_iff.2 hd)
    simp [hk, hmeter hp hc d hd hdc hk, hdc] at hnot
  next f hf =>
    obtain ⟨hm, -, -, hconj⟩ := Core.lookupConjunctive_mem hf
    have hw := (h.wired.setActions hconj (hasConj_appendOfpacts (g := flow.ofpacts) hconj)).trackAdd
      hm
    have hq : (t.toCore.setDesired f fun x =>
        { x with ofpacts := Core.appendOfpacts x.ofpacts flow.ofpacts }).Quiet := h.quiet
    exact ⟨hw, hq.trackAdd f⟩

end

end Tables

section
variable [DecidableEq μ] [DecidableEq α]

/-- What logical flow processing calls: flows that are added have no conjunctions, and flows of
    conjunctions are appended to one that is there. -/
def Call.Logical : Call μ α → Prop
  | .addFlow flow _ _ => flow.hasConj = false
  | _ => True

def Op.Logical : Op μ α → Prop
  | .call c => c.Logical
  | _ => True

/-- Where a flow of conjunctions is appended, those that are there with its key have its meter. -/
def Call.SameMeter (t : Tables μ α) : Call μ α → Prop
  | .addOrAppendFlow _ flow _ _ => flow.hasConj = true → ∀ d ∈ t.matchFlowTable,
    (t.desired d).hasConj = true → (t.desired d).key = flow.key →
      (t.desired d).ctrlMeterId = flow.ctrlMeterId
  | _ => True

def Op.SameMeter (t : Tables μ α) : Op μ α → Prop
  | .call c => c.SameMeter t
  | _ => True

instance (t : Tables μ α) : ∀ c : Call μ α, Decidable (c.SameMeter t)
  | .addOrAppendFlow _ flow _ _ => inferInstanceAs (Decidable (flow.hasConj = true →
    ∀ d ∈ t.matchFlowTable, (t.desired d).hasConj = true → (t.desired d).key = flow.key →
      (t.desired d).ctrlMeterId = flow.ctrlMeterId))
  | .addFlow .. | .removeFlows _ | .floodRemoveFlows _ | .removeFlowsForAsIp .. =>
    inferInstanceAs (Decidable True)

instance (t : Tables μ α) : ∀ op : Op μ α, Decidable (op.SameMeter t)
  | .call c => inferInstanceAs (Decidable (c.SameMeter t))
  | .clear | .put .. | .clearInstalled => inferInstanceAs (Decidable True)

variable {t : Tables μ α}

theorem Call.ends_wired {peaceful : Prop} (hready : t.Ready False []) (h : t.Installed peaceful)
    (c : Call μ α) (hl : c.Logical) (hm : peaceful → c.SameMeter t) :
    Ends (Core.Clash peaceful) (Tables.Installed peaceful) (c.run t) := by
  cases c with
  | addFlow flow u asInfo =>
    change Tables.Installed peaceful (t.checkAndAddFlowMetered flow u asInfo)
    unfold Tables.checkAndAddFlowMetered
    split
    · exact h
    · have hl' : flow.hasConj = false := hl
      exact h.insertLinked flow u asInfo fun _ hc => absurd (hl'.symm.trans hc) (by decide)
  | addOrAppendFlow o flow u asInfo => exact h.addOrAppendFlow o flow u asInfo hm
  | removeFlows u => exact (h.removes (Tables.ends_removeFlows hready u)).mono fun _ => And.left
  | floodRemoveFlows nodes =>
    exact (h.removes (Tables.ends_floodRemoveFlows hready nodes)).mono fun _ => And.left
  | removeFlowsForAsIp u info n =>
    exact Ends.map ((h.removes (Tables.ends_removeFlowsForAsIp hready u info n)).mono
      fun _ => And.left)

theorem Op.ends_wired {peaceful : Prop} (fits : FlowMod μ α → Bool) (hready : t.Ready False [])
    (h : t.Installed peaceful) (op : Op μ α) (hl : op.Logical) (hm : peaceful → op.SameMeter t) :
    Ends (Core.Clash peaceful) (Tables.Installed peaceful) (op.run fits t) := by
  cases op with
  | call c => exact c.ends_wired hready h hl hm
  | clear => exact Tables.ends_desiredFlowTableClear_wired hready h
  | put o changed => exact Tables.ends_put_wired fits h o changed
  | clearInstalled => exact Tables.ends_installedFlowTableClear_wired h

omit [DecidableEq μ] [DecidableEq α] in
theorem Tables.installed_empty {peaceful : Prop} (desired : ℕ → DesiredFlow μ α)
    (installed : ℕ → InstalledFlow μ α) (sfr : ℕ → SbFlowRef) :
    (Tables.empty desired installed sfr).Installed peaceful := by
  refine ⟨⟨?_, ?_, ?_, ?_, ?_, ?_, ?_, ?_, ?_, ?_, ?_, ?_, ?_⟩, fun _ => rfl⟩ <;>
    simp [Tables.empty]

/-- The links are in order in every state of a run whose meters are as they should be. -/
theorem installed_of_reached {fits : FlowMod μ α → Bool} {desired : ℕ → DesiredFlow μ α}
    {installed : ℕ → InstalledFlow μ α} {sfr : ℕ → SbFlowRef}
    (h : (system fits desired installed sfr).Reached (fun t op => op.Logical ∧ op.SameMeter t) t) :
    t.Installed True ∧ t.Ready False [] := by
  refine h.invariant (I := fun t => t.Installed True ∧ t.Ready False [])
    ⟨Tables.installed_empty desired installed sfr, ready_of_reached (P := fun _ _ => True)
      (fun _ _ _ hs => hs.elim) .init⟩ fun t op t' ht hop hnext => ?_
  exact ((op.ends_wired fits ht.2 ht.1 hop.1 fun _ => hop.2).and
    (op.ends_run fits ht.2 False.elim)).of_toOption hnext

end

/-- **Conjunctions.** As long as the flows of conjunctions with one key have one meter, no
    installed flow is linked to two of them in any state of any run, and the code that is not
    reached in `flow_is_preferred` is not reached. -/
theorem conjunctions_single [DecidableEq μ] [DecidableEq α] (fits : FlowMod μ α → Bool)
    (desired : ℕ → DesiredFlow μ α) (installed : ℕ → InstalledFlow μ α) (sfr : ℕ → SbFlowRef)
    {t : Tables μ α} (h : (system fits desired installed sfr).Reached
      (fun t op => op.Logical ∧ op.SameMeter t) t) :
    (∀ i ∈ t.installedFlows, (t.installed i).desiredRefs.Pairwise fun d e =>
      ¬ ((t.desired d).hasConj = true ∧ (t.desired e).hasConj = true)) ∧
    ∀ op : Op μ α, op.Logical → op.SameMeter t → op.run fits t ≠ .error .notReached := by
  obtain ⟨hi, hr⟩ := installed_of_reached h
  refine ⟨fun i hin => (hi.wired.sorted i hin).imp fun {d e} hahead hboth => ?_,
    fun op hl hm => (op.ends_wired fits hr hi hl fun _ => hm).ne_error fun he => he rfl trivial⟩
  rw [OvnFlow.hasConj_iff, OvnFlow.hasConj_iff] at hboth
  exact hahead.2 hboth

def appendMetered (u meter : ℕ) : Op Unit Unit :=
  .call (.addOrAppendFlow ⟨id, Perm.refl⟩ ⟨⟨0, 0, ()⟩, [.conjunction u 2 1], 0, meter⟩ u none)

def putListed : Op Unit Unit :=
  .put ⟨⟨id, Perm.refl⟩, ⟨id, Perm.refl⟩, ⟨id, Perm.refl⟩⟩ true

/-- Two rows with one meter share a flow, which is installed. -/
theorem conjunctions_single_shared :
    ∃ t, unitSystem.Reached (fun t op => op.Logical ∧ op.SameMeter t) t ∧
    t.installedFlows = [0] ∧ (t.installed 0).desiredRefs = [0] ∧
    (∀ i ∈ t.installedFlows, (t.installed i).desiredRefs.Pairwise fun d e =>
      ¬ ((t.desired d).hasConj = true ∧ (t.desired e).hasConj = true)) ∧
    putListed.run (fun _ => true) t ≠ .error .notReached := by
  have hreached := ((System.Reached.init (S := unitSystem)
    (P := fun t op => op.Logical ∧ op.SameMeter t)).step (a := appendMetered 1 7)
      ⟨trivial, by decide⟩ rfl).step (a := appendMetered 2 7) ⟨trivial, by decide⟩ rfl
  have hput := hreached.step (a := putListed) ⟨trivial, trivial⟩ rfl
  have h := conjunctions_single _ _ _ _ hput
  exact ⟨_, hput, by decide, by decide, h.1, h.2 putListed trivial trivial⟩

/-- Two rows with meters of their own have a flow each, and the flows cannot be installed. -/
theorem conjunctions_clash : ∃ t, unitSystem.Reached (fun _ op => op.Logical) t ∧
    putListed.run (fun _ => true) t = .error .notReached :=
  ⟨_, (System.Reached.init.step (a := appendMetered 1 7) trivial rfl).step (a := appendMetered 2 8)
    trivial rfl, rfl⟩

end Ovn.FlowTable

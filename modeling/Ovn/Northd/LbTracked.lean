/-
  The switches whose load balancers changed are tracked.

  `northd_handle_lb_data_changes` tells the nodes behind it which switches to look at again.
  What it says is enough for `ls_has_lb_vip`: whether a switch has a load balancer with a VIP,
  directly or through a group, changes only where the switch is tracked.  This needs less of the
  datapath sets than their being exact: that they have the switches of the content.
-/
import Ovn.Northd.LbChanges

namespace Ovn.Lb

open Function (update_of_ne update_self)

def Nb.HasVip (nb : Nb) (od : ℕ) : Prop :=
  ∃ L row, nb.Assoc .ls od L ∧ rowOf (·.uuid) nb.lbs L = some row ∧ row.vips ≠ []

namespace Northd

variable {nb : Nb} {dp : Datapaths} {d : LbData} {k : OdKind} {od o G L : ℕ}

/-! ## Loops that only go up -/

def InGrp (s : Northd) (k : OdKind) (G o : ℕ) : Prop := ∃ g, s.grp G = some g ∧ o ∈ g k

/-- Nothing is taken away. -/
structure Grows (s s' : Northd) : Prop where
  facts : s.facts ⊆ s'.facts
  arrays : ∀ k G o, s.InGrp k G o → s'.InGrp k G o
  tracked : s.lsWithChangedLbs ⊆ s'.lsWithChangedLbs

theorem Grows.refl (s : Northd) : Grows s s := ⟨subset_rfl, fun _ _ _ h => h, subset_rfl⟩

theorem Grows.trans {s t u : Northd} (h : Grows s t) (h' : Grows t u) : Grows s u :=
  ⟨h.facts.trans h'.facts, fun k G o hin => h'.arrays k G o (h.arrays k G o hin),
    h.tracked.trans h'.tracked⟩

/-- A handler that returns true; how else it ends does not matter. -/
abbrev AnyFail : Fail → Prop := fun _ => True

theorem grows_addToLb (s : Northd) (ods : List ℕ) :
    Ends AnyFail (fun s' => Grows s s' ∧ ∀ o ∈ ods, .od k L o ∈ s'.facts) (s.addToLb k ods L) := by
  by_cases hL : .lb L ∈ s.facts
  · obtain ⟨e, he⟩ := hL
    have hfacts := facts_update (e := e.add k ods) (F := odFacts k L ods) he
      (fun k' o => by simp [LbDps.mem_add]) odFacts_spec
    unfold addToLb
    simp only [he]
    refine ⟨⟨?_, fun _ _ _ h => h, subset_rfl⟩, fun o ho => ?_⟩
    · rw [hfacts]
      exact Set.subset_union_left
    · rw [hfacts]
      exact .inr ⟨o, ho, rfl⟩
  · unfold addToLb
    cases he : s.lb L with
    | none => trivial
    | some e => exact absurd ⟨e, he⟩ hL

theorem grows_addToGrp (s : Northd) (ods : List ℕ) :
    Ends AnyFail (fun s' => Grows s s' ∧ ∀ o ∈ ods, s'.InGrp k G o) (s.addToGrp dp k ods G) := by
  unfold addToGrp
  cases hg : s.grp G with
  | none => trivial
  | some g =>
    dsimp only
    by_cases hlen : (g k).length + ods.length ≤ (dp.ods k).length
    case neg =>
      rw [if_neg hlen]
      trivial
    rw [if_pos hlen]
    refine ⟨⟨subset_rfl, ?_, subset_rfl⟩, fun o ho => ⟨_, update_self .., ?_⟩⟩
    · rintro k' G' o ⟨g', hg', ho⟩
      by_cases hG : G' = G
      · subst hG
        obtain rfl : g = g' := Option.some.inj (hg.symm.trans hg')
        refine ⟨_, update_self .., ?_⟩
        by_cases hk : k' = k
        · simp_all
        · rwa [update_of_ne hk]
      · exact ⟨g', (update_of_ne hG ..).trans hg', ho⟩
    · simp [*]

theorem grows_addToLbsTracked (s : Northd) (ods lbs : List ℕ) :
    Ends AnyFail (fun s' => Grows s s' ∧ ∀ L ∈ lbs, ∀ o ∈ ods, .od k L o ∈ s'.facts)
      (lbs.foldlM (addToLbTracked k ods) s) := by
  refine Ends.foldlM_each Grows.refl Grows.trans
    (fun L s s' h hP o ho => h.facts (hP o ho)) lbs s fun L _ s₁ _ => ?_
  refine Ends.bind (grows_addToLb s₁ ods) fun s₂ h2 => ?_
  exact ⟨⟨h2.1.facts, h2.1.arrays, h2.1.tracked⟩, h2.2⟩

def Gained (nb : Nb) (k : OdKind) (c : CrupdatedOd) (s : Northd) : Prop :=
  odAssocFacts nb k c ⊆ s.facts ∧ (∀ G ∈ c.assocLbgrps, s.InGrp k G c.od) ∧
    (k = .ls → c.od ∈ s.lsWithChangedLbs)

theorem Gained.mono {c : CrupdatedOd} {s s' : Northd} (hs : Grows s s') (h : Gained nb k c s) :
    Gained nb k c s' :=
  ⟨h.1.trans hs.facts, fun G hG => hs.arrays _ _ _ (h.2.1 G hG), fun hk => hs.tracked (h.2.2 hk)⟩

theorem grows_assocLbgrp (hd : d.Of nb) (s : Northd) :
    Ends AnyFail (fun s' => Grows s s' ∧ s'.InGrp k G od ∧
      ∀ L, nb.GrpLb G L → .od k L od ∈ s'.facts) (s.assocLbgrp dp d k od G) := by
  refine Ends.bind (grows_addToGrp s [od]) fun s₁ h1 => ?_
  have hmap := hd.lbgrps G
  cases hgrp : d.lbgrps G with
  | none => trivial
  | some grp =>
    rw [hgrp] at hmap
    refine (grows_addToLbsTracked s₁ [od] grp.lbs).mono fun s₂ h2 => ⟨h1.1.trans h2.1, ?_, ?_⟩
    · exact h2.1.arrays _ _ _ (h1.2 od (List.mem_singleton_self od))
    · simp_all [Nb.GrpLb, ← hmap]

theorem grows_assocOd (hd : d.Of nb) (s : Northd) (c : CrupdatedOd) :
    Ends AnyFail (fun s' => Grows s s' ∧ Gained nb k c s') (s.assocOd dp d k c) := by
  unfold assocOd
  split
  · trivial
  refine Ends.bind (grows_addToLbsTracked s [c.od] c.assocLbs) fun s₁ h1 => ?_
  refine Ends.bind (Ends.foldlM_each Grows.refl Grows.trans
    (fun G s s' h hP => ⟨h.arrays _ _ _ hP.1, fun L hL => h.facts (hP.2 L hL)⟩) c.assocLbgrps s₁
    fun G _ s' _ => grows_assocLbgrp hd s') fun s₂ h2 => ?_
  have hgrows : Grows s s₂ := h1.1.trans h2.1
  have hfacts : odAssocFacts nb k c ⊆ s₂.facts := by
    rintro f ⟨L, hL | ⟨G, hG, hL⟩, rfl⟩
    · exact h2.1.facts (h1.2 L hL c.od (List.mem_singleton_self _))
    · exact (h2.2 G hG).2 L hL
  cases k with
  | ls =>
    exact ⟨⟨hgrows.facts, hgrows.arrays, hgrows.tracked.trans (Finset.subset_insert _ _)⟩, hfacts,
      fun G hG => (h2.2 G hG).1, fun _ => Finset.mem_insert_self _ _⟩
  | lr => exact ⟨hgrows, hfacts, fun G hG => (h2.2 G hG).1, fun h => (by cases h)⟩

theorem grows_assocOds (hd : d.Of nb) (s : Northd) (cs : List CrupdatedOd) :
    Ends AnyFail (fun s' => Grows s s' ∧ ∀ c ∈ cs, Gained nb k c s')
      (cs.foldlM (assocOd dp d k) s) :=
  Ends.foldlM_each Grows.refl Grows.trans (fun _ _ _ h hP => hP.mono h) cs s
    fun c _ s' _ => grows_assocOd hd s' c

theorem grows_trackLs (s : Northd) (lbs : List ℕ) : Ends AnyFail (fun s' => Grows s s' ∧
      ∀ L ∈ lbs, ∀ o, .od .ls L o ∈ s.facts → o ∈ s'.lsWithChangedLbs) (lbs.foldlM trackLs s) := by
  refine Ends.foldlM_each Grows.refl Grows.trans (fun L s s' h hP o ho => h.tracked (hP o ho))
    lbs s fun L _ s₁ hs1 => ?_
  unfold trackLs
  cases he : s₁.lb L with
  | none => trivial
  | some e =>
    refine ⟨⟨subset_rfl, fun _ _ _ h => h, Finset.subset_union_left⟩, fun o ho => ?_⟩
    obtain ⟨e', he', ho⟩ := hs1.facts ho
    obtain rfl : e = e' := Option.some.inj (he.symm.trans he')
    exact Finset.mem_union_right _ ho

theorem grows_assocLb (s : Northd) (g : OdKind → List ℕ) :
    Ends AnyFail (fun s' => Grows s s' ∧ ∀ o ∈ g .ls, .od .ls L o ∈ s'.facts ∧
      o ∈ s'.lsWithChangedLbs) (s.assocLb g L) := by
  refine Ends.bind (grows_addToLb s (g .lr)) fun s₁ h1 => ?_
  refine Ends.bind (grows_addToLb s₁ (g .ls)) fun s₂ h2 => ?_
  have hgrows := h1.1.trans h2.1
  exact ⟨⟨hgrows.facts, hgrows.arrays, hgrows.tracked.trans Finset.subset_union_left⟩,
    fun o ho => ⟨h2.2 o ho, Finset.mem_union_right _ (List.mem_toFinset.2 ho)⟩⟩

theorem grows_assocLbs (s : Northd) (cs : List CrupdatedLbgrp) :
    Ends AnyFail (fun s' => Grows s s' ∧ ∀ c ∈ cs, ∀ L ∈ c.assocLbs, ∀ o, s.InGrp .ls c.lbgrp o →
      .od .ls L o ∈ s'.facts ∧ o ∈ s'.lsWithChangedLbs) (cs.foldlM assocLbs s) := by
  refine Ends.foldlM_each Grows.refl Grows.trans
    (fun c s s' h hP L hL o ho => ⟨h.facts (hP L hL o ho).1, h.tracked (hP L hL o ho).2⟩) cs s
    fun c _ s₁ hs1 => ?_
  unfold assocLbs
  cases hg : s₁.grp c.lbgrp with
  | none => trivial
  | some g =>
    refine (Ends.foldlM_each Grows.refl Grows.trans
      (fun L s s' h hP o ho => ⟨h.facts (hP o ho).1, h.tracked (hP o ho).2⟩) c.assocLbs s₁
      fun L _ s' _ => grows_assocLb s' g).mono fun s₂ h2 => ⟨h2.1, fun L hL o ho => ?_⟩
    obtain ⟨g', hg', ho⟩ := hs1.arrays _ _ _ ho
    obtain rfl : g = g' := Option.some.inj (hg.symm.trans hg')
    exact h2.2 L hL o ho

theorem grows_createLbs (s : Northd) (lbs : List ℕ) :
    Ends AnyFail (fun s' => Grows s s' ∧ ∀ L ∈ lbs, .lb L ∈ s'.facts) (lbs.foldlM createLb s) := by
  refine Ends.foldlM_each Grows.refl Grows.trans (P := fun L s' => .lb L ∈ s'.facts)
    (fun L s s' h hP => h.facts hP) lbs s fun L _ s₁ _ => ?_
  refine ⟨⟨?_, fun _ _ _ h => h, subset_rfl⟩, ⟨_, update_self ..⟩⟩
  intro f hf
  by_cases hL : f.lbOf = L
  · subst hL
    cases f with
    | lb M => exact ⟨_, update_self ..⟩
    | od k M o =>
      obtain ⟨e, he, ho⟩ := hf
      refine ⟨_, update_self .., ?_⟩
      simp only [Fact.lbOf, he]
      exact ho
  · cases f with
    | lb M =>
      obtain ⟨e, he⟩ := hf
      exact ⟨e, (update_of_ne hL ..).trans he⟩
    | od k M o =>
      obtain ⟨e, he, ho⟩ := hf
      exact ⟨e, (update_of_ne hL ..).trans he, ho⟩

theorem grows_createGrps (s : Northd) (cs : List CrupdatedLbgrp) :
    Ends AnyFail (Grows s) (cs.foldlM createGrp s) := by
  refine (Ends.foldlM_each Grows.refl Grows.trans (P := fun _ _ => True) (fun _ _ _ _ h => h) cs s
    fun c _ s₁ _ => ?_).mono fun s' h => h.1
  refine ⟨⟨subset_rfl, ?_, subset_rfl⟩, trivial⟩
  rintro k G o ⟨g, hg, ho⟩
  by_cases hG : G = c.lbgrp
  · subst hG
    exact ⟨g, by simp [hg], ho⟩
  · exact ⟨g, (update_of_ne hG ..).trans hg, ho⟩

end Northd

/-! ## The handler -/

/-- The datapath sets have the load balancers and the switches of the content. -/
structure Covers (dp : Datapaths) (nb : Nb) (s : Northd) : Prop where
  lbs : ∀ L, nb.HasLb L → .lb L ∈ s.facts
  sets : ∀ L o, o ∈ dp.ods .ls → nb.Assoc .ls o L → .od .ls L o ∈ s.facts
  arrays : ∀ G o, o ∈ dp.ods .ls → nb.OdGrp .ls o G → s.InGrp .ls G o

section
variable {dp dp' : Datapaths} {nb nb' : Nb} {n : Node} {s : Northd}

theorem Exact.covers (h : Exact dp nb s) : Covers dp nb s where
  lbs L hL := by
    rw [h.facts]
    exact hL
  sets L o ho hL := by
    rw [h.facts]
    exact .inl ⟨ho, hL⟩
  arrays G o ho hG := by
    obtain ⟨g, hg⟩ := (h.grps G).2 hG.hasGrp
    exact ⟨g, hg, (h.arrays G g hg).2.mem_iff.2 (List.mem_append_left _ (mem_direct.2 ⟨ho, hG⟩))⟩

/-- What the loops of the handler leave, from what they found. -/
structure Handled (dp : Datapaths) (nb nb' : Nb) (n : Node) (s' : Northd) : Prop where
  lbs : ∀ L, nb'.HasLb L → .lb L ∈ s'.facts
  kept : ∀ L o, o ∈ dp.ods .ls → nb.Assoc .ls o L → nb'.HasLb L → .od .ls L o ∈ s'.facts
  keptGrp : ∀ G o, o ∈ dp.ods .ls → nb.OdGrp .ls o G → s'.InGrp .ls G o
  gained : ∀ c ∈ n.trk.crupdatedOds .ls, Northd.Gained nb' .ls c s'
  joined : ∀ c ∈ n.trk.crupdatedLbgrps, ∀ L ∈ c.assocLbs, ∀ o, o ∈ dp.ods .ls →
    nb'.OdGrp .ls o c.lbgrp → .od .ls L o ∈ s'.facts ∧ o ∈ s'.lsWithChangedLbs
  deleted : ∀ L o, o ∈ dp.ods .ls → nb.Assoc .ls o L → ¬ nb'.HasLb L → o ∈ s'.lsWithChangedLbs
  updated : ∀ L ∈ n.trk.crupdatedLbs, ∀ o, o ∈ dp.ods .ls → nb.Assoc .ls o L → nb'.HasLb L →
    o ∈ s'.lsWithChangedLbs

theorem Covers.handled (hs : Covers dp nb s)
    (hgrown : n.trk.hasDissassocLbsFromLbgrps = false → n.trk.deletedLbgrps = [] →
      n.trk.hasDissassocLbsFromOd = false → n.trk.hasDissassocLbgrpsFromOd = false →
      Grown dp' nb nb' n) :
    Ends Northd.AnyFail (fun s' => Grown dp' nb nb' n ∧ Handled dp nb nb' n s')
      (s.handleLbDataChanges dp n) := by
  unfold Northd.handleLbDataChanges
  split
  · trivial
  split
  · trivial
  split
  · trivial
  split
  · trivial
  split
  · trivial
  split
  · trivial
  split
  · trivial
  rename_i _ hlbgrps hgone hlbs _ hods _
  have h := hgrown (by simpa using hlbgrps) (by simpa using hgone) (by simpa using hlbs)
    (by simpa using hods)
  refine Ends.bind ((Northd.ends_deleteLbs n.trk.deletedLbs h.nodup
    fun L hL => hs.lbs L ((h.deleted L).1 hL).1).weaken fun _ _ => trivial) fun s₁ h1 => ?_
  refine Ends.bind (Northd.grows_createLbs s₁ n.trk.crupdatedLbs) fun s₂ h2 => ?_
  refine Ends.bind (Northd.grows_createGrps s₂ n.trk.crupdatedLbgrps) fun s₃ h3 => ?_
  refine Ends.bind (Northd.grows_assocOds h.data s₃ (n.trk.crupdatedOds .ls)) fun s₄ h4 => ?_
  refine Ends.bind (Northd.grows_assocOds h.data s₄ (n.trk.crupdatedOds .lr)) fun s₅ h5 => ?_
  refine Ends.bind (Northd.grows_trackLs s₅ n.trk.crupdatedLbs) fun s₆ h6 => ?_
  refine (Northd.grows_assocLbs s₆ n.trk.crupdatedLbgrps).mono fun s₇ h7 => ⟨h, ?_⟩
  have h13 : Northd.Grows s₁ s₃ := h2.1.trans h3
  have h15 : Northd.Grows s₁ s₅ := h13.trans (h4.1.trans h5.1)
  have h47 : Northd.Grows s₄ s₇ := h5.1.trans (h6.1.trans h7.1)
  have h17 : Northd.Grows s₁ s₇ := h15.trans (h6.1.trans h7.1)
  -- what was not deleted was kept
  have hkept : ∀ f ∈ s.facts, nb'.HasLb f.lbOf → f ∈ s₁.facts := by
    intro f hf hin
    rw [h1.1]
    exact ⟨hf, fun hdel => ((h.deleted _).1 hdel).2 hin⟩
  have hgrp : ∀ G o, o ∈ dp.ods .ls → nb.OdGrp .ls o G → s₁.InGrp .ls G o := by
    intro G o ho hG
    obtain ⟨g, hg, hin⟩ := hs.arrays G o ho hG
    exact ⟨g, by rw [h1.2.1, hg], hin⟩
  constructor
  case lbs =>
    intro L hL
    by_cases hold : nb.HasLb L
    · exact h17.facts (hkept _ (hs.lbs L hold) hL)
    · exact (h3.trans (h4.1.trans h47)).facts (h2.2 L (h.created hL hold))
  case kept => exact fun L o ho hL hin => h17.facts (hkept _ (hs.sets L o ho hL) hin)
  case keptGrp => exact fun G o ho hG => h17.arrays _ _ _ (hgrp G o ho hG)
  case gained => exact fun c hc => (h4.2 c hc).mono h47
  case joined =>
    intro c hc L hL o ho hG
    refine h7.2 c hc L hL o ?_
    by_cases hold : nb.OdGrp .ls o c.lbgrp
    · exact (h15.trans h6.1).arrays _ _ _ (hgrp _ o ho hold)
    · obtain ⟨e, he, rfl, hin⟩ := (h.ods .ls).foundLbgrp o c.lbgrp hG hold List.not_mem_nil
      exact (h5.1.trans h6.1).arrays _ _ _ ((h4.2 e he).2.1 _ hin)
  case deleted =>
    intro L o ho hL hno
    exact h17.tracked (h1.2.2.2 L ((h.deleted L).2 ⟨hL.hasLb, hno⟩) o (hs.sets L o ho hL))
  case updated =>
    intro L hL o ho hassoc hin
    exact h7.1.tracked (h6.2 L hL o (h15.facts (hkept _ (hs.sets L o ho hassoc) hin)))

/-- **The switches that are tracked.** The sets have the switches of the new content, and where a
    switch gains or loses its last load balancer with a VIP, it is tracked. -/
theorem Handled.covers (hgrown : Grown dp' nb nb' n) (h : Handled dp nb nb' n s) :
    Covers dp nb' s ∧ ∀ o ∈ dp.ods .ls, ¬ (nb.HasVip o ↔ nb'.HasVip o) →
      o ∈ s.lsWithChangedLbs := by
  refine ⟨⟨h.lbs, fun L o ho hL => ?_, fun G o ho hG => ?_⟩, fun o ho hne => ?_⟩
  · rcases hgrown.cases_assoc hL with hwas | ⟨c, hc, rfl, hin, -⟩ | ⟨c, hc, hin, hG⟩
    · exact h.kept L o ho hwas hL.hasLb
    · exact (h.gained c hc).1 ⟨L, hin, rfl⟩
    · exact (h.joined c hc L hin o ho hG).1
  · by_cases hold : nb.OdGrp .ls o G
    · exact h.keptGrp G o ho hold
    · obtain ⟨c, hc, rfl, hin⟩ := (hgrown.ods .ls).foundLbgrp o G hG hold List.not_mem_nil
      exact (h.gained c hc).2.1 G hin
  · -- a load balancer of the switch in both contents, but with a VIP in only one
    have hupd : ∀ {L row row'}, nb.Assoc .ls o L → rowOf (·.uuid) nb.lbs L = some row →
        rowOf (·.uuid) nb'.lbs L = some row' → row' ≠ row → o ∈ s.lsWithChangedLbs := by
      intro L row row' hL hrow hrow' hdiff
      have hin : nb'.HasLb L := isSome_rowOf.1 (by rw [hrow']; rfl)
      refine h.updated L (hgrown.changed L hin ?_) o ho hL hin
      rw [hrow, hrow']
      exact fun heq => hdiff (Option.some.inj heq)
    by_cases hv : nb.HasVip o
    · obtain ⟨L, row, hL, hrow, hvips⟩ := hv
      cases hrow' : rowOf LbRow.uuid nb'.lbs L with
      | none => exact h.deleted L o ho hL (rowOf_eq_none.1 hrow')
      | some row' =>
        refine hupd hL hrow hrow' ?_
        rintro rfl
        have hin : nb'.HasLb L := isSome_rowOf.1 (by rw [hrow']; rfl)
        exact hne
          (iff_of_true ⟨L, row', hL, hrow, hvips⟩ ⟨L, row', hgrown.assoc hL hin, hrow', hvips⟩)
    · have hv' : nb'.HasVip o := by simp_all
      obtain ⟨L, row', hL, hrow', hvips⟩ := hv'
      rcases hgrown.cases_assoc hL with hwas | ⟨c, hc, rfl, -⟩ | ⟨c, hc, hin, hG⟩
      · cases hrow : rowOf LbRow.uuid nb.lbs L with
        | none => exact absurd hwas.hasLb (rowOf_eq_none.1 hrow)
        | some row =>
          refine hupd hwas hrow hrow' ?_
          rintro rfl
          exact hv ⟨L, row', hwas, hrow, hvips⟩
      · exact (h.gained c hc).2.2 rfl
      · exact (h.joined c hc L hin o ho hG).2

theorem covers_iterate {inp : Input} {s : State} (hd : s.data.Of s.nb)
    (hs : Covers dp s.nb s.northd)
    (hv : Valid s.nb inp) :
    Ends Northd.AnyFail (fun s' => s'.nb = inp.nb ∧ s'.data.Of s'.nb ∧ Covers dp s'.nb s'.northd ∧
      (∀ t ∈ inp.ods .ls, t.isNew = false ∧ t.isDeleted = false) ∧
      ∀ o ∈ dp.ods .ls, ¬ (s.nb.HasVip o ↔ s'.nb.HasVip o) → o ∈ s'.northd.lsWithChangedLbs)
      (s.iterate dp inp) := by
  refine Ends.bind ((ends_handle hd hv).weaken fun _ _ => trivial) fun n hn => ?_
  split
  · trivial
  rename_i hods
  -- which routers have a datapath, and their peers, do not matter here
  let dp' : Datapaths :=
    { ods := Function.update dp.ods .lr (inp.tracked .lr)
      lsPeers := dp.lsPeers
      installLsLbFromRouter := false }
  have hr : ∀ t ∈ inp.ods .lr, t.row.uuid ∈ dp'.ods .lr := fun t ht => List.mem_map_of_mem ht
  have hods' : odsHandled dp inp = true := by simpa using hods
  have hcov : Covers dp s.nb { lb := s.northd.lb, grp := s.northd.grp } :=
    ⟨hs.lbs, hs.sets, hs.arrays⟩
  refine Ends.bind (hcov.handled (hn.grown hv hr hods')) fun s' hs' => ?_
  obtain ⟨hcov', htrk⟩ := hs'.2.covers hs'.1
  refine ⟨rfl, ⟨hn.lbs.map.done, congrFun hn.grps.map.done, fun k => congrFun (hn.ods k).map.done⟩,
    hcov', fun t ht => ?_, htrk⟩
  have := List.all_eq_true.1 (Bool.and_eq_true_iff.1 hods').1 t ht
  simp only [Bool.and_eq_true, Bool.not_eq_true'] at this
  exact this.1.1

end

end Ovn.Lb

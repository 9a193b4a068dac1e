/-
  The datapath sets of the load balancers are kept exactly.

  * the loops of `northd_handle_lb_data_changes`, as facts that they add and arrays that they
    extend,
  * from what holds of the old content, and from what lb_data tracked, follows what holds of
    the new one,
  * by induction on the iterations: the sets are those that a recompute would build, unless a
    router with peers gained a load balancer while `install_ls_lb_from_router` was set.
-/
import Ovn.Northd.LbDatapaths

namespace Ovn.Lb

open Function (update update_of_ne)
open List

namespace Northd

variable {nb : Nb} {k : OdKind} {od o G L : ℕ}

/-! ## The loops -/

/-- A load balancer that differs from what it was in `s₀` is tracked. -/
def Traced (s₀ s : Northd) : Prop :=
  ∀ L, L ∉ s.crupdated → L ∉ s.deleted → s.lb L = s₀.lb L

/-- The facts of a state, whose groups are all there. -/
structure Kept (nb : Nb) (s₀ : Northd) (X : Set Fact) (s : Northd) : Prop where
  facts : s.facts = X
  grps : ∀ G, nb.HasGrp G → ∃ g, s.grp G = some g
  tracked : Traced s₀ s

variable {s₀ : Northd}

theorem ends_deleteLbs (l : List ℕ) (hnodup : l.Nodup) (hin : ∀ L ∈ l, .lb L ∈ s₀.facts) :
    Ends Falls (fun s => s.facts = s₀.facts \ {f | f.lbOf ∈ l} ∧ s.grp = s₀.grp ∧ Traced s₀ s ∧
      ∀ L ∈ l, ∀ o, .od .ls L o ∈ s₀.facts → o ∈ s.lsWithChangedLbs) (l.foldlM deleteLb s₀) := by
  have hloop := Ends.foldlM (E := Falls) (f := deleteLb) (I := fun rest (s : Northd) => rest.Nodup ∧
      (∀ L ∈ rest, L ∈ l ∧ .lb L ∈ s.facts) ∧
      s.facts = s₀.facts \ {f | f.lbOf ∈ l ∧ f.lbOf ∉ rest} ∧ s.grp = s₀.grp ∧ Traced s₀ s ∧
      ∀ L ∈ l, L ∉ rest → ∀ o, .od .ls L o ∈ s₀.facts → o ∈ s.lsWithChangedLbs) ?_ l s₀ ?_
  · refine hloop.mono fun s hs => ⟨?_, hs.2.2.2.1, hs.2.2.2.2.1, fun L hL =>
      hs.2.2.2.2.2 L hL not_mem_nil⟩
    simpa using hs.2.2.1
  · rintro L rest s ⟨hnd, hrest, hfacts, hgrp, htrk, hls⟩
    obtain ⟨hL, hnd⟩ := nodup_cons.1 hnd
    obtain ⟨hLl, d, hd⟩ := hrest L mem_cons_self
    unfold deleteLb
    simp only [hd]
    -- what is left of a load balancer's facts
    have hiff : ∀ f : Fact, Says { s with
        lb := update s.lb L none
        lsWithChangedLbs := s.lsWithChangedLbs ∪ d.ods .ls } f ↔ s.Says f ∧ f.lbOf ≠ L := by
      intro f
      cases f with
      | lb M | od k M => by_cases hM : M = L <;> simp [Says, Fact.lbOf, hM]
    refine ⟨hnd, fun M hM => ?_, ?_, hgrp, fun M h1 h2 => ?_, fun M hM hrest' o ho => ?_⟩
    · obtain ⟨hMl, hM'⟩ := hrest M (mem_cons_of_mem L hM)
      refine ⟨hMl, (hiff (.lb M)).2 ⟨hM', ?_⟩⟩
      rintro rfl
      exact hL hM
    · ext f
      refine (hiff f).trans ?_
      have hf : s.Says f ↔ f ∈ s₀.facts \ {f | f.lbOf ∈ l ∧ f.lbOf ∉ L :: rest} := by
        rw [← hfacts]
        rfl
      rw [hf]
      by_cases hfL : f.lbOf = L
      · simp [hfL, hLl, hL]
      · simp [hfL]
    · rw [Finset.mem_insert, not_or] at h2
      show update s.lb L none M = _
      rw [update_of_ne h2.1]
      exact htrk M h1 h2.2
    · by_cases hML : M = L
      · -- its switches were still there
        subst hML
        have hin : .od .ls M o ∈ s.facts := by
          rw [hfacts]
          exact ⟨ho, fun hno => hno.2 mem_cons_self⟩
        obtain ⟨e, he, ho⟩ := hin
        obtain rfl : d = e := Option.some.inj (hd.symm.trans he)
        exact Finset.mem_union_right _ ho
      · exact Finset.mem_union_left _ (hls M hM (fun h => (mem_cons.1 h).elim hML hrest') o ho)
  · refine ⟨hnodup, fun L hL => ⟨hL, hin L hL⟩, ?_, rfl, fun _ _ _ => rfl,
      fun L hL hno => absurd hL hno⟩
    simp

variable {s : Northd}

theorem ends_createLbs (l : List ℕ) (htrk : Traced s₀ s) :
    Ends Falls (fun s' => s'.facts = s.facts ∪ {f | ∃ L ∈ l, f = .lb L} ∧ s'.grp = s.grp ∧
      Traced s₀ s')
      (l.foldlM createLb s) := by
  refine Ends.foldlM_union (R := fun X (s' : Northd) =>
    s'.facts = X ∧ s'.grp = s.grp ∧ Traced s₀ s') ∅ l ?_ (Set.empty_subset _) ⟨rfl, rfl, htrk⟩
  rintro L - X s' - ⟨rfl, hgrp, htrk⟩
  refine ⟨?_, hgrp, fun M h1 h2 => ?_⟩
  · ext f
    show Says _ f ↔ s'.Says f ∨ f = .lb L
    cases f with
    | lb M => by_cases hM : M = L <;> simp [Says, hM]
    | od k M o =>
      by_cases hM : M = L
      · subst hM
        cases hd : s'.lb M with
        | none => simp [Says, hd, LbDps.create]
        | some d => simp [Says, hd]
      · simp [Says, hM]
  · rw [Finset.mem_insert, not_or] at h1
    show update s'.lb L _ M = _
    rw [update_of_ne h1.1]
    exact htrk M h1.2 h2

theorem ends_createGrps (l : List CrupdatedLbgrp) :
    Ends Falls (fun s' => s'.lb = s.lb ∧ s'.crupdated = s.crupdated ∧ s'.deleted = s.deleted ∧
      ∀ G, s'.grp G = (s.grp G).or (if G ∈ l.map (·.lbgrp) then some fun _ => [] else none))
      (l.foldlM createGrp s) := by
  refine Ends.foldlM_done (R := fun done (s' : Northd) => s'.lb = s.lb ∧
    s'.crupdated = s.crupdated ∧ s'.deleted = s.deleted ∧
    ∀ G, s'.grp G = (s.grp G).or (if G ∈ done.map CrupdatedLbgrp.lbgrp then some fun _ => []
      else none)) ?_ ?_
  · rintro done c s' - ⟨h1, h2, h3, hgrp⟩
    refine ⟨h1, h2, h3, fun G => ?_⟩
    show update s'.grp c.lbgrp _ G = _
    by_cases hG : G = c.lbgrp
    · subst hG
      rw [hgrp]
      cases s.grp c.lbgrp with
      | none => split <;> simp
      | some g => simp
    · rw [update_of_ne hG, hgrp]
      simp [hG]
  · simp

variable {X : Set Fact} {E : Fail → Prop}

theorem ends_addToLbTracked (ods : List ℕ) (hs : Kept nb s₀ X s) (hL : .lb L ∈ X) :
    Ends E (Kept nb s₀ (X ∪ odFacts k L ods)) (s.addToLbTracked k ods L) := by
  obtain ⟨rfl, hgrps, htrk⟩ := hs
  refine Ends.bind (ends_addToLb ods hL) fun s' ⟨h1, h2, h3, h4, h5⟩ => ?_
  refine ⟨h1, fun G hG => ?_, fun M hc hd => ?_⟩
  · rw [h2]
    exact hgrps G hG
  · have := htrk M
    simp_all

theorem ends_addToLbsTracked (ods lbs : List ℕ) (hs : Kept nb s₀ X s)
    (hlbs : ∀ L ∈ lbs, .lb L ∈ X) :
    Ends E (Kept nb s₀ (X ∪ {f | ∃ L ∈ lbs, f ∈ odFacts k L ods}))
      (lbs.foldlM (addToLbTracked k ods) s) := by
  refine Ends.foldlM_union {f | ∃ L ∈ lbs, f = .lb L} lbs ?_ ?_ hs
  · intro L hL X s hX hs
    exact ends_addToLbTracked ods hs (hX ⟨L, hL, rfl⟩)
  · rintro f ⟨L, hL, rfl⟩
    exact hlbs L hL

theorem ends_grp_addToLbsTracked (ods lbs : List ℕ) :
    Ends (· ≠ .overflow) (fun s' => s'.grp = s.grp) (lbs.foldlM (addToLbTracked k ods) s) := by
  refine Ends.foldlM (I := fun _ (s' : Northd) => s'.grp = s.grp) (fun L _ s' hs' => ?_) lbs s rfl
  unfold addToLbTracked addToLb
  cases s'.lb L with
  | none => exact nofun
  | some d => exact hs'

variable {d : LbData} {dp : Datapaths}

theorem ends_assocLbgrp (hd : d.Of nb) (hs : Kept nb s₀ X s) (hX : nb.lbFacts ⊆ X)
    (hG : nb.HasGrp G) :
    Ends (· = .overflow) (Kept nb s₀ (X ∪ {f | ∃ L, nb.GrpLb G L ∧ f = .od k L od}))
      (s.assocLbgrp dp d k od G) := by
  obtain ⟨grp, hgrp, hin⟩ := lbgrps_of_hasGrp hd hG
  refine Ends.bind (ends_addToGrp [od] (.inr (hs.grps G hG)) fun _ _ => .inl rfl)
    fun s₁ ⟨h1, h2, h3, h4⟩ => ?_
  have hs1 : Kept nb s₀ X s₁ := by
    refine ⟨?_, fun G' hG' => h4.isSome.2 (hs.grps G' hG'), fun L => ?_⟩
    · simp [← hs.facts, facts, Says, h1]
    · rw [h1, h2, h3]
      exact hs.tracked L
  simp only [hgrp]
  refine (ends_addToLbsTracked [od] grp.lbs hs1 fun L hL => hX ⟨L, ((hin L).1 hL).hasLb, rfl⟩).mono
    fun s₂ h₂ => ?_
  have heq : {f | ∃ L ∈ grp.lbs, f ∈ odFacts k L [od]} =
    {f | ∃ L, nb.GrpLb G L ∧ f = .od k L od} := by
    simp [odFacts, hin]
  rwa [heq] at h₂

theorem ends_grp_assocLbgrp (hroom : Room (· ≠ .overflow) dp k 1 G s) :
    Ends (· ≠ .overflow) (fun s' =>
      Appends (fun G' k' => if G' = G ∧ k' = k then [od] else []) s.grp s'.grp)
      (s.assocLbgrp dp d k od G) := by
  refine Ends.bind (ends_addToGrp [od] (.inl nofun) hroom) fun s₁ h1 => ?_
  cases d.lbgrps G with
  | none => exact nofun
  | some grp =>
    refine (ends_grp_addToLbsTracked [od] grp.lbs).mono fun s₂ h2 => ?_
    rw [h2]
    exact h1.2.2.2

def odAssocFacts (nb : Nb) (k : OdKind) (c : CrupdatedOd) : Set Fact :=
  {f | ∃ L, (L ∈ c.assocLbs ∨ ∃ G ∈ c.assocLbgrps, nb.GrpLb G L) ∧ f = .od k L c.od}

theorem ends_assocOd (hd : d.Of nb) (hs : Kept nb s₀ X s) (hX : nb.lbFacts ⊆ X)
    {c : CrupdatedOd} (hod : c.od ∈ dp.ods k) (hlbs : ∀ L ∈ c.assocLbs, nb.HasLb L)
    (hgrps : ∀ G ∈ c.assocLbgrps, nb.HasGrp G) :
    Ends (· = .overflow) (Kept nb s₀ (X ∪ odAssocFacts nb k c)) (s.assocOd dp d k c) := by
  unfold assocOd
  rw [if_neg (not_not.2 hod)]
  refine Ends.bind (ends_addToLbsTracked [c.od] c.assocLbs hs fun L hL => hX ⟨L, hlbs L hL, rfl⟩)
    fun s₁ h1 => ?_
  refine Ends.bind (Ends.foldlM_union
    (F := fun G => {f | ∃ L, nb.GrpLb G L ∧ f = .od k L c.od}) nb.lbFacts
    c.assocLbgrps ?_ (fun f hf => .inl (hX hf)) h1) fun s₂ h2 => ?_
  · intro G hG Y s hY hs
    exact ends_assocLbgrp hd hs hY (hgrps G hG)
  · have heq : X ∪ {f | ∃ L ∈ c.assocLbs, f ∈ odFacts k L [c.od]} ∪
        {f | ∃ G ∈ c.assocLbgrps, f ∈ {f | ∃ L, nb.GrpLb G L ∧ f = .od k L c.od}} =
        X ∪ odAssocFacts nb k c := by
      rw [Set.union_assoc]
      congr 1
      ext f
      constructor
      · rintro (⟨L, hL, o, ho, rfl⟩ | ⟨G, hG, L, hL, rfl⟩)
        · obtain rfl := mem_singleton.1 ho
          exact ⟨L, .inl hL, rfl⟩
        · exact ⟨L, .inr ⟨G, hG, hL⟩, rfl⟩
      · rintro ⟨L, hL | ⟨G, hG, hL⟩, rfl⟩
        · exact .inl ⟨L, hL, c.od, mem_singleton_self _, rfl⟩
        · exact .inr ⟨G, hG, L, hL, rfl⟩
    rw [heq] at h2
    cases k
    · exact ⟨h2.facts, h2.grps, h2.tracked⟩
    · exact h2

theorem ends_grp_assocOd {c : CrupdatedOd} (hnodup : c.assocLbgrps.Nodup)
    (hroom : ∀ G ∈ c.assocLbgrps, Room (· ≠ .overflow) dp k 1 G s) : Ends (· ≠ .overflow) (fun s' =>
      Appends (fun G k' => if G ∈ c.assocLbgrps ∧ k' = k then [c.od] else []) s.grp s'.grp)
      (s.assocOd dp d k c) := by
  unfold assocOd
  split
  · exact nofun
  refine Ends.bind (ends_grp_addToLbsTracked [c.od] c.assocLbs) fun s₁ h1 => ?_
  rw [← h1]
  refine Ends.bind (ends_addToGrps dp (P := fun _ _ => True) c.assocLbgrps hnodup
    (fun _ s G _ _ hroom => (ends_grp_assocLbgrp hroom).mono fun s' hs' => ⟨trivial, hs'⟩)
    (fun G hG g hg => hroom G hG g (h1 ▸ hg)) [] trivial) fun s₂ h2 => ?_
  cases k
  · exact h2.2
  · exact h2.2

def gaining (cs : List CrupdatedOd) (G : ℕ) : List ℕ :=
  (cs.filter (G ∈ ·.assocLbgrps)).map (·.od)

theorem ends_assocOds (hd : d.Of nb) (hs : Kept nb s₀ X s) (hX : nb.lbFacts ⊆ X)
    (cs : List CrupdatedOd) (hcs : ∀ c ∈ cs, c.od ∈ dp.ods k ∧ (∀ L ∈ c.assocLbs, nb.HasLb L) ∧
      c.assocLbgrps.Nodup ∧ ∀ G ∈ c.assocLbgrps, nb.HasGrp G)
    (hroom : ∀ G g, s.grp G = some g → (g k).length + (gaining cs G).length ≤ (dp.ods k).length) :
    Ends Falls (fun s' => Kept nb s₀ (X ∪ {f | ∃ c ∈ cs, f ∈ odAssocFacts nb k c}) s' ∧
      Appends (fun G k' => if k' = k then gaining cs G else []) s.grp s'.grp)
      (cs.foldlM (assocOd dp d k) s) := by
  refine (Ends.both (E := (· = .overflow)) (F := (· ≠ .overflow)) ?_ ?_).weaken
    fun e he => absurd he.1 he.2
  · refine Ends.foldlM_union nb.lbFacts cs ?_ hX hs
    intro c hc Y s hY hs
    obtain ⟨hod, hlbs, -, hgrps⟩ := hcs c hc
    exact ends_assocOd hd hs hY hod hlbs hgrps
  · refine Ends.foldlM_done (R := fun done (s' : Northd) =>
      Appends (fun G k' => if k' = k then gaining done G else []) s.grp s'.grp) ?_ ?_
    · intro done c s' hpre hs'
      have hroom' : ∀ G ∈ c.assocLbgrps, Room (· ≠ .overflow) dp k 1 G s' := by
        intro G hG g hg
        obtain ⟨g₀, hg0, heq⟩ := hs'.some hg
        have hlen : (gaining (done ++ [c]) G).length ≤ (gaining cs G).length :=
          ((hpre.filter _).map _).length_le
        have hgain : (gaining (done ++ [c]) G).length = (gaining done G).length + 1 := by
          simp [gaining, hG]
        have := hroom G g₀ hg0
        refine .inr ?_
        rw [heq, if_pos rfl, length_append]
        omega
      have hnodup := (hcs c (hpre.subset mem_concat_self)).2.2.1
      refine (ends_grp_assocOd hnodup hroom').mono fun s'' hs'' => (hs'.trans hs'').congr
        fun G k' => ?_
      by_cases hk : k' = k
      · by_cases hG : G ∈ c.assocLbgrps <;> simp [gaining, hk, hG]
      · simp [hk]
    · exact (Appends.refl s.grp).congr fun G k' => by simp [gaining]

theorem ends_trackLs (hs : Kept nb s₀ X s) (lbs : List ℕ) (hlbs : ∀ L ∈ lbs, .lb L ∈ X) :
    Ends Falls (fun s' => Kept nb s₀ X s' ∧ s'.grp = s.grp) (lbs.foldlM trackLs s) := by
  refine (Ends.foldlM (I := fun rest (s' : Northd) => (∀ L ∈ rest, .lb L ∈ X) ∧ Kept nb s₀ X s' ∧
    s'.grp = s.grp) ?_ lbs s ⟨hlbs, hs, rfl⟩).mono fun s' hs' => hs'.2
  rintro L rest s' ⟨hrest, hs', hgrp⟩
  have hL : .lb L ∈ s'.facts := by
    rw [hs'.facts]
    exact hrest L mem_cons_self
  obtain ⟨e, he⟩ := hL
  unfold trackLs
  simp only [he]
  exact ⟨(forall_mem_cons.1 hrest).2, ⟨hs'.facts, hs'.grps, hs'.tracked⟩, hgrp⟩

def lbAssocFacts (g : ℕ → Option (OdKind → List ℕ)) (c : CrupdatedLbgrp) : Set Fact :=
  {f | ∃ k L o arrays, L ∈ c.assocLbs ∧ g c.lbgrp = some arrays ∧ o ∈ arrays k ∧ f = .od k L o}

theorem ends_assocLb (hs : Kept nb s₀ X s) (hL : .lb L ∈ X) (g : OdKind → List ℕ) :
    Ends Falls (fun s' => Kept nb s₀ (X ∪ {f | ∃ k, ∃ o ∈ g k, f = .od k L o}) s' ∧ s'.grp = s.grp)
      (s.assocLb g L) := by
  obtain ⟨rfl, hgrps, htrk⟩ := hs
  refine Ends.bind (ends_addToLb (g .lr) hL) fun s₁ ⟨h1, h2, h3, h4, h5⟩ => ?_
  have hL1 : .lb L ∈ s₁.facts := by
    rw [h1]
    exact .inl hL
  refine Ends.bind (ends_addToLb (g .ls) hL1) fun s₂ ⟨h1', h2', h3', h4', h5'⟩ => ?_
  have hgrp : s₂.grp = s.grp := h2'.trans h2
  refine ⟨⟨?_, fun G hG => ?_, fun M hc hd => ?_⟩, hgrp⟩
  · show s₂.facts = _
    rw [h1', h1, Set.union_assoc]
    congr 1
    ext f
    constructor
    · rintro (⟨o, ho, rfl⟩ | ⟨o, ho, rfl⟩)
      · exact ⟨.lr, o, ho, rfl⟩
      · exact ⟨.ls, o, ho, rfl⟩
    · rintro ⟨_ | _, o, ho, rfl⟩
      · exact .inr ⟨o, ho, rfl⟩
      · exact .inl ⟨o, ho, rfl⟩
  · rw [hgrp]
    exact hgrps G hG
  · have := htrk M
    simp_all

theorem ends_assocLbs (hs : Kept nb s₀ X s) (hX : nb.lbFacts ⊆ X) (cs : List CrupdatedLbgrp)
    (hcs : ∀ c ∈ cs, nb.HasGrp c.lbgrp ∧ ∀ L ∈ c.assocLbs, nb.HasLb L) :
    Ends Falls (fun s' => Kept nb s₀ (X ∪ {f | ∃ c ∈ cs, f ∈ lbAssocFacts s.grp c}) s' ∧
      s'.grp = s.grp) (cs.foldlM assocLbs s) := by
  refine Ends.foldlM_union (R := fun X s' => Kept nb s₀ X s' ∧ s'.grp = s.grp)
    nb.lbFacts cs ?_ hX ⟨hs, rfl⟩
  rintro c hc Y s' hY ⟨hs', hgrp⟩
  obtain ⟨g, hg⟩ := hs'.grps c.lbgrp (hcs c hc).1
  unfold assocLbs
  simp only [hg]
  refine (Ends.foldlM_union (F := fun L => {f | ∃ k, ∃ o ∈ g k, f = .od k L o})
    (R := fun X t => Kept nb s₀ X t ∧ t.grp = s.grp) nb.lbFacts
    c.assocLbs ?_ hY ⟨hs', hgrp⟩).mono fun t ht => ?_
  · rintro L hL Z t hZ ⟨h1, h2⟩
    exact (ends_assocLb h1 (hZ ⟨L, (hcs c hc).2 L hL, rfl⟩) g).mono fun u hu =>
      ⟨hu.1, hu.2.trans h2⟩
  · have heq : {f | ∃ L ∈ c.assocLbs, f ∈ {f | ∃ k, ∃ o ∈ g k, f = .od k L o}} =
        lbAssocFacts s.grp c := by
      ext f
      constructor
      · rintro ⟨L, hL, k, o, ho, rfl⟩
        exact ⟨k, L, o, g, hL, by rw [← hgrp, hg], ho, rfl⟩
      · rintro ⟨k, L, o, arrays, hL, ha, ho, rfl⟩
        obtain rfl : g = arrays := Option.some.inj (by rw [← ha, ← hgrp, hg])
        exact ⟨L, hL, k, o, ho, rfl⟩
    rwa [heq] at ht

end Northd

/-! ## The handler -/

/-- What lb_data tracked, once nothing was dissociated: the difference of two contents that only
    grew but for deleted load balancers. -/
structure Grown (dp : Datapaths) (nb nb' : Nb) (n : Node) : Prop where
  data : n.data.Of nb'
  nodup : n.trk.deletedLbs.Nodup
  deleted : ∀ L, L ∈ n.trk.deletedLbs ↔ nb.HasLb L ∧ ¬ nb'.HasLb L
  crupdated : ∀ L ∈ n.trk.crupdatedLbs, nb'.HasLb L
  changed : ∀ L, nb'.HasLb L → rowOf (·.uuid) nb'.lbs L ≠ rowOf (·.uuid) nb.lbs L →
    L ∈ n.trk.crupdatedLbs
  grps : GrpsDone nb nb' [] n.data.lbgrps n.trk.crupdatedLbgrps [] false
  ods : ∀ k, OdsDone nb nb' k (dp.ods k) [] (n.data.odLbMap k) (n.trk.crupdatedOds k) false false
  hasOd : ∀ k od, nb.HasOd k od → nb'.HasOd k od

section
variable {dp : Datapaths} {nb nb' : Nb} {n : Node} {k : OdKind} {od G L : ℕ}

namespace Grown

section
variable (h : Grown dp nb nb' n)
include h

theorem created (hL : nb'.HasLb L) (hnew : ¬ nb.HasLb L) : L ∈ n.trk.crupdatedLbs := by
  refine h.changed L hL fun heq => ?_
  rw [rowOf_eq_none.2 hnew] at heq
  exact rowOf_eq_none.1 heq hL

theorem odLb (hL : nb.OdLb k od L) : nb'.OdLb k od L := by
  obtain ⟨row, hrow, rfl, -⟩ := Nb.odLb_iff.1 hL
  exact (h.ods k).keptLb rfl _ L (h.hasOd k _ (mem_map_of_mem hrow)) hL not_mem_nil

theorem odGrp (hG : nb.OdGrp k od G) : nb'.OdGrp k od G := by
  obtain ⟨row, hrow, rfl, -⟩ := Nb.odGrp_iff.1 hG
  exact (h.ods k).keptLbgrp rfl _ G (h.hasOd k _ (mem_map_of_mem hrow)) hG not_mem_nil

theorem hasGrp (hG : nb.HasGrp G) : nb'.HasGrp G :=
  h.grps.stay rfl G hG not_mem_nil

theorem grpLb (hL : nb.GrpLb G L) (hin : nb'.HasLb L) : nb'.GrpLb G L :=
  h.grps.kept rfl G L (h.hasGrp hL.hasGrp) hL hin not_mem_nil

theorem assoc (hL : nb.Assoc k od L) (hin : nb'.HasLb L) : nb'.Assoc k od L :=
  Joined.mono hL h.odLb (fun _ hG => h.odGrp hG) fun _ hm => h.grpLb hm hin

theorem mem_gaining {o : ℕ} : o ∈ Northd.gaining (n.trk.crupdatedOds k) G ↔
      o ∈ dp.ods k ∧ nb'.OdGrp k o G ∧ ¬ nb.OdGrp k o G := by
  rw [Northd.gaining, mem_map]
  constructor
  · rintro ⟨c, hc, rfl⟩
    obtain ⟨hc, hG⟩ := mem_filter.1 hc
    exact ⟨((h.ods k).handled c hc).1, (((h.ods k).entryLbgrps c hc).2 G).1 (by simpa using hG)⟩
  · rintro ⟨-, h1, h2⟩
    obtain ⟨c, hc, rfl, hG⟩ := (h.ods k).foundLbgrp o G h1 h2 not_mem_nil
    exact ⟨c, mem_filter.2 ⟨hc, by simpa using hG⟩, rfl⟩

theorem direct_perm :
    (nb.direct dp k G ++ Northd.gaining (n.trk.crupdatedOds k) G).Perm (nb'.direct dp k G) := by
  have hnodup : (nb.direct dp k G ++ Northd.gaining (n.trk.crupdatedOds k) G).Nodup := by
    refine nodup_append.2 ⟨nodup_direct, ?_, ?_⟩
    · exact (h.ods k).nodup.sublist (filter_sublist.map _)
    · rintro a ha b hb rfl
      exact (h.mem_gaining.1 hb).2.2 (mem_direct.1 ha).2
  refine (perm_ext_iff_of_nodup hnodup nodup_direct).2 fun o => ?_
  rw [mem_append, mem_direct, mem_direct, h.mem_gaining, ← and_or_left]
  refine and_congr_right fun _ => ?_
  constructor
  · rintro (hG | ⟨hG, -⟩)
    · exact h.odGrp hG
    · exact hG
  · intro hG
    by_cases hold : nb.OdGrp k o G
    · exact .inl hold
    · exact .inr ⟨hG, hold⟩

end

end Grown

/-- With the option, a router that gains a load balancer or a group has no peers. -/
def PeersCovered (dp : Datapaths) (nb nb' : Nb) : Prop :=
  dp.installLsLbFromRouter = true → ∀ r, (∃ L, nb'.OdLb .lr r L ∧ ¬ nb.OdLb .lr r L) ∨
    (∃ G, nb'.OdGrp .lr r G ∧ ¬ nb.OdGrp .lr r G) → dp.lsPeers r = []

section
variable (h : Grown dp nb nb' n)
include h

theorem Grown.arrays (hp : PeersCovered dp nb nb') {a : OdKind → List ℕ} (ha : nb.Arrays dp G a) :
    nb'.Arrays dp G fun k => a k ++ Northd.gaining (n.trk.crupdatedOds k) G := by
  refine ⟨(ha.1.append_right _).trans h.direct_perm, ?_⟩
  -- the routers that gained the group have no peers
  have hpeers : (dp.peers (nb.direct dp .lr G)).Perm (dp.peers (nb'.direct dp .lr G)) := by
    unfold Datapaths.peers
    split
    next hi =>
      have hnil : (Northd.gaining (n.trk.crupdatedOds .lr) G).flatMap dp.lsPeers = [] := by
        rw [flatMap_eq_nil_iff]
        intro r hr
        exact hp hi r (.inr ⟨G, (h.mem_gaining.1 hr).2⟩)
      have := (h.direct_perm (k := .lr) (G := G)).flatMap_right dp.lsPeers
      rwa [flatMap_append, hnil, append_nil] at this
    · exact List.Perm.refl _
  have hswap : (nb.direct dp .ls G ++ dp.peers (nb.direct dp .lr G) ++
      Northd.gaining (n.trk.crupdatedOds .ls) G).Perm (nb.direct dp .ls G ++
      Northd.gaining (n.trk.crupdatedOds .ls) G ++ dp.peers (nb.direct dp .lr G)) := by
    rw [append_assoc, append_assoc]
    exact perm_append_comm.append_left _
  exact ((ha.2.append_right _).trans hswap).trans (h.direct_perm.append hpeers)

theorem Grown.holds {f : Fact} (hf : nb.Holds dp f) (hdel : f.lbOf ∉ n.trk.deletedLbs) :
    nb'.Holds dp f := by
  have hstay : ∀ {L}, L ∉ n.trk.deletedLbs → nb.HasLb L → nb'.HasLb L := by
    intro L hno hL
    by_contra hgone
    exact hno ((h.deleted L).2 ⟨hL, hgone⟩)
  have hassoc : ∀ {k o L}, L ∉ n.trk.deletedLbs → nb.Assoc k o L → nb'.Assoc k o L :=
    fun hno hL => h.assoc hL (hstay hno hL.hasLb)
  rcases f with L | ⟨_ | _, L, o⟩
  · exact hstay hdel hf
  · rcases hf with ⟨ho, hL⟩ | ⟨hi, r, hr, hL, ho⟩
    · exact .inl ⟨ho, hassoc hdel hL⟩
    · exact .inr ⟨hi, r, hr, hassoc hdel hL, ho⟩
  · exact ⟨hf.1, hassoc hdel hf.2⟩

theorem Grown.entry {c : CrupdatedOd} (hc : c ∈ n.trk.crupdatedOds k)
    (hL : L ∈ c.assocLbs ∨ ∃ G ∈ c.assocLbgrps, nb'.GrpLb G L) :
    c.od ∈ dp.ods k ∧ nb'.Assoc k c.od L := by
  refine ⟨((h.ods k).handled c hc).1, ?_⟩
  rcases hL with hL | ⟨G, hG, hL⟩
  · exact .inl ((h.ods k).entryLbs c hc L hL)
  · exact .inr ⟨G, ((((h.ods k).entryLbgrps c hc).2 G).1 hG).1, hL⟩

/-- **Where a new association comes from**: the datapath gained the load balancer, or a group, or
    the load balancer joined a group that the datapath has. -/
theorem Grown.cases_assoc {o : ℕ} (hL : nb'.Assoc k o L) : nb.Assoc k o L ∨
      (∃ c ∈ n.trk.crupdatedOds k, c.od = o ∧
        (L ∈ c.assocLbs ∨ ∃ G ∈ c.assocLbgrps, nb'.GrpLb G L) ∧
        ((∃ L, nb'.OdLb k o L ∧ ¬ nb.OdLb k o L) ∨ ∃ G, nb'.OdGrp k o G ∧ ¬ nb.OdGrp k o G)) ∨
      ∃ c ∈ n.trk.crupdatedLbgrps, L ∈ c.assocLbs ∧ nb'.OdGrp k o c.lbgrp := by
  rcases hL.cases_new with
    hold | ⟨h1, h2⟩ | ⟨G, h1, h2, h3⟩ | ⟨G, -, h1, h2, h3⟩
  · exact .inl hold
  · obtain ⟨c, hc, rfl, hin⟩ := (h.ods k).foundLb o L h1 h2 not_mem_nil
    exact .inr (.inl ⟨c, hc, rfl, .inl hin, .inl ⟨L, h1, h2⟩⟩)
  · obtain ⟨c, hc, rfl, hin⟩ := (h.ods k).foundLbgrp o G h1 h2 not_mem_nil
    exact .inr (.inl ⟨c, hc, rfl, .inr ⟨G, hin, h3⟩, .inr ⟨G, h1, h2⟩⟩)
  · obtain ⟨c, hc, rfl⟩ := h.grps.found G L h2 h3 not_mem_nil
    exact .inr (.inr ⟨c, hc, ((h.grps.entry c hc).2 L).2 ⟨h2, h3⟩, h1⟩)

/-- **The facts after the change** are those of the new content. -/
theorem Grown.facts (hp : PeersCovered dp nb nb') {g : ℕ → Option (OdKind → List ℕ)}
    (hgrp : ∀ G, nb'.HasGrp G → ∃ a, g G = some a)
    (hg : ∀ G a, g G = some a → nb'.Arrays dp G a) :
    {f | nb.Holds dp f} \ {f | f.lbOf ∈ n.trk.deletedLbs} ∪
      {f | ∃ L ∈ n.trk.crupdatedLbs, f = .lb L} ∪
      {f | ∃ c ∈ n.trk.crupdatedOds .ls, f ∈ Northd.odAssocFacts nb' .ls c} ∪
      {f | ∃ c ∈ n.trk.crupdatedOds .lr, f ∈ Northd.odAssocFacts nb' .lr c} ∪
      {f | ∃ c ∈ n.trk.crupdatedLbgrps, f ∈ Northd.lbAssocFacts g c} = {f | nb'.Holds dp f} := by
  have hold : ∀ {f : Fact}, nb.Holds dp f → nb'.HasLb f.lbOf →
      f ∈ {f | nb.Holds dp f} \ {f | f.lbOf ∈ n.trk.deletedLbs} :=
    fun hf hin => ⟨hf, fun hdel => ((h.deleted _).1 hdel).2 hin⟩
  have hlr : ∀ {G a r}, g G = some a → (r ∈ a .lr ↔ r ∈ dp.ods .lr ∧ nb'.OdGrp .lr r G) :=
    fun ha => (hg _ _ ha).1.mem_iff.trans mem_direct
  have hls : ∀ {G a o}, g G = some a → (o ∈ a .ls ↔ (o ∈ dp.ods .ls ∧ nb'.OdGrp .ls o G) ∨
      (dp.installLsLbFromRouter = true ∧ ∃ r ∈ nb'.direct dp .lr G, o ∈ dp.lsPeers r)) := by
    intro G a o ha
    rw [(hg _ _ ha).2.mem_iff, mem_append, mem_direct, mem_peers]
  have hjoin : ∀ {k L o c}, c ∈ n.trk.crupdatedLbgrps → L ∈ c.assocLbs →
      (∀ a, g c.lbgrp = some a → o ∈ a k) → ∃ c ∈ n.trk.crupdatedLbgrps,
        .od k L o ∈ Northd.lbAssocFacts g c := by
    intro k L o c hc hin ho
    obtain ⟨a, ha⟩ := hgrp _ (h.grps.entry c hc).1
    exact ⟨c, hc, k, L, o, a, hin, ha, ho a ha, rfl⟩
  ext f
  constructor
  · rintro ((((⟨hf, hdel⟩ | ⟨L, hL, rfl⟩) | ⟨c, hc, L, hL, rfl⟩) | ⟨c, hc, L, hL, rfl⟩) |
      ⟨c, hc, k, L, o, a, hL, ha, ho, rfl⟩)
    · exact h.holds hf hdel
    · exact h.crupdated L hL
    · exact .inl (h.entry hc hL)
    · exact h.entry hc hL
    · -- the load balancer is in the group, and the datapath has the group
      have hm : nb'.GrpLb c.lbgrp L := (((h.grps.entry c hc).2 L).1 hL).1
      cases k with
      | ls =>
        rcases (hls ha).1 ho with ⟨hod, hG⟩ | ⟨hi, r, hr, ho⟩
        · exact .inl ⟨hod, .inr ⟨_, hG, hm⟩⟩
        · obtain ⟨hod, hG⟩ := mem_direct.1 hr
          exact .inr ⟨hi, r, hod, .inr ⟨_, hG, hm⟩, ho⟩
      | lr =>
        obtain ⟨hod, hG⟩ := (hlr ha).1 ho
        exact ⟨hod, .inr ⟨_, hG, hm⟩⟩
  · intro hf
    rcases f with L | ⟨_ | _, L, o⟩
    · by_cases hin : nb.HasLb L
      · exact .inl (.inl (.inl (.inl (hold hin hf))))
      · exact .inl (.inl (.inl (.inr ⟨L, h.created hf hin, rfl⟩)))
    · rcases hf with ⟨ho, hL⟩ | ⟨hi, r, hr, hL, ho⟩
      · rcases h.cases_assoc hL with hwas | ⟨c, hc, rfl, hin, -⟩ | ⟨c, hc, hin, hG⟩
        · exact .inl (.inl (.inl (.inl (hold (.inl ⟨ho, hwas⟩) hL.hasLb))))
        · exact .inl (.inl (.inr ⟨c, hc, L, hin, rfl⟩))
        · exact .inr (hjoin hc hin fun a ha => (hls ha).2 (.inl ⟨ho, hG⟩))
      · -- a switch that is a peer of one of the load balancer's routers
        rcases h.cases_assoc hL with hwas | ⟨c, hc, rfl, -, hnew⟩ | ⟨c, hc, hin, hG⟩
        · exact .inl (.inl (.inl (.inl (hold (.inr ⟨hi, r, hr, hwas, ho⟩) hL.hasLb))))
        · rw [hp hi _ hnew] at ho
          cases ho
        · exact .inr (hjoin hc hin fun a ha => (hls ha).2 (.inr ⟨hi, r, mem_direct.2 ⟨hr, hG⟩, ho⟩))
    · obtain ⟨ho, hL⟩ := hf
      rcases h.cases_assoc hL with hwas | ⟨c, hc, rfl, hin, -⟩ | ⟨c, hc, hin, hG⟩
      · exact .inl (.inl (.inl (.inl (hold ⟨ho, hwas⟩ hL.hasLb))))
      · exact .inl (.inr ⟨c, hc, L, hin, rfl⟩)
      · exact .inr (hjoin hc hin fun a ha => (hlr ha).2 ⟨ho, hG⟩)

section
variable {s : Northd} (hs : Exact dp nb s)
include h hs

/-- The load balancers of the new content are there once the new ones are created. -/
theorem Grown.lbFacts_subset : nb'.lbFacts ⊆ s.facts \ {f | f.lbOf ∈ n.trk.deletedLbs} ∪
    {f | ∃ L ∈ n.trk.crupdatedLbs, f = .lb L} := by
  rintro _ ⟨L, hL, rfl⟩
  rw [hs.facts]
  by_cases hin : nb.HasLb L
  · exact .inl ⟨hin, fun hd => ((h.deleted L).1 hd).2 hL⟩
  · exact .inr ⟨L, h.created hL hin, rfl⟩

variable {g : ℕ → Option (OdKind → List ℕ)}
    (hg : ∀ G, g G = (s.grp G).or (if G ∈ n.trk.crupdatedLbgrps.map (·.lbgrp) then some fun _ => []
      else none))
include hg

theorem Grown.exists_grp : (∃ a, g G = some a) ↔ nb'.HasGrp G := by
  have hor : (∃ a, g G = some a) ↔ nb.HasGrp G ∨ G ∈ n.trk.crupdatedLbgrps.map (·.lbgrp) := by
    rw [hg G, ← hs.grps]
    cases s.grp G <;> simp
  rw [hor]
  constructor
  · rintro (hG | hin)
    · exact h.hasGrp hG
    · obtain ⟨c, hc, rfl⟩ := mem_map.1 hin
      exact (h.grps.entry c hc).1
  · intro hG
    by_cases hin : nb.HasGrp G
    · exact .inl hin
    · obtain ⟨c, hc, rfl⟩ := h.grps.created G hG hin not_mem_nil
      exact .inr (mem_map_of_mem hc)

omit h in
/-- No datapath had a group that is created. -/
theorem Grown.arrays_created {a : OdKind → List ℕ} (ha : g G = some a) : nb.Arrays dp G a := by
  rw [hg G] at ha
  cases hG : s.grp G with
  | some b =>
    rw [hG] at ha
    exact hs.arrays G a (hG.trans ha)
  | none =>
    have hno : ¬ nb.HasGrp G := by
      rw [← hs.grps G, hG]
      simp
    have hnil : ∀ k, nb.direct dp k G = [] := by
      intro k
      rw [eq_nil_iff_forall_not_mem]
      exact fun o ho => hno (mem_direct.1 ho).2.hasGrp
    rw [hG] at ha
    split at ha <;> cases ha
    simp [Nb.Arrays, hnil, Datapaths.peers]

end

theorem Grown.entries (k : OdKind) : ∀ c ∈ n.trk.crupdatedOds k, c.od ∈ dp.ods k ∧
    (∀ L ∈ c.assocLbs, nb'.HasLb L) ∧ c.assocLbgrps.Nodup ∧ ∀ G ∈ c.assocLbgrps, nb'.HasGrp G := by
  intro c hc
  obtain ⟨hnodup, hin⟩ := (h.ods k).entryLbgrps c hc
  exact ⟨((h.ods k).handled c hc).1, fun L hL => ((h.ods k).entryLbs c hc L hL).hasLb, hnodup,
    fun G hG => ((hin G).1 hG).1.hasGrp⟩

end

/-- **The handler.** The sets of the old content become those of the new one, and a load balancer
    whose sets changed is tracked. -/
theorem Exact.handleLbDataChanges {s : Northd} (hs : Exact dp nb s)
    (hgrown : n.trk.hasDissassocLbsFromLbgrps = false → n.trk.deletedLbgrps = [] →
      n.trk.hasDissassocLbsFromOd = false → n.trk.hasDissassocLbgrpsFromOd = false →
      Grown dp nb nb' n) (hp : PeersCovered dp nb nb') (hfits : nb'.Fits dp) :
    Ends Falls (fun s' => Exact dp nb' s' ∧ s.Traced s') (s.handleLbDataChanges dp n) := by
  unfold Northd.handleLbDataChanges
  split
  · rfl
  split
  · rfl
  split
  · rfl
  split
  · rfl
  split
  · rfl
  split
  · rfl
  split
  · rfl
  rename_i _ hlbgrps hgone hlbs _ hods _
  have h := hgrown (by simpa using hlbgrps) (by simpa using hgone) (by simpa using hlbs)
    (by simpa using hods)
  have hdel : ∀ L ∈ n.trk.deletedLbs, .lb L ∈ s.facts := by
    intro L hL
    rw [hs.facts]
    exact ((h.deleted L).1 hL).1
  refine Ends.bind (Northd.ends_deleteLbs n.trk.deletedLbs h.nodup hdel) fun s₁ h1 => ?_
  refine Ends.bind (Northd.ends_createLbs n.trk.crupdatedLbs h1.2.2.1) fun s₂ h2 => ?_
  refine Ends.bind (Northd.ends_createGrps n.trk.crupdatedLbgrps) fun s₃ h3 => ?_
  have hfacts2 := h2.1
  rw [h1.1] at hfacts2
  have hgrp3 := h3.2.2.2
  rw [h2.2.1, h1.2.1] at hgrp3
  have hlb : nb'.lbFacts ⊆ s₂.facts := hfacts2 ▸ h.lbFacts_subset hs
  have hkept : Northd.Kept nb' s s₂.facts s₃ := by
    refine ⟨?_, fun G hG => (h.exists_grp hs hgrp3).2 hG, fun L => ?_⟩
    · ext f
      cases f <;> simp [Northd.facts, Northd.Says, h3.1]
    · rw [h3.1, h3.2.1, h3.2.2.1]
      exact h2.2.2 L
  -- the arrays, with what the datapaths gain, are those of the new content, for which there is room
  have harrays : ∀ G g, s₃.grp G = some g →
      nb'.Arrays dp G fun k => g k ++ Northd.gaining (n.trk.crupdatedOds k) G := fun G g hg =>
    h.arrays hp (Grown.arrays_created hs hgrp3 hg)
  have hroom : ∀ k G g, s₃.grp G = some g →
      (g k).length + (Northd.gaining (n.trk.crupdatedOds k) G).length ≤ (dp.ods k).length := by
    intro k G g hg
    rw [← length_append]
    exact (harrays G g hg).length_le hfits k
  refine Ends.bind (Northd.ends_assocOds h.data hkept hlb _ (h.entries .ls) (hroom .ls))
    fun s₄ h4 => ?_
  have hroom4 : ∀ G g, s₄.grp G = some g →
      (g .lr).length + (Northd.gaining (n.trk.crupdatedOds .lr) G).length ≤
        (dp.ods .lr).length := by
    intro G g hg
    obtain ⟨g₃, hg3, heq⟩ := h4.2.some hg
    rw [heq, if_neg (by decide), append_nil]
    exact hroom .lr G g₃ hg3
  refine Ends.bind
    (Northd.ends_assocOds h.data h4.1 (fun f hf => .inl (hlb hf)) _ (h.entries .lr) hroom4)
    fun s₅ h5 => ?_
  refine Ends.bind (Northd.ends_trackLs h5.1 n.trk.crupdatedLbs
    fun L hL => .inl (.inl (hlb ⟨L, h.crupdated L hL, rfl⟩))) fun s₆ h6 => ?_
  refine (Northd.ends_assocLbs h6.1 (fun f hf => .inl (.inl (hlb hf))) n.trk.crupdatedLbgrps
    fun c hc => ⟨(h.grps.entry c hc).1, fun L hL => (((h.grps.entry c hc).2 L).1 hL).1.hasLb⟩).mono
    fun s₇ h7 => ⟨?_, h7.1.tracked⟩
  have harrays6 : ∀ G g, s₆.grp G = some g → nb'.Arrays dp G g := by
    intro G g hg
    rw [h6.2] at hg
    obtain ⟨g₄, hg4, heq5⟩ := h5.2.some hg
    obtain ⟨g₃, hg3, heq4⟩ := h4.2.some hg4
    have := harrays G g₃ hg3
    simpa [Nb.Arrays, heq5, heq4] using this
  refine ⟨?_, fun G => ?_, fun G g hg => harrays6 G g (h7.2 ▸ hg)⟩
  · rw [h7.1.facts, hfacts2, hs.facts]
    exact h.facts hp h6.1.grps harrays6
  · rw [h7.2, h6.2, h5.2.isSome, h4.2.isSome, h.exists_grp hs hgrp3]

end

/-! ## Iterations -/

/-- Every router that is tracked has a datapath, with the option a router that gains a load balancer
    or a group has no peers, and the arrays of the groups have room. -/
structure Regular (dp : Datapaths) (nb : Nb) (inp : Input) : Prop where
  datapath : ∀ t ∈ inp.ods .lr, t.row.uuid ∈ dp.ods .lr
  peers : PeersCovered dp nb inp.nb
  room : inp.nb.Fits dp

section
variable {dp : Datapaths} {nb : Nb} {n : Node} {inp : Input}

/-- What lb_data tracked, if the handlers before had nothing against it. -/
theorem Loop.grown (hv : Valid nb inp) (hdp : ∀ t ∈ inp.ods .lr, t.row.uuid ∈ dp.ods .lr)
    (hods : odsHandled dp inp = true)
    (h : Loop nb inp.nb [] [] inp.tracked (fun _ => []) n)
    (hlbgrps : n.trk.hasDissassocLbsFromLbgrps = false) (hgone : n.trk.deletedLbgrps = [])
    (hlbs : n.trk.hasDissassocLbsFromOd = false) (hgrps : n.trk.hasDissassocLbgrpsFromOd = false) :
    Grown dp nb inp.nb n := by
  obtain ⟨hls, hlr⟩ := Bool.and_eq_true_iff.1 hods
  have hstay : ∀ k, ∀ t ∈ inp.ods k, t.isDeleted = false ∧ t.row.uuid ∈ dp.ods k := by
    intro k t ht
    cases k with
    | ls => simp_all
    | lr =>
      have := all_eq_true.1 hlr t ht
      simp only [Bool.and_eq_true, Bool.not_eq_true'] at this
      exact ⟨this.1.2, hdp t ht⟩
  constructor
  case data =>
    exact ⟨h.lbs.map.done, congrFun h.grps.map.done, fun k => congrFun (h.ods k).map.done⟩
  case nodup => exact h.lbs.nodup
  case deleted =>
    intro L
    rw [h.lbs.deleted]
    simp
  case crupdated => exact h.lbs.entry
  case changed => exact fun L h1 h2 => h.lbs.changed L h1 h2 not_mem_nil
  case grps =>
    have := h.grps
    rwa [hgone, hlbgrps] at this
  case ods =>
    intro k
    have hk := h.ods k
    rw [hlbs, hgrps] at hk
    refine { hk with handled := fun c hc => ⟨?_, not_mem_nil⟩ }
    obtain ⟨t, ht, htc⟩ := mem_map.1 (hk.handled c hc).1
    exact htc ▸ (hstay k t ht).2
  case hasOd =>
    intro k od hod
    obtain ⟨row, hrow, rfl⟩ := mem_map.1 hod
    by_contra hno
    obtain ⟨t, ht, hk⟩ := (hv.ods k).deleted row hrow hno
    obtain ⟨t', ht', rfl⟩ := mem_map.1 ht
    have hdel := ((hv.ods k).each _ ht).isDeleted.2 (hk ▸ hno)
    rw [(hstay k t' ht').1] at hdel
    cases hdel

theorem ends_iterate {s : State} (hd : s.data.Of s.nb) (hs : Exact dp s.nb s.northd)
    (hv : Valid s.nb inp) (hr : Regular dp s.nb inp) :
    Ends Falls (fun s' => (s'.data.Of s'.nb ∧ Exact dp s'.nb s'.northd ∧ s'.nb.Fits dp) ∧
      ∀ L, s'.northd.lb L ≠ s.northd.lb L → L ∈ s'.northd.crupdated ∨ L ∈ s'.northd.deleted)
      (s.iterate dp inp) := by
  refine Ends.bind (ends_handle hd hv) fun n hn => ?_
  split
  · rfl
  next hods =>
    have hx : Exact dp s.nb { lb := s.northd.lb, grp := s.northd.grp } :=
      ⟨hs.facts, hs.grps, hs.arrays⟩
    refine Ends.bind
      (hx.handleLbDataChanges (hn.grown hv hr.datapath (by simpa using hods)) hr.peers hr.room)
      fun s' hs' => ?_
    refine ⟨⟨⟨hn.lbs.map.done, congrFun hn.grps.map.done, fun k => congrFun (hn.ods k).map.done⟩,
      hs'.1, hr.room⟩, fun L hL => ?_⟩
    by_contra hno
    obtain ⟨hc, hdel⟩ := not_or.1 hno
    exact hL (hs'.2 L hc hdel)

end

/-- **The datapath sets are kept exactly.** After every iteration in which the handlers return
    true, the sets of every load balancer and of every group are those that a recompute would
    build; what an iteration changes is tracked; no assertion fails and no array overflows. -/
theorem lb_datapaths_exact (dp : Datapaths) (nb₀ : Nb) (hfits : nb₀.Fits dp) {s₀ : Northd}
    (h₀ : Northd.recompute dp nb₀ = .ok s₀) {s : State}
    (h : (iterations dp ⟨nb₀, .run nb₀, s₀⟩).Reached
      (fun s inp => Valid s.nb inp ∧ Regular dp s.nb inp) s) :
    (∃ t, Northd.recompute dp s.nb = .ok t ∧ s.northd.lb = t.lb ∧
      ∀ G, Option.Rel (fun a b => ∀ k, (a k).Perm (b k)) (s.northd.grp G) (t.grp G)) ∧
    ∀ inp, Valid s.nb inp → Regular dp s.nb inp →
      (∀ e, s.iterate dp inp = .error e → e = .recompute) ∧
      ∀ s', s.iterate dp inp = .ok s' → ∀ L, s'.northd.lb L ≠ s.northd.lb L →
        L ∈ s'.northd.crupdated ∨ L ∈ s'.northd.deleted := by
  have hinv : s.data.Of s.nb ∧ Exact dp s.nb s.northd ∧ s.nb.Fits dp := by
    refine h.invariant (I := fun s => s.data.Of s.nb ∧ Exact dp s.nb s.northd ∧ s.nb.Fits dp)
      ⟨LbData.of_run nb₀, ?_, hfits⟩ fun s inp s' hs hin hn => ?_
    · have hx := Northd.ends_recompute (E := fun _ => False) (.inr hfits)
      rw [h₀] at hx
      exact hx
    · exact ((ends_iterate hs.1 hs.2.1 hin.1 hin.2).of_toOption hn).1
  obtain ⟨hdata, hexact, hfits⟩ := hinv
  refine ⟨?_, fun inp hv hr => ?_⟩
  · obtain ⟨t, ht, hx⟩ := (Northd.ends_recompute (.inr hfits)).exists_ok
    refine ⟨t, ht, Northd.lb_eq_of_facts (hexact.facts.trans hx.facts.symm), fun G => ?_⟩
    cases hg : s.northd.grp G with
    | none =>
      cases hg' : t.grp G with
      | none => exact .none
      | some b =>
        obtain ⟨a, ha⟩ := (hexact.grps G).2 ((hx.grps G).1 ⟨b, hg'⟩)
        rw [hg] at ha
        cases ha
    | some a =>
      obtain ⟨b, hb⟩ := (hx.grps G).2 ((hexact.grps G).1 ⟨a, hg⟩)
      rw [hb]
      refine .some fun k => ?_
      obtain ⟨hlr, hls⟩ := hexact.arrays G a hg
      obtain ⟨hlr', hls'⟩ := hx.arrays G b hb
      cases k with
      | ls => exact hls.trans hls'.symm
      | lr => exact hlr.trans hlr'.symm
  · have hend := ends_iterate hdata hexact hv hr
    refine ⟨fun e hit => ?_, fun s' hit => ?_⟩
    · rw [hit] at hend
      exact hend
    · rw [hit] at hend
      exact hend.2

def oneRouter (lbs : List ℕ) (hlbs : ∀ L ∈ lbs, L = 0) : Nb where
  lbs := [⟨0, false, false, .reachable, []⟩]
  lbgrps := []
  ods
    | .ls => [⟨0, [], []⟩]
    | .lr => [⟨0, lbs, []⟩]
  lbsNodup := nodup_singleton 0
  lbgrpsNodup := nodup_nil
  odsNodup k := by cases k <;> exact nodup_singleton 0
  lbgrpRefs := nofun
  odLbRefs k od hod L hL := by
    cases k with
    | ls =>
      obtain rfl := mem_singleton.1 hod
      cases hL
    | lr =>
      obtain rfl := mem_singleton.1 hod
      exact mem_singleton.2 (hlbs L hL)
  odLbgrpRefs k od hod := by
    cases k <;>
    · obtain rfl := mem_singleton.1 hod
      exact ⟨nodup_nil, nofun⟩

def routerGains : Input where
  nb := oneRouter [0] (by simp)
  lbs := []
  lbgrps := []
  ods
    | .ls => []
    | .lr => [⟨⟨⟨0, [0], []⟩, false, false⟩, true, false, true⟩]
  lbModified _ := false

def onePeer (install : Bool) (routers : List ℕ) : Datapaths where
  ods
    | .ls => [0]
    | .lr => routers
  lsPeers _ := [0]
  installLsLbFromRouter := install

theorem routerGains_valid : Valid (oneRouter [] (by simp)) routerGains := by
  refine ⟨.same _ _, .same _ _, fun k => ?_, fun k t ht r hr _ => ?_⟩
  · cases k with
    | ls => exact .same _ _
    | lr => exact .replaced rfl
  · cases k with
    | ls => cases ht
    | lr =>
      obtain rfl := mem_singleton.1 ht
      obtain rfl := mem_singleton.1 hr
      exact ⟨fun h => (by cases h), fun _ => rfl⟩

/-- A group of two routers. -/
def sharedGrp : Nb where
  lbs := []
  lbgrps := [⟨0, []⟩]
  ods
    | .ls => [⟨0, [], []⟩]
    | .lr => [⟨0, [], [0]⟩, ⟨1, [], [0]⟩]
  lbsNodup := nodup_nil
  lbgrpsNodup := nodup_singleton 0
  odsNodup k := by cases k <;> decide
  lbgrpRefs := by decide
  odLbRefs k := by cases k <;> decide
  odLbgrpRefs k := by cases k <;> decide

/-- With the option, a load balancer that a router gains is not given to the peers of the
    router; a router without a datapath makes an assertion fail; and the array of a group, with room
    for one switch, overflows where the switch is a peer of two of its routers. -/
theorem lb_datapaths_not_exact :
    (∃ s₀ s' t, Northd.recompute (onePeer true [0]) (oneRouter [] (by simp)) = .ok s₀ ∧
      Valid (oneRouter [] (by simp)) routerGains ∧
      State.iterate (onePeer true [0]) ⟨oneRouter [] (by simp), .run (oneRouter [] (by simp)), s₀⟩
        routerGains = .ok s' ∧ Northd.recompute (onePeer true [0]) s'.nb = .ok t ∧
      (s'.northd.lb 0).map (·.ods .ls) = some ∅ ∧ (t.lb 0).map (·.ods .ls) = some {0}) ∧
    (∃ s₀, Northd.recompute (onePeer false []) (oneRouter [] (by simp)) = .ok s₀ ∧
      State.iterate (onePeer false []) ⟨oneRouter [] (by simp), .run (oneRouter [] (by simp)), s₀⟩
        routerGains = .error .aborted) ∧
    Northd.recompute (onePeer true [0, 1]) sharedGrp = .error .overflow := by
  refine ⟨⟨_, _, _, rfl, routerGains_valid, rfl, rfl, ?_, ?_⟩, ⟨_, rfl, rfl⟩, rfl⟩
  · decide
  · decide

theorem lb_datapaths_exact_routerGains : ∃ s₀ t u,
    Northd.recompute (onePeer false [0]) (oneRouter [] (by simp)) = .ok s₀ ∧
    State.iterate (onePeer false [0]) ⟨oneRouter [] (by simp), .run (oneRouter [] (by simp)), s₀⟩
      routerGains = .ok t ∧ (t.northd.lb 0).map (·.ods .lr) = some {0} ∧
    Northd.recompute (onePeer false [0]) t.nb = .ok u ∧ t.northd.lb = u.lb := by
  have hfits : ∀ lbs h, (oneRouter lbs h).Fits (onePeer false [0]) := by
    intro lbs h G
    simp [Nb.direct, Northd.rows, oneRouter, onePeer, Datapaths.peers]
  have hr : Regular (onePeer false [0]) (oneRouter [] (by simp)) routerGains := by
    refine ⟨fun t ht => ?_, fun h => (by cases h), hfits [0] (by simp)⟩
    obtain rfl := mem_singleton.1 ht
    exact mem_singleton_self 0
  obtain ⟨u, hu, hlb, -⟩ :=
    (lb_datapaths_exact (onePeer false [0]) (oneRouter [] (by simp)) (hfits [] (by simp)) rfl
    (System.Reached.step .init ⟨routerGains_valid, hr⟩ rfl)).1
  refine ⟨_, _, u, rfl, rfl, ?_, hu, hlb⟩
  decide

end Ovn.Lb

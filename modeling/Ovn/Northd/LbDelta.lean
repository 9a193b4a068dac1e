/-
  What the handlers of lb_data say of a change of the northbound tables.

  * the associations of a northbound content, as relations,
  * an invariant of each loop over tracked rows: the data is up to date but for the rows that
    are still to come, and what was associated is in the tracked data,
  * in the end the tracked data is the difference of the two contents.
-/
import Ovn.Northd.LbData

namespace Ovn.Lb

open Function (update update_eq_self update_of_ne update_self)
open List

/-! ## Associations -/

namespace Nb

def HasLb (nb : Nb) (L : ℕ) : Prop := L ∈ nb.lbs.map (·.uuid)

def HasGrp (nb : Nb) (G : ℕ) : Prop := G ∈ nb.lbgrps.map (·.uuid)

instance (nb : Nb) (G : ℕ) : Decidable (nb.HasGrp G) :=
  inferInstanceAs (Decidable (G ∈ nb.lbgrps.map (·.uuid)))

def HasOd (nb : Nb) (k : OdKind) (od : ℕ) : Prop := od ∈ (nb.ods k).map (·.uuid)

def grpLbs (nb : Nb) (G : ℕ) : Option (List ℕ) := (rowOf (·.uuid) nb.lbgrps G).map (·.lbs)

def odLbData (nb : Nb) (k : OdKind) (od : ℕ) : OdLbData :=
  ((rowOf (·.uuid) (nb.ods k) od).map fun row => ⟨row.lbs.toFinset, row.lbgrps.toFinset⟩).getD
    ⟨∅, ∅⟩

def GrpLb (nb : Nb) (G L : ℕ) : Prop := L ∈ (nb.grpLbs G).getD []

def OdLb (nb : Nb) (k : OdKind) (od L : ℕ) : Prop := L ∈ (nb.odLbData k od).lbs

def OdGrp (nb : Nb) (k : OdKind) (od G : ℕ) : Prop := G ∈ (nb.odLbData k od).lbgrps

section
variable {nb : Nb} {k : OdKind} {od G L : ℕ}

theorem grpLbs_of_mem {row : GrpRow} (h : row ∈ nb.lbgrps) : nb.grpLbs row.uuid = some row.lbs := by
  rw [grpLbs, rowOf_of_mem nb.lbgrpsNodup h]
  rfl

theorem grpLbs_eq_none : nb.grpLbs G = none ↔ ¬ nb.HasGrp G := by
  rw [grpLbs, Option.map_eq_none_iff, rowOf_eq_none]
  rfl

theorem odLbData_of_mem {row : OdRow} (h : row ∈ nb.ods k) :
    nb.odLbData k row.uuid = ⟨row.lbs.toFinset, row.lbgrps.toFinset⟩ := by
  rw [odLbData, rowOf_of_mem (nb.odsNodup k) h]
  rfl

theorem odLbData_of_not (h : ¬ nb.HasOd k od) : nb.odLbData k od = ⟨∅, ∅⟩ := by
  rw [odLbData, rowOf_eq_none.2 h]
  rfl

theorem grpLb_iff : nb.GrpLb G L ↔ ∃ row ∈ nb.lbgrps, row.uuid = G ∧ L ∈ row.lbs :=
  mem_getD_rowOf nb.lbgrpsNodup

/-- A column of a datapath is that of its row. -/
theorem mem_lbs_iff_odLb :
    L ∈ ((rowOf (·.uuid) (nb.ods k) od).map (·.lbs)).getD [] ↔ nb.OdLb k od L := by
  unfold OdLb odLbData
  cases rowOf OdRow.uuid (nb.ods k) od <;> simp

theorem mem_lbgrps_iff_odGrp :
    G ∈ ((rowOf (·.uuid) (nb.ods k) od).map (·.lbgrps)).getD [] ↔ nb.OdGrp k od G := by
  unfold OdGrp odLbData
  cases rowOf OdRow.uuid (nb.ods k) od <;> simp

theorem odLb_iff : nb.OdLb k od L ↔ ∃ row ∈ nb.ods k, row.uuid = od ∧ L ∈ row.lbs :=
  mem_lbs_iff_odLb.symm.trans (mem_getD_rowOf (nb.odsNodup k))

theorem odGrp_iff : nb.OdGrp k od G ↔ ∃ row ∈ nb.ods k, row.uuid = od ∧ G ∈ row.lbgrps :=
  mem_lbgrps_iff_odGrp.symm.trans (mem_getD_rowOf (nb.odsNodup k))

theorem GrpLb.hasLb (h : nb.GrpLb G L) : nb.HasLb L := by
  obtain ⟨row, hmem, -, hL⟩ := grpLb_iff.1 h
  exact nb.lbgrpRefs row hmem L hL

theorem GrpLb.hasGrp (h : nb.GrpLb G L) : nb.HasGrp G := by
  obtain ⟨row, hmem, rfl, -⟩ := grpLb_iff.1 h
  exact mem_map_of_mem hmem

theorem OdLb.hasLb (h : nb.OdLb k od L) : nb.HasLb L := by
  obtain ⟨row, hmem, -, hL⟩ := odLb_iff.1 h
  exact nb.odLbRefs k row hmem L hL

theorem OdGrp.hasGrp (h : nb.OdGrp k od G) : nb.HasGrp G := by
  obtain ⟨row, hmem, -, hG⟩ := odGrp_iff.1 h
  exact (nb.odLbgrpRefs k row hmem).2 G hG

end

end Nb

/-! ## The invariant -/

/-- The data that lb_data keeps of a content. -/
structure LbData.Of (d : LbData) (nb : Nb) : Prop where
  lbs : d.lbs = rowOf (·.uuid) nb.lbs
  lbgrps : ∀ G, (d.lbgrps G).map (·.lbs) = nb.grpLbs G
  ods : ∀ k od, (d.odLbMap k od).getD ⟨∅, ∅⟩ = nb.odLbData k od

theorem LbData.of_run (nb : Nb) : (LbData.run nb).Of nb where
  lbs := rfl
  lbgrps G := by
    simp only [run, Option.map_map]
    rfl
  ods k od := by
    simp only [run, Nb.odLbData]
    cases rowOf OdRow.uuid (nb.ods k) od with
    | none => rfl
    | some row =>
      by_cases h : row.lbs = [] ∧ row.lbgrps = []
      · simp [h]
      · simp [h]

/-- What holds of the input of an iteration: the rows are tracked that changed, with the columns
    that did. -/
structure Valid (nb : Nb) (inp : Input) : Prop where
  lbs : Tracks (·.uuid) nb.lbs inp.nb.lbs inp.lbs
  lbgrps : Tracks (·.uuid) nb.lbgrps inp.nb.lbgrps inp.lbgrps
  ods : ∀ k, Tracks (·.uuid) (nb.ods k) (inp.nb.ods k) ((inp.ods k).map (·.toTrackedRow))
  updated : ∀ k, ∀ t ∈ inp.ods k, ∀ r ∈ nb.ods k, r.uuid = t.row.uuid →
    (t.lbsUpdated = false → r.lbs = t.row.lbs) ∧ (t.lbgrpsUpdated = false → r.lbgrps = t.row.lbgrps)

section
variable (nb nb' : Nb)

/-- The load balancers, but for those still to come. -/
structure LbsDone (keys : List ℕ) (lbs : ℕ → Option LbRow) (gone crupdated : List ℕ) : Prop where
  map : Partly keys (rowOf (·.uuid) nb.lbs) (rowOf (·.uuid) nb'.lbs) lbs
  nodup : gone.Nodup
  deleted : ∀ L, L ∈ gone ↔ nb.HasLb L ∧ ¬ nb'.HasLb L ∧ L ∉ keys
  entry : ∀ L ∈ crupdated, nb'.HasLb L
  changed : ∀ L, nb'.HasLb L → rowOf (·.uuid) nb'.lbs L ≠ rowOf (·.uuid) nb.lbs L → L ∉ keys →
    L ∈ crupdated

/-- The groups, but for those still to come. -/
structure GrpsDone (keys : List ℕ) (lbgrps : ℕ → Option Grp) (crupdated : List CrupdatedLbgrp)
    (gone : List ℕ) (dissassoc : Bool) : Prop where
  map : Partly keys nb.grpLbs nb'.grpLbs fun G => (lbgrps G).map (·.lbs)
  entry : ∀ c ∈ crupdated, nb'.HasGrp c.lbgrp ∧
    ∀ L, L ∈ c.assocLbs ↔ nb'.GrpLb c.lbgrp L ∧ ¬ nb.GrpLb c.lbgrp L
  created : ∀ G, nb'.HasGrp G → ¬ nb.HasGrp G → G ∉ keys → ∃ c ∈ crupdated, c.lbgrp = G
  found : ∀ G L, nb'.GrpLb G L → ¬ nb.GrpLb G L → G ∉ keys → ∃ c ∈ crupdated, c.lbgrp = G
  kept : dissassoc = false → ∀ G L, nb'.HasGrp G → nb.GrpLb G L → nb'.HasLb L → G ∉ keys →
    nb'.GrpLb G L
  stay : gone = [] → ∀ G, nb.HasGrp G → G ∉ keys → nb'.HasGrp G

/-- The datapaths of one kind, but for those still to come. -/
structure OdsDone (k : OdKind) (all keys : List ℕ) (map : ℕ → Option OdLbData)
    (crupdated : List CrupdatedOd) (dissassocLbs dissassocLbgrps : Bool) : Prop where
  map : Partly keys (nb.odLbData k) (nb'.odLbData k) fun od => (map od).getD ⟨∅, ∅⟩
  nodup : (crupdated.map (·.od)).Nodup
  handled : ∀ c ∈ crupdated, c.od ∈ all ∧ c.od ∉ keys
  entryLbs : ∀ c ∈ crupdated, ∀ L ∈ c.assocLbs, nb'.OdLb k c.od L
  entryLbgrps : ∀ c ∈ crupdated, c.assocLbgrps.Nodup ∧
    ∀ G, G ∈ c.assocLbgrps ↔ nb'.OdGrp k c.od G ∧ ¬ nb.OdGrp k c.od G
  foundLb : ∀ od L, nb'.OdLb k od L → ¬ nb.OdLb k od L → od ∉ keys →
    ∃ c ∈ crupdated, c.od = od ∧ L ∈ c.assocLbs
  foundLbgrp : ∀ od G, nb'.OdGrp k od G → ¬ nb.OdGrp k od G → od ∉ keys →
    ∃ c ∈ crupdated, c.od = od ∧ G ∈ c.assocLbgrps
  keptLb : dissassocLbs = false → ∀ od L, nb'.HasOd k od → nb.OdLb k od L → od ∉ keys →
    nb'.OdLb k od L
  keptLbgrp : dissassocLbgrps = false → ∀ od G, nb'.HasOd k od → nb.OdGrp k od G → od ∉ keys →
    nb'.OdGrp k od G

structure Loop (lbKeys grpKeys : List ℕ) (all odKeys : OdKind → List ℕ) (n : Node) : Prop where
  lbs : LbsDone nb nb' lbKeys n.data.lbs n.trk.deletedLbs n.trk.crupdatedLbs
  grps : GrpsDone nb nb' grpKeys n.data.lbgrps n.trk.crupdatedLbgrps n.trk.deletedLbgrps
    n.trk.hasDissassocLbsFromLbgrps
  ods : ∀ k, OdsDone nb nb' k (all k) (odKeys k) (n.data.odLbMap k) (n.trk.crupdatedOds k)
    n.trk.hasDissassocLbsFromOd n.trk.hasDissassocLbgrpsFromOd

end

/-! ## The load balancers -/

section
variable {nb nb' : Nb} {keys gone : List ℕ} {u : ℕ}

section
variable {lbs : ℕ → Option LbRow} {crupdated : List ℕ}

/-- One key less is to come: what is said of those that came holds of it too. -/
theorem found_cons {R R' F F' : ℕ → ℕ → Prop} (h : ∀ v x, R' v x → ¬ R v x → v ∉ u :: keys → F v x)
    (hF : ∀ v x, F v x → F' v x) (hu : ∀ x, R' u x → ¬ R u x → F' u x) :
    ∀ v x, R' v x → ¬ R v x → v ∉ keys → F' v x := by
  intro v x h1 h2 h3
  by_cases hv : v = u
  · subst hv
    exact hu x h1 h2
  · exact hF v x (h v x h1 h2 (not_mem_cons_of_ne_of_not_mem hv h3))

theorem kept_cons {R R' : ℕ → ℕ → Prop} {H : ℕ → Prop}
    (h : ∀ v x, H v → R v x → v ∉ u :: keys → R' v x)
    (hu : H u → ∀ x, R u x → R' u x) : ∀ v x, H v → R v x → v ∉ keys → R' v x := by
  intro v x h1 h2 h3
  by_cases hv : v = u
  · subst hv
    exact hu h1 x h2
  · exact h v x h1 h2 (not_mem_cons_of_ne_of_not_mem hv h3)

theorem LbsDone.step {lbs' : ℕ → Option LbRow} {gone' crupdated' : List ℕ}
    (h : LbsDone nb nb' (u :: keys) lbs gone crupdated) (hu : u ∉ keys)
    (hself : lbs' u = rowOf (·.uuid) nb'.lbs u) (hother : ∀ L, L ≠ u → lbs' L = lbs L)
    (hgone : ∀ L, L ∈ gone' ↔ L ∈ gone ∨ L = u ∧ nb.HasLb u ∧ ¬ nb'.HasLb u) (hnodup : gone'.Nodup)
    (hcr : ∀ L, L ∈ crupdated' ↔ L ∈ crupdated ∨ L = u ∧ nb'.HasLb u) :
    LbsDone nb nb' keys lbs' gone' crupdated' where
  map := h.map.step hu hself hother
  nodup := hnodup
  deleted L := by
    rw [hgone, h.deleted L]
    by_cases hL : L = u <;> simp [hL, hu]
  entry L hL := by
    rcases (hcr L).1 hL with hL | ⟨rfl, hL⟩
    · exact h.entry L hL
    · exact hL
  changed L h1 h2 h3 := by
    refine (hcr L).2 ?_
    by_cases hL : L = u
    · exact .inr ⟨hL, hL ▸ h1⟩
    · exact .inl (h.changed L h1 h2 (not_mem_cons_of_ne_of_not_mem hL h3))

theorem LbsDone.keep (h : LbsDone nb nb' (u :: keys) lbs gone crupdated) (hu : u ∉ keys)
    (hold : ¬ nb.HasLb u)
    (hnew : ¬ nb'.HasLb u) : LbsDone nb nb' keys lbs gone crupdated := by
  refine h.step hu ?_ (fun _ _ => rfl) (fun L => by simp [hold]) h.nodup fun L => by simp [hnew]
  rw [h.map.head, rowOf_eq_none.2 hold, rowOf_eq_none.2 hnew]

theorem LbsDone.insert {row : LbRow} (h : LbsDone nb nb' (row.uuid :: keys) lbs gone crupdated)
    (hu : row.uuid ∉ keys) (hrow : row ∈ nb'.lbs) :
    LbsDone nb nb' keys (update lbs row.uuid (some row)) gone (row.uuid :: crupdated) := by
  have hnew : nb'.HasLb row.uuid := mem_map_of_mem hrow
  refine h.step hu ?_ (fun L hL => update_of_ne hL _ _) (fun L => by simp [hnew]) h.nodup
    fun L => by simp [hnew, or_comm]
  rw [update_self, rowOf_of_mem nb'.lbsNodup hrow]

theorem LbsDone.delete (h : LbsDone nb nb' (u :: keys) lbs gone crupdated) (hu : u ∉ keys)
    (hold : nb.HasLb u)
    (hnew : ¬ nb'.HasLb u) : LbsDone nb nb' keys (update lbs u none) (u :: gone) crupdated := by
  refine h.step hu ?_ (fun L hL => update_of_ne hL _ _) (fun L => by simp [hold, hnew, or_comm])
    (nodup_cons.2 ⟨fun hin => ((h.deleted u).1 hin).2.2 mem_cons_self, h.nodup⟩)
    fun L => by simp [hnew]
  rw [update_self, rowOf_eq_none.2 hnew]

end

/-- A handler that fails has everything computed anew; it does not abort. -/
abbrev Falls : Fail → Prop := (· = .recompute)

variable {grpKeys : List ℕ} {all odKeys : OdKind → List ℕ} {n : Node}

theorem Loop.handleLb {t : TrackedRow LbRow} (ht : t.Of (·.uuid) nb.lbs nb'.lbs)
    (hu : t.row.uuid ∉ keys)
    (h : Loop nb nb' (t.row.uuid :: keys) grpKeys all odKeys n) :
    Ends Falls (Loop nb nb' keys grpKeys all odKeys) (n.handleLb t) := by
  unfold Node.handleLb
  cases hn : t.isNew
  · -- the row was there
    have hold : nb.HasLb t.row.uuid := ht.mem_old hn
    have hlbs : n.data.lbs t.row.uuid = rowOf (·.uuid) nb.lbs t.row.uuid := h.lbs.map.head
    cases hr : rowOf LbRow.uuid nb.lbs t.row.uuid with
    | none => exact absurd hold (rowOf_eq_none.1 hr)
    | some lb =>
      cases hd : t.isDeleted
      · simp only [hlbs, hr, Bool.false_and, Bool.false_eq_true, if_false]
        split
        · rfl
        · split
          · rfl
          · exact ⟨h.lbs.insert hu (ht.row hd), h.grps, h.ods⟩
      · simp only [hlbs, hr]
        exact ⟨h.lbs.delete hu hold (ht.isDeleted.1 hd), h.grps, h.ods⟩
  · cases hd : t.isDeleted
    · exact ⟨h.lbs.insert hu (ht.row hd), h.grps, h.ods⟩
    · exact ⟨h.lbs.keep hu (ht.isNew.1 hn) (ht.isDeleted.1 hd), h.grps, h.ods⟩

/-! ## The groups -/

section
variable {lbgrps : ℕ → Option Grp} {crupdated : List CrupdatedLbgrp} {dissassoc : Bool}

theorem GrpsDone.leave {lbgrps' : ℕ → Option Grp} {gone' : List ℕ}
    (h : GrpsDone nb nb' (u :: keys) lbgrps crupdated gone dissassoc) (hu : u ∉ keys)
    (hself : lbgrps' u = none) (hother : ∀ G, G ≠ u → lbgrps' G = lbgrps G) (hnew : ¬ nb'.HasGrp u)
    (hstay : gone' = [] → gone = [] ∧ ¬ nb.HasGrp u) :
    GrpsDone nb nb' keys lbgrps' crupdated gone' dissassoc := by
  have hkeys : ∀ {G}, nb'.HasGrp G → G ∉ keys → G ∉ u :: keys := by
    intro G hG
    refine not_mem_cons_of_ne_of_not_mem ?_
    rintro rfl
    exact hnew hG
  constructor
  case map =>
    refine h.map.step hu ?_ fun G hG => by rw [hother G hG]
    rw [hself, Nb.grpLbs_eq_none.2 hnew]
    rfl
  case entry => exact h.entry
  case created => exact fun G h1 h2 h3 => h.created G h1 h2 (hkeys h1 h3)
  case found => exact fun G L h1 h2 h3 => h.found G L h1 h2 (hkeys h1.hasGrp h3)
  case kept => exact fun hd G L h1 h2 h3 h4 => h.kept hd G L h1 h2 h3 (hkeys h1 h4)
  case stay =>
    intro hg G h1 h2
    refine h.stay (hstay hg).1 G h1 (not_mem_cons_of_ne_of_not_mem ?_ h2)
    rintro rfl
    exact (hstay hg).2 h1

theorem GrpsDone.insert {row : GrpRow}
    (h : GrpsDone nb nb' (row.uuid :: keys) lbgrps crupdated gone dissassoc)
    (hu : row.uuid ∉ keys) (hrow : row ∈ nb'.lbgrps) {grp : Grp} (hgrp : grp.lbs = row.lbs)
    (assoc pre : List ℕ) {deletedLbs : List ℕ} (hpre : (nb.grpLbs row.uuid).getD [] = pre)
    (hassoc : ∀ L, L ∈ assoc ↔ L ∈ row.lbs ∧ L ∉ pre) (hdeleted : ∀ L ∈ deletedLbs, ¬ nb'.HasLb L) :
    GrpsDone nb nb' keys (update lbgrps row.uuid (some grp)) (⟨row.uuid, assoc⟩ :: crupdated) gone
      (dissassoc || pre.any fun L => L ∉ grp.lbs && L ∉ deletedLbs) := by
  have hkeys : ∀ {G}, G ≠ row.uuid → G ∉ keys → G ∉ row.uuid :: keys :=
    not_mem_cons_of_ne_of_not_mem
  have hnew : nb'.HasGrp row.uuid := mem_map_of_mem hrow
  have hlbs : ∀ {L}, nb'.GrpLb row.uuid L ↔ L ∈ row.lbs := by
    intro L
    rw [Nb.GrpLb, Nb.grpLbs_of_mem hrow]
    rfl
  have hlbs' : ∀ {L}, nb.GrpLb row.uuid L ↔ L ∈ pre := by
    intro L
    rw [Nb.GrpLb, hpre]
  have hself : ∃ c ∈ (⟨row.uuid, assoc⟩ :: crupdated : List CrupdatedLbgrp), c.lbgrp = row.uuid :=
    ⟨_, mem_cons_self, rfl⟩
  have hlift : ∀ {G}, (∃ c ∈ crupdated, c.lbgrp = G) →
      ∃ c ∈ (⟨row.uuid, assoc⟩ :: crupdated : List CrupdatedLbgrp), c.lbgrp = G := by simp_all
  constructor
  case map =>
    refine h.map.step hu ?_ fun G hG => ?_
    · simp only [update_self, Option.map_some, hgrp, Nb.grpLbs_of_mem hrow]
    · simp only [update_of_ne hG]
  case entry =>
    rintro c (_ | ⟨_, hc⟩)
    · simp_all
    · exact h.entry c hc
  case created =>
    intro G h1 h2 h3
    by_cases hG : G = row.uuid
    · exact hG ▸ hself
    · exact hlift (h.created G h1 h2 (hkeys hG h3))
  case found => exact found_cons h.found (fun _ _ => hlift) fun _ _ _ => hself
  case kept =>
    intro hd G L h1 h2 h3 h4
    obtain ⟨hd, hany⟩ := Bool.or_eq_false_iff.1 hd
    by_cases hG : G = row.uuid
    · subst hG
      have hL := any_eq_false.1 hany L (hlbs'.1 h2)
      rw [hlbs]
      by_contra hno
      have hin : L ∉ deletedLbs := fun hin => hdeleted L hin h3
      exact hL (by simp [hgrp, hno, hin])
    · exact h.kept hd G L h1 h2 h3 (hkeys hG h4)
  case stay =>
    intro hg G h1 h2
    by_cases hG : G = row.uuid
    · exact hG ▸ hnew
    · exact h.stay hg G h1 (hkeys hG h2)

end

theorem LbsDone.isSome {lbs : ℕ → Option LbRow} {crupdated : List ℕ}
    (h : LbsDone nb nb' [] lbs gone crupdated) {L : ℕ} (hL : nb'.HasLb L) :
    ∃ lb, lbs L = some lb := by
  rw [h.map.done]
  exact Option.isSome_iff_exists.1 (isSome_rowOf.2 hL)

theorem ends_routable {f : Bool → ℕ → Except Fail Bool} (l : List ℕ) (r : Bool)
    (h : ∀ x ∈ l, ∀ r, ∃ r', f r x = .ok r') : Ends Falls (fun _ => True) (l.foldlM f r) := by
  refine (Ends.foldlM (I := fun l _ => ∀ x ∈ l, ∀ r, ∃ r', f r x = .ok r') ?_ l r h).mono
    fun _ _ => trivial
  intro x l r hl
  obtain ⟨r', hr'⟩ := hl x mem_cons_self r
  rw [hr']
  exact (forall_mem_cons.1 hl).2

theorem lbGroupInit_eq {d : LbData} {row : GrpRow} (h : ∀ L ∈ row.lbs, ∃ lb, d.lbs L = some lb) :
    d.lbGroupInit row = .ok ⟨row.lbs, row.lbs.any fun L => (d.lbs L).any (·.routable)⟩ := by
  have hloop : ∀ {f : Bool → ℕ → Except Fail Bool},
      (∀ r L lb, d.lbs L = some lb → f r L = .ok (r || lb.routable)) →
      ∀ lbs : List ℕ, (∀ L ∈ lbs, ∃ lb, d.lbs L = some lb) → ∀ r,
        lbs.foldlM f r = .ok (r || lbs.any fun L => (d.lbs L).any (·.routable)) := by
    intro f hf lbs h
    induction lbs with
    | nil => exact fun r => by simp [pure, Except.pure]
    | cons L lbs ih =>
      intro r
      obtain ⟨lb, hlb⟩ := h L mem_cons_self
      rw [foldlM_cons, hf r L lb hlb]
      refine (ih (forall_mem_cons.1 h).2 (r || lb.routable)).trans ?_
      simp [hlb, Bool.or_assoc]
  rw [LbData.lbGroupInit, hloop (fun r L lb hlb => by rw [hlb]) row.lbs h false]
  rfl

theorem Loop.handleLbgrp {t : TrackedRow GrpRow} (ht : t.Of (·.uuid) nb.lbgrps nb'.lbgrps)
    (hu : t.row.uuid ∉ keys)
    (h : Loop nb nb' [] (t.row.uuid :: keys) all odKeys n) :
    Ends Falls (Loop nb nb' [] keys all odKeys) (n.handleLbgrp t) := by
  have hdeleted : ∀ L ∈ n.trk.deletedLbs, ¬ nb'.HasLb L := fun L hL => ((h.lbs.deleted L).1 hL).2.1
  have hinit : t.isDeleted = false →
      Ends Falls (fun grp : Grp => grp.lbs = t.row.lbs) (n.data.lbGroupInit t.row) := fun hd => by
    rw [lbGroupInit_eq fun L hL => h.lbs.isSome (nb'.lbgrpRefs t.row (ht.row hd) L hL)]
    exact rfl
  have hlbs := h.grps.map.head
  unfold Node.handleLbgrp
  cases hn : t.isNew
  · cases hp : n.data.lbgrps t.row.uuid with
    | none =>
      -- a group that was there is known
      simp only [hp] at hlbs
      exact absurd (ht.mem_old hn) (Nb.grpLbs_eq_none.1 hlbs.symm)
    | some pre =>
      simp only [hp] at hlbs
      cases hd : t.isDeleted
      · simp only [hp]
        refine Ends.bind (hinit hd) fun grp hgrp => ?_
        refine ⟨h.lbs, h.grps.insert hu (ht.row hd) hgrp _ pre.lbs (by rw [← hlbs]; rfl)
          (fun L => ?_) hdeleted, h.ods⟩
        simp [hgrp]
      · simp only [hp]
        exact ⟨h.lbs, h.grps.leave hu (update_self ..) (fun G hG => update_of_ne hG _ _)
          (ht.isDeleted.1 hd) nofun, h.ods⟩
  · have hold : ¬ nb.HasGrp t.row.uuid := ht.isNew.1 hn
    cases hd : t.isDeleted
    · refine Ends.bind (hinit hd) fun grp hgrp => ?_
      have hins := h.grps.insert hu (ht.row hd) hgrp grp.lbs []
        (by rw [Nb.grpLbs_eq_none.2 hold]; rfl) (fun L => by simp [hgrp]) hdeleted
      simp only [any_nil, Bool.or_false] at hins
      exact ⟨h.lbs, hins, h.ods⟩
    · rw [Nb.grpLbs_eq_none.2 hold, Option.map_eq_none_iff] at hlbs
      exact ⟨h.lbs, h.grps.leave hu hlbs (fun _ _ => rfl) (ht.isDeleted.1 hd) fun hg => ⟨hg, hold⟩,
        h.ods⟩

/-! ## The datapaths -/

variable {k : OdKind}

section
variable {map : ℕ → Option OdLbData} {crupdated : List CrupdatedOd} {dl dg : Bool}

theorem OdsDone.mono {dl' dg' : Bool} (h : OdsDone nb nb' k (all k) keys map crupdated dl dg)
    (hl : dl' = false → dl = false) (hg : dg' = false → dg = false) :
    OdsDone nb nb' k (all k) keys map crupdated dl' dg' :=
  { h with
    keptLb := fun hd => h.keptLb (hl hd)
    keptLbgrp := fun hd => h.keptLbgrp (hg hd) }

section
variable (h : OdsDone nb nb' k (all k) (u :: keys) map crupdated dl dg) (hu : u ∉ keys)
include h hu

theorem OdsDone.keep {map' : ℕ → Option OdLbData} (hself : (map' u).getD ⟨∅, ∅⟩ = nb'.odLbData k u)
    (hother : ∀ v, v ≠ u → map' v = map v)
    (hsame : ¬ nb'.HasOd k u ∨ nb.odLbData k u = nb'.odLbData k u) :
    OdsDone nb nb' k (all k) keys map' crupdated dl dg := by
  have hold : ∀ (col : OdLbData → Finset ℕ), col ⟨∅, ∅⟩ = ∅ → ∀ x ∈ col (nb'.odLbData k u),
      x ∈ col (nb.odLbData k u) := by
    intro col hnil x hx
    rcases hsame with hno | hsame
    · simp_all [Nb.odLbData_of_not hno]
    · rwa [hsame]
  have hnew : nb'.HasOd k u → nb.odLbData k u = nb'.odLbData k u := hsame.resolve_left ∘ not_not.2
  refine { h with
    map := h.map.step hu hself fun v hv => by rw [hother v hv]
    handled := fun c hc => ⟨(h.handled c hc).1,
      fun hin => (h.handled c hc).2 (mem_cons_of_mem u hin)⟩
    foundLb := found_cons h.foundLb (fun _ _ hc => hc)
      fun L h1 h2 => absurd (hold OdLbData.lbs rfl L h1) h2
    foundLbgrp := found_cons h.foundLbgrp (fun _ _ hc => hc) fun G h1 h2 =>
      absurd (hold OdLbData.lbgrps rfl G h1) h2
    keptLb := fun hd => kept_cons (h.keptLb hd) fun h1 L hL => ?_
    keptLbgrp := fun hd => kept_cons (h.keptLbgrp hd) fun h1 G hG => ?_ }
  · rwa [Nb.OdLb, ← hnew h1]
  · rwa [Nb.OdGrp, ← hnew h1]

theorem OdsDone.insert (hin : u ∈ all k) {lbs lbgrps : List ℕ} (hlbs : ∀ L ∈ lbs, nb'.OdLb k u L)
    (hlbs' : ∀ L, nb'.OdLb k u L → ¬ nb.OdLb k u L → L ∈ lbs) (hnodup : lbgrps.Nodup)
    (hgrps : ∀ G, G ∈ lbgrps ↔ nb'.OdGrp k u G ∧ ¬ nb.OdGrp k u G) {dl' dg' : Bool}
    (hl : dl' = false → dl = false ∧ ∀ L, nb.OdLb k u L → nb'.OdLb k u L)
    (hg : dg' = false → dg = false ∧ ∀ G, nb.OdGrp k u G → nb'.OdGrp k u G) :
    OdsDone nb nb' k (all k) keys (update map u (some (nb'.odLbData k u)))
      (⟨u, lbs, lbgrps⟩ :: crupdated) dl' dg' := by
  constructor
  case map =>
    refine h.map.step hu ?_ fun v hv => ?_
    · simp
    · simp only [update_of_ne hv]
  case nodup =>
    refine nodup_cons.2 ⟨fun hmem => ?_, h.nodup⟩
    obtain ⟨c, hc, rfl⟩ := mem_map.1 hmem
    exact (h.handled c hc).2 mem_cons_self
  case handled =>
    refine forall_mem_cons.2 ⟨⟨hin, hu⟩, fun c hc => ⟨(h.handled c hc).1, fun hmem => ?_⟩⟩
    exact (h.handled c hc).2 (mem_cons_of_mem u hmem)
  case entryLbs => exact forall_mem_cons.2 ⟨hlbs, h.entryLbs⟩
  case entryLbgrps => exact forall_mem_cons.2 ⟨⟨hnodup, hgrps⟩, h.entryLbgrps⟩
  case foundLb =>
    refine found_cons h.foundLb ?_ fun L h1 h2 => ⟨_, mem_cons_self, rfl, hlbs' L h1 h2⟩
    exact fun v L ⟨c, hc, hL⟩ => ⟨c, mem_cons_of_mem _ hc, hL⟩
  case foundLbgrp =>
    refine found_cons h.foundLbgrp ?_ fun G h1 h2 => ⟨_, mem_cons_self, rfl, (hgrps G).2 ⟨h1, h2⟩⟩
    exact fun v G ⟨c, hc, hG⟩ => ⟨c, mem_cons_of_mem _ hc, hG⟩
  case keptLb => exact fun hd => kept_cons (h.keptLb (hl hd).1) fun _ => (hl hd).2
  case keptLbgrp => exact fun hd => kept_cons (h.keptLbgrp (hg hd).1) fun _ => (hg hd).2

end

end

/-- What is associated with a datapath, and whether a load balancer is gone from it. -/
def LbsAssoc (nb nb' : Nb) (k : OdKind) (u : ℕ) (n : Node) (p : Node × List ℕ) : Prop :=
  (∃ r dl, p.1 = { n with trk := { n.trk with hasRoutableLb := r, hasDissassocLbsFromOd := dl } } ∧
    (dl = false → n.trk.hasDissassocLbsFromOd = false ∧ ∀ L, nb.OdLb k u L → nb'.OdLb k u L)) ∧
  (∀ L ∈ p.2, nb'.OdLb k u L) ∧ ∀ L, nb'.OdLb k u L → ¬ nb.OdLb k u L → L ∈ p.2

def LbgrpsAssoc (nb nb' : Nb) (k : OdKind) (u : ℕ) (n : Node) (p : Node × List ℕ) : Prop :=
  (∃ r dg, p.1 = { n with
      trk := { n.trk with hasRoutableLb := r, hasDissassocLbgrpsFromOd := dg } } ∧
    (dg = false → n.trk.hasDissassocLbgrpsFromOd = false ∧ ∀ G, nb.OdGrp k u G → nb'.OdGrp k u G)) ∧
  p.2.Nodup ∧ ∀ G, G ∈ p.2 ↔ nb'.OdGrp k u G ∧ ¬ nb.OdGrp k u G

theorem subset_of_sdiff {pre : Finset ℕ} {l : List ℕ} (h : decide (pre \ l.toFinset ≠ ∅) = false)
    {x : ℕ}
    (hx : x ∈ pre) : x ∈ l := by
  have hgone : pre \ l.toFinset = ∅ := by simpa using h
  exact mem_toFinset.1 (Finset.sdiff_eq_empty_iff_subset.1 hgone hx)

theorem ends_handleOdLbChanges {modified : ℕ → Bool} {pre : Finset ℕ} {lbs : List ℕ}
    (hfound : ∀ L ∈ lbs, ∃ lb, n.data.lbs L = some lb) (hpre : ∀ L, nb.OdLb k u L ↔ L ∈ pre)
    (hlbs : ∀ L, nb'.OdLb k u L ↔ L ∈ lbs) :
    Ends Falls (LbsAssoc nb nb' k u n) (n.handleOdLbChanges modified pre lbs) := by
  refine Ends.bind (ends_routable _ _ fun L hL r => ?_) ?_
  · obtain ⟨lb, hlb⟩ := hfound L (mem_filter.1 hL).1
    rw [hlb]
    cases r <;> exact ⟨_, rfl⟩
  · intro r _
    refine ⟨⟨r, _, rfl, fun hd => ?_⟩, fun L hL => ?_, fun L h1 h2 => ?_⟩
    · obtain ⟨hd, hgone⟩ := Bool.or_eq_false_iff.1 hd
      exact ⟨hd, fun L hL => (hlbs L).2 (subset_of_sdiff hgone ((hpre L).1 hL))⟩
    · exact (hlbs L).2 (mem_filter.1 hL).1
    · simp_all

theorem ends_handleOdLbgrpChanges {pre : Finset ℕ} {lbgrps : List ℕ}
    (hfound : ∀ G ∈ lbgrps, ∃ grp, n.data.lbgrps G = some grp)
    (hpre : ∀ G, nb.OdGrp k u G ↔ G ∈ pre) (hlbgrps : ∀ G, nb'.OdGrp k u G ↔ G ∈ lbgrps)
    (hnodup : lbgrps.Nodup) :
    Ends Falls (LbgrpsAssoc nb nb' k u n) (n.handleOdLbgrpChanges pre lbgrps) := by
  refine Ends.bind (ends_routable _ _ fun G hG r => ?_) ?_
  · obtain ⟨grp, hgrp⟩ := hfound G (mem_filter.1 hG).1
    rw [hgrp]
    cases r <;> exact ⟨_, rfl⟩
  · intro r _
    refine ⟨⟨r, _, rfl, fun hd => ?_⟩, hnodup.filter _, fun G => ?_⟩
    · obtain ⟨hd, hgone⟩ := Bool.or_eq_false_iff.1 hd
      exact ⟨hd, fun G hG => (hlbgrps G).2 (subset_of_sdiff hgone ((hpre G).1 hG))⟩
    · rw [hlbgrps, hpre]
      simp

theorem lbsAssoc_same (h : ∀ L, nb.OdLb k u L ↔ nb'.OdLb k u L) : LbsAssoc nb nb' k u n (n, []) :=
  ⟨⟨_, _, rfl, fun hd => ⟨hd, fun L => (h L).1⟩⟩, nofun, fun L h1 h2 => absurd ((h L).2 h1) h2⟩

theorem lbgrpsAssoc_same (h : ∀ G, nb.OdGrp k u G ↔ nb'.OdGrp k u G) :
    LbgrpsAssoc nb nb' k u n (n, []) := by
  refine ⟨⟨_, _, rfl, fun hd => ⟨hd, fun G => (h G).1⟩⟩, nodup_nil, fun G => ?_⟩
  rw [h]
  simp

theorem GrpsDone.isSome {lbgrps : ℕ → Option Grp} {crupdated : List CrupdatedLbgrp}
    {dissassoc : Bool}
    (h : GrpsDone nb nb' [] lbgrps crupdated gone dissassoc)
    {G : ℕ} (hG : nb'.HasGrp G) : ∃ grp, lbgrps G = some grp := by
  have hmap := congrFun h.map.done G
  cases hg : lbgrps G with
  | none =>
    simp only [hg] at hmap
    exact absurd hG (Nb.grpLbs_eq_none.1 hmap.symm)
  | some grp => exact ⟨grp, rfl⟩

/-- What is tracked of a datapath, whose row is one of `all`. -/
def TrackedOd.Fits (t : TrackedOd) (nb nb' : Nb) (k : OdKind) (all : List ℕ) : Prop :=
  t.toTrackedRow.Of (·.uuid) (nb.ods k) (nb'.ods k) ∧ t.row.uuid ∈ all ∧
    ∀ r ∈ nb.ods k, r.uuid = t.row.uuid → (t.lbsUpdated = false → r.lbs = t.row.lbs) ∧
      (t.lbgrpsUpdated = false → r.lbgrps = t.row.lbgrps)

theorem odLbData_same {t : TrackedOd} (ht : t.Fits nb nb' k keys) :
    (((t.isNew && t.row.lbs ≠ []) || t.lbsUpdated) = false →
      (nb.odLbData k t.row.uuid).lbs = t.row.lbs.toFinset) ∧
    (((t.isNew && t.row.lbgrps ≠ []) || t.lbgrpsUpdated) = false →
      (nb.odLbData k t.row.uuid).lbgrps = t.row.lbgrps.toFinset) := by
  obtain ⟨ht, -, hup⟩ := ht
  cases hn : t.isNew
  · obtain ⟨r, hr, hru⟩ := mem_map.1 (ht.mem_old hn)
    obtain ⟨hlbs, hlbgrps⟩ := hup r hr hru
    rw [← hru, Nb.odLbData_of_mem hr]
    exact ⟨fun h => by rw [hlbs h], fun h => by rw [hlbgrps h]⟩
  · rw [Nb.odLbData_of_not (ht.isNew.1 hn)]
    constructor
    · simp_all
    · simp_all

theorem odsDone_update {map : OdKind → ℕ → Option OdLbData}
    {cs : OdKind → List CrupdatedOd} {dl dg : Bool}
    (hk : OdsDone nb nb' k (all k) keys (map k) (cs k) dl dg)
    (hne : ∀ k', k' ≠ k → OdsDone nb nb' k' (all k') (odKeys k') (map k') (cs k') dl dg)
    (k' : OdKind) :
    OdsDone nb nb' k' (all k') (update odKeys k keys k') (map k') (cs k') dl dg := by
  by_cases hk' : k' = k
  · subst hk'
    rwa [update_self]
  · rw [update_of_ne hk']
    exact hne k' hk'

theorem Loop.handleOd {modified : ℕ → Bool} {t : TrackedOd} (ht : t.Fits nb nb' k (all k))
    (hu : t.row.uuid ∉ keys) (h : Loop nb nb' [] [] all (update odKeys k (t.row.uuid :: keys)) n) :
    Ends Falls (Loop nb nb' [] [] all (update odKeys k keys)) (n.handleOd modified k t) := by
  obtain ⟨hsameLbs, hsameLbgrps⟩ := odLbData_same ht
  obtain ⟨ht, hall, -⟩ := ht
  have hods := h.ods k
  rw [update_self] at hods
  have hpre : (n.data.odLbMap k t.row.uuid).getD ⟨∅, ∅⟩ = nb.odLbData k t.row.uuid := hods.map.head
  have hother : ∀ k', k' ≠ k → OdsDone nb nb' k' (all k') (odKeys k') (n.data.odLbMap k')
      (n.trk.crupdatedOds k') n.trk.hasDissassocLbsFromOd n.trk.hasDissassocLbgrpsFromOd := by
    intro k' hk
    have := h.ods k'
    rwa [update_of_ne hk] at this
  unfold Node.handleOd
  cases hd : t.isDeleted
  · have hrow := ht.row hd
    have hnow := Nb.odLbData_of_mem hrow
    have hlbs : ∀ L, nb'.OdLb k t.row.uuid L ↔ L ∈ t.row.lbs := fun L => by
      rw [Nb.OdLb, hnow, mem_toFinset]
    have hlbgrps : ∀ G, nb'.OdGrp k t.row.uuid G ↔ G ∈ t.row.lbgrps := fun G => by
      rw [Nb.OdGrp, hnow, mem_toFinset]
    simp only [Bool.false_eq_true, if_false, hpre]
    generalize hlc : (t.isNew && decide (t.row.lbs ≠ []) || t.lbsUpdated) = lc at hsameLbs ⊢
    generalize hgc : (t.isNew && decide (t.row.lbgrps ≠ []) || t.lbgrpsUpdated) =
      gc at hsameLbgrps ⊢
    split
    · -- neither column changed
      rename_i hnone
      obtain ⟨rfl, rfl⟩ : lc = false ∧ gc = false := by simpa using hnone
      have hsame : nb.odLbData k t.row.uuid = nb'.odLbData k t.row.uuid := by
        rw [hnow, ← hsameLbs rfl, ← hsameLbgrps rfl]
      exact ⟨h.lbs, h.grps, odsDone_update
        (hods.keep hu (hpre.trans hsame) (fun _ _ => rfl) (.inr hsame)) hother⟩
    · have hl : Ends Falls (LbsAssoc nb nb' k t.row.uuid n) (if lc = true then
          n.handleOdLbChanges modified (nb.odLbData k t.row.uuid).lbs t.row.lbs
            else .ok (n, [])) := by
        cases lc
        · refine lbsAssoc_same fun L => ?_
          rw [hlbs, Nb.OdLb, hsameLbs rfl, mem_toFinset]
        · exact ends_handleOdLbChanges (fun L hL => h.lbs.isSome (nb'.odLbRefs k _ hrow L hL))
            (fun L => .rfl) hlbs
      have hg : ∀ n₁ : Node, n₁.data = n.data → Ends Falls (LbgrpsAssoc nb nb' k t.row.uuid n₁)
          (if gc = true then n₁.handleOdLbgrpChanges (nb.odLbData k t.row.uuid).lbgrps t.row.lbgrps
            else .ok (n₁, [])) := by
        intro n₁ hn1
        cases gc
        · refine lbgrpsAssoc_same fun G => ?_
          rw [hlbgrps, Nb.OdGrp, hsameLbgrps rfl, mem_toFinset]
        · obtain ⟨hnodup, hrefs⟩ := nb'.odLbgrpRefs k _ hrow
          refine ends_handleOdLbgrpChanges (fun G hG => ?_) (fun G => .rfl) hlbgrps hnodup
          rw [hn1]
          exact h.grps.isSome (hrefs G hG)
      refine Ends.bind hl ?_
      rintro ⟨n₁, assocLbs⟩ ⟨⟨r₁, dl, rfl, hdl⟩, hin, hfound⟩
      refine Ends.bind (hg _ rfl) ?_
      rintro ⟨n₂, assocLbgrps⟩ ⟨⟨r₂, dg, rfl, hdg⟩, hnodup, hiff⟩
      have hdata : (⟨if lc = true then t.row.lbs.toFinset else (nb.odLbData k t.row.uuid).lbs,
          if gc = true then t.row.lbgrps.toFinset else (nb.odLbData k t.row.uuid).lbgrps⟩ :
          OdLbData) = nb'.odLbData k t.row.uuid := by simp_all
      refine ⟨h.lbs, h.grps, odsDone_update ?_ fun k' hk => ?_⟩
      · simp only [Node.setOdLbMap, update_self, hdata]
        exact hods.insert hu hall hin hfound hnodup hiff hdl hdg
      · simp only [Node.setOdLbMap, update_of_ne hk]
        exact (hother k' hk).mono (fun hf => (hdl hf).1) fun hf => (hdg hf).1
  · have hno : ¬ nb'.HasOd k t.row.uuid := ht.isDeleted.1 hd
    simp only [if_true]
    cases hm : n.data.odLbMap k t.row.uuid with
    | none =>
      refine ⟨h.lbs, h.grps, odsDone_update (hods.keep hu ?_ (fun _ _ => rfl) (.inl hno)) hother⟩
      rw [hm, Nb.odLbData_of_not hno]
      rfl
    | some x =>
      refine ⟨h.lbs, h.grps, odsDone_update ?_ fun k' hk => ?_⟩
      · simp only [Node.setOdLbMap, update_self]
        refine hods.keep hu ?_ (fun v hv => update_of_ne hv _ _) (.inl hno)
        rw [update_self, Nb.odLbData_of_not hno]
        rfl
      · simp only [Node.setOdLbMap, update_of_ne hk]
        exact hother k' hk

/-! ## The whole change -/

theorem lbsDone_start {ts : List (TrackedRow LbRow)} (h : Tracks (·.uuid) nb.lbs nb'.lbs ts) :
    LbsDone nb nb' (ts.map (·.row.uuid)) (rowOf (·.uuid) nb.lbs) [] [] := by
  refine ⟨Partly.start fun u hu => h.rowOf_eq nb.lbsNodup hu, nodup_nil, fun L => ?_, nofun,
    fun L _ h2 h3 => absurd (h.rowOf_eq nb.lbsNodup h3) h2⟩
  constructor
  · exact nofun
  · rintro ⟨h1, h2, h3⟩
    obtain ⟨r, hr, rfl⟩ := mem_map.1 h1
    obtain ⟨t, ht, hk⟩ := h.deleted r hr h2
    exact absurd (mem_map.2 ⟨t, ht, hk⟩) h3

theorem grpsDone_start {ts : List (TrackedRow GrpRow)} (h : Tracks (·.uuid) nb.lbgrps nb'.lbgrps ts)
    {lbgrps : ℕ → Option Grp} (hmap : ∀ G, (lbgrps G).map (·.lbs) = nb.grpLbs G) :
    GrpsDone nb nb' (ts.map (·.row.uuid)) lbgrps [] [] false := by
  have heq : ∀ G, G ∉ ts.map (·.row.uuid) → nb'.grpLbs G = nb.grpLbs G := by
    intro G hG
    rw [Nb.grpLbs, Nb.grpLbs, h.rowOf_eq nb.lbgrpsNodup hG]
  have hhas : ∀ G, G ∉ ts.map (·.row.uuid) → (nb'.HasGrp G ↔ nb.HasGrp G) := by
    intro G hG
    rw [← not_iff_not, ← Nb.grpLbs_eq_none, ← Nb.grpLbs_eq_none, heq G hG]
  have hlb : ∀ G L, G ∉ ts.map (·.row.uuid) → (nb'.GrpLb G L ↔ nb.GrpLb G L) := by
    intro G L hG
    rw [Nb.GrpLb, Nb.GrpLb, heq G hG]
  refine ⟨?_, nofun, fun G h1 h2 h3 => absurd ((hhas G h3).1 h1) h2,
    fun G L h1 h2 h3 => absurd ((hlb G L h3).1 h1) h2, fun _ G L _ h2 _ h4 => (hlb G L h4).2 h2,
    fun _ G h1 h2 => (hhas G h2).2 h1⟩
  have hfun : (fun G => (lbgrps G).map (·.lbs)) = nb.grpLbs := funext hmap
  rw [hfun]
  exact Partly.start heq

theorem odsDone_start {ts : List (TrackedRow OdRow)} (h : Tracks (·.uuid) (nb.ods k) (nb'.ods k) ts)
    {map : ℕ → Option OdLbData} (hmap : ∀ od, (map od).getD ⟨∅, ∅⟩ = nb.odLbData k od)
    {all keys : List ℕ} (hkeys : keys = ts.map (·.row.uuid)) :
    OdsDone nb nb' k all keys map [] false false := by
  subst hkeys
  have heq : ∀ od, od ∉ ts.map (·.row.uuid) → nb'.odLbData k od = nb.odLbData k od := by
    intro od hod
    rw [Nb.odLbData, Nb.odLbData, h.rowOf_eq (nb.odsNodup k) hod]
  have hlb : ∀ od L, od ∉ ts.map (·.row.uuid) → (nb'.OdLb k od L ↔ nb.OdLb k od L) := by
    intro od L hod
    rw [Nb.OdLb, Nb.OdLb, heq od hod]
  have hgrp : ∀ od G, od ∉ ts.map (·.row.uuid) → (nb'.OdGrp k od G ↔ nb.OdGrp k od G) := by
    intro od G hod
    rw [Nb.OdGrp, Nb.OdGrp, heq od hod]
  refine ⟨?_, nodup_nil, nofun, nofun, nofun, fun od L h1 h2 h3 => absurd ((hlb od L h3).1 h1) h2,
    fun od G h1 h2 h3 => absurd ((hgrp od G h3).1 h1) h2, fun _ od L _ h2 h3 => (hlb od L h3).2 h2,
    fun _ od G _ h2 h3 => (hgrp od G h3).2 h2⟩
  have hfun : (fun od => (map od).getD ⟨∅, ∅⟩) = nb.odLbData k := funext hmap
  rw [hfun]
  exact Partly.start heq

def Input.tracked (inp : Input) (k : OdKind) : List ℕ := (inp.ods k).map (·.row.uuid)

theorem ends_handleOds {σ : Type*} {f : OdKind → σ → TrackedOd → Except Fail σ}
    {J : (OdKind → List ℕ) → σ → Prop} {inp : Input} {s : σ} (hv : Valid nb inp)
    (hstep : ∀ k odKeys keys t s, TrackedOd.Fits t nb inp.nb k (inp.tracked k) → t.row.uuid ∉ keys →
      J (update odKeys k (t.row.uuid :: keys)) s → Ends Falls (J (update odKeys k keys)) (f k s t))
    (h : J inp.tracked s) : Ends Falls (J fun _ => [])
      ((inp.ods .ls).foldlM (f .ls) s >>= fun s => (inp.ods .lr).foldlM (f .lr) s) := by
  have hods : ∀ k (odKeys : OdKind → List ℕ) (s : σ), odKeys k = inp.tracked k → J odKeys s →
      Ends Falls (J (update odKeys k [])) ((inp.ods k).foldlM (f k) s) := by
    intro k odKeys s hk hs
    refine Ends.foldlM_keys (fun t => t.row.uuid) (I := fun keys => J (update odKeys k keys))
      (fun t keys s ht => hstep k odKeys keys t s
        ⟨(hv.ods k).each _ (mem_map_of_mem ht), mem_map_of_mem ht, hv.updated k t ht⟩) (inp.ods k) s
      (fun _ ht => ht) ?_ ?_
    · have := (hv.ods k).nodup
      rw [map_map] at this
      exact this
    · have hself : update odKeys k (inp.tracked k) = odKeys := by
        rw [← hk, update_eq_self]
      show J (update odKeys k (inp.tracked k)) s
      rwa [hself]
  refine Ends.bind (hods .ls inp.tracked s rfl h) fun s' h' => ?_
  refine (hods .lr _ s' (update_of_ne (by decide) _ _) h').mono fun s'' h'' => ?_
  have hnil : update (update inp.tracked .ls []) .lr [] = fun _ => [] := by
    funext k
    cases k <;> rfl
  rwa [hnil] at h''

/-- **The node lb_data.** No assertion fails, and what is tracked is the difference of the two
    contents. -/
theorem ends_handle {d : LbData} {inp : Input} (hd : d.Of nb) (hv : Valid nb inp) :
    Ends Falls (Loop nb inp.nb [] [] inp.tracked fun _ => []) (Node.handle d inp) := by
  have hkeys : ∀ k, inp.tracked k = ((inp.ods k).map (·.toTrackedRow)).map (·.row.uuid) := by
    intro k
    rw [map_map]
    rfl
  have hstart : Loop nb inp.nb (inp.lbs.map (·.row.uuid)) (inp.lbgrps.map (·.row.uuid)) inp.tracked
      inp.tracked ⟨d, {}⟩ := by
    refine ⟨?_, grpsDone_start hv.lbgrps hd.lbgrps, fun k => odsDone_start (hv.ods k) (hd.ods k)
      (hkeys k)⟩
    have := lbsDone_start hv.lbs
    rwa [← hd.lbs] at this
  refine Ends.bind (Ends.foldlM_keys (fun t => t.row.uuid) (f := Node.handleLb)
    (I := fun keys => Loop nb inp.nb keys _ _ _)
    (fun t keys n ht hu h => h.handleLb ht hu) inp.lbs _
    hv.lbs.each hv.lbs.nodup hstart) fun n₁ h1 => ?_
  refine Ends.bind (Ends.foldlM_keys (fun t => t.row.uuid) (f := Node.handleLbgrp)
    (I := fun keys => Loop nb inp.nb [] keys _ _) (fun t keys n ht hu h => h.handleLbgrp ht hu)
    inp.lbgrps n₁ hv.lbgrps.each hv.lbgrps.nodup h1) fun n₂ h2 => ?_
  exact ends_handleOds hv (fun _ _ _ _ _ ht hu h => h.handleOd ht hu) h2

end

end Ovn.Lb

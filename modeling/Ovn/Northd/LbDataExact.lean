/-
  lb_data is kept exactly.

  The rules for the loops carry over from the datapaths; here come the addresses.  A group that is
  not tracked has load balancers that are not tracked, so that what it has collected stays right.
-/
import Ovn.Northd.LbAddrs

namespace Ovn.Lb

open Function (update update_eq_self update_of_ne update_self)
open List

/-! ## What the handlers do to groups -/

theorem handleLb_lbgrps (n : Node) (t : TrackedRow LbRow) :
    Ends (fun _ => True) (fun n' : Node => n'.data.lbgrps = n.data.lbgrps) (n.handleLb t) := by
  unfold Node.handleLb
  dsimp only
  split
  · rfl
  split
  · rfl
  split
  · rfl
  split
  · rfl
  split
  · trivial
  split
  · trivial
  · rfl

/-- Other groups stay, and the one of the row is made from it where it is there. -/
def Node.GrpHandled (n : Node) (t : TrackedRow GrpRow) (n' : Node) : Prop :=
  (∀ G, G ≠ t.row.uuid → n'.data.lbgrps G = n.data.lbgrps G) ∧
    (t.isDeleted = false → t.isNew = true ∨ n.data.lbgrps t.row.uuid ≠ none →
      ∃ grp, n.data.lbGroupInit t.row = .ok grp ∧ n'.data.lbgrps t.row.uuid = some grp)

theorem grpHandled_handleLbgrp (n : Node) (t : TrackedRow GrpRow) :
    Ends (fun _ => True) (n.GrpHandled t) (n.handleLbgrp t) := by
  have hcreate : ∀ trk : Grp → TrackedLbData, Ends (fun _ => True) (n.GrpHandled t)
      (n.data.lbGroupInit t.row >>= fun grp => .ok
        { data := { n.data with lbgrps := update n.data.lbgrps t.row.uuid (some grp) }
          trk := trk grp }) := by
    intro trk
    cases hinit : n.data.lbGroupInit t.row with
    | error e => trivial
    | ok grp =>
      refine ⟨fun G hG => update_of_ne hG _ _, fun _ _ => ⟨grp, hinit, ?_⟩⟩
      exact update_self ..
  unfold Node.handleLbgrp
  dsimp only
  split
  next h =>
    rw [Bool.and_eq_true] at h
    exact ⟨fun _ _ => rfl, fun hd => absurd h.2 (by simp [hd])⟩
  split
  · exact hcreate _
  next hnew =>
    split
    next hnone => exact ⟨fun _ _ => rfl, fun _ h => absurd hnone (h.resolve_left hnew)⟩
    split
    next hdel => exact ⟨fun G hG => update_of_ne hG _ _, fun hd => absurd hdel (by simp [hd])⟩
    · exact hcreate _

theorem handleOd_data (modified : ℕ → Bool) (k : OdKind) (n : Node) (t : TrackedOd) :
    Ends (fun _ => True) (fun n' : Node => n'.data.lbs = n.data.lbs ∧
      n'.data.lbgrps = n.data.lbgrps)
      (n.handleOd modified k t) := by
  have hlbs : ∀ (n : Node) pre lbs,
    Ends (fun _ => True) (fun p : Node × List ℕ => p.1.data = n.data)
      (n.handleOdLbChanges modified pre lbs) := by
    intro n pre lbs
    exact Ends.bind (Ends.trivial _) fun _ _ => rfl
  have hgrps : ∀ (n : Node) pre lbgrps,
    Ends (fun _ => True) (fun p : Node × List ℕ => p.1.data = n.data)
      (n.handleOdLbgrpChanges pre lbgrps) := by
    intro n pre lbgrps
    exact Ends.bind (Ends.trivial _) fun _ _ => rfl
  unfold Node.handleOd
  dsimp only
  split
  · split
    · exact ⟨rfl, rfl⟩
    · exact ⟨rfl, rfl⟩
  split
  · exact ⟨rfl, rfl⟩
  refine Ends.bind (Q := fun p : Node × List ℕ => p.1.data = n.data) ?_ fun p hp => ?_
  · split
    · exact hlbs n _ _
    · rfl
  refine Ends.bind (Q := fun q : Node × List ℕ => q.1.data = n.data) ?_ fun q hq => ?_
  · split
    · exact (hgrps p.1 _ _).mono fun q hq => hq.trans hp
    · exact hp
  · change q.1.data.lbs = n.data.lbs ∧ q.1.data.lbgrps = n.data.lbgrps
    rw [hq]
    exact ⟨rfl, rfl⟩

theorem groupIps_congr {d d' : LbData} {addrs addrs' : ℕ → IpSets} {lbs : List ℕ}
    (h : ∀ L ∈ lbs, d.lbs L = d'.lbs L ∧ addrs L = addrs' L) :
    groupIps d addrs lbs = groupIps d' addrs' lbs := by
  refine foldl_ext _ _ _ fun s L hL => ?_
  unfold buildLrouterLbIps
  rw [(h L hL).1, (h L hL).2]

/-! ## The loops -/

section
variable (nb : AddrNb) (a : AddrInput)

/-- The addresses of load balancers, but for those still to come. -/
structure AddrsDone (keys : List ℕ) (n : AddrNode) : Prop where
  todo : ∀ L ∈ keys, nb.nb.HasLb L → n.addrs L = nb.addrs L
  done : ∀ L ∉ keys, a.inp.nb.HasLb L → n.addrs L = a.addrs L
  vips : ∀ L ∉ keys, nb.nb.HasLb L → a.inp.nb.HasLb L →
    n.insertedVips L = a.addrs L \ nb.addrs L ∧ n.deletedVips L = nb.addrs L \ a.addrs L
  vipsNew : ∀ L, L ∈ keys ∨ ¬ nb.nb.HasLb L → n.insertedVips L = ⊥ ∧ n.deletedVips L = ⊥

def GrpExact (n : AddrNode) (G : ℕ) : Prop :=
  n.node.data.lbgrps G = (AddrData.run a.nb).data.lbgrps G ∧ n.lbIps G = (AddrData.run a.nb).lbIps G

/-- The loop over the load balancers, in which the groups `d` has stay. -/
structure LbLoop (d : AddrData) (keys : List ℕ) (n : AddrNode) : Prop where
  loop : Loop nb.nb a.inp.nb keys (a.inp.lbgrps.map (·.row.uuid)) a.inp.tracked a.inp.tracked n.node
  addrs : AddrsDone nb a keys n
  lbgrps : n.node.data.lbgrps = d.data.lbgrps
  lbIps : n.lbIps = d.lbIps

structure GrpLoop (keys : List ℕ) (odKeys : OdKind → List ℕ) (n : AddrNode) : Prop where
  loop : Loop nb.nb a.inp.nb [] keys a.inp.tracked odKeys n.node
  addrs : AddrsDone nb a [] n
  grps : ∀ G ∉ keys, a.inp.nb.HasGrp G → GrpExact a n G

end

variable {nb : AddrNb} {a : AddrInput} {n : AddrNode}
variable {keys : List ℕ}

theorem AddrsDone.keep {u : ℕ} (h : AddrsDone nb a (u :: keys) n) (hgone : ¬ a.inp.nb.HasLb u)
    {n' : AddrNode} (hn : n'.addrs = n.addrs) (hins : n'.insertedVips = n.insertedVips)
    (hdel : n'.deletedVips = n.deletedVips) : AddrsDone nb a keys n' := by
  have hkeys : ∀ {L}, L ∉ keys → a.inp.nb.HasLb L → L ∉ u :: keys := by
    rintro L hL hin (_ | ⟨_, h⟩)
    · exact hgone hin
    · exact hL h
  refine ⟨fun L hL => ?_, fun L hL hin => ?_, fun L hL hold hin => ?_, fun L hL => ?_⟩
  · rw [hn]
    exact h.todo L (mem_cons_of_mem u hL)
  · rw [hn]
    exact h.done L (hkeys hL hin) hin
  · rw [hins, hdel]
    exact h.vips L (hkeys hL hin) hold hin
  · rw [hins, hdel]
    exact h.vipsNew L (hL.imp_left (mem_cons_of_mem u))

/-- A load balancer whose addresses are read anew; only one that was there has lost or gained
    any. -/
theorem AddrsDone.read {u : ℕ} (h : AddrsDone nb a (u :: keys) n) (hu : u ∉ keys) {n' : AddrNode}
    (hn : n'.addrs = update n.addrs u (a.addrs u))
    (hother : ∀ L, L ≠ u → n'.insertedVips L = n.insertedVips L ∧
      n'.deletedVips L = n.deletedVips L)
    (hold : nb.nb.HasLb u → n'.insertedVips u = a.addrs u \ nb.addrs u ∧
      n'.deletedVips u = nb.addrs u \ a.addrs u)
    (hnew : ¬ nb.nb.HasLb u → n'.insertedVips u = ⊥ ∧ n'.deletedVips u = ⊥) :
    AddrsDone nb a keys n' := by
  have hkeys : ∀ {L}, L ≠ u → L ∉ keys → L ∉ u :: keys := not_mem_cons_of_ne_of_not_mem
  refine ⟨fun L hL hin => ?_, fun L hL hin => ?_, fun L hL hin hin' => ?_, fun L hL => ?_⟩
  · have hne : L ≠ u := fun heq => hu (heq ▸ hL)
    rw [hn, update_of_ne hne]
    exact h.todo L (mem_cons_of_mem u hL) hin
  · rw [hn]
    by_cases hne : L = u
    · rw [hne, update_self]
    · rw [update_of_ne hne]
      exact h.done L (hkeys hne hL) hin
  · by_cases hne : L = u
    · subst hne
      exact hold hin
    · rw [(hother L hne).1, (hother L hne).2]
      exact h.vips L (hkeys hne hL) hin hin'
  · by_cases hne : L = u
    · subst hne
      exact hnew (hL.resolve_left hu)
    · rw [(hother L hne).1, (hother L hne).2]
      exact h.vipsNew L (hL.imp_left (mem_cons_of_mem u))

variable {d : AddrData}

theorem LbLoop.handleLb {t : TrackedRow LbRow} (ht : t.Of (·.uuid) nb.nb.lbs a.inp.nb.lbs)
    (hu : t.row.uuid ∉ keys) (h : LbLoop nb a d (t.row.uuid :: keys) n) :
    Ends Falls (LbLoop nb a d keys) (n.handleLb a.addrs t) := by
  have hbase := (h.loop.handleLb ht hu).and (handleLb_lbgrps n.node t)
  refine Ends.bind hbase fun node hnode => ?_
  obtain ⟨hloop, hlbgrps⟩ := hnode
  have hlbgrps := hlbgrps.trans h.lbgrps
  have hgone : t.isDeleted = true → ¬ a.inp.nb.HasLb t.row.uuid := ht.isDeleted.1
  cases hn : t.isNew with
  | true =>
    have hnew : ¬ nb.nb.HasLb t.row.uuid := ht.isNew.1 hn
    cases hd : t.isDeleted with
    | true => exact ⟨hloop, h.addrs.keep (hgone hd) rfl rfl rfl, hlbgrps, h.lbIps⟩
    | false =>
      refine ⟨hloop, h.addrs.read hu rfl (fun _ _ => ⟨rfl, rfl⟩) (fun hold => absurd hold hnew)
        fun _ => ?_, hlbgrps, h.lbIps⟩
      exact h.addrs.vipsNew _ (.inl mem_cons_self)
  | false =>
    have hold : nb.nb.HasLb t.row.uuid := ht.mem_old hn
    obtain ⟨lb, hlb⟩ := Option.isSome_iff_exists.1 (isSome_rowOf.2 hold)
    rw [← h.loop.lbs.map.head] at hlb
    rw [hlb]
    cases hd : t.isDeleted with
    | true => exact ⟨hloop, h.addrs.keep (hgone hd) rfl rfl rfl, hlbgrps, h.lbIps⟩
    | false =>
      refine ⟨hloop, h.addrs.read hu rfl (fun L hL => ?_) (fun _ => ?_)
        (fun hno => absurd hold hno),
        hlbgrps, h.lbIps⟩
      · exact ⟨update_of_ne hL _ _, update_of_ne hL _ _⟩
      · simp [update_self, h.addrs.todo _ mem_cons_self hold]

variable {odKeys : OdKind → List ℕ}

/-- What a group collects while its load balancers are up to date. -/
theorem GrpLoop.groupIps_eq (h : GrpLoop nb a keys odKeys n) {row : GrpRow}
    (hrow : row ∈ a.inp.nb.lbgrps) :
    groupIps n.node.data n.addrs row.lbs = (AddrData.run a.nb).lbIps row.uuid := by
  have hlbs : (AddrData.run a.nb).lbIps row.uuid
      = groupIps (.run a.inp.nb) a.addrs ((a.inp.nb.grpLbs row.uuid).getD []) := rfl
  rw [hlbs, Nb.grpLbs_of_mem hrow]
  refine groupIps_congr fun L hL => ?_
  have hin := a.inp.nb.lbgrpRefs row hrow L hL
  exact ⟨congrFun h.loop.lbs.map.done L, h.addrs.done L not_mem_nil hin⟩

theorem GrpLoop.handleLbgrp {t : TrackedRow GrpRow}
    (ht : t.Of (·.uuid) nb.nb.lbgrps a.inp.nb.lbgrps)
    (hu : t.row.uuid ∉ keys) (h : GrpLoop nb a (t.row.uuid :: keys) odKeys n) :
    Ends Falls (GrpLoop nb a keys odKeys) (n.handleLbgrp t) := by
  have hbase := (h.loop.handleLbgrp ht hu).and (grpHandled_handleLbgrp n.node t)
  refine Ends.bind hbase fun node hnode => ?_
  obtain ⟨hloop, hother, hself⟩ := hnode
  -- a group is left as it is, or it is the one that is handled
  have hkeep : ∀ lbIps, (∀ G, G ≠ t.row.uuid → lbIps G = n.lbIps G) →
      (a.inp.nb.HasGrp t.row.uuid → GrpExact a { n with node := node, lbIps := lbIps } t.row.uuid) →
      GrpLoop nb a keys odKeys { n with node := node, lbIps := lbIps } := by
    intro lbIps hips hexact
    refine ⟨hloop, ⟨h.addrs.todo, h.addrs.done, h.addrs.vips, h.addrs.vipsNew⟩, fun G hG hin => ?_⟩
    by_cases hne : G = t.row.uuid
    · subst hne
      exact hexact hin
    · obtain ⟨hgrp, hlbIps⟩ := h.grps G (not_mem_cons_of_ne_of_not_mem hne hG) hin
      exact ⟨(hother G hne).trans hgrp, (hips G hne).trans hlbIps⟩
  have hdeleted : t.isDeleted = true → GrpLoop nb a keys odKeys { n with node := node } :=
    fun hd => hkeep n.lbIps (fun _ _ => rfl) fun hin => absurd hin (ht.isDeleted.1 hd)
  have hcreated : t.isDeleted = false → t.isNew = true ∨ n.node.data.lbgrps t.row.uuid ≠ none →
      GrpLoop nb a keys odKeys { n with
        node := node
        lbIps := update n.lbIps t.row.uuid (groupIps n.node.data n.addrs t.row.lbs) } := by
    intro hd hex
    have hrow := ht.row hd
    refine hkeep _ (fun G hG => update_of_ne hG _ _) fun _ => ⟨?_, ?_⟩
    · obtain ⟨grp, hinit, hgrp⟩ := hself hd hex
      rw [lbGroupInit_eq fun L hL => h.loop.lbs.isSome (a.inp.nb.lbgrpRefs t.row hrow L hL)]
        at hinit
      have hrun : (AddrData.run a.nb).data.lbgrps t.row.uuid = some ⟨t.row.lbs, t.row.lbs.any
        fun L =>
          (rowOf LbRow.uuid a.inp.nb.lbs L).any (·.routable)⟩ := by
        change (rowOf _ a.inp.nb.lbgrps t.row.uuid).map _ = _
        rw [rowOf_of_mem a.inp.nb.lbgrpsNodup hrow]
        rfl
      rw [hrun, ← h.loop.lbs.map.done]
      exact hgrp.trans (congrArg some (Except.ok.inj hinit).symm)
    · exact (update_self ..).trans (h.groupIps_eq hrow)
  cases hn : t.isNew with
  | true =>
    cases hd : t.isDeleted with
    | true => exact hdeleted hd
    | false => exact hcreated hd (.inl hn)
  | false =>
    have hold : nb.nb.HasGrp t.row.uuid := ht.mem_old hn
    have hmap := h.loop.grps.map.head
    cases hg : n.node.data.lbgrps t.row.uuid with
    | none =>
      rw [hg] at hmap
      exact absurd hold (Nb.grpLbs_eq_none.1 hmap.symm)
    | some grp =>
      cases hd : t.isDeleted with
      | true => exact hdeleted hd
      | false => exact hcreated hd (.inr (hg.trans_ne nofun))

theorem GrpLoop.handleOd {k : OdKind} {t : TrackedOd}
    (ht : t.Fits nb.nb a.inp.nb k (a.inp.tracked k))
    (hu : t.row.uuid ∉ keys) (h : GrpLoop nb a [] (update odKeys k (t.row.uuid :: keys)) n) :
    Ends Falls (GrpLoop nb a [] (update odKeys k keys)) (n.handleOd a.inp.lbModified k t) := by
  have hloop : Ends Falls _ (n.node.handleOd a.inp.lbModified k t) := h.loop.handleOd ht hu
  have hbase := hloop.and (handleOd_data a.inp.lbModified k n.node t)
  refine Ends.bind hbase fun node hnode => ?_
  obtain ⟨hloop, hlbs, hlbgrps⟩ := hnode
  refine ⟨hloop, ⟨h.addrs.todo, h.addrs.done, h.addrs.vips, h.addrs.vipsNew⟩, fun G hG hin => ?_⟩
  exact ⟨(congrFun hlbgrps G).trans (h.grps G hG hin).1, (h.grps G hG hin).2⟩

/-! ## A whole iteration -/

section
variable (hd : d.Same nb (.run nb)) (hv : AddrValid nb a)
include hd hv

theorem lbLoop_start :
    LbLoop nb a d (a.inp.lbs.map (·.row.uuid)) ⟨⟨d.data, {}⟩, d.addrs, d.lbIps, ⊥, ⊥⟩ := by
  have hof := LbData.of_run nb.nb
  have hlbgrps : ∀ G, (d.data.lbgrps G).map (·.lbs) = nb.nb.grpLbs G := by
    intro G
    rw [hd.lbgrps]
    exact hof.lbgrps G
  have hlbs : d.data.lbs = rowOf (·.uuid) nb.nb.lbs := hd.lbs
  have hhas : ∀ L, L ∉ a.inp.lbs.map (·.row.uuid) → (a.inp.nb.HasLb L ↔ nb.nb.HasLb L) := by
    intro L hL
    have heq := hv.valid.lbs.rowOf_eq nb.nb.lbsNodup hL
    rw [Nb.HasLb, Nb.HasLb, ← isSome_rowOf, ← isSome_rowOf, heq]
  refine ⟨⟨?_, grpsDone_start hv.valid.lbgrps hlbgrps, fun k => ?_⟩, ⟨?_, ?_, ?_, ?_⟩, rfl, rfl⟩
  · have := lbsDone_start hv.valid.lbs
    rwa [← hlbs] at this
  · refine odsDone_start (hv.valid.ods k) (fun od => (hd.ods k od).trans (hof.ods k od)) ?_
    rw [map_map]
    rfl
  · exact fun L _ hold => hd.addrs L hold
  · intro L hL hin
    have hold := (hhas L hL).1 hin
    exact (hd.addrs L hold).trans (hv.addrs L hold hin hL).symm
  · intro L hL hold hin
    rw [hv.addrs L hold hin hL, sdiff_self]
    exact ⟨rfl, rfl⟩
  · simp

theorem LbLoop.grpLoop (h : LbLoop nb a d [] n) :
    GrpLoop nb a (a.inp.lbgrps.map (·.row.uuid)) a.inp.tracked n := by
  refine ⟨h.loop, h.addrs, fun G hG hin => ?_⟩
  have hrow := hv.valid.lbgrps.rowOf_eq nb.nb.lbgrpsNodup hG
  have hold : nb.nb.HasGrp G := by
    rw [Nb.HasGrp, ← isSome_rowOf, ← hrow, isSome_rowOf]
    exact hin
  have hgrpLbs : a.inp.nb.grpLbs G = nb.nb.grpLbs G := by
    rw [Nb.grpLbs, Nb.grpLbs, hrow]
  -- none of its load balancers is tracked
  have hsame : ∀ L, a.inp.nb.GrpLb G L →
      rowOf LbRow.uuid a.inp.nb.lbs L = rowOf LbRow.uuid nb.nb.lbs L ∧ a.addrs L = nb.addrs L := by
    intro L hL
    have hL' : L ∉ a.inp.lbs.map (·.row.uuid) := fun ht => hG (hv.refs G L hL ht)
    have heq := hv.valid.lbs.rowOf_eq nb.nb.lbsNodup hL'
    have hnew := hL.hasLb
    have hold : nb.nb.HasLb L := by
      rw [Nb.HasLb, ← isSome_rowOf, ← heq, isSome_rowOf]
      exact hnew
    exact ⟨heq, hv.addrs L hold hnew hL'⟩
  refine ⟨?_, ?_⟩
  · rw [h.lbgrps, hd.lbgrps]
    change (rowOf _ nb.nb.lbgrps G).map _ = (rowOf _ a.inp.nb.lbgrps G).map _
    rw [hrow]
    refine Option.map_congr fun row hr => ?_
    have hany : ∀ L ∈ row.lbs, a.inp.nb.GrpLb G L := by
      intro L hL
      rw [Nb.GrpLb, hgrpLbs, Nb.grpLbs, hr]
      exact hL
    refine congrArg (Grp.mk row.lbs) (Bool.eq_iff_iff.2 ?_)
    rw [any_eq_true, any_eq_true]
    refine exists_congr fun L => and_congr_right fun hL => ?_
    rw [← (hsame L (hany L hL)).1]
    rfl
  · rw [h.lbIps, hd.lbIps G hold]
    change groupIps _ _ ((nb.nb.grpLbs G).getD []) = groupIps _ _ ((a.inp.nb.grpLbs G).getD [])
    rw [hgrpLbs]
    refine groupIps_congr fun L hL => ?_
    have hL' : a.inp.nb.GrpLb G L := by
      rw [Nb.GrpLb, hgrpLbs]
      exact hL
    exact ⟨(hsame L hL').1.symm, (hsame L hL').2.symm⟩

/-- **The handlers of lb_data**, on what a recompute leaves. -/
theorem ends_addrHandle : Ends Falls (GrpLoop nb a [] fun _ => []) (AddrNode.handle d a) := by
  refine Ends.bind (Ends.foldlM_keys (fun t => t.row.uuid)
    (fun t keys n ht hu h => h.handleLb ht hu) a.inp.lbs _ hv.valid.lbs.each hv.valid.lbs.nodup
    (lbLoop_start hd hv)) fun n₁ h1 => ?_
  refine Ends.bind (Ends.foldlM_keys (fun t => t.row.uuid) (f := AddrNode.handleLbgrp)
    (I := fun keys => GrpLoop nb a keys _)
    (fun t keys n ht hu h => h.handleLbgrp ht hu) a.inp.lbgrps n₁ hv.valid.lbgrps.each
    hv.valid.lbgrps.nodup (h1.grpLoop hd hv)) fun n₂ h2 => ?_
  exact ends_handleOds hv.valid (fun _ _ _ _ _ ht hu h => h.handleOd ht hu) h2

end

theorem GrpLoop.same (h : GrpLoop nb a [] (fun _ => []) n) : n.data.Same a.nb (.run a.nb) where
  lbs := h.loop.lbs.map.done
  addrs L hL := h.addrs.done L not_mem_nil hL
  lbgrps := by
    funext G
    by_cases hG : a.inp.nb.HasGrp G
    · exact (h.grps G not_mem_nil hG).1
    · have hmap := congrFun h.loop.grps.map.done G
      rw [Nb.grpLbs_eq_none.2 hG, Option.map_eq_none_iff] at hmap
      have hrun := (LbData.of_run a.inp.nb).lbgrps G
      rw [Nb.grpLbs_eq_none.2 hG, Option.map_eq_none_iff] at hrun
      exact hmap.trans hrun.symm
  lbIps G hG := (h.grps G not_mem_nil hG).2
  ods k od := (congrFun (h.loop.ods k).map.done od).trans ((LbData.of_run a.inp.nb).ods k od).symm

theorem AddrData.Same.rfl (nb : AddrNb) (d : AddrData) : d.Same nb d :=
  ⟨Eq.refl _, fun _ _ => Eq.refl _, Eq.refl _, fun _ _ => Eq.refl _, fun _ _ => Eq.refl _⟩

/-- **lb_data is kept exactly.**  After any sequence of changes that the handlers take, the node has
    what a recompute would build from the northbound tables, and the next change is taken, or a
    recompute is asked for. -/
theorem lb_data_exact (nb₀ : AddrNb) {s : AddrNb × AddrData}
    (h : (lbDataRuns nb₀).Reached (fun s a => AddrValid s.1 a) s) :
    s.2.Same s.1 (.run s.1) ∧ ∀ a, AddrValid s.1 a → AddrNode.handle s.2 a ≠ .error .aborted := by
  have hsame : s.2.Same s.1 (.run s.1) := by
    refine h.invariant (I := fun s => s.2.Same s.1 (.run s.1)) (AddrData.Same.rfl _ _) ?_
    intro s a t hs hv hstep
    obtain ⟨n, hn, rfl⟩ := Option.map_eq_some_iff.1 hstep
    exact ((ends_addrHandle hs hv).of_toOption hn).same
  exact ⟨hsame, fun a hv => (ends_addrHandle hsame hv).ne_error (by simp)⟩

/-! A load balancer in a group gains a VIP; the group is tracked for it. -/

private def vipNb (vips : List (String × String)) : Nb where
  lbs := [⟨0, false, false, .reachable, vips⟩]
  lbgrps := [⟨1, [0]⟩]
  ods _ := []
  lbsNodup := nodup_singleton _
  lbgrpsNodup := nodup_singleton _
  odsNodup _ := nodup_nil
  lbgrpRefs g hg L hL := by
    obtain rfl := mem_singleton.1 hg
    exact hL
  odLbRefs := nofun
  odLbgrpRefs := nofun

private def vipAddrs (ips : Finset String) : ℕ → IpSets := fun _ => fun
  | .ipv4 => ips
  | .ipv6 => ∅

private def twoVips : List (String × String) := [("10.0.0.1", "10.0.0.9"), ("10.0.0.2", "10.0.0.9")]

private def vipInput : AddrInput where
  inp :=
    { nb := vipNb twoVips
      lbs := [⟨⟨0, false, false, .reachable, twoVips⟩, false, false⟩]
      lbgrps := [⟨⟨1, [0]⟩, false, false⟩]
      ods := fun _ => []
      lbModified := fun _ => true }
  addrs := vipAddrs {"10.0.0.1", "10.0.0.2"}

private theorem vipInput_valid : AddrValid ⟨vipNb [], vipAddrs ∅⟩ vipInput where
  valid := ⟨Tracks.replaced rfl, Tracks.replaced rfl, fun _ => Tracks.same _ _, nofun⟩
  addrs _ hL _ hno := absurd hL hno
  refs _ _ hG _ := hG.hasGrp

/-- The group has then collected both addresses. -/
theorem lb_data_exact_vip : ∃ d : AddrData,
    (lbDataRuns ⟨vipNb [], vipAddrs ∅⟩).Reached (fun s a => AddrValid s.1 a) (vipInput.nb, d) ∧
      d.Same vipInput.nb (.run vipInput.nb) ∧ (d.lbIps 1).ips .ipv4 = {"10.0.0.1", "10.0.0.2"} := by
  have hreached := System.Reached.init.step (S := lbDataRuns ⟨vipNb [], vipAddrs ∅⟩)
    (P := fun s a => AddrValid s.1 a) vipInput_valid rfl
  exact ⟨_, hreached, (lb_data_exact _ hreached).1, by decide⟩

end Ovn.Lb

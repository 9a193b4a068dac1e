/-
  Load balancers and the datapaths they are applied to.

  * the northbound tables, and the data that the engine node lb_data keeps of them,
  * the change handlers of lb_data, which say what was associated and what was dissociated,
  * the datapath sets of the load balancers and of their groups in northd: how they are built
    (`build_lb_datapaths`, `build_lswitch_lbs_from_lrouter`, `build_lb_count_dps`), and how
    `northd_handle_lb_data_changes` keeps them.

  What holds of switches and of routers alike is said once, of a kind of datapath.
-/
import Ovn.Lib.Joined
import Ovn.Lib.Run
import Ovn.Lib.TrackedTable
import Mathlib.Data.Finset.Card

namespace Ovn.Lb

open Function (update)

/-! ## The northbound tables -/

inductive OdKind
  | ls
  | lr
  deriving DecidableEq

inductive NeighMode
  | reachable
  | all
  | none
  deriving DecidableEq

/-- A Load_Balancer, as far as the datapaths and the stateful records of switches depend on it. -/
structure LbRow where
  uuid : ℕ
  routable : Bool
  healthChecks : Bool
  neighMode : NeighMode
  vips : List (String × String)

structure GrpRow where
  uuid : ℕ
  lbs : List ℕ

/-- The load balancers of a Logical_Switch or of a Logical_Router. -/
structure OdRow where
  uuid : ℕ
  lbs : List ℕ
  lbgrps : List ℕ

/-- The tables: rows have unique identifiers, a column is a set, and a reference is to a row. -/
structure Nb where
  lbs : List LbRow
  lbgrps : List GrpRow
  ods : OdKind → List OdRow
  lbsNodup : (lbs.map (·.uuid)).Nodup
  lbgrpsNodup : (lbgrps.map (·.uuid)).Nodup
  odsNodup : ∀ k, ((ods k).map (·.uuid)).Nodup
  lbgrpRefs : ∀ g ∈ lbgrps, ∀ L ∈ g.lbs, L ∈ lbs.map (·.uuid)
  odLbRefs : ∀ k, ∀ od ∈ ods k, ∀ L ∈ od.lbs, L ∈ lbs.map (·.uuid)
  odLbgrpRefs : ∀ k, ∀ od ∈ ods k, od.lbgrps.Nodup ∧ ∀ G ∈ od.lbgrps, G ∈ lbgrps.map (·.uuid)

inductive Fail
  /-- It returns false, and everything is computed anew. -/
  | recompute
  | aborted
  /-- An array is written to beyond its end. -/
  | overflow
  deriving DecidableEq

/-! ## lb_data -/

structure Grp where
  lbs : List ℕ
  hasRoutableLb : Bool

structure OdLbData where
  lbs : Finset ℕ
  lbgrps : Finset ℕ

/-- `struct ed_type_lb_data`, without what is tracked. -/
structure LbData where
  lbs : ℕ → Option LbRow
  lbgrps : ℕ → Option Grp
  /-- `ls_lb_map` and `lr_lb_map`. -/
  odLbMap : OdKind → ℕ → Option OdLbData

structure CrupdatedOd where
  od : ℕ
  assocLbs : List ℕ
  assocLbgrps : List ℕ

structure CrupdatedLbgrp where
  lbgrp : ℕ
  assocLbs : List ℕ

structure TrackedLbData where
  crupdatedLbs : List ℕ := []
  deletedLbs : List ℕ := []
  crupdatedLbgrps : List CrupdatedLbgrp := []
  deletedLbgrps : List ℕ := []
  /-- `crupdated_ls_lbs` and `crupdated_lr_lbs`. -/
  crupdatedOds : OdKind → List CrupdatedOd := fun _ => []
  deletedOdLbData : List ℕ := []
  hasHealthChecks : Bool := false
  hasDissassocLbsFromLbgrps : Bool := false
  hasDissassocLbsFromOd : Bool := false
  hasDissassocLbgrpsFromOd : Bool := false
  hasRoutableLb : Bool := false

namespace LbData

/-- `ovn_lb_group_init`; a load balancer that is not found is dereferenced. -/
def lbGroupInit (d : LbData) (row : GrpRow) : Except Fail Grp := do
  let routable ← row.lbs.foldlM (fun r L =>
    match d.lbs L with
    | none => .error .aborted
    | some lb => .ok (r || lb.routable)) false
  .ok ⟨row.lbs, routable⟩

/-- `build_lbs` and `build_od_lb_map`. -/
def run (nb : Nb) : LbData where
  lbs := rowOf (·.uuid) nb.lbs
  lbgrps G := (rowOf (·.uuid) nb.lbgrps G).map fun row =>
    ⟨row.lbs, row.lbs.any fun L => (rowOf LbRow.uuid nb.lbs L).any (·.routable)⟩
  odLbMap k od := (rowOf (·.uuid) (nb.ods k) od).bind fun row =>
    if row.lbs = [] ∧ row.lbgrps = [] then none else some ⟨row.lbs.toFinset, row.lbgrps.toFinset⟩

end LbData

structure TrackedOd extends TrackedRow OdRow where
  lbsUpdated : Bool
  lbgrpsUpdated : Bool
  /-- What else `ls_changes_can_be_handled` and `lr_changes_can_be_handled` ask for. -/
  canBeHandled : Bool

structure Input where
  nb : Nb
  lbs : List (TrackedRow LbRow)
  lbgrps : List (TrackedRow GrpRow)
  ods : OdKind → List TrackedOd
  /-- `OVSDB_IDL_CHANGE_MODIFY` of a Load_Balancer. -/
  lbModified : ℕ → Bool

structure Node where
  data : LbData
  trk : TrackedLbData

namespace Node

/-- The loop body of `lb_data_load_balancer_handler`. -/
def handleLb (n : Node) (t : TrackedRow LbRow) : Except Fail Node :=
  let u := t.row.uuid
  if t.isNew && t.isDeleted then .ok n
  else if t.isNew then
    .ok
      { data := { n.data with lbs := update n.data.lbs u (some t.row) }
        trk := { n.trk with
          crupdatedLbs := u :: n.trk.crupdatedLbs
          hasHealthChecks := n.trk.hasHealthChecks || t.row.healthChecks
          hasRoutableLb := n.trk.hasRoutableLb || t.row.routable } }
  else
    match n.data.lbs u with
    | none => .ok n
    | some lb =>
      if t.isDeleted then
        .ok
          { data := { n.data with lbs := update n.data.lbs u none }
            trk := { n.trk with
              deletedLbs := u :: n.trk.deletedLbs
              hasHealthChecks := n.trk.hasHealthChecks || lb.healthChecks
              hasRoutableLb := n.trk.hasRoutableLb || lb.routable } }
      else if lb.routable ≠ t.row.routable then .error .recompute
      else if lb.neighMode ≠ t.row.neighMode then .error .recompute
      else
        .ok
          { data := { n.data with lbs := update n.data.lbs u (some t.row) }
            trk := { n.trk with
              crupdatedLbs := u :: n.trk.crupdatedLbs
              hasHealthChecks := n.trk.hasHealthChecks || lb.healthChecks || t.row.healthChecks
              hasRoutableLb := n.trk.hasRoutableLb || t.row.routable } }

/-- The loop body of `lb_data_load_balancer_group_handler`. -/
def handleLbgrp (n : Node) (t : TrackedRow GrpRow) : Except Fail Node :=
  let u := t.row.uuid
  if t.isNew && t.isDeleted then .ok n
  else if t.isNew then do
    let grp ← n.data.lbGroupInit t.row
    .ok
      { data := { n.data with lbgrps := update n.data.lbgrps u (some grp) }
        trk := { n.trk with
          crupdatedLbgrps := ⟨u, grp.lbs⟩ :: n.trk.crupdatedLbgrps
          hasRoutableLb := n.trk.hasRoutableLb || grp.hasRoutableLb } }
  else
    match n.data.lbgrps u with
    | none => .ok n
    | some pre =>
      if t.isDeleted then
        .ok
          { data := { n.data with lbgrps := update n.data.lbgrps u none }
            trk := { n.trk with
              deletedLbgrps := u :: n.trk.deletedLbgrps
              hasRoutableLb := n.trk.hasRoutableLb || pre.hasRoutableLb } }
      else do
        let grp ← n.data.lbGroupInit t.row
        .ok
          { data := { n.data with lbgrps := update n.data.lbgrps u (some grp) }
            trk := { n.trk with
              crupdatedLbgrps := ⟨u, grp.lbs.filter (· ∉ pre.lbs)⟩ :: n.trk.crupdatedLbgrps
              -- a load balancer that is gone was dissociated, unless it was deleted
              hasDissassocLbsFromLbgrps := n.trk.hasDissassocLbsFromLbgrps ||
                pre.lbs.any fun L => L ∉ grp.lbs && L ∉ n.trk.deletedLbs
              hasRoutableLb := n.trk.hasRoutableLb || grp.hasRoutableLb } }

/-- `handle_od_lb_changes`: the load balancers that are newly associated. -/
def handleOdLbChanges (n : Node) (modified : ℕ → Bool) (pre : Finset ℕ) (lbs : List ℕ) :
    Except Fail (Node × List ℕ) := do
  let assoc := lbs.filter fun L => L ∉ pre || modified L
  let routable ← assoc.foldlM (fun r L =>
    if r then .ok r else
      match n.data.lbs L with
      | none => .error .aborted
      | some lb => .ok lb.routable) n.trk.hasRoutableLb
  .ok ({ n with trk := { n.trk with
    hasRoutableLb := routable
    hasDissassocLbsFromOd := n.trk.hasDissassocLbsFromOd || pre \ lbs.toFinset ≠ ∅ } }, assoc)

def handleOdLbgrpChanges (n : Node) (pre : Finset ℕ) (lbgrps : List ℕ) :
    Except Fail (Node × List ℕ) := do
  let assoc := lbgrps.filter (· ∉ pre)
  let routable ← assoc.foldlM (fun r G =>
    if r then .ok r else
      match n.data.lbgrps G with
      | none => .error .aborted
      | some grp => .ok grp.hasRoutableLb) n.trk.hasRoutableLb
  .ok ({ n with trk := { n.trk with
    hasRoutableLb := routable
    hasDissassocLbgrpsFromOd :=
      n.trk.hasDissassocLbgrpsFromOd || pre \ lbgrps.toFinset ≠ ∅ } }, assoc)

def setOdLbMap (n : Node) (k : OdKind) (u : ℕ) (x : Option OdLbData) : Node :=
  { n with data := { n.data with
      odLbMap := update n.data.odLbMap k (update (n.data.odLbMap k) u x) } }

/-- The loop body of `lb_data_logical_switch_handler` and of `lb_data_logical_router_handler`. -/
def handleOd (modified : ℕ → Bool) (k : OdKind) (n : Node) (t : TrackedOd) : Except Fail Node :=
  let u := t.row.uuid
  if t.isDeleted then
    match n.data.odLbMap k u with
    | none => .ok n
    | some _ =>
      let n := n.setOdLbMap k u none
      .ok { n with trk := { n.trk with deletedOdLbData := u :: n.trk.deletedOdLbData } }
  else
    let lbsChanged := (t.isNew && t.row.lbs ≠ []) || t.lbsUpdated
    let lbgrpsChanged := (t.isNew && t.row.lbgrps ≠ []) || t.lbgrpsUpdated
    if !lbsChanged && !lbgrpsChanged then .ok n
    else do
      let pre := (n.data.odLbMap k u).getD ⟨∅, ∅⟩
      let (n, assocLbs) ← (if lbsChanged then n.handleOdLbChanges modified pre.lbs t.row.lbs
        else .ok (n, []))
      let (n, assocLbgrps) ← (if lbgrpsChanged then n.handleOdLbgrpChanges pre.lbgrps t.row.lbgrps
        else .ok (n, []))
      let n := n.setOdLbMap k u (some
        ⟨if lbsChanged then t.row.lbs.toFinset else pre.lbs,
          if lbgrpsChanged then t.row.lbgrps.toFinset else pre.lbgrps⟩)
      let cs := ⟨u, assocLbs, assocLbgrps⟩ :: n.trk.crupdatedOds k
      .ok { n with trk := { n.trk with crupdatedOds := update n.trk.crupdatedOds k cs } }

/-- The four handlers of lb_data, in the order of its inputs. -/
def handle (d : LbData) (inp : Input) : Except Fail Node := do
  let n ← inp.lbs.foldlM handleLb ⟨d, {}⟩
  let n ← inp.lbgrps.foldlM handleLbgrp n
  let n ← (inp.ods .ls).foldlM (handleOd inp.lbModified .ls) n
  (inp.ods .lr).foldlM (handleOd inp.lbModified .lr) n

end Node

/-! ## The datapaths -/

/-- What northd knows of its datapaths, and the option `install_ls_lb_from_router`. -/
structure Datapaths where
  ods : OdKind → List ℕ
  lsPeers : ℕ → List ℕ
  installLsLbFromRouter : Bool

/-- `struct ovn_lb_datapaths`: the bitmaps `nb_ls_map` and `nb_lr_map` with their counts. -/
structure LbDps where
  ods : OdKind → Finset ℕ
  n : OdKind → ℕ
  count : ∀ k, n k = (ods k).card

namespace LbDps

/-- `ovn_lb_datapaths_create`. -/
def create : LbDps := ⟨fun _ => ∅, fun _ => 0, fun _ => rfl⟩

def addOd (k : OdKind) (d : LbDps) (od : ℕ) : LbDps :=
  if h : od ∈ d.ods k then d
  else
    { ods := update d.ods k (insert od (d.ods k))
      n := update d.n k (d.n k + 1)
      count := by
        intro k'
        by_cases hk : k' = k
        · subst hk
          simp [Finset.card_insert_of_notMem h, d.count]
        · simp [hk, d.count] }

/-- `ovn_lb_datapaths_add_ls` and `ovn_lb_datapaths_add_lr`. -/
def add (k : OdKind) (d : LbDps) (ods : List ℕ) : LbDps := ods.foldl (addOd k) d

end LbDps

/-- The load balancers and groups of northd, and what it tracks of them.  The datapaths of a
    group are kept in arrays. -/
structure Northd where
  lb : ℕ → Option LbDps
  grp : ℕ → Option (OdKind → List ℕ)
  crupdated : Finset ℕ := ∅
  deleted : Finset ℕ := ∅
  lsWithChangedLbs : Finset ℕ := ∅

namespace Northd

/-- The load balancer is found (`ovs_assert`), and the datapaths are added to it. -/
def addToLb (k : OdKind) (ods : List ℕ) (s : Northd) (L : ℕ) : Except Fail Northd :=
  match s.lb L with
  | none => .error .aborted
  | some d => .ok { s with lb := update s.lb L (some (d.add k ods)) }

/-- `ovn_lb_group_datapaths_add_ls` and `ovn_lb_group_datapaths_add_lr`.  The arrays are allocated
    for as many datapaths as there are (`ods_size`). -/
def addToGrp (dp : Datapaths) (k : OdKind) (ods : List ℕ) (s : Northd) (G : ℕ) :
    Except Fail Northd :=
  match s.grp G with
  | none => .error .aborted
  | some g =>
    if (g k).length + ods.length ≤ (dp.ods k).length then
      .ok { s with grp := update s.grp G (some (update g k (g k ++ ods))) }
    else .error .overflow

/-! ### From scratch -/

def rows (dp : Datapaths) (nb : Nb) (k : OdKind) : List OdRow :=
  (nb.ods k).filter (·.uuid ∈ dp.ods k)

def buildLs (dp : Datapaths) (s : Northd) (od : OdRow) : Except Fail Northd := do
  let s ← od.lbs.foldlM (addToLb .ls [od.uuid]) s
  od.lbgrps.foldlM (addToGrp dp .ls [od.uuid]) s

def buildLr (dp : Datapaths) (s : Northd) (od : OdRow) : Except Fail Northd := do
  let s ← od.lbgrps.foldlM (addToGrp dp .lr [od.uuid]) s
  od.lbs.foldlM (addToLb .lr [od.uuid]) s

def buildGrp (d : LbData) (s : Northd) (G : ℕ) : Except Fail Northd :=
  match s.grp G, d.lbgrps G with
  | some g, some grp => grp.lbs.foldlM (fun s L => do
      let s ← s.addToLb .ls (g .ls) L
      s.addToLb .lr (g .lr) L) s
  | _, _ => .ok s

def buildLbDatapaths (dp : Datapaths) (d : LbData) (nb : Nb) : Except Fail Northd := do
  let s : Northd :=
    { lb := fun L => if L ∈ nb.lbs.map (·.uuid) then some .create else none
      grp := fun G => if G ∈ nb.lbgrps.map (·.uuid) then some fun _ => [] else none }
  let s ← (rows dp nb .ls).foldlM (buildLs dp) s
  let s ← (rows dp nb .lr).foldlM (buildLr dp) s
  (nb.lbgrps.map (·.uuid)).foldlM (buildGrp d) s

/-- The first loop of `build_lswitch_lbs_from_lrouter`. -/
def addPeersToLb (dp : Datapaths) (s : Northd) (L : ℕ) : Except Fail Northd :=
  match s.lb L with
  | none => .ok s
  | some d =>
    let routers := (dp.ods .lr).filter (· ∈ d.ods .lr)
    let d' := routers.foldl (fun d r => d.add .ls (dp.lsPeers r)) d
    .ok { s with lb := update s.lb L (some d') }

/-- The second loop of `build_lswitch_lbs_from_lrouter`. -/
def addPeersToGrp (dp : Datapaths) (d : LbData) (s : Northd) (G : ℕ) : Except Fail Northd :=
  match s.grp G, d.lbgrps G with
  | some g, some grp => (g .lr).foldlM (fun s r => do
      let s ← s.addToGrp dp .ls (dp.lsPeers r) G
      grp.lbs.foldlM (addToLb .ls (dp.lsPeers r)) s) s
  | _, _ => .ok s

def buildLswitchLbsFromLrouter (dp : Datapaths) (d : LbData) (nb : Nb) (s : Northd) :
    Except Fail Northd :=
  if !dp.installLsLbFromRouter then .ok s
  else do
    let s ← (nb.lbs.map (·.uuid)).foldlM (addPeersToLb dp) s
    (nb.lbgrps.map (·.uuid)).foldlM (addPeersToGrp dp d) s

def buildLbCountDps (s : Northd) : Northd :=
  { s with lb := fun L => (s.lb L).map fun d => ⟨d.ods, fun k => (d.ods k).card, fun _ => rfl⟩ }

def recompute (dp : Datapaths) (nb : Nb) : Except Fail Northd := do
  let s ← buildLbDatapaths dp (.run nb) nb
  let s ← s.buildLswitchLbsFromLrouter dp (.run nb) nb
  .ok s.buildLbCountDps

/-! ### `northd_handle_lb_data_changes` -/

def deleteLb (s : Northd) (L : ℕ) : Except Fail Northd :=
  match s.lb L with
  | none => .error .aborted
  | some d => .ok
    { s with
      lb := update s.lb L none
      deleted := insert L s.deleted
      lsWithChangedLbs := s.lsWithChangedLbs ∪ d.ods .ls }

def createLb (s : Northd) (L : ℕ) : Except Fail Northd :=
  .ok
    { s with
      lb := update s.lb L (some ((s.lb L).getD .create))
      crupdated := insert L s.crupdated }

def createGrp (s : Northd) (c : CrupdatedLbgrp) : Except Fail Northd :=
  .ok { s with grp := update s.grp c.lbgrp (some ((s.grp c.lbgrp).getD fun _ => [])) }

/-- The datapaths are added to a load balancer, which is tracked. -/
def addToLbTracked (k : OdKind) (ods : List ℕ) (s : Northd) (L : ℕ) : Except Fail Northd := do
  let s ← s.addToLb k ods L
  .ok { s with crupdated := insert L s.crupdated }

def assocLbgrp (dp : Datapaths) (d : LbData) (k : OdKind) (od : ℕ) (s : Northd) (G : ℕ) :
    Except Fail Northd := do
  let s ← s.addToGrp dp k [od] G
  match d.lbgrps G with
  | none => .error .aborted
  | some grp => grp.lbs.foldlM (addToLbTracked k [od]) s

/-- The loop bodies for `crupdated_ls_lbs` and `crupdated_lr_lbs`. -/
def assocOd (dp : Datapaths) (d : LbData) (k : OdKind) (s : Northd) (c : CrupdatedOd) :
    Except Fail Northd :=
  if c.od ∉ dp.ods k then .error .aborted
  else do
    let s ← c.assocLbs.foldlM (addToLbTracked k [c.od]) s
    let s ← c.assocLbgrps.foldlM (assocLbgrp dp d k c.od) s
    match k with
    | .ls => .ok { s with lsWithChangedLbs := insert c.od s.lsWithChangedLbs }
    | .lr => .ok s

def trackLs (s : Northd) (L : ℕ) : Except Fail Northd :=
  match s.lb L with
  | none => .error .aborted
  | some d => .ok { s with lsWithChangedLbs := s.lsWithChangedLbs ∪ d.ods .ls }

/-- A load balancer that joined a group. -/
def assocLb (g : OdKind → List ℕ) (s : Northd) (L : ℕ) : Except Fail Northd := do
  let s ← s.addToLb .lr (g .lr) L
  let s ← s.addToLb .ls (g .ls) L
  .ok { s with
    lsWithChangedLbs := s.lsWithChangedLbs ∪ (g .ls).toFinset
    crupdated := insert L s.crupdated }

def assocLbs (s : Northd) (c : CrupdatedLbgrp) : Except Fail Northd :=
  match s.grp c.lbgrp with
  | none => .error .aborted
  | some g => c.assocLbs.foldlM (assocLb g) s

def handleLbDataChanges (dp : Datapaths) (n : Node) (s : Northd) : Except Fail Northd :=
  if n.trk.hasHealthChecks then .error .recompute
  else if n.trk.hasDissassocLbsFromLbgrps then .error .recompute
  else if n.trk.deletedLbgrps ≠ [] then .error .recompute
  else if n.trk.hasDissassocLbsFromOd then .error .recompute
  else if n.trk.deletedOdLbData ≠ [] then .error .recompute
  else if n.trk.hasDissassocLbgrpsFromOd then .error .recompute
  else if n.trk.hasRoutableLb then .error .recompute
  else do
    let s ← n.trk.deletedLbs.foldlM deleteLb s
    let s ← n.trk.crupdatedLbs.foldlM createLb s
    let s ← n.trk.crupdatedLbgrps.foldlM createGrp s
    let s ← (n.trk.crupdatedOds .ls).foldlM (assocOd dp n.data .ls) s
    let s ← (n.trk.crupdatedOds .lr).foldlM (assocOd dp n.data .lr) s
    let s ← n.trk.crupdatedLbs.foldlM trackLs s
    n.trk.crupdatedLbgrps.foldlM assocLbs s

end Northd

/-! ## Iterations -/

structure State where
  nb : Nb
  data : LbData
  northd : Northd

/-- The handlers that northd runs before, as far as they look at the datapaths: a switch or
    router that is new or deleted, or a switch without a datapath, has everything computed
    anew. -/
def odsHandled (dp : Datapaths) (inp : Input) : Bool :=
  (inp.ods .ls).all (fun t => !t.isNew && !t.isDeleted && t.row.uuid ∈ dp.ods .ls &&
    t.canBeHandled) &&
    (inp.ods .lr).all fun t => !t.isNew && !t.isDeleted && t.canBeHandled

/-- An iteration: the handlers of lb_data, then those of northd. -/
def State.iterate (dp : Datapaths) (s : State) (inp : Input) : Except Fail State := do
  let n ← Node.handle s.data inp
  if !odsHandled dp inp then .error .recompute
  else
    let northd ← ({ lb := s.northd.lb, grp := s.northd.grp } : Northd).handleLbDataChanges dp n
    .ok ⟨inp.nb, n.data, northd⟩

def iterations (dp : Datapaths) (s₀ : State) : System State Input :=
  ⟨s₀, fun s inp => (s.iterate dp inp).toOption⟩

end Ovn.Lb

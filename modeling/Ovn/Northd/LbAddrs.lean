/-
  The addresses of load balancers.

  lb_data keeps the addresses of the VIPs of each load balancer, and collects those of the load
  balancers of each group.  The handlers bring both up to date, and say which addresses a load
  balancer gained and lost.  What they do besides is in the model of the datapaths.
-/
import Ovn.Northd.LbDelta

namespace Ovn.Lb

/-! ## Sets of addresses -/

inductive AddrFamily
  | ipv4
  | ipv6
  deriving DecidableEq, Repr

/-- `ips_v4` and `ips_v6`. -/
abbrev IpSets := AddrFamily → Finset String

@[ext]
structure LbIpSet where
  ips : IpSets
  ipsRoutable : IpSets
  ipsReachable : IpSets

namespace LbIpSet

/-- `ovn_lb_ip_set_create`. -/
def create : LbIpSet := ⟨⊥, ⊥, ⊥⟩

def addIps (s : LbIpSet) (routable : Bool) (ips : IpSets) : LbIpSet :=
  { s with
    ips := s.ips ⊔ ips
    ipsRoutable := if routable then s.ipsRoutable ⊔ ips else s.ipsRoutable }

end LbIpSet

/-! ## lb_data -/

/-- The northbound tables, with the addresses of each load balancer: those of the VIPs that
    `ovn_lb_vip_init` accepts. -/
structure AddrNb where
  nb : Nb
  addrs : ℕ → IpSets

/-- `struct ed_type_lb_data` with `ips_v4` and `ips_v6` of each load balancer and `lb_ips` of each
    group. -/
structure AddrData where
  data : LbData
  addrs : ℕ → IpSets
  lbIps : ℕ → LbIpSet

def buildLrouterLbIps (d : LbData) (addrs : ℕ → IpSets) (s : LbIpSet) (L : ℕ) : LbIpSet :=
  match d.lbs L with
  | none => s
  | some lb => s.addIps lb.routable (addrs L)

/-- `lb_ips` of a group with these load balancers. -/
def groupIps (d : LbData) (addrs : ℕ → IpSets) (lbs : List ℕ) : LbIpSet :=
  lbs.foldl (buildLrouterLbIps d addrs) .create

namespace AddrData

/-- `en_lb_data_run`. -/
def run (nb : AddrNb) : AddrData where
  data := .run nb.nb
  addrs := nb.addrs
  lbIps G := groupIps (.run nb.nb) nb.addrs ((nb.nb.grpLbs G).getD [])

end AddrData

structure AddrInput where
  inp : Input
  addrs : ℕ → IpSets

def AddrInput.nb (a : AddrInput) : AddrNb := ⟨a.inp.nb, a.addrs⟩

/-- The node lb_data while its handlers run, with `inserted_vips` and `deleted_vips` of the load
    balancers that are tracked. -/
structure AddrNode where
  node : Node
  addrs : ℕ → IpSets
  lbIps : ℕ → LbIpSet
  insertedVips : ℕ → IpSets
  deletedVips : ℕ → IpSets

namespace AddrNode

def data (n : AddrNode) : AddrData := ⟨n.node.data, n.addrs, n.lbIps⟩

/-- The loop body of `lb_data_load_balancer_handler`. -/
def handleLb (new : ℕ → IpSets) (n : AddrNode) (t : TrackedRow LbRow) : Except Fail AddrNode := do
  let u := t.row.uuid
  let node ← n.node.handleLb t
  if t.isNew && t.isDeleted then .ok { n with node := node }
  else if t.isNew then .ok { n with node := node, addrs := Function.update n.addrs u (new u) }
  else
    match n.node.data.lbs u with
    | none => .ok { n with node := node }
    | some _ =>
      if t.isDeleted then .ok { n with node := node }
      else
        let old := n.addrs u
        .ok { n with
          node := node
          addrs := Function.update n.addrs u (new u)
          insertedVips := Function.update n.insertedVips u (new u \ old)
          deletedVips := Function.update n.deletedVips u (old \ new u) }

/-- The loop body of `lb_data_load_balancer_group_handler`. -/
def handleLbgrp (n : AddrNode) (t : TrackedRow GrpRow) : Except Fail AddrNode := do
  let u := t.row.uuid
  let node ← n.node.handleLbgrp t
  let lbIps := Function.update n.lbIps u (groupIps n.node.data n.addrs t.row.lbs)
  if t.isNew && t.isDeleted then .ok { n with node := node }
  else if t.isNew then .ok { n with node := node, lbIps := lbIps }
  else
    match n.node.data.lbgrps u with
    | none => .ok { n with node := node }
    | some _ =>
      if t.isDeleted then .ok { n with node := node }
      else .ok { n with node := node, lbIps := lbIps }

/-- The loop body of `lb_data_logical_switch_handler` and of `lb_data_logical_router_handler`. -/
def handleOd (modified : ℕ → Bool) (k : OdKind) (n : AddrNode) (t : TrackedOd) :
    Except Fail AddrNode := do
  let node ← n.node.handleOd modified k t
  .ok { n with node := node }

/-- The four handlers of lb_data, in the order of its inputs. -/
def handle (d : AddrData) (a : AddrInput) : Except Fail AddrNode := do
  let n ← a.inp.lbs.foldlM (handleLb a.addrs) ⟨⟨d.data, {}⟩, d.addrs, d.lbIps, ⊥, ⊥⟩
  let n ← a.inp.lbgrps.foldlM handleLbgrp n
  let n ← (a.inp.ods .ls).foldlM (handleOd a.inp.lbModified .ls) n
  (a.inp.ods .lr).foldlM (handleOd a.inp.lbModified .lr) n

end AddrNode

def lbDataRuns (nb₀ : AddrNb) : System (AddrNb × AddrData) AddrInput :=
  ⟨(nb₀, .run nb₀), fun s a => (AddrNode.handle s.2 a).toOption.map fun n => (a.nb, n.data)⟩

/-- What holds of the input of an iteration: the rows are tracked that changed, and a group is
    tracked if one of its load balancers is. -/
structure AddrValid (nb : AddrNb) (a : AddrInput) : Prop where
  valid : Valid nb.nb a.inp
  addrs : ∀ L, nb.nb.HasLb L → a.inp.nb.HasLb L → L ∉ a.inp.lbs.map (·.row.uuid) →
    a.addrs L = nb.addrs L
  refs : ∀ G L, a.inp.nb.GrpLb G L → L ∈ a.inp.lbs.map (·.row.uuid) →
    G ∈ a.inp.lbgrps.map (·.row.uuid)

/-- The data is what a recompute would leave, but for switches and routers without any load
    balancer. -/
structure AddrData.Same (nb : AddrNb) (d e : AddrData) : Prop where
  lbs : d.data.lbs = e.data.lbs
  addrs : ∀ L, nb.nb.HasLb L → d.addrs L = e.addrs L
  lbgrps : d.data.lbgrps = e.data.lbgrps
  lbIps : ∀ G, nb.nb.HasGrp G → d.lbIps G = e.lbIps G
  ods : ∀ k od, (d.data.odLbMap k od).getD ⟨∅, ∅⟩ = (e.data.odLbMap k od).getD ⟨∅, ∅⟩

end Ovn.Lb

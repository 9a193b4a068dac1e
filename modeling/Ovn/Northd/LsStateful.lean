/-
  The stateful records of the logical switches, and the flows that are built from them.

  * the northbound ACLs, port groups and switches, and the switch that the builders see of them,
  * `build_ls_stateful_flows`: the flows of a switch, from its record and its ACLs,
  * an iteration: what northd and port_group say changed, the change handlers of ls_stateful,
    which keep the records, and those of lflow, which keep the flows.
-/
import Ovn.Northd.AclRecord
import Ovn.Northd.LbTracked

namespace Ovn.LsStateful

open Northd

variable {η : Type*}

/-! ## `build_ls_stateful_flows` -/

/-- The ports of a switch that are not sent through conntrack: router ports, by key and
    `enable_router_port_acl`, and localnet ports. -/
structure SwitchPorts where
  routerPorts : List (String × Bool)
  localnetPorts : List String

/-- The stages, other than the ACL stages, that depend on the record. -/
inductive Stage
  | inPreAcl | outPreAcl | inPreLb | outPreLb | inLb | inPreHairpin | inNatHairpin | inHairpin
  deriving DecidableEq

/-- A flow of a switch; that of a stateless filter has the match of its ACL. -/
inductive Flow (η : Type*)
  | acl (f : LFlow η)
  | fixed (stage : Stage) (priority : ℕ) (guard actions : String)
  | statelessFilter (stage : Stage) (priority : ℕ) (guard : Packet η → Bool) (actions : String)

def Flow.priority : Flow η → ℕ
  | .acl f => f.priority
  | .fixed _ p _ _ => p
  | .statelessFilter _ p _ _ => p

def regbitConntrackDefrag : String := "reg0[0]"
def regbitConntrackNat : String := "reg0[2]"
def regbitHairpin : String := "reg0[6]"
def regbitHairpinReply : String := "reg0[12]"
def regbitAclStateless : String := "reg0[16]"
def regbitIpFrag : String := "reg0[19]"
def regOrigDipIpv4 : String := "reg1"
def regOrigDipIpv6 : String := "xxreg1"
def regOrigTpDport : String := "reg2[0..15]"

def skipPortFromConntrack (key : String) (hasStatefulAcl : Bool) (inStage outStage : Stage)
    (priority : ℕ) : List (Flow η) :=
  [ .fixed inStage priority ("ip && inport == " ++ key) "next;",
    .fixed outStage priority ("ip && outport == " ++ key)
      (if hasStatefulAcl then "next;" else "ct_clear; next;") ]

/-- `build_stateless_filter`, for the ACLs that it is called for. -/
def buildStatelessFilter (acl : Acl η) : List (Flow η) :=
  if acl.action = .allowStateless then
    [.statelessFilter (if acl.direction = .fromLport then .inPreAcl else .outPreAcl)
      (acl.priority + ovnAclPriOffset) acl.matchExpr (regbitAclStateless ++ " = 1; next;")]
  else []

section
variable (opts : Options) (ports : SwitchPorts) (r : StatefulRecord)

/-- The flows of `build_ls_stateful_rec_pre_acls` for a switch with stateful ACLs. -/
def preAclsStateful : List (Flow η) :=
  (ports.routerPorts.filter (!·.2)).flatMap
    (fun op => skipPortFromConntrack op.1 true .inPreAcl .outPreAcl 110) ++
  ports.localnetPorts.flatMap (fun op => skipPortFromConntrack op true .inPreAcl .outPreAcl 110) ++
  let ndMld := "nd || nd_rs || nd_ra || mldv1 || mldv2 || (udp && udp.src == 546 && udp.dst == 547)"
  let tooBig := "((ip4 && icmp4.type == 3 && icmp4.code == 4) ||" ++
    " (ip6 && icmp6.type == 2 && icmp6.code == 0)) && flags.tunnel_rx == 1"
  [ .fixed .inPreAcl 110 ndMld "next;", .fixed .outPreAcl 110 ndMld "next;",
    .fixed .inPreAcl 110 "eth.mcast" "next;",
    .fixed .outPreAcl 110 "eth.mcast" "next;",
    .fixed .inPreAcl 110 tooBig "next;",
    .fixed .inPreAcl 100 "ip" (regbitConntrackDefrag ++ " = 1; next;"),
    .fixed .outPreAcl 100 "ip" (regbitConntrackDefrag ++ " = 1; next;") ]

/-- `build_ls_stateful_rec_pre_acls`. -/
def buildPreAcls (acls : List (Acl η)) : List (Flow η) :=
  if r.hasStatefulAcl then preAclsStateful ports ++ acls.flatMap buildStatelessFilter
  else if r.hasLbVip then acls.flatMap buildStatelessFilter
  else []

/-- `build_ls_stateful_rec_pre_lb`. -/
def buildPreLb : List (Flow η) :=
  ports.routerPorts.flatMap
    (fun op => skipPortFromConntrack op.1 r.hasStatefulAcl .inPreLb .outPreLb 110) ++
  (if r.hasLbVip then [] else ports.localnetPorts.flatMap
    fun op => skipPortFromConntrack op r.hasStatefulAcl .inPreLb .outPreLb 110) ++
  if r.hasLbVip then
    [ .fixed .inPreLb 100 "ip" (regbitConntrackNat ++ " = 1; next;"),
      .fixed .outPreLb 100 "ip" (regbitConntrackNat ++ " = 1; next;") ]
  else []

def buildLbHairpin : List (Flow η) :=
  [ .fixed .inPreHairpin 0 "1" "next;", .fixed .inNatHairpin 0 "1" "next;",
    .fixed .inHairpin 0 "1" "next;" ] ++
  if r.hasLbVip then
    [ .fixed .inLb 110 ("ct.trk && !ct.rpl && " ++ regbitIpFrag ++ " == 1 && ip4")
        (regOrigDipIpv4 ++ " = ct_nw_dst(); " ++ regOrigTpDport ++ " = ct_tp_dst(); next;"),
      .fixed .inLb 110 ("ct.trk && !ct.rpl && " ++ regbitIpFrag ++ " == 1 && ip6")
        (regOrigDipIpv6 ++ " = ct_ip6_dst(); " ++ regOrigTpDport ++ " = ct_tp_dst(); next;"),
      .fixed .inPreHairpin 100 "ip && ct.trk" (regbitHairpin ++ " = chk_lb_hairpin(); " ++
          regbitHairpinReply ++ " = chk_lb_hairpin_reply(); next;"),
      .fixed .inNatHairpin 100 ("ip && ct.new && ct.trk && " ++ regbitHairpin ++ " == 1")
        "ct_snat_to_vip; next;",
      .fixed .inNatHairpin 100 ("ip && ct.est && ct.trk && " ++ regbitHairpin ++ " == 1")
        "ct_snat;",
      .fixed .inNatHairpin 90 ("ip && " ++ regbitHairpinReply ++ " == 1") "ct_snat;",
      .fixed .inHairpin 1 ("(" ++ regbitHairpin ++ " == 1 || " ++ regbitHairpinReply ++ " == 1)")
        "eth.dst <-> eth.src; outport = inport; flags.loopback = 1; output;" ]
  else []

def buildLsStatefulFlows (ls : LogicalSwitch η) : List (Flow η) :=
  buildPreAcls ports r ls.allAcls ++ buildPreLb ports r ++
  (buildAclHints opts r .ingress ++ buildAclHints opts r .egress ++ buildAcls opts r ls).map .acl ++
  buildLbHairpin r

end

theorem mem_buildLsStatefulFlows_congr {opts : Options} {ports : SwitchPorts} {r : StatefulRecord}
    {ls ls' : LogicalSwitch η} (hacls : ∀ a, a ∈ ls.allAcls ↔ a ∈ ls'.allAcls)
    (hdns : ls.hasDnsRecords = ls'.hasDnsRecords) (f : Flow η) :
    f ∈ buildLsStatefulFlows opts ports r ls ↔ f ∈ buildLsStatefulFlows opts ports r ls' := by
  have hflat : ∀ {β : Type _} (g : Acl η → List β) (b : β),
      b ∈ ls.allAcls.flatMap g ↔ b ∈ ls'.allAcls.flatMap g := by simp [*]
  have hpre : f ∈ buildPreAcls ports r ls.allAcls ↔ f ∈ buildPreAcls ports r ls'.allAcls := by
    unfold buildPreAcls
    split
    · rw [List.mem_append, List.mem_append, hflat]
    · split
      · exact hflat _ f
      · rfl
  have hof : ∀ g, g ∈ buildAcls opts r ls ↔ g ∈ buildAcls opts r ls' := by
    intro g
    simp only [buildAcls, List.mem_append, hflat, hdns]
  simp only [buildLsStatefulFlows, List.mem_append, List.mem_map, hpre, hof]

/-! ## The northbound content -/

structure AclRow (η : Type*) where
  uuid : ℕ
  acl : Acl η

structure PgRow where
  uuid : ℕ
  ports : List ℕ
  acls : List ℕ

/-- The ACLs, the port groups, and the column `acls` of the switches; a reference is to a row. -/
structure Content (η : Type*) where
  acls : List (AclRow η)
  pgs : List PgRow
  lsAcls : ℕ → List ℕ
  aclsNodup : (acls.map (·.uuid)).Nodup
  pgsNodup : (pgs.map (·.uuid)).Nodup
  lsAclRefs : ∀ od, ∀ a ∈ lsAcls od, a ∈ acls.map (·.uuid)
  pgAclRefs : ∀ pg ∈ pgs, ∀ a ∈ pg.acls, a ∈ acls.map (·.uuid)

/-- What does not change: the datapaths, their ports, the switch that a port is on, which switches
    have DNS records, and the options. -/
structure Env where
  dp : Lb.Datapaths
  ports : ℕ → SwitchPorts
  portLs : ℕ → Option ℕ
  hasDnsRecords : ℕ → Bool
  opts : Options

def Content.acl (c : Content η) (u : ℕ) : Option (Acl η) := (rowOf (·.uuid) c.acls u).map (·.acl)

def lbOf (nb : Lb.Nb) (L : ℕ) : Option LoadBalancer :=
  (rowOf (·.uuid) nb.lbs L).map fun row => ⟨row.vips⟩

def Env.switches (env : Env) (pg : PgRow) : Finset ℕ := (pg.ports.filterMap env.portLs).toFinset

/-- The switch as the builders see it; `pgLs` are the switches of the port groups. -/
def Env.switch (env : Env) (nb : Lb.Nb) (c : Content η) (pgLs : ℕ → Option (Finset ℕ)) (od : ℕ) :
    LogicalSwitch η where
  acls := (c.lsAcls od).filterMap c.acl
  portGroups := (c.pgs.filter fun pg => od ∈ (pgLs pg.uuid).getD ∅).map (·.acls.filterMap c.acl)
  loadBalancer := ((rowOf (·.uuid) (nb.ods .ls) od).map (·.lbs)).getD [] |>.filterMap (lbOf nb)
  loadBalancerGroup := ((rowOf (·.uuid) (nb.ods .ls) od).map (·.lbgrps)).getD [] |>.map fun G =>
    ((nb.grpLbs G).getD []).filterMap (lbOf nb)
  hasDnsRecords := env.hasDnsRecords od

/-! ## An iteration -/

structure Input (η : Type*) where
  lb : Lb.Input
  content : Content η
  acls : List (TrackedRow (AclRow η))
  pgs : List (TrackedRow PgRow)
  aclModified : ℕ → Bool
  lsAclsUpdated : ℕ → Bool
  /-- A handler of lflow returned false for another of its inputs. -/
  lflowRecompute : Bool

def Input.isLsAclsChanged (inp : Input η) (od : ℕ) : Bool :=
  inp.lsAclsUpdated od || (inp.content.lsAcls od).any inp.aclModified

/-- `ls_with_changed_acls`, as `northd_handle_ls_changes` leaves it. -/
def Input.lsWithChangedAcls (inp : Input η) : List ℕ :=
  ((inp.lb.ods .ls).map (·.row.uuid)).filter inp.isLsAclsChanged

/-- `ls_port_group_table_build`: the switches of each port group. -/
def Env.lsPortGroupTableBuild (env : Env) (pgs : List PgRow) (u : ℕ) : Option (Finset ℕ) :=
  (rowOf (·.uuid) pgs u).map env.switches

/-- `port_group_nb_port_group_handler`: whether no port group is new or deleted, and none has
    records created or destroyed for switches.  Then the records stay as they are. -/
def Env.portGroupHandler (env : Env) (pgLs : ℕ → Option (Finset ℕ)) (ts : List (TrackedRow PgRow)) :
    Bool :=
  ts.all fun t => !t.isNew && !t.isDeleted && pgLs t.row.uuid = some (env.switches t.row)

structure Node where
  records : ℕ → StatefulRecord
  crupdated : Finset ℕ

namespace Node

/-- `ls_stateful_northd_handler`. -/
def northdHandler (init : ℕ → StatefulRecord) (changed : Finset ℕ) (n : Node) : Node where
  records od := if od ∈ changed then init od else n.records od
  crupdated := n.crupdated ∪ changed

/-- The loop body of `ls_stateful_port_group_handler`. -/
def handleLsPg (init : ℕ → StatefulRecord) (n : Node) (od : ℕ) : Node :=
  let r := n.records od
  let modified := r.hasStatefulAcl ≠ (init od).hasStatefulAcl ∨ r.hasAcls ≠ (init od).hasAcls ∨
    r.maxAclTier ≠ (init od).maxAclTier
  { records := Function.update n.records od (init od)
    crupdated := if modified then insert od n.crupdated else n.crupdated }

/-- `ls_stateful_port_group_handler`, where the sets of switches did not change. -/
def portGroupHandler (init : ℕ → StatefulRecord) (lsPgs : List ℕ) (n : Node) : Node :=
  lsPgs.foldl (handleLsPg init) n

end Node

def Env.lsPortGroups (env : Env) (pgs : List PgRow) (pgLs : ℕ → Option (Finset ℕ)) : List ℕ :=
  (env.dp.ods .ls).filter fun od => pgs.any fun pg => od ∈ (pgLs pg.uuid).getD ∅

structure State (η : Type*) where
  lb : Lb.State
  content : Content η
  pgLs : ℕ → Option (Finset ℕ)
  records : ℕ → StatefulRecord
  /-- The flows that the `lflow_ref` of each record holds. -/
  flows : ℕ → List (Flow η)

section
variable (env : Env)

/-- `ls_stateful_record_init`, for the current content. -/
def init (nb : Lb.Nb) (c : Content η) (pgLs : ℕ → Option (Finset ℕ)) (od : ℕ) : StatefulRecord :=
  (env.switch nb c pgLs od).statefulRecord

def build (nb : Lb.Nb) (c : Content η) (pgLs : ℕ → Option (Finset ℕ)) (r : ℕ → StatefulRecord)
    (od : ℕ) : List (Flow η) :=
  buildLsStatefulFlows env.opts (env.ports od) (r od) (env.switch nb c pgLs od)

def State.computed (lb : Lb.State) (c : Content η) : State η :=
  let pgLs := env.lsPortGroupTableBuild c.pgs
  ⟨lb, c, pgLs, init env lb.nb c pgLs, build env lb.nb c pgLs (init env lb.nb c pgLs)⟩

/-- An iteration in which the handlers of northd return true.  Where those of port_group,
    ls_stateful or lflow do not, the node is computed anew. -/
def State.iterate (s : State η) (inp : Input η) : Except Lb.Fail (State η) :=
  match s.lb.iterate env.dp inp.lb with
  | .error e => .error e
  | .ok lb =>
    if !env.portGroupHandler s.pgLs inp.pgs then
      -- the sets changed: ls_stateful has no handler for that, and lflow none for its recompute
      .ok (State.computed env lb inp.content)
    else
      let r := init env lb.nb inp.content s.pgLs
      let n := Node.northdHandler r (lb.northd.lsWithChangedLbs ∪ inp.lsWithChangedAcls.toFinset)
        ⟨s.records, ∅⟩
      let n := if inp.pgs.isEmpty then n
        else n.portGroupHandler r (env.lsPortGroups inp.content.pgs s.pgLs)
      let flows := build env lb.nb inp.content s.pgLs n.records
      .ok
        { lb := lb
          content := inp.content
          pgLs := s.pgLs
          records := n.records
          flows := if !inp.acls.isEmpty || inp.lflowRecompute then flows
            else fun od => if od ∈ n.crupdated then flows od else s.flows od }

def iterations (s₀ : State η) : System (State η) (Input η) :=
  ⟨s₀, fun s inp => (s.iterate env inp).toOption⟩

end

end Ovn.LsStateful

/-
  The ACL stages of a logical switch.

  * the ACLs of a switch and of its port groups, and what `ls_stateful_record` keeps of them,
  * the logical flows that `build_acl_hints` and `build_acls` add for them,
  * a packet's way through these flows, with the loop over the tiers.
-/
import Ovn.Lib.Priority

namespace Ovn.Northd

/-! ## Configuration -/

inductive Direction
  | fromLport | toLport
  deriving DecidableEq

inductive AclAction
  | allow | allowRelated | allowStateless | drop | reject | pass
  deriving DecidableEq

/-- The ACL stages of a logical switch: `ls_in_acl`, `ls_in_acl_after_lb`, `ls_out_acl`. -/
inductive AclStage
  | inAcl | inAclAfterLb | outAcl
  deriving DecidableEq

/-- What the ACL stages see of a packet: its conntrack state and mark, whether it is one of
    those that built-in flows single out, and the rest of it. -/
structure Packet (η : Type*) where
  ctTrk : Bool
  ctNew : Bool
  ctEst : Bool
  ctRel : Bool
  ctRpl : Bool
  ctInv : Bool
  ctMarkBlocked : Bool
  ctLabelBlocked : Bool
  ctLabel : ℕ
  ip : Bool
  /-- `nd || nd_ra || nd_rs || mldv1 || mldv2`. -/
  ipv6CtOmit : Bool
  /-- `eth.dst == $svc_monitor_mac`. -/
  toSvcMonitor : Bool
  /-- `eth.src == $svc_monitor_mac`. -/
  fromSvcMonitor : Bool
  /-- `flags.from_ctrl && udp.src == 53`. -/
  ctrlDns : Bool
  headers : η

variable {η : Type*}

/-- A row of the ACL table; the bounds are those of the schema. -/
structure Acl (η : Type*) where
  direction : Direction
  priority : ℕ
  priority_le : priority ≤ 32767
  tier : ℕ
  tier_le : tier ≤ 3
  matchExpr : Packet η → Bool
  action : AclAction
  log : Bool
  logRelated : Bool
  applyAfterLb : Bool
  label : ℕ

/-- The stage `consider_acl` puts an ACL in. -/
def Acl.stage (acl : Acl η) : AclStage :=
  match acl.direction with
  | .fromLport => if acl.applyAfterLb then .inAclAfterLb else .inAcl
  | .toLport => .outAcl

structure LoadBalancer where
  vips : List (String × String)

structure LogicalSwitch (η : Type*) where
  acls : List (Acl η)
  /-- The ACLs of the port groups that have ports of the switch. -/
  portGroups : List (List (Acl η))
  loadBalancer : List LoadBalancer
  loadBalancerGroup : List (List LoadBalancer)
  hasDnsRecords : Bool

/-- The global options and the chassis features that the ACL stages depend on. -/
structure Options where
  defaultAclDrop : Bool
  useCtInvMatch : Bool
  ctNoMaskedLabel : Bool
  ctLbRelated : Bool

/-! ## `ls_stateful_record` -/

structure StatefulRecord where
  hasStatefulAcl : Bool
  hasLbVip : Bool
  hasAcls : Bool
  maxAclTier : ℕ

def LoadBalancer.hasVip (lb : LoadBalancer) : Bool := !lb.vips.isEmpty

/-- `ls_has_lb_vip`. -/
def LogicalSwitch.hasLbVip (ls : LogicalSwitch η) : Bool :=
  ls.loadBalancer.any (·.hasVip) || ls.loadBalancerGroup.any (·.any (·.hasVip))

def StatefulRecord.addAcl (acl : Acl η) (r : StatefulRecord) : StatefulRecord :=
  { r with
    maxAclTier := if r.maxAclTier < acl.tier then acl.tier else r.maxAclTier
    hasStatefulAcl := r.hasStatefulAcl || decide (acl.action = .allowRelated) }

/-- No flag is left to be set; 3 is the greatest tier of the schema. -/
def StatefulRecord.full (r : StatefulRecord) : Bool :=
  r.hasStatefulAcl && decide (r.maxAclTier = 3)

/-- The loop of `ls_stateful_record_set_acl_flags_`. -/
def setAclFlagsLoop : List (Acl η) → StatefulRecord → StatefulRecord × Bool
  | [], r => (r, false)
  | acl :: acls, r =>
    let r := r.addAcl acl
    if r.full then (r, true) else setAclFlagsLoop acls r

def setAclFlags' (acls : List (Acl η)) (r : StatefulRecord) : StatefulRecord × Bool :=
  if acls.isEmpty then (r, false) else setAclFlagsLoop acls { r with hasAcls := true }

/-- The loop of `ls_stateful_record_set_acl_flags` over the port groups. -/
def setAclFlagsPortGroups : List (List (Acl η)) → StatefulRecord → StatefulRecord
  | [], r => r
  | acls :: pgs, r =>
    let set := setAclFlags' acls r
    if set.2 then set.1 else setAclFlagsPortGroups pgs set.1

/-- `ls_stateful_record_init`. -/
def LogicalSwitch.statefulRecord (ls : LogicalSwitch η) : StatefulRecord :=
  let set := setAclFlags' ls.acls ⟨false, ls.hasLbVip, false, 0⟩
  if set.2 then set.1 else setAclFlagsPortGroups ls.portGroups set.1

/-! ## Logical flows -/

inductive RegBit
  | conntrackCommit | hintAllowNew | hintAllow | hintDrop | hintBlock | aclLabel | hintAllowRel
  | verdictAllow | verdictDrop | verdictReject
  deriving DecidableEq

structure Regs where
  bit : RegBit → Bool
  /-- `REG_ACL_TIER`, of two bits. -/
  tier : ℕ
  /-- `REG_LABEL`. -/
  label : ℕ

structure State (η : Type*) where
  packet : Packet η
  regs : Regs

inductive Match (η : Type*)
  | all
  | bit (b : RegBit)
  | tier (n : ℕ)
  | pkt (f : Packet η → Bool)
  | blocked (ctMark : Bool)
  | label (n : ℕ)
  | acl (acl : Acl η)
  | not (m : Match η)
  | and (m m' : Match η)
  | or (m m' : Match η)

/-- `ct_mark.blocked`, or `ct_label.blocked` where masked access to the mark is not known. -/
def Packet.blocked (p : Packet η) (ctMark : Bool) : Bool :=
  if ctMark then p.ctMarkBlocked else p.ctLabelBlocked

def Match.eval (s : State η) : Match η → Bool
  | .all => true
  | .bit b => s.regs.bit b
  | .tier n => decide (s.regs.tier = n)
  | .pkt f => f s.packet
  | .blocked ctMark => s.packet.blocked ctMark
  | .label n => decide (s.packet.ctLabel = n)
  | .acl a => a.matchExpr s.packet
  | .not m => !m.eval s
  | .and m m' => m.eval s && m'.eval s
  | .or m m' => m.eval s || m'.eval s

inductive Pipeline
  | ingress | egress
  deriving DecidableEq

/-- The actions of the flows.  `ctCommit` and `log` change nothing that the ACL stages see. -/
inductive Act
  | set (b : RegBit) (v : Bool)
  | setTier (n : ℕ)
  | setLabel (n : ℕ)
  | clearReg0
  | log
  | ctCommit
  | ctCommitNat
  | reject
  | next
  | nextTable (pipeline : Pipeline) (table : ℕ)

/-- Where the actions of a flow leave the packet; actions that do not say drop it. -/
inductive Outcome
  | next
  | table (pipeline : Pipeline) (table : ℕ)
  | drop
  | reject
  deriving DecidableEq

def Regs.set (b : RegBit) (v : Bool) (r : Regs) : Regs :=
  { r with bit := Function.update r.bit b v }

/-- `reg0` holds the hints; the verdict is in `reg8`. -/
def RegBit.inReg0 : RegBit → Bool
  | .verdictAllow | .verdictDrop | .verdictReject => false
  | _ => true

def runActs : List Act → Regs → Regs × Outcome
  | [], r => (r, .drop)
  | .set b v :: acts, r => runActs acts (r.set b v)
  | .setTier n :: acts, r => runActs acts { r with tier := n % 4 }
  | .setLabel n :: acts, r => runActs acts { r with label := n }
  | .clearReg0 :: acts, r => runActs acts { r with bit := fun b => !b.inReg0 && r.bit b }
  | .log :: acts, r => runActs acts r
  | .ctCommit :: acts, r => runActs acts r
  -- the packet goes on to the next table once conntrack has seen it
  | .ctCommitNat :: _, r => (r, .next)
  | .reject :: _, r => (r, .reject)
  | .next :: _, r => (r, .next)
  | .nextTable pipeline table :: _, r => (r, .table pipeline table)

inductive Table
  | hint (pipeline : Pipeline)
  | eval (stage : AclStage)
  | action (stage : AclStage)
  deriving DecidableEq

structure LFlow (η : Type*) where
  table : Table
  priority : ℕ
  guard : Match η
  actions : List Act

/-- `S_SWITCH_*_ACL_*_ACTION` and the pipeline they are in. -/
def AclStage.actionTable : AclStage → ℕ
  | .inAcl => 9
  | .inAclAfterLb => 19
  | .outAcl => 5

def AclStage.evalTable : AclStage → ℕ
  | .inAcl => 8
  | .inAclAfterLb => 18
  | .outAcl => 4

def AclStage.pipeline : AclStage → Pipeline
  | .inAcl | .inAclAfterLb => .ingress
  | .outAcl => .egress

def uint16Max : ℕ := 65535
def ovnAclPriOffset : ℕ := 1000

section
variable (opts : Options) (r : StatefulRecord) (acl : Acl η)

def StatefulRecord.hasStateful (r : StatefulRecord) : Bool := r.hasStatefulAcl || r.hasLbVip

/-- `build_acl_hints`, for one pipeline. -/
def buildAclHints (pipeline : Pipeline) : List (LFlow η) :=
  let flow (priority : ℕ) (guard : Match η) (actions : List Act) : LFlow η :=
    ⟨.hint pipeline, priority, guard, actions⟩
  let est : Match η := .pkt (·.ctEst)
  let request : Match η := .and (.not (.pkt (·.ctNew))) (.and est (.not (.pkt (·.ctRpl))))
  let blocked : Match η := .blocked opts.ctNoMaskedLabel
  [if !r.hasAcls && !r.hasLbVip then flow uint16Max .all [.next] else flow 0 .all [.next]] ++
  if !r.hasStateful then [] else
  [ flow 7 (.and (.pkt (·.ctNew)) (.not est))
      [.set .hintAllowNew true, .set .hintDrop true, .set .conntrackCommit true, .next],
    flow 6 (.and request blocked)
      [.set .hintAllowNew true, .set .hintDrop true, .set .conntrackCommit true, .next],
    flow 5 (.not (.pkt (·.ctTrk))) [.set .hintAllow true, .set .hintDrop true, .next],
    flow 4 (.and request (.not blocked)) [.set .hintAllow true, .set .hintBlock true, .next],
    flow 3 (.not est) [.set .hintDrop true, .next],
    flow 2 (.and est blocked) [.set .hintDrop true, .next],
    flow 1 (.and est (.not blocked)) [.set .hintBlock true, .next] ]

/-- The part of the actions of an ACL's flows that is common to them. -/
def aclVerdict : List Act :=
  (if acl.log then [.log] else []) ++
  match acl.action with
  | .drop => [.set .verdictDrop true]
  | .reject => [.set .verdictReject true]
  | .pass => []
  | .allow | .allowRelated | .allowStateless => [.set .verdictAllow true]

/-- The match on the tier, where there are tiers. -/
def matchTier (m : Match η) : Match η :=
  if r.maxAclTier = 0 then m else .and (.tier acl.tier) m

def aclLabelActs : List Act :=
  if acl.label = 0 then [] else [.set .aclLabel true, .setLabel acl.label]

def considerAcl : List (LFlow η) :=
  let flow (m : Match η) (actions : List Act) : LFlow η :=
    ⟨.eval acl.stage, acl.priority + ovnAclPriOffset, matchTier r acl m, aclVerdict acl ++ actions⟩
  if !r.hasStateful || acl.action = .pass || acl.action = .allowStateless then
    [flow (.acl acl) [.next]]
  else if acl.action = .allow || acl.action = .allowRelated then
    [ flow (.and (.bit .hintAllowNew) (.acl acl)) (aclLabelActs acl ++ [.next]),
      flow (.and (.bit .hintAllow) (.acl acl))
        ((if acl.label = 0 then [] else [.set .conntrackCommit true]) ++ aclLabelActs acl ++
          [.next]) ]
  else
    [ flow (.and (.bit .hintDrop) (.acl acl)) [.next],
      flow (.and (.bit .hintBlock) (.acl acl)) [.ctCommit, .next] ]

/-- `!ct.inv`, where that match is in use. -/
def notInvalid : Match η := if opts.useCtInvMatch then .not (.pkt (·.ctInv)) else .all

/-- The match on replies to connections that are not marked for deletion. -/
def replyMatch : Match η :=
  .and (.pkt (·.ctEst)) (.and (.not (.pkt (·.ctRel))) (.and (.not (.pkt (·.ctNew)))
    (.and (notInvalid opts) (.and (.pkt (·.ctRpl)) (.not (.blocked opts.ctNoMaskedLabel))))))

/-- The match on traffic related to connections that are not marked for deletion. -/
def relatedMatch : Match η :=
  .and (.not (.pkt (·.ctEst))) (.and (.pkt (·.ctRel)) (.and (.not (.pkt (·.ctNew)))
    (.and (notInvalid opts) (.not (.blocked opts.ctNoMaskedLabel)))))

/-- `build_acl_log_related_flows`: in the pipeline opposite to the ACL's. -/
def buildAclLogRelatedFlows : List (LFlow η) :=
  if acl.action = .allowStateless || !r.hasStateful then []
  else if acl.action ≠ .allow && acl.action ≠ .allowRelated then []
  else if !acl.log || acl.label = 0 || !acl.logRelated then []
  else
    let stage : AclStage := if acl.direction = .fromLport then .outAcl else .inAcl
    let actions : List Act := [.log, .set .verdictAllow true, .next]
    [ ⟨.eval stage, uint16Max - 2, .and (replyMatch opts) (.label acl.label), actions⟩,
      ⟨.eval stage, uint16Max - 2, .and (relatedMatch opts) (.label acl.label), actions⟩ ]

/-- The flows of `build_acls` that let packets through to the action table. -/
def aclEvalDefaults : List (LFlow η) :=
  let flow (priority : ℕ) (stage : AclStage) : LFlow η := ⟨.eval stage, priority, .all, [.next]⟩
  if !r.hasAcls then
    (if !r.hasLbVip then [flow uint16Max .inAcl, flow uint16Max .outAcl]
      else [flow 0 .inAcl, flow 0 .outAcl]) ++ [flow 0 .inAclAfterLb]
  else [flow 0 .inAcl, flow 0 .outAcl, flow 0 .inAclAfterLb]

/-- The match on invalid packets and on replies of connections that are marked for deletion. -/
def deniedMatch : Match η :=
  let blockedReply : Match η :=
    .and (.pkt (·.ctEst)) (.and (.pkt (·.ctRpl)) (.blocked opts.ctNoMaskedLabel))
  if opts.useCtInvMatch then .or (.pkt (·.ctInv)) blockedReply else blockedReply

/-- Related traffic has NAT applied to it where that is supported. -/
def relatedActs : List Act := if opts.ctLbRelated then [.ctCommitNat] else [.next]

/-- The match on established connections that are marked for deletion. -/
def reallowMatch : Match η :=
  .and (.pkt (·.ip)) (.and (.pkt (·.ctEst)) (.blocked opts.ctNoMaskedLabel))

/-- The flows of `build_acls` that depend on the conntrack state. -/
def aclEvalTracked : List (LFlow η) :=
  let flow (stage : AclStage) (priority : ℕ) (guard : Match η) (actions : List Act) : LFlow η :=
    ⟨.eval stage, priority, guard, actions⟩
  [ flow .inAcl 1 (reallowMatch opts) [.set .verdictAllow true, .next],
    flow .outAcl 1 (reallowMatch opts) [.set .verdictAllow true, .next],
    flow .inAcl 1 (.and (.pkt (·.ip)) (.not (.pkt (·.ctEst)))) [.next],
    flow .outAcl 1 (.and (.pkt (·.ip)) (.not (.pkt (·.ctEst)))) [.next],
    flow .inAcl (uint16Max - 3) (deniedMatch opts) [.set .verdictDrop true, .next],
    flow .outAcl (uint16Max - 3) (deniedMatch opts) [.set .verdictDrop true, .next],
    flow .inAcl (uint16Max - 3) (replyMatch opts)
      [.set .hintDrop false, .set .hintBlock false, .set .hintAllowRel true,
        .set .verdictAllow true, .next],
    flow .outAcl (uint16Max - 3) (replyMatch opts) [.set .verdictAllow true, .next],
    flow .inAcl (uint16Max - 3) (relatedMatch opts)
      ([.set .hintAllowRel true, .set .verdictAllow true] ++ relatedActs opts),
    flow .outAcl (uint16Max - 3) (relatedMatch opts)
      ([.set .verdictAllow true] ++ relatedActs opts),
    flow .inAclAfterLb (uint16Max - 3) (.bit .hintAllowRel) [.set .verdictAllow true, .next] ]

/-- They are there for a switch with stateful ACLs or load balancers. -/
def aclEvalStateful : List (LFlow η) := if r.hasStateful then aclEvalTracked opts else []

/-- The flows of `build_acls` for traffic that ACLs do not apply to. -/
def aclEvalExempt (hasDnsRecords : Bool) : List (LFlow η) :=
  let allow : List Act := [.set .verdictAllow true, .next]
  [.inAcl, .outAcl, .inAclAfterLb].map (fun stage : AclStage =>
    (⟨.eval stage, uint16Max - 3, .pkt (·.ipv6CtOmit), allow⟩ : LFlow η)) ++
  (if hasDnsRecords then [⟨.eval .outAcl, 34000, .pkt (·.ctrlDns), if r.hasStateful then
    [.set .verdictAllow true, .ctCommit, .next] else allow⟩] else []) ++
  if r.hasAcls || r.hasLbVip then
    [ ⟨.eval .inAcl, 34000, .pkt (·.toSvcMonitor), allow⟩,
      ⟨.eval .outAcl, 34000, .pkt (·.fromSvcMonitor), allow⟩ ]
  else []

/-- The reset of the registers at the end of the ACL stage. -/
def resetVerdict : List Act :=
  [.set .verdictAllow false, .set .verdictDrop false, .set .verdictReject false] ++
    if r.maxAclTier = 0 then [] else [.setTier 0]

/-- `build_acl_action_lflows`, for one stage. -/
def buildAclActionLflows (stage : AclStage) : List (LFlow η) :=
  let flow (priority : ℕ) (guard : Match η) (actions : List Act) : LFlow η :=
    ⟨.action stage, priority, guard, actions⟩
  if !r.hasAcls then [flow 0 .all [.next]]
  else
    [ flow 1000 (.bit .verdictAllow) (resetVerdict r ++ [.next]),
      flow 1000 (.bit .verdictDrop) (resetVerdict r),
      flow 1000 (.bit .verdictReject) (resetVerdict r ++ [.clearReg0, .reject]),
      flow 0 .all (resetVerdict r ++ if opts.defaultAclDrop then [] else [.next]) ] ++
    (List.range r.maxAclTier).map fun j =>
      flow 500 (.tier j) [.setTier (j + 1), .nextTable stage.pipeline (stage.actionTable - 1)]

end

def LogicalSwitch.allAcls (ls : LogicalSwitch η) : List (Acl η) := ls.acls ++ ls.portGroups.flatten

/-- `build_acls`, with the record that is kept of the switch. -/
def buildAcls (opts : Options) (r : StatefulRecord) (ls : LogicalSwitch η) : List (LFlow η) :=
  aclEvalDefaults r ++ aclEvalStateful opts r ++
  ls.allAcls.flatMap (fun acl => buildAclLogRelatedFlows opts r acl ++ considerAcl r acl) ++
  aclEvalExempt r ls.hasDnsRecords ++
  [.inAcl, .inAclAfterLb, .outAcl].flatMap (buildAclActionLflows opts r)

def aclFlows (opts : Options) (ls : LogicalSwitch η) : List (LFlow η) :=
  buildAclHints opts ls.statefulRecord .ingress ++ buildAclHints opts ls.statefulRecord .egress ++
    buildAcls opts ls.statefulRecord ls

/-! ## Packets -/

abbrev FlowLookup (η : Type*) :=
  Lookup (LFlow η) (State η) LFlow.priority fun f s => f.guard.eval s

inductive Verdict
  | allow | drop | reject
  deriving DecidableEq

section
variable (L : FlowLookup η) (flows : List (LFlow η)) (p : Packet η)

/-- A packet in a table: it is dropped where no flow matches. -/
def runTable (t : Table) (r : Regs) : Regs × Outcome :=
  match L.pick (flows.filter (·.table = t)) ⟨p, r⟩ with
  | some f => runActs f.actions r
  | none => (r, .drop)

/-- The evaluation and the action table of a stage, and back to the former for the next tier;
    `none` when `fuel` rounds do not suffice. -/
def runTiers (stage : AclStage) : ℕ → Regs → Option Verdict
  | 0, _ => none
  | fuel + 1, r =>
    match runTable L flows p (.eval stage) r with
    | (r, .next) =>
      match runTable L flows p (.action stage) r with
      | (_, .next) => some .allow
      | (_, .drop) => some .drop
      | (_, .reject) => some .reject
      | (r, .table pipeline table) =>
        if pipeline = stage.pipeline ∧ table = stage.evalTable then runTiers stage fuel r else none
    | (_, .drop) => some .drop
    | (_, .reject) => some .reject
    | (_, .table _ _) => none

def Regs.zero : Regs := ⟨fun _ => false, 0, 0⟩

/-- A packet through the hint table of its pipeline and the tables of an ACL stage. -/
def runAclStage (stage : AclStage) (fuel : ℕ) : Option Verdict :=
  match runTable L flows p (.hint stage.pipeline) .zero with
  | (r, .next) => runTiers L flows p stage fuel r
  | _ => none

end

end Ovn.Northd

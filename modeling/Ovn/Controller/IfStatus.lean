/-
  The interface manager of the controller.

  Every local interface has a state, from being claimed to having its flows installed and its
  binding marked up, and back.  The manager keeps the interfaces by name and in a set for each
  state; its functions walk over the sets and move the interfaces between them.
-/
import Ovn.Lib.KeyedRows
import Ovn.Lib.Run
import Ovn.Lib.StatusIndex
import Mathlib.Data.List.AList

namespace Ovn.IfStatus

inductive IfState
  | claimed
  | installFlows
  | remOldOvnInst
  | markUp
  | installed
  | markDown
  | updatePort
  deriving DecidableEq, Repr

inductive CanBind
  | cannot
  | asMain
  | asAdditional
  deriving DecidableEq, Repr

/-- `struct ovs_iface`, without the mtu, which the state machine does not look at. -/
structure Iface where
  id : String
  name : Option String
  pbUuid : ℕ
  parentPbUuid : ℕ
  state : IfState
  installSeqno : UInt32
  bindType : CanBind
  isVif : Bool
  deriving DecidableEq, Repr

/-- The calls by which the manager has the databases changed. -/
inductive Call
  | setPbChassis (pb : ℕ)
  | setPbAdditionalChassis (pb : ℕ)
  | localBindingSetPb (id : String) (set : Bool) (bindType : CanBind)
  | portBindingSetPb (id : String) (pb : ℕ) (bindType : CanBind)
  | portBindingSetDown (id : String) (pb : ℕ)
  | localBindingSetDown (id : String) (sbReadonly ovsReadonly : Bool)
  | localBindingRemoveOvnInstalled (id : String) (ovsReadonly : Bool)
  | localBindingSetUp (id : String) (sbReadonly ovsReadonly : Bool)
  | claimedLportSetUp (pb : ℕ) (parent : Option ℕ)
  deriving DecidableEq, Repr

/-- `struct if_status_mgr`, less what is to be uninstalled.  An interface is known by its address;
    `heap` has the interfaces that are allocated, the addresses from `next` on were never in use.
    `requests` are the sequence numbers given to `ofctrl_seqno_update_create` so far, `calls` the
    calls made so far. -/
structure Mgr where
  ifaces : AList fun _ : String => ℕ
  heap : ℕ → Option Iface
  next : ℕ
  perState : StatusIndex IfState ℕ
  ifaceSeqno : UInt32
  requests : List UInt32
  calls : List Call

namespace Mgr

variable (s : Mgr)

/-- `if_status_mgr_create`. -/
def create : Mgr := ⟨∅, fun _ => none, 0, StatusIndex.empty IfState ℕ, 0, [], []⟩

def emit (calls : List Call) : Mgr := { s with calls := s.calls ++ calls }

def modifyIface (a : ℕ) (g : Iface → Iface) : Mgr :=
  { s with heap := Function.update s.heap a ((s.heap a).map g) }

def ovsIfaceSetState (a : ℕ) (state : IfState) : Mgr :=
  match s.heap a with
  | none => s
  | some f =>
    { s with
      heap := Function.update s.heap a (some { f with state := state, installSeqno := 0 })
      perState := (s.perState.remove f.state a).add state a }

/-- `ovs_iface_create`: a record of zeros, with a name if there is an OVS interface. -/
def ovsIfaceCreate (id : String) (ifaceRec : Option String) (state : IfState) : Mgr :=
  let a := s.next
  let s := { s with
    heap := Function.update s.heap a (some ⟨id, none, 0, 0, .claimed, 0, .cannot, false⟩)
    next := a + 1
    ifaces := s.ifaces.insert id a }
  let s := s.ovsIfaceSetState a state
  s.modifyIface a fun f => { f with name := ifaceRec }

def ovsIfaceDestroy (a : ℕ) : Mgr :=
  match s.heap a with
  | none => s
  | some f =>
    { s with
      perState := s.perState.remove f.state a
      ifaces := s.ifaces.erase f.id
      heap := Function.update s.heap a none }

/-- `if_status_mgr_clear`. -/
def clear : Mgr :=
  (s.ifaces.entries.map (·.2)).foldl ovsIfaceDestroy s

end Mgr

/-! ## Claims and releases -/

structure PortBinding where
  logicalPort : String
  uuid : ℕ
  deriving DecidableEq, Repr

/-- The arguments of `if_status_mgr_claim_iface`; an OVS interface is its name. -/
structure Claim where
  pb : PortBinding
  ifaceRec : Option String
  sbReadonly : Bool
  bindType : CanBind
  isVif : Bool
  parentPb : Option ℕ
  deriving DecidableEq, Repr

def Claim.fill (c : Claim) (f : Iface) : Iface :=
  { f with
    bindType := c.bindType
    isVif := c.isVif
    pbUuid := c.pb.uuid
    parentPbUuid := c.parentPb.getD f.parentPbUuid }

def Claim.calls (c : Claim) : List Call :=
  if c.sbReadonly then []
  else match c.bindType with
    | .asMain => [.setPbChassis c.pb.uuid]
    | .asAdditional => [.setPbAdditionalChassis c.pb.uuid]
    | .cannot => []

/-- The states a claim leads back from to `CLAIMED`. -/
def IfState.reclaims : IfState → Bool
  | .claimed | .installFlows | .remOldOvnInst | .markUp => false
  | .installed | .markDown | .updatePort => true

/-- The states a release or a deletion leads from to `MARK_DOWN`. -/
def IfState.releases : IfState → Bool
  | .claimed | .installFlows | .remOldOvnInst | .markUp | .installed => true
  | .markDown | .updatePort => false

namespace Mgr

/-- The interface of the claim, created where there is none. -/
def findOrCreate (s : Mgr) (c : Claim) : Mgr × ℕ :=
  match s.ifaces.lookup c.pb.logicalPort with
  | some a => (s, a)
  | none => (s.ovsIfaceCreate c.pb.logicalPort c.ifaceRec .claimed, s.next)

/-- The claim of an interface that is there. -/
def claimFound (s : Mgr) (c : Claim) (a : ℕ) : Mgr :=
  let s := (s.modifyIface a c.fill).emit c.calls
  match s.heap a with
  | none => s
  | some f => if f.state.reclaims then s.ovsIfaceSetState a .claimed else s

/-- `if_status_mgr_claim_iface`. -/
def claimIface (s : Mgr) (c : Claim) : Mgr := (s.findOrCreate c).1.claimFound c (s.findOrCreate c).2

/-- The switch of `if_status_mgr_release_iface` and `if_status_mgr_delete_iface`. -/
def markDown (s : Mgr) (a : ℕ) (f : Iface) : Mgr :=
  if f.state.releases then s.ovsIfaceSetState a .markDown else s

/-- `if_status_mgr_release_iface`. -/
def releaseIface (s : Mgr) (id : String) : Mgr :=
  match s.ifaces.lookup id with
  | none => s
  | some a =>
    match s.heap a with
    | none => s
    | some f => s.markDown a f

/-- `if_status_mgr_delete_iface`.  The names are compared by `strcmp`, which has no result for an
    interface without a name. -/
def deleteIface (s : Mgr) (id : String) (ifaceRec : Option String) : Option Mgr :=
  match s.ifaces.lookup id with
  | none => some s
  | some a =>
    match s.heap a with
    | none => some s
    | some f =>
      match ifaceRec, f.name with
      | none, _ => some (s.markDown a f)
      | some _, none => none
      | some n, some n' => some (if n' = n then s.markDown a f else s)

end Mgr

/-! ## The loops over the interfaces of a state -/

/-- What a loop does with an interface: nothing, `ovs_iface_set_state`, the same to
    `OIF_INSTALL_FLOWS` with a sequence number to wait for, or `ovs_iface_destroy`. -/
inductive Outcome
  | keep
  | set (state : IfState)
  | install (seqno : UInt32)
  | destroy
  deriving DecidableEq, Repr

/-- A body of a loop: the calls made for an interface, and what is done with it. -/
abbrev Body := Iface → List Call × Outcome

namespace Mgr

def act (s : Mgr) (a : ℕ) : Outcome → Mgr
  | .keep => s
  | .set state => s.ovsIfaceSetState a state
  | .install seqno =>
    (s.ovsIfaceSetState a .installFlows).modifyIface a ({ · with installSeqno := seqno })
  | .destroy => s.ovsIfaceDestroy a

def visit (body : Body) (s : Mgr) (a : ℕ) : Mgr :=
  match s.heap a with
  | none => s
  | some f => (s.emit (body f).1).act a (body f).2

/-- `HMAPX_FOR_EACH_SAFE` over the interfaces of a state, which moves no others. -/
def forEach (o : HashOrder ℕ) (state : IfState) (body : Body) (s : Mgr) : Mgr :=
  (o.order (s.perState state)).foldl (visit body) s

end Mgr

/-! ## `if_status_mgr_update` -/

/-- What the binding module answers during a call, for a logical port or a port binding. -/
structure Answers where
  isOvnInstalled : String → Bool
  pbChassisIsSet : String → Bool
  postpone : String → Bool
  isUp : String → Bool
  isDown : String → Bool
  found : String → Bool
  portChassisIsSet : ℕ → Bool
  portIsUp : ℕ → Bool
  /-- `sbrec_port_binding_table_get_for_uuid` finds a row. -/
  inTable : ℕ → Bool

namespace Answers

variable (b : Answers) (sbReadonly ovsReadonly : Bool)

/-- `OIF_REM_OLD_OVN_INST`: confirmed without `ovn-installed`. -/
def remOldOvnInst : Body := fun f =>
  ([], if b.isOvnInstalled f.id then .keep else .set .markUp)

/-- `OIF_MARK_UP`: confirmed up. -/
def markUp : Body := fun f =>
  if f.isVif then
    let up : Outcome := if b.isUp f.id then .set .installed else .keep
    if b.pbChassisIsSet f.id then ([], up)
    else if sbReadonly then ([], .keep)
    else if b.postpone f.id then ([], .keep)
    else ([.localBindingSetPb f.id true f.bindType], up)
  else
    let up : Outcome := if b.portIsUp f.pbUuid then .set .installed else .keep
    if b.portChassisIsSet f.pbUuid then ([], up)
    else if sbReadonly then ([], .keep)
    else ([.portBindingSetPb f.id f.pbUuid f.bindType], up)

/-- `OIF_MARK_DOWN`: confirmed down. -/
def markDown : Body := fun f =>
  if !b.found f.id then ([], .set .updatePort)
  else
    (if sbReadonly then [] else [.localBindingSetPb f.id false f.bindType],
      if b.isDown f.id then .destroy else .keep)

/-- `OIF_INSTALL_FLOWS`: the chassis is set again if it is not. -/
def installFlows : Body := fun f =>
  if b.pbChassisIsSet f.id then ([], .keep)
  else if b.postpone f.id then ([], .keep)
  else ([.localBindingSetPb f.id true f.bindType], .keep)

end Answers

/-- `OIF_CLAIMED`, where the southbound database can be written. -/
def claimedBody (seqno : UInt32) : Body := fun f =>
  ([], if f.isVif then .install seqno else .set .markUp)

/-- `OIF_UPDATE_PORT`, where the southbound database can be written. -/
def updatePortBody : Body := fun f => ([.portBindingSetDown f.id f.pbUuid], .destroy)

namespace Mgr

/-- `new_ifaces`: the loop over `OIF_CLAIMED` meets an interface that needs its flows. -/
def newIfaces (s : Mgr) : Bool := (s.perState .claimed).any fun a => (s.heap a).any (·.isVif)

/-- The part of `if_status_mgr_update` for a southbound database that can be written. -/
def updateWritable (s : Mgr) (o : HashOrder ℕ) (b : Answers) : Mgr :=
  let s := s.forEach o .installFlows b.installFlows
  let newIfaces := s.newIfaces
  let s := s.forEach o .claimed (claimedBody (s.ifaceSeqno + 1))
  let s := s.forEach o .updatePort updatePortBody
  if newIfaces then
    { s with ifaceSeqno := s.ifaceSeqno + 1, requests := s.requests ++ [s.ifaceSeqno + 1] }
  else s

/-- `if_status_mgr_update`; there may be no binding data. -/
def update (s : Mgr) (o : HashOrder ℕ) (b : Option Answers) (sbReadonly : Bool) : Mgr :=
  match b with
  | none => s
  | some b =>
    let s := s.forEach o .remOldOvnInst b.remOldOvnInst
    let s := s.forEach o .markUp (b.markUp sbReadonly)
    let s := s.forEach o .markDown (b.markDown sbReadonly)
    if sbReadonly then s else s.updateWritable o b

end Mgr

/-! ## `if_status_mgr_run` -/

/-- An interface whose flows are installed waits for the removal of an old `ovn-installed` first;
    without binding data it is not known whether there is one. -/
def ackedBody (acked : List ℕ) (b : Option Answers) : Body := fun f =>
  ([], if f.installSeqno.toNat ∉ acked then .keep
    else if b.all (·.isOvnInstalled f.id) then .set .remOldOvnInst
    else .set .markUp)

section
variable (b : Answers) (sbReadonly ovsReadonly : Bool)

/-- The loop over `OIF_MARK_UP` of `if_status_mgr_update_bindings`. -/
def setUpBody : Body := fun f =>
  (if f.isVif then [.localBindingSetUp f.id sbReadonly ovsReadonly]
    else if !sbReadonly && b.inTable f.pbUuid then
      [.claimedLportSetUp f.pbUuid (if b.inTable f.parentPbUuid then some f.parentPbUuid else none)]
    else [], .keep)

def setDownBody : Body := fun f => ([.localBindingSetDown f.id sbReadonly ovsReadonly], .keep)

def removeOvnInstalledBody : Body := fun f =>
  ([.localBindingRemoveOvnInstalled f.id ovsReadonly], .keep)

end

namespace Mgr

/-- `if_status_mgr_update_bindings`. -/
def updateBindings (s : Mgr) (o : HashOrder ℕ) (b : Option Answers)
    (sbReadonly ovsReadonly : Bool) :
    Mgr :=
  match b with
  | none => s
  | some b =>
    let s := s.forEach o .installFlows (setDownBody sbReadonly ovsReadonly)
    let s := s.forEach o .remOldOvnInst (removeOvnInstalledBody ovsReadonly)
    let s := s.forEach o .markUp (setUpBody b sbReadonly ovsReadonly)
    s.forEach o .markDown (setDownBody sbReadonly ovsReadonly)

/-- `if_status_mgr_run` with the sequence numbers that are acked. -/
def run (s : Mgr) (o : HashOrder ℕ) (acked : List ℕ) (b : Option Answers)
    (sbReadonly ovsReadonly : Bool) : Mgr :=
  let s := s.forEach o .installFlows (ackedBody acked b)
  s.updateBindings o b sbReadonly ovsReadonly

end Mgr

end Ovn.IfStatus

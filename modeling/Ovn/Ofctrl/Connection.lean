/-
  The OpenFlow connection to the switch.

  * the state machine that `ofctrl_run` drives over the messages of the switch,
  * what `ofctrl_put` decides, and how it tracks the barriers of the batches it sends,
  * the log `puts` of the completed puts, a history variable that no function reads.
-/
import Ovn.Lib.Barrier
import Mathlib.Data.BitVec

namespace Ovn

namespace Ofctrl

/-! ## Messages -/

abbrev Xid := UInt32

structure TlvMap where
  optionClass : ℕ
  optionType : ℕ
  optionLen : ℕ
  index : ℕ
  deriving DecidableEq

/-- The errors that `recv_S_TLV_TABLE_MOD_SENT` tells apart. -/
inductive OfpErr
  | alreadyMapped | dupEntry | other
  deriving DecidableEq

/-- `enum ofptype`, with what is read of the message: the mappings of a TLV table reply when
    it can be decoded, and the error of an error message. -/
inductive OfpType
  | tlvTableReply (mappings : Option (List TlvMap))
  | barrierReply
  | error (e : OfpErr)
  | echoRequest
  | other

structure Message where
  xid : Xid
  type : OfpType

/-- What `rconn_recv` gives: nothing, a message that cannot be decoded, or a message. -/
inductive Received
  | nothing
  | garbled
  | message (m : Message)

/-! ## State -/

inductive ConnState
  | new | tlvTableRequested | tlvTableModSent | waitBeforeClear | clearFlows | updateFlows
  deriving DecidableEq

structure FlowUpdate where
  xid : Xid
  reqCfg : ℕ
  deriving DecidableEq

/-- The reliable connection `swconn`: whether it is up, and the number of the connection. -/
structure Rconn where
  connected : Bool
  connectionSeqno : ℕ
  deriving DecidableEq

end Ofctrl

open Ofctrl in
/-- The static variables of `ofctrl.c` that the connection and the acknowledgements use. -/
structure Ofctrl where
  swconn : Rconn
  seqno : ℕ
  state : ConnState
  flowUpdates : List FlowUpdate
  curCfg : ℕ
  initialClear : Bool
  xid : Xid
  xid2 : Xid
  /-- The tunnel metadata field of the Geneve option, if it could be had. -/
  mffOvnGeneve : Option ℕ
  waitBeforeClearTime : ℕ
  waitBeforeClearExpire : ℕ
  initialFlowsReady : Bool
  skippedLastTime : Bool
  oldReqCfg : ℕ
  /-- History: the puts that were completed. -/
  puts : List (Batch Xid)

namespace Ofctrl

def conn (o : Ofctrl) : ℕ := o.swconn.connectionSeqno

/-! ## The state machine -/

/-- What one round of the loop of `ofctrl_run` gets from outside: the time, the ids of the
    messages it may have to send, and what it receives. -/
structure Round where
  now : ℕ
  xid : Xid
  xid2 : Xid
  received : Received

def ovnGeneveClass : ℕ := 0x0102
def ovnGeneveType : ℕ := 0x80
def ovnGeneveLen : ℕ := 4
def tunMetadataNumOpts : ℕ := 64

/-- The loop of `process_tlv_table_reply` over the mappings: the index of our option, an
    error, or the mask of the free indexes. -/
def scanMappings : List TlvMap → BitVec 64 → Except (Option ℕ) (BitVec 64)
  | [], mdFree => .ok mdFree
  | map :: maps, mdFree =>
    if map.optionClass = ovnGeneveClass ∧ map.optionType = ovnGeneveType ∧
        map.optionLen = ovnGeneveLen then
      .error (if tunMetadataNumOpts ≤ map.index then none else some map.index)
    else if map.index < tunMetadataNumOpts then
      scanMappings maps (mdFree &&& ~~~(1#64 <<< map.index))
    else scanMappings maps mdFree

/-- `process_tlv_table_reply`: `none` when it returns false. -/
def processTlvTableReply (r : Round) (mappings : List TlvMap) (o : Ofctrl) : Option Ofctrl :=
  match scanMappings mappings (BitVec.allOnes 64) with
  | .error none => none
  | .error (some index) => some { o with mffOvnGeneve := some index, state := .waitBeforeClear }
  | .ok mdFree =>
    ((List.range tunMetadataNumOpts).find? (mdFree.getLsbD ·)).map fun index =>
      { o with mffOvnGeneve := some index, xid := r.xid, xid2 := r.xid2, state := .tlvTableModSent }

/-- `ofctrl_recv`: an error makes the connection go down. -/
def ofctrlRecv (m : Message) (o : Ofctrl) : Ofctrl :=
  match m.type with
  | .error _ => { o with swconn := { o.swconn with connected := false } }
  | _ => o

inductive WaitBeforeClearReason
  | disabled | expired | flowsReady | stillWaiting
  deriving DecidableEq

def ofctrlWaitBeforeClearDecide (initialFlowsReady : Bool) (waitTime expire now : ℕ) :
    WaitBeforeClearReason :=
  if waitTime = 0 then .disabled
  else if expire ≠ 0 ∧ expire ≤ now then .expired
  else if initialFlowsReady then .flowsReady
  else .stillWaiting

def runNew (r : Round) (o : Ofctrl) : Ofctrl :=
  { o with xid := r.xid, state := .tlvTableRequested }

def runWaitBeforeClear (r : Round) (o : Ofctrl) : Ofctrl :=
  match ofctrlWaitBeforeClearDecide o.initialFlowsReady o.waitBeforeClearTime
      o.waitBeforeClearExpire r.now with
  | .stillWaiting =>
    if o.waitBeforeClearExpire = 0 then
      { o with waitBeforeClearExpire := r.now + o.waitBeforeClearTime }
    else o
  | _ => { o with state := .clearFlows }

/-- `run_S_CLEAR_FLOWS`: all flow updates are irrelevant now. -/
def runClearFlows (o : Ofctrl) : Ofctrl :=
  { o with initialClear := true, flowUpdates := [], state := .updateFlows }

def runState (r : Round) (o : Ofctrl) : Ofctrl :=
  match o.state with
  | .new => runNew r o
  | .waitBeforeClear => runWaitBeforeClear r o
  | .clearFlows => runClearFlows o
  | .tlvTableRequested | .tlvTableModSent | .updateFlows => o

def recvTlvTableRequested (r : Round) (m : Message) (o : Ofctrl) : Ofctrl :=
  if m.xid ≠ o.xid then ofctrlRecv m o
  else match m.type with
  | .tlvTableReply (some mappings) =>
    (processTlvTableReply r mappings o).getD
      { o with mffOvnGeneve := none, state := .waitBeforeClear }
  | _ => { o with mffOvnGeneve := none, state := .waitBeforeClear }

def recvTlvTableModSent (m : Message) (o : Ofctrl) : Ofctrl :=
  if m.xid ≠ o.xid ∧ m.xid ≠ o.xid2 then ofctrlRecv m o
  else match m.type with
  | .error e =>
    if m.xid = o.xid ∧ (e = .alreadyMapped ∨ e = .dupEntry) then { o with state := .new }
    else { o with state := .waitBeforeClear }
  | _ => { o with state := .waitBeforeClear }

/-- The first half of `recv_S_UPDATE_FLOWS`, for a barrier reply with the id `x`. -/
def barrierReplied (x : Xid) (o : Ofctrl) : Ofctrl :=
  match o.flowUpdates with
  | [] => o
  | fup :: fups =>
    if fup.xid = x then
      { o with flowUpdates := fups, curCfg := if o.curCfg ≤ fup.reqCfg then fup.reqCfg
        else o.curCfg }
    else o

def recvUpdateFlows (m : Message) (o : Ofctrl) : Ofctrl :=
  match m.type with
  | .barrierReply => barrierReplied m.xid o
  | _ => ofctrlRecv m o

def recvState (r : Round) (m : Message) (o : Ofctrl) : Ofctrl :=
  match o.state with
  | .tlvTableRequested => recvTlvTableRequested r m o
  | .tlvTableModSent => recvTlvTableModSent m o
  | .updateFlows => recvUpdateFlows m o
  -- `recv_S_NEW` is never reached: `run_S_NEW` has just left that state
  | .new | .waitBeforeClear | .clearFlows => ofctrlRecv m o

/-- The history notes every barrier reply, whatever the state machine makes of it. -/
def note (m : Message) (o : Ofctrl) : Ofctrl :=
  match m.type with
  | .barrierReply => { o with puts := Batch.answer o.conn m.xid o.puts }
  | _ => o

/-- What is received in a round: nothing once the connection is down. -/
def Round.receives (r : Round) (o : Ofctrl) : Received :=
  if o.swconn.connected then r.received else .nothing

/-- One round of the loop of `ofctrl_run`, and whether it made progress. -/
def round (r : Round) (o : Ofctrl) : Ofctrl × Bool :=
  let o' := runState r o
  match r.receives o' with
  | .nothing => (o', decide (o.state ≠ o'.state))
  | .garbled => (o', true)
  | .message m => (recvState r m (note m o'), true)

/-- The loop of `ofctrl_run`; `rounds n` is the round after which `n` more are allowed. -/
def runRounds (rounds : ℕ → Round) : ℕ → Ofctrl → Ofctrl
  | 0, o => o
  | n + 1, o =>
    let step := round (rounds n) o
    if step.2 then runRounds rounds n step.1 else step.1

/-- What `rconn_run` did to the connection: nothing, it went down, or a new one came up. -/
inductive RconnRun
  | same | down | up
  deriving DecidableEq

def rconnRun (c : RconnRun) (swconn : Rconn) : Rconn :=
  match c with
  | .same => swconn
  | .down => { swconn with connected := false }
  | .up => ⟨true, swconn.connectionSeqno + 1⟩

def connect (c : RconnRun) (o : Ofctrl) : Ofctrl := { o with swconn := rconnRun c o.swconn }

def setWaitTime (waitTime : ℕ) (o : Ofctrl) : Ofctrl := { o with waitBeforeClearTime := waitTime }

def reconnect (o : Ofctrl) : Ofctrl :=
  { o with seqno := o.conn, state := .new, waitBeforeClearExpire := 0, initialFlowsReady := false }

/-- `ofctrl_run`, with the result that tells whether a reconnection was noticed.  The pending
    conntrack zones are there whenever it is called (`en_ct_zones_is_valid`). -/
def ofctrlRun (c : RconnRun) (waitTime : ℕ) (rounds : ℕ → Round) (o : Ofctrl) : Bool × Ofctrl :=
  let o := o.connect c
  if !o.swconn.connected then (false, o)
  else if o.seqno ≠ o.conn then (true, runRounds rounds 50 (o.reconnect.setWaitTime waitTime))
  else (false, runRounds rounds 50 (o.setWaitTime waitTime))

/-! ## `ofctrl_put` -/

/-- What `ofctrl_put` is called with and what it finds: the requested sequence number, the
    flags of the engine, whether messages are still queued, whether the tables, the meters,
    the groups and the conntrack zones need any message, and the id of the barrier. -/
structure PutArgs where
  reqCfg : ℕ
  lflowsChanged : Bool
  pflowsChanged : Bool
  packetsQueued : Bool
  work : Bool
  barrier : Xid

/-- `ofctrl_has_backlog`: without a connection there is no OpenFlow version. -/
def ofctrlHasBacklog (packetsQueued : Bool) (o : Ofctrl) : Bool :=
  packetsQueued || !o.swconn.connected

def ofctrlCanPut (packetsQueued : Bool) (o : Ofctrl) : Bool :=
  decide (o.state = .updateFlows) && !ofctrlHasBacklog packetsQueued o

/-- The first test of `ofctrl_put`: there is something to do, whatever the numbers are. -/
def changed (a : PutArgs) (o : Ofctrl) : Bool :=
  a.lflowsChanged || a.pflowsChanged || o.skippedLastTime || o.initialClear

/-- The beginning of `ofctrl_put`: is a put needed?  When nothing changed and nothing is
    pending, the switch is up to date with the new number as well. -/
def needPut (a : PutArgs) (o : Ofctrl) : Bool × Ofctrl :=
  if changed a o then
    (true, { o with oldReqCfg := a.reqCfg })
  else if a.reqCfg ≠ o.oldReqCfg then
    if o.curCfg = o.oldReqCfg then
      if o.flowUpdates = [] then
        -- such a put counts as completed in the state in which puts can be made
        (false, { o with
          curCfg := a.reqCfg
          oldReqCfg := a.reqCfg
          puts := if o.state = .updateFlows then o.puts ++ [⟨o.conn, none, false⟩] else o.puts })
      else (false, o)
    else (true, { o with oldReqCfg := a.reqCfg })
  else (false, o)

/-- The loop that tracks a flow update, over the list from its back. -/
def trackFlowUpdateRev (reqCfg : ℕ) (xid : Xid) : List FlowUpdate → List FlowUpdate
  | [] => [⟨xid, reqCfg⟩]
  | fup :: fups =>
    if reqCfg < fup.reqCfg then trackFlowUpdateRev reqCfg xid fups
    else if reqCfg = fup.reqCfg then ⟨xid, reqCfg⟩ :: fups
    else ⟨xid, reqCfg⟩ :: fup :: fups

def trackFlowUpdate (reqCfg : ℕ) (xid : Xid) (fups : List FlowUpdate) : List FlowUpdate :=
  (trackFlowUpdateRev reqCfg xid fups.reverse).reverse

/-- Nothing had to be sent: the last flow update in flight stands for `reqCfg` as well. -/
def advanceLast (reqCfg : ℕ) (fups : List FlowUpdate) : List FlowUpdate :=
  match fups.reverse with
  | [] => []
  | fup :: rest => (FlowUpdate.mk fup.xid reqCfg :: rest).reverse

/-- The rest of `ofctrl_put`, once it is needed and possible.  The clear of the switch's
    tables, where it is due, is a message of its own. -/
def completePut (a : PutArgs) (o : Ofctrl) : Ofctrl :=
  let msgs := o.initialClear || a.work
  let sent : Batch Xid := ⟨o.conn, if msgs then some a.barrier else none, false⟩
  let o := { o with initialClear := false, skippedLastTime := false, puts := o.puts ++ [sent] }
  if msgs then { o with flowUpdates := trackFlowUpdate a.reqCfg a.barrier o.flowUpdates }
  else if o.flowUpdates ≠ [] then { o with flowUpdates := advanceLast a.reqCfg o.flowUpdates }
  else { o with curCfg := a.reqCfg }

def ofctrlPut (a : PutArgs) (o : Ofctrl) : Ofctrl :=
  let (need, o) := needPut a o
  if !need then o
  else if !ofctrlCanPut a.packetsQueued o then { o with skippedLastTime := true }
  else completePut a o

end Ofctrl

end Ovn

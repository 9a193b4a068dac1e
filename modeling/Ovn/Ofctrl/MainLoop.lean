/-
  The acknowledgements of sequence numbers in the main loop of ovn-controller.

  * the iterations of the main loop, as far as they drive `ofctrl.c` and `ofctrl-seqno.c`,
  * the engine is an input, down to what it tells `ofctrl_put` and the node
    `en_ofctrl_is_connected`.
-/
import Ovn.Ofctrl.Connection
import Ovn.Ofctrl.Seqno
import Mathlib.Data.Fintype.Prod

namespace Ovn

open Ofctrl

/-- The two types of sequence numbers that are registered with `ofctrl_seqno_add_type`. -/
inductive SeqnoType
  | nbCfg | ifaceCfg
  deriving DecidableEq

/-- A request, and how many puts were completed when it was created. -/
abbrev SeqnoUpdate := Seqno.Update SeqnoType ℕ

/-! ## The main loop -/

/-- How a run of the engine ended: whether it was completed, and the flags
    `engine_node_changed` of the flow outputs, if these are valid. -/
structure EngineOutcome where
  completed : Bool
  outputs : Option (Bool × Bool)
  deriving DecidableEq

/-- How far an iteration of the main loop has come. -/
inductive Phase
  | top
  | ran
  | requests (out : EngineOutcome)
  | put (out : EngineOutcome)
  | seqnoRun (out : EngineOutcome)
  | ifStatus (out : EngineOutcome)
  | store (out : Option EngineOutcome)
  deriving DecidableEq

structure Controller where
  ofctrl : Ofctrl
  seqnos : Seqno.Table SeqnoType ℕ
  /-- History: the requests that were made. -/
  made : List SeqnoUpdate
  /-- The data of the engine node `en_ofctrl_is_connected`. -/
  connected : Bool
  /-- `engine_force_recompute`. -/
  forceRecompute : Bool
  phase : Phase

inductive Action
  /-- The connection goes down, at any time. -/
  | drop
  /-- There is no integration bridge: the engine is not run, and of its nodes only leaves are, up
      to the first that is updated.  `sees` tells whether `en_ofctrl_is_connected` is one of these,
      and `updated` whether another one was. -/
  | noBridge (sees updated : Bool)
  | ofctrlRun (c : RconnRun) (waitTime : ℕ) (rounds : ℕ → Round)
  /-- There is no chassis record: the engine is not run either. -/
  | noChassis (sees updated : Bool)
  /-- `engine_run`; `sees` tells whether the node `en_ofctrl_is_connected` was run. -/
  | engineRun (sees : Bool) (out : EngineOutcome)
  | seqnoUpdateCreate (t : SeqnoType) (newCfg : ℕ)
  | setInitialFlowsReady (ready : Bool)
  | ofctrlPut (packetsQueued work : Bool) (barrier : Xid)
  | seqnoRun
  | ifStatusMgrRun
  | storeNbCfg

namespace Controller

/-- `en_ofctrl_is_connected_run`: the requests are flushed when the connection goes down. -/
def isConnectedRun (s : Controller) : Controller :=
  if s.connected = s.ofctrl.swconn.connected then s
  else { s with
    connected := !s.connected
    seqnos := if s.connected then s.seqnos.flush else s.seqnos }

/-- `engine_need_run`, after which `engine_set_force_recompute_immediate` is called if it is. -/
def engineNeedRun (sees updated : Bool) (s : Controller) : Controller :=
  let s' := if sees then s.isConnectedRun else s
  { s' with forceRecompute := s.forceRecompute || updated || s'.connected != s.connected }

/-- What a run of the engine may be: a completed one has run every node and has all outputs,
    and the outputs have changed when they were recomputed. -/
def EnginePossible (s : Controller) (sees : Bool) (out : EngineOutcome) : Prop :=
  (out.completed = true → sees = true ∧ out.outputs.isSome = true) ∧
    (s.forceRecompute = true → ∀ flags ∈ out.outputs, flags = (true, true))

instance (s : Controller) (sees : Bool) (out : EngineOutcome) :
    Decidable (s.EnginePossible sees out) := by
  unfold EnginePossible
  infer_instance

def put (flags : Bool × Bool) (packetsQueued work : Bool) (barrier : Xid) (s : Controller) :
    Controller :=
  let args : PutArgs := ⟨s.seqnos.reqSeqno, flags.1, flags.2, packetsQueued, work, barrier⟩
  { s with ofctrl := s.ofctrl.ofctrlPut args }

/-- The end of an iteration: `engine_clear_force_recompute` after a completed run,
    `engine_set_force_recompute_immediate` after an aborted one. -/
def endIteration (out : Option EngineOutcome) (s : Controller) : Controller :=
  { s with
    forceRecompute := match out with
      | some out => !out.completed
      | none => s.forceRecompute
    phase := .top }

def next (s : Controller) : Action → Option Controller
  | .drop =>
    some
      { s with ofctrl := { s.ofctrl with swconn := { s.ofctrl.swconn with connected := false } } }
  | .noBridge sees updated =>
    if s.phase = .top then some { s.engineNeedRun sees updated with phase := .store none } else none
  | .ofctrlRun c waitTime rounds =>
    if s.phase = .top then
      let (reconnected, ofctrl) := s.ofctrl.ofctrlRun c waitTime rounds
      some { s with ofctrl, forceRecompute := s.forceRecompute || reconnected, phase := .ran }
    else none
  | .noChassis sees updated =>
    if s.phase = .ran then some { s.engineNeedRun sees updated with phase := .store none } else none
  | .engineRun sees out =>
    if s.phase = .ran ∧ s.EnginePossible sees out then
      some { (if sees then s.isConnectedRun else s) with phase := .requests out }
    else none
  | .seqnoUpdateCreate t newCfg =>
    match s.phase with
    | .requests _ =>
      let seqnos := s.seqnos.updateCreate t newCfg s.ofctrl.puts.length
      some { s with seqnos, made := s.made ++ seqnos.updates.drop s.seqnos.updates.length }
    | _ => none
  | .setInitialFlowsReady ready =>
    match s.phase with
    | .requests out =>
      some { s with ofctrl := { s.ofctrl with initialFlowsReady := ready }, phase := .put out }
    | _ => none
  | .ofctrlPut packetsQueued work barrier =>
    match s.phase with
    | .put out =>
      let s' := match out.outputs with
        | some flags => s.put flags packetsQueued work barrier
        | none => s
      some { s' with phase := .seqnoRun out }
    | _ => none
  | .seqnoRun =>
    match s.phase with
    | .seqnoRun out =>
      some { s with seqnos := s.seqnos.seqnoRun s.ofctrl.curCfg, phase := .ifStatus out }
    | _ => none
  | .ifStatusMgrRun =>
    match s.phase with
    | .ifStatus out =>
      some { s with seqnos := s.seqnos.popAcked .ifaceCfg, phase := .store (some out) }
    | _ => none
  | .storeNbCfg =>
    match s.phase with
    | .store out => some ({ s with seqnos := s.seqnos.popAcked .nbCfg }.endIteration out)
    | _ => none

/-- The state when the daemon starts; the first iteration forces a recompute. -/
def start : Controller where
  ofctrl :=
    { swconn := ⟨false, 0⟩, seqno := 0, state := .new, flowUpdates := [], curCfg := 0
      initialClear := false, xid := 0, xid2 := 0, mffOvnGeneve := none
      waitBeforeClearTime := 0, waitBeforeClearExpire := 0, initialFlowsReady := false
      skippedLastTime := false, oldReqCfg := 0, puts := [] }
  seqnos := .init
  made := []
  connected := false
  forceRecompute := true
  phase := .top

/-- The main loop of ovn-controller against a switch that may send and do anything. -/
def mainLoop : System Controller Action := ⟨start, next⟩

end Controller

end Ovn

/-
  The desired flow table and its references.

  * the references between desired flows and the southbound rows they come from: a list for each
    flow, a list for each row, and lists for the addresses of address sets,
  * the functions that add, append and remove flows, and the flood removal, which takes out
    everything that shares flows with the rows it is given,
  * `ofctrl_put` and the clearing of the tables.
-/
import Ovn.Lib.KeyedRows
import Ovn.Lib.Run
import Ovn.Ofctrl.FlowCore

namespace Ovn.FlowTable

/-! ## References -/

structure SbFlowRef where
  flow : ℕ
  sbUuid : ℕ

structure AsIpToFlow where
  asIp : ℕ
  asMask : ℕ
  flows : List ℕ

structure SbAddrsetRef where
  name : String
  asIpToFlowMap : List AsIpToFlow

structure SbToFlow where
  sbUuid : ℕ
  flows : List ℕ
  addrsets : List SbAddrsetRef

structure AddrsetInfo where
  name : String
  ip : ℕ
  mask : ℕ

def AsIpToFlow.addr (n : AsIpToFlow) : ℕ × ℕ := (n.asIp, n.asMask)

def SbToFlow.asRefs (stf : SbToFlow) : List ℕ :=
  stf.addrsets.flatMap fun sar => sar.asIpToFlowMap.flatMap (·.flows)

/-- A new reference that is tracked by the address. -/
def SbAddrsetRef.addRef (r : ℕ) (info : AddrsetInfo) (sar : SbAddrsetRef) : SbAddrsetRef where
  name := sar.name
  asIpToFlowMap := upsertRow AsIpToFlow.addr (info.ip, info.mask) ⟨info.ip, info.mask, []⟩
    (fun n => { n with flows := n.flows ++ [r] }) sar.asIpToFlowMap

/-- A new reference of the row; with `asInfo` it is tracked by the address. -/
def SbToFlow.addRef (r : ℕ) (asInfo : Option AddrsetInfo) (stf : SbToFlow) : SbToFlow where
  sbUuid := stf.sbUuid
  flows := stf.flows ++ [r]
  addrsets := match asInfo with
    | none => stf.addrsets
    | some info =>
      upsertRow SbAddrsetRef.name info.name ⟨info.name, []⟩ (.addRef r info) stf.addrsets

/-- The lists of the addresses, each changed. -/
def SbToFlow.mapAs (g : List ℕ → List ℕ) (stf : SbToFlow) : SbToFlow :=
  { stf with addrsets := stf.addrsets.map fun sar =>
      { sar with asIpToFlowMap := sar.asIpToFlowMap.map fun n => { n with flows := g n.flows } } }

/-- A reference leaves the list of its address. -/
def SbToFlow.dropAs (r : ℕ) (stf : SbToFlow) : SbToFlow := stf.mapAs (·.filter (· ≠ r))

/-- A reference leaves the lists of its row. -/
def SbToFlow.dropRef (r : ℕ) (stf : SbToFlow) : SbToFlow :=
  { stf.dropAs r with flows := stf.flows.filter (· ≠ r) }

/-- The desired flow table: `references` are the lists of the flows, `listNodes` the flows whose
    `list_node` is in a list. -/
structure Tables (μ α : Type) extends Core μ α where
  references : ℕ → List ℕ
  sfr : ℕ → SbFlowRef
  uuidFlowTable : List SbToFlow
  listNodes : List ℕ
  nextSfr : ℕ

namespace Tables

variable {μ α : Type} (t : Tables μ α)

def sbToFlowFind (u : ℕ) : Option SbToFlow := rowOf (·.sbUuid) t.uuidFlowTable u

def linkFlowToSb (f u : ℕ) (asInfo : Option AddrsetInfo) : Tables μ α :=
  let r := t.nextSfr
  { t with
    references := Function.update t.references f (t.references f ++ [r])
    sfr := Function.update t.sfr r ⟨f, u⟩
    uuidFlowTable := upsertRow (·.sbUuid) u ⟨u, [], []⟩ (SbToFlow.addRef r asInfo) t.uuidFlowTable
    nextSfr := r + 1 }

def desiredFlowDestroy (f : ℕ) : Except Fail (Tables μ α) :=
  if t.references f ≠ [] then .error .assertion
  else (t.toCore.desiredFlowDestroy f).map fun c => { t with toCore := c }

/-- A flow without references goes out of the match table.  It is destroyed at once or later. -/
def removeFlow (f : ℕ) : Except Fail (Tables μ α) :=
  if t.references f ≠ [] then .error .assertion
  else (t.toCore.removeFlow f).map fun c => { t with toCore := c }

/-- A reference leaves all its lists. -/
def unlinkRef (r : ℕ) : Tables μ α :=
  let f := (t.sfr r).flow
  { t with
    references := Function.update t.references f ((t.references f).filter (· ≠ r))
    uuidFlowTable := modifyRow (·.sbUuid) (t.sfr r).sbUuid (SbToFlow.dropRef r) t.uuidFlowTable }

/-! ## Adding flows -/

section
variable [DecidableEq μ]

def desiredFlowLookupCheckUuid (target : OvnFlow μ α) (u : ℕ) : Option ℕ :=
  t.desiredFlowLookup t.matchFlowTable target fun d =>
    (t.references d).any fun r => (t.sfr r).sbUuid = u

/-- A new flow with a first reference. -/
def insertLinked (flow : OvnFlow μ α) (u : ℕ) (asInfo : Option AddrsetInfo) : Tables μ α :=
  let f := t.nextFlow
  let t : Tables μ α :=
    { t with toCore := t.toCore.insertFlow flow, references := Function.update t.references f [] }
  let t := t.linkFlowToSb f u asInfo
  { t with toCore := t.toCore.trackFlowAddOrModify f }

def checkAndAddFlowMetered (flow : OvnFlow μ α) (u : ℕ)
    (asInfo : Option AddrsetInfo) : Tables μ α :=
  if (t.desiredFlowLookupCheckUuid flow u).isSome then t else t.insertLinked flow u asInfo

variable [DecidableEq α]

def addOrAppendFlow (o : HashOrder ℕ) (flow : OvnFlow μ α) (u : ℕ)
    (asInfo : Option AddrsetInfo) : Tables μ α :=
  match t.desiredFlowLookupConjunctive o flow with
  | none => t.insertLinked flow u asInfo
  | some f =>
    let c := t.setDesired f fun x => { x with ofpacts := Core.appendOfpacts x.ofpacts flow.ofpacts }
    -- the flow is shared from now on, and no longer tracked by addresses
    let table := (t.references f).foldl (fun table r =>
      modifyRow (·.sbUuid) (t.sfr r).sbUuid (SbToFlow.dropAs r) table) t.uuidFlowTable
    let t : Tables μ α := { t with toCore := c, uuidFlowTable := table }
    let t := t.linkFlowToSb f u none
    { t with toCore := t.toCore.trackFlowAddOrModify f }

end

/-! ## Removing flows -/

/-- The first loop of `remove_flows_from_sb_to_flow`, with the list `to_be_removed`. -/
def removeRef (flood : Bool) (s : Tables μ α × List ℕ) (r : ℕ) :
    Except Fail (Tables μ α × List ℕ) :=
  let f := (s.1.sfr r).flow
  let t := s.1.unlinkRef r
  if f ∈ t.listNodes then .error .assertion
  else if t.references f = [] then (t.removeFlow f).map fun t => (t, s.2)
  else if flood then .ok ({ t with listNodes := f :: t.listNodes }, s.2 ++ [f])
  else .ok (t, s.2)

/-- `remove_flows_from_sb_to_flow`, up to where the row is gone. -/
def removeRow (flood : Bool) (t : Tables μ α) (stf : SbToFlow) :
    Except Fail (Tables μ α × List ℕ) := do
  let (t, toBeRemoved) ← stf.flows.foldlM (removeRef flood) (t, [])
  if ((t.sbToFlowFind stf.sbUuid).map (·.asRefs)).getD [] ≠ [] then .error .assertion
  else .ok ({ t with uuidFlowTable := dropRow (·.sbUuid) stf.sbUuid t.uuidFlowTable }, toBeRemoved)

/-- The references of a flow leave the lists of their rows. -/
def detachRefs (f : ℕ) : Except Fail (Tables μ α) :=
  if t.references f = [] then .error .assertion
  else .ok { t with uuidFlowTable := (t.references f).foldl (fun table r =>
    modifyRow (·.sbUuid) (t.sfr r).sbUuid (SbToFlow.dropRef r) table) t.uuidFlowTable }

/-- Of a row; with the flows or rows that were met. -/
abbrev Removal (μ α : Type) := Tables μ α × List ℕ → SbToFlow → Except Fail (Tables μ α × List ℕ)

/-- `flood_remove_flows_for_sb_uuid`, with `remove_flows_from_sb_to_flow` for the row. -/
def floodRemoveUuid (remove : Removal μ α) (s : Tables μ α × List ℕ) (u : ℕ) :
    Except Fail (Tables μ α × List ℕ) :=
  match s.1.sbToFlowFind u with
  | none => .ok s
  | some stf => remove s stf

/-- The last loop of `remove_flows_from_sb_to_flow`, for one reference of the flow. -/
def floodRef (remove : Removal μ α) (f : ℕ) (s : Tables μ α × List ℕ) (r : ℕ) :
    Except Fail (Tables μ α × List ℕ) := do
  let u := (s.1.sfr r).sbUuid
  let s ← (if u ∈ s.2 then .ok s else floodRemoveUuid remove (s.1, u :: s.2) u)
  .ok ({ s.1 with references :=
    Function.update s.1.references f ((s.1.references f).filter (· ≠ r)) }, s.2)

/-- The last loop of `remove_flows_from_sb_to_flow`. -/
def floodFlow (remove : Removal μ α) (s : Tables μ α × List ℕ) (f : ℕ) :
    Except Fail (Tables μ α × List ℕ) := do
  let s ← (s.1.references f).foldlM (floodRef remove f) s
  let t ← ({ s.1 with listNodes := s.1.listNodes.filter (· ≠ f) } : Tables μ α).removeFlow f
  .ok (t, s.2)

/-- `remove_flows_from_sb_to_flow` with `flood_remove_nodes`: it calls itself for the rows that
    share flows with the one it removes. -/
def floodRemove : ℕ → Removal μ α
  | 0, _, _ => .error .fuel
  | fuel + 1, s, stf => do
    let (t, toBeRemoved) ← s.1.removeRow true stf
    let t ← toBeRemoved.foldlM detachRefs t
    toBeRemoved.foldlM (floodFlow (floodRemove fuel)) (t, s.2)

def removeFlows (u : ℕ) : Except Fail (Tables μ α) :=
  match t.sbToFlowFind u with
  | none => .ok t
  | some stf => (t.removeRow false stf).map (·.1)

/-- `ofctrl_flood_remove_flows`: every recursion removes a row. -/
def floodRemoveFlows (nodes : List ℕ) : Except Fail (Tables μ α) :=
  (nodes.foldlM (floodRemoveUuid (floodRemove t.uuidFlowTable.length)) (t, nodes)).map (·.1)

/-- The loop of `ofctrl_remove_flows_for_as_ip`. -/
def removeAsRef (r : ℕ) : Except Fail (Tables μ α) :=
  let f := (t.sfr r).flow
  if t.references f ≠ [r] then .error .assertion
  else
    let t := t.unlinkRef r
    if f ∈ t.listNodes then .error .assertion
    else t.removeFlow f

def removeFlowsForAsIp (u : ℕ) (info : AddrsetInfo) (expectedCount : ℕ) :
    Except Fail (Tables μ α × Bool) :=
  match t.sbToFlowFind u with
  | none => .ok (t, true)
  | some stf =>
    match rowOf (·.name) stf.addrsets info.name with
    | none => .ok (t, false)
    | some sar =>
      match rowOf (·.addr) sar.asIpToFlowMap (info.ip, info.mask) with
      | none => .ok (t, false)
      | some itfn => do
        let t ← itfn.flows.foldlM removeAsRef t
        let drop (sar : SbAddrsetRef) : SbAddrsetRef :=
          { sar with asIpToFlowMap := dropRow (·.addr) (info.ip, info.mask) sar.asIpToFlowMap }
        let dropFrom (stf : SbToFlow) : SbToFlow :=
          { stf with addrsets := modifyRow (·.name) info.name drop stf.addrsets }
        .ok ({ t with uuidFlowTable := modifyRow (·.sbUuid) u dropFrom t.uuidFlowTable },
          itfn.flows.length = expectedCount)

/-! ## Clearing -/

/-- The first loop of `ovn_desired_flow_table_clear`. -/
def clearTracked (f : ℕ) : Except Fail (Tables μ α) :=
  let t : Tables μ α := { t with toCore := t.toCore.untrack f }
  if (t.desired f).isDeleted then
    match (t.desired f).installedFlow with
    | none => t.desiredFlowDestroy f
    | some i => do
      let c ← t.toCore.unlinkInstalledToDesired i f
      ({ t with toCore := c } : Tables μ α).desiredFlowDestroy f
  else .ok t

def desiredFlowTableClear : Except Fail (Tables μ α) := do
  let t : Tables μ α := { t with changeTracked := false }
  let t ← t.trackedFlows.foldlM clearTracked t
  (t.uuidFlowTable.map (·.sbUuid)).foldlM removeFlows t

def installedFlowTableClear : Except Fail (Tables μ α) :=
  (t.installedFlows.foldlM (fun (c : Core μ α) i => do
    let c := { c with installedFlows := c.installedFlows.filter (· ≠ i) }
    let c ← c.unlinkAllRefs i
    c.installedFlowDestroy i) t.toCore).map fun c => { t with toCore := c }

/-! ## Installing -/

section
variable [DecidableEq μ] [DecidableEq α]

/-- What `ofctrl_put` does for a table. -/
def put (fits : FlowMod μ α → Bool) (t : Tables μ α) (o : Orders) (changed : Bool) :
    Except Fail (Tables μ α) := do
  let c ← (if !changed then .ok t.toCore
    else if !t.changeTracked then t.toCore.updateInstalledFlowsByCompare fits o
    -- the flows that are destroyed on the way
    else if t.trackedFlows.any fun f => (t.desired f).isDeleted && t.references f ≠ [] then
      .error .assertion
    else t.toCore.updateInstalledFlowsByTrack fits o)
  if c.trackedFlows ≠ [] then .error .assertion
  else .ok { t with toCore := { c with changeTracked := true } }

end

end Tables

/-! ## Runs -/

/-- A call of one of the functions that change the flows of a table. -/
inductive Call (μ α : Type)
  | addFlow (flow : OvnFlow μ α) (u : ℕ) (asInfo : Option AddrsetInfo)
  | addOrAppendFlow (o : HashOrder ℕ) (flow : OvnFlow μ α) (u : ℕ) (asInfo : Option AddrsetInfo)
  | removeFlows (u : ℕ)
  | floodRemoveFlows (nodes : List ℕ)
  | removeFlowsForAsIp (u : ℕ) (info : AddrsetInfo) (expectedCount : ℕ)

inductive Op (μ α : Type)
  | call (c : Call μ α)
  | clear
  /-- `ofctrl_put`, which is told whether the flows have changed. -/
  | put (o : Orders) (changed : Bool)
  | clearInstalled

section
variable {μ α : Type} [DecidableEq μ] [DecidableEq α]

def Call.run (t : Tables μ α) : Call μ α → Except Fail (Tables μ α)
  | .addFlow flow u asInfo => .ok (t.checkAndAddFlowMetered flow u asInfo)
  | .addOrAppendFlow o flow u asInfo => .ok (t.addOrAppendFlow o flow u asInfo)
  | .removeFlows u => t.removeFlows u
  | .floodRemoveFlows nodes => t.floodRemoveFlows nodes
  | .removeFlowsForAsIp u info expectedCount =>
    (t.removeFlowsForAsIp u info expectedCount).map (·.1)

def Op.run (fits : FlowMod μ α → Bool) (t : Tables μ α) : Op μ α → Except Fail (Tables μ α)
  | .call c => c.run t
  | .clear => t.desiredFlowTableClear
  | .put o changed => t.put fits o changed
  | .clearInstalled => t.installedFlowTableClear

/-- No flows. The memory that is not in use holds anything. -/
def Tables.empty (desired : ℕ → DesiredFlow μ α) (installed : ℕ → InstalledFlow μ α)
    (sfr : ℕ → SbFlowRef) : Tables μ α where
  desired := desired
  matchFlowTable := []
  trackedFlows := []
  changeTracked := false
  nextFlow := 0
  installed := installed
  installedFlows := []
  nextInstalled := 0
  msgs := []
  references _ := []
  sfr := sfr
  uuidFlowTable := []
  listNodes := []
  nextSfr := 0

def system (fits : FlowMod μ α → Bool) (desired : ℕ → DesiredFlow μ α)
    (installed : ℕ → InstalledFlow μ α) (sfr : ℕ → SbFlowRef) : System (Tables μ α) (Op μ α) where
  init := .empty desired installed sfr
  next t op := (op.run fits t).toOption

end

end Ovn.FlowTable

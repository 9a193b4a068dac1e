/-
  Desired and installed flows.

  * the desired flows, the tracking of their changes, and the installed flows that they are linked
    to,
  * `ofctrl_put`'s two ways of bringing the installed flows up to date: by what is tracked, and by
    comparing,
  * the flow mods that are sent for it, and what the switch makes of them.

  Flows are known by addresses.  Hash tables are lists, which can be iterated in any order.
-/
import Ovn.Lib.KeyedRows

namespace Ovn.FlowTable

open Function (update)

/-! ## Flows -/

inductive Ofpact (α : Type)
  | conjunction (clause nClauses id : ℕ)
  | other (a : α)
  deriving DecidableEq

/-- What a switch knows a flow by. -/
structure Key (μ : Type) where
  tableId : ℕ
  priority : ℕ
  fields : μ
  deriving DecidableEq

structure OvnFlow (μ α : Type) where
  key : Key μ
  ofpacts : List (Ofpact α)
  cookie : ℕ
  ctrlMeterId : ℕ

/-- `struct desired_flow`, without its references. -/
structure DesiredFlow (μ α : Type) extends OvnFlow μ α where
  installedFlow : Option ℕ
  isDeleted : Bool

structure InstalledFlow (μ α : Type) extends OvnFlow μ α where
  desiredRefs : List ℕ

variable {μ α : Type}

def Ofpact.isConj : Ofpact α → Bool
  | .conjunction .. => true
  | .other _ => false

namespace OvnFlow

def hasDrop (f : OvnFlow μ α) : Bool := f.ofpacts.isEmpty

def hasConj (f : OvnFlow μ α) : Bool := f.ofpacts.any (·.isConj)

def hasAllow (f : OvnFlow μ α) : Bool := !f.hasDrop && !f.hasConj

end OvnFlow

inductive Fail
  | assertion
  | notReached
  | fuel
  deriving DecidableEq

def flowIsPreferred (a b : OvnFlow μ α) : Except Fail Bool :=
  if b.hasAllow then .ok false
  else if a.hasAllow then .ok true
  else if b.hasDrop then .ok false
  else if a.hasDrop then .ok true
  else .error .notReached

/-! ## The switch -/

inductive FlowMod (μ α : Type)
  | add (key : Key μ) (ofpacts : List (Ofpact α)) (cookie : ℕ)
  /-- `OFPFC_MODIFY_STRICT`, which leaves the cookie. -/
  | modifyStrict (key : Key μ) (ofpacts : List (Ofpact α))
  | deleteStrict (key : Key μ)

/-- The flow table of the switch: actions and cookie by key. -/
abbrev Switch (μ α : Type) := Key μ → Option (List (Ofpact α) × ℕ)

def FlowMod.apply [DecidableEq μ] (sw : Switch μ α) : FlowMod μ α → Switch μ α
  | .add key ofpacts cookie => update sw key (some (ofpacts, cookie))
  | .modifyStrict key ofpacts => update sw key ((sw key).map fun old => (ofpacts, old.2))
  | .deleteStrict key => update sw key none

/-! ## The tables -/

/-- The orders of the hash tables that `ofctrl_put` iterates. -/
structure Orders where
  matchFlowTable : HashOrder ℕ
  installedFlows : HashOrder ℕ
  deletedFlows : HashOrder ℕ

/-- The desired flow table without its references, the installed flows, and the flow mods to
    send. -/
structure Core (μ α : Type) where
  desired : ℕ → DesiredFlow μ α
  matchFlowTable : List ℕ
  trackedFlows : List ℕ
  changeTracked : Bool
  nextFlow : ℕ
  installed : ℕ → InstalledFlow μ α
  installedFlows : List ℕ
  nextInstalled : ℕ
  msgs : List (FlowMod μ α)

namespace Core

variable (c : Core μ α)

def setDesired (f : ℕ) (g : DesiredFlow μ α → DesiredFlow μ α) : Core μ α :=
  { c with desired := update c.desired f (g (c.desired f)) }

def setInstalled (i : ℕ) (g : InstalledFlow μ α → InstalledFlow μ α) : Core μ α :=
  { c with installed := update c.installed i (g (c.installed i)) }

/-- `add_flow_mod`: a message that is too long for its header is not sent. -/
def addFlowMod (fits : FlowMod μ α → Bool) (c : Core μ α) (m : FlowMod μ α) : Core μ α :=
  if fits m then { c with msgs := c.msgs ++ [m] } else c

/-! ### Links -/

/-- `installed_flow_get_active`. -/
def active (i : ℕ) : Option ℕ := (c.installed i).desiredRefs.head?

/-- The place of a flow in the list of desired flows: before the first that it is preferred over. -/
def insertPreferred (c : Core μ α) (d : OvnFlow μ α) (f : ℕ) : List ℕ → Except Fail (List ℕ)
  | [] => .ok [f]
  | g :: gs =>
    match flowIsPreferred d (c.desired g).toOvnFlow with
    | .error e => .error e
    | .ok true => .ok (f :: g :: gs)
    | .ok false => (insertPreferred c d f gs).map (g :: ·)

def linkInstalledToDesired (i f : ℕ) : Except Fail (Core μ α) :=
  match c.insertPreferred (c.desired f).toOvnFlow f (c.installed i).desiredRefs with
  | .error e => .error e
  | .ok refs => .ok ((c.setInstalled i fun x => { x with desiredRefs := refs }).setDesired f
      fun x => { x with installedFlow := some i })

def replaceInstalledToDesired (i old new : ℕ) : Except Fail (Core μ α) :=
  if (c.desired old).installedFlow ≠ some i then .error .assertion
  else
    let refs := (c.installed i).desiredRefs.map fun d => if d = old then new else d
    let c := c.setInstalled i fun x => { x with desiredRefs := refs }
    let c := c.setDesired old fun x => { x with installedFlow := none }
    .ok (c.setDesired new fun x => { x with installedFlow := some i })

def unlinkInstalledToDesired (i d : ℕ) : Except Fail (Core μ α) :=
  if (c.desired d).installedFlow ≠ some i then .error .assertion
  else .ok
    ((c.setInstalled i fun x => { x with desiredRefs := x.desiredRefs.filter (· ≠ d) }).setDesired
    d fun x => { x with installedFlow := none })

def unlinkAllRefs (i : ℕ) : Except Fail (Core μ α) :=
  (c.installed i).desiredRefs.foldlM (fun c d => c.unlinkInstalledToDesired i d) c

/-- `desired_flow_destroy`, but for the check of the references. -/
def desiredFlowDestroy (f : ℕ) : Except Fail (Core μ α) :=
  if (c.desired f).installedFlow ≠ none then .error .assertion else .ok c

/-! ### Tracking -/

def untrack (f : ℕ) : Core μ α :=
  { c with trackedFlows := c.trackedFlows.filter (· ≠ f) }

def trackFlowAddOrModify (f : ℕ) : Core μ α :=
  if !c.changeTracked then c
  else
    let c := (c.untrack f).setDesired f fun x => { x with isDeleted := false }
    { c with trackedFlows := c.trackedFlows ++ [f] }

def trackFlowDel (f : ℕ) : Except Fail (Core μ α) :=
  if f ∈ c.trackedFlows ∧ (c.desired f).installedFlow = none then
    -- it is not installed yet
    (c.untrack f).desiredFlowDestroy f
  else
    let c := (c.untrack f).setDesired f fun x => { x with isDeleted := true }
    .ok { c with trackedFlows := c.trackedFlows ++ [f] }

def trackOrDestroyForFlowDel (f : ℕ) : Except Fail (Core μ α) :=
  if c.changeTracked then c.trackFlowDel f
  else
    match (c.desired f).installedFlow with
    | none => c.desiredFlowDestroy f
    | some i => do
      let c ← c.unlinkInstalledToDesired i f
      c.desiredFlowDestroy f

def removeFlow (f : ℕ) : Except Fail (Core μ α) :=
  trackOrDestroyForFlowDel { c with matchFlowTable := c.matchFlowTable.filter (· ≠ f) } f

def insertFlow (flow : OvnFlow μ α) : Core μ α :=
  { c with
    desired := update c.desired c.nextFlow ⟨flow, none, false⟩
    matchFlowTable := c.nextFlow :: c.matchFlowTable
    nextFlow := c.nextFlow + 1 }

section
variable [DecidableEq μ]

/-- `desired_flow_lookup__`, over the table in a given order. -/
def desiredFlowLookup (table : List ℕ) (target : OvnFlow μ α) (matchCb : ℕ → Bool) : Option ℕ :=
  table.find? fun d => (c.desired d).key = target.key &&
    (c.desired d).ctrlMeterId = target.ctrlMeterId && matchCb d

def desiredFlowLookupConjunctive (o : HashOrder ℕ) (target : OvnFlow μ α) : Option ℕ :=
  c.desiredFlowLookup (o.order c.matchFlowTable) target fun d => (c.desired d).hasConj

def installedFlowLookup (target : OvnFlow μ α) : Option ℕ :=
  c.installedFlows.find? fun i => (c.installed i).key = target.key

variable [DecidableEq α]

/-- The actions of `f`, and those of `g` that are not conjunctions of `f`. -/
def appendOfpacts (f g : List (Ofpact α)) : List (Ofpact α) :=
  f ++ g.filter fun a => !a.isConj || a ∉ f

end

/-! ### Installed flows -/

section
variable (fits : FlowMod μ α → Bool) (c : Core μ α)

/-- `installed_flow_add` and `installed_flow_dup`. -/
def installedFlowAdd (d : ℕ) : Core μ α :=
  let flow := (c.desired d).toOvnFlow
  { c.addFlowMod fits (.add flow.key flow.ofpacts flow.cookie) with
    installed := update c.installed c.nextInstalled ⟨flow, []⟩
    installedFlows := c.nextInstalled :: c.installedFlows
    nextInstalled := c.nextInstalled + 1 }

def installedFlowMod (i d : ℕ) : Core μ α :=
  let key := (c.installed i).key
  let flow := (c.desired d).toOvnFlow
  let m : FlowMod μ α := if (c.installed i).cookie ≠ flow.cookie
    then .add key flow.ofpacts flow.cookie else .modifyStrict key flow.ofpacts
  (c.setInstalled i fun x => { x with ofpacts := flow.ofpacts, cookie := flow.cookie }).addFlowMod
    fits m

/-- `installed_flow_del`, and out of the table. -/
def installedFlowDel (i : ℕ) : Core μ α :=
  { c.addFlowMod fits (.deleteStrict (c.installed i).key) with
    installedFlows := c.installedFlows.filter (· ≠ i) }

def installedFlowDestroy (i : ℕ) : Except Fail (Core μ α) :=
  if c.active i ≠ none then .error .assertion else .ok c

/-- The flow is linked, and where it becomes the active one it is installed. -/
def linkConflict (i d : ℕ) : Except Fail (Core μ α) := do
  let c ← c.linkInstalledToDesired i d
  .ok (if c.active i = some d then c.installedFlowMod fits i d else c)

end

section
variable [DecidableEq α]

def sameActions (a b : OvnFlow μ α) : Bool := a.cookie = b.cookie && a.ofpacts = b.ofpacts

variable [DecidableEq μ] (fits : FlowMod μ α → Bool) (c : Core μ α)

/-! ### `update_installed_flows_by_compare` -/

def compareInstalled (table : List ℕ) (c : Core μ α) (i : ℕ) : Except Fail (Core μ α) := do
  let c ← c.unlinkAllRefs i
  match c.desiredFlowLookup table (c.installed i).toOvnFlow fun _ => true with
  | none => (c.installedFlowDel fits i).installedFlowDestroy i
  | some d =>
    let c := if sameActions (c.installed i).toOvnFlow (c.desired d).toOvnFlow then c
      else c.installedFlowMod fits i d
    c.linkInstalledToDesired i d

def compareDesired (d : ℕ) : Except Fail (Core μ α) :=
  match c.installedFlowLookup (c.desired d).toOvnFlow with
  | none => (c.installedFlowAdd fits d).linkInstalledToDesired c.nextInstalled d
  | some i => if (c.desired d).installedFlow = none then c.linkConflict fits i d else .ok c

def updateInstalledFlowsByCompare (o : Orders) : Except Fail (Core μ α) :=
  if c.trackedFlows ≠ [] then .error .assertion
  else do
    let table := o.matchFlowTable.order c.matchFlowTable
    let c ← (o.installedFlows.order c.installedFlows).foldlM (compareInstalled fits table) c
    table.foldlM (compareDesired fits) c

/-! ### `update_installed_flows_by_track` -/

def deletedFlowLookup (c : Core μ α) (target : OvnFlow μ α) : List ℕ → Except Fail (Option ℕ)
  | [] => .ok none
  | d :: ds =>
    if (c.desired d).key = target.key && sameActions (c.desired d).toOvnFlow target then
      match (c.desired d).installedFlow with
      | none => .error .assertion
      | some i =>
        if sameActions (c.installed i).toOvnFlow target then .ok (some d)
        else deletedFlowLookup c target ds
    else deletedFlowLookup c target ds

/-- The loop body of `merge_tracked_flows`, with the deleted flows that were met. -/
def mergeTrackedFlow (o : HashOrder ℕ) (s : Core μ α × List ℕ) (f : ℕ) :
    Except Fail (Core μ α × List ℕ) :=
  let (c, deleted) := s
  if (c.desired f).isDeleted then .ok (c, f :: deleted)
  else do
    match ← c.deletedFlowLookup (c.desired f).toOvnFlow (o.order deleted) with
    | none => .ok (c, deleted)
    | some d =>
      match (c.desired d).installedFlow with
      | none => .error .assertion
      | some i =>
        let c ← (if (c.desired f).installedFlow = none then c.replaceInstalledToDesired i d f
          else if (c.desired f).installedFlow ≠ some i then .error .assertion
          else c.unlinkInstalledToDesired i d)
        let c ← (c.untrack d).desiredFlowDestroy d
        .ok (c.untrack f, deleted.filter (· ≠ d))

/-- The loop body of `update_installed_flows_by_track`. -/
def updateTracked (f : ℕ) : Except Fail (Core μ α) :=
  let c := c.untrack f
  if (c.desired f).isDeleted then
    match (c.desired f).installedFlow with
    | none => c.desiredFlowDestroy f
    | some i => do
      let wasActive := decide (c.active i = some f)
      let c ← c.unlinkInstalledToDesired i f
      let c ← (match c.active i with
        | none => (c.installedFlowDel fits i).installedFlowDestroy i
        | some d => .ok (if wasActive then c.installedFlowMod fits i d else c))
      c.desiredFlowDestroy f
  else
    match c.installedFlowLookup (c.desired f).toOvnFlow with
    | none => (c.installedFlowAdd fits f).linkInstalledToDesired c.nextInstalled f
    | some i =>
      if c.active i = some f then .ok (c.installedFlowMod fits i f)
      else if (c.desired f).installedFlow = none then c.linkConflict fits i f
      else .ok c

def updateInstalledFlowsByTrack (o : Orders) : Except Fail (Core μ α) := do
  let (c, _) ← c.trackedFlows.foldlM (mergeTrackedFlow o.deletedFlows) (c, [])
  c.trackedFlows.foldlM (updateTracked fits) c

end

end Core

end Ovn.FlowTable

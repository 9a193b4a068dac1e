/-
  Incremental processing of logical switch ports in northd.

  * the ports (`struct ovn_port`) with the tables they are in, the tracked sets, and the rows of
    the southbound table Port_Binding,
  * `northd_handle_sb_port_binding_changes` and `northd_handle_ls_changes`, one after the other
    in each iteration of the engine,
  * the tracked ports are alive: what the two handlers leave to
    `lflow_handle_northd_port_changes` and `sync_pbs_for_northd_changed_ovn_ports` names no freed
    port and no deleted row, unless a row was inserted and deleted again in between.
-/
import Ovn.Lib.Ends
import Ovn.Lib.Run
import Mathlib.Order.Lattice.Nat

namespace Ovn.LspTracking

open Function (update)

/-! ## Data -/

/-- `struct ovn_port`; without `nbsp` it is a logical router port. -/
structure Port where
  key : String
  nbsp : Option ℕ
  od : ℕ
  sb : ℕ
  lspCanBeIncProcessed : Bool

/-- `struct northd_data`.  A port is known by its address, a row by its number. -/
structure Northd where
  port : ℕ → Port
  lsPorts : List ℕ
  lrPorts : List ℕ
  lsDatapaths : List ℕ
  odPorts : ℕ → List ℕ
  routerPorts : ℕ → List ℕ
  /-- The tracked ports. -/
  created : Finset ℕ
  updated : Finset ℕ
  deleted : Finset ℕ
  freed : Finset ℕ
  /-- The rows of Port_Binding as last received, and what this transaction does to them. -/
  sbRows : Finset ℕ
  inserted : Finset ℕ
  removed : Finset ℕ
  logicalPort : ℕ → String
  nextPort : ℕ
  nextRow : ℕ

structure TrackedPb where
  row : ℕ
  isNew : Bool
  isDeleted : Bool
  isRouterType : Bool
  additionalChassisUpdated : Bool

/-- A Logical_Switch_Port of a tracked switch, and how the functions that depend on its other
    columns end. -/
structure NbPort where
  row : ℕ
  name : String
  /-- `OVSDB_IDL_CHANGE_MODIFY` of the row, which `ls_port_has_changed` and the loop before it
      test. -/
  modified : Bool
  canBeIncProcessed : Bool
  typeChanged : Bool
  onlyUp : Bool
  /-- `ls_port_init` finds a tunnel key. -/
  initOk : Bool

structure TrackedLs where
  row : ℕ
  isNew : Bool
  isDeleted : Bool
  /-- `ls_changes_can_be_handled`. -/
  changesCanBeHandled : Bool
  portsUpdated : Bool
  ports : List NbPort

structure Input where
  sbRows : Finset ℕ
  logicalPort : ℕ → String
  portBindings : List TrackedPb
  switches : List TrackedLs
  checkLspIsUp : Bool
  svcMonitorLsps : List String

inductive Fail
  /-- It returns false, and everything is computed anew. -/
  | recompute
  /-- A row that is not there is written: ovn-northd aborts. -/
  | aborted
  deriving DecidableEq

namespace Northd

variable (s : Northd)

def Live (r : ℕ) : Prop := (r ∈ s.sbRows ∨ r ∈ s.inserted) ∧ r ∉ s.removed

instance (s : Northd) (r : ℕ) : Decidable (s.Live r) :=
  inferInstanceAs (Decidable ((r ∈ s.sbRows ∨ r ∈ s.inserted) ∧ r ∉ s.removed))

/-! ## `northd_handle_sb_port_binding_changes` -/

/-- `ovn_port_find`. -/
def find (ports : List ℕ) (name : String) : Option ℕ :=
  ports.find? fun a => (s.port a).key = name

def setSb (a r : ℕ) : Northd :=
  { s with port := update s.port a { s.port a with sb := r } }

/-- The port of a tracked row, and whether it is a logical router port. -/
def findPb (pb : TrackedPb) : Option ℕ × Bool :=
  let name := s.logicalPort pb.row
  match (if pb.isRouterType then s.find s.lrPorts name else none) with
  | some op => (some op, true)
  | none =>
    match s.find s.lsPorts name with
    | some op => (some op, false)
    | none => (none, pb.isRouterType)

/-- The loop body of `northd_handle_sb_port_binding_changes`. -/
def handlePb (pb : TrackedPb) : Except Fail Northd :=
  let (op, isRouterPort) := s.findPb pb
  if pb.isNew then
    match op with
    | none => .error .recompute
    | some op => .ok (s.setSb op pb.row)
  else if pb.isDeleted then
    match op with
    | none => .ok s
    | some op => if (s.port op).sb = pb.row then .error .recompute else .ok s
  else
    match op with
    | none => .error .recompute
    | some op =>
      if (s.port op).sb ≠ pb.row then .error .recompute
      else if !isRouterPort && (s.port op).nbsp.isSome && pb.additionalChassisUpdated then
        .ok { s with updated := insert op s.updated }
      else .ok s

/-! ## `northd_handle_ls_changes` -/

/-- `ovn_port_find_in_datapath`. -/
def findInDatapath (od : ℕ) (p : NbPort) : Option ℕ :=
  (s.odPorts od).find? fun a => (s.port a).key = p.name ∧ (s.port a).nbsp = some p.row

/-- `ls_port_create`: the port gets a row of its own. -/
def lsPortCreate (od : ℕ) (p : NbPort) : Northd :=
  { s with
    port := update s.port s.nextPort
      ⟨p.name, some p.row, od, s.nextRow, p.canBeIncProcessed⟩
    lsPorts := s.nextPort :: s.lsPorts
    odPorts := update s.odPorts od (s.nextPort :: s.odPorts od)
    inserted := insert s.nextRow s.inserted
    logicalPort := update s.logicalPort s.nextRow p.name
    nextPort := s.nextPort + 1
    nextRow := s.nextRow + 1 }

/-- `ls_port_reinit`: the port keeps its row. -/
def lsPortReinit (od a : ℕ) (p : NbPort) : Northd :=
  { s with port := update s.port a { s.port a with
      nbsp := some p.row, od := od, lspCanBeIncProcessed := p.canBeIncProcessed } }

/-- The body of the loop over the ports that the switch has now. -/
def handlePort (inp : Input) (od : ℕ) (st : Northd × Finset ℕ) (p : NbPort) :
    Except Fail (Northd × Finset ℕ) :=
  let (s, visited) := st
  match s.findInDatapath od p with
  | none =>
    if !p.canBeIncProcessed || !p.initOk then .error .recompute
    else .ok ({ s.lsPortCreate od p with created := insert s.nextPort s.created },
      insert s.nextPort visited)
  | some a =>
    if p.modified then
      if p.typeChanged || !(s.port a).lspCanBeIncProcessed || !p.canBeIncProcessed then
        .error .recompute
      else if p.name ∈ inp.svcMonitorLsps then .error .recompute
      else if !inp.checkLspIsUp && p.onlyUp then .ok (s, insert a visited)
      else if !p.initOk then .error .recompute
      -- `ovn_port_update_sbrec` writes the row
      else if ¬ s.Live (s.port a).sb then .error .aborted
      else .ok ({ s.lsPortReinit od a p with updated := insert a s.updated }, insert a visited)
    else .ok (s, insert a visited)

/-- The body of the loop over the ports that the switch had. -/
def handleGone (inp : Input) (od : ℕ) (visited : Finset ℕ) (s : Northd) (a : ℕ) :
    Except Fail Northd :=
  if a ∈ visited then .ok s
  else if !(s.port a).lspCanBeIncProcessed then .error .recompute
  else if (s.port a).key ∈ inp.svcMonitorLsps then .error .recompute
  -- `sbrec_port_binding_delete`
  else if ¬ s.Live (s.port a).sb then .error .aborted
  else .ok { s with
      deleted := insert a s.deleted
      updated := s.updated.erase a
      lsPorts := s.lsPorts.filter (· ≠ a)
      odPorts := update s.odPorts od ((s.odPorts od).filter (· ≠ a))
      removed := insert (s.port a).sb s.removed }

def hasOnlyRouterPorts (od : ℕ) : Bool :=
  (s.routerPorts od).length ≠ 0 ∧ (s.routerPorts od).length = (s.odPorts od).length

def handleLspChanges (inp : Input) (s : Northd) (ls : TrackedLs) : Except Fail Northd := do
  if !(ls.portsUpdated || ls.ports.any (·.modified)) then
    .ok s
  else
    let (s₁, visited) ← ls.ports.foldlM (handlePort inp ls.row) (s, ∅)
    let s₂ ← (s₁.odPorts ls.row).foldlM (handleGone inp ls.row visited) s₁
    if s.hasOnlyRouterPorts ls.row ≠ s₂.hasOnlyRouterPorts ls.row then
      .ok { s₂ with updated := s₂.updated ∪ (s₂.routerPorts ls.row).toFinset }
    else .ok s₂

/-- The loop body of `northd_handle_ls_changes`. -/
def handleLs (inp : Input) (s : Northd) (ls : TrackedLs) : Except Fail Northd :=
  if ls.isNew || ls.isDeleted then .error .recompute
  else if ls.row ∉ s.lsDatapaths then .error .recompute
  else if !ls.changesCanBeHandled then .error .recompute
  else s.handleLspChanges inp ls

/-! ## Iterations -/

/-- The last transaction is committed, the tracked sets are cleared
    (`destroy_northd_data_tracked_changes`), and the new rows are received. -/
def refresh (inp : Input) : Northd :=
  { s with
    created := ∅
    updated := ∅
    deleted := ∅
    freed := s.freed ∪ s.deleted
    sbRows := inp.sbRows
    inserted := ∅
    removed := ∅
    logicalPort := inp.logicalPort
    nextRow := max s.nextRow (inp.sbRows.sup (· + 1)) }

/-- An iteration of the engine, as far as the two handlers. -/
def iterate (inp : Input) : Except Fail Northd := do
  let s ← inp.portBindings.foldlM handlePb (s.refresh inp)
  inp.switches.foldlM (handleLs inp) s

/-- `lflow_handle_northd_port_changes`, as far as it uses the ports: none is freed, and none is a
    router port. -/
def lflowHandleNorthdPortChanges : Except Fail Unit :=
  if ∀ a ∈ s.deleted ∪ s.updated ∪ s.created, a ∉ s.freed ∧ (s.port a).nbsp.isSome then .ok ()
  else .error .aborted

/-- `sync_pbs_for_northd_changed_ovn_ports`: `sync_pb_for_lsp` writes `nat_addresses` of the row. -/
def syncPbsForNorthdChangedOvnPorts : Except Fail Unit :=
  if ∀ a ∈ s.created ∪ s.updated, a ∉ s.freed ∧ (s.port a).nbsp.isSome ∧ s.Live (s.port a).sb then
    .ok ()
  else .error .aborted

/-- The iterations that follow a recompute, for as long as the handlers return true. -/
def iterations (s₀ : Northd) : System Northd Input := ⟨s₀, fun s inp => (s.iterate inp).toOption⟩

end Northd

end Ovn.LspTracking

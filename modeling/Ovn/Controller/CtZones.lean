/-
  Conntrack zones of the controller.

  Every local port and the two NAT keys of every local datapath use a zone.  The zones are
  restored from the integration bridge, requested by the datapaths or taken from a bitmap of
  those in use.
-/
import Ovn.Controller.PortBindingChanges
import Ovn.Lib.Bits
import Ovn.Lib.KeyedRows
import Ovn.Lib.Run
import Mathlib.Data.List.AList
import Mathlib.Data.List.Dedup

namespace Ovn.CtZone

abbrev Simap := AList fun _ : String => ℕ

abbrev SimapNode := (_ : String) × ℕ

inductive PendingState
  | ofQueued
  | ofSent
  | dbQueued
  | dbSent
  deriving DecidableEq, Repr

structure PendingEntry where
  state : PendingState
  zone : ℕ
  add : Bool
  deriving DecidableEq, Repr

def maxCtZones : ℕ := 65535

/-- `struct ed_type_ct_zones`.  The bitmap has the positions up to `maxCtZones`; the source does
    not check that a zone is one of them. -/
structure Zones where
  bitmap : ℕ → Bool
  pending : AList fun _ : String => PendingEntry
  current : Simap

/-- `struct sbrec_datapath_binding`: `snatCtZone` is the number in `external_ids:snat-ct-zone`,
    and -1 where there is none. -/
structure Datapath where
  uuid : ℕ
  tunnelKey : ℕ
  name : Option String
  snatCtZone : ℤ
  deriving DecidableEq, Repr

namespace Zones

def addPendingCtZoneEntry (s : Zones) (state : PendingState) (zone : ℕ) (add : Bool)
    (name : String) : Zones :=
  { s with pending := s.pending.insert name ⟨state, zone, add⟩ }

def setBit (s : Zones) (zone : ℕ) (b : Bool) : Zones :=
  { s with bitmap := Function.update s.bitmap zone b }

/-- `alloc_id_to_ct_zone`, which returns the place to go on scanning from. -/
def allocIdToCtZone (s : Zones) (zoneName : String) (scanStart : ℕ) : Zones × ℕ :=
  let zone := Bits.scan (fun z => !s.bitmap z) (maxCtZones + 1 - scanStart) scanStart
  if zone = maxCtZones + 1 then (s, scanStart)
  else
    let s := s.addPendingCtZoneEntry .ofQueued zone true zoneName
    let s := s.setBit zone true
    ({ s with current := s.current.insert zoneName zone }, zone + 1)

end Zones

/-! ## Users and requests -/

def allocNatZoneKey (name type : String) : String := name ++ "_" ++ type

/-- What the node reads of `struct ed_type_runtime_data`. -/
structure Runtime where
  localLports : List String
  localDatapaths : List Datapath

def Datapath.natKeys (d : Datapath) : List String :=
  match d.name with
  | none => []
  | some name => [allocNatZoneKey name "dnat", allocNatZoneKey name "snat"]

def Runtime.allUsers (rt : Runtime) : List String :=
  (rt.localLports ++ rt.localDatapaths.flatMap Datapath.natKeys).dedup

def Runtime.reqSnatZones (rt : Runtime) : Simap :=
  rt.localDatapaths.foldl (fun m d =>
    match d.name with
    | none => m
    | some name =>
      if d.snatCtZone ≥ 0 then m.insert (allocNatZoneKey name "snat") d.snatCtZone.toNat else m) ∅

/-! ## `update_ct_zones` -/

/-- The state of the loops: the node's data, and the zones that nobody requests. -/
structure Update where
  zones : Zones
  unreqMap : ℕ → Bool
  unreq : Simap

/-- The loop that deletes zones without a user. -/
def deleteUnused (users : List String) (req : Simap) (t : Update) (ctZone : SimapNode) : Update :=
  if ctZone.1 ∉ users then
    let s := t.zones.addPendingCtZoneEntry .ofQueued ctZone.2 false ctZone.1
    let s := s.setBit ctZone.2 false
    { t with zones := { s with current := s.current.erase ctZone.1 } }
  else if (req.lookup ctZone.1).isNone then
    { t with
      unreqMap := Function.update t.unreqMap ctZone.2 true
      unreq := t.unreq.insert ctZone.1 ctZone.2 }
  else t

/-- Whoever has the zone without a request gives it up. -/
def giveUp (t : Update) (zone : ℕ) : Update :=
  if t.unreqMap zone then
    let gone := t.unreq.entries.filter fun r => r.2 = zone
    { zones := { t.zones with current := gone.foldl (fun m r => m.erase r.1) t.zones.current }
      unreqMap := Function.update t.unreqMap zone false
      unreq := gone.foldl (fun m r => m.erase r.1) t.unreq }
  else t

def serveRequest (t : Update) (node : SimapNode) : Update :=
  let t := giveUp t node.2
  match t.zones.current.lookup node.1 with
  | some data =>
    let s := if data ≠ node.2 then
        (t.zones.addPendingCtZoneEntry .ofQueued node.2 true node.1).setBit data false
      else t.zones
    let s := s.setBit node.2 true
    { t with zones := { s with current := s.current.insert node.1 node.2 } }
  | none =>
    let s := t.zones.addPendingCtZoneEntry .ofQueued node.2 true node.1
    let s := s.setBit node.2 true
    { t with zones := { s with current := s.current.insert node.1 node.2 } }

def assignZone (p : Zones × ℕ) (user : String) : Zones × ℕ :=
  if (p.1.current.lookup user).isSome then p else p.1.allocIdToCtZone user p.2

/-- The orders of the hash tables that the node iterates. -/
structure Orders where
  pending : HashOrder ((_ : String) × PendingEntry)
  externalIds : HashOrder SimapNode
  reqSnatZones : HashOrder SimapNode
  allUsers : HashOrder String

def updateCtZones (o : Orders) (rt : Runtime) (s : Zones) : Zones :=
  let t := s.current.entries.foldl (deleteUnused rt.allUsers rt.reqSnatZones) ⟨s, fun _ => false, ∅⟩
  let t := (o.reqSnatZones.order rt.reqSnatZones.entries).foldl serveRequest t
  ((o.allUsers.order rt.allUsers).foldl assignZone (t.zones, 1)).1

/-! ## `restore_ct_zones` -/

/-- The datapath bindings, and the uuid that a string starts with (`uuid_from_string_prefix` of
    OVS). -/
structure DpTable where
  rows : List Datapath
  uuidFromStringPrefix : String → Option ℕ

def ctZoneNameFromUuid (dpTable : DpTable) (uuidZone : String) : Option String := do
  let uuid ← dpTable.uuidFromStringPrefix uuidZone
  let dp ← rowOf (·.uuid) dpTable.rows uuid
  let entityName ← dp.name
  return entityName ++ String.ofList (uuidZone.toList.drop 36)

def ctZoneRestore (dpTable : DpTable) (s : Zones) (name : String) (zone : ℕ) : Zones :=
  match ctZoneNameFromUuid dpTable name with
  | some newName =>
    let s := s.addPendingCtZoneEntry .dbQueued zone false name
    let s := s.addPendingCtZoneEntry .dbQueued zone true newName
    { s with current := s.current.insert newName zone }.setBit zone true
  | none => { s with current := s.current.insert name zone }.setBit zone true

/-- `restore_ct_zones`.  `bridge` has the `external_ids` of the integration bridge that start with
    `ct-zone-`, a user and the zone; there is none without the bridge. -/
def restoreCtZones (o : Orders) (dpTable : DpTable) (bridge : Option Simap) (s : Zones) : Zones :=
  let s := { s with bitmap := Function.update (fun _ => false) 0 true }
  let s := (o.pending.order s.pending.entries).foldl (fun s ctpe =>
    if ctpe.2.add then ctZoneRestore dpTable s ctpe.1 ctpe.2.zone else s) s
  match bridge with
  | none => s
  | some ids => (o.externalIds.order ids.entries).foldl (fun s node =>
      if node.1 ∈ s.pending then s
      else ctZoneRestore dpTable s node.1 node.2) s

/-! ## The handlers -/

inductive TrackedType
  | new
  | removed
  | updated
  deriving DecidableEq, Repr

structure TrackedLport where
  logicalPort : String
  type : LportType
  trackedType : TrackedType

structure TrackedDatapath where
  trackedType : TrackedType
  lports : List TrackedLport

/-- Zones are allocated only to these.  A port without a type is a VIF or a container. -/
def TrackedLport.hasZone (t : TrackedLport) : Bool :=
  match t.type with
  | .vif | .container | .localport | .l3gateway | .localnet => true
  | _ => false

/-- One port of `ct_zones_runtime_data_handler`. -/
def handleLport (p : Zones × ℕ) (t : TrackedLport) : Zones × ℕ :=
  if !t.hasZone then p
  else match t.trackedType with
    | .new | .updated =>
      if (p.1.current.lookup t.logicalPort).isNone then p.1.allocIdToCtZone t.logicalPort p.2 else p
    | .removed =>
      match p.1.current.lookup t.logicalPort with
      | some zone =>
        let s := p.1.addPendingCtZoneEntry .ofQueued zone false t.logicalPort
        let s := s.setBit zone false
        ({ s with current := s.current.erase t.logicalPort }, p.2)
      | none => p

/-- The loop of `ct_zones_runtime_data_handler`, which stops at a new datapath. -/
def handleDatapaths : List TrackedDatapath → Zones × ℕ → Bool × Zones
  | [], p => (true, p.1)
  | tdp :: tdps, p =>
    if tdp.trackedType = .new then (false, p.1)
    else handleDatapaths tdps (tdp.lports.foldl handleLport p)

/-- `ct_zones_runtime_data_handler`; there is no list where nothing is tracked. -/
def ctZonesRuntimeDataHandler (tracked : Option (List TrackedDatapath)) (s : Zones) :
    Bool × Zones :=
  match tracked with
  | none => (false, s)
  | some tdps => handleDatapaths tdps (s, 1)

/-- A tracked row of the table of datapath bindings. -/
structure TrackedDp where
  row : Datapath
  isNew : Bool
  isDeleted : Bool

/-- What `ct_zones_datapath_binding_handler` finds about one row. -/
def datapathUnchanged (rt : Runtime) (s : Zones) (t : TrackedDp) : Bool :=
  if !rt.localDatapaths.any (fun d => d.tunnelKey = t.row.tunnelKey) then true
  else if t.isDeleted || t.isNew then false
  else if t.row.snatCtZone = -1 then true
  else match t.row.name with
    | none => true
    | some name =>
      match s.current.lookup (allocNatZoneKey name "snat") with
      | none => false
      | some zone => (zone : ℤ) = t.row.snatCtZone

def ctZonesDatapathBindingHandler (rt : Runtime) (trackedDps : List TrackedDp) (s : Zones) : Bool :=
  trackedDps.all (datapathUnchanged rt s)

/-! ## Runs -/

structure Input where
  rt : Runtime
  dpTable : DpTable
  trackedDps : List TrackedDp
  tracked : Option (List TrackedDatapath)
  /-- An input without a handler has changed. -/
  recompute : Bool
  orders : Orders

def enCtZonesRun (i : Input) (bridge : Option Simap) (s : Zones) : Zones :=
  updateCtZones i.orders i.rt (restoreCtZones i.orders i.dpTable bridge s)

/-- The node, the integration bridge and what the node was last given; `asked` has every request
    there was. -/
structure State where
  zones : Zones
  bridge : Option Simap
  rt : Runtime
  asked : List SimapNode
  ran : Bool

def State.handles (s : State) (i : Input) : Bool :=
  s.ran && !i.recompute && ctZonesDatapathBindingHandler i.rt i.trackedDps s.zones

/-- What the handlers leave, and whether they handled the changes. -/
def State.handled (s : State) (i : Input) : Bool × Zones :=
  if s.handles i then ctZonesRuntimeDataHandler i.tracked s.zones else (false, s.zones)

/-- An iteration of the engine: what is not handled is computed anew. -/
def State.iterate (s : State) (i : Input) : State :=
  { zones := if (s.handled i).1 then (s.handled i).2 else enCtZonesRun i s.bridge (s.handled i).2
    bridge := s.bridge
    rt := i.rt
    asked := s.asked ++ i.rt.reqSnatZones.entries
    ran := true }

/-- A committed entry is in the bridge, or no longer there. -/
def commitEntry (ids : Simap) (e : (_ : String) × PendingEntry) : Simap :=
  if e.2.add then ids.insert e.1 e.2.zone else ids.erase e.1

/-- What `commit_ct_zones` has sent went through: it is in the bridge, and no longer pending. -/
def State.commit (s : State) : State :=
  match s.bridge with
  | none => s
  | some ids =>
    let sent := s.zones.pending.entries.filter fun e => e.2.state = .dbSent
    { s with
      zones := { s.zones with pending := sent.foldl (fun m e => m.erase e.1) s.zones.pending }
      bridge := some (sent.foldl commitEntry ids) }

inductive Op
  | iterate (i : Input)
  /-- The flow controller and `commit_ct_zones` get on with the pending entries. -/
  | advance (f : String → PendingState)
  | commit
  | bridge (ids : Option Simap)

def State.advance (s : State) (f : String → PendingState) : State :=
  let pending := s.zones.pending.entries.foldl (fun m e => m.insert e.1 { e.2 with state := f e.1 })
    s.zones.pending
  { s with zones := { s.zones with pending := pending } }

def Op.run (s : State) : Op → State
  | .iterate i => s.iterate i
  | .advance f => s.advance f
  | .commit => s.commit
  | .bridge ids => { s with bridge := ids }

/-- `en_ct_zones_init`. -/
def State.init (bridge : Option Simap) : State :=
  ⟨⟨fun _ => false, ∅, ∅⟩, bridge, ⟨[], []⟩, [], false⟩

def system (bridge : Option Simap) : System State Op :=
  ⟨State.init bridge, fun s op => some (op.run s)⟩

end Ovn.CtZone

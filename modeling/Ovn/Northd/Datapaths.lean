/-
  Synchronization of the datapaths: a southbound datapath binding for every logical switch and
  every enabled logical router, each with a tunnel key of its own.
-/
import Ovn.Lib.KeyedRows
import Ovn.Util.Tnlid

namespace Ovn.Datapaths

open Function (update)

/-! ## The databases -/

inductive Kind
  | switch
  | router
  deriving DecidableEq, Repr

/-- A logical switch or router: the number in `requested-tnl-key`, 0 if there is none, and whether
    there is an `interconn-ts`, both of `other_config` or of the options. -/
structure NbDatapath where
  kind : Kind
  uuid : ℕ
  requestedTnlKey : ℤ
  interconnTs : Bool
  deriving DecidableEq, Repr

/-- `uint32_t tunnel_key = smap_get_int(other_config, "requested-tnl-key", 0)`. -/
def NbDatapath.requested (d : NbDatapath) : ℕ := Tnlid.toUint32 d.requestedTnlKey

/-- The northbound database: the switches, and the routers with what is said of them being
    enabled.  No two rows have one uuid. -/
structure Nb where
  switches : List NbDatapath
  routers : List (NbDatapath × Bool)
  switch : ∀ d ∈ switches, d.kind = .switch
  router : ∀ d ∈ routers, d.1.kind = .router
  nodup : (switches.map (·.uuid) ++ routers.map (·.1.uuid)).Nodup

/-- The switches and the enabled routers. -/
def Nb.datapaths (nb : Nb) : List NbDatapath :=
  nb.switches ++ (nb.routers.filter (·.2)).map (·.1)

/-- A row is one of before, or inserted for a datapath. -/
inductive RowId
  | old (uuid : ℕ)
  | inserted (dp : ℕ)
  deriving DecidableEq, Repr

/-- A row of the datapath bindings; `dp` is the uuid in `external_ids:logical-switch` or
    `external_ids:logical-router`. -/
structure SbRow where
  id : RowId
  dp : Option ℕ
  tunnelKey : ℕ
  deriving DecidableEq, Repr

structure Sb where
  rows : List SbRow
  old : ∀ r ∈ rows, ∃ u, r.id = .old u
  nodup : (rows.map (·.id)).Nodup

inductive Encap
  | geneve
  | stt
  | vxlan
  deriving DecidableEq, Repr

/-- `is_vxlan_mode`; a chassis is the list of its encapsulations. -/
def isVxlanMode (chassis : List (List Encap)) : Bool := chassis.any fun c => c.contains .vxlan

/-- `OVN_MAX_DP_KEY`, `OVN_MAX_DP_GLOBAL_NUM`, `OVN_MAX_DP_VXLAN_KEY`, `OVN_MIN_DP_KEY_LOCAL`. -/
def maxDpKey : ℕ := 2 ^ 24 - 1
def maxDpGlobalNum : ℕ := 2 ^ 16 - 1
def maxDpVxlanKey : ℕ := 2 ^ 12 - 1
def minDpKeyLocal : ℕ := 1

def getOvnMaxDpKeyLocal (vxlan : Bool) : ℕ :=
  if vxlan then maxDpVxlanKey else maxDpKey - maxDpGlobalNum

/-! ## The datapaths -/

/-- The datapaths are known by their uuids.  `nb`, `sbRow` and `tunnelKey` are the fields of
    `struct ovn_datapath` (`nb` is `nbs` or `nbr`), the lists are the hash table, the private lists
    of `build_datapaths` and `lr_list`. -/
structure State where
  nb : ℕ → Option NbDatapath
  sbRow : ℕ → Option SbRow
  tunnelKey : ℕ → ℕ
  datapaths : List ℕ
  sbOnly : List ℕ
  nbOnly : List ℕ
  both : List ℕ
  lrList : List ℕ
  tnlids : Finset ℕ
  hint : ℕ
  sb : List SbRow

namespace State

variable (s : State)

def sbDelete (id : RowId) : State := { s with sb := dropRow (·.id) id s.sb }

/-- `ovs_list_remove(&od->list)`. -/
def listRemove (od : ℕ) : State :=
  { s with
    sbOnly := s.sbOnly.filter (· ≠ od)
    nbOnly := s.nbOnly.filter (· ≠ od)
    both := s.both.filter (· ≠ od) }

/-- `ovn_datapath_destroy`, which leaves the lists alone. -/
def ovnDatapathDestroy (od : ℕ) : State :=
  { s with datapaths := s.datapaths.filter (· ≠ od) }

def ovnDatapathCreate (key : ℕ) (nb : Option NbDatapath) (sb : Option SbRow) : State :=
  { s with
    nb := update s.nb key nb
    sbRow := update s.sbRow key sb
    tunnelKey := update s.tunnelKey key 0
    datapaths := key :: s.datapaths }

/-! ## `join_datapaths` -/

def joinRow (row : SbRow) : State :=
  match row.dp with
  | none => s.sbDelete row.id
  | some key =>
    if key ∈ s.datapaths then s.sbDelete row.id
    else
      let s := s.ovnDatapathCreate key none (some row)
      { s with sbOnly := s.sbOnly ++ [key] }

/-- A northbound row has a datapath already, which moves to `both`, or gets one. -/
def joinNb (d : NbDatapath) : State :=
  if d.uuid ∈ s.datapaths then
    let s := { s with nb := update s.nb d.uuid (some d) }.listRemove d.uuid
    { s with both := s.both ++ [d.uuid] }
  else
    let s := s.ovnDatapathCreate d.uuid (some d) none
    { s with nbOnly := s.nbOnly ++ [d.uuid] }

def joinRouter (d : NbDatapath × Bool) : State :=
  if !d.2 then s
  -- a switch has the uuid, which can't happen
  else if d.1.uuid ∈ s.datapaths ∧ (s.nb d.1.uuid).any (·.kind = .switch) then s
  else
    let s := s.joinNb d.1
    { s with lrList := s.lrList ++ [d.1.uuid] }

def joinDatapaths (nb : Nb) (sb : Sb) (s : State) : State :=
  let s := sb.rows.foldl joinRow s
  let s := nb.switches.foldl joinNb s
  nb.routers.foldl joinRouter s

/-! ## `build_datapaths` -/

def assignRequestedTnlId (vxlan : Bool) (s : State) (od : ℕ) : State :=
  match s.nb od with
  | none => s
  | some d =>
    if d.requested = 0 then s
    else if !d.interconnTs && vxlan && d.requested ≥ 2 ^ 12 then s
    else if d.requested ∈ s.tnlids then s
    else { s with
      tnlids := insert d.requested s.tnlids
      tunnelKey := update s.tunnelKey od d.requested }

/-- The loop that keeps keys that are assigned already. -/
def keepTnlId (od : ℕ) : State :=
  match s.sbRow od with
  | none => s
  | some row =>
    if s.tunnelKey od = 0 ∧ row.tunnelKey ∉ s.tnlids then
      { s with
        tnlids := insert row.tunnelKey s.tnlids
        tunnelKey := update s.tunnelKey od row.tunnelKey }
    else s

/-- The loop of `ovn_allocate_tnlid` ends in time (`Tnlid.ovnAllocateTnlid_spec`). -/
def ovnDatapathAllocateKey (max : ℕ) (s : State) (od : ℕ) : State :=
  if s.tunnelKey od = 0 then
    match Tnlid.ovnAllocateTnlid (max + 1) s.tnlids minDpKeyLocal max s.hint with
    | none => s
    | some ⟨tnlids, key, hint⟩ =>
      let s := { s with
        tnlids := tnlids
        hint := hint
        tunnelKey := update s.tunnelKey od key }
      if key ≠ 0 then s
      else
        let s := match s.sbRow od with
          | some row => s.sbDelete row.id
          | none => s
        (s.listRemove od).ovnDatapathDestroy od
  else s

/-- `sbrec_datapath_binding_set_tunnel_key` and `ovn_datapath_update_external_ids` for a row that
    was there. -/
def syncRow (od : ℕ) : State :=
  match s.sbRow od with
  | none => s
  | some row =>
    { s with
      sb := modifyRow (·.id) row.id (fun r => { r with dp := some od, tunnelKey := s.tunnelKey od })
        s.sb }

/-- The row of a datapath that has none is inserted. -/
def insertRow (od : ℕ) : State :=
  { s with sb := s.sb ++ [⟨.inserted od, some od, s.tunnelKey od⟩] }

/-- A southbound row without a northbound one is deleted. -/
def deleteSbOnly (od : ℕ) : State :=
  let s := s.listRemove od
  let s := match s.sbRow od with
    | some row => s.sbDelete row.id
    | none => s
  s.ovnDatapathDestroy od

def start (sb : Sb) : State :=
  ⟨fun _ => none, fun _ => none, fun _ => 0, [], [], [], [], [], ∅, 0, sb.rows⟩

/-- The first part of `build_datapaths`: requested keys, then existing ones that are still free. -/
def assignKeys (nb : Nb) (sb : Sb) (vxlan : Bool) : State :=
  let s := joinDatapaths nb sb (start sb)
  let s := s.both.foldl (assignRequestedTnlId vxlan) s
  let s := s.nbOnly.foldl (assignRequestedTnlId vxlan) s
  s.both.foldl keepTnlId s

/-- The second part: new keys where needed. -/
def allocateKeys (max : ℕ) (s : State) : State :=
  let s := s.both.foldl (ovnDatapathAllocateKey max) s
  s.nbOnly.foldl (ovnDatapathAllocateKey max) s

/-- `build_datapaths`, up to the hash tables of the switches and the routers. -/
def buildDatapaths (nb : Nb) (sb : Sb) (chassis : List (List Encap)) : State :=
  let vxlan := isVxlanMode chassis
  let s := allocateKeys (getOvnMaxDpKeyLocal vxlan) (assignKeys nb sb vxlan)
  let s := s.both.foldl syncRow s
  let s := s.nbOnly.foldl insertRow s
  s.sbOnly.foldl deleteSbOnly s

/-- The datapaths of routers move to `lr_datapaths`, all others stay. -/
def lrDatapaths : List ℕ :=
  s.datapaths.filter fun od => (s.nb od).any (·.kind = .router)

def lsDatapaths : List ℕ :=
  s.datapaths.filter fun od => !(s.nb od).any (·.kind = .router)

end State

end Ovn.Datapaths

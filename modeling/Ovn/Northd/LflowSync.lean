/-
  Synchronization of the logical flow table with the southbound database.

  A southbound row of a flow names one datapath or a datapath group.  Groups are shared between
  flows with the same datapaths; one that is in the database already is taken over or rewritten.
-/
import Ovn.Lib.KeyedRows
import Mathlib.Data.Finset.Card

namespace Ovn.LflowSync

/-! ## Flows and datapaths -/

inductive DpType
  | switch
  | router
  deriving DecidableEq, Repr

inductive Pipeline
  | ingress
  | egress
  deriving DecidableEq, Repr

/-- What a southbound row says of its flow.  A stage is this with the type of its datapaths. -/
structure FlowSpec where
  pipeline : Pipeline
  tableId : ℕ
  priority : ℕ
  matchExpr : String
  actions : String
  controllerMeter : Option String
  deriving DecidableEq, Repr

/-- `struct ovn_lflow`, with its datapaths by their indices. -/
structure Lflow where
  dpType : DpType
  spec : FlowSpec
  dpgBitmap : Finset ℕ
  deriving DecidableEq

/-- `ls_datapaths` and `lr_datapaths`.  `sb` is the datapath binding of the datapath with an index,
    `fromSbrec` is `ovn_datapath_from_sbrec` without the stale ones: a datapath is found by its own
    binding. -/
structure Datapaths where
  size : DpType → ℕ
  sb : DpType → ℕ → ℕ
  fromSbrec : ℕ → Option (DpType × ℕ)
  fromSbrec_iff : ∀ u t i, fromSbrec u = some (t, i) ↔ i < size t ∧ sb t i = u

/-- A logical flow table that was just built: the flows are known by what they say, and the bits
    are those of datapaths. -/
structure Table (dps : Datapaths) where
  entries : List Lflow
  nodup : (entries.map fun f => (f.dpType, f.spec)).Nodup
  lt_size : ∀ f ∈ entries, ∀ i ∈ f.dpgBitmap, i < dps.size f.dpType

structure SbFlow where
  spec : FlowSpec
  logicalDatapath : Option ℕ
  logicalDpGroup : Option ℕ
  deriving DecidableEq, Repr

/-- The southbound database: the rows of flows in the order they are visited, and the datapaths of
    each row of `Logical_DP_Group`, which are a set.  A group that is referred to is there, and
    the row of a flow has one datapath or a group, not both. -/
structure Sb where
  flows : List SbFlow
  groups : ℕ → Option (List ℕ)
  nodup : ∀ u l, groups u = some l → l.Nodup
  refs : ∀ r ∈ flows, ∀ u, r.logicalDpGroup = some u → (groups u).isSome
  either : ∀ r ∈ flows, r.logicalDpGroup = none ∨ r.logicalDatapath = none
  /-- No row has a uuid from here on. -/
  next : ℕ
  fresh : ∀ u, next ≤ u → groups u = none

/-! ## Synchronization -/

/-- `struct ovn_dp_group`.  Nothing is released while a new table is synchronized, so that the
    references are not counted. -/
structure DpGroup where
  bitmap : Finset ℕ
  dpgUuid : ℕ
  deriving DecidableEq

/-- The flows that are left, the rows of those that are done, the groups in the database, the known
    groups of each type, and the next uuid. -/
structure Sync where
  lflows : List Lflow
  rows : List SbFlow
  groups : ℕ → Option (List ℕ)
  dpGroups : DpType → List DpGroup
  next : ℕ

inductive Failure
  /-- `ovs_assert` fails. -/
  | assertion
  /-- A bit is set beyond the memory of a bitmap. -/
  | outOfBounds
  deriving DecidableEq, Repr

/-- `BITMAP_FOR_EACH_1`: the bindings of the datapaths that are set. -/
def Datapaths.bindings (dps : Datapaths) (t : DpType) (bitmap : Finset ℕ) : List ℕ :=
  ((List.range (dps.size t)).filter (· ∈ bitmap)).map (dps.sb t)

namespace Sync

variable (dps : Datapaths) (s : Sync)

/-- `ovn_dp_group_find`; the hash is that of a number of datapaths, which it tells apart. -/
def ovnDpGroupFind (t : DpType) (bitmap : Finset ℕ) (n : ℕ) : Option DpGroup :=
  (s.dpGroups t).find? fun g => g.bitmap.card = n ∧ g.bitmap = bitmap

def ovnDpGroupGet (t : DpType) (bitmap : Finset ℕ) : Option DpGroup :=
  s.ovnDpGroupFind t bitmap bitmap.card

/-- `ovn_sb_insert_or_update_logical_dp_group`. -/
def insertOrUpdate (group : Option ℕ) (t : DpType) (bitmap : Finset ℕ) : Sync × ℕ :=
  match group with
  | some u => ({ s with groups := Function.update s.groups u (some (dps.bindings t bitmap)) }, u)
  | none =>
    ({ s with
      groups := Function.update s.groups s.next (some (dps.bindings t bitmap))
      next := s.next + 1 }, s.next)

/-- The bits that `bitmap_allocate` makes room for: a word has 64. -/
def bitmapRoom (n : ℕ) : ℕ := (n + 63) / 64 * 64

/-- The loop of `ovn_dp_group_create` that sets the bits of the datapaths of a group, whatever their
    types are, in a bitmap for those of a type.  It ends at a datapath that is not found. -/
def groupDatapaths (t : DpType) : List ℕ → Except Failure (Option (List (DpType × ℕ)))
  | [] => .ok (some [])
  | u :: us =>
    match dps.fromSbrec u with
    | none => .ok none
    | some od =>
      if od.2 < bitmapRoom (dps.size t) then do
        let ods ← groupDatapaths t us
        .ok (ods.map (od :: ·))
      else .error .outOfBounds

/-- The bitmap as far as it is compared with others. -/
def groupBitmap (t : DpType) (ods : List (DpType × ℕ)) : Finset ℕ :=
  (ods.map (·.2)).toFinset.filter (· < dps.size t)

/-- What `ovn_dp_group_create` does with the group of the row. -/
inductive Reuse
  | keep (uuid : ℕ)
  | modify (uuid : ℕ)
  | insert
  deriving DecidableEq, Repr

def reuse (t : DpType) (sbGroup : Option ℕ) (desired : Finset ℕ) : Except Failure Reuse :=
  match sbGroup.bind fun u => (s.groups u).map fun l => (u, l) with
  | none => .ok .insert
  | some (u, l) => do
    match ← groupDatapaths dps t l with
    | none => .ok (.modify u)
    | some ods =>
      .ok (if groupBitmap dps t ods = desired then .keep u
        else if (s.ovnDpGroupFind t (groupBitmap dps t ods) ods.length).isSome then .insert
        else .modify u)

/-- `ovn_dp_group_create`, with the uuid of the group. -/
def ovnDpGroupCreate (t : DpType) (sbGroup : Option ℕ) (desired : Finset ℕ) :
    Except Failure (Sync × ℕ) := do
  let (s, u) := match ← s.reuse dps t sbGroup desired with
    | .keep u => (s, u)
    | .modify u => s.insertOrUpdate dps (some u) t desired
    | .insert => s.insertOrUpdate dps none t desired
  .ok ({ s with dpGroups := Function.update s.dpGroups t (⟨desired, u⟩ :: s.dpGroups t) }, u)

/-- `sync_lflow_to_sb`, with the row of the flow if there is one. -/
def syncLflowToSb (f : Lflow) (sbflow : Option SbFlow) : Except Failure Sync :=
  let sbGroup := sbflow.bind (·.logicalDpGroup)
  if f.dpgBitmap.card = 0 then .error .assertion
  else if f.dpgBitmap.card = 1 then
    .ok { s with rows := s.rows ++ [⟨f.spec, (dps.bindings f.dpType f.dpgBitmap).head?, none⟩] }
  else
    match s.ovnDpGroupGet f.dpType f.dpgBitmap with
    | some g =>
      match s.groups g.dpgUuid with
      -- false is returned, and the row keeps its group
      | none => .ok { s with rows := s.rows ++ [⟨f.spec, none, sbGroup⟩] }
      | some _ => .ok { s with rows := s.rows ++ [⟨f.spec, none, some g.dpgUuid⟩] }
    | none => do
      let (s, u) ← s.ovnDpGroupCreate dps f.dpType sbGroup f.dpgBitmap
      .ok { s with rows := s.rows ++ [⟨f.spec, none, some u⟩] }

/-- The type of the first valid datapath of a row: one of its group, if that has any datapath. -/
def rowType (groups : ℕ → Option (List ℕ)) (sbflow : SbFlow) : Option DpType :=
  match sbflow.logicalDpGroup.bind groups with
  | some (u :: us) => ((u :: us).findSome? dps.fromSbrec).map (·.1)
  | _ => (sbflow.logicalDatapath.bind dps.fromSbrec).map (·.1)

/-- `ovn_lflow_find` for a row. -/
def ovnLflowFind (sbflow : SbFlow) : Option Lflow :=
  (rowType dps s.groups sbflow).bind fun t => s.lflows.find? fun f => f.dpType = t ∧
  f.spec = sbflow.spec

/-- The loop over the rows: a row without a flow is deleted. -/
def syncRow (sbflow : SbFlow) : Except Failure Sync :=
  match s.ovnLflowFind dps sbflow with
  | none => .ok s
  | some f => do
    let s ← s.syncLflowToSb dps f (some sbflow)
    .ok { s with lflows := s.lflows.erase f }

def syncNew (f : Lflow) : Except Failure Sync := do
  let s ← s.syncLflowToSb dps f none
  .ok { s with lflows := s.lflows.erase f }

end Sync

def start {dps : Datapaths} (table : Table dps) (sb : Sb) : Sync :=
  ⟨table.entries, [], sb.groups, fun _ => [], sb.next⟩

def lflowTableSyncToSb {dps : Datapaths} (table : Table dps) (o : HashOrder Lflow) (sb : Sb) :
    Except Failure Sync := do
  let s ← sb.flows.foldlM (Sync.syncRow dps) (start table sb)
  (o.order s.lflows).foldlM (Sync.syncNew dps) s

end Ovn.LflowSync

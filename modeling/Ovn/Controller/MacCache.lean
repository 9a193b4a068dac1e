/-
  The MAC cache of ovn-controller (the mac_cache node of controller/ovn-controller.c and
  controller/mac-cache.c).

  It holds a threshold for each local datapath with an aging threshold, and the MAC bindings and FDB
  entries of those datapaths.  It is built in full by `enMacCacheRun`, and kept by the handlers of
  the node as southbound rows and the set of local datapaths change.
-/
import Mathlib.Data.Finset.Sum
import Ovn.Lib.RowCache
import Ovn.Lib.Run

namespace Ovn.MacCache

open RowCache

/-! ## The southbound content -/

/-- A Datapath_Binding row, with the `mac_binding_age_threshold` and `fdb_age_threshold` of its
    external-ids. -/
structure Datapath where
  uuid : ℕ
  tunnelKey : ℕ
  mbAge : ℕ
  fdbAge : ℕ
deriving DecidableEq

/-- A MAC_Binding row; its datapath is given by its uuid. -/
structure MacBinding where
  uuid : ℕ
  datapath : ℕ
  ip : String
  mac : String
deriving DecidableEq

structure Fdb where
  uuid : ℕ
  dpKey : ℕ
  mac : String
  portKey : ℕ
deriving DecidableEq

/-- The southbound tables: uuids and tunnel keys are unique, and a MAC binding has a datapath. -/
structure Sb where
  datapaths : List Datapath
  macBindings : List MacBinding
  fdbs : List Fdb
  nodup_datapaths : (datapaths.map Datapath.uuid).Nodup
  nodup_keys : (datapaths.map Datapath.tunnelKey).Nodup
  nodup_macBindings : (macBindings.map MacBinding.uuid).Nodup
  nodup_fdbs : (fdbs.map Fdb.uuid).Nodup
  refs : ∀ r ∈ macBindings, r.datapath ∈ datapaths.map Datapath.uuid

def keyOf (dps : List Datapath) (u : ℕ) : Option ℕ :=
  (rowOf Datapath.uuid dps u).map Datapath.tunnelKey

/-! ## Thresholds -/

structure Threshold where
  value : ℕ
  dumpPeriod : ℕ
  cooldownPeriod : ℕ
deriving DecidableEq

/-- A datapath with both ages set has an invalid configuration. -/
def thresholdGetValueMs (d : Datapath) : ℕ :=
  if d.mbAge ≠ 0 ∧ d.fdbAge ≠ 0 then 0
  else if d.mbAge ≠ 0 then d.mbAge * 1000 else d.fdbAge * 1000

def threshold (d : Datapath) : Option Threshold :=
  let value := thresholdGetValueMs d
  if value = 0 then none else some ⟨value, 3 * value / 16, 3 * value / 16⟩

theorem threshold_assert {d : Datapath} {t : Threshold} (h : threshold d = some t) :
    2 * (t.cooldownPeriod + t.dumpPeriod) < 9 * t.value / 10 := by
  have hv : ∃ n, thresholdGetValueMs d = n * 1000 := by
    unfold thresholdGetValueMs
    split
    · exact ⟨0, rfl⟩
    · split
      · exact ⟨_, rfl⟩
      · exact ⟨_, rfl⟩
  unfold threshold at h
  dsimp only at h
  split at h
  · cases h
  · cases h
    show 2 * (3 * thresholdGetValueMs d / 16 + 3 * thresholdGetValueMs d / 16) <
      9 * thresholdGetValueMs d / 10
    omega

abbrev Thresholds := ℕ → Option Threshold

def thresholdAdd (ths : Thresholds) (d : Datapath) : Thresholds :=
  if (ths d.tunnelKey).isSome then ths
  else
    match threshold d with
    | none => ths
    | some t => Function.update ths d.tunnelKey (some t)

def thresholdReplace (loc : Finset ℕ) (ths : Thresholds) (d : Datapath) : Thresholds :=
  let ths := Function.update ths d.tunnelKey none
  if d.tunnelKey ∈ loc then thresholdAdd ths d else ths

/-- Removes the thresholds of datapaths that are not local. -/
def thresholdsSync (loc : Finset ℕ) (ths : Thresholds) : Thresholds :=
  fun k => if k ∈ loc then ths k else none

/-! ## Cached rows -/

/-- `ip46_parse` and `eth_addr_from_string`. -/
structure Parser where
  ip46Parse : String → Option ℕ
  ethAddrFromString : String → Option ℕ

/-- What `mac_binding_data_equals` compares; the port key is 0. -/
structure MbKey where
  cookie : ℕ
  dpKey : ℕ
  ip : ℕ
deriving DecidableEq

/-- What else a cached MAC binding has: the MAC, and its row. -/
structure MbValue where
  mac : ℕ
  sbrec : ℕ
deriving DecidableEq

/-- What `fdb_data_equals` compares. -/
structure FdbKey where
  dpKey : ℕ
  mac : ℕ
deriving DecidableEq

structure FdbValue where
  portKey : ℕ
  sbrec : ℕ
deriving DecidableEq

/-- `mac_binding_data_from_sbrec`: the cookie is the first part of the uuid. -/
def Parser.mbEntry (pr : Parser) (dpKey : ℕ → Option ℕ) (r : MacBinding) :
    Option (MbKey × MbValue) := do
  let key ← dpKey r.datapath
  let ip ← pr.ip46Parse r.ip
  let mac ← pr.ethAddrFromString r.mac
  return (⟨r.uuid / 2 ^ 96, key, ip⟩, ⟨mac, r.uuid⟩)

def Parser.fdbEntry (pr : Parser) (r : Fdb) : Option (FdbKey × FdbValue) := do
  let mac ← pr.ethAddrFromString r.mac
  return (⟨r.dpKey, mac⟩, ⟨r.portKey, r.uuid⟩)

structure Cache where
  thresholds : Thresholds
  macBindings : MbKey → Option MbValue
  fdbs : FdbKey → Option FdbValue

def Cache.empty : Cache := ⟨fun _ => none, fun _ => none, fun _ => none⟩

def hasThreshold (ths : Thresholds) (d : Datapath) : Bool := (ths d.tunnelKey).isSome

section
variable (pr : Parser) (dpKey : ℕ → Option ℕ) (sb : Sb) (c : Cache)

def mbGroup (ths : Thresholds) (d : Datapath) : Bool × List MacBinding :=
  (hasThreshold ths d, sb.macBindings.filter fun r => r.datapath = d.uuid)

def fdbGroup (ths : Thresholds) (d : Datapath) : Bool × List Fdb :=
  (hasThreshold ths d, sb.fdbs.filter fun r => r.dpKey = d.tunnelKey)

def mbHandleForDatapath (d : Datapath) : Cache :=
  { c with macBindings := handle (pr.mbEntry dpKey) c.macBindings (mbGroup sb c.thresholds d) }

def fdbHandleForDatapath (d : Datapath) : Cache :=
  { c with fdbs := handle pr.fdbEntry c.fdbs (fdbGroup sb c.thresholds d) }

def handleForDatapath (d : Datapath) : Cache :=
  fdbHandleForDatapath pr sb (mbHandleForDatapath pr dpKey sb c d) d

end

def enMacCacheRun (pr : Parser) (sb : Sb) (loc : Finset ℕ) : Cache :=
  sb.datapaths.foldl (fun c d =>
    if d.tunnelKey ∈ loc then
      handleForDatapath pr (keyOf sb.datapaths) sb
        { c with thresholds := thresholdAdd c.thresholds d } d
    else c) .empty

/-! ## Changes -/

/-- What the runtime data tracks of a datapath. -/
inductive TrackedType
  | new | removed | updated
deriving DecidableEq

structure TrackedDatapath where
  dp : Datapath
  trackedType : TrackedType

/-- A tracked row.  `updated` says whether the columns were updated that the handler of its table
    asks for: any other than the timestamp for MAC bindings and FDB rows, the tunnel key for
    datapaths. -/
structure Tracked (ρ : Type) extends TrackedRow ρ where
  updated : Bool

/-- What changed since the last run of the node.  The runtime data may be not tracked. -/
structure Change where
  sb : Sb
  localDatapaths : Finset ℕ
  runtime : Option (List TrackedDatapath)
  macBindings : List (Tracked MacBinding)
  fdbs : List (Tracked Fdb)
  datapaths : List (Tracked Datapath)

/-- Tracked rows refer to datapaths that may be deleted. -/
def Change.dpKey (ch : Change) (u : ℕ) : Option ℕ :=
  keyOf (ch.sb.datapaths ++ ch.datapaths.map fun t => t.row) u

/-- `sb_mac_binding_updated` and `sb_fdb_updated`: timestamps do not matter. -/
def Tracked.isUpdated {ρ : Type} (t : Tracked ρ) : Bool := t.updated || t.isDeleted

def updatedRows {ρ : Type} (ts : List (Tracked ρ)) : List (TrackedRow ρ) :=
  (ts.filter Tracked.isUpdated).map Tracked.toTrackedRow

/-- A MAC binding is added if its datapath is local and has a threshold. -/
def mbWanted (dpKey : ℕ → Option ℕ) (loc : Finset ℕ) (ths : Thresholds) (r : MacBinding) : Bool :=
  (dpKey r.datapath).any fun k => k ∈ loc && (ths k).isSome

def fdbWanted (loc : Finset ℕ) (ths : Thresholds) (r : Fdb) : Bool :=
  r.dpKey ∈ loc && (ths r.dpKey).isSome

section
variable (pr : Parser) (ch : Change) (c : Cache)

/-- Without tracked data the node is recomputed. -/
def runtimeDataHandler : Option Cache := do
  let tdps ← ch.runtime
  let ths := (tdps.filter fun t => t.trackedType ≠ .updated).foldl
    (fun ths t => thresholdReplace ch.localDatapaths ths t.dp) c.thresholds
  return tdps.foldl (fun c t => handleForDatapath pr ch.dpKey ch.sb c t.dp)
    { c with thresholds := ths }

def sbMacBindingHandler : Cache :=
  let wanted := mbWanted ch.dpKey ch.localDatapaths c.thresholds
  { c with
    macBindings :=
      (updatedRows ch.macBindings).foldl (track (pr.mbEntry ch.dpKey) wanted) c.macBindings }

def sbFdbHandler : Cache :=
  let wanted := fdbWanted ch.localDatapaths c.thresholds
  { c with fdbs := (updatedRows ch.fdbs).foldl (track pr.fdbEntry wanted) c.fdbs }

/-- A tunnel key of a row that is not new was updated. -/
def syncNeeded : Bool := ch.datapaths.any fun t => !t.isNew && t.updated

def sbDatapathBindingHandler : Cache :=
  let ths := ch.datapaths.foldl (fun ths t => thresholdReplace ch.localDatapaths ths t.row)
    c.thresholds
  let ths := if syncNeeded ch then thresholdsSync ch.localDatapaths ths else ths
  ch.datapaths.foldl (fun c t => handleForDatapath pr ch.dpKey ch.sb c t.row)
    { c with thresholds := ths }

/-- The handlers of the node, in the order of its inputs.  The handler of port bindings does
    nothing. -/
def handlers : Option Cache := do
  let c ← runtimeDataHandler pr ch c
  return sbDatapathBindingHandler pr ch (sbFdbHandler pr ch (sbMacBindingHandler pr ch c))

end

/-! ## Runs -/

structure State where
  sb : Sb
  localDatapaths : Finset ℕ
  cache : Cache

def step (pr : Parser) (s : State) (ch : Change) : State :=
  ⟨ch.sb, ch.localDatapaths,
    (handlers pr ch s.cache).getD (enMacCacheRun pr ch.sb ch.localDatapaths)⟩

/-- The node as it is built first, and the changes it is given. -/
def system (pr : Parser) (sb : Sb) (loc : Finset ℕ) : System State Change where
  init := ⟨sb, loc, enMacCacheRun pr sb loc⟩
  next s ch := some (step pr s ch)

/-! ## Statistics -/

section
variable {κ β : Type} (find : κ → Option β) (dpKey : κ → ℕ) (sbrec : β → ℕ) (ths : Thresholds)
    (now : ℕ)
  (timestamp : ℕ → ℕ)

/-- The statistics of an entry: the timestamp of its row is set if it is active and was not set
    within the cooldown period.  The entry must be cached, and its threshold is read without a
    check. -/
def statsStep (out : List ℕ) (stats : κ × ℕ) : Except κ (List ℕ) :=
  match find stats.1 with
  | none => .ok out
  | some e =>
    match ths (dpKey stats.1) with
    | none => .error stats.1
    | some t =>
      if stats.2 < t.value ∧ (now + 2 ^ 64 - timestamp (sbrec e)) % 2 ^ 64 ≥ t.cooldownPeriod then
        .ok (out ++ [sbrec e])
      else .ok out

/-- The rows whose timestamps are set, from entries with their idle ages; an error is a threshold
    that is not there. -/
def statsRun (stats : List (κ × ℕ)) : Except κ (List ℕ) :=
  stats.foldlM (statsStep find dpKey sbrec ths now timestamp) []

end

def macBindingStatsRun (c : Cache) : ℕ → (ℕ → ℕ) → List (MbKey × ℕ) → Except MbKey (List ℕ) :=
  statsRun c.macBindings MbKey.dpKey MbValue.sbrec c.thresholds

def fdbStatsRun (c : Cache) : ℕ → (ℕ → ℕ) → List (FdbKey × ℕ) → Except FdbKey (List ℕ) :=
  statsRun c.fdbs FdbKey.dpKey FdbValue.sbrec c.thresholds

end Ovn.MacCache

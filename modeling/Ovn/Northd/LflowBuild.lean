/-
  The build of all logical flows, in one thread or in several.

  * `build_lswitch_and_lrouter_flows` without parallelization: one traversal after the other,
    among them the one of the L2-only ports,
  * `build_lflows_thread`: the same traversals but that one, each worker over its buckets,
  * `lflow_table_add_lflow` with the hash locks, the thread-local counters and
    `fix_flow_table_size`.

  The functions that build the flows of one element (a datapath, a port, a load balancer, a
  record) are parameters: both modes call the same ones, and they only read their inputs.  What
  is known of them is that none adds a flow of the L2 lookup with the priority of the L2-only
  ports, 120.
-/
import Ovn.Lib.SharedTable

namespace Ovn.LflowBuild

open JoinTable (Layout Ok entries Joins)
open List

/-! ## Logical flows -/

inductive DpType
  | switch | router
  deriving DecidableEq

inductive Pipeline
  | ingress | egress
  deriving DecidableEq

structure Stage where
  dpType : DpType
  pipeline : Pipeline
  table : ℕ
  deriving DecidableEq

/-- What `ovn_lflow_equal` tells logical flows apart by. -/
structure LflowKey where
  stage : Stage
  priority : ℕ
  matchExpr : String
  actions : String
  ctrlMeter : Option String
  deriving DecidableEq

abbrev Add := LflowKey × Finset ℕ

def switchInCheckPortSec : Stage := ⟨.switch, .ingress, 0⟩
def switchInApplyPortSec : Stage := ⟨.switch, .ingress, 1⟩
def switchInL2Lkup : Stage := ⟨.switch, .ingress, 27⟩
def switchOutCheckPortSec : Stage := ⟨.switch, .egress, 9⟩
def switchOutApplyPortSec : Stage := ⟨.switch, .egress, 10⟩

def ovnLflowAddWithHint (od : ℕ) (stage : Stage) (priority : ℕ) (matchExpr actions : String) :
    Add := (⟨stage, priority, matchExpr, actions, none⟩, {od})

/-! ## L2-only ports -/

abbrev Smap := String → Option String

/-- `strcasecmp` is 0. -/
def eqIgnoreCase (s t : String) : Bool := s.toList.map Char.toLower = t.toList.map Char.toLower

def smapGetDef (smap : Smap) (key dflt : String) : String := (smap key).getD dflt

def smapGetBool (smap : Smap) (key : String) (dflt : Bool) : Bool :=
  let value := smapGetDef smap key ""
  if dflt then !eqIgnoreCase "false" value else eqIgnoreCase "true" value

/-- The columns of a Logical_Switch_Port that make it an L2-only port. -/
structure Nbsp where
  type : Option String
  nPortSecurity : ℕ
  externalIds : Smap

/-- `struct ovn_port`; `row` is what the other builders read of it. -/
structure Port (ρ : Type*) where
  key : String
  jsonKey : String
  od : Option ℕ
  nbsp : Option Nbsp
  hasUnknown : Bool
  row : ρ

/-- What the builders take from elsewhere: `eth_addr_from_string` and `debug_drop_action`. -/
structure Env where
  ethAddrFromString : String → Bool
  debugDropAction : String

section
variable {ρ : Type*}

def isVifLsp (nbsp : Nbsp) : Bool :=
  match nbsp.type with
  | none => true
  | some type => type = "" || type = "virtual"

def portIsL2OnlyPort (op : Port ρ) : Bool :=
  match op.nbsp with
  | none => false
  | some nbsp =>
    isVifLsp nbsp &&
      (op.hasUnknown && nbsp.nPortSecurity == 0 && smapGetBool nbsp.externalIds "l2-port" false)

def lportKeyUnquoted (key : String) : String :=
  let quote := Char.ofNat 34
  if 2 ≤ key.length ∧ key.toList.head? = some quote ∧ key.toList.getLast? = some quote then
    String.ofList (key.toList.drop 1).dropLast
  else key

def addMinimalPortsecBypass (op : Port ρ) : List Add :=
  match op.od, op.nbsp with
  | some od, some _ =>
    if portIsL2OnlyPort op then
      let vif := lportKeyUnquoted op.jsonKey
      let inMatch := "inport == \"" ++ vif ++ "\""
      let outMatch := "outport == \"" ++ vif ++ "\""
      [ovnLflowAddWithHint od switchInCheckPortSec 100 inMatch "next;",
        ovnLflowAddWithHint od switchInApplyPortSec 100 inMatch "next;",
        ovnLflowAddWithHint od switchOutCheckPortSec 100 outMatch "next;",
        ovnLflowAddWithHint od switchOutApplyPortSec 100 outMatch "output;"]
    else []
  | _, _ => []

def addL2onlyFloodAll (op : Port ρ) : List Add :=
  match op.od, op.nbsp with
  | some od, some _ =>
    if portIsL2OnlyPort op then
      let vif := lportKeyUnquoted op.jsonKey
      [ovnLflowAddWithHint od switchInL2Lkup 120 ("inport == \"" ++ vif ++ "\" && !eth.mcast")
        "outport = \"_MC_flood_l2\"; output;"]
    else []
  | _, _ => []

/-- `add_l2only_mac_spoofing_prevention`; here the port is named by its `key`. -/
def addL2onlyMacSpoofingPrevention (env : Env) (op : Port ρ) (srcMac : String) : List Add :=
  match op.od, op.nbsp with
  | some od, some _ =>
    if portIsL2OnlyPort op && env.ethAddrFromString srcMac then
      let inport := "inport == \"" ++ op.key ++ "\""
      [ovnLflowAddWithHint od switchInCheckPortSec 110 (inport ++ " && eth.src != " ++ srcMac)
          "reg0[15]=1; next;",
        ovnLflowAddWithHint od switchInCheckPortSec 110
          (inport ++ " && eth.type == 0x0806 && arp.sha != " ++ srcMac) "reg0[15]=1; next;",
        ovnLflowAddWithHint od switchInApplyPortSec 110 (inport ++ " && reg0[15] == 1")
          env.debugDropAction]
    else []
  | _, _ => []

/-- The body of the loop over the L2-only ports. -/
def l2onlyPortFlows (env : Env) (op : Port ρ) : List Add :=
  match op.od, op.nbsp with
  | some _, some nbsp =>
    if portIsL2OnlyPort op then
      let allowForgedMac := smapGetBool nbsp.externalIds "pf9-allow-mac-forged-transmits" false
      let srcMac := smapGetDef nbsp.externalIds "pf9-l2port-src-mac" ""
      addMinimalPortsecBypass op ++ addL2onlyFloodAll op ++
        if !allowForgedMac && srcMac ≠ "" then addL2onlyMacSpoofingPrevention env op srcMac else []
    else []
  | _, _ => []

end

/-! ## The traversals -/

/-- `struct hmap`: a chain of elements in each bucket from 0 to `mask`. -/
structure Hmap (α : Type*) where
  mask : ℕ
  buckets : ℕ → List α

/-- `HMAP_FOR_EACH`. -/
def Hmap.toList {α : Type*} (h : Hmap α) : List α :=
  (List.range (h.mask + 1)).flatMap h.buckets

/-- The loop `for (bnum = id; bnum <= mask; bnum += size)` of a worker. -/
def bnums (size mask : ℕ) : ℕ → ℕ → List ℕ
  | 0, _ => []
  | fuel + 1, bnum => if bnum ≤ mask then bnum :: bnums size mask fuel (bnum + size) else []

/-- The elements that the worker `id` of `size` sees: `HMAP_FOR_EACH_IN_PARALLEL` over its
    buckets. -/
def Hmap.slice {α : Type*} (size id : ℕ) (h : Hmap α) : List α :=
  (bnums size h.mask (h.mask + 1) id).flatMap h.buckets

/-- The flow is one of the L2 lookup with the priority that L2-only ports have there. -/
def Floods (a : Add) : Prop := a.1.stage = switchInL2Lkup ∧ a.1.priority = 120

/-- A function that builds the flows of one element. -/
structure Builder (α : Type*) where
  flows : α → List Add
  not_floods : ∀ x, ∀ a ∈ flows x, ¬ Floods a

/-- The functions that both modes call. -/
structure Builders (δ π β υ ω : Type*) where
  iterateByLs : Builder δ
  iterateByLr : Builder δ
  iterateByLsp : Builder π
  lbnatIterateByLsp : Builder π
  iterateByLrp : Builder π
  lbnatIterateByLrp : Builder π
  lswitchArpNdServiceMonitor : Builder β
  lrouterDefragFlowsForLb : Builder β
  lrouterFlowsForLb : Builder β
  lswitchFlowsForLb : Builder β
  lrStatefulFlows : Builder υ
  lsStatefulFlows : Builder ω

structure Inputs (δ π β υ ω : Type*) where
  lsDatapaths : Hmap δ
  lrDatapaths : Hmap δ
  lsPorts : Hmap π
  lrPorts : Hmap π
  lbDpsMap : Hmap β
  lrStatefulTable : Hmap υ
  lsStatefulTable : Hmap ω

section
variable {δ ρ β υ ω : Type*} (env : Env) (B : Builders δ (Port ρ) β υ ω)
  (inp : Inputs δ (Port ρ) β υ ω)

def lspFlows (op : Port ρ) : List Add := B.iterateByLsp.flows op ++ B.lbnatIterateByLsp.flows op

def lrpFlows (op : Port ρ) : List Add := B.iterateByLrp.flows op ++ B.lbnatIterateByLrp.flows op

def lbFlows (lbDps : β) : List Add :=
  B.lswitchArpNdServiceMonitor.flows lbDps ++ B.lrouterDefragFlowsForLb.flows lbDps ++
    B.lrouterFlowsForLb.flows lbDps ++ B.lswitchFlowsForLb.flows lbDps

def l2onlyFlows : List Add := inp.lsPorts.toList.flatMap (l2onlyPortFlows env)

def commonFlows : List Add :=
  inp.lsDatapaths.toList.flatMap B.iterateByLs.flows ++
  inp.lrDatapaths.toList.flatMap B.iterateByLr.flows ++
  inp.lsPorts.toList.flatMap (lspFlows B) ++
  inp.lrPorts.toList.flatMap (lrpFlows B) ++
  inp.lbDpsMap.toList.flatMap (lbFlows B) ++
  inp.lrStatefulTable.toList.flatMap B.lrStatefulFlows.flows ++
  inp.lsStatefulTable.toList.flatMap B.lsStatefulFlows.flows

/-- What `build_lswitch_and_lrouter_flows` adds without parallelization, in this order. -/
def sequentialFlows : List Add :=
  inp.lsDatapaths.toList.flatMap B.iterateByLs.flows ++
  inp.lrDatapaths.toList.flatMap B.iterateByLr.flows ++
  inp.lsPorts.toList.flatMap (lspFlows B) ++
  inp.lrPorts.toList.flatMap (lrpFlows B) ++
  l2onlyFlows env inp ++
  inp.lbDpsMap.toList.flatMap (lbFlows B) ++
  inp.lrStatefulTable.toList.flatMap B.lrStatefulFlows.flows ++
  inp.lsStatefulTable.toList.flatMap B.lsStatefulFlows.flows

/-- What the worker `id` of `size` adds: `build_lflows_thread`. -/
def threadFlows (size id : ℕ) : List Add :=
  (inp.lsDatapaths.slice size id).flatMap B.iterateByLs.flows ++
  (inp.lrDatapaths.slice size id).flatMap B.iterateByLr.flows ++
  (inp.lsPorts.slice size id).flatMap (lspFlows B) ++
  (inp.lrPorts.slice size id).flatMap (lrpFlows B) ++
  (inp.lbDpsMap.slice size id).flatMap (lbFlows B) ++
  (inp.lrStatefulTable.slice size id).flatMap B.lrStatefulFlows.flows ++
  (inp.lsStatefulTable.slice size id).flatMap B.lsStatefulFlows.flows

end

/-! ## The table -/

/-- The buckets of the lflow table; `hash` is `ovn_logical_flow_hash`. -/
def layout (hash : LflowKey → ℕ) (mask : ℕ) : Layout LflowKey :=
  ⟨mask, fun k => hash k &&& mask, fun _ => Nat.and_le_right⟩

def lflowHashLockMask : ℕ := 0xFFFF

/-- `lflow_hash_lock`: the lock of a bucket. -/
def lflowHashLock (bucket : ℕ) : ℕ := bucket &&& lflowHashLockMask

/-- The state of a pool of `size` workers and of the lflow table that they fill. -/
abbrev Pool (size : ℕ) := SharedTable.State LflowKey (Finset ℕ) size

def fixFlowTableSize {size : ℕ} (s : Pool size) : Pool size :=
  { s with n := ∑ i, (s.workers i).counter }

section
variable {δ ρ β υ ω : Type*} (env : Env) (B : Builders δ (Port ρ) β υ ω)
  (inp : Inputs δ (Port ρ) β υ ω) (hash : LflowKey → ℕ)

/-- The workers of a pool, on an empty table. -/
def parallelBuild (mask size : ℕ) : System (Pool size) (Fin size) :=
  SharedTable.system (layout hash mask) lflowHashLock fun id => threadFlows B inp size id

/-- The build in one thread.  `hmap_insert` may enlarge the table; here it has its mask from the
    start. -/
def sequentialBuild (mask : ℕ) : ℕ → List Add :=
  (sequentialFlows env B inp).foldl (JoinTable.add (layout hash mask)) fun _ => []

/-- Whatever the workers do, they can go on until they are done, and then the table is the one
    of the build in one thread. -/
def Agree (mask mask' size : ℕ) : Prop :=
  ∀ s, (parallelBuild B inp hash mask size).Reached (fun _ _ => True) s →
    (SharedTable.Finished s ∨ ∃ id, ((parallelBuild B inp hash mask size).next s id).isSome) ∧
    (SharedTable.Finished s → (∀ e, e ∈ entries (layout hash mask) s.buckets ↔
        e ∈ entries (layout hash mask') (sequentialBuild env B inp hash mask')) ∧
      ((entries (layout hash mask) s.buckets).map Prod.fst).Nodup ∧
      (fixFlowTableSize s).n = (entries (layout hash mask) s.buckets).length)

/-- There is no L2-only port. -/
def NoL2only : Prop := ∀ op ∈ inp.lsPorts.toList, op.od.isSome → portIsL2OnlyPort op = false

/-- Each flow of the loop over the L2-only ports is also built, for the same datapath, by one of
    the traversals that both modes have. -/
def L2onlyCovered : Prop :=
  ∀ a ∈ l2onlyFlows env inp, ∀ dp ∈ a.2, ∃ a' ∈ commonFlows B inp, a'.1 = a.1 ∧ dp ∈ a'.2

end

/-! ## Coverage -/

theorem mem_bnums {size mask b : ℕ} : ∀ {fuel bnum : ℕ},
    b ∈ bnums size mask fuel bnum ↔ b ≤ mask ∧ ∃ j < fuel, b = bnum + j * size
  | 0, bnum => by simp [bnums]
  | fuel + 1, bnum => by
    rw [bnums]
    by_cases hb : bnum ≤ mask
    · rw [if_pos hb, mem_cons, mem_bnums]
      constructor
      · rintro (rfl | ⟨hle, j, hj, rfl⟩)
        · exact ⟨hb, 0, Nat.succ_pos fuel, by omega⟩
        · exact ⟨hle, j + 1, Nat.succ_lt_succ hj, by rw [Nat.succ_mul]; omega⟩
      · rintro ⟨hle, j, hj, rfl⟩
        cases j with
        | zero => exact .inl (by omega)
        | succ j =>
          refine .inr ⟨hle, j, Nat.lt_of_succ_lt_succ hj, ?_⟩
          rw [Nat.succ_mul]
          omega
    · rw [if_neg hb]
      refine ⟨fun h => (nomatch h), ?_⟩
      rintro ⟨hle, j, -, rfl⟩
      omega

theorem existsUnique_worker (n : ℕ) {mask b : ℕ} (hb : b ≤ mask) :
    ∃! id : Fin (n + 1), b ∈ bnums (n + 1) mask (mask + 1) id := by
  refine ⟨⟨b % (n + 1), Nat.mod_lt b (Nat.succ_pos n)⟩, ?_, ?_⟩
  · refine mem_bnums.2 ⟨hb, b / (n + 1), ?_, ?_⟩
    · exact Nat.lt_succ_of_le ((Nat.div_le_self b (n + 1)).trans hb)
    · exact (Nat.mod_add_div' b (n + 1)).symm
  · intro id hid
    obtain ⟨-, j, -, rfl⟩ := mem_bnums.1 hid
    refine Fin.ext ?_
    show id.val = (id.val + j * (n + 1)) % (n + 1)
    rw [Nat.add_mul_mod_self_right, Nat.mod_eq_of_lt id.isLt]

theorem mem_slice {α : Type*} (n : ℕ) (h : Hmap α) (x : α) :
    (∃ id : Fin (n + 1), x ∈ h.slice (n + 1) id) ↔ x ∈ h.toList := by
  unfold Hmap.slice Hmap.toList
  simp only [mem_flatMap, mem_range]
  constructor
  · rintro ⟨id, b, hb, hx⟩
    exact ⟨b, Nat.lt_succ_of_le (mem_bnums.1 hb).1, hx⟩
  · rintro ⟨b, hb, hx⟩
    obtain ⟨id, hid, -⟩ := existsUnique_worker n (Nat.le_of_lt_succ hb)
    exact ⟨id, b, hid, hx⟩

/-- A traversal by the workers builds what it builds in one thread. -/
theorem mem_flatMap_slice {α : Type*} (n : ℕ) (h : Hmap α) (f : α → List Add) (a : Add) :
    (∃ id : Fin (n + 1), a ∈ (h.slice (n + 1) id).flatMap f) ↔ a ∈ h.toList.flatMap f := by
  simp only [mem_flatMap, ← mem_slice n h, ← exists_and_right]
  exact exists_comm

section
variable {δ ρ β υ ω : Type*} {env : Env} {B : Builders δ (Port ρ) β υ ω}
  {inp : Inputs δ (Port ρ) β υ ω} {hash : LflowKey → ℕ} {mask mask' n : ℕ}

theorem mem_threadFlows (a : Add) :
    (∃ id : Fin (n + 1), a ∈ threadFlows B inp (n + 1) id) ↔ a ∈ commonFlows B inp := by
  simp only [threadFlows, commonFlows, mem_append, exists_or, mem_flatMap_slice]

theorem mem_sequentialFlows (a : Add) :
    a ∈ sequentialFlows env B inp ↔ a ∈ commonFlows B inp ∨ a ∈ l2onlyFlows env inp := by
  simp only [sequentialFlows, commonFlows, mem_append]
  tauto

theorem nonempty_of_mem_bypass {op : Port ρ} : ∀ a ∈ addMinimalPortsecBypass op, a.2.Nonempty := by
  unfold addMinimalPortsecBypass
  split
  · split <;> simp [ovnLflowAddWithHint]
  · simp

theorem nonempty_of_mem_floodAll {op : Port ρ} : ∀ a ∈ addL2onlyFloodAll op, a.2.Nonempty := by
  unfold addL2onlyFloodAll
  split
  · split <;> simp [ovnLflowAddWithHint]
  · simp

theorem nonempty_of_mem_spoofing {op : Port ρ} {srcMac : String} :
    ∀ a ∈ addL2onlyMacSpoofingPrevention env op srcMac, a.2.Nonempty := by
  unfold addL2onlyMacSpoofingPrevention
  split
  · split <;> simp [ovnLflowAddWithHint]
  · simp

theorem nonempty_of_mem_l2onlyFlows {a : Add} (ha : a ∈ l2onlyFlows env inp) : a.2.Nonempty := by
  obtain ⟨op, -, ha⟩ := mem_flatMap.1 ha
  unfold l2onlyPortFlows at ha
  split at ha
  · split at ha
    · rcases mem_append.1 ha with ha | ha
      · rcases mem_append.1 ha with ha | ha
        · exact nonempty_of_mem_bypass a ha
        · exact nonempty_of_mem_floodAll a ha
      · split at ha
        · exact nonempty_of_mem_spoofing a ha
        · cases ha
    · cases ha
  · cases ha

/-! ## The two modes -/

theorem parallel_entries {s : Pool (n + 1)}
    (h : (parallelBuild B inp hash mask (n + 1)).Reached (fun _ _ => True) s)
    (hf : SharedTable.Finished s) :
    (∀ e, e ∈ entries (layout hash mask) s.buckets ↔ Joins {a | a ∈ commonFlows B inp} e) ∧
      ((entries (layout hash mask) s.buckets).map Prod.fst).Nodup ∧
      (fixFlowTableSize s).n = (entries (layout hash mask) s.buckets).length := by
  obtain ⟨hok, hcount⟩ := SharedTable.finished_spec h hf
  have hset : {a | ∃ id : Fin (n + 1), a ∈ threadFlows B inp (n + 1) id} =
      {a | a ∈ commonFlows B inp} := by
    ext a
    exact mem_threadFlows a
  rw [hset] at hok
  exact ⟨hok.entries_spec.1, hok.entries_spec.2, hcount⟩

theorem sequential_entries (e : Add) :
    e ∈ entries (layout hash mask) (sequentialBuild env B inp hash mask) ↔
      Joins {a | a ∈ commonFlows B inp ∨ a ∈ l2onlyFlows env inp} e := by
  have hok := JoinTable.Ok.foldl_add (L := layout hash mask) (sequentialFlows env B inp)
    (JoinTable.ok_empty _)
  have hset : ∅ ∪ {a | a ∈ sequentialFlows env B inp} =
      {a | a ∈ commonFlows B inp ∨ a ∈ l2onlyFlows env inp} := by
    rw [Set.empty_union]
    ext a
    exact mem_sequentialFlows a
  rw [hset] at hok
  exact hok.entries_spec.1 e

theorem L2onlyCovered.joins_iff (h : L2onlyCovered env B inp) (e : Add) :
    Joins {a | a ∈ commonFlows B inp} e ↔
      Joins {a | a ∈ commonFlows B inp ∨ a ∈ l2onlyFlows env inp} e := by
  have hex : (∃ dps, (e.1, dps) ∈ commonFlows B inp) ↔
      ∃ dps, (e.1, dps) ∈ commonFlows B inp ∨ (e.1, dps) ∈ l2onlyFlows env inp := by
    constructor
    · rintro ⟨dps, hd⟩
      exact ⟨dps, .inl hd⟩
    · rintro ⟨dps, hd | hd⟩
      · exact ⟨dps, hd⟩
      · obtain ⟨dp, hdp⟩ := nonempty_of_mem_l2onlyFlows hd
        obtain ⟨⟨k, dps'⟩, ha, rfl, -⟩ := h _ hd dp hdp
        exact ⟨dps', ha⟩
  -- the L2-only ports add no datapath, so the upper bounds are the same
  have hbounds : upperBounds {dps | (e.1, dps) ∈ commonFlows B inp} =
      upperBounds {dps | (e.1, dps) ∈ commonFlows B inp ∨ (e.1, dps) ∈ l2onlyFlows env inp} := by
    ext u
    constructor
    · rintro hu dps (hd | hd)
      · exact hu hd
      · intro dp hdp
        obtain ⟨⟨k, dps'⟩, ha, rfl, hdp'⟩ := h _ hd dp hdp
        exact hu ha hdp'
    · intro hu dps hd
      exact hu (.inl hd)
  refine and_congr hex ?_
  show IsLeast (upperBounds {dps | (e.1, dps) ∈ commonFlows B inp}) e.2 ↔
    IsLeast (upperBounds {dps | (e.1, dps) ∈ commonFlows B inp ∨
      (e.1, dps) ∈ l2onlyFlows env inp}) e.2
  rw [hbounds]

theorem L2onlyCovered.agree (h : L2onlyCovered env B inp) :
    Agree env B inp hash mask mask' (n + 1) := by
  intro s hs
  refine ⟨SharedTable.finished_or_step hs, fun hf => ?_⟩
  obtain ⟨hmem, hnodup, hsize⟩ := parallel_entries hs hf
  refine ⟨fun e => ?_, hnodup, hsize⟩
  rw [hmem, sequential_entries]
  exact h.joins_iff e

theorem Agree.l2onlyCovered (h : Agree env B inp hash mask mask' (n + 1)) :
    L2onlyCovered env B inp := by
  -- some run comes to an end
  obtain ⟨s, hs, hf⟩ := SharedTable.exists_finished
    (System.Reached.init (S := parallelBuild B inp hash mask (n + 1)))
  have hsame := ((h s hs).2 hf).1
  have hmem := (parallel_entries hs hf).1
  intro a ha dp hdp
  -- the flow is in the table of the build in one thread, with a set that has the datapath
  have hok := JoinTable.Ok.foldl_add (L := layout hash mask') (sequentialFlows env B inp)
    (JoinTable.ok_empty _)
  obtain ⟨e, he, hk⟩ := mem_map.1 (hok.kept a (.inr ((mem_sequentialFlows a).2 (.inr ha))))
  have hseq : e ∈ entries (layout hash mask') (sequentialBuild env B inp hash mask') :=
    mem_flatMap.2 ⟨_, mem_range.2 (Nat.lt_succ_of_le ((layout hash mask').bucketOf_le a.1)), he⟩
  have hle : a.2 ≤ e.2 := by
    refine ((sequential_entries e).1 hseq).2.1 (.inr ?_)
    rw [hk]
    exact ha
  obtain ⟨-, hlub⟩ := (hmem e).1 ((hsame e).2 hseq)
  rw [hk] at hlub
  -- the set of the parallel build is least, so one of the flows brought the datapath in
  by_contra hno
  push Not at hno
  have hub : e.2.erase dp ∈ upperBounds {dps | (a.1, dps) ∈ commonFlows B inp} := by
    intro dps hd x hx
    refine Finset.mem_erase.2 ⟨?_, hlub.1 hd hx⟩
    rintro rfl
    exact hno _ hd rfl hx
  exact Finset.notMem_erase dp e.2 (hlub.2 hub (hle hdp))

theorem not_floods_commonFlows {a : Add} (ha : a ∈ commonFlows B inp) : ¬ Floods a := by
  simp only [commonFlows, lspFlows, lrpFlows, lbFlows, mem_append, mem_flatMap] at ha
  rcases ha with (((((⟨x, -, h⟩ | ⟨x, -, h⟩) | ⟨x, -, h | h⟩) | ⟨x, -, h | h⟩) |
    ⟨x, -, ((h | h) | h) | h⟩) | ⟨x, -, h⟩) | ⟨x, -, h⟩
  all_goals exact Builder.not_floods _ x a h

theorem exists_floods (env : Env) {op : Port ρ} (hop : op ∈ inp.lsPorts.toList) (hod : op.od.isSome)
    (hl2 : portIsL2OnlyPort op = true) : ∃ a ∈ l2onlyFlows env inp, Floods a ∧ a.2.Nonempty := by
  obtain ⟨od, hod⟩ := Option.isSome_iff_exists.1 hod
  obtain ⟨nbsp, hnbsp⟩ : ∃ nbsp, op.nbsp = some nbsp := by
    cases hn : op.nbsp with
    | none =>
      rw [portIsL2OnlyPort, hn] at hl2
      cases hl2
    | some nbsp => exact ⟨nbsp, rfl⟩
  obtain ⟨a, hflood, hfloods, hne⟩ : ∃ a, addL2onlyFloodAll op = [a] ∧ Floods a ∧ a.2.Nonempty := by
    rw [addL2onlyFloodAll, hod, hnbsp]
    exact ⟨_, if_pos hl2, ⟨rfl, rfl⟩, Finset.singleton_nonempty od⟩
  refine ⟨a, mem_flatMap.2 ⟨op, hop, ?_⟩, hfloods, hne⟩
  rw [l2onlyPortFlows, hod, hnbsp]
  dsimp only
  rw [if_pos hl2, hflood]
  exact mem_append_left _ (mem_append_right _ (mem_singleton_self a))

theorem l2onlyCovered_iff : L2onlyCovered env B inp ↔ NoL2only inp := by
  constructor
  · intro h op hop hod
    by_contra hl2
    obtain ⟨a, ha, hflood, dp, hdp⟩ := exists_floods env hop hod (Bool.not_eq_false _ ▸ hl2)
    obtain ⟨a', ha', hkey, -⟩ := h a ha dp hdp
    refine not_floods_commonFlows ha' ?_
    rwa [Floods, hkey]
  · intro h a ha
    obtain ⟨op, hop, hmem⟩ := mem_flatMap.1 ha
    unfold l2onlyPortFlows at hmem
    split at hmem
    next od _ hod _ =>
      rw [h op hop (hod ▸ rfl)] at hmem
      cases hmem
    · cases hmem

end

section
variable {δ ρ β υ ω : Type*}

/-- **Parallel and sequential builds.** For every content, every number of workers, and every
    hash and size of the table, the two modes agree exactly if there is no L2-only port. -/
theorem agree_iff_noL2only (env : Env) (B : Builders δ (Port ρ) β υ ω)
    (inp : Inputs δ (Port ρ) β υ ω) (hash : LflowKey → ℕ) (mask mask' n : ℕ) :
    Agree env B inp hash mask mask' (n + 1) ↔ NoL2only inp :=
  ⟨fun h => l2onlyCovered_iff.1 h.l2onlyCovered, fun h => (l2onlyCovered_iff.2 h).agree⟩

end

def l2onlyPort : Port Unit where
  key := "vm1"
  jsonKey := "\"vm1\""
  od := some 0
  nbsp := some ⟨some "", 0, fun key => if key = "l2-port" then some "true" else none⟩
  hasUnknown := true
  row := ()

def l2onlyInputs : Inputs ℕ (Port Unit) Unit Unit Unit where
  lsDatapaths := ⟨0, fun _ => [0]⟩
  lrDatapaths := ⟨0, fun _ => []⟩
  lsPorts := ⟨0, fun _ => [l2onlyPort]⟩
  lrPorts := ⟨0, fun _ => []⟩
  lbDpsMap := ⟨0, fun _ => []⟩
  lrStatefulTable := ⟨0, fun _ => []⟩
  lsStatefulTable := ⟨0, fun _ => []⟩

/-- Builders of nothing but, for a switch, one flow of `build_lswitch_output_port_sec_od`. -/
def outputPortSecBuilders : Builders ℕ (Port Unit) Unit Unit Unit where
  iterateByLs := ⟨fun od => [ovnLflowAddWithHint od switchOutCheckPortSec 100 "eth.mcast"
    "reg0[15] = 0; next;"], fun _ a ha hfloods => by
      rw [mem_singleton.1 ha] at hfloods
      exact absurd (show 100 = 120 from hfloods.2) (by decide)⟩
  iterateByLr := ⟨fun _ => [], nofun⟩
  iterateByLsp := ⟨fun _ => [], nofun⟩
  lbnatIterateByLsp := ⟨fun _ => [], nofun⟩
  iterateByLrp := ⟨fun _ => [], nofun⟩
  lbnatIterateByLrp := ⟨fun _ => [], nofun⟩
  lswitchArpNdServiceMonitor := ⟨fun _ => [], nofun⟩
  lrouterDefragFlowsForLb := ⟨fun _ => [], nofun⟩
  lrouterFlowsForLb := ⟨fun _ => [], nofun⟩
  lswitchFlowsForLb := ⟨fun _ => [], nofun⟩
  lrStatefulFlows := ⟨fun _ => [], nofun⟩
  lsStatefulFlows := ⟨fun _ => [], nofun⟩

/-- With an L2-only port and two workers, the modes do not agree: the flow that floods what the
    port sends is missing. -/
theorem not_agree_l2onlyPort :
    ¬ Agree ⟨fun _ => true, "drop;"⟩ outputPortSecBuilders l2onlyInputs LflowKey.priority 3
      3 2 := by
  intro h
  have hno := l2onlyCovered_iff.1 h.l2onlyCovered l2onlyPort mem_cons_self rfl
  revert hno
  decide

end Ovn.LflowBuild

/-
  Port groups of logical switches (`northd/en-port-group.c`).

  A northbound port group has ports of any switches.  northd keeps, for each switch, the groups that
  have ports on it, with those ports, and for each group the switches it has ports on; the
  southbound database has a port group for each switch and group.  A change of a group is processed
  on its own, unless a southbound port group would have to be created or deleted.
-/
import Ovn.Lib.Ends
import Ovn.Lib.Maps
import Ovn.Lib.NamedSets
import Ovn.Lib.Run
import Mathlib.Data.String.Basic

namespace Ovn.PortGroups

/-! ## Inputs -/

/-- A northbound `Port_Group`; its ports are references to logical switch ports. -/
structure PortGroup where
  uuid : ℕ
  name : String
  ports : List ℕ
  deriving DecidableEq

/-- The northbound port groups, and the names of the logical switch ports. -/
structure Nb where
  portGroups : List PortGroup
  lspName : ℕ → String
  nodup_uuid : (portGroups.map (·.uuid)).Nodup
  /-- The schema has an index on the name. -/
  nodup_name : (portGroups.map (·.name)).Nodup

/-- `nb_pg->ports[i]->name`. -/
def Nb.portNames (nb : Nb) (g : PortGroup) : List String := g.ports.map nb.lspName

def Nb.nameOf (nb : Nb) (pg : ℕ) : String :=
  ((rowOf PortGroup.uuid nb.portGroups pg).map (·.name)).getD ""

/-- What is read of a `struct ovn_datapath`: `nbs` is there if it is a switch. -/
structure Datapath where
  nbs : Option ℕ
  tunnelKey : ℕ

/-- `ls_ports`, with the datapath of each port. -/
structure LsPorts where
  find : String → Option Datapath
  /-- The tunnel key is an index of the southbound datapaths. -/
  key_unique : ∀ p q d e u v, find p = some d → find q = some e → d.nbs = some u → e.nbs = some v →
    (d.tunnelKey = e.tunnelKey ↔ u = v)

/-- A southbound `Port_Group`: its name and the names of its ports. -/
abbrev SbPortGroup := NamedSet String String

/-- `get_sb_port_group_name`. -/
def sbPortGroupName (nbPgName : String) (key : ℕ) : String := toString key ++ "_" ++ nbPgName

/-! ## Records -/

/-- `struct ls_port_group`: `nb_pgs` has the ports of each group on the switch. -/
structure LsPortGroup where
  sbDatapathKey : ℕ
  nbPgs : AList fun _ : ℕ => Finset String

abbrev LsPortGroupTable := AList fun _ : ℕ => LsPortGroup

/-- `struct port_group_data`: the groups of each switch, and the switches of each group. -/
structure Data where
  lsPortGroups : LsPortGroupTable
  portGroupsLses : AList fun _ : ℕ => List ℕ

def Data.empty : Data := ⟨∅, ∅⟩

/-- The assertions of `ls_port_group_record_clear`. -/
inductive Assertion
  | lsPg
  | lsPgRec

/-- `ls_port_group_record_clear`. -/
def recordClear (pg : ℕ) (switches : List ℕ) (t : LsPortGroupTable) :
    Except Assertion LsPortGroupTable :=
  switches.foldlM (fun t nbs =>
    match t.lookup nbs with
    | none => .error .lsPg
    | some lsPg =>
      match lsPg.nbPgs.lookup pg with
      | none => .error .lsPgRec
      | some _ => .ok (t.insert nbs { lsPg with nbPgs := lsPg.nbPgs.insert pg ∅ })) t

/-- The variables of `ls_port_group_process` that its loop over the ports changes. -/
structure Processing where
  table : LsPortGroupTable
  switches : List ℕ
  created : Bool
  updated : List ℕ

/-- The loop's body: ports that are not found, or not on a switch, are skipped. -/
def Processing.addPort (lsPorts : LsPorts) (pg : ℕ) (st : Processing) (port : String) :
    Processing :=
  match lsPorts.find port with
  | none => st
  | some od =>
    match od.nbs with
    | none => st
    | some nbs =>
      let lsPg := (st.table.lookup nbs).getD ⟨od.tunnelKey, ∅⟩
      let record := lsPg.nbPgs.lookup pg
      { table := st.table.insert nbs
          { lsPg with nbPgs := lsPg.nbPgs.insert pg (insert port (record.getD ∅)) }
        switches := st.switches.insert nbs
        created := st.created || record.isNone
        updated := st.updated.insert nbs }

/-- `ls_port_group_record_prune`, and the removal of a switch without groups. -/
def recordPrune (s : LsPortGroupTable × Bool) (nbs : ℕ) : LsPortGroupTable × Bool :=
  match s.1.lookup nbs with
  | none => s
  | some lsPg =>
    let kept := filterValues (fun ports => ports ≠ ∅) lsPg.nbPgs
    let destroyed := s.2 || lsPg.nbPgs.entries.any fun r => r.2 = ∅
    if kept.entries = [] then (s.1.erase nbs, destroyed)
    else (s.1.insert nbs { lsPg with nbPgs := kept }, destroyed)

/-- `ls_port_group_process`: the records, whether one was created or destroyed, and the switches
    whose records were updated. -/
def lsPortGroupProcess (nb : Nb) (lsPorts : LsPorts) (d : Data) (nbPg : PortGroup)
    (updated : List ℕ) :
    Except Assertion (Data × Bool × List ℕ) := do
  let old := d.portGroupsLses.lookup nbPg.uuid
  let cleared := old.getD []
  let table ← recordClear nbPg.uuid cleared d.lsPortGroups
  let st := (nb.portNames nbPg).foldl (Processing.addPort lsPorts nbPg.uuid) ⟨table, cleared, false,
    updated⟩
  let (table, destroyed) := cleared.foldl recordPrune (st.table, false)
  pure (⟨table, d.portGroupsLses.insert nbPg.uuid st.switches⟩, st.created || destroyed, st.updated)

/-- `ls_port_group_table_build`, on tables that are empty. -/
def lsPortGroupTableBuild (nb : Nb) (lsPorts : LsPorts) : Except Assertion Data :=
  nb.portGroups.foldlM (fun d g => do
    let (d, _) ← lsPortGroupProcess nb lsPorts d g []
    pure d) .empty

/-! ## Southbound rows -/

def LsPortGroup.rows (nb : Nb) (lsPg : LsPortGroup) : List SbPortGroup :=
  lsPg.nbPgs.entries.map fun r => ⟨sbPortGroupName (nb.nameOf r.1) lsPg.sbDatapathKey, r.2⟩

def createSbPortGroup (name : String) : SbPortGroup := ⟨name, ∅⟩

instance isTrans_string : IsTrans String (· ≤ ·) := inferInstance

instance antisymm_string : @Std.Antisymm String (· ≤ ·) := inferInstance

def lsPortGroupTableSync (nb : Nb) (t : LsPortGroupTable) (sb : List SbPortGroup) :
    List SbPortGroup :=
  ((t.entries.flatMap fun e => e.2.rows nb).foldl (fun c r =>
    c.claim NamedSet.name r.name ((createSbPortGroup r.name).update r.values.sort)
      (·.update r.values.sort))
    (⟨sb, []⟩ : Claims SbPortGroup)).rows

/-- The update of the southbound rows in `port_group_nb_port_group_handler`. -/
def updateSb (nb : Nb) (t : LsPortGroupTable) (updated : List ℕ) (sb : List SbPortGroup) :
    List SbPortGroup :=
  (updated.flatMap fun nbs => ((t.lookup nbs).map (·.rows nb)).getD []).foldl (fun sb r =>
    upsertRow NamedSet.name r.name (createSbPortGroup r.name) (·.update r.values.sort) sb) sb

/-! ## The node -/

structure State where
  nb : Nb
  lsPorts : LsPorts
  data : Data
  sb : List SbPortGroup

/-- What a run of the engine brings: the northbound port groups, those of them that are tracked, and
    the ports of northd. -/
structure Input where
  nb : Nb
  lsPorts : LsPorts
  tracked : List (TrackedRow PortGroup)

/-- The loop over the tracked rows: it stops once a record was created or destroyed. -/
def processTracked (nb : Nb) (lsPorts : LsPorts) :
    List PortGroup → Data → List ℕ → Except Assertion (Data × Bool × List ℕ)
  | [], d, updated => pure (d, true, updated)
  | g :: gs, d, updated => do
    let (d, changed, updated) ← lsPortGroupProcess nb lsPorts d g updated
    if changed then pure (d, false, updated) else processTracked nb lsPorts gs d updated

/-- `port_group_nb_port_group_handler`: `none` if it returns false. -/
def nbPortGroupHandler (inp : Input) (s : State) : Except Assertion (Option State) := do
  if inp.tracked.any fun t => t.isNew || t.isDeleted then pure none
  else
    let (d, success, updated) ←
      processTracked inp.nb inp.lsPorts (inp.tracked.map (·.row)) s.data []
    if success then
      pure (some ⟨inp.nb, inp.lsPorts, d, updateSb inp.nb d.lsPortGroups updated s.sb⟩)
    else pure none

def enPortGroupRun (nb : Nb) (lsPorts : LsPorts) (sb : List SbPortGroup) :
    Except Assertion State := do
  let d ← lsPortGroupTableBuild nb lsPorts
  pure ⟨nb, lsPorts, d, lsPortGroupTableSync nb d.lsPortGroups sb⟩

inductive Action
  | recompute (nb : Nb) (lsPorts : LsPorts) (sb : List SbPortGroup)
  /-- Port groups changed: they are processed by the handler, or else all is computed anew. -/
  | change (inp : Input)

def step (s : State) : Action → Except Assertion State
  | .recompute nb lsPorts sb => enPortGroupRun nb lsPorts sb
  | .change inp => do
    match ← nbPortGroupHandler inp s with
    | some s => pure s
    | none => enPortGroupRun inp.nb inp.lsPorts s.sb

def Nb.empty : Nb := ⟨[], fun _ => "", List.nodup_nil, List.nodup_nil⟩

def LsPorts.empty : LsPorts := ⟨fun _ => none, by intros; contradiction⟩

/-- The port groups of northd; a run that fails an assertion has no next state. -/
def portGroups : System State Action := ⟨⟨.empty, .empty, .empty, []⟩,
      fun s a => (step s a).toOption⟩

end Ovn.PortGroups

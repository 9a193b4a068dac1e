/-
  Tracked changes of port bindings (`binding_handle_port_binding_changes` of
  `controller/binding.c`).

  Deleted ports come first, the children before their parents, then new and updated ones, and at
  last the ports whose claims were postponed.  `false` says that a change can't be handled, on which
  all is computed again; it comes from what would have to be written to a southbound database that
  can't be written, and from a tunnel key that has changed.  The calls that return nothing, and what
  is read of the rows and of the local bindings, are left open.
-/
import Ovn.Lib.KeyedRows

namespace Ovn

/-- `enum en_lport_type`. -/
inductive LportType
  | unknown | patch | container | localport | l3gateway | vif | vtep | l2gateway
  | chassisredirect | localnet | virtual | external | remote
  deriving DecidableEq, Repr

namespace Binding

inductive CanBind
  | cannot | asMain | asAdditional
  deriving DecidableEq

/-- `struct sbrec_port_binding`, with the type that `get_lport_type` tells. -/
structure Pb where
  logicalPort : String
  type : LportType
  dpTunnelKey : ℕ
  distributedPort : Option String
  parentPort : Option String
  virtualParent : Option String

structure TrackedPb where
  pb : Pb
  isDeleted : Bool
  isNew : Bool
  typeUpdated : Bool
  tunnelKeyUpdated : Bool

/-- What is asked of a port binding and of its `binding_lport` and `local_binding`. -/
inductive Ask
  | chassis | thisChassis | isAdditionalChassis | encap | additionalEncap | virtualParent
  | encapChanged | additionalEncapMissing
  /-- It is not up, or not `ovn-installed`. -/
  | claimAgain
  /-- The time compared in `lport_maybe_postpone`. -/
  | recentlyClaimed
  | ifaceIsPresent | isPortClaimed
  | hasBindingLport | sameType | hasPrimaryLport | hasLbinding | hasIface | ifaceIdVerDiffers
  | parentHasLbinding | parentHasIface | parentHasPb | parentIsVif | parentThisChassis

/-- The calls and updates that return nothing. -/
inductive Op
  | unsetEncap | unsetChassis | unsetVirtualParent | removeAdditionalEncap
  | removeAdditionalChassis | setEncap | addAdditionalEncap | claimIface | updateLportTracking
  | releaseIface | setDown | removeRelatedLport | updateRelatedLport | addLocalDatapath
  | updateLocalLports | removeLocalLports | updatePortSec | addQosPort | removeOvnInstalled
  | addLport | addContainerLport | addVirtualLport | deleteBindingLport | deletePrimaryLport
  | updateType | cleanupDeleted | handleDeletedLport | updateLdPeers | updateActivePbRasPd
  | updateLdMultichassisPorts | considerPatchPort | updateLdVtepPort | updateLdExternalPorts
  | considerLocalnetLport

/-- `struct binding_ctx_out`. -/
structure Out (ρ : Type*) where
  postponedPorts : List String
  rest : ρ

/-- The context: whether there is no `ovnsb_idl_txn`, the rows, and what is left open. -/
structure Ctx (ρ : Type*) where
  sbReadonly : Bool
  lportLookupByName : String → Option Pb
  /-- `lport_can_bind_on_this_chassis`. -/
  canBind : Pb → CanBind
  /-- The chassis of an `l2gateway` or `l3gateway` port is this one. -/
  gatewayHere : Pb → Bool
  haChassisGroupContains : Pb → Bool
  haChassisGroupIsActive : Pb → Bool
  ask : Ask → ρ → Pb → Bool
  exec : Op → Pb → ρ → ρ
  /-- The ports of the local binding of a port. -/
  bindingLports : ρ → Pb → List Pb
  hasLocalDatapath : ρ → ℕ → Bool
  /-- What is done for the ports of datapaths that have become local. -/
  updateNewDatapaths : ρ → ρ
  /-- The order in which a `shash` of deleted ports is walked. -/
  shash : HashOrder Pb

abbrev Handler (ρ : Type*) := Out ρ → Bool × Out ρ

variable {ρ α : Type*}

namespace Handler

def done : Handler ρ := fun s => (true, s)

def fail : Handler ρ := fun s => (false, s)

def andThen (h h' : Handler ρ) : Handler ρ := fun s =>
  match h s with
  | (false, s) => (false, s)
  | (true, s) => h' s

/-- The result is not looked at. -/
def ignore (h : Handler ρ) : Handler ρ := fun s => (true, (h s).2)

/-- A loop that is left at the first failure. -/
def forEach (h : α → Handler ρ) : List α → Handler ρ
  | [] => done
  | x :: xs => (h x).andThen (forEach h xs)

def Succeeds (h : Handler ρ) : Prop := ∀ s, (h s).1 = true

variable {h h' : Handler ρ} {s : Out ρ}

theorem andThen_fst : (h.andThen h' s).1 = true ↔ (h s).1 = true ∧ (h' (h s).2).1 = true := by
  unfold andThen
  rcases h s with ⟨_ | _, s'⟩ <;> simp

theorem Succeeds.andThen_eq (hh : h.Succeeds) : h.andThen h' s = h' (h s).2 := by
  unfold andThen
  rcases hr : h s with ⟨_ | _, s'⟩
  · exact absurd (hh s) (by simp [hr])
  · rfl

theorem Succeeds.andThen (hh : h.Succeeds) (hh' : h'.Succeeds) : (h.andThen h').Succeeds := fun s =>
  andThen_fst.2 ⟨hh s, hh' _⟩

theorem Succeeds.forEach {f : α → Handler ρ} :
    ∀ {l : List α}, (∀ x ∈ l, (f x).Succeeds) → (forEach f l).Succeeds
  | [], _ => fun _ => rfl
  | x :: _, hf =>
    (hf x List.mem_cons_self).andThen (.forEach fun y hy => hf y (List.mem_cons_of_mem x hy))

/-- A loop over a list with a member that always fails. -/
theorem forEach_eq_false {f : α → Handler ρ} {x : α} (hf : ∀ s, (f x s).1 = false) :
    ∀ {l : List α}, x ∈ l → ∀ s, (forEach f l s).1 = false
  | y :: l, hx, s => by
    rw [forEach, Bool.eq_false_iff, ne_eq, andThen_fst]
    rintro ⟨hy, hl⟩
    rcases List.mem_cons.1 hx with rfl | hx
    · exact absurd hy (by simp [hf])
    · exact absurd hl (by simp [forEach_eq_false hf hx])

end Handler

open Handler

namespace Ctx

variable (B : Ctx ρ) (pb : Pb)

def act (op : Op) : Handler ρ := fun s => (true, { s with rest := B.exec op pb s.rest })

def acts (ops : List Op) : Handler ρ := forEach (B.act pb) ops

def ifAsk (q : Ask) (h h' : Handler ρ) : Handler ρ :=
  fun s => if B.ask q s.rest pb then h s else h' s

/-- What has to be written. -/
def write (q : Ask) (op : Op) : Handler ρ :=
  B.ifAsk pb q (if B.sbReadonly then fail else B.act pb op) done

/-- `is_binding_lport_this_chassis`. -/
def ifHere (h h' : Handler ρ) : Handler ρ :=
  B.ifAsk pb .thisChassis h (B.ifAsk pb .isAdditionalChassis h h')

def forEachLport (h : Pb → Handler ρ) : Handler ρ :=
  fun s => forEach h (B.bindingLports s.rest pb) s

def postpone : Handler ρ :=
  fun s => (true, { s with postponedPorts := s.postponedPorts.insert pb.logicalPort })

def unpostpone (name : String) : Handler ρ := fun s =>
  (true, { s with postponedPorts := s.postponedPorts.filter (· ≠ name) })

/-! ## Claims and releases -/

def claimNew : Handler ρ :=
  (B.write pb .isAdditionalChassis .removeAdditionalChassis).andThen <|
    (B.act pb .claimIface).andThen <| (unpostpone pb.logicalPort).andThen <|
      (B.act pb .updateLportTracking).andThen (B.write pb .encapChanged .setEncap)

def claimLport : CanBind → Handler ρ
  | .asMain =>
    B.ifAsk pb .thisChassis
      ((B.ifAsk pb .claimAgain (B.act pb .claimIface) done).andThen <|
        (B.act pb .updateLportTracking).andThen (B.write pb .encapChanged .setEncap))
      (B.ifAsk pb .chassis (B.ifAsk pb .recentlyClaimed (postpone pb) (B.claimNew pb))
        (B.claimNew pb))
  | .asAdditional =>
    (B.ifAsk pb .isAdditionalChassis done (B.acts pb [.claimIface, .updateLportTracking])).andThen
      (B.write pb .additionalEncapMissing .addAdditionalEncap)
  | .cannot => done

def releaseLportMainChassis : Handler ρ :=
  (B.write pb .encap .unsetEncap).andThen <|
    (B.ifAsk pb .chassis
      (if B.sbReadonly then B.ifAsk pb .ifaceIsPresent done fail else B.act pb .unsetChassis)
        done).andThen
      (B.write pb .virtualParent .unsetVirtualParent)

def releaseLportAdditionalChassis : Handler ρ :=
  (B.write pb .additionalEncap .removeAdditionalEncap).andThen
    (B.write pb .isAdditionalChassis .removeAdditionalChassis)

def releaseLport : Handler ρ :=
  (B.ifAsk pb .thisChassis (B.releaseLportMainChassis pb)
    (B.ifAsk pb .isAdditionalChassis (B.releaseLportAdditionalChassis pb) done)).andThen
    (B.acts pb [.updateLportTracking, .releaseIface])

def releaseBindingLport : Handler ρ :=
  B.ifHere pb
    ((B.act pb .removeRelatedLport).andThen ((B.releaseLport pb).andThen (B.act pb .setDown))) done

/-- The port is bound here or claimed, as `consider_vif_lport_` and `consider_nonvif_lport_` ask. -/
def ifClaimed (h : Handler ρ) : Handler ρ := B.ifHere pb h (B.ifAsk pb .isPortClaimed h done)

/-- `consider_vif_lport_`; `lbindingSet` is what it asks of the `binding_lport`. -/
def considerVifLport_ (canBind : CanBind) (lbindingSet : Bool) : Handler ρ :=
  (if lbindingSet && canBind ≠ .cannot then
    (B.claimLport pb canBind).andThen
      (B.acts pb [.addLocalDatapath, .updateRelatedLport, .updateLocalLports, .updatePortSec,
        .addQosPort])
    else done).andThen <|
  B.ifClaimed pb <|
    (if lbindingSet && canBind = .cannot then B.act pb .removeOvnInstalled else done).andThen
      (if !lbindingSet || canBind = .cannot then B.releaseLport pb else done)

/-- With a `binding_lport`, the question is for the interface of its local binding. -/
def considerWithIface (q : Ask) (canBind : CanBind) : Handler ρ :=
  B.ifAsk pb q (B.considerVifLport_ pb canBind true) (B.considerVifLport_ pb canBind false)

def considerVifLport : Handler ρ :=
  B.ifAsk pb .hasLbinding
    (B.ifAsk pb .ifaceIdVerDiffers
      ((B.act pb .deletePrimaryLport).andThen (B.considerVifLport_ pb (B.canBind pb) false))
      ((B.act pb .addLport).andThen (B.considerWithIface pb .hasIface (B.canBind pb))))
    (B.considerVifLport_ pb (B.canBind pb) false)

/-- The parent is considered first, if it is a VIF. -/
def considerParent (parent : Option String) (h h' : Handler ρ) : Handler ρ :=
  match parent.bind B.lportLookupByName with
  | none => h'
  | some parentPb =>
    if parentPb.type = .vif then (B.considerVifLport parentPb).ignore.andThen h else h'

def considerContainerLport : Handler ρ :=
  let canBind := match B.canBind pb with
    | .cannot => CanBind.cannot
    | _ => (pb.parentPort.bind B.lportLookupByName).elim .cannot B.canBind
  let release := B.ifHere pb (B.releaseLport pb) done
  let consider := B.ifAsk pb .parentIsVif (B.considerWithIface pb .parentHasIface canBind) release
  (B.act pb .addContainerLport).andThen
    (B.ifAsk pb .parentHasPb consider (B.considerParent pb.parentPort consider release))

def considerVirtualLport : Handler ρ :=
  let unbound := (B.considerVifLport_ pb .asMain false).andThen (B.act pb .removeRelatedLport)
  let consider := B.ifAsk pb .parentThisChassis
    ((B.act pb .addVirtualLport).andThen (B.considerWithIface pb .parentHasIface .asMain)) unbound
  B.ifAsk pb .parentHasLbinding
    (B.ifAsk pb .parentHasPb consider (B.considerParent pb.virtualParent consider consider)) unbound

def considerLocalport : Handler ρ :=
  B.ifAsk pb .hasLbinding
    ((B.act pb .addLport).andThen <|
      (match B.canBind pb with
        | .asMain => (B.releaseLportMainChassis pb).andThen (B.act pb .removeRelatedLport)
        | .asAdditional =>
          (B.releaseLportAdditionalChassis pb).andThen (B.act pb .removeRelatedLport)
        | .cannot => done).andThen (B.act pb .updateRelatedLport))
    done

def considerNonvifLport_ (ourChassis : Bool) : Handler ρ :=
  if ourChassis then
    (B.acts pb [.updateLocalLports, .addLocalDatapath, .updateRelatedLport]).andThen
      (B.claimLport pb (B.canBind pb))
  else (unpostpone pb.logicalPort).andThen (B.ifClaimed pb (B.releaseLport pb))

def considerHaLport : Handler ρ :=
  let ourChassis := B.haChassisGroupContains pb && B.haChassisGroupIsActive pb
  (if B.haChassisGroupContains pb && !ourChassis then B.acts pb [.addLocalDatapath,
    .updateRelatedLport]
    else done).andThen (B.considerNonvifLport_ pb ourChassis)

/-! ## Changes -/

def staleBindingLport : Handler ρ :=
  let release : Handler ρ := fun s => (B.releaseBindingLport pb s).map id fun s =>
    { s with rest := B.exec .deleteBindingLport pb s.rest }
  B.ifAsk pb .sameType
    (match pb.type with
      | .virtual => (B.act pb .deleteBindingLport).andThen (B.considerVirtualLport pb)
      | .container => B.considerContainerLport pb
      | _ => release)
    release

def localBindingHandleStaleBindingLports : Handler ρ :=
  B.ifAsk pb .hasPrimaryLport done (B.forEachLport pb B.staleBindingLport)

/-- The containers of a VIF are considered when it is bound here or no longer so. -/
def handleUpdatedVifLport : Handler ρ := fun s =>
  match pb.type with
  | .virtual => B.considerVirtualLport pb s
  | .container => B.considerContainerLport pb s
  | _ =>
    let containers := B.forEachLport pb
      fun c => if c.type = .container then B.considerContainerLport c else done
    let claimed := B.ask .thisChassis s.rest pb
    (B.considerVifLport pb).andThen (fun s =>
      if claimed = B.ask .thisChassis s.rest pb && !B.ask .isAdditionalChassis s.rest pb then done s
      else containers s) s

def handleUpdatedPort : Handler ρ :=
  (B.act pb .updateActivePbRasPd).andThen <|
  (B.ifAsk pb .hasBindingLport
    ((B.act pb .updateType).andThen (B.localBindingHandleStaleBindingLports pb)) done).andThen <|
  match pb.type with
  | .vif | .container | .virtual =>
    (B.act pb .updateLdMultichassisPorts).andThen (B.handleUpdatedVifLport pb)
  | .localport => B.considerLocalport pb
  | .patch => B.acts pb [.updateRelatedLport, .considerPatchPort]
  | .vtep => B.acts pb [.updateRelatedLport, .updateLdVtepPort]
  | .l2gateway | .l3gateway => B.considerNonvifLport_ pb (B.gatewayHere pb)
  | .chassisredirect =>
    (B.considerHaLport pb).andThen
      (match pb.distributedPort.bind B.lportLookupByName with
        | none => done
        | some distributedPb => B.act distributedPb .considerPatchPort)
  | .external => fun s => (B.considerHaLport pb s).map id fun s =>
    { s with rest := B.exec .updateLdExternalPorts pb s.rest }
  | .localnet => B.act pb .considerLocalnetLport
  | .remote | .unknown => done

/-- The children of a deleted VIF are released with it. -/
def handleDeletedVifLport (type : LportType) : Handler ρ :=
  (B.ifAsk pb .hasBindingLport
    (fun s =>
      let children := (B.bindingLports s.rest pb).filter (·.logicalPort ≠ pb.logicalPort)
      let bound := B.ask .thisChassis s.rest pb || B.ask .isAdditionalChassis s.rest pb
      (B.act pb .deleteBindingLport).andThen
        (if type = .vif && bound then forEach B.releaseBindingLport children else done) s)
    done).andThen <|
  (if type = .container then B.act pb .removeLocalLports else done).andThen
    (B.acts pb [.handleDeletedLport, .removeOvnInstalled])

variable (tracked : List TrackedPb)

/-- The body of the loop for new and updated ports. -/
def handleTracked (t : TrackedPb) : Handler ρ :=
  (if t.typeUpdated then B.act t.pb .updateLdPeers else done).andThen <|
  (B.handleUpdatedPort t.pb).andThen fun s =>
    if !t.isNew && t.tunnelKeyUpdated && B.hasLocalDatapath s.rest t.pb.dpTunnelKey then fail s
    else done s

/-- The loop for postponed ports; `handled` is what the loops before have made it. -/
def handlePostponed : Bool → List String → Handler ρ
  | handled, [] => fun s => (handled, s)
  | handled, portName :: names =>
    match B.lportLookupByName portName with
    | none => (unpostpone portName).andThen (handlePostponed handled names)
    | some pb => (B.handleUpdatedPort pb).andThen (handlePostponed true names)

def deletedPbs (p : LportType → Bool) : List Pb :=
  B.shash.order (((tracked.filter (·.isDeleted)).map (·.pb)).filter fun pb => p pb.type)

/-- The loops for container ports, virtual ports and VIFs. -/
def handleDeletedVifs : Handler ρ :=
  (forEach (fun t => B.act t.pb .cleanupDeleted) (tracked.filter (·.isDeleted))).andThen <|
    forEach (fun pb => B.handleDeletedVifLport pb pb.type) (B.deletedPbs tracked (· = .container) ++
      B.deletedPbs tracked (· = .virtual) ++ B.deletedPbs tracked (· = .vif))

def handleDeletedLocalports : Handler ρ :=
  forEach (fun pb => B.handleDeletedVifLport pb .localport) (B.deletedPbs tracked (· = .localport))

def handleDeletedOthers : Handler ρ :=
  forEach (fun pb => B.act pb .handleDeletedLport)
    (B.deletedPbs tracked (· ∉ [.container, .virtual, .vif, .localport]))

def handleUpdates : Handler ρ := forEach B.handleTracked (tracked.filter (!·.isDeleted))

/-- What is returned for the deleted localports is not looked at. -/
def bindingHandlePortBindingChanges : Handler ρ :=
  (B.handleDeletedVifs tracked).andThen <| (B.handleDeletedLocalports tracked).ignore.andThen <|
    (B.handleDeletedOthers tracked).andThen fun s =>
      let (handled, s) := B.handleUpdates tracked s
      (B.handlePostponed handled s.postponedPorts).andThen
        (fun s => (true, { s with rest := B.updateNewDatapaths s.rest })) s

/-! ## What has to be handled -/

/-- A postponed port without a row has nothing to be handled. -/
def handlePostponedPort (portName : String) : Handler ρ :=
  match B.lportLookupByName portName with
  | none => unpostpone portName
  | some pb => B.handleUpdatedPort pb

/-- Every tracked change and every postponed port is handled with success; a port of a local
    datapath that has got another tunnel key is not. -/
def handleEverything : Handler ρ :=
  (B.handleDeletedVifs tracked).andThen <| (B.handleDeletedLocalports tracked).andThen <|
    (B.handleDeletedOthers tracked).andThen <| (B.handleUpdates tracked).andThen fun s =>
      forEach B.handlePostponedPort s.postponedPorts s

def AllHandled (s : Out ρ) : Prop := (B.handleEverything tracked s).1 = true

/-- No claim is postponed: no port was claimed within `CLAIM_TIME_THRESHOLD_MS`. -/
def NoneRecent : Prop := ∀ r pb, B.ask .recentlyClaimed r pb = false

/-- **When no failure is lost**: the database can be written and no tracked port of a local datapath
    has got another tunnel key, or no port is postponed. -/
inductive NoneLost (s : Out ρ) : Prop
  | writable (h : B.sbReadonly = false)
    (hkeys : ∀ t ∈ tracked, t.isDeleted = false → t.isNew = false →
      t.tunnelKeyUpdated = true → ∀ r, B.hasLocalDatapath r t.pb.dpTunnelKey = false)
  | nonePostponed (h : B.NoneRecent)
    (hrows : ∀ name ∈ s.postponedPorts, B.lportLookupByName name = none)

/-- The claim of a VIF that another chassis has is postponed again. -/
def StaysPostponed (name : String) : Prop :=
  ∀ pb : Pb, pb.logicalPort = name → pb.type = .vif ∧ ∀ r, B.ask .thisChassis r pb = false ∧
    B.ask .chassis r pb = true ∧ B.ask .recentlyClaimed r pb = true

/-- **When one is lost**: a tracked port of a local datapath has got another tunnel key, and a port
    with a row is postponed and stays so. -/
structure Lost (s : Out ρ) : Prop where
  writable : B.sbReadonly = false
  rekeyed : ∃ t ∈ tracked, t.isDeleted = false ∧ t.isNew = false ∧ t.tunnelKeyUpdated = true ∧
    ∀ r, B.hasLocalDatapath r t.pb.dpTunnelKey = true
  postponed : ∃ name ∈ s.postponedPorts, B.lportLookupByName name ≠ none ∧ B.StaysPostponed name

/-! ## Where failures come from -/

/-- How the set of postponed ports may change. -/
structure Moves (l l' : List String) : Prop where
  added : B.NoneRecent → l' ⊆ l
  kept : ∀ name ∈ l, B.StaysPostponed name → name ∈ l'

/-- A function that succeeds if the database can be written, and postpones a claim only if the port
    was claimed a short time ago. -/
structure Fine (h : Handler ρ) : Prop where
  succeeds : B.sbReadonly = false → h.Succeeds
  moves : ∀ s, B.Moves s.postponedPorts (h s).2.postponedPorts

variable {B} in
theorem Moves.refl (l : List String) : B.Moves l l :=
  ⟨fun _ => List.Subset.refl l, fun _ hn _ => hn⟩

variable {B} in
theorem Moves.andThen {h h' : Handler ρ} {s : Out ρ}
    (hh : B.Moves s.postponedPorts (h s).2.postponedPorts)
    (hh' : ∀ s, B.Moves s.postponedPorts (h' s).2.postponedPorts) :
    B.Moves s.postponedPorts (h.andThen h' s).2.postponedPorts := by
  unfold Handler.andThen
  rcases hr : h s with ⟨_ | _, s'⟩ <;> rw [hr] at hh
  · exact hh
  · exact ⟨fun hn => List.Subset.trans ((hh' s').added hn) (hh.added hn), fun name hname hs =>
      (hh' s').kept name (hh.kept name hname hs) hs⟩

variable {B} in
theorem Moves.forEach {f : α → Handler ρ}
    (hf : ∀ x s, B.Moves s.postponedPorts (f x s).2.postponedPorts) :
    ∀ l s, B.Moves s.postponedPorts (forEach f l s).2.postponedPorts
  | [], _ => .refl _
  | x :: l, s => .andThen (hf x s) (Moves.forEach hf l)

namespace Fine

variable {B pb tracked} {h h' : Handler ρ}

theorem done : B.Fine done := ⟨fun _ _ => rfl, fun _ => .refl _⟩

theorem act {op : Op} : B.Fine (B.act pb op) := ⟨fun _ _ => rfl, fun _ => .refl _⟩

theorem unpostpone (hpb : ¬B.StaysPostponed pb.logicalPort) :
    B.Fine (unpostpone pb.logicalPort) := by
  refine ⟨fun _ _ => rfl, fun s => ⟨fun _ => List.filter_subset_self _, fun name hname hs => ?_⟩⟩
  exact List.mem_filter.2 ⟨hname, decide_eq_true fun heq => hpb (heq ▸ hs)⟩

theorem ignore (hh : B.Fine h) : B.Fine h.ignore := ⟨fun _ _ => rfl, hh.moves⟩

theorem andThen (hh : B.Fine h) (hh' : B.Fine h') : B.Fine (h.andThen h') :=
  ⟨fun hw => (hh.succeeds hw).andThen (hh'.succeeds hw), fun s => .andThen (hh.moves s) hh'.moves⟩

theorem ifAsk {q : Ask} (hh : B.Fine h) (hh' : B.Fine h') : B.Fine (B.ifAsk pb q h h') := by
  refine ⟨fun hw s => ?_, fun s => ?_⟩ <;> unfold Ctx.ifAsk <;> split
  · exact hh.succeeds hw s
  · exact hh'.succeeds hw s
  · exact hh.moves s
  · exact hh'.moves s

theorem ite {p : Prop} [Decidable p] (hh : B.Fine h) (hh' : B.Fine h') :
    B.Fine (if p then h else h') := by
  split
  · exact hh
  · exact hh'

/-- Where the database can't be written, all that has to be said is which claims are postponed. -/
theorem ifReadonly (hh : ∀ s, B.Moves s.postponedPorts (h s).2.postponedPorts) (hh' : B.Fine h') :
    B.Fine (if B.sbReadonly then h else h') := by
  split
  · next hr => exact ⟨fun hw => absurd (hw.symm.trans hr) Bool.false_ne_true, hh⟩
  · exact hh'

theorem write {q : Ask} {op : Op} : B.Fine (B.write pb q op) :=
  ifAsk (ifReadonly (fun _ => .refl _) act) done

theorem forEach {f : α → Handler ρ} (hf : ∀ x, B.Fine (f x)) (l : List α) :
    B.Fine (Handler.forEach f l) :=
  ⟨fun hw => .forEach fun x _ => (hf x).succeeds hw, Moves.forEach (fun x => (hf x).moves) l⟩

theorem acts {ops : List Op} : B.Fine (B.acts pb ops) := forEach (fun _ => act) ops

theorem forEachLport {f : Pb → Handler ρ} (hf : ∀ pb, B.Fine (f pb)) :
    B.Fine (B.forEachLport pb f) :=
  ⟨fun hw s => (forEach hf _).succeeds hw s, fun s => (forEach hf _).moves s⟩

/-- What is done to the rest at last changes neither. -/
theorem map (hh : B.Fine h) (f : ρ → ρ) :
    B.Fine fun s => (h s).map id fun s => { s with rest := f s.rest } :=
  ⟨fun hw s => hh.succeeds hw s, fun s => hh.moves s⟩

theorem ifHere (hh : B.Fine h) (hh' : B.Fine h') : B.Fine (B.ifHere pb h h') :=
  hh.ifAsk (hh.ifAsk hh')

theorem ifClaimed (hh : B.Fine h) : B.Fine (B.ifClaimed pb h) := hh.ifHere (hh.ifAsk done)

theorem claimNew (hpb : ¬B.StaysPostponed pb.logicalPort) : B.Fine (B.claimNew pb) :=
  write.andThen <| act.andThen <| (unpostpone hpb).andThen <| act.andThen write

/-- The one place at which a claim is postponed. -/
theorem postponeOr (hh : B.Fine h) : B.Fine (B.ifAsk pb .recentlyClaimed (postpone pb) h) := by
  refine ⟨fun hw s => ?_, fun s => ?_⟩ <;> unfold Ctx.ifAsk <;> split
  · rfl
  · exact hh.succeeds hw s
  · next hrecent =>
    exact ⟨fun hn => absurd (hrecent.symm.trans (hn ..)) nofun,
      fun _ hname _ => List.mem_insert_of_mem hname⟩
  · exact hh.moves s

theorem claimMain : B.Fine (B.ifAsk pb .thisChassis
    ((B.ifAsk pb .claimAgain (B.act pb .claimIface) Handler.done).andThen <|
      (B.act pb .updateLportTracking).andThen (B.write pb .encapChanged .setEncap))
    (B.ifAsk pb .chassis (B.ifAsk pb .recentlyClaimed (postpone pb) (B.claimNew pb))
      (B.claimNew pb))) := by
  by_cases hpb : B.StaysPostponed pb.logicalPort
  · have hagain := (hpb pb rfl).2
    refine ⟨fun _ s => ?_, fun s => ?_⟩ <;> simp only [Ctx.ifAsk, hagain, if_true] <;>
      rw [if_neg Bool.false_ne_true]
    · rfl
    · refine ⟨fun hn => ?_, fun _ hname _ => List.mem_insert_of_mem hname⟩
      exact absurd ((hagain s.rest).2.2.symm.trans (hn ..)) nofun
  · exact ifAsk ((act.ifAsk done).andThen (act.andThen write))
      ((postponeOr (claimNew hpb)).ifAsk (claimNew hpb))

theorem claimLport (canBind : CanBind) : B.Fine (B.claimLport pb canBind) := by
  cases canBind with
  | cannot => exact done
  | asMain => exact claimMain
  | asAdditional => exact (done.ifAsk acts).andThen write

theorem releaseLportMainChassis : B.Fine (B.releaseLportMainChassis pb) := by
  refine write.andThen ((ifAsk (ifReadonly (fun s => ?_) act) done).andThen write)
  unfold Ctx.ifAsk
  split <;> exact .refl _

theorem releaseLportAdditionalChassis : B.Fine (B.releaseLportAdditionalChassis pb) :=
  write.andThen write

theorem releaseLport : B.Fine (B.releaseLport pb) :=
  (releaseLportMainChassis.ifAsk (releaseLportAdditionalChassis.ifAsk done)).andThen acts

theorem releaseBindingLport : B.Fine (B.releaseBindingLport pb) :=
  ifHere (act.andThen (releaseLport.andThen act)) done

theorem considerVifLport_ (canBind : CanBind) (lbindingSet : Bool) :
    B.Fine (B.considerVifLport_ pb canBind lbindingSet) :=
  (((claimLport canBind).andThen acts).ite done).andThen
    (ifClaimed ((act.ite done).andThen (releaseLport.ite done)))

theorem considerWithIface (q : Ask) (canBind : CanBind) :
    B.Fine (B.considerWithIface pb q canBind) :=
  (considerVifLport_ ..).ifAsk (considerVifLport_ ..)

theorem considerVifLport : B.Fine (B.considerVifLport pb) :=
  ifAsk (ifAsk (act.andThen (considerVifLport_ ..)) (act.andThen (considerWithIface ..)))
    (considerVifLport_ ..)

theorem considerParent {parent : Option String} (hh : B.Fine h) (hh' : B.Fine h') :
    B.Fine (B.considerParent parent h h') := by
  unfold Ctx.considerParent
  split
  · exact hh'
  · exact (considerVifLport.ignore.andThen hh).ite hh'

theorem considerContainerLport : B.Fine (B.considerContainerLport pb) := by
  have hrelease : B.Fine (B.ifHere pb (B.releaseLport pb) Handler.done) := ifHere releaseLport done
  exact act.andThen (ifAsk (ifAsk (considerWithIface ..) hrelease)
    (considerParent (ifAsk (considerWithIface ..) hrelease) hrelease))

theorem considerVirtualLport : B.Fine (B.considerVirtualLport pb) := by
  have hunbound :
    B.Fine ((B.considerVifLport_ pb .asMain false).andThen (B.act pb .removeRelatedLport)) :=
    (considerVifLport_ ..).andThen act
  have hconsider : B.Fine (B.ifAsk pb .parentThisChassis ((B.act pb .addVirtualLport).andThen
      (B.considerWithIface pb .parentHasIface .asMain)) _) :=
        ifAsk (act.andThen (considerWithIface ..)) hunbound
  exact ifAsk (ifAsk hconsider (considerParent hconsider hconsider)) hunbound

theorem considerLocalport : B.Fine (B.considerLocalport pb) := by
  refine ifAsk (act.andThen (andThen ?_ act)) done
  split
  · exact releaseLportMainChassis.andThen act
  · exact releaseLportAdditionalChassis.andThen act
  · exact done

/-- What stays postponed is a VIF. -/
theorem considerNonvifLport_ (ourChassis : Bool) (hpb : pb.type ≠ .vif) :
    B.Fine (B.considerNonvifLport_ pb ourChassis) :=
  ite (acts.andThen (claimLport _))
    ((unpostpone fun hs => hpb (hs pb rfl).1).andThen (ifClaimed releaseLport))

theorem considerHaLport (hpb : pb.type ≠ .vif) : B.Fine (B.considerHaLport pb) :=
  (acts.ite done).andThen (considerNonvifLport_ _ hpb)

theorem staleBindingLport : B.Fine (B.staleBindingLport pb) := by
  have hrelease : B.Fine fun s => (B.releaseBindingLport pb s).map id fun s =>
      { s with rest := B.exec .deleteBindingLport pb s.rest } := releaseBindingLport.map _
  refine ifAsk ?_ hrelease
  split
  · exact act.andThen considerVirtualLport
  · exact considerContainerLport
  · exact hrelease

theorem handleUpdatedVifLport : B.Fine (B.handleUpdatedVifLport pb) := by
  have hcontainers : B.Fine (B.forEachLport pb fun c =>
      if c.type = .container then B.considerContainerLport c else Handler.done) :=
    forEachLport fun _ => considerContainerLport.ite done
  have hvif : ∀ claimed : Bool, B.Fine ((B.considerVifLport pb).andThen fun s =>
      if claimed = B.ask .thisChassis s.rest pb && !B.ask .isAdditionalChassis s.rest
        pb then Handler.done s
      else B.forEachLport pb (fun c => if c.type = .container then B.considerContainerLport c else
        Handler.done) s) := by
    refine fun claimed => considerVifLport.andThen ⟨fun hw s => ?_, fun s => ?_⟩ <;> split
    · rfl
    · exact hcontainers.succeeds hw s
    · exact .refl _
    · exact hcontainers.moves s
  refine ⟨fun hw s => ?_, fun s => ?_⟩ <;> unfold Ctx.handleUpdatedVifLport <;> split
  · exact considerVirtualLport.succeeds hw s
  · exact considerContainerLport.succeeds hw s
  · exact (hvif _).succeeds hw s
  · exact considerVirtualLport.moves s
  · exact considerContainerLport.moves s
  · exact (hvif _).moves s

theorem handleUpdatedPort : B.Fine (B.handleUpdatedPort pb) := by
  refine act.andThen
    (andThen ((act.andThen (done.ifAsk (forEachLport fun _ => staleBindingLport))).ifAsk done) ?_)
  split
  any_goals exact act.andThen handleUpdatedVifLport
  any_goals exact acts
  any_goals exact considerNonvifLport_ _ (by simp [*])
  · exact considerLocalport
  · next hpb =>
    refine (considerHaLport (by simp [hpb])).andThen ?_
    split
    · exact done
    · exact act
  · next hpb => exact (considerHaLport (by simp [hpb])).map _
  · exact act
  · exact done
  · exact done

theorem handleDeletedVifLport (type : LportType) : B.Fine (B.handleDeletedVifLport pb type) := by
  refine andThen (ifAsk ?_ done) ((act.ite done).andThen acts)
  have hchildren : ∀ (bound : Bool) l, B.Fine ((B.act pb .deleteBindingLport).andThen
      (if type = .vif && bound then Handler.forEach B.releaseBindingLport l else Handler.done)) :=
        fun _ l =>
    act.andThen ((forEach (fun _ => releaseBindingLport) l).ite done)
  exact ⟨fun hw s => (hchildren _ _).succeeds hw s, fun s => (hchildren _ _).moves s⟩

theorem handleDeletedVifs : B.Fine (B.handleDeletedVifs tracked) :=
  (forEach (fun _ => act) _).andThen (forEach (fun _ => handleDeletedVifLport _) _)

end Fine

/-! ## What is returned -/

variable {B tracked} {s : Out ρ}

/-- A tracked update fails only by its tunnel key, if the database can be written. -/
theorem succeeds_handleTracked (hw : B.sbReadonly = false) {t : TrackedPb}
    (hkey : t.isNew = false → t.tunnelKeyUpdated = true →
      ∀ r, B.hasLocalDatapath r t.pb.dpTunnelKey = false) : (B.handleTracked t).Succeeds := by
  refine ((Fine.act.ite Fine.done).succeeds hw).andThen
    ((Fine.handleUpdatedPort.succeeds hw).andThen fun s => ?_)
  split
  · next hfail =>
    simp only [Bool.and_eq_true, Bool.not_eq_true'] at hfail
    exact absurd (hfail.2.symm.trans (hkey hfail.1.1 hfail.1.2 _)) nofun
  · rfl

theorem handleTracked_eq_false {t : TrackedPb} (hnew : t.isNew = false)
    (hkey : t.tunnelKeyUpdated = true)
    (hlocal : ∀ r, B.hasLocalDatapath r t.pb.dpTunnelKey = true) (s : Out ρ) :
    (B.handleTracked t s).1 = false := by
  rw [Bool.eq_false_iff, ne_eq, handleTracked, andThen_fst, andThen_fst]
  rintro ⟨-, -, h⟩
  simp [hnew, hkey, hlocal, fail] at h

theorem moves_handleTracked (t : TrackedPb) (s : Out ρ) :
    B.Moves s.postponedPorts (B.handleTracked t s).2.postponedPorts := by
  refine .andThen ((Fine.act.ite Fine.done).moves s)
    fun s => .andThen (Fine.handleUpdatedPort.moves s) fun s => ?_
  split <;> exact .refl _

/-- A deleted localport has no children to be released. -/
theorem succeeds_handleDeletedLocalports : (B.handleDeletedLocalports tracked).Succeeds := by
  have hacts : ∀ (pb : Pb) ops, (B.acts pb ops).Succeeds := fun _ _ => .forEach fun _ _ _ => rfl
  refine .forEach fun pb _ => Succeeds.andThen (fun s => ?_)
    (Succeeds.andThen (fun _ => rfl) (hacts pb _))
  unfold ifAsk
  split
  · simp [andThen, act, done]
  · rfl

/-- A port with a row overwrites the result. -/
theorem handlePostponed_iff {handled : Bool} {names : List String} :
    (B.handlePostponed handled names s).1 = true ↔
      (forEach B.handlePostponedPort names s).1 = true ∧
      (handled = true ∨ ∃ name ∈ names, B.lportLookupByName name ≠ none) := by
  induction names generalizing handled s with
  | nil => simp [handlePostponed, forEach, done]
  | cons name names ih =>
    rw [handlePostponed, forEach, handlePostponedPort, andThen_fst]
    cases hpb : B.lportLookupByName name with
    | none => simp [ih, hpb, andThen_fst, and_assoc]
    | some pb => simp [ih, hpb, andThen_fst]

/-- The state after the deletions, and what the loop for updates makes of it. -/
def afterDeletions (B : Ctx ρ) (tracked : List TrackedPb) (s : Out ρ) : Out ρ :=
  (B.handleDeletedOthers tracked
    (B.handleDeletedLocalports tracked (B.handleDeletedVifs tracked s).2).2).2

def updates (B : Ctx ρ) (tracked : List TrackedPb) (s : Out ρ) : Bool × Out ρ :=
  B.handleUpdates tracked (B.afterDeletions tracked s)

/-- Every postponed port that is left is handled. -/
def PostponedHandled (B : Ctx ρ) (tracked : List TrackedPb) (s : Out ρ) : Prop :=
  (forEach B.handlePostponedPort (B.updates tracked s).2.postponedPorts (B.updates tracked s).2).1 =
    true

theorem succeeds_handleDeletedOthers : (B.handleDeletedOthers tracked).Succeeds :=
  .forEach fun _ _ _ => rfl

theorem allHandled_iff : B.AllHandled tracked s ↔ (B.handleDeletedVifs tracked s).1 = true ∧
    (B.updates tracked s).1 = true ∧ B.PostponedHandled tracked s := by
  unfold AllHandled handleEverything
  rw [andThen_fst, succeeds_handleDeletedLocalports.andThen_eq,
    succeeds_handleDeletedOthers.andThen_eq, andThen_fst]
  rfl

theorem bindingHandlePortBindingChanges_iff :
    (B.bindingHandlePortBindingChanges tracked s).1 = true ↔
      (B.handleDeletedVifs tracked s).1 = true ∧
      B.PostponedHandled tracked s ∧ ((B.updates tracked s).1 = true ∨
        ∃ name ∈ (B.updates tracked s).2.postponedPorts, B.lportLookupByName name ≠ none) := by
  unfold bindingHandlePortBindingChanges
  have hignore : (B.handleDeletedLocalports tracked).ignore.Succeeds := fun _ => rfl
  rw [andThen_fst, hignore.andThen_eq, succeeds_handleDeletedOthers.andThen_eq]
  dsimp only
  rw [andThen_fst, handlePostponed_iff, and_iff_left rfl]
  rfl

theorem moves_updates : B.Moves s.postponedPorts (B.updates tracked s).2.postponedPorts := by
  have hdeleted : B.Moves s.postponedPorts (B.afterDeletions tracked s).postponedPorts := by
    have h : B.Fine ((B.handleDeletedVifs tracked).ignore.andThen
        ((B.handleDeletedLocalports tracked).ignore.andThen (B.handleDeletedOthers tracked))) :=
      Fine.handleDeletedVifs.ignore.andThen
        ((Fine.forEach (fun _ => Fine.handleDeletedVifLport _) _).ignore.andThen
          (Fine.forEach (fun _ => Fine.act) _))
    exact h.moves s
  have hupdates : B.Moves (B.afterDeletions tracked s).postponedPorts
    (B.updates tracked s).2.postponedPorts :=
    Moves.forEach moves_handleTracked _ _
  exact ⟨fun hn => List.Subset.trans (hupdates.added hn) (hdeleted.added hn), fun name hname hs =>
    hupdates.kept name (hdeleted.kept name hname hs) hs⟩

theorem NoneLost.updates_fst (h : B.NoneLost tracked s) (hu : (B.updates tracked s).1 = true ∨
    ∃ name ∈ (B.updates tracked s).2.postponedPorts, B.lportLookupByName name ≠ none) :
    (B.updates tracked s).1 = true := by
  cases h with
  | writable hw hkeys =>
    refine Succeeds.forEach (fun t ht => ?_) _
    obtain ⟨ht, hdel⟩ := List.mem_filter.1 ht
    exact succeeds_handleTracked hw (hkeys t ht (by simpa using hdel))
  | nonePostponed hn hrows =>
    exact hu.resolve_right fun ⟨name, hname, hrow⟩ => hrow
      (hrows name (moves_updates.added hn hname))

end Ctx

/-- Nothing has to be written; the port `b` has a row. -/
def allDone : Ctx Unit where
  sbReadonly := false
  lportLookupByName name := if name = "b" then some ⟨"b", .vif, 1, none, none, none⟩ else none
  canBind _ := .cannot
  gatewayHere _ := false
  haChassisGroupContains _ := false
  haChassisGroupIsActive _ := false
  ask _ _ _ := false
  exec _ _ := id
  bindingLports _ _ := []
  hasLocalDatapath _ key := key = 1
  updateNewDatapaths := id
  shash := .listed Pb

/-- An existing port has got another tunnel key; its datapath has the key `dp`. -/
def rekeyed (dp : ℕ) : List TrackedPb :=
  [⟨⟨"a", .vif, dp, none, none, none⟩, false, false, false, true⟩]

end Binding

end Ovn

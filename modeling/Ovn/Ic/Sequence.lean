/-
  The sequence numbers of ovn-ic (`ic/ovn-ic.c`).

  A user of the IC northbound database increments `nb_ic_cfg` and waits for `sb_ic_cfg`.  Each
  availability zone runs ovn-ic: it raises its own counter in the IC southbound database until it
  has the value of `nb_ic_cfg`, and when it sees the counters of all zones there, it sets
  `sb_ic_cfg`. What a zone sees of the two databases is a copy that is behind by an arbitrary delay,
  and what it writes is committed later, or not at all.
-/
import Ovn.Lib.History
import Ovn.Lib.Run
import Mathlib.Data.Fintype.Sum

namespace Ovn.Ic

/-! ## The databases -/

structure InbGlobal where
  nbIcCfg : ℕ
  sbIcCfg : ℕ

/-- The IC_NB_Global row, which is there once ovn-ic or ovn-ic-nbctl has inserted it. -/
structure Inb where
  global : Option InbGlobal

/-- `nb_ic_cfg`, which is 0 in a row that is new. -/
def Inb.nbIcCfg (inb : Inb) : ℕ := inb.global.elim 0 InbGlobal.nbIcCfg

/-- `nb_ic_cfg` of the IC_SB_Global row and of each Availability_Zone. -/
structure Isb (Z : Type*) where
  global : Option ℕ
  az : Z → Option ℕ

def Isb.nbIcCfg {Z : Type*} (isb : Isb Z) : ℕ := isb.global.getD 0

def LLONG_MAX : ℕ := 2 ^ 63 - 1

/-- What a transaction does to the counter of its zone. -/
inductive AzOp
  | keep
  /-- `ovsdb_idl_txn_increment`, after a write of 0 where `reset` is set. -/
  | increment (reset : Bool)
  | set (value : ℕ)
  deriving DecidableEq

/-- A transaction on the IC southbound database.  The last two fields are history: whether `ts_run`,
    `gateway_run`, `port_binding_run` and `route_run` ran to completion for it, and `nb_ic_cfg` of
    what they ran on. -/
structure IsbTxn where
  insert : Bool
  insertGlobal : Bool
  az : AzOp
  nbIcCfg : Option ℕ
  complete : Bool
  view : ℕ
  deriving DecidableEq

/-- The counter of a zone after a transaction of its own. -/
def IsbTxn.row (t : IsbTxn) (row : Option ℕ) : Option ℕ :=
  let row := if t.insert then some 0 else row
  match t.az with
  | .keep => row
  | .increment reset => row.map fun v => (if reset then 0 else v) + 1
  | .set value => row.map fun _ => value

def IsbTxn.global (t : IsbTxn) (row : Option ℕ) : Option ℕ :=
  (if t.insertGlobal then some 0 else row).map t.nbIcCfg.getD

/-- A transaction on the IC northbound database that inserts the row or sets `sb_ic_cfg`, and the
    version of the IC southbound database that it relies on. -/
structure InbTxn where
  insert : Bool
  sbIcCfg : Option ℕ
  read : ℕ
  deriving DecidableEq

def InbTxn.global (t : InbTxn) (row : Option InbGlobal) : Option InbGlobal :=
  (if t.insert then some ⟨0, 0⟩ else row).map fun row =>
    { row with sbIcCfg := t.sbIcCfg.getD row.sbIcCfg }

/-! ## A zone -/

/-- The transaction of `ovnisb_idl_loop`. -/
inductive IsbLoop
  | idle
  | committing (t : IsbTxn)
  /-- It is in this version, and the reply is on its way. -/
  | committed (version : ℕ)
  /-- The connection is lost, and is made again on this version or a later one. -/
  | down (version : ℕ)
  deriving DecidableEq

/-- A transaction can be opened. -/
def IsbLoop.isOpen : IsbLoop → Bool
  | .idle | .down _ => true
  | _ => false

/-- ovn-ic of a zone: the versions it has copies of, `cur_cfg` and `next_cfg` of `ovnisb_idl_loop`,
    and the transactions that are not finished. -/
structure Zone where
  inb : ℕ
  isb : ℕ
  curCfg : ℕ
  nextCfg : ℕ
  isbLoop : IsbLoop
  inbTxn : Option InbTxn
  deriving DecidableEq

/-- The version from which on it has copies when it sends a transaction. -/
def Zone.since (o : Zone) : ℕ :=
  match o.isbLoop with
  | .committed version | .down version => version
  | _ => o.isb

structure Update where
  az : AzOp
  nextCfg : Option ℕ
  done : Option ℕ

/-- Which transactions an iteration has, and whether it writes anything else to the IC southbound
    database. -/
structure Avail where
  nbTxn : Bool
  sbTxn : Bool
  inbTxn : Bool
  isbTxn : Bool
  writes : Bool

section
variable {Z : Type*} [Fintype Z] [DecidableEq Z]

/-- `update_sequence_numbers`, when it has both transactions. -/
def updateSequenceNumbers (nbIcCfg : ℕ) (isb : Isb Z) (az curCfg : ℕ) : Update :=
  if nbIcCfg ≠ isb.nbIcCfg ∧ nbIcCfg ≠ az then ⟨.increment (az = LLONG_MAX), some nbIcCfg, none⟩
  else if az ≠ curCfg then ⟨.set curCfg, none, none⟩
  -- the counter of another zone is different
  else if ∃ z, (isb.az z).any (· ≠ az) then ⟨.keep, none, none⟩
  else if nbIcCfg ≠ isb.nbIcCfg then ⟨.keep, none, some az⟩
  else ⟨.keep, none, none⟩

/-- What an iteration of the main loop writes: the row is created if it is missing, `ovn_db_run`
    runs as far as there are transactions, and the counters are updated, in new rows if there are
    none. -/
def Zone.writes (o : Zone) (z : Z) (inb : Inb) (isb : Isb Z) (avail : Avail) : IsbTxn × Update :=
  let upd := if avail.isbTxn ∧ avail.inbTxn then
      updateSequenceNumbers inb.nbIcCfg isb ((isb.az z).getD 0) o.curCfg
    else ⟨.keep, none, none⟩
  (⟨(isb.az z).isNone, avail.isbTxn && avail.inbTxn && isb.global.isNone, upd.az, upd.done,
    avail.nbTxn && avail.sbTxn, inb.nbIcCfg⟩, upd)

def Zone.iterate (o : Zone) (z : Z) (i j : ℕ) (inb : Inb) (isb : Isb Z) (avail : Avail) : Zone :=
  let (t, upd) := o.writes z inb isb avail
  let nextCfg := upd.nextCfg.getD o.nextCfg
  let changed : Prop := t.insert ∨ t.insertGlobal ∨ t.az ≠ .keep ∨ t.nbIcCfg ≠ none ∨ avail.writes
  let sent : Prop := avail.isbTxn ∧ o.isbLoop = .idle
  let insert := inb.global.isNone
  { o with
    inb := i
    isb := j
    nextCfg := nextCfg
    isbLoop := if sent ∧ changed then .committing t else o.isbLoop
    -- a transaction without any change is finished at once
    curCfg := if sent ∧ ¬ changed then nextCfg else o.curCfg
    inbTxn :=
      if avail.isbTxn ∧ avail.inbTxn ∧ (insert ∨ upd.done ≠ none) then some ⟨insert, upd.done, j⟩
      else o.inbTxn }

end

/-! ## The system -/

/-- The databases and the zones.  The last field is history: `nb_ic_cfg` of what a zone ran on, for
    each complete run of which the transaction was committed. -/
structure State (Z : Type*) where
  inb : History Inb
  isb : History (Isb Z)
  zones : Z → Zone
  ran : Z → List ℕ

inductive Action (Z : Type*)
  /-- `ovn-ic-nbctl`, which inserts the row if it is missing; with `--wait` it increments
      `nb_ic_cfg`. -/
  | user (wait : Bool)
  | remove (z : Z)
  /-- An iteration, on copies of these versions. -/
  | iterate (z : Z) (inb isb : ℕ) (avail : Avail)
  | commitIsb (z : Z) (ok : Bool)
  | replyIsb (z : Z)
  /-- The connection to the IC southbound database is lost, and with it what has become of a
      transaction. -/
  | disconnect (z : Z)
  | reconnect (z : Z)
  | commitInb (z : Z) (ok : Bool)

namespace State

variable {Z : Type*} [Fintype Z] [DecidableEq Z] (s : State Z)

def setZone (z : Z) (o : Zone) : State Z := { s with zones := Function.update s.zones z o }

def row (z : Z) : Option ℕ := s.isb.current.az z

def step : Action Z → Option (State Z)
  | .user wait =>
    match s.inb.current.global with
    -- with `--wait` it reads the row that was missing
    | none => if wait then none else some { s with inb := s.inb.push ⟨some ⟨0, 0⟩⟩ }
    | some row =>
      let cfg := if row.nbIcCfg = LLONG_MAX then 0 else row.nbIcCfg
      some (if wait then { s with inb := s.inb.push ⟨some { row with nbIcCfg := cfg + 1 }⟩ } else s)
  | .remove z =>
    let isb := s.isb.current
    some { s with isb := s.isb.push { isb with az := Function.update isb.az z none } }
  | .iterate z i j avail =>
    let o := s.zones z
    if o.inb ≤ i ∧ i ≤ s.inb.last ∧ o.isb ≤ j ∧ j ≤ s.isb.last ∧
        (avail.isbTxn → o.isbLoop.isOpen) ∧ (avail.inbTxn → o.inbTxn = none) then
      some (s.setZone z (o.iterate z i j (s.inb.version i) (s.isb.version j) avail))
    else none
  | .commitIsb z ok =>
    let o := s.zones z
    match o.isbLoop with
    | .committing t =>
      if ok then
        let isb := s.isb.current
        -- there is an index on the name, and at most one global row
        if t.insert ∧ (s.row z).isSome ∨ t.insertGlobal ∧ isb.global.isSome then none
        else
          some { s.setZone z { o with isbLoop := .committed (s.isb.last + 1) } with
            isb := s.isb.push ⟨t.global isb.global, Function.update isb.az z (t.row (isb.az z))⟩
            ran := if t.complete then Function.update s.ran z (t.view :: s.ran z) else s.ran }
      else some (s.setZone z { o with isbLoop := .idle })
    | _ => none
  | .replyIsb z =>
    let o := s.zones z
    match o.isbLoop with
    | .committed version =>
      some (s.setZone z
        { o with isbLoop := .idle, curCfg := o.nextCfg, isb := max o.isb version })
    | _ => none
  | .disconnect z =>
    let o := s.zones z
    some (s.setZone z { o with isbLoop := .down o.since })
  | .reconnect z =>
    let o := s.zones z
    match o.isbLoop with
    | .down version => some (s.setZone z { o with isbLoop := .idle, isb := max o.isb version })
    | _ => none
  | .commitInb z ok =>
    let o := s.zones z
    match o.inbTxn with
    | none => none
    | some t =>
      let s' := s.setZone z { o with inbTxn := none }
      let row := s.inb.current.global
      if ok then
        if t.insert ∧ row.isSome then none else some { s' with inb := s.inb.push ⟨t.global row⟩ }
      else some s'

/-- All counters have the value `cfg`; without one there are no global rows yet. -/
def init (cfg : Option ℕ) (zones : Z → Bool) : State Z where
  inb := .start ⟨cfg.map fun n => ⟨n, n⟩⟩
  isb := .start ⟨cfg, fun z => if zones z then some (cfg.getD 0) else none⟩
  zones _ := ⟨0, 0, 0, 0, .idle, none⟩
  ran _ := []

end State

variable {Z : Type*} [Fintype Z] [DecidableEq Z]

def zones (cfg : Option ℕ) (present : Z → Bool) : System (State Z) (Action Z) :=
  ⟨.init cfg present, State.step⟩

/-- The zone has committed a complete run on what had `nb_ic_cfg` at least `n`. -/
def State.Ran (s : State Z) (z : Z) (n : ℕ) : Prop := ∃ v ∈ s.ran z, n ≤ v

/-- When `sb_ic_cfg` is set, it is set to what all zones have run for. -/
def Sound (s : State Z) (a : Action Z) : Prop :=
  ∀ z t n, a = .commitInb z true → (s.zones z).inbTxn = some t → t.sbIcCfg = some n →
    ∀ y, s.row y ≠ none → s.Ran y n

end Ovn.Ic

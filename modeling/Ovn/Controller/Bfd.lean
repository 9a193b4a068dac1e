/-
  BFD sessions (`controller/pinctrl.c`).

  ovn-controller has a session for each BFD row of a router port on this chassis.  It sends control
  packets for the session, takes those of the peer, and brings the session down when none have come
  for the detection time.  Times and intervals of a session are in milliseconds.
-/
import Ovn.Lib.Run
import Mathlib.Tactic.Ring

namespace Ovn.Bfd

/-! ## Packets -/

inductive BfdState
  | adminDown
  | down
  | init
  | up
  deriving DecidableEq, Repr

def BfdState.toBits : BfdState → BitVec 8
  | .adminDown => 0
  | .down => 1
  | .init => 2
  | .up => 3

inductive BfdFlag
  | multipoint
  | demand
  | auth
  | ctl
  | final
  | poll
  deriving DecidableEq

def BfdFlag.bit : BfdFlag → ℕ
  | .multipoint => 0
  | .demand => 1
  | .auth => 2
  | .ctl => 3
  | .final => 4
  | .poll => 5

/-- `struct bfd_msg`; intervals are in microseconds. -/
structure Msg where
  versDiag : BitVec 8
  flags : BitVec 8
  mult : BitVec 8
  length : BitVec 8
  myDisc : BitVec 32
  yourDisc : BitVec 32
  minTx : BitVec 32
  minRx : BitVec 32
  deriving DecidableEq

namespace Msg

def version (msg : Msg) : ℕ := (msg.versDiag >>> 5).toNat

def flag (msg : Msg) (f : BfdFlag) : Bool := msg.flags.getLsbD f.bit

def state (msg : Msg) : BfdState :=
  match (msg.flags >>> 6).toNat with
  | 0 => .adminDown
  | 1 => .down
  | 2 => .init
  | _ => .up

end Msg

inductive DlType
  | ip
  | ipv6
  | other
  deriving DecidableEq

def IPPROTO_UDP : ℕ := 17

def BFD_DEST_PORT : ℕ := 3784

def BFD_VERSION : ℕ := 1

def BFD_PACKET_LEN : ℕ := 24

/-- A packet that comes with the action: its headers, the size of what follows the UDP header, and
    the message there. -/
structure Packet where
  dlType : DlType
  src : String
  nwProto : ℕ
  udpDst : ℕ
  payload : ℕ
  msg : Msg
  deriving DecidableEq

/-- `pinctrl_check_bfd_msg`. -/
def checkBfdMsg (p : Packet) : Bool :=
  let msg := p.msg
  if p.dlType ≠ .ip ∧ p.dlType ≠ .ipv6 then false
  else if p.nwProto ≠ IPPROTO_UDP then false
  else if p.udpDst ≠ BFD_DEST_PORT then false
  else if msg.version ≠ BFD_VERSION then false
  -- authentication is not supported
  else if msg.flag .auth then false
  else if msg.length.toNat < BFD_PACKET_LEN then false
  else if msg.mult = 0 then false
  else if msg.flag .multipoint then false
  else if msg.myDisc = 0 then false
  else if msg.flag .final ∧ msg.flag .poll then false
  else if (msg.state = .init ∨ msg.state = .up) ∧ msg.yourDisc = 0 then false
  else true

/-! ## Sessions -/

/-- `struct bfd_entry`: `dst` is the address it is found by, `src` its own, and `v4` says of which
    kind they are. -/
structure Entry where
  dst : String
  src : String
  v4 : Bool
  localDisc : BitVec 32
  remoteDisc : BitVec 32
  localMinTx : ℕ
  localMinRx : ℕ
  remoteMinRx : ℕ
  remoteDemandMode : Bool
  localMult : BitVec 8
  state : BfdState
  changeState : Bool
  detectionTimeout : ℕ
  lastRx : ℕ
  localDisc_ne : localDisc ≠ 0

namespace Entry

/-- `bfd_monitor_put_bfd_msg`. -/
def putBfdMsg (e : Entry) (final : Bool) : Packet where
  dlType := if e.v4 then .ip else .ipv6
  src := e.src
  nwProto := IPPROTO_UDP
  udpDst := BFD_DEST_PORT
  payload := BFD_PACKET_LEN
  msg :=
    { versDiag := 1 <<< 5
      flags := (if final then 1 <<< 4 else 0) ||| e.state.toBits <<< 6
      mult := e.localMult
      length := 24
      myDisc := e.localDisc
      yourDisc := e.remoteDisc
      minTx := BitVec.ofNat 32 (e.localMinTx * 1000)
      minRx := BitVec.ofNat 32 (e.localMinRx * 1000) }

/-- `bfd_check_detection_timeout`. -/
def checkDetectionTimeout (now : ℕ) (e : Entry) : Entry :=
  if e.state = .adminDown ∨ e.state = .down then e
  else if e.detectionTimeout = 0 then e
  else if now < e.lastRx + e.detectionTimeout then e
  else { e with state := .down, changeState := true }

/-- What `pinctrl_handle_bfd_msg` reads off a message first. -/
def learn (msg : Msg) (e : Entry) : Entry :=
  { e with
    remoteDisc := msg.myDisc
    remoteMinRx := msg.minRx.toNat / 1000
    detectionTimeout := msg.mult.toNat * max (msg.minTx.toNat / 1000) e.localMinRx % 2 ^ 32 }

def setState (state : BfdState) (e : Entry) : Entry :=
  { e with state := state, changeState := true }

/-- The state machine of `pinctrl_handle_bfd_msg`. -/
def advance (now : ℕ) (peer : BfdState) (e : Entry) : Entry :=
  match e.state with
  | .down =>
    let e := if peer = .down then e.setState .init else if peer = .init then e.setState .up else e
    { e with lastRx := now }
  | .init =>
    let e := if peer = .init ∨ peer = .up then e.setState .up
      else if peer = .adminDown then e.setState .down else e
    { e with lastRx := now }
  | .up =>
    let e := if peer = .adminDown ∨ peer = .down then e.setState .down else e
    { e with lastRx := now }
  | .adminDown => e

/-- `pinctrl_handle_bfd_msg`, once the session is found: the session, and whether the message is
    answered. -/
def receive (now : ℕ) (msg : Msg) (e : Entry) : Entry × Bool :=
  let e := e.learn msg
  if msg.state = .adminDown ∧ (e.state = .init ∨ e.state = .up) then
    ({ e.setState .down with lastRx := now }, false)
  else
    let e := e.advance now msg.state
    let e := if e.state = .up ∧ msg.flag .demand then { e with remoteDemandMode := true } else e
    (e, msg.flag .poll)

end Entry

/-- `pinctrl_find_bfd_monitor_entry_by_disc`: the addresses are compared by their hashes only. -/
def foundByDisc (hash : String → ℕ) (ip : String) (disc : BitVec 32) (e : Entry) : Bool :=
  hash e.dst = hash ip && e.localDisc = disc

/-- `pinctrl_handle_bfd_msg`, on the sessions in the order of `bfd_monitor_map`. -/
def handleBfdMsg (hash : String → ℕ) (now : ℕ) (entries : List Entry) (p : Packet) : List Entry :=
  if checkBfdMsg p then
    entries.replaceF fun e =>
      if foundByDisc hash p.src p.msg.yourDisc e then some (e.receive now p.msg).1 else none
  else entries

def bfdReply (hash : String → ℕ) (now : ℕ) (entries : List Entry) (p : Packet) : Option Packet :=
  if checkBfdMsg p then
    (entries.find? (foundByDisc hash p.src p.msg.yourDisc)).bind fun e =>
      let (e, answer) := e.receive now p.msg
      if answer then some (e.putBfdMsg true) else none
  else none

end Ovn.Bfd

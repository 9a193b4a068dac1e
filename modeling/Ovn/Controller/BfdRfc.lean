/-
  The sessions of ovn-controller against those of RFC 5880.

  `Rfc` is the reception of control packets of section 6.8.6 of the RFC, with the expiration of the
  detection time of section 6.8.4; its intervals are in microseconds.  ovn-controller follows it for
  packets that are regular: that name the session, come from its address, have intervals of whole
  milliseconds, and ask for demand mode only in a session that is up, and then until its end.
-/
import Ovn.Controller.Bfd

namespace Ovn.Bfd

open List

/-! ## The RFC -/

namespace Rfc

/-- The state variables of a session that receptions change, and those they depend on. -/
structure Session where
  addr : String
  sessionState : BfdState
  localDiscr : BitVec 32
  remoteDiscr : BitVec 32
  remoteMinRxInterval : ℕ
  requiredMinRxInterval : ℕ
  remoteDemandMode : Bool
  detectionTime : ℕ
  lastRx : ℕ
  deriving DecidableEq

def isControl (p : Packet) : Bool :=
  (p.dlType = .ip || p.dlType = .ipv6) && p.nwProto = IPPROTO_UDP && p.udpDst = BFD_DEST_PORT

/-- It is discarded before a session is looked for, or for authentication, which is not in use. -/
def discards (p : Packet) : Bool :=
  let msg := p.msg
  msg.version ≠ 1 || msg.length.toNat < (if msg.flag .auth then 26 else 24) ||
    msg.length.toNat > p.payload || msg.mult = 0 || msg.flag .multipoint || msg.myDisc = 0 ||
    (msg.yourDisc = 0 && (msg.state = .init || msg.state = .up)) || msg.flag .auth

/-- The session of a packet: by the discriminator, or else by the source address. -/
def selects (p : Packet) (s : Session) : Bool :=
  if p.msg.yourDisc ≠ 0 then s.localDiscr = p.msg.yourDisc else s.addr = p.src

def nextState (state received : BfdState) : BfdState :=
  match state, received with
  | .adminDown, _ => .adminDown
  | _, .adminDown => .down
  | .down, .down => .init
  | .down, .init => .up
  | .init, .init => .up
  | .init, .up => .up
  | .up, .down => .down
  | state, _ => state

def receive (now : ℕ) (msg : Msg) (s : Session) : Session :=
  { s with
    remoteDiscr := msg.myDisc
    remoteDemandMode := msg.flag .demand
    remoteMinRxInterval := msg.minRx.toNat
    detectionTime := msg.mult.toNat * max s.requiredMinRxInterval msg.minTx.toNat
    sessionState := nextState s.sessionState msg.state
    -- in `AdminDown` it is discarded
    lastRx := if s.sessionState = .adminDown then s.lastRx else now }

/-- Section 6.8.6. -/
def reception (now : ℕ) (sessions : List Session) (p : Packet) : List Session :=
  if isControl p && !discards p then
    sessions.replaceF fun s => if selects p s then some (receive now p.msg s) else none
  else sessions

/-- Section 6.8.4. -/
def expire (now : ℕ) (s : Session) : Session :=
  if (s.sessionState = .init ∨ s.sessionState = .up) ∧ s.lastRx + s.detectionTime ≤ now then
    { s with sessionState := .down }
  else s

end Rfc

/-! ## The relation -/

/-- The state variables a session of ovn-controller stands for. -/
def Entry.abs (e : Entry) : Rfc.Session where
  addr := e.dst
  sessionState := e.state
  localDiscr := e.localDisc
  remoteDiscr := e.remoteDisc
  remoteMinRxInterval := e.remoteMinRx * 1000
  requiredMinRxInterval := e.localMinRx * 1000
  remoteDemandMode := e.remoteDemandMode
  detectionTime := e.detectionTimeout * 1000
  lastRx := e.lastRx * 1000

inductive Event
  | rx (now : ℕ) (p : Packet)
  | tick (now : ℕ)

abbrev Both := List Entry × List Rfc.Session

def Both.step (hash : String → ℕ) (s : Both) : Event → Both
  | .rx now p => (handleBfdMsg hash now s.1 p, Rfc.reception (now * 1000) s.2 p)
  | .tick now => (s.1.map (·.checkDetectionTimeout now), s.2.map (Rfc.expire (now * 1000)))

def sessions (hash : String → ℕ) (entries : List Entry) : System Both Event :=
  ⟨(entries, entries.map Entry.abs), fun s a => some (s.step hash a)⟩

/-! ## Regular packets -/

/-- What is asked of a message for a session. -/
structure Entry.Regular (e : Entry) (msg : Msg) : Prop where
  minTx : 1000 ∣ msg.minTx.toNat
  minRx : 1000 ∣ msg.minRx.toNat
  timeout_pos : 0 < msg.mult.toNat * max (msg.minTx.toNat / 1000) e.localMinRx
  timeout_lt : msg.mult.toNat * max (msg.minTx.toNat / 1000) e.localMinRx < 2 ^ 32
  demand : msg.flag .demand = true → e.remoteDemandMode = true ∨
  Rfc.nextState e.state msg.state = .up
  noDemand : msg.flag .demand = false → e.remoteDemandMode = false

/-- What is asked of a packet: the sender has not set both `P` and `F`, the message is not cut off,
    and the discriminator is that of a session with the sender, for which the message is regular. -/
structure Regular (entries : List Entry) (p : Packet) : Prop where
  pollFinal : ¬ (p.msg.flag .final = true ∧ p.msg.flag .poll = true)
  payload : p.msg.length.toNat ≤ p.payload
  yourDisc : p.msg.yourDisc = 0 →
    p.msg.state = .init ∨ p.msg.state = .up ∨ ∀ e ∈ entries, e.dst ≠ p.src
  session : ∀ e ∈ entries, e.localDisc = p.msg.yourDisc → e.dst = p.src ∧ e.Regular p.msg

def Event.Regular (s : Both) : Event → Prop
  | .rx _ p => Bfd.Regular s.1 p
  | .tick _ => True

/-! ## One session -/

variable {e : Entry} {msg : Msg} {now : ℕ}

theorem abs_advance (now : ℕ) (peer : BfdState) (e : Entry) :
    (e.advance now peer).abs = { e.abs with
      sessionState := Rfc.nextState e.state peer
      lastRx := if e.state = .adminDown then e.lastRx * 1000 else now * 1000 } := by
  rcases e with ⟨dst, src, v4, localDisc, remoteDisc, minTx, minRx, rMinRx, demand, mult,
    state, change,
    timeout, lastRx, hne⟩
  cases state <;> cases peer <;> rfl

theorem abs_learn (h : e.Regular msg) : (e.learn msg).abs = { e.abs with
    remoteDiscr := msg.myDisc
    remoteMinRxInterval := msg.minRx.toNat
    detectionTime := msg.mult.toNat * max (e.localMinRx * 1000) msg.minTx.toNat } := by
  have hrx : msg.minRx.toNat / 1000 * 1000 = msg.minRx.toNat := Nat.div_mul_cancel h.minRx
  have htx : msg.minTx.toNat / 1000 * 1000 = msg.minTx.toNat := Nat.div_mul_cancel h.minTx
  have htimeout : msg.mult.toNat * max (msg.minTx.toNat / 1000) e.localMinRx % 2 ^ 32 * 1000
      = msg.mult.toNat * max (e.localMinRx * 1000) msg.minTx.toNat := by
    rw [Nat.mod_eq_of_lt h.timeout_lt, Nat.mul_assoc, ← Nat.mul_max_mul_right, htx, Nat.max_comm]
  simp only [Entry.abs, Entry.learn, hrx, htimeout]

/-- What the RFC has for demand mode, and ovn-controller for a regular message. -/
theorem demand_eq (h : e.Regular msg) :
    (e.remoteDemandMode || decide (Rfc.nextState e.state msg.state = .up) && msg.flag .demand)
      = msg.flag .demand := by
  cases hd : msg.flag .demand with
  | true =>
    rw [Bool.and_true, Bool.or_eq_true, decide_eq_true_iff]
    exact h.demand hd
  | false =>
    rw [Bool.and_false, Bool.or_false]
    exact h.noDemand hd

/-- **A message is taken as the RFC has it.** -/
theorem abs_receive (h : e.Regular msg) :
    (e.receive now msg).1.abs = Rfc.receive (now * 1000) msg e.abs := by
  have hlearn := abs_learn h
  have hdemand := demand_eq h
  unfold Entry.receive
  dsimp only
  split
  next hdown =>
    -- the peer is administratively down
    obtain ⟨hm, hs⟩ := hdown
    have hs : e.state = .init ∨ e.state = .up := hs
    have hnext : Rfc.nextState e.state msg.state = .down := by
      rw [hm]
      rcases hs with hs | hs <;> rw [hs] <;> rfl
    have hadmin : e.state ≠ .adminDown := by
      rcases hs with hs | hs <;> rw [hs] <;> nofun
    rw [hnext] at hdemand
    have hkeep : e.remoteDemandMode = msg.flag .demand := by simpa using hdemand
    change ({ (e.learn msg).abs with sessionState := .down, lastRx := now * 1000 } : Rfc.Session) =
      _
    rw [hlearn, Rfc.receive]
    simp only [Entry.abs, hnext, hadmin, if_false, ← hkeep]
  next =>
    have habs := abs_advance now msg.state (e.learn msg)
    rw [hlearn] at habs
    have hstate : ((e.learn msg).advance now msg.state).state = Rfc.nextState e.state msg.state :=
      congrArg Rfc.Session.sessionState habs
    have hdm : ((e.learn msg).advance now msg.state).remoteDemandMode = e.remoteDemandMode :=
      congrArg Rfc.Session.remoteDemandMode habs
    have hset :
      ((if ((e.learn msg).advance now msg.state).state = .up ∧ msg.flag .demand = true then
          { (e.learn msg).advance now msg.state with remoteDemandMode := true }
        else (e.learn msg).advance now msg.state : Entry)).abs
        = { ((e.learn msg).advance now msg.state).abs with
            remoteDemandMode := msg.flag .demand } := by
      rw [hstate]
      split
      next hup =>
        rw [hup.2]
        rfl
      next hup =>
        have hup : (decide (Rfc.nextState e.state msg.state = .up) && msg.flag .demand) =
          false := by simp_all
        rw [hup, Bool.or_false, ← hdm] at hdemand
        rw [← hdemand]
        rfl
    exact hset.trans (by rw [habs]; rfl)

/-- The detection time of a session that is not down has been set. -/
def Entry.Timed (e : Entry) : Prop :=
  e.state = .init ∨ e.state = .up → 0 < e.detectionTimeout

theorem Entry.Timed.receive (h : e.Regular msg) : (e.receive now msg).1.Timed := by
  intro _
  have hpos : 0 < ((e.receive now msg).1.abs).detectionTime := by
    rw [abs_receive h]
    have := h.timeout_pos
    rcases Nat.eq_zero_or_pos (msg.mult.toNat) with hm | hm
    · simp_all
    · refine Nat.mul_pos hm ?_
      have hmax : 0 < max (msg.minTx.toNat / 1000) e.localMinRx := Nat.pos_of_mul_pos_left this
      change 0 < max (e.localMinRx * 1000) msg.minTx.toNat
      omega
  have : 0 < (e.receive now msg).1.detectionTimeout * 1000 := hpos
  omega

/-- **The detection time expires as the RFC has it.** -/
theorem abs_checkDetectionTimeout (h : e.Timed) (now : ℕ) :
    (e.checkDetectionTimeout now).abs = Rfc.expire (now * 1000) e.abs := by
  unfold Entry.checkDetectionTimeout Rfc.expire
  have hstate : e.abs.sessionState = e.state := rfl
  rw [hstate]
  split
  next hdown =>
    rw [if_neg]
    rintro ⟨hs | hs, -⟩ <;> rw [hs] at hdown <;> simp at hdown
  next hdown =>
    have hs : e.state = .init ∨ e.state = .up := by
      cases hs : e.state <;> simp [hs] at hdown ⊢
    have hpos := h hs
    rw [if_neg (by omega)]
    have hiff : e.abs.lastRx + e.abs.detectionTime ≤ now * 1000 ↔
      ¬ now < e.lastRx + e.detectionTimeout := by
      change e.lastRx * 1000 + e.detectionTimeout * 1000 ≤ now * 1000 ↔ _
      omega
    split
    next hlt => rw [if_neg fun hexp => hiff.1 hexp.2 hlt]
    next hge =>
      rw [if_pos ⟨hs, hiff.2 hge⟩]
      rfl

theorem Entry.Timed.checkDetectionTimeout (h : e.Timed) (now : ℕ) :
    (e.checkDetectionTimeout now).Timed := by
  unfold Entry.checkDetectionTimeout
  split
  · exact h
  split
  · exact h
  split
  · exact h
  · rintro (hs | hs) <;> cases hs

/-! ## All sessions -/

theorem map_replaceF {α β : Type*} (g : α → β) {f : α → Option α} {f' : β → Option β} :
    ∀ {l : List α}, (∀ a ∈ l, (f a).map g = f' (g a)) → (l.replaceF f).map g = (l.map g).replaceF f'
  | [], _ => rfl
  | a :: l, h => by
    have ha := h a mem_cons_self
    have hl : (l.replaceF f).map g = (l.map g).replaceF f' :=
      map_replaceF g (forall_mem_cons.1 h).2
    rw [map_cons]
    unfold List.replaceF
    rw [← ha]
    cases f a with
    | none => exact congrArg (g a :: ·) hl
    | some b => rfl

theorem mem_replaceF {α : Type*} {f : α → Option α} {b : α} :
    ∀ {l : List α}, b ∈ l.replaceF f → b ∈ l ∨ ∃ a ∈ l, f a = some b
  | a :: l, h => by
    unfold List.replaceF at h
    cases ha : f a with
    | none =>
      rw [ha] at h
      rcases mem_cons.1 h with rfl | h
      · exact .inl mem_cons_self
      · rcases mem_replaceF h with h | ⟨a', ha', hb⟩
        · exact .inl (mem_cons_of_mem a h)
        · exact .inr ⟨a', mem_cons_of_mem a ha', hb⟩
    | some c =>
      rw [ha] at h
      rcases mem_cons.1 h with rfl | h
      · exact .inr ⟨a, mem_cons_self, ha⟩
      · exact .inl (mem_cons_of_mem a h)

variable {p : Packet} {entries : List Entry} {hash : String → ℕ}

theorem checkBfdMsg_eq_true : checkBfdMsg p = true ↔ (p.dlType = .ip ∨ p.dlType = .ipv6) ∧
    p.nwProto = IPPROTO_UDP ∧ p.udpDst = BFD_DEST_PORT ∧ p.msg.version = 1 ∧
    p.msg.flag .auth = false ∧ 24 ≤ p.msg.length.toNat ∧ ¬ p.msg.mult = 0 ∧
    p.msg.flag .multipoint = false ∧ ¬ p.msg.myDisc = 0 ∧
    ¬ (p.msg.flag .final = true ∧ p.msg.flag .poll = true) ∧
    ¬ ((p.msg.state = .init ∨ p.msg.state = .up) ∧ p.msg.yourDisc = 0) := by
  simp only [checkBfdMsg, BFD_VERSION, BFD_PACKET_LEN, Bool.if_false_left, Bool.and_eq_true,
    Bool.not_eq_true', decide_eq_false_iff_not, Bool.not_eq_true, not_not, Nat.not_lt,
    Bool.and_true, ← or_iff_not_and_not]

/-- Both discard the same packets, but for two kinds: the RFC has no rule for a packet with `P` and
    `F`, and the code none for one that is cut off. -/
theorem checkBfdMsg_eq (hpf : ¬ (p.msg.flag .final = true ∧ p.msg.flag .poll = true))
    (hlen : p.msg.length.toNat ≤ p.payload) :
    checkBfdMsg p = (Rfc.isControl p && !Rfc.discards p) := by
  rw [Bool.eq_iff_iff, checkBfdMsg_eq_true]
  unfold Rfc.isControl Rfc.discards
  cases hauth : p.msg.flag .auth with
  | true => simp [hauth]
  | false => grind

theorem found_eq (h : Regular entries p) (hc : checkBfdMsg p = true) {e : Entry}
    (he : e ∈ entries) :
    (if foundByDisc hash p.src p.msg.yourDisc e then some (e.receive now p.msg).1 else none).map
      Entry.abs
      = if Rfc.selects p e.abs then some (Rfc.receive (now * 1000) p.msg e.abs) else none := by
  by_cases hyour : p.msg.yourDisc = 0
  · have hnone : foundByDisc hash p.src p.msg.yourDisc e = false := by
      rw [foundByDisc, hyour, decide_eq_false e.localDisc_ne, Bool.and_false]
    have hsel : Rfc.selects p e.abs = false := by
      rw [Rfc.selects, if_neg (not_not.2 hyour)]
      rcases h.yourDisc hyour with hs | hs | hno
      · simp [checkBfdMsg, hs, hyour] at hc
      · simp [checkBfdMsg, hs, hyour] at hc
      · exact decide_eq_false (hno e he)
    rw [hnone, hsel]
    rfl
  · rw [Rfc.selects, if_pos hyour]
    by_cases hdisc : e.localDisc = p.msg.yourDisc
    · obtain ⟨hdst, hreg⟩ := h.session e he hdisc
      have hfound : foundByDisc hash p.src p.msg.yourDisc e = true := by
        rw [foundByDisc, hdst, decide_eq_true rfl, decide_eq_true hdisc]
        rfl
      have hsel : decide (e.abs.localDiscr = p.msg.yourDisc) = true := decide_eq_true hdisc
      rw [hfound, hsel]
      exact congrArg some (abs_receive hreg)
    · have hfound : foundByDisc hash p.src p.msg.yourDisc e = false := by
        rw [foundByDisc, decide_eq_false hdisc, Bool.and_false]
      have hsel : decide (e.abs.localDiscr = p.msg.yourDisc) = false := decide_eq_false hdisc
      rw [hfound, hsel]
      rfl

theorem map_abs_handleBfdMsg (h : Regular entries p) :
    (handleBfdMsg hash now entries p).map Entry.abs
      = Rfc.reception (now * 1000) (entries.map Entry.abs) p := by
  unfold handleBfdMsg Rfc.reception
  rw [← checkBfdMsg_eq h.pollFinal h.payload]
  split
  next hc => exact map_replaceF Entry.abs fun e he => found_eq h hc he
  · rfl

theorem timed_handleBfdMsg (h : Regular entries p) (ht : ∀ e ∈ entries, e.Timed) :
    ∀ e ∈ handleBfdMsg hash now entries p, e.Timed := by
  unfold handleBfdMsg
  split
  · intro e he
    rcases mem_replaceF he with he | ⟨a, ha, hr⟩
    · exact ht e he
    split at hr
    next hf =>
      obtain rfl := Option.some.inj hr
      rw [foundByDisc, Bool.and_eq_true, decide_eq_true_iff, decide_eq_true_iff] at hf
      exact Entry.Timed.receive (h.session a ha hf.2).2
    · cases hr
  · exact ht

/-- **Sessions conform to the RFC** as long as the packets are regular. -/
theorem bfd_conforms (hash : String → ℕ) {entries : List Entry}
    (hdown : ∀ e ∈ entries, e.state = .adminDown ∨ e.state = .down) {s : Both}
    (h : (sessions hash entries).Reached Event.Regular s) : s.1.map Entry.abs = s.2 := by
  refine (h.invariant (I := fun s => s.1.map Entry.abs = s.2 ∧ ∀ e ∈ s.1, e.Timed) ⟨rfl, ?_⟩ ?_).1
  · rintro e he (hs | hs) <;> rcases hdown e he with hd | hd <;> rw [hs] at hd <;> cases hd
  · rintro s a s' ⟨habs, htimed⟩ ha hs
    cases hs
    cases a with
    | rx now p =>
      refine ⟨?_, timed_handleBfdMsg ha htimed⟩
      exact (map_abs_handleBfdMsg ha).trans (congrArg (Rfc.reception _ · p) habs)
    | tick now =>
      refine ⟨?_, fun e he => ?_⟩
      · change (s.1.map _).map Entry.abs = s.2.map _
        rw [← habs, map_map, map_map]
        exact map_congr_left fun e he => abs_checkDetectionTimeout (htimed e he) now
      · obtain ⟨e', he', rfl⟩ := mem_map.1 he
        exact (htimed e' he').checkDetectionTimeout now

/-! ## Two endpoints -/

/-- Two endpoints with a session each, and the packets they have sent so far: any of them may
    arrive, at any time and more than once. -/
structure Link where
  ends : Bool → List Entry
  sent : List (Bool × Packet)

inductive LinkEvent
  /-- An endpoint sends a control packet for a session. -/
  | send (side : Bool) (i : ℕ)
  | deliver (now : ℕ) (side : Bool) (p : Packet)
  | tick (now : ℕ) (side : Bool)

def Link.step (hash : String → ℕ) (s : Link) : LinkEvent → Option Link
  | .send side i => ((s.ends side)[i]?).map fun e =>
    { s with sent := (side, e.putBfdMsg false) :: s.sent }
  | .deliver now side p =>
    if (!side, p) ∈ s.sent then
      some
        { ends := Function.update s.ends side (handleBfdMsg hash now (s.ends side) p)
          sent := (bfdReply hash now (s.ends side) p).toList.map (side, ·) ++ s.sent }
    else none
  | .tick now side =>
    some
      { s with ends :=
      Function.update s.ends side ((s.ends side).map (·.checkDetectionTimeout now)) }

def link (hash : String → ℕ) (ends : Bool → List Entry) : System Link LinkEvent :=
  ⟨⟨ends, []⟩, Link.step hash⟩

theorem not_foundByDisc_zero (hash : String → ℕ) (ip : String) (e : Entry) :
    foundByDisc hash ip 0 e = false := by
  rw [foundByDisc, decide_eq_false e.localDisc_ne, Bool.and_false]

theorem handleBfdMsg_zero (hash : String → ℕ) (now : ℕ) (entries : List Entry) {p : Packet}
    (hp : p.msg.yourDisc = 0) :
    handleBfdMsg hash now entries p = entries ∧ bfdReply hash now entries p = none := by
  unfold handleBfdMsg bfdReply
  rw [hp]
  have hfound : ∀ e, foundByDisc hash p.src 0 e = false := not_foundByDisc_zero hash p.src
  split
  · refine ⟨?_, ?_⟩
    · simp only [hfound]
      induction entries with
      | nil => rfl
      | cons e es ih => exact congrArg (e :: ·) ih
    · rw [List.find?_eq_none.2 fun e _ => by rw [hfound e]; exact Bool.false_ne_true]
      rfl
  · exact ⟨rfl, rfl⟩

/-- **Two endpoints that are down stay down**: neither takes the packets of the other, which do not
    know its discriminator yet. -/
theorem endpoints_stay_down (hash : String → ℕ) {ends : Bool → List Entry}
    (hstart : ∀ side, ∀ e ∈ ends side, e.state = .down ∧ e.remoteDisc = 0) {s : Link}
    (h : (link hash ends).Reached (fun _ _ => True) s) :
    ∀ side, ∀ e ∈ s.ends side, e.state = .down ∧ e.remoteDisc = 0 := by
  refine (h.invariant
    (I := fun s => (∀ side, ∀ e ∈ s.ends side, e.state = .down ∧ e.remoteDisc = 0) ∧
    ∀ q ∈ s.sent, q.2.msg.yourDisc = 0) ⟨hstart, nofun⟩ ?_).1
  rintro s a s' ⟨hdown, hsent⟩ - hs
  cases a with
  | send side i =>
    obtain ⟨e, he, rfl⟩ := Option.map_eq_some_iff.1 hs
    exact ⟨hdown, forall_mem_cons.2 ⟨(hdown side e (mem_of_getElem? he)).2, hsent⟩⟩
  | deliver now side p =>
    dsimp only [link, Link.step] at hs
    split at hs
    next hin =>
      obtain ⟨hsame, hreply⟩ := handleBfdMsg_zero hash now (s.ends side) (hsent _ hin)
      rw [hsame, hreply, Function.update_eq_self] at hs
      cases hs
      exact ⟨hdown, hsent⟩
    · cases hs
  | tick now side =>
    cases hs
    refine ⟨fun side' e he => ?_, hsent⟩
    dsimp only at he
    by_cases hside : side' = side
    · subst hside
      rw [Function.update_self] at he
      obtain ⟨e', he', rfl⟩ := mem_map.1 he
      have := hdown side' e' he'
      rwa [Entry.checkDetectionTimeout, if_pos (.inr this.1)]
    · rw [Function.update_of_ne hside] at he
      exact hdown side' e he

/-! A session with a peer of the discriminator 7, at 10.0.0.2. -/

private def idle (remote : BitVec 32) : Entry where
  dst := "10.0.0.2"
  src := "10.0.0.1"
  v4 := true
  localDisc := 5
  remoteDisc := remote
  localMinTx := 1000
  localMinRx := 1000
  remoteMinRx := 1
  remoteDemandMode := false
  localMult := 5
  state := .down
  changeState := false
  detectionTimeout := 30000
  lastRx := 0
  localDisc_ne := by decide

private def peer : Entry :=
  { idle 0 with dst := "10.0.0.1", src := "10.0.0.2", localDisc := 7, localDisc_ne := by decide }

private def bothDown : System Link LinkEvent :=
  link (fun _ => 0) fun side => [cond side (idle 0) peer]

/-- Each gets the packet of the other, and a detection timer runs out. -/
private def exchange : List LinkEvent :=
  [.send true 0, .send false 0, .deliver 1 false ((idle 0).putBfdMsg false),
    .deliver 2 true (peer.putBfdMsg false), .tick 40000 true]

theorem endpoints_stay_down_exchange : ∃ s : Link,
    bothDown.exec (fun _ _ => True) bothDown.init exchange = some s ∧ s.sent.length = 2 ∧
    ∀ side, ∀ e ∈ s.ends side, e.state = .down ∧ e.remoteDisc = 0 :=
  ⟨_, rfl, rfl, endpoints_stay_down (fun _ => 0) (by decide)
    (System.Reached.init.exec (S := bothDown) (P := fun _ _ => True) (l := exchange) rfl)⟩

private def peerPacket (yourDisc : BitVec 32) : Packet where
  dlType := .ip
  src := "10.0.0.2"
  nwProto := IPPROTO_UDP
  udpDst := BFD_DEST_PORT
  payload := 24
  msg := ⟨0x20, 0x40, 3, 24, 7, yourDisc, 1000000, 1000000⟩

/-- The first packet of a peer that does not know the session yet: the RFC has the session go to
    `Init`. -/
theorem not_bfd_conforms : ∃ s : Both,
    (sessions (fun _ => 0) [idle 0]).Reached (fun _ _ => True) s ∧ s.1.map Entry.abs ≠ s.2 :=
  ⟨_, System.Reached.init.step (a := Event.rx 1 (peerPacket 0)) trivial rfl, by decide⟩

private theorem peerPacket_regular : Regular [idle 0] (peerPacket 5) where
  pollFinal := by decide
  payload := by decide
  yourDisc := by decide
  session e he _ := by
    obtain rfl := mem_singleton.1 he
    exact ⟨rfl, by decide, by decide, by decide, by decide, by decide, by decide⟩

theorem bfd_conforms_peer : ∃ s : Both,
    (sessions (fun _ => 0) [idle 0]).Reached Event.Regular s ∧ s.1.map (·.state) = [.init] ∧
      s.1.map Entry.abs = s.2 := by
  have h := System.Reached.init.step (S := sessions (fun _ => 0) [idle 0]) (P := Event.Regular)
    (a := Event.rx 1 (peerPacket 5)) peerPacket_regular rfl
  refine ⟨_, h, by decide, bfd_conforms _ (fun e he => ?_) h⟩
  obtain rfl := mem_singleton.1 he
  exact .inr rfl

end Ovn.Bfd

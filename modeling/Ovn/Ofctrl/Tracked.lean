/-
  The invariant of the connection.

  * `Tracked` relates the flow updates in flight and the pending requests to the log of puts,
  * every function of `ofctrl.c` and `ofctrl-seqno.c` keeps it, as long as a request is not
    created below `cur_cfg` and none is left below it at a reconnection,
  * `Behind`: a put that is due is not forgotten.
-/
import Ovn.Ofctrl.MainLoop

namespace Ovn

open Ofctrl Batch
open List

/-! ## The invariant of the connection -/

/-- What ties the flow updates in flight, `cur_cfg` and the pending requests to the puts. -/
structure Tracked (q : Seqno.Table SeqnoType ℕ) (o : Ofctrl) : Prop where
  seqno : o.seqno = o.conn
  conn_le : ∀ b ∈ o.puts, b.conn ≤ o.conn
  unsent : o.state ≠ .updateFlows → ∀ b ∈ o.puts, b.conn = o.conn → b.barrier = none
  settled : o.state = .updateFlows → o.flowUpdates = [] → ∀ k, Settled o.puts o.conn k
  last : o.state = .updateFlows → ∀ f ∈ o.flowUpdates.getLast?, Last o.puts o.conn f.xid
  created_le : ∀ u ∈ q.updates, u.created ≤ o.puts.length
  flowCfg_le : ∀ u ∈ q.updates, u.flowCfg ≤ q.reqSeqno
  covered : o.swconn.connected = true → o.state = .updateFlows → ∀ f ∈ o.flowUpdates,
    ∀ u ∈ q.updates, u.flowCfg ≤ f.reqCfg → Covered o.puts o.conn f.xid u.created
  reqCfg_le : o.swconn.connected = true → o.state = .updateFlows →
    ∀ f ∈ o.flowUpdates, f.reqCfg ≤ q.reqSeqno
  acked : ∀ u ∈ q.updates, u.flowCfg ≤ o.curCfg → Acknowledged o.puts o.conn u.created

/-- Since the last completed put on the connection nothing has happened that a put would
    have to make up for. -/
def Behind (o : Ofctrl) : Prop :=
  o.skippedLastTime = true ∨ o.initialClear = true ∨ o.state = .updateFlows

theorem Ofctrl.barrierReplied_cases (x : Xid) (o : Ofctrl) :
    o.barrierReplied x = o ∨ ∃ fup fups, o.flowUpdates = fup :: fups ∧ fup.xid = x ∧
      o.barrierReplied x = { o with
        flowUpdates := fups
        curCfg := if o.curCfg ≤ fup.reqCfg then fup.reqCfg else o.curCfg } := by
  unfold barrierReplied
  split
  · exact .inl rfl
  next fup fups hf =>
    split
    next hx => exact .inr ⟨fup, fups, hf, hx, rfl⟩
    next => exact .inl rfl

/-- The flow updates after a batch was sent: some of the old ones, and the new one. -/
theorem Ofctrl.trackFlowUpdate_spec (reqCfg : ℕ) (x : Xid) (fups : List FlowUpdate) :
    ∃ pre, trackFlowUpdate reqCfg x fups = pre ++ [⟨x, reqCfg⟩] ∧ ∀ f ∈ pre, f ∈ fups := by
  have hrev : ∀ fups, ∃ rest, trackFlowUpdateRev reqCfg x fups = ⟨x, reqCfg⟩ :: rest ∧
      ∀ f ∈ rest, f ∈ fups := by
    intro fups
    induction fups with
    | nil => exact ⟨[], rfl, by simp⟩
    | cons fup fups ih =>
      rw [trackFlowUpdateRev]
      split
      · obtain ⟨rest, e, hr⟩ := ih
        exact ⟨rest, e, fun f hf => mem_cons_of_mem _ (hr f hf)⟩
      · split
        · exact ⟨fups, rfl, fun f hf => mem_cons_of_mem _ hf⟩
        · simp
  obtain ⟨rest, e, hr⟩ := hrev fups.reverse
  refine ⟨rest.reverse, by rw [trackFlowUpdate, e, reverse_cons], fun f hf => ?_⟩
  exact mem_reverse.1 (hr f (mem_reverse.1 hf))

theorem Ofctrl.advanceLast_spec (reqCfg : ℕ) {fups : List FlowUpdate} (h : fups ≠ []) :
    ∃ pre fup, fups = pre ++ [fup] ∧ advanceLast reqCfg fups = pre ++ [⟨fup.xid, reqCfg⟩] := by
  rcases eq_nil_or_concat' fups with rfl | ⟨pre, fup, rfl⟩
  · exact absurd rfl h
  · simp [advanceLast]

/-- What a call of `ofctrl_put` does: nothing that matters, or it finds the switch up to date,
    or it is skipped, or it is completed. -/
theorem Ofctrl.ofctrlPut_cases (a : PutArgs) (o : Ofctrl) :
    (¬changed a o = true ∧ o.ofctrlPut a = o) ∨
    (¬changed a o = true ∧ o.flowUpdates = [] ∧ o.ofctrlPut a = { o with
        curCfg := a.reqCfg
        oldReqCfg := a.reqCfg
        puts := if o.state = .updateFlows then o.puts ++ [⟨o.conn, none, false⟩] else o.puts }) ∨
    o.ofctrlPut a = { o with oldReqCfg := a.reqCfg, skippedLastTime := true } ∨
    o.state = .updateFlows ∧ o.ofctrlPut a = { o with oldReqCfg := a.reqCfg }.completePut a := by
  have hneeded : ∀ o' : Ofctrl, o' = { o with oldReqCfg := a.reqCfg } →
      ((if !ofctrlCanPut a.packetsQueued o' then { o' with skippedLastTime := true }
        else o'.completePut a) = { o with oldReqCfg := a.reqCfg, skippedLastTime := true } ∨
      o.state = .updateFlows ∧
        (if !ofctrlCanPut a.packetsQueued o' then { o' with skippedLastTime := true }
          else o'.completePut a) = { o with oldReqCfg := a.reqCfg }.completePut a) := by
    rintro _ rfl
    split
    · exact .inl rfl
    next hc => simp_all [ofctrlCanPut]
  unfold Ofctrl.ofctrlPut needPut
  by_cases h1 : changed a o = true
  · simp_all
  simp only [if_neg h1]
  by_cases h2 : a.reqCfg ≠ o.oldReqCfg
  · simp only [if_pos h2]
    by_cases h3 : o.curCfg = o.oldReqCfg
    · simp only [if_pos h3]
      by_cases h4 : o.flowUpdates = []
      · simp_all
      · simp [*]
    · simp_all
  · simp only [if_neg h2]
    exact .inl ⟨h1, rfl⟩

namespace Tracked

variable {q q' : Seqno.Table SeqnoType ℕ} {o o' : Ofctrl} (h : Tracked q o)
include h

/-- Only the state of the connection, the flow updates and `cur_cfg` matter. -/
theorem congr (hc : o'.swconn = o.swconn) (hs : o'.seqno = o.seqno)
    (hp : o'.puts = o.puts) (hf : o'.flowUpdates = o.flowUpdates) (hg : o'.curCfg = o.curCfg)
    (hst : o'.state = o.state ∨ o.state ≠ .updateFlows ∧ o'.state ≠ .updateFlows) :
    Tracked q o' := by
  have hconn : o'.conn = o.conn := by rw [Ofctrl.conn, Ofctrl.conn, hc]
  have hup : o'.state = .updateFlows → o.state = .updateFlows := by
    rcases hst with e | ⟨-, h2⟩
    · exact fun h => e ▸ h
    · exact fun h => absurd h h2
  have hdown : o'.state ≠ .updateFlows → o.state ≠ .updateFlows := by
    rcases hst with e | ⟨h1, -⟩
    · exact fun h => e ▸ h
    · exact fun _ => h1
  constructor
  · rw [hs, hconn, h.seqno]
  · rw [hp, hconn]; exact h.conn_le
  · rw [hp, hconn]; exact fun e => h.unsent (hdown e)
  · rw [hp, hconn, hf]; exact fun e => h.settled (hup e)
  · rw [hp, hconn, hf]; exact fun e => h.last (hup e)
  · rw [hp]; exact h.created_le
  · exact h.flowCfg_le
  · rw [hp, hconn, hf, hc]; exact fun hc e => h.covered hc (hup e)
  · rw [hf, hc]; exact fun hc e => h.reqCfg_le hc (hup e)
  · rw [hp, hconn, hg]; exact h.acked

theorem disconnect : Tracked q { o with swconn := { o.swconn with connected := false } } :=
  { h with
    covered := fun hc => absurd hc (by simp)
    reqCfg_le := fun hc => absurd hc (by simp) }

theorem ofctrlRecv (m : Message) : Tracked q (o.ofctrlRecv m) := by
  unfold Ofctrl.ofctrlRecv
  split
  · exact h.disconnect
  · exact h

/-- Before the flow tables are cleared nothing was sent on the connection. -/
theorem settled_of_unsent (hst : o.state ≠ .updateFlows) (k : ℕ) : Settled o.puts o.conn k := by
  intro i _ b hb hc hx
  exact absurd (h.unsent hst b (mem_of_getElem? hb) hc) hx

theorem runClearFlows (hst : o.state ≠ .updateFlows) : Tracked q o.runClearFlows :=
  { h with
    unsent := fun hne => absurd rfl hne
    settled := fun _ _ => h.settled_of_unsent hst
    last := fun _ f hf => by simp [Ofctrl.runClearFlows] at hf
    covered := fun _ _ f hf => by simp [Ofctrl.runClearFlows] at hf
    reqCfg_le := fun _ _ f hf => by simp [Ofctrl.runClearFlows] at hf }

theorem runState (r : Round) : Tracked q (o.runState r) := by
  unfold Ofctrl.runState
  split
  case h_1 e => exact h.congr rfl rfl rfl rfl rfl (.inr (by simp [e, runNew]))
  case h_2 e =>
    unfold runWaitBeforeClear
    split
    · split
      · exact h.congr rfl rfl rfl rfl rfl (.inl rfl)
      · exact h
    · exact h.congr rfl rfl rfl rfl rfl (.inr (by simp [e]))
  case h_3 e => exact h.runClearFlows (by simp [e])
  all_goals exact h

theorem answer (x : Xid) : Tracked q { o with puts := Batch.answer o.conn x o.puts } :=
  { h with
    conn_le := fun b hb => by
      obtain ⟨b', hb', e, -⟩ := mem_of_mem_answer hb
      exact e ▸ h.conn_le b' hb'
    unsent := fun hst b hb hc => by
      obtain ⟨b', hb', e1, e2⟩ := mem_of_mem_answer hb
      exact e2 ▸ h.unsent hst b' hb' (e1 ▸ hc)
    settled := fun hst hf k => (h.settled hst hf k).answer
    last := fun hst f hf => (h.last hst f hf).answer
    created_le := fun u hu => by rw [length_answer]; exact h.created_le u hu
    covered := fun hc hst f hf u hu hle => (h.covered hc hst f hf u hu hle).answer
    acked := fun u hu hle => (h.acked u hu hle).answer }

/-- The reply to the barrier of the first flow update: what it covers is acknowledged. -/
theorem barrierReplied (hc : o.swconn.connected = true) (hst : o.state = .updateFlows) (x : Xid) :
    Tracked q (Ofctrl.barrierReplied x { o with puts := Batch.answer o.conn x o.puts }) := by
  have h' := h.answer x
  rcases barrierReplied_cases x { o with puts := Batch.answer o.conn x o.puts } with
    e | ⟨fup, fups, hf, hx, e⟩
  · rw [e]
    exact h'
  rw [e]
  have hf : o.flowUpdates = fup :: fups := hf
  have hmem : ∀ f ∈ fups, f ∈ o.flowUpdates := fun f hm => hf ▸ mem_cons_of_mem _ hm
  refine ⟨h'.seqno, h'.conn_le, h'.unsent, ?_, ?_, h'.created_le, h'.flowCfg_le,
    fun hc hst f hm => h'.covered hc hst f (hmem f hm),
    fun hc hst f hm => h'.reqCfg_le hc hst f (hmem f hm), ?_⟩
  · rintro - rfl k
    exact (hx ▸ h.last hst fup (by simp [hf])).settled k
  · intro _ f hm
    refine h'.last hst f ?_
    rw [hf]
    cases fups with
    | nil => simp at hm
    | cons g gs => rwa [List.getLast?_cons_cons]
  · intro u hu hle
    split at hle
    · exact (hx ▸ h.covered hc hst fup (by simp [hf]) u hu hle).acknowledged
    · exact h'.acked u hu hle

/-- Leaving a state in which no puts are made for another such state. -/
theorem move (hst : o.state ≠ .updateFlows) {st : ConnState}
    (hst' : st ≠ .updateFlows) {x x2 : Xid} {mff : Option ℕ} :
    Tracked q { o with state := st, xid := x, xid2 := x2, mffOvnGeneve := mff } :=
  h.congr rfl rfl rfl rfl rfl (.inr ⟨hst, hst'⟩)

theorem processTlvTableReply (hst : o.state ≠ .updateFlows) {r : Round}
    {mappings : List TlvMap} {o' : Ofctrl}
    (he : o.processTlvTableReply r mappings = some o') : Tracked q o' := by
  unfold Ofctrl.processTlvTableReply at he
  split at he
  · cases he
  · obtain rfl := Option.some.inj he
    exact h.move hst (by simp)
  · obtain ⟨index, -, rfl⟩ := Option.map_eq_some_iff.1 he
    exact h.move hst (by simp)

theorem recvTlvTableRequested (hst : o.state ≠ .updateFlows) (r : Round)
    (m : Message) : Tracked q (o.recvTlvTableRequested r m) := by
  unfold Ofctrl.recvTlvTableRequested
  split
  · exact h.ofctrlRecv m
  · split
    · match he : o.processTlvTableReply r _ with
      | none => exact h.move hst (by simp)
      | some o' => exact h.processTlvTableReply hst he
    · exact h.move hst (by simp)

theorem recvTlvTableModSent (hst : o.state ≠ .updateFlows) (m : Message) :
    Tracked q (o.recvTlvTableModSent m) := by
  unfold Ofctrl.recvTlvTableModSent
  split
  · exact h.ofctrlRecv m
  · split
    · split <;> exact h.move hst (by simp)
    · exact h.move hst (by simp)

theorem note (m : Message) : Tracked q (o.note m) := by
  unfold Ofctrl.note
  split
  · exact h.answer m.xid
  · exact h

theorem recvState (hc : o.swconn.connected = true) (r : Round) (m : Message) :
    Tracked q ((o.note m).recvState r m) := by
  have hstate : (o.note m).state = o.state := by unfold Ofctrl.note; split <;> rfl
  have h' := h.note m
  unfold Ofctrl.recvState
  split
  case h_1 e => exact h'.recvTlvTableRequested (by simp [e]) r m
  case h_2 e => exact h'.recvTlvTableModSent (by simp [e]) m
  case h_3 e =>
    unfold recvUpdateFlows
    split
    next ht =>
      rw [Ofctrl.note, ht]
      exact h.barrierReplied hc (hstate ▸ e) m.xid
    next => exact h'.ofctrlRecv m
  all_goals exact h'.ofctrlRecv m

theorem round (r : Round) : Tracked q (o.round r).1 := by
  have h' := h.runState r
  unfold Ofctrl.round
  dsimp only
  split
  · exact h'
  · exact h'
  next m hm =>
    refine h'.recvState ?_ r m
    by_contra hc
    simp [Round.receives, hc] at hm

omit h in
theorem runRounds (rounds : ℕ → Round) :
    ∀ (n : ℕ) {o : Ofctrl}, Tracked q o → Tracked q (Ofctrl.runRounds rounds n o)
  | 0, _, h => h
  | n + 1, o, h => by
    rw [Ofctrl.runRounds]
    split
    · exact runRounds rounds n (h.round _)
    · exact h.round _

theorem setWaitTime (waitTime : ℕ) : Tracked q (o.setWaitTime waitTime) :=
  h.congr rfl rfl rfl rfl rfl (.inl rfl)

/-- A new connection comes up while no pending request is below `cur_cfg`. -/
theorem reconnect (hq : ∀ u ∈ q.updates, o.curCfg < u.flowCfg) :
    Tracked q (o.connect .up).reconnect :=
  { h with
    seqno := rfl
    conn_le := fun b hb => Nat.le_succ_of_le (h.conn_le b hb)
    unsent := fun _ b hb hc => by
      have := h.conn_le b hb
      have hc : b.conn = o.conn + 1 := hc
      omega
    settled := fun hst => by simp [Ofctrl.reconnect] at hst
    last := fun hst => by simp [Ofctrl.reconnect] at hst
    covered := fun _ hst => by simp [Ofctrl.reconnect] at hst
    reqCfg_le := fun _ hst => by simp [Ofctrl.reconnect] at hst
    acked := fun u hu hle => absurd (hq u hu) (Nat.not_lt.2 hle) }

theorem ofctrlRun {c : RconnRun} (waitTime : ℕ) (rounds : ℕ → Round)
    (hq : c = .up → ∀ u ∈ q.updates, o.curCfg < u.flowCfg) :
    Tracked q (o.ofctrlRun c waitTime rounds).2 := by
  unfold Ofctrl.ofctrlRun
  dsimp only
  cases c with
  | same =>
    split
    · exact h
    · have heq : (o.connect .same).seqno = (o.connect .same).conn := h.seqno
      rw [if_neg (not_not.2 heq)]
      exact runRounds rounds 50 (h.setWaitTime waitTime)
  | down => exact h.disconnect
  | up =>
    have hne : (o.connect .up).seqno ≠ (o.connect .up).conn := by
      show o.seqno ≠ o.conn + 1
      rw [h.seqno]
      omega
    rw [if_pos hne]
    exact runRounds rounds 50 ((h.reconnect (hq rfl)).setWaitTime waitTime)

/-! ## Puts -/

theorem conn_le_snoc {x : Option Xid} : ∀ b ∈ o.puts ++ [⟨o.conn, x, false⟩], b.conn ≤ o.conn :=
  forall_mem_append.2 ⟨h.conn_le, forall_mem_singleton.2 le_rfl⟩

theorem created_le_snoc {b : Batch Xid} : ∀ u ∈ q.updates, u.created ≤ (o.puts ++ [b]).length := by
  intro u hu
  rw [length_append]
  exact Nat.le_add_right_of_le (h.created_le u hu)

/-- A put that a flow update stands for: those before it are old ones. -/
theorem tracked_put (hst : o.state = .updateFlows) {x : Xid} {b : Option Xid}
    {pre : List FlowUpdate} (hpre : ∀ f ∈ pre, f ∈ o.flowUpdates)
    (hlast : Last (o.puts ++ [⟨o.conn, b, false⟩]) o.conn x)
    (hcov : ∀ u ∈ q.updates, Covered (o.puts ++ [⟨o.conn, b, false⟩]) o.conn x u.created)
    {i k : Bool} {n : ℕ} :
    Tracked q { o with
      flowUpdates := pre ++ [⟨x, q.reqSeqno⟩], puts := o.puts ++ [⟨o.conn, b, false⟩]
      initialClear := i, skippedLastTime := k, oldReqCfg := n } :=
  { h with
    conn_le := h.conn_le_snoc
    unsent := fun hne => absurd hst hne
    settled := fun _ he => by simp at he
    last := fun _ f hf => by
      obtain rfl : ⟨x, q.reqSeqno⟩ = f := by simpa using hf
      exact hlast
    created_le := h.created_le_snoc
    covered := fun hc _ => forall_mem_append.2
      ⟨fun f hf u hu hle => (h.covered hc hst f (hpre f hf) u hu hle).snoc,
        forall_mem_singleton.2 fun u hu _ => hcov u hu⟩
    reqCfg_le := fun hc _ => forall_mem_append.2
      ⟨fun f hf => h.reqCfg_le hc hst f (hpre f hf), forall_mem_singleton.2 le_rfl⟩
    acked := fun u hu hle => (h.acked u hu hle).snoc }

/-- Nothing was sent and nothing is in flight: the switch is up to date. -/
theorem upToDate (hst : o.state = .updateFlows) (hf : o.flowUpdates = []) {i k : Bool} {n : ℕ} :
    Tracked q { o with
      curCfg := q.reqSeqno, puts := o.puts ++ [⟨o.conn, none, false⟩]
      initialClear := i, skippedLastTime := k, oldReqCfg := n } :=
  { h with
    conn_le := h.conn_le_snoc
    unsent := fun hne => absurd hst hne
    settled := fun _ _ => settled_snoc (h.settled hst hf)
    last := fun _ f hm => by simp [hf] at hm
    created_le := h.created_le_snoc
    covered := fun _ _ f hm => by simp [hf] at hm
    acked := fun u hu _ => acknowledged_snoc (h.settled hst hf) (h.created_le u hu) }

theorem completePut {a : PutArgs} (ha : a.reqCfg = q.reqSeqno)
    (hst : o.state = .updateFlows) : Tracked q (o.completePut a) := by
  unfold Ofctrl.completePut
  dsimp only
  rw [ha]
  split
  next hm =>
    obtain ⟨pre, e, hpre⟩ := trackFlowUpdate_spec q.reqSeqno a.barrier o.flowUpdates
    rw [e]
    exact h.tracked_put hst hpre last_snoc fun u hu => covered_snoc (h.created_le u hu)
  next hm =>
    split
    next hf =>
      obtain ⟨pre, fup, e1, e2⟩ := advanceLast_spec q.reqSeqno hf
      rw [e2]
      -- nothing was sent: the last flow update in flight stands for the put as well
      have hlast := h.last hst fup (by simp [e1])
      exact h.tracked_put hst (fun f hm => by simp [e1, hm]) hlast.snoc fun u hu =>
        hlast.covered (h.created_le u hu)
    next hf => exact h.upToDate hst (not_not.1 hf)

theorem ofctrlPut {a : PutArgs} (ha : a.reqCfg = q.reqSeqno)
    (hb : changed a o = true ∨ o.state = .updateFlows) : Tracked q (o.ofctrlPut a) := by
  rcases ofctrlPut_cases a o with ⟨-, e⟩ | ⟨hn, hf, e⟩ | e | ⟨hst, e⟩
  · rwa [e]
  · have hst := hb.resolve_left hn
    rw [e, if_pos hst, ha]
    exact h.upToDate hst hf
  · rw [e]
    exact h.congr rfl rfl rfl rfl rfl (.inl rfl)
  · have h' : Tracked q { o with oldReqCfg := a.reqCfg } := h.congr rfl rfl rfl rfl rfl (.inl rfl)
    rw [e]
    exact h'.completePut ha hst

end Tracked

namespace Behind

variable {o : Ofctrl}

theorem ofctrlPut {a : PutArgs} (hb : changed a o = true ∨ o.state = .updateFlows) :
    Behind (o.ofctrlPut a) := by
  rcases ofctrlPut_cases a o with ⟨hn, e⟩ | ⟨hn, -, e⟩ | e | ⟨hst, e⟩
  · rw [e]
    exact .inr (.inr (hb.resolve_left hn))
  · rw [e]
    exact .inr (.inr (hb.resolve_left hn))
  · rw [e]
    exact .inl rfl
  · rw [e]
    refine .inr (.inr ?_)
    unfold completePut
    dsimp only
    split
    · exact hst
    · split <;> exact hst

/-- Enough of a step of the state machine to know that it loses neither a pending put nor what
    is acknowledged. -/
def Kept (o o' : Ofctrl) : Prop :=
  o'.skippedLastTime = o.skippedLastTime ∧ (o.initialClear = true → o'.initialClear = true) ∧
    (o.state = .updateFlows → o'.state = .updateFlows) ∧ o'.conn = o.conn ∧
    ∀ k, Acknowledged o.puts o.conn k → Acknowledged o'.puts o.conn k

theorem Kept.trans {o₁ o₂ o₃ : Ofctrl} (h : Kept o₁ o₂) (h' : Kept o₂ o₃) : Kept o₁ o₃ := by
  obtain ⟨h1, h2, h3, h4, h5⟩ := h
  obtain ⟨h1', h2', h3', h4', h5'⟩ := h'
  refine ⟨h1'.trans h1, fun e => h2' (h2 e), fun e => h3' (h3 e), h4'.trans h4, fun k hk => ?_⟩
  exact h4 ▸ h5' k (h4 ▸ h5 k hk)

theorem kept (h : Behind o) {o' : Ofctrl} (hk : Kept o o') : Behind o' := by
  rcases h with h | h | h
  · exact .inl (hk.1.trans h)
  · exact .inr (.inl (hk.2.1 h))
  · exact .inr (.inr (hk.2.2.1 h))

theorem kept_runState (r : Round) : Kept o (o.runState r) := by
  unfold Ofctrl.runState runNew runWaitBeforeClear runClearFlows
  split
  case h_2 => split <;> [split; skip] <;> simp_all [Kept, Ofctrl.conn]
  all_goals simp_all [Kept, Ofctrl.conn]

theorem kept_ofctrlRecv (m : Message) : Kept o (o.ofctrlRecv m) := by
  unfold Ofctrl.ofctrlRecv
  split <;> simp [Kept, Ofctrl.conn]

theorem kept_recvTlvTableRequested (hst : o.state ≠ .updateFlows) (r : Round) (m : Message) :
    Kept o (o.recvTlvTableRequested r m) := by
  unfold Ofctrl.recvTlvTableRequested
  split
  · exact kept_ofctrlRecv m
  split
  · match he : o.processTlvTableReply r _ with
    | none => simp [Kept, Ofctrl.conn, hst]
    | some o' =>
      unfold Ofctrl.processTlvTableReply at he
      split at he
      · cases he
      · obtain rfl := Option.some.inj he
        simp [Kept, Ofctrl.conn, hst]
      · obtain ⟨index, -, rfl⟩ := Option.map_eq_some_iff.1 he
        simp [Kept, Ofctrl.conn, hst]
  · simp [Kept, Ofctrl.conn, hst]

theorem kept_recvState (r : Round) (m : Message) : Kept o (o.recvState r m) := by
  unfold Ofctrl.recvState
  split
  case h_1 e => exact kept_recvTlvTableRequested (by simp [e]) r m
  case h_2 e =>
    unfold recvTlvTableModSent
    split
    · exact kept_ofctrlRecv m
    · split <;> [split; skip] <;> simp [Kept, Ofctrl.conn, e]
  case h_3 e =>
    unfold recvUpdateFlows
    split
    · rcases barrierReplied_cases m.xid o with e | ⟨_, _, _, _, e⟩ <;> simp [Kept, Ofctrl.conn, e]
    · exact kept_ofctrlRecv m
  all_goals exact kept_ofctrlRecv m

theorem kept_note (m : Message) : Kept o (o.note m) := by
  unfold Ofctrl.note
  split
  · exact ⟨rfl, id, id, rfl, fun k hk => hk.answer⟩
  · simp [Kept]

theorem kept_round (r : Round) : Kept o (o.round r).1 := by
  have h := kept_runState (o := o) r
  unfold Ofctrl.round
  dsimp only
  split
  · exact h
  · exact h
  next m _ => exact h.trans ((kept_note m).trans (kept_recvState r m))

theorem kept_runRounds (rounds : ℕ → Round) :
    ∀ (n : ℕ) (o : Ofctrl), Kept o (Ofctrl.runRounds rounds n o)
  | 0, _ => by simp [Kept, Ofctrl.runRounds]
  | n + 1, o => by
    rw [Ofctrl.runRounds]
    split
    · exact (kept_round _).trans (kept_runRounds rounds n _)
    · exact kept_round _

theorem acknowledged_ofctrlPut (a : PutArgs) {k : ℕ} (h : Acknowledged o.puts o.conn k) :
    Acknowledged (o.ofctrlPut a).puts (o.ofctrlPut a).conn k := by
  rcases ofctrlPut_cases a o with ⟨-, e⟩ | ⟨-, -, e⟩ | e | ⟨-, e⟩
  · rwa [e]
  · rw [e]
    show Acknowledged (if o.state = .updateFlows then o.puts ++ [⟨o.conn, none, false⟩] else o.puts)
      o.conn k
    split
    · exact h.snoc
    · exact h
  · rwa [e]
  · rw [e]
    unfold completePut
    dsimp only
    split
    · exact h.snoc
    · split <;> exact h.snoc

end Behind

/-! ## Requests -/

namespace Tracked

variable {q q' : Seqno.Table SeqnoType ℕ} {o : Ofctrl} (h : Tracked q o)
include h

theorem shrink (hu : ∀ u ∈ q'.updates, u ∈ q.updates)
    (hr : q'.reqSeqno = q.reqSeqno) : Tracked q' o :=
  { h with
    created_le := fun u hm => h.created_le u (hu u hm)
    flowCfg_le := fun u hm => hr ▸ h.flowCfg_le u (hu u hm)
    covered := fun hc hst f hf u hm => h.covered hc hst f hf u (hu u hm)
    reqCfg_le := by rw [hr]; exact h.reqCfg_le
    acked := fun u hm => h.acked u (hu u hm) }

/-- The counter restarts only when the connection is down. -/
theorem flush (hd : o.swconn.connected = false) : Tracked q.flush o :=
  { h with
    created_le := fun u hm => by simp [Seqno.Table.flush] at hm
    flowCfg_le := fun u hm => by simp [Seqno.Table.flush] at hm
    covered := fun hc => absurd hc (by simp [hd])
    reqCfg_le := fun hc => absurd hc (by simp [hd])
    acked := fun u hm => by simp [Seqno.Table.flush] at hm }

theorem updateCreate (t : SeqnoType) (newCfg : ℕ)
    (hc : newCfg ≠ (q.states t).reqCfg → o.curCfg ≤ q.reqSeqno ∧ q.reqSeqno + 1 < 2 ^ 64) :
    Tracked (q.updateCreate t newCfg o.puts.length) o := by
  unfold Seqno.Table.updateCreate
  split
  · exact h
  next hne =>
    obtain ⟨hcur, hlt⟩ := hc hne
    rw [Nat.mod_eq_of_lt hlt]
    refine ⟨h.seqno, h.conn_le, h.unsent, h.settled, h.last, ?_, ?_, ?_, ?_, ?_⟩ <;>
      simp only [forall_mem_append, forall_mem_singleton]
    · exact ⟨h.created_le, le_rfl⟩
    · exact ⟨fun u hu => Nat.le_succ_of_le (h.flowCfg_le u hu), le_rfl⟩
    · intro hc hst f hf
      refine ⟨h.covered hc hst f hf, fun hle => ?_⟩
      have := h.reqCfg_le hc hst f hf
      omega
    · exact fun hc hst f hf => Nat.le_succ_of_le (h.reqCfg_le hc hst f hf)
    · exact ⟨h.acked, fun hle => by omega⟩

end Tracked

end Ovn

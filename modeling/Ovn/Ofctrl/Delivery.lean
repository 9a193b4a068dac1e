/-
  What the applications are told of their sequence numbers.

  The requests of all types wait in one list, in the order of one counter.  For each type, the
  values that were delivered, those that are ready and those that are pending are, in this
  order, the values that were requested.
-/
import Ovn.Ofctrl.Seqno
import Mathlib.Data.List.Nodup

namespace Ovn.Seqno

open List

inductive Event
  /-- `ofctrl_seqno_update_create`, and what `ofctrl_seqno_get_req_cfg` returns then. -/
  | requested (t newCfg flowCfg : ℕ)
  | ran (flowCfg : ℕ)
  | delivered (t : ℕ) (seqnos : AckedSeqnos)
  deriving DecidableEq

def requestedOf (t : ℕ) (es : List Event) : List ℕ :=
  es.filterMap fun
    | .requested t' newCfg _ => if t' = t then some newCfg else none
    | _ => none

def deliveredOf (t : ℕ) (es : List Event) : List ℕ :=
  es.flatMap fun
    | .delivered t' seqnos => if t' = t then seqnos.acked else []
    | _ => []

/-- The variables, and as history what happened so far. -/
structure Trace where
  table : Table ℕ Unit
  events : List Event

namespace Trace

variable {n : ℕ}

def next (s : Trace) : Call n → Option Trace
  | .updateCreate t newCfg =>
    let q := s.table.updateCreate (t : ℕ) newCfg ()
    some ⟨q, s.events ++ [.requested t newCfg q.reqSeqno]⟩
  | .seqnoRun flowCfg => some ⟨s.table.seqnoRun flowCfg, s.events ++ [.ran flowCfg]⟩
  | .ackedGet t => some ⟨s.table.popAcked t, s.events ++ [.delivered t (s.table.acked (t : ℕ))]⟩
  | .flush => some ⟨s.table.flush, s.events⟩

/-- Any calls, once `n` types are registered. -/
def calls (n : ℕ) : System Trace (Call n) := ⟨⟨Table.registered n, []⟩, next⟩

/-- Values of a type increase, the flow configurations that are acked do not decrease, and
    nothing is flushed. -/
def Increasing (s : Trace) : Call n → Prop
  | .updateCreate t newCfg => ∀ cfg ∈ requestedOf t s.events, cfg < newCfg
  | .seqnoRun flowCfg => ∀ cfg, Event.ran cfg ∈ s.events → cfg ≤ flowCfg
  | .ackedGet _ => True
  | .flush => False

/-- The values requested are above the one every type starts with. -/
def AboveInitial : Call n → Prop
  | .updateCreate _ newCfg => 0 < newCfg
  | _ => True

/-- A request of the value was made, and a run covered it. -/
def Covered (es : List Event) (t cfg : ℕ) : Prop :=
  ∃ flowCfg ranCfg, flowCfg ≤ ranCfg ∧ [.requested t cfg flowCfg, .ran ranCfg].Sublist es

theorem Covered.append {es : List Event} {t cfg : ℕ} (h : Covered es t cfg) (es' : List Event) :
    Covered (es ++ es') t cfg := by
  obtain ⟨flowCfg, ranCfg, hle, hsub⟩ := h
  exact ⟨flowCfg, ranCfg, hle, hsub.trans (sublist_append_left es es')⟩

def ready (q : Table ℕ Unit) (t : ℕ) : List ℕ := (q.states t).ackedCfgs.map (·.reqCfg)

def pending (q : Table ℕ Unit) (t : ℕ) : List ℕ := (Table.ofType q.updates t).map (·.reqCfg)

/-- The last value of a list, or the one every type starts with. -/
def lastValue (cfgs : List ℕ) : ℕ := cfgs.getLast?.getD 0

structure Inv (s : Trace) : Prop where
  values : ∀ t, requestedOf t s.events =
    deliveredOf t s.events ++ ready s.table t ++ pending s.table t
  req : ∀ t, (s.table.states t).reqCfg = lastValue (requestedOf t s.events)
  cur : ∀ t, (s.table.states t).curCfg = lastValue (deliveredOf t s.events ++ ready s.table t)
  increasing : ∀ t, (requestedOf t s.events).Pairwise (· < ·)
  sent : ∀ u ∈ s.table.updates, Event.requested u.seqnoType u.reqCfg u.flowCfg ∈ s.events
  covered : ∀ t, ∀ cfg ∈ ready s.table t, Covered s.events t cfg
  delivered : ∀ t seqnos, Event.delivered t seqnos ∈ s.events → ∀ cfg ∈ seqnos.acked,
    ∃ flowCfg ranCfg, flowCfg ≤ ranCfg ∧
      [.requested t cfg flowCfg, .ran ranCfg, .delivered t seqnos].Sublist s.events

theorem inv_init (n : ℕ) : Inv (calls n).init := by
  refine ⟨fun t => ?_, fun t => ?_, fun t => ?_, fun t => ?_, fun u hu => ?_, fun t cfg h => ?_,
    fun t seqnos h => ?_⟩
  · simp [calls, requestedOf, deliveredOf, ready, pending, Table.registered_updates,
      Table.registered_states, Table.ofType]
  · simp [calls, Table.registered_states, lastValue, requestedOf]
  · simp [calls, Table.registered_states, lastValue, deliveredOf, ready]
  · simp [calls, requestedOf]
  · simp [calls, Table.registered_updates] at hu
  · simp [calls, ready, Table.registered_states] at h
  · simp [calls] at h

section
variable {s : Trace}

theorem lastValue_append_singleton (cfgs : List ℕ) (cfg : ℕ) : lastValue (cfgs ++ [cfg]) = cfg := by
  simp [lastValue]

theorem lastValue_append (cfgs : List ℕ) (us : List (Update ℕ Unit)) :
    lastValue (cfgs ++ us.map (·.reqCfg)) = Table.lastCfg us (lastValue cfgs) := by
  simp [getLast?_append, getLast?_map, lastValue, Table.lastCfg]

theorem lastValue_lt {cfgs : List ℕ} {cfg : ℕ} (h0 : 0 < cfg) (h : ∀ c ∈ cfgs, c < cfg) :
    lastValue cfgs < cfg := by
  unfold lastValue
  match hl : cfgs.getLast? with
  | none => exact h0
  | some c => exact h c (mem_of_getLast? hl)

theorem Inv.delivered_append (h : Inv s) (es : List Event) {t : ℕ} {seqnos : AckedSeqnos}
    (hd : Event.delivered t seqnos ∈ s.events) {cfg : ℕ} (hc : cfg ∈ seqnos.acked) :
    ∃ flowCfg ranCfg, flowCfg ≤ ranCfg ∧
      [.requested t cfg flowCfg, .ran ranCfg, .delivered t seqnos].Sublist (s.events ++ es) := by
  obtain ⟨flowCfg, ranCfg, hle, hsub⟩ := h.delivered t seqnos hd cfg hc
  exact ⟨flowCfg, ranCfg, hle, hsub.trans (sublist_append_left s.events es)⟩

theorem Inv.updateCreate (h : Inv s) {t newCfg : ℕ} (h0 : 0 < newCfg)
    (hinc : ∀ cfg ∈ requestedOf t s.events, cfg < newCfg) : Inv ⟨s.table.updateCreate t newCfg (),
      s.events ++ [.requested t newCfg (s.table.updateCreate t newCfg ()).reqSeqno]⟩ := by
  -- the request is not taken for a repeated one
  have hn : newCfg ≠ (s.table.states t).reqCfg := by
    rw [h.req t]
    exact Nat.ne_of_gt (lastValue_lt h0 hinc)
  obtain ⟨hus, hst⟩ := Table.updateCreate_spec () hn rfl
  generalize hseq : (s.table.updateCreate t newCfg ()).reqSeqno = seqno at hus
  generalize s.table.updateCreate t newCfg () = q at hus hst
  have hready : ∀ t', ready q t' = ready s.table t' := by
    simp [ready, hst]
  have hpending : ∀ t', pending q t' = pending s.table t' ++ if t = t' then [newCfg] else [] := by
    intro t'
    unfold pending
    rw [hus]
    by_cases htt : t = t'
    · simp [Table.ofType, htt]
    · simp [Table.ofType, htt]
  have hdel : ∀ t', deliveredOf t' (s.events ++ [.requested t newCfg seqno]) =
      deliveredOf t' s.events := by
    simp [deliveredOf]
  have hreq : ∀ t', requestedOf t' (s.events ++ [.requested t newCfg seqno]) =
      requestedOf t' s.events ++ if t = t' then [newCfg] else [] := by
    intro t'
    by_cases htt : t = t'
    · simp [requestedOf, htt]
    · simp [requestedOf, htt]
  refine ⟨fun t' => ?_, fun t' => ?_, fun t' => ?_, fun t' => ?_, fun u hu => ?_,
    fun t' cfg hc => ?_, fun t' seqnos hd cfg hc => h.delivered_append _ (by simpa using hd) hc⟩
  · rw [hreq, hdel, hready, hpending, h.values t', append_assoc]
  · rw [hreq, (hst t').2.2]
    by_cases htt : t = t'
    · simp [htt, lastValue_append_singleton]
    · simp [htt, h.req]
  · rw [hdel, hready, (hst t').2.1]
    exact h.cur t'
  · rw [hreq]
    by_cases htt : t = t'
    · subst htt
      rw [if_pos rfl]
      exact pairwise_append.2 ⟨h.increasing t, pairwise_singleton _ _,
        fun a ha b hb => mem_singleton.1 hb ▸ hinc a ha⟩
    · simpa [htt] using h.increasing t'
  · rw [hus] at hu
    rcases mem_append.1 hu with hu | hu
    · exact mem_append_left _ (h.sent u hu)
    · obtain rfl := mem_singleton.1 hu
      simp
  · rw [hready] at hc
    exact (h.covered t' cfg hc).append _

theorem Inv.seqnoRun (h : Inv s) (flowCfg : ℕ) :
    Inv ⟨s.table.seqnoRun flowCfg, s.events ++ [.ran flowCfg]⟩ := by
  obtain ⟨done, hus, hle, -, hst⟩ := Table.seqnoRun_spec flowCfg s.table
  have hready : ∀ t, ready (s.table.seqnoRun flowCfg) t =
      ready s.table t ++ (Table.ofType done t).map (·.reqCfg) := by
    simp [ready, hst, Table.ackAll]
  have hpending : ∀ t, pending s.table t =
      (Table.ofType done t).map (·.reqCfg) ++ pending (s.table.seqnoRun flowCfg) t := by
    intro t
    unfold pending
    rw [hus, Table.ofType_append, map_append]
  have hdel : ∀ t, deliveredOf t (s.events ++ [.ran flowCfg]) = deliveredOf t s.events := by
    simp [deliveredOf]
  have hreq : ∀ t, requestedOf t (s.events ++ [.ran flowCfg]) = requestedOf t s.events := by
    simp [requestedOf]
  refine ⟨fun t => ?_, fun t => ?_, fun t => ?_, fun t => ?_, fun u hu => ?_, fun t cfg hc => ?_,
    fun t seqnos hd cfg hc => h.delivered_append _ (by simpa using hd) hc⟩
  · rw [hreq, hdel, hready, h.values t, hpending]
    simp
  · rw [hreq, ← h.req t, hst]
    rfl
  · rw [hdel, hready, ← append_assoc, lastValue_append, ← h.cur t, hst]
    rfl
  · rw [hreq]
    exact h.increasing t
  · exact mem_append_left _ (h.sent u (hus ▸ mem_append_right done hu))
  · rw [hready] at hc
    rcases mem_append.1 hc with hc | hc
    · exact (h.covered t cfg hc).append _
    -- the run that acks the request covers it
    obtain ⟨u, hu, rfl⟩ := mem_map.1 hc
    obtain ⟨hud, ht⟩ := mem_filter.1 hu
    obtain rfl : u.seqnoType = t := by simpa using ht
    have hsent := h.sent u (hus ▸ mem_append_left _ hud)
    exact ⟨u.flowCfg, flowCfg, hle u hud,
      (singleton_sublist.2 hsent).append (Sublist.refl [Event.ran flowCfg])⟩

theorem Inv.ackedGet (h : Inv s) (t : ℕ) :
    Inv ⟨s.table.popAcked t, s.events ++ [.delivered t (s.table.acked t)]⟩ := by
  have hacked : (s.table.acked t).acked = ready s.table t := rfl
  have hready : ∀ t', ready (s.table.popAcked t) t' = if t' = t then [] else ready s.table t' := by
    intro t'
    rw [ready, Table.popAcked_states]
    split <;> rfl
  have hst : ∀ t', ((s.table.popAcked t).states t').reqCfg = (s.table.states t').reqCfg ∧
      ((s.table.popAcked t).states t').curCfg = (s.table.states t').curCfg := by
    intro t'
    rw [Table.popAcked_states]
    exact ⟨rfl, rfl⟩
  have hdel : ∀ t', deliveredOf t' (s.events ++ [.delivered t (s.table.acked t)]) ++
      ready (s.table.popAcked t) t' = deliveredOf t' s.events ++ ready s.table t' := by
    intro t'
    rw [hready]
    by_cases htt : t' = t
    · subst htt
      simp [deliveredOf, hacked]
    · simp [deliveredOf, htt, Ne.symm htt]
  have hreq : ∀ t', requestedOf t' (s.events ++ [.delivered t (s.table.acked t)]) =
      requestedOf t' s.events := by
    simp [requestedOf]
  refine ⟨fun t' => ?_, fun t' => ?_, fun t' => ?_, fun t' => ?_, fun u hu => ?_,
    fun t' cfg hc => ?_, fun t' seqnos hd cfg hc => ?_⟩
  · rw [hreq, hdel]
    exact h.values t'
  · rw [hreq, (hst t').1]
    exact h.req t'
  · rw [hdel, (hst t').2]
    exact h.cur t'
  · rw [hreq]
    exact h.increasing t'
  · exact mem_append_left _ (h.sent u hu)
  · rw [hready] at hc
    by_cases htt : t' = t
    · rw [if_pos htt] at hc
      cases hc
    · rw [if_neg htt] at hc
      exact (h.covered t' cfg hc).append _
  · rcases mem_append.1 hd with hd | hd
    · exact h.delivered_append _ hd hc
    · obtain ⟨rfl, rfl⟩ : t' = t ∧ seqnos = s.table.acked t := by simpa using hd
      obtain ⟨flowCfg, ranCfg, hle, hsub⟩ := h.covered t' cfg (hacked ▸ hc)
      exact ⟨flowCfg, ranCfg, hle, hsub.append (Sublist.refl [Event.delivered t' _])⟩

end

theorem Inv.next {s s' : Trace} {c : Call n} (h : Inv s) (hinc : Increasing s c)
    (hpos : AboveInitial c) (hn : s.next c = some s') : Inv s' := by
  cases c with
  | updateCreate t newCfg =>
    obtain rfl := Option.some.inj hn
    exact h.updateCreate hpos hinc
  | seqnoRun flowCfg =>
    obtain rfl := Option.some.inj hn
    exact h.seqnoRun flowCfg
  | ackedGet t =>
    obtain rfl := Option.some.inj hn
    exact h.ackedGet t
  | flush => exact hinc.elim

/-- **Delivery.** The values delivered of a type are the first ones that were requested, each
    once and after a run that covers its request; the last one acked is the last one that is
    delivered or ready. -/
theorem delivered_in_order (n : ℕ) {s : Trace}
    (h : (calls n).Reached (fun s c => Increasing s c ∧ AboveInitial c) s) (t : ℕ) :
    deliveredOf t s.events <+: requestedOf t s.events ∧ (deliveredOf t s.events).Nodup ∧
      (∀ seqnos, Event.delivered t seqnos ∈ s.events → ∀ cfg ∈ seqnos.acked,
        ∃ flowCfg ranCfg, flowCfg ≤ ranCfg ∧
          [.requested t cfg flowCfg, .ran ranCfg, .delivered t seqnos].Sublist s.events) ∧
      (s.table.acked t).lastAcked =
        lastValue (deliveredOf t s.events ++ (s.table.acked t).acked) := by
  have hinv : Inv s := h.invariant (inv_init n) fun s c s' hs hc hn => hs.next hc.1 hc.2 hn
  have hfirst : deliveredOf t s.events <+: requestedOf t s.events :=
    ⟨ready s.table t ++ pending s.table t, by rw [← append_assoc, hinv.values t]⟩
  refine ⟨hfirst, ?_, hinv.delivered t, ?_⟩
  · exact (hinv.increasing t).nodup.sublist hfirst.sublist
  · have hcur : (s.table.acked t).lastAcked = (ready s.table t).getLast?.getD
        (lastValue (deliveredOf t s.events ++ ready s.table t)) := by
      rw [← hinv.cur t]
      rfl
    rw [hcur]
    show _ = lastValue (deliveredOf t s.events ++ ready s.table t)
    unfold lastValue
    rw [getLast?_append]
    cases (ready s.table t).getLast? <;> simp

/-- A first request of the value 0 is taken for a repeated one, and is not delivered. -/
theorem delivered_not_in_order : ∃ s : Trace, (calls 1).Reached Increasing s ∧
    requestedOf 0 s.events = [0, 5] ∧ deliveredOf 0 s.events = [5] := by
  refine ⟨_, System.Reached.step (a := Call.ackedGet 0) (System.Reached.step (a := .seqnoRun 1)
    (System.Reached.step (a := Call.updateCreate 0 5) (System.Reached.step
      (a := Call.updateCreate 0 0) .init ?_ rfl) ?_ rfl) ?_ rfl) trivial rfl, rfl, rfl⟩
  · intro cfg h
    cases h
  · intro cfg h
    obtain rfl : cfg = 0 := by simpa [requestedOf, calls] using h
    decide
  · intro cfg h
    simp [calls] at h

theorem delivered_in_order_second : ∃ s : Trace, deliveredOf 0 s.events = [5] ∧
    deliveredOf 0 s.events <+: requestedOf 0 s.events := by
  have hs : ∃ s, (calls 1).Reached (fun s c => Increasing s c ∧ AboveInitial c) s ∧
      deliveredOf 0 s.events = [5] := by
    refine ⟨_, System.Reached.step (a := Call.ackedGet 0) (System.Reached.step (a := .seqnoRun 1)
      (System.Reached.step (a := Call.updateCreate 0 6) (System.Reached.step
        (a := Call.updateCreate 0 5) .init ⟨?_, Nat.succ_pos _⟩ rfl) ⟨?_, Nat.succ_pos _⟩ rfl)
          ⟨?_, trivial⟩ rfl) ⟨trivial, trivial⟩ rfl, rfl⟩
    · intro cfg h
      cases h
    · intro cfg h
      obtain rfl : cfg = 5 := by simpa [requestedOf, calls] using h
      decide
    · intro cfg h
      simp [calls] at h
  obtain ⟨s, hs, hd⟩ := hs
  exact ⟨s, hd, (delivered_in_order 1 hs 0).1⟩

end Trace

end Ovn.Seqno

/-
  Sequence numbers of any number of types.

  * `ofctrl-seqno.c` in full, with the registration of types,
  * a request is pending or acked, as long as no flush drops it: `ofctrl_seqno_flush` forgets
    the pending requests but not that they were made.
-/
import Ovn.Lib.Run
import Mathlib.Algebra.Ring.Nat

namespace Ovn.Seqno

open Function (update update_of_ne)
open List

/-! ## `ofctrl-seqno.c` -/

/-- A request of a type in `τ`.  `created` is history: what is noted when the request is made. -/
structure Update (τ η : Type) where
  seqnoType : τ
  flowCfg : ℕ
  reqCfg : ℕ
  created : η
  deriving DecidableEq

structure State (τ η : Type) where
  ackedCfgs : List (Update τ η)
  curCfg : ℕ
  reqCfg : ℕ

/-- The static variables of `ofctrl-seqno.c`. -/
structure Table (τ η : Type) where
  updates : List (Update τ η)
  reqSeqno : ℕ
  states : τ → State τ η

structure AckedSeqnos where
  lastAcked : ℕ
  acked : List ℕ
  deriving DecidableEq

namespace Table

variable {τ η : Type}

/-- `ofctrl_seqno_init`. -/
def init : Table τ η := ⟨[], 0, fun _ => ⟨[], 0, 0⟩⟩

/-- `ofctrl_seqno_add_type`: of the `n` states that there are, only the lists are moved. -/
def addType (n : ℕ) (q : Table ℕ η) : Table ℕ η :=
  { q with states := fun t => if t < n then ⟨(q.states t).ackedCfgs, 0, 0⟩ else ⟨[], 0, 0⟩ }

/-- The value of the last request of a list, if there is one. -/
def lastCfg (us : List (Update τ η)) (cfg : ℕ) : ℕ := (us.getLast?.map (·.reqCfg)).getD cfg

theorem lastCfg_append (us us' : List (Update τ η)) (cfg : ℕ) :
    lastCfg (us ++ us') cfg = lastCfg us' (lastCfg us cfg) := by
  unfold lastCfg
  rw [List.getLast?_append]
  cases us'.getLast? <;> simp

/-- The state of a type once the requests `us` of it are acked. -/
def ackAll (us : List (Update τ η)) (x : State τ η) : State τ η :=
  { x with ackedCfgs := x.ackedCfgs ++ us, curCfg := lastCfg us x.curCfg }

theorem ackAll_append (us us' : List (Update τ η)) (x : State τ η) :
    ackAll (us ++ us') x = ackAll us' (ackAll us x) := by
  simp [ackAll, lastCfg_append]

section
variable [DecidableEq τ]

/-- `ofctrl_seqno_update_create`; the counter has 64 bits. -/
def updateCreate (t : τ) (newCfg : ℕ) (created : η) (q : Table τ η) : Table τ η :=
  if newCfg = (q.states t).reqCfg then q
  else
    let seqno := (q.reqSeqno + 1) % 2 ^ 64
    { updates := q.updates ++ [⟨t, seqno, newCfg, created⟩]
      reqSeqno := seqno
      states := update q.states t { q.states t with reqCfg := newCfg } }

/-- `ofctrl_seqno_cfg_run`. -/
def cfgRun (u : Update τ η) (states : τ → State τ η) : τ → State τ η :=
  update states u.seqnoType { states u.seqnoType with
      ackedCfgs := (states u.seqnoType).ackedCfgs ++ [u]
      curCfg := u.reqCfg }

/-- The loop of `ofctrl_seqno_run`, up to the first request that is not covered. -/
def seqnoRunLoop (flowCfg : ℕ) :
    List (Update τ η) → (τ → State τ η) → List (Update τ η) × (τ → State τ η)
  | [], states => ([], states)
  | u :: us, states =>
    if flowCfg < u.flowCfg then (u :: us, states) else seqnoRunLoop flowCfg us (cfgRun u states)

def seqnoRun (flowCfg : ℕ) (q : Table τ η) : Table τ η :=
  let ran := seqnoRunLoop flowCfg q.updates q.states
  { q with updates := ran.1, states := ran.2 }

/-- `ofctrl_seqno_flush`. -/
def flush (q : Table τ η) : Table τ η where
  updates := []
  reqSeqno := 0
  states t := { q.states t with ackedCfgs := [] }

/-- `ofctrl_acked_seqnos_get`: what it returns. -/
def acked (t : τ) (q : Table τ η) : AckedSeqnos :=
  let cfgs := (q.states t).ackedCfgs.map (·.reqCfg)
  ⟨cfgs.getLast?.getD (q.states t).curCfg, cfgs⟩

/-- `ofctrl_acked_seqnos_get`: what it leaves. -/
def popAcked (t : τ) (q : Table τ η) : Table τ η :=
  { q with states := update q.states t { q.states t with ackedCfgs := [] } }

/-! ### What a run does -/

def ofType (us : List (Update τ η)) (t : τ) : List (Update τ η) := us.filter (·.seqnoType = t)

theorem ofType_append (us us' : List (Update τ η)) (t : τ) :
    ofType (us ++ us') t = ofType us t ++ ofType us' t := filter_append ..

theorem cfgRun_apply (u : Update τ η) (states : τ → State τ η) (t : τ) :
    cfgRun u states t = ackAll (ofType [u] t) (states t) := by
  unfold cfgRun
  by_cases ht : t = u.seqnoType
  · subst ht
    simp [ofType, ackAll, lastCfg]
  · simp [ofType, ackAll, lastCfg, update_of_ne ht, Ne.symm ht]

/-- The loop acks the requests at the front of the list, up to the first one above `flowCfg`. -/
theorem seqnoRunLoop_spec (flowCfg : ℕ) : ∀ (us : List (Update τ η)) (states : τ → State τ η),
    ∃ done, us = done ++ (seqnoRunLoop flowCfg us states).1 ∧ (∀ u ∈ done, u.flowCfg ≤ flowCfg) ∧
      (∀ u ∈ (seqnoRunLoop flowCfg us states).1.head?, flowCfg < u.flowCfg) ∧
      ∀ t, (seqnoRunLoop flowCfg us states).2 t = ackAll (ofType done t) (states t)
  | [], states => ⟨[], rfl, by simp, by simp [seqnoRunLoop], by simp [seqnoRunLoop, ofType, ackAll,
      lastCfg]⟩
  | u :: us, states => by
    rw [seqnoRunLoop]
    by_cases hlt : flowCfg < u.flowCfg
    · rw [if_pos hlt]
      exact ⟨[], rfl, by simp, by simpa using hlt, by simp [ofType, ackAll, lastCfg]⟩
    rw [if_neg hlt]
    obtain ⟨done, h1, h2, h3, h4⟩ := seqnoRunLoop_spec flowCfg us (cfgRun u states)
    refine ⟨u :: done, by rw [cons_append, ← h1], ?_, h3, fun t => ?_⟩
    · exact forall_mem_cons.2 ⟨Nat.le_of_not_lt hlt, h2⟩
    · rw [h4, cfgRun_apply, ← ackAll_append, ← ofType_append, singleton_append]

theorem seqnoRun_spec (flowCfg : ℕ) (q : Table τ η) :
    ∃ done, q.updates = done ++ (q.seqnoRun flowCfg).updates ∧ (∀ u ∈ done, u.flowCfg ≤ flowCfg) ∧
      (∀ u ∈ (q.seqnoRun flowCfg).updates.head?, flowCfg < u.flowCfg) ∧
      ∀ t, (q.seqnoRun flowCfg).states t = ackAll (ofType done t) (q.states t) :=
  seqnoRunLoop_spec flowCfg q.updates q.states

theorem updateCreate_spec {t : τ} {newCfg : ℕ} (created : η) {q q' : Table τ η}
    (hn : newCfg ≠ (q.states t).reqCfg) (hq : q.updateCreate t newCfg created = q') :
    q'.updates = q.updates ++ [⟨t, q'.reqSeqno, newCfg, created⟩] ∧
      ∀ t', (q'.states t').ackedCfgs = (q.states t').ackedCfgs ∧
        (q'.states t').curCfg = (q.states t').curCfg ∧
        (q'.states t').reqCfg = if t = t' then newCfg else (q.states t').reqCfg := by
  unfold updateCreate at hq
  rw [if_neg hn] at hq
  subst hq
  refine ⟨rfl, fun t' => ?_⟩
  by_cases htt : t' = t
  · subst htt
    simp
  · simp [update_of_ne htt, Ne.symm htt]

theorem popAcked_states (t t' : τ) (q : Table τ η) : (q.popAcked t).states t' =
    { q.states t' with ackedCfgs := if t' = t then [] else (q.states t').ackedCfgs } := by
  by_cases ht : t' = t
  · subst ht
    simp [popAcked]
  · simp [popAcked, ht]

end

def registered : ℕ → Table ℕ η
  | 0 => init
  | n + 1 => (registered n).addType n

theorem registered_updates : ∀ n, (registered n : Table ℕ η).updates = []
  | 0 => rfl
  | n + 1 => registered_updates n

theorem registered_states : ∀ n t, (registered n : Table ℕ η).states t = ⟨[], 0, 0⟩
  | 0, _ => rfl
  | n + 1, t => by
    unfold registered addType
    by_cases ht : t < n
    · simp [registered_states n t]
    · simp [ht]

end Table

/-! ## Runs -/

inductive Call (n : ℕ)
  | updateCreate (t : Fin n) (newCfg : ℕ)
  | seqnoRun (flowCfg : ℕ)
  | ackedGet (t : Fin n)
  | flush

/-- The variables, and as history the value that was last requested of each type. -/
structure Requests where
  table : Table ℕ Unit
  requested : ℕ → Option ℕ

namespace Requests

variable {n : ℕ}

def next (s : Requests) : Call n → Option Requests
  | .updateCreate t newCfg =>
    some ⟨s.table.updateCreate t newCfg (), update s.requested t (some newCfg)⟩
  | .seqnoRun flowCfg => some { s with table := s.table.seqnoRun flowCfg }
  | .ackedGet t => some { s with table := s.table.popAcked t }
  | .flush => some { s with table := s.table.flush }

def calls (n : ℕ) : System Requests (Call n) := ⟨⟨Table.registered n, fun _ => none⟩, next⟩

/-- The request is in the pending list, and some call of `ofctrl_seqno_run` acks it. -/
def Pending (q : Table ℕ Unit) (t newCfg : ℕ) : Prop :=
  ∃ u ∈ q.updates, u.seqnoType = t ∧ u.reqCfg = newCfg ∧
    ∃ flowCfg < 2 ^ 64, u ∈ ((q.seqnoRun flowCfg).states t).ackedCfgs

def Acked (q : Table ℕ Unit) (t newCfg : ℕ) : Prop := (q.states t).curCfg = newCfg

/-- A flush finds the last request of each type acked. -/
def FlushDone (s : Requests) (c : Call n) : Prop :=
  c = .flush → ∀ t newCfg, s.requested t = some newCfg → Acked s.table t newCfg

open Ovn.Seqno.Table in
/-- The remembered request of a type is the last one that was made; it is the last pending one
    or, if none is pending, the acked one. -/
structure Inv (s : Requests) : Prop where
  requested : ∀ t newCfg, s.requested t = some newCfg → (s.table.states t).reqCfg = newCfg
  last : ∀ t, lastCfg (ofType s.table.updates t) (s.table.states t).curCfg =
    (s.table.states t).reqCfg
  fresh : ∀ t, s.requested t = none → ofType s.table.updates t = []
  bounded : ∀ u ∈ s.table.updates, u.flowCfg < 2 ^ 64

open Ovn.Seqno.Table in
theorem inv_init (n : ℕ) : Inv (calls n).init := by
  refine ⟨fun t newCfg h => ?_, fun t => ?_, fun t _ => ?_, fun u hu => ?_⟩
  · cases h
  · simp [calls, registered_updates, registered_states, ofType, lastCfg]
  · simp [calls, registered_updates, ofType]
  · simp [calls, registered_updates] at hu

section
open Ovn.Seqno.Table
variable {s : Requests}

theorem Inv.updateCreate (h : Inv s) (t newCfg : ℕ) :
    Inv ⟨s.table.updateCreate t newCfg (), update s.requested t (some newCfg)⟩ := by
  unfold Table.updateCreate
  by_cases hn : newCfg = (s.table.states t).reqCfg
  · -- a repeated request changes nothing
    rw [if_pos hn]
    refine ⟨fun t' cfg ht' => ?_, h.last, fun t' ht' => ?_, h.bounded⟩
    · by_cases htt : t' = t
      · subst htt
        simpa [← hn] using ht'
      · exact h.requested t' cfg (by simpa [update_of_ne htt] using ht')
    · by_cases htt : t' = t
      · subst htt
        simp at ht'
      · exact h.fresh t' (by simpa [update_of_ne htt] using ht')
  · rw [if_neg hn]
    refine ⟨fun t' cfg ht' => ?_, fun t' => ?_, fun t' ht' => ?_, fun u hu => ?_⟩
    · by_cases htt : t' = t
      · subst htt
        simpa using ht'
      · simpa [update_of_ne htt] using
          h.requested t' cfg (by simpa [update_of_ne htt] using ht')
    · by_cases htt : t' = t
      · subst htt
        simp [ofType, lastCfg]
      · have := h.last t'
        simpa [ofType, htt, Ne.symm htt] using this
    · by_cases htt : t' = t
      · subst htt
        simp at ht'
      · have := h.fresh t' (by simpa [update_of_ne htt] using ht')
        rw [ofType_append, this]
        simp [ofType, Ne.symm htt]
    · rcases mem_append.1 hu with hu | hu
      · exact h.bounded u hu
      · rw [mem_singleton.1 hu]
        exact Nat.mod_lt _ (Nat.two_pow_pos 64)

theorem Inv.seqnoRun (h : Inv s) (flowCfg : ℕ) :
    Inv { s with table := s.table.seqnoRun flowCfg } := by
  obtain ⟨done, hus, -, -, hst⟩ := seqnoRun_spec flowCfg s.table
  have hreq : ∀ t, ((s.table.seqnoRun flowCfg).states t).reqCfg = (s.table.states t).reqCfg := by
    intro t
    rw [hst]
    rfl
  have hlast : ∀ t, lastCfg (ofType (s.table.seqnoRun flowCfg).updates t)
      ((s.table.seqnoRun flowCfg).states t).curCfg = (s.table.states t).reqCfg := by
    intro t
    rw [← h.last t, hus, ofType_append, lastCfg_append, hst]
    rfl
  refine ⟨fun t cfg ht => (hreq t).trans (h.requested t cfg ht), fun t => (hlast t).trans
    (hreq t).symm, fun t ht => ?_, fun u hu => h.bounded u ?_⟩
  · have := h.fresh t ht
    rw [hus, ofType_append] at this
    exact (append_eq_nil_iff.1 this).2
  · rw [hus]
    exact mem_append_right done hu

theorem Inv.popAcked (h : Inv s) (t : ℕ) : Inv { s with table := s.table.popAcked t } := by
  refine ⟨fun t' cfg ht => ?_, fun t' => ?_, h.fresh, h.bounded⟩
  · rw [popAcked_states]
    exact h.requested t' cfg ht
  · rw [popAcked_states]
    exact h.last t'

theorem Inv.flush (h : Inv s)
    (hdone : ∀ t newCfg, s.requested t = some newCfg → Acked s.table t newCfg) :
    Inv { s with table := s.table.flush } := by
  refine ⟨h.requested, fun t => ?_, fun t _ => rfl, fun u hu => by cases hu⟩
  match ht : s.requested t with
  | none =>
    have hlast := h.last t
    rwa [h.fresh t ht] at hlast
  | some cfg => exact (hdone t cfg ht).trans (h.requested t cfg ht).symm

theorem Inv.pending (h : Inv s) {u : Update ℕ Unit} (hu : u ∈ s.table.updates) :
    Pending s.table u.seqnoType u.reqCfg := by
  obtain ⟨done, hus, -, hhead, hst⟩ := seqnoRun_spec (2 ^ 64 - 1) s.table
  have hnil : (s.table.seqnoRun (2 ^ 64 - 1)).updates = [] := by
    rcases hr : (s.table.seqnoRun (2 ^ 64 - 1)).updates with _ | ⟨v, vs⟩
    · rfl
    · have hlt := hhead v (by rw [hr]; rfl)
      have hle := h.bounded v (by rw [hus, hr]; simp)
      omega
  rw [hnil, append_nil] at hus
  refine ⟨u, hu, rfl, rfl, 2 ^ 64 - 1, by decide, ?_⟩
  rw [hst]
  exact mem_append_right _ (mem_filter.2 ⟨hus ▸ hu, by simp⟩)

theorem Inv.pending_or_acked (h : Inv s) {t newCfg : ℕ} (hr : s.requested t = some newCfg) :
    Pending s.table t newCfg ∨ Acked s.table t newCfg := by
  have hlast := h.last t
  rw [h.requested t newCfg hr, lastCfg] at hlast
  match hl : (ofType s.table.updates t).getLast? with
  | none =>
    rw [hl] at hlast
    exact .inr hlast
  | some u =>
    rw [hl] at hlast
    obtain ⟨hu, ht⟩ := mem_filter.1 (mem_of_getLast? hl)
    obtain rfl : u.seqnoType = t := by simpa using ht
    obtain rfl : u.reqCfg = newCfg := hlast
    exact .inl (h.pending hu)

end

/-- **No request is lost.** In every run whose flushes find the last request of each type
    acked, the last request of a type is pending or acked. -/
theorem requested_pending_or_acked (n : ℕ) {s : Requests} (h : (calls n).Reached FlushDone s)
    {t newCfg : ℕ} (hr : s.requested t = some newCfg) :
    Pending s.table t newCfg ∨ Acked s.table t newCfg := by
  refine Inv.pending_or_acked (h.invariant (inv_init n) ?_) hr
  rintro s c s' hs hc hn
  cases c with
  | updateCreate t cfg =>
    obtain rfl := Option.some.inj hn
    exact hs.updateCreate t cfg
  | seqnoRun flowCfg =>
    obtain rfl := Option.some.inj hn
    exact hs.seqnoRun flowCfg
  | ackedGet t =>
    obtain rfl := Option.some.inj hn
    exact hs.popAcked t
  | flush =>
    obtain rfl := Option.some.inj hn
    exact hs.flush (hc rfl)

/-- A flush drops a pending request, and the same request is not made again. -/
theorem requested_lost : ∃ s, (calls 1).exec (fun _ _ => True)
        (calls 1).init [.updateCreate 0 5, .flush, .updateCreate 0 5] = some s ∧
      s.requested 0 = some 5 ∧ s.table.updates = [] ∧ ¬ Acked s.table 0 5 :=
  ⟨_, rfl, rfl, rfl, fun h => absurd h (by show ¬ (0 = 5); decide)⟩

theorem requested_pending_second : ∃ s : Requests, s.requested 0 = some 7 ∧
    (Pending s.table 0 7 ∨ Acked s.table 0 7) := by
  obtain ⟨s, hs, h⟩ : ∃ s, (calls 1).Reached FlushDone s ∧ s.requested 0 = some 7 := by
    refine ⟨_, System.Reached.step (a := Call.updateCreate 0 7) (System.Reached.step (a := .flush)
      (System.Reached.step (a := .seqnoRun 1) (System.Reached.step (a := Call.updateCreate 0 5)
        .init (by rintro ⟨⟩) rfl) (by rintro ⟨⟩) rfl) ?_ rfl) (by rintro ⟨⟩) rfl, rfl⟩
    rintro - t newCfg h
    match t with
    | 0 => exact Option.some.inj h
  exact ⟨s, h, requested_pending_or_acked 1 hs h⟩

end Requests

end Ovn.Seqno

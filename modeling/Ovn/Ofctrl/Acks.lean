/-
  Acknowledgement soundness of the main loop.

  * the invariant of the main loop, kept by every timely step,
  * a request is acknowledged only after the puts made for it were answered,
  * without the condition it is not: the counter of the requests restarts when the
    connection is lost, and `cur_cfg` does not; the last number that was acknowledged stays
    reported as well.
-/
import Ovn.Ofctrl.Tracked

namespace Ovn

open Ofctrl Batch
open List

/-! ## The invariant of the main loop -/

/-- The outcome of the engine in the phases before `ofctrl_put` and after it. -/
def Phase.before : Phase → Option EngineOutcome
  | .requests out | .put out => some out
  | _ => none

def Phase.after : Phase → Option EngineOutcome
  | .seqnoRun out | .ifStatus out => some out
  | .store out => out
  | _ => none

/-- No acknowledgement waits to be reported. -/
def Phase.Quiet : Phase → Prop
  | .ifStatus _ | .store _ => False
  | _ => True

namespace Controller

/-- The condition on a step: a request is created above `cur_cfg` (and the counter does not
    wrap), and when a new connection comes up no pending request is below `cur_cfg`. -/
def Timely (s : Controller) : Action → Prop
  | .seqnoUpdateCreate t newCfg => newCfg ≠ (s.seqnos.states t).reqCfg →
      s.ofctrl.curCfg ≤ s.seqnos.reqSeqno ∧ s.seqnos.reqSeqno + 1 < 2 ^ 64
  | .ofctrlRun c _ _ => c = .up → ∀ u ∈ s.seqnos.updates, s.ofctrl.curCfg < u.flowCfg
  | _ => True

instance (s : Controller) (a : Action) : Decidable (s.Timely a) := by
  cases a <;> unfold Timely <;> infer_instance

/-- When a new connection comes up, no number is reported as the last one that was acked. -/
def Unreported (s : Controller) : Action → Prop
  | .ofctrlRun c _ _ => c = .up → ∀ t, (s.seqnos.states t).curCfg = 0
  | _ => True

instance {p : SeqnoType → Prop} [DecidablePred p] : Decidable (∀ t, p t) :=
  decidable_of_iff (p .nbCfg ∧ p .ifaceCfg)
    ⟨fun h t => by cases t <;> [exact h.1; exact h.2], fun h => ⟨h _, h _⟩⟩

instance (s : Controller) (a : Action) : Decidable (s.Unreported a) := by
  cases a <;> unfold Unreported <;> infer_instance

structure Inv (s : Controller) : Prop where
  tracked : Tracked s.seqnos s.ofctrl
  acked : ∀ t, ∀ u ∈ (s.seqnos.states t).ackedCfgs,
    Acknowledged s.ofctrl.puts s.ofctrl.conn u.created
  quiet : s.phase.Quiet → ∀ t, (s.seqnos.states t).ackedCfgs = []
  iface : ∀ out, s.phase = .store out → (s.seqnos.states .ifaceCfg).ackedCfgs = []
  behind : s.forceRecompute = true ∨ Behind s.ofctrl
  before : ∀ out ∈ s.phase.before, (out.completed = true → out.outputs.isSome = true) ∧
    (s.forceRecompute = true → ∀ flags ∈ out.outputs, flags = (true, true))
  after : ∀ out ∈ s.phase.after, out.completed = true → Behind s.ofctrl

namespace Inv

variable {s : Controller}

theorem acked_of_empty {q : Seqno.Table SeqnoType ℕ} {o : Ofctrl}
    (h : ∀ t, (q.states t).ackedCfgs = []) :
    ∀ t, ∀ u ∈ (q.states t).ackedCfgs, Acknowledged o.puts o.conn u.created := by
  intro t u hu
  rw [h t] at hu
  cases hu

theorem drop (h : Inv s) : Inv { s with
    ofctrl := { s.ofctrl with swconn := { s.ofctrl.swconn with connected := false } } } :=
  ⟨h.tracked.disconnect, h.acked, h.quiet, h.iface, h.behind, h.before, h.after⟩

theorem ofctrlRun (h : Inv s) (hp : s.phase = .top) {c : RconnRun} (waitTime : ℕ)
    (rounds : ℕ → Round) (hq : c = .up → ∀ u ∈ s.seqnos.updates, s.ofctrl.curCfg < u.flowCfg) :
    Inv { s with
      ofctrl := (s.ofctrl.ofctrlRun c waitTime rounds).2
      forceRecompute := s.forceRecompute || (s.ofctrl.ofctrlRun c waitTime rounds).1
      phase := .ran } := by
  have hempty := h.quiet (by simp [hp, Phase.Quiet])
  refine ⟨h.tracked.ofctrlRun waitTime rounds hq, acked_of_empty hempty, fun _ => hempty,
    by simp, ?_, by simp [Phase.before], by simp [Phase.after]⟩
  unfold Ofctrl.ofctrlRun
  dsimp only
  split
  · rw [Bool.or_false]
    exact h.behind
  · split
    · simp
    · rcases h.behind with hf | hb
      · simp [hf]
      · have hb : Behind ((s.ofctrl.connect c).setWaitTime waitTime) := hb
        exact .inr (hb.kept (Behind.kept_runRounds rounds 50 _))

theorem isConnectedRun (h : Inv s) : Inv s.isConnectedRun := by
  unfold Controller.isConnectedRun
  split
  · exact h
  next hne =>
    by_cases hc : s.connected = true
    · have hd : s.ofctrl.swconn.connected = false := by
        rw [hc] at hne
        simpa using Ne.symm hne
      rw [if_pos hc]
      exact { h with
        tracked := h.tracked.flush hd
        acked := acked_of_empty fun _ => rfl
        quiet := fun _ _ => rfl
        iface := fun _ _ => rfl }
    · rw [if_neg hc]
      exact { h with }

theorem sees (h : Inv s) (b : Bool) : Inv (if b then s.isConnectedRun else s) := by
  split
  · exact h.isConnectedRun
  · exact h

omit s in
theorem isConnectedRun_phase (b : Bool) (s : Controller) :
    (if b then s.isConnectedRun else s).phase = s.phase ∧
      (if b then s.isConnectedRun else s).forceRecompute = s.forceRecompute := by
  unfold Controller.isConnectedRun
  split <;> [split; skip] <;> exact ⟨rfl, rfl⟩

/-- Where the engine is not run, the rest of an iteration is left out up to `store_nb_cfg`. -/
theorem engineNeedRun (h : Inv s) (hp : s.phase.Quiet) (b updated : Bool) :
    Inv { s.engineNeedRun b updated with phase := .store none } := by
  have h' := h.sees b
  obtain ⟨hphase, hforce⟩ := isConnectedRun_phase b s
  refine ⟨h'.tracked, h'.acked, fun hq => hq.elim, fun _ _ => h'.quiet (hphase ▸ hp) .ifaceCfg, ?_,
    by simp [Phase.before], by simp [Phase.after]⟩
  rcases h'.behind with hf | hb
  · exact .inl (by simp [Controller.engineNeedRun, ← hforce, hf])
  · exact .inr hb

variable {out : EngineOutcome}

theorem engineRun (h : Inv s) (hp : s.phase = .ran) {sees : Bool}
    (hpos : s.EnginePossible sees out) :
    Inv { (if sees then s.isConnectedRun else s) with phase := .requests out } := by
  have hq : s.phase.Quiet := by simp [hp, Phase.Quiet]
  have h' := h.sees sees
  obtain ⟨hphase, hforce⟩ := isConnectedRun_phase sees s
  have hempty := h'.quiet (hphase ▸ hq)
  refine ⟨h'.tracked, h'.acked, fun _ => hempty, by simp, h'.behind, ?_, by simp [Phase.after]⟩
  rintro _ ⟨⟩
  rw [hforce]
  exact ⟨fun hc => (hpos.1 hc).2, hpos.2⟩

theorem updateCreate (h : Inv s) (hp : s.phase = .requests out) (t : SeqnoType) (newCfg : ℕ)
    (hc : newCfg ≠ (s.seqnos.states t).reqCfg →
      s.ofctrl.curCfg ≤ s.seqnos.reqSeqno ∧ s.seqnos.reqSeqno + 1 < 2 ^ 64)
        {made : List SeqnoUpdate} :
    Inv { s with seqnos := s.seqnos.updateCreate t newCfg s.ofctrl.puts.length, made } := by
  have hempty : ∀ t', ((s.seqnos.updateCreate t newCfg s.ofctrl.puts.length).states
      t').ackedCfgs = [] := by
    intro t'
    have := h.quiet (by simp [hp, Phase.Quiet]) t'
    unfold Seqno.Table.updateCreate
    split
    · exact this
    · by_cases ht : t' = t
      · subst ht; simpa using this
      · simpa [Function.update_of_ne ht] using this
  exact ⟨h.tracked.updateCreate t newCfg hc, acked_of_empty hempty, fun _ => hempty,
    fun _ _ => hempty _, h.behind, h.before, h.after⟩

theorem setInitialFlowsReady (h : Inv s) (hp : s.phase = .requests out) (ready : Bool) :
    Inv { s with
      ofctrl := { s.ofctrl with initialFlowsReady := ready }
      phase := .put out } := by
  have hempty := h.quiet (by simp [hp, Phase.Quiet])
  exact ⟨h.tracked.congr rfl rfl rfl rfl rfl (.inl rfl), h.acked, fun _ => hempty, by simp,
    h.behind, by simpa [hp, Phase.before] using h.before, by simp [Phase.after]⟩

theorem ofctrlPut (h : Inv s) (hp : s.phase = .put out) (packetsQueued work : Bool)
    (barrier : Xid) :
    Inv { (match out.outputs with
      | some flags => s.put flags packetsQueued work barrier
      | none => s) with phase := .seqnoRun out } := by
  have hempty := h.quiet (by simp [hp, Phase.Quiet])
  obtain ⟨hsome, hflags⟩ := h.before out (by simp [hp, Phase.before])
  match ho : out.outputs with
  | none =>
    refine ⟨h.tracked, h.acked, fun _ => hempty, by simp, h.behind, by simp [Phase.before], ?_⟩
    rintro _ ⟨⟩ hc
    simp [ho] at hsome
    simp [hsome] at hc
  | some flags =>
    have hb : changed ⟨s.seqnos.reqSeqno, flags.1, flags.2, packetsQueued, work, barrier⟩
        s.ofctrl = true ∨ s.ofctrl.state = .updateFlows := by
      rcases h.behind with hf | hb | hb | hb
      · simp [changed, hflags hf flags ho]
      · simp [changed, hb]
      · simp [changed, hb]
      · exact .inr hb
    have hb' := Behind.ofctrlPut hb
    exact ⟨h.tracked.ofctrlPut rfl hb, acked_of_empty hempty, fun _ => hempty, by simp,
      .inr hb', by simp [Phase.before], fun _ _ _ => hb'⟩

theorem seqnoRun (h : Inv s) (hp : s.phase = .seqnoRun out) :
    Inv { s with seqnos := s.seqnos.seqnoRun s.ofctrl.curCfg, phase := .ifStatus out } := by
  obtain ⟨done, hus, hle, -, hst⟩ := Seqno.Table.seqnoRun_spec s.ofctrl.curCfg s.seqnos
  refine ⟨h.tracked.shrink (fun u hu => hus ▸ mem_append_right _ hu) rfl, ?_, fun hq => hq.elim,
    by simp, h.behind, by simp [Phase.before], by simpa [hp, Phase.after] using h.after⟩
  intro t u hu
  rw [hst] at hu
  rcases mem_append.1 hu with hu | hu
  · exact h.acked t u hu
  · have hu := (mem_filter.1 hu).1
    exact h.tracked.acked u (hus ▸ mem_append_left _ hu) (hle u hu)

theorem ifStatusMgrRun (h : Inv s) (hp : s.phase = .ifStatus out) :
    Inv { s with seqnos := s.seqnos.popAcked .ifaceCfg, phase := .store (some out) } := by
  refine ⟨h.tracked.shrink (fun _ hu => hu) rfl, ?_, fun hq => hq.elim, fun _ _ => ?_, h.behind,
    by simp [Phase.before], by simpa [hp, Phase.after] using h.after⟩
  · intro t u hu
    rw [Seqno.Table.popAcked_states] at hu
    dsimp only at hu
    split at hu
    · cases hu
    · exact h.acked t u hu
  · rw [Seqno.Table.popAcked_states]
    rfl

theorem storeNbCfg (h : Inv s) {out : Option EngineOutcome} (hp : s.phase = .store out) :
    Inv ({ s with seqnos := s.seqnos.popAcked .nbCfg }.endIteration out) := by
  have hempty : ∀ t, ((s.seqnos.popAcked .nbCfg).states t).ackedCfgs = [] := by
    intro t
    cases t with
    | nbCfg => rfl
    | ifaceCfg => exact h.iface out hp
  refine ⟨h.tracked.shrink (fun _ hu => hu) rfl, acked_of_empty hempty, fun _ => hempty,
    by simp [endIteration], ?_, by simp [endIteration, Phase.before],
    by simp [endIteration, Phase.after]⟩
  cases out with
  | none => exact h.behind
  | some out =>
    by_cases hc : out.completed = true
    · exact .inr (h.after out (by simp [hp, Phase.after]) hc)
    · exact .inl (by simpa [endIteration] using hc)

/-- **The step.** Every timely step of the main loop keeps the invariant. -/
theorem next (h : Inv s) {a : Action} (ha : s.Timely a) {s' : Controller}
    (hn : s.next a = some s') : Inv s' := by
  cases a <;> simp only [Controller.next, Option.ite_none_right_eq_some, Option.some.injEq] at hn
  case drop => exact hn ▸ h.drop
  case noBridge | noChassis =>
    obtain ⟨hp, rfl⟩ := hn
    exact h.engineNeedRun (by simp [hp, Phase.Quiet]) _ _
  case ofctrlRun c waitTime rounds =>
    obtain ⟨hp, rfl⟩ := hn
    exact h.ofctrlRun hp waitTime rounds ha
  case engineRun sees out =>
    obtain ⟨⟨hp, hpos⟩, rfl⟩ := hn
    exact h.engineRun hp hpos
  case seqnoUpdateCreate t newCfg =>
    split at hn <;> cases hn
    next hp => exact h.updateCreate hp t newCfg ha
  case setInitialFlowsReady ready =>
    split at hn <;> cases hn
    next hp => exact h.setInitialFlowsReady hp ready
  case ofctrlPut packetsQueued work barrier =>
    split at hn <;> cases hn
    next hp => exact h.ofctrlPut hp packetsQueued work barrier
  case seqnoRun =>
    split at hn <;> cases hn
    next hp => exact h.seqnoRun hp
  case ifStatusMgrRun =>
    split at hn <;> cases hn
    next hp => exact h.ifStatusMgrRun hp
  case storeNbCfg =>
    split at hn <;> cases hn
    next hp => exact h.storeNbCfg hp

theorem start : Inv Controller.start := by
  refine ⟨?_, by simp [Controller.start, Seqno.Table.init],
    by simp [Controller.start, Seqno.Table.init],
    by simp [Controller.start], .inl rfl, by simp [Controller.start, Phase.before],
    by simp [Controller.start, Phase.after]⟩
  constructor <;> simp [Controller.start, Ofctrl.conn, Seqno.Table.init]

end Inv

/-! ## The last number that was acked -/

/-- What is reported as the last number of a type was asked for and acknowledged. -/
structure Reported (s : Controller) : Prop where
  made : ∀ u ∈ s.seqnos.updates, u ∈ s.made
  last : ∀ t, (s.seqnos.acked t).lastAcked = (s.seqnos.states t).curCfg
  sound : ∀ t, (s.seqnos.states t).curCfg ≠ 0 → ∃ u ∈ s.made, u.seqnoType = t ∧
    u.reqCfg = (s.seqnos.states t).curCfg ∧ Acknowledged s.ofctrl.puts s.ofctrl.conn u.created

namespace Reported

variable {s : Controller}

/-- The requests stay, and what is acknowledged stays so. -/
theorem transfer (h : Reported s) {s' : Controller} (hq : s'.seqnos = s.seqnos)
    (hm : s'.made = s.made)
    (ha : ∀ t k, (s.seqnos.states t).curCfg ≠ 0 → Acknowledged s.ofctrl.puts s.ofctrl.conn k →
      Acknowledged s'.ofctrl.puts s'.ofctrl.conn k) : Reported s' := by
  refine ⟨hq ▸ hm ▸ h.made, hq ▸ h.last, fun t ht => ?_⟩
  rw [hq] at ht ⊢
  obtain ⟨u, hu, h1, h2, h3⟩ := h.sound t ht
  exact ⟨u, hm ▸ hu, h1, h2, ha t _ ht h3⟩

theorem ofctrlRun (h : Reported s) {c : RconnRun} (waitTime : ℕ) (rounds : ℕ → Round)
    (hseq : s.ofctrl.seqno = s.ofctrl.conn)
    (hc : c = .up → ∀ t, (s.seqnos.states t).curCfg = 0) {force : Bool} {phase : Phase} :
    Reported { s with
      ofctrl := (s.ofctrl.ofctrlRun c waitTime rounds).2, forceRecompute := force, phase } := by
  refine h.transfer rfl rfl fun t k ht hk => ?_
  cases c with
  | up => exact absurd (hc rfl t) ht
  | down => exact hk
  | same =>
    unfold Ofctrl.ofctrlRun
    dsimp only
    split
    · exact hk
    · have heq : (s.ofctrl.connect .same).seqno = (s.ofctrl.connect .same).conn := hseq
      rw [if_neg (not_not.2 heq)]
      obtain ⟨-, -, -, hconn, hack⟩ :=
        Behind.kept_runRounds rounds 50 ((s.ofctrl.connect .same).setWaitTime waitTime)
      exact hconn.symm ▸ hack k hk

theorem sees (h : Reported s) (b : Bool) : Reported (if b then s.isConnectedRun else s) := by
  unfold Controller.isConnectedRun
  split <;> [split; skip]
  · exact h
  · split
    · exact ⟨by simp [Seqno.Table.flush], fun _ => rfl, h.sound⟩
    · exact ⟨h.made, h.last, h.sound⟩
  · exact h

theorem updateCreate (h : Reported s) (t : SeqnoType) (newCfg : ℕ) :
    Reported { s with
      seqnos := s.seqnos.updateCreate t newCfg s.ofctrl.puts.length
      made := s.made ++ (s.seqnos.updateCreate t newCfg s.ofctrl.puts.length).updates.drop
        s.seqnos.updates.length } := by
  by_cases hn : newCfg = (s.seqnos.states t).reqCfg
  · have he : s.seqnos.updateCreate t newCfg s.ofctrl.puts.length = s.seqnos := if_pos hn
    simpa [he] using h
  obtain ⟨hus, hst⟩ := Seqno.Table.updateCreate_spec s.ofctrl.puts.length hn rfl
  refine ⟨fun u hu => ?_, fun t' => ?_, fun t' ht' => ?_⟩
  · dsimp only at hu ⊢
    rw [hus] at hu ⊢
    rw [drop_left]
    rcases mem_append.1 hu with hu | hu
    · exact mem_append_left _ (h.made u hu)
    · exact mem_append_right _ hu
  · have := h.last t'
    simp only [Seqno.Table.acked, (hst t').1, (hst t').2.1] at this ⊢
    exact this
  · rw [(hst t').2.1] at ht' ⊢
    obtain ⟨u, hu, hrest⟩ := h.sound t' ht'
    exact ⟨u, mem_append_left _ hu, hrest⟩

theorem seqnoRun (h : Reported s) (hi : Inv s) {phase : Phase} :
    Reported { s with seqnos := s.seqnos.seqnoRun s.ofctrl.curCfg, phase } := by
  obtain ⟨done, hus, hle, -, hst⟩ := Seqno.Table.seqnoRun_spec s.ofctrl.curCfg s.seqnos
  refine ⟨fun u hu => h.made u (hus ▸ mem_append_right _ hu), fun t => ?_, fun t ht => ?_⟩
  · have hlast := h.last t
    simp only [Seqno.Table.acked, hst, Seqno.Table.ackAll, Seqno.Table.lastCfg, map_append,
      getLast?_append, getLast?_map] at hlast ⊢
    cases (Seqno.Table.ofType done t).getLast? with
    | none => simpa using hlast
    | some u => simp
  · dsimp only at ht ⊢
    rw [hst, Seqno.Table.ackAll, Seqno.Table.lastCfg] at ht ⊢
    cases hl : (Seqno.Table.ofType done t).getLast? with
    | none =>
      rw [hl] at ht
      exact h.sound t ht
    | some u =>
      -- the request that was acked last
      obtain ⟨hu, htype⟩ := mem_filter.1 (mem_of_getLast? hl)
      have hmem : u ∈ s.seqnos.updates := hus ▸ mem_append_left _ hu
      exact ⟨u, h.made u hmem, by simpa using htype, rfl, hi.tracked.acked u hmem (hle u hu)⟩

theorem popAcked (h : Reported s) (t : SeqnoType) {force : Bool} {phase : Phase} :
    Reported { s with seqnos := s.seqnos.popAcked t, forceRecompute := force, phase } := by
  refine ⟨h.made, fun t' => ?_, fun t' ht' => ?_⟩
  · have hlast := h.last t'
    simp only [Seqno.Table.acked, Seqno.Table.popAcked_states] at hlast ⊢
    split
    · rfl
    · exact hlast
  · dsimp only at ht' ⊢
    rw [Seqno.Table.popAcked_states] at ht' ⊢
    exact h.sound t' ht'

theorem next (h : Reported s) (hi : Inv s) {a : Action} (ha : s.Unreported a) {s' : Controller}
    (hn : s.next a = some s') : Reported s' := by
  cases a <;> simp only [Controller.next, Option.ite_none_right_eq_some, Option.some.injEq] at hn
  case drop => exact hn ▸ ⟨h.made, h.last, h.sound⟩
  case noBridge | noChassis =>
    obtain ⟨-, rfl⟩ := hn
    have h' := h.sees
    exact ⟨(h' _).made, (h' _).last, (h' _).sound⟩
  case ofctrlRun c waitTime rounds =>
    obtain ⟨-, rfl⟩ := hn
    exact h.ofctrlRun waitTime rounds hi.tracked.seqno ha
  case engineRun sees out =>
    obtain ⟨-, rfl⟩ := hn
    have h' := h.sees sees
    exact ⟨h'.made, h'.last, h'.sound⟩
  case seqnoUpdateCreate t newCfg =>
    split at hn <;> cases hn
    exact h.updateCreate t newCfg
  case setInitialFlowsReady ready =>
    split at hn <;> cases hn
    exact ⟨h.made, h.last, h.sound⟩
  case ofctrlPut packetsQueued work barrier =>
    split at hn <;> cases hn
    next out _ =>
      cases out.outputs with
      | none => exact ⟨h.made, h.last, h.sound⟩
      | some flags => exact h.transfer rfl rfl fun _ k _ hk => Behind.acknowledged_ofctrlPut _ hk
  case seqnoRun =>
    split at hn <;> cases hn
    exact h.seqnoRun hi
  case ifStatusMgrRun =>
    split at hn <;> cases hn
    exact h.popAcked .ifaceCfg
  case storeNbCfg =>
    split at hn <;> cases hn
    exact h.popAcked .nbCfg

theorem start : Reported Controller.start :=
  ⟨by simp [Controller.start, Seqno.Table.init], fun _ => rfl,
    by simp [Controller.start, Seqno.Table.init]⟩

end Reported

/-- **Acknowledgement soundness.** In every run of the main loop whose steps are timely, a
    request is reported as acknowledged only when, on the current connection, a put was
    completed after the request was created, and all that was sent up to that put has been
    answered.  So is the last number that is reported, unless a connection came up after it. -/
theorem acked_sound {s : Controller} (h : mainLoop.Reached Timely s) (t : SeqnoType) :
    (s.seqnos.acked t).acked = (s.seqnos.states t).ackedCfgs.map (·.reqCfg) ∧
    (∀ u ∈ (s.seqnos.states t).ackedCfgs, Acknowledged s.ofctrl.puts s.ofctrl.conn u.created) ∧
    (mainLoop.Reached (fun s a => s.Timely a ∧ s.Unreported a) s →
      (s.seqnos.acked t).lastAcked ≠ 0 → ∃ u ∈ s.made, u.seqnoType = t ∧
        u.reqCfg = (s.seqnos.acked t).lastAcked ∧
        Acknowledged s.ofctrl.puts s.ofctrl.conn u.created) := by
  refine ⟨rfl, (h.invariant Inv.start fun _ _ _ hi hP hn => Inv.next hi hP hn).acked t,
    fun h' hne => ?_⟩
  have hrep := (h'.invariant (I := fun s => Inv s ∧ Reported s) ⟨Inv.start, Reported.start⟩
    fun _ _ _ hi hP hn => ⟨hi.1.next hP.1 hn, hi.2.next hi.1 hP.2 hn⟩).2
  rw [hrep.last] at hne ⊢
  exact hrep.sound t hne

/-- An iteration of the main loop in which the engine completes, up to the point where
    acknowledgements are reported. -/
def iteration (c : RconnRun) (received : ℕ → Received) (changed : Bool) (nbCfgs : List ℕ) :
    List Action :=
  [.ofctrlRun c 0 fun n => ⟨0, 1, 2, received n⟩, .engineRun true ⟨true, some (changed, changed)⟩]
    ++ nbCfgs.map (.seqnoUpdateCreate .nbCfg)
    ++ [.setInitialFlowsReady true, .ofctrlPut false changed 7, .seqnoRun]

/-- The switch has our Geneve option, and tells so in its second message. -/
def geneveReply (n : ℕ) : Received :=
  if n = 48 then .message ⟨1, .tlvTableReply (some [⟨0x0102, 0x80, 4, 0⟩])⟩ else .nothing

/-- The switch answers the barrier of the put. -/
def barrierReply (n : ℕ) : Received :=
  if n = 49 then .message ⟨7, .barrierReply⟩ else .nothing

/-- A connection comes up, the first `nb_cfg` is requested, sent and answered. -/
def firstAck : List Action :=
  iteration .up geneveReply true [1] ++ [.ifStatusMgrRun, .storeNbCfg]
    ++ iteration .same barrierReply false []

theorem acked_sound_firstAck : ∃ s : Controller, (s.seqnos.acked .nbCfg) = ⟨1, [1]⟩ ∧
    (∀ u ∈ (s.seqnos.states .nbCfg).ackedCfgs, Acknowledged s.ofctrl.puts s.ofctrl.conn u.created) ∧
    ∃ u ∈ s.made, u.reqCfg = 1 ∧ Acknowledged s.ofctrl.puts s.ofctrl.conn u.created := by
  have he : (mainLoop.exec (fun s a => s.Timely a ∧ s.Unreported a) start firstAck).map
      (fun s => s.seqnos.acked .nbCfg) = some ⟨1, [1]⟩ := by decide +kernel
  obtain ⟨s, hs, ha⟩ := Option.map_eq_some_iff.1 he
  have h := System.Reached.exec .init hs
  obtain ⟨-, hacked, hlast⟩ := acked_sound (h.mono fun _ _ hP => hP.1) .nbCfg
  obtain ⟨u, hu, -, hcfg, hack⟩ := hlast h (by simp [ha])
  exact ⟨s, ha, hacked, u, hu, by rw [hcfg, ha], hack⟩

/-- The connection is lost, and `ofctrl_seqno_flush` restarts the counter while `cur_cfg`
    stays; the next request, made on a new connection, is acknowledged at once. -/
def lostConnection : List Action :=
  firstAck ++ [.ifStatusMgrRun, .storeNbCfg]
    ++ iteration .down (fun _ => .nothing) true [] ++ [.ifStatusMgrRun, .storeNbCfg]
    ++ iteration .up (fun _ => .nothing) true [2]

/-- A number of the connection that was lost is still the last one that is reported. -/
def staleReport : List Action :=
  firstAck ++ [.ifStatusMgrRun, .storeNbCfg]
    ++ iteration .down (fun _ => .nothing) true [] ++ [.ifStatusMgrRun, .storeNbCfg]
    ++ iteration .up (fun _ => .nothing) true []

theorem acked_unsound :
    (∃ s, mainLoop.Reached (fun _ _ => True) s ∧ ∃ u ∈ (s.seqnos.states .nbCfg).ackedCfgs,
      u.reqCfg = 2 ∧ s.ofctrl.swconn.connected = true ∧
        ¬Acknowledged s.ofctrl.puts s.ofctrl.conn u.created) ∧
    ∃ s, mainLoop.Reached Timely s ∧ (s.seqnos.acked .nbCfg).lastAcked = 1 ∧
      s.ofctrl.swconn.connected = true ∧ ∀ k, ¬Acknowledged s.ofctrl.puts s.ofctrl.conn k := by
  constructor
  · have he : (mainLoop.exec (fun _ _ => True) start lostConnection).map (fun s =>
        ((s.seqnos.states .nbCfg).ackedCfgs, s.ofctrl.swconn.connected, s.ofctrl.puts)) =
          some ([⟨.nbCfg, 1, 2, 1⟩], true, [⟨1, some 7, true⟩]) := by decide +kernel
    obtain ⟨s, hs, he⟩ := Option.map_eq_some_iff.1 he
    obtain ⟨hu, hc, hp⟩ : (s.seqnos.states .nbCfg).ackedCfgs = [⟨.nbCfg, 1, 2, 1⟩] ∧
        s.ofctrl.swconn.connected = true ∧ s.ofctrl.puts = [⟨1, some 7, true⟩] := by
      simpa using he
    refine ⟨s, System.Reached.exec .init hs, ⟨.nbCfg, 1, 2, 1⟩, by rw [hu]; simp, rfl, hc, ?_⟩
    -- no put was completed after the request
    rintro ⟨k, hk, ⟨b, hb, -⟩, -⟩
    rw [hp] at hb
    have := lt_of_getElem? hb
    simp only [length_singleton] at this
    dsimp only at hk
    omega
  · have he : (mainLoop.exec Timely start staleReport).map (fun s =>
        ((s.seqnos.acked .nbCfg).lastAcked, s.ofctrl.swconn, s.ofctrl.puts)) =
          some (1, ⟨true, 2⟩, [⟨1, some 7, true⟩]) := by decide +kernel
    obtain ⟨s, hs, he⟩ := Option.map_eq_some_iff.1 he
    obtain ⟨hl, hc, hp⟩ : (s.seqnos.acked .nbCfg).lastAcked = 1 ∧ s.ofctrl.swconn = ⟨true, 2⟩ ∧
        s.ofctrl.puts = [⟨1, some 7, true⟩] := by simpa using he
    refine ⟨s, System.Reached.exec .init hs, hl, by rw [hc], ?_⟩
    -- nothing was put on the second connection
    rintro k ⟨i, -, ⟨b, hb, hconn⟩, -⟩
    rw [hp] at hb
    rw [Ofctrl.conn, hc] at hconn
    have := mem_of_getElem? hb
    simp_all

end Controller

end Ovn

/-
  The incremental processing engine (`lib/inc-proc-eng.c`) and the bookkeeping of
  the main loops around it (`northd/inc-proc-northd.c`,
  `controller/ovn-controller.c`).

  The engine is a graph of nodes.  A node has data, which `run()` computes from the
  data of its inputs, and a state, which says how the data came about in the current
  iteration.  When an input has been updated, its change handler may bring the data
  up to date; where there is none, or it gives up, the node is recomputed, and where
  recomputing is not allowed the run is aborted.

  `Graph.Sound` is what the users of the engine have to provide.  `Kept` holds between
  iterations; `engineRun_correct` is for a run that is neither aborted nor skipped.
-/
import Ovn.Lib.Dag
import Mathlib.Tactic.Ring

namespace Ovn.Engine

open Function (update update_of_ne update_self)
open List

/-! ## The code -/

inductive NodeState where
  | stale | updated | unchanged | aborted
  deriving DecidableEq, Repr

/-- What a change handler does: the Boolean it returns, the data it leaves the node
    with, and whether it sets the state of the node to `EN_UPDATED`. -/
structure Handled (δ : Type*) where
  handled : Bool
  data : δ
  updated : Bool

variable {ν δ κ : Type*}

/-- What `run()` and the change handlers can see: the engine context, the data at the
    beginning of the iteration (by way of the tracked changes), and the data now. -/
structure View (ν δ κ : Type*) where
  ctx : κ
  old : ν → δ
  data : ν → δ

structure Input (ν δ κ : Type*) where
  node : ν
  changeHandler : Option (View ν δ κ → δ → Handled δ)

/-- The nodes of the engine, which form an acyclic graph below `root`.  `run` returns
    the data and the state it sets. -/
structure Graph (ν δ κ : Type*) where
  root : ν
  inputs : ν → List (Input ν δ κ)
  run : ν → View ν δ κ → δ → δ × NodeState
  rank : ν → ℕ
  rank_lt : ∀ n, ∀ i ∈ inputs n, rank i.node < rank n

def Graph.dag (g : Graph ν δ κ) : Dag ν where
  inputs n := (g.inputs n).map Input.node
  rank := g.rank
  rank_lt {m n} h := by
    obtain ⟨i, hi, rfl⟩ := mem_map.1 h
    exact g.rank_lt n i hi

theorem Graph.dag_inputs (g : Graph ν δ κ) (n : ν) :
    g.dag.inputs n = (g.inputs n).map Input.node := rfl

variable [DecidableEq ν]

/-- `engine_get_nodes`: `engine_topo_sort` from the root. -/
def Graph.nodes (g : Graph ν δ κ) : List ν :=
  g.dag.visit (g.rank g.root + 1) g.root []

/-- The nodes, and the global variables `engine_force_recompute` and
    `engine_run_aborted`. -/
structure State (ν δ : Type*) where
  data : ν → δ
  state : ν → NodeState
  forceRecompute : Bool
  runAborted : Bool

def State.setNodeState (s : State ν δ) (n : ν) (st : NodeState) : State ν δ :=
  { s with state := update s.state n st }

def State.setData (s : State ν δ) (n : ν) (d : δ) : State ν δ :=
  { s with data := update s.data n d }

section
variable (g : Graph ν δ κ) (ctx : κ) (old : ν → δ) (recomputeAllowed : Bool)

/-- `node->run(node, node->data)`. -/
def callRun (n : ν) (s : State ν δ) : State ν δ :=
  let (d, st) := g.run n ⟨ctx, old, s.data⟩ (s.data n)
  (s.setData n d).setNodeState n st

def engineRecompute (n : ν) (s : State ν δ) : State ν δ :=
  if !recomputeAllowed then s.setNodeState n .aborted else callRun g ctx old n s

/-- `engine_compute`: whether the node could be computed.  `none` is the call of a
    change handler that is not there. -/
def engineCompute (n : ν) : List (Input ν δ κ) → State ν δ → Option (Bool × State ν δ)
  | [], s => some (true, s)
  | input :: inputs, s =>
    if s.state input.node = .updated then
      match input.changeHandler with
      | none => none
      | some handler =>
        let r := handler ⟨ctx, old, s.data⟩ (s.data n)
        let s := s.setData n r.data
        let s := if r.updated then s.setNodeState n .updated else s
        if !r.handled then
          let s := engineRecompute g ctx old recomputeAllowed n s
          some (s.state n ≠ .aborted, s)
        else engineCompute n inputs s
    else engineCompute n inputs s

/-- The end of `engine_run_node`. -/
def markUnchanged (n : ν) (s : State ν δ) : State ν δ :=
  if s.state n ≠ .updated then s.setNodeState n .unchanged else s

def engineRunNode (n : ν) (s : State ν δ) : Option (State ν δ) :=
  if g.inputs n = [] then some (callRun g ctx old n s)
  else if s.forceRecompute then some (engineRecompute g ctx old recomputeAllowed n s)
  else if (g.inputs n).any fun i => s.state i.node = .updated ∧ i.changeHandler.isNone then
    some (engineRecompute g ctx old recomputeAllowed n s)
  else if (g.inputs n).any fun i => s.state i.node = .updated then
    match engineCompute g ctx old recomputeAllowed n (g.inputs n) s with
    | none => none
    | some (false, s) => some s
    | some (true, s) => some (markUnchanged n s)
  else some (markUnchanged n s)

def runNodes : List ν → State ν δ → Option (State ν δ)
  | [], s => some s
  | n :: ns, s =>
    match engineRunNode g ctx old recomputeAllowed n s with
    | none => none
    | some s => if s.state n = .aborted then some { s with runAborted := true } else runNodes ns s

def Skipped (recomputeAllowed : Bool) (s : State ν δ) : Prop :=
  recomputeAllowed = false ∧ s.runAborted = true

instance (s : State ν δ) : Decidable (Skipped recomputeAllowed s) :=
  inferInstanceAs (Decidable (_ ∧ _))

def engineRun (s : State ν δ) : Option (State ν δ) :=
  if Skipped recomputeAllowed s then some s
  else runNodes g ctx old recomputeAllowed g.nodes { s with runAborted := false }

end

def engineInitRun (s : State ν δ) : State ν δ :=
  { s with state := fun _ => .stale }

def engineHasRun (g : Graph ν δ κ) (s : State ν δ) : Bool :=
  g.nodes.any fun n => s.state n ≠ .stale

/-- `engine_need_run`: runs the leaves up to the first one that is updated. -/
def engineNeedRun (g : Graph ν δ κ) (ctx : κ) (old : ν → δ) : List ν → State ν δ → Bool × State ν δ
  | [], s => (false, s)
  | n :: ns, s =>
    if g.inputs n ≠ [] then engineNeedRun g ctx old ns s
    else
      let s := callRun g ctx old n s
      if s.state n = .updated then (true, s) else engineNeedRun g ctx old ns s

/-- What the main loops do after the engine: a recompute is forced next time if the
    engine was aborted, or if it should have run and did not. -/
def bookkeeping (g : Graph ν δ κ) (ctx : κ) (old : ν → δ) (s : State ν δ) : State ν δ :=
  if !engineHasRun g s then
    let (need, s) := engineNeedRun g ctx old g.nodes s
    if need then { s with forceRecompute := true } else s
  else if s.runAborted then { s with forceRecompute := true }
  else { s with forceRecompute := false }

/-- An iteration of a main loop: the context, whether a recompute has been triggered
    from outside, and the argument of `engine_run`, if that is called at all. -/
structure Iteration (κ : Type*) where
  ctx : κ
  trigger : Bool
  engineRun : Option Bool

def startIteration (it : Iteration κ) (s : State ν δ) : State ν δ :=
  engineInitRun (if it.trigger then { s with forceRecompute := true } else s)

def iterate (g : Graph ν δ κ) (it : Iteration κ) (s : State ν δ) : Option (State ν δ) :=
  let s := startIteration it s
  let old := s.data
  match it.engineRun with
  | none => some (bookkeeping g it.ctx old s)
  | some recomputeAllowed =>
    (engineRun g it.ctx old recomputeAllowed s).map (bookkeeping g it.ctx old)

/-! ## What the nodes have to provide -/

/-- What the users of the engine have to provide: `F` is what the data of an inner
    node is computed from its inputs by.  `run()` sets the data to that, and a state as
    `enum engine_node_state` defines them: one other than updated only if the data did
    not change in this iteration.  A change handler that is called when the data takes the inputs
    before its own into account, and returns true, takes its own into account as well, and marks the
    node as updated if that changed the data. -/
structure Graph.Sound (g : Graph ν δ κ) (F : ν → List δ → δ) : Prop where
  run_data : ∀ n v d, g.inputs n ≠ [] →
    (g.run n v d).1 = F n ((g.inputs n).map fun i => v.data i.node)
  run_state : ∀ n v d, (g.run n v d).2 ≠ .updated → (g.run n v d).1 = v.old n
  handler : ∀ n before input after h, g.inputs n = before ++ input :: after →
    input.changeHandler = some h → ∀ v d,
    d = F n (before.map (fun i => v.data i.node) ++
      (input :: after).map fun i => v.old i.node) → (h v d).handled = true →
    (h v d).data = F n ((before ++ [input]).map (fun i => v.data i.node) ++
      after.map fun i => v.old i.node) ∧ ((h v d).data ≠ d → (h v d).updated = true)

def Consistent (g : Graph ν δ κ) (F : ν → List δ → δ) (data : ν → δ) : Prop :=
  ∀ n ∈ g.nodes, g.inputs n ≠ [] → data n = F n ((g.inputs n).map fun i => data i.node)

/-! ## One node -/

/-- `s'` differs from `s` at most in the node `n`. -/
structure OnlyAt (n : ν) (s s' : State ν δ) : Prop where
  data : ∀ m ≠ n, s'.data m = s.data m
  state : ∀ m ≠ n, s'.state m = s.state m
  force : s'.forceRecompute = s.forceRecompute
  runAborted : s'.runAborted = s.runAborted

omit [DecidableEq ν] in
theorem OnlyAt.refl (n : ν) (s : State ν δ) : OnlyAt n s s :=
  ⟨fun _ _ => rfl, fun _ _ => rfl, rfl, rfl⟩

omit [DecidableEq ν] in
theorem OnlyAt.trans {n : ν} {s s' s'' : State ν δ} (h : OnlyAt n s s') (h' : OnlyAt n s' s'') :
    OnlyAt n s s'' :=
  ⟨fun m hm => (h'.data m hm).trans (h.data m hm),
    fun m hm => (h'.state m hm).trans (h.state m hm), h'.force.trans h.force,
    h'.runAborted.trans h.runAborted⟩

theorem onlyAt_setNodeState (n : ν) (st : NodeState) (s : State ν δ) :
    OnlyAt n s (s.setNodeState n st) :=
  ⟨fun _ _ => rfl, fun _ hm => update_of_ne hm _ _, rfl, rfl⟩

theorem onlyAt_setData (n : ν) (d : δ) (s : State ν δ) : OnlyAt n s (s.setData n d) :=
  ⟨fun _ hm => update_of_ne hm _ _, fun _ _ => rfl, rfl, rfl⟩

section
variable {g : Graph ν δ κ} {F : ν → List δ → δ} {ctx : κ} {old : ν → δ} {recomputeAllowed : Bool}
  {n : ν}

theorem onlyAt_callRun (s : State ν δ) : OnlyAt n s (callRun g ctx old n s) :=
  (onlyAt_setData n _ s).trans (onlyAt_setNodeState n _ _)

theorem callRun_data (s : State ν δ) :
    (callRun g ctx old n s).data n = (g.run n ⟨ctx, old, s.data⟩ (s.data n)).1 :=
  update_self _ _ _

theorem callRun_state (s : State ν δ) :
    (callRun g ctx old n s).state n = (g.run n ⟨ctx, old, s.data⟩ (s.data n)).2 :=
  update_self _ _ _

/-- What running a node leaves: the data that the inputs give, and the state updated
    unless that is the old data. -/
structure Done (g : Graph ν δ κ) (F : ν → List δ → δ) (old : ν → δ) (n : ν) (s s' : State ν δ) :
    Prop where
  value : g.inputs n ≠ [] → s'.data n = F n ((g.inputs n).map fun i => s.data i.node)
  same : s'.state n ≠ .updated → s'.data n = old n

theorem callRun_done (hg : g.Sound F) (s : State ν δ) :
    Done g F old n s (callRun g ctx old n s) where
  value h := by rw [callRun_data]; exact hg.run_data n _ _ h
  same h := by
    rw [callRun_state] at h
    rw [callRun_data]
    exact hg.run_state n _ _ h

theorem onlyAt_engineRecompute (s : State ν δ) :
    OnlyAt n s (engineRecompute g ctx old recomputeAllowed n s) := by
  unfold engineRecompute
  split_ifs
  · exact onlyAt_setNodeState n _ s
  · exact onlyAt_callRun s

theorem engineRecompute_done (hg : g.Sound F) (s : State ν δ) :
    (engineRecompute g ctx old recomputeAllowed n s).state n = .aborted ∨
      Done g F old n s (engineRecompute g ctx old recomputeAllowed n s) := by
  unfold engineRecompute
  split_ifs
  · exact .inl (update_self _ _ _)
  · exact .inr (callRun_done hg s)

theorem onlyAt_markUnchanged (s : State ν δ) : OnlyAt n s (markUnchanged n s) := by
  unfold markUnchanged
  split_ifs
  · exact onlyAt_setNodeState n _ s
  · exact .refl n s

variable {s s' : State ν δ}

theorem Done.markUnchanged (h : Done g F old n s s') : Done g F old n s (markUnchanged n s') := by
  unfold Engine.markUnchanged
  split_ifs with hst
  · exact ⟨h.value, fun _ => h.same hst⟩
  · exact h

omit [DecidableEq ν] in
theorem Done.congr {s₁ : State ν δ} (h : Done g F old n s₁ s') (honly : OnlyAt n s s₁)
    (hself : ∀ i ∈ g.inputs n, i.node ≠ n) : Done g F old n s s' := by
  refine ⟨fun hin => ?_, h.same⟩
  rw [h.value hin]
  exact congrArg (F n) (map_congr_left fun i hi => honly.data _ (hself i hi))

/-- **Change handlers.**  As long as they return true, every one of them takes one
    more input into account; inputs that are not updated are as they were. -/
theorem engineCompute_spec (ctx : κ) (recomputeAllowed : Bool) (hg : g.Sound F)
    (hself : ∀ i ∈ g.inputs n, i.node ≠ n) :
    ∀ (before : List (Input ν δ κ)) {after : List (Input ν δ κ)} {s : State ν δ},
      g.inputs n = before ++ after →
      (∀ i ∈ g.inputs n, s.state i.node = .updated → i.changeHandler.isNone = false) →
      (∀ i ∈ g.inputs n, s.state i.node ≠ .updated → s.data i.node = old i.node) →
      s.data n = F n (before.map (fun i => s.data i.node) ++ after.map fun i => old i.node) →
      (s.state n ≠ .updated → s.data n = old n) →
      ∃ ok s', engineCompute g ctx old recomputeAllowed n after s = some (ok, s') ∧
        OnlyAt n s s' ∧ (ok = false ∧ s'.state n = .aborted ∨ ok = true ∧ Done g F old n s s')
  | before, [], s, hsplit, _, _, hd, hst => by
    refine ⟨true, s, rfl, .refl n s, .inr ⟨rfl, fun _ => ?_, hst⟩⟩
    rw [hd, hsplit]; simp
  | before, input :: after, s, hsplit, hh, hun, hd, hst => by
    have hmem : input ∈ g.inputs n := by rw [hsplit]; simp
    have hsplit' : g.inputs n = (before ++ [input]) ++ after := by rw [hsplit]; simp
    rw [engineCompute]
    split_ifs with hup
    · cases hch : input.changeHandler with
      | none => have := hh input hmem hup; rw [hch] at this; cases this
      | some h =>
        dsimp only
        set r := h ⟨ctx, old, s.data⟩ (s.data n) with hr
        set s₁ : State ν δ := if r.updated then (s.setData n r.data).setNodeState n .updated
          else s.setData n r.data with hs1
        have honly : OnlyAt n s s₁ := by
          rw [hs1]
          split_ifs
          · exact (onlyAt_setData n _ s).trans (onlyAt_setNodeState n _ _)
          · exact onlyAt_setData n _ s
        have hdata : s₁.data n = r.data := by
          rw [hs1]; split_ifs <;> exact update_self _ _ _
        split_ifs with hhandled
        · -- the handler gives up, perhaps half way
          refine ⟨_, _, rfl, honly.trans (onlyAt_engineRecompute s₁), ?_⟩
          rcases engineRecompute_done hg s₁ with hab | hdone
          · exact .inl ⟨by simpa using hab, hab⟩
          · by_cases hab : (engineRecompute g ctx old recomputeAllowed n s₁).state n = .aborted
            · exact .inl ⟨by simpa using hab, hab⟩
            · exact .inr ⟨by simpa using hab, hdone.congr honly hself⟩
        · obtain ⟨hval, hmark⟩ := hg.handler n before input after h hsplit hch ⟨ctx, old, s.data⟩
            (s.data n) hd (by simpa using hhandled)
          have hin : ∀ i ∈ g.inputs n, s₁.data i.node = s.data i.node := fun i hi =>
            honly.data _ (hself i hi)
          have hinst : ∀ i ∈ g.inputs n, s₁.state i.node = s.state i.node := fun i hi =>
            honly.state _ (hself i hi)
          have hd1 : s₁.data n = F n ((before ++ [input]).map (fun i => s₁.data i.node) ++
              after.map fun i => old i.node) := by
            rw [hdata, hval]
            refine congrArg (fun l => F n (l ++ _)) (map_congr_left fun i hi => ?_)
            exact (hin i (hsplit' ▸ mem_append_left _ hi)).symm
          have hst1 : s₁.state n ≠ .updated → s₁.data n = old n := by
            intro hne
            by_cases hu : r.updated = true
            · rw [hs1, if_pos hu] at hne
              exact absurd (update_self _ _ _) hne
            · have hsame : r.data = s.data n := by
                by_contra hdiff
                exact hu (hmark hdiff)
              rw [hs1, if_neg hu] at hne
              rw [hdata, hsame, hst hne]
          obtain ⟨ok, s', hrun, honly', hres⟩ := engineCompute_spec ctx recomputeAllowed hg hself
            _ hsplit' (fun i hi hu => hh i hi (hinst i hi ▸ hu))
            (fun i hi hu => by rw [hin i hi]; exact hun i hi (hinst i hi ▸ hu)) hd1 hst1
          refine ⟨ok, s', hrun, honly.trans honly', ?_⟩
          exact hres.imp_right fun h => ⟨h.1, h.2.congr honly hself⟩
    · refine engineCompute_spec ctx recomputeAllowed hg hself _ hsplit' hh hun ?_ hst
      rw [hd]
      simp [hun input hmem hup]

/-- **One node.**  It is aborted, or it has the data that its inputs give. -/
theorem engineRunNode_spec (ctx : κ) (recomputeAllowed : Bool) (hg : g.Sound F)
    (hself : ∀ i ∈ g.inputs n, i.node ≠ n)
    (hun : ∀ i ∈ g.inputs n, s.state i.node ≠ .updated → s.data i.node = old i.node)
    (hold : s.forceRecompute = true ∨
      (g.inputs n ≠ [] → old n = F n ((g.inputs n).map fun i => old i.node)))
    (hdata : s.data n = old n) :
    ∃ s', engineRunNode g ctx old recomputeAllowed n s = some s' ∧ OnlyAt n s s' ∧
      (s'.state n = .aborted ∨ Done g F old n s s') := by
  unfold engineRunNode
  split_ifs with hleaf hforce hmissing hneed
  · exact ⟨_, rfl, onlyAt_callRun s, .inr (callRun_done hg s)⟩
  · exact ⟨_, rfl, onlyAt_engineRecompute s, engineRecompute_done hg s⟩
  · exact ⟨_, rfl, onlyAt_engineRecompute s, engineRecompute_done hg s⟩
  · have hcons := (hold.resolve_left hforce) hleaf
    have hh : ∀ i ∈ g.inputs n, s.state i.node = .updated → i.changeHandler.isNone = false := by
      intro i hi hu
      by_contra hnone
      exact hmissing (any_eq_true.2 ⟨i, hi, by simpa [hu] using hnone⟩)
    obtain ⟨ok, s', hrun, honly, hres⟩ := engineCompute_spec ctx recomputeAllowed hg hself []
      rfl hh hun (by rw [hdata, hcons]; rfl) fun _ => hdata
    rw [hrun]
    rcases hres with ⟨rfl, hab⟩ | ⟨rfl, hdone⟩
    · exact ⟨s', rfl, honly, .inl hab⟩
    · exact ⟨_, rfl, honly.trans (onlyAt_markUnchanged s'), .inr hdone.markUnchanged⟩
  · -- no input is updated
    have hcons := (hold.resolve_left hforce) hleaf
    refine ⟨_, rfl, onlyAt_markUnchanged s, .inr (Done.markUnchanged ⟨fun _ => ?_, fun _ => hdata⟩)⟩
    rw [hdata, hcons]
    refine congrArg (F n) (map_congr_left fun i hi => (hun i hi fun hu => ?_).symm)
    exact hneed (any_eq_true.2 ⟨i, hi, by simpa using hu⟩)

/-! ## A run -/

/-- What holds when a run is done with the nodes `done`. -/
structure Processed (g : Graph ν δ κ) (F : ν → List δ → δ) (old : ν → δ) (done : List ν)
    (s : State ν δ) : Prop where
  value : ∀ n ∈ done, g.inputs n ≠ [] → s.data n = F n ((g.inputs n).map fun i => s.data i.node)
  same : ∀ n ∈ done, s.state n ≠ .updated → s.data n = old n
  rest : ∀ n, n ∉ done → s.data n = old n

omit [DecidableEq ν] in
theorem Processed.snoc {done : List ν} (h : Processed g F old done s)
    (hclosed : ∀ m ∈ done, ∀ i ∈ g.inputs m, i.node ∈ done) (hn : n ∉ done)
    (hin : ∀ i ∈ g.inputs n, i.node ∈ done) (honly : OnlyAt n s s') (hdone : Done g F old n s s') :
    Processed g F old (done ++ [n]) s' := by
  have hne : ∀ m ∈ done, m ≠ n := fun m hm heq => hn (heq ▸ hm)
  refine ⟨fun m hm hm0 => ?_, fun m hm hst => ?_, fun m hm => ?_⟩
  · rcases mem_append.1 hm with hm | hm
    · rw [honly.data m (hne m hm), h.value m hm hm0]
      refine congrArg (F m) (map_congr_left fun i hi => ?_)
      exact (honly.data _ (hne _ (hclosed m hm i hi))).symm
    · rw [mem_singleton] at hm
      subst hm
      rw [hdone.value hm0]
      exact congrArg (F m) (map_congr_left fun i hi => (honly.data _ (hne _ (hin i hi))).symm)
  · rcases mem_append.1 hm with hm | hm
    · rw [honly.state m (hne m hm)] at hst
      rw [honly.data m (hne m hm), h.same m hm hst]
    · rw [mem_singleton] at hm
      subst hm
      exact hdone.same hst
  · rw [mem_append, mem_singleton, not_or] at hm
    rw [honly.data m hm.2, h.rest m hm.1]

theorem Graph.sorted_nodes (g : Graph ν δ κ) : g.dag.Sorted g.nodes := (g.dag.sorted_visit g.root).1

theorem Graph.nodup_nodes (g : Graph ν δ κ) : g.nodes.Nodup := (g.dag.sorted_visit g.root).2

theorem Graph.mem_of_input {done rest : List ν} (h : g.nodes = done ++ n :: rest)
    (i : Input ν δ κ) (hi : i ∈ g.inputs n) : i.node ∈ done :=
  g.sorted_nodes done n rest h i.node (mem_map.2 ⟨i, hi, rfl⟩)

theorem Graph.closed_done {done rest : List ν} (h : g.nodes = done ++ rest) :
    ∀ m ∈ done, ∀ i ∈ g.inputs m, i.node ∈ done := by
  intro m hm i hi
  obtain ⟨before, after, rfl⟩ := append_of_mem hm
  have hsplit : g.nodes = before ++ m :: (after ++ rest) := by rw [h]; simp
  exact mem_append_left _ (Graph.mem_of_input hsplit i hi)

/-- **`engine_topo_sort`.**  What the root reaches through inputs is there once, after
    its inputs. -/
theorem Graph.engineTopoSort_nodes (g : Graph ν δ κ) :
    g.nodes.Nodup ∧
      (∀ n, n ∈ g.nodes ↔
        Relation.ReflTransGen (fun n m => ∃ i ∈ g.inputs n, i.node = m) g.root n) ∧
      ∀ done n rest, g.nodes = done ++ n :: rest → ∀ i ∈ g.inputs n, i.node ∈ done := by
  refine ⟨g.nodup_nodes, fun n => ?_, fun _ _ _ h => Graph.mem_of_input h⟩
  have h : n ∈ g.nodes ↔ _ := g.dag.mem_visit_iff g.root n
  simpa only [Dag.Reach, Graph.dag_inputs, mem_map] using h

/-- **A run.**  It goes through all nodes, or ends at one that is aborted. -/
theorem runNodes_spec (ctx : κ) (recomputeAllowed : Bool) (hg : g.Sound F) :
    ∀ {rest done : List ν} {s : State ν δ}, g.nodes = done ++ rest → Processed g F old done s →
      (s.forceRecompute = true ∨ Consistent g F old) →
      ∃ s', runNodes g ctx old recomputeAllowed rest s = some s' ∧
        s'.forceRecompute = s.forceRecompute ∧
        (s'.runAborted = true ∧ (∃ n ∈ g.nodes, s'.state n = .aborted) ∨
          s'.runAborted = s.runAborted ∧ Processed g F old g.nodes s')
  | [], done, s, hsplit, h, _ => by
    rw [append_nil] at hsplit
    exact ⟨s, rfl, rfl, .inr ⟨rfl, hsplit ▸ h⟩⟩
  | n :: rest, done, s, hsplit, h, hold => by
    have hn : n ∉ done := by
      have hnd := g.nodup_nodes
      rw [hsplit] at hnd
      exact fun hmem => (disjoint_of_nodup_append hnd) hmem mem_cons_self
    have hnodes : n ∈ g.nodes := by rw [hsplit]; simp
    have hin := Graph.mem_of_input hsplit
    have hself : ∀ i ∈ g.inputs n, i.node ≠ n := fun i hi heq => hn (heq ▸ hin i hi)
    obtain ⟨s₁, hrun, honly, hres⟩ := engineRunNode_spec ctx recomputeAllowed hg hself
      (fun i hi => h.same i.node (hin i hi)) (hold.imp_right fun hc => hc n hnodes) (h.rest n hn)
    rw [runNodes, hrun]
    dsimp only
    split_ifs with hab
    · exact ⟨_, rfl, honly.force, .inl ⟨rfl, n, hnodes, hab⟩⟩
    · have h1 := h.snoc (Graph.closed_done hsplit) hn hin honly (hres.resolve_left hab)
      have hsplit' : g.nodes = (done ++ [n]) ++ rest := by rw [hsplit]; simp
      obtain ⟨s', hrun', hforce, hres'⟩ := runNodes_spec ctx recomputeAllowed hg hsplit' h1
        (by rw [honly.force]; exact hold)
      refine ⟨s', hrun', hforce.trans honly.force, hres'.imp_right fun h' => ⟨?_, h'.2⟩⟩
      exact h'.1.trans honly.runAborted

/-! ## Iterations -/

/-- Between iterations: the data is consistent, or a recompute is forced. -/
def Kept (g : Graph ν δ κ) (F : ν → List δ → δ) (s : State ν δ) : Prop :=
  s.forceRecompute = true ∨ Consistent g F s.data

theorem engineRun_spec (ctx : κ) (recomputeAllowed : Bool) (hg : g.Sound F) (h : Kept g F s)
    (hskip : ¬Skipped recomputeAllowed s) :
    ∃ s', engineRun g ctx s.data recomputeAllowed s = some s' ∧
      s'.forceRecompute = s.forceRecompute ∧
      (s'.runAborted = true ∧ (∃ n ∈ g.nodes, s'.state n = .aborted) ∨
        s'.runAborted = false ∧ Processed g F s.data g.nodes s') := by
  rw [engineRun, if_neg hskip]
  have hstart : Processed g F s.data [] { s with runAborted := false } :=
    ⟨by simp, by simp, fun _ _ => rfl⟩
  exact runNodes_spec ctx recomputeAllowed hg rfl hstart h

theorem engineNeedRun_spec (ctx : κ) (hg : g.Sound F) : ∀ {ns : List ν} {s : State ν δ},
    (∀ n ∈ ns, g.inputs n = [] → s.data n = old n) →
      (engineNeedRun g ctx old ns s).2.forceRecompute = s.forceRecompute ∧
      ((engineNeedRun g ctx old ns s).1 = false →
        ∀ m, (engineNeedRun g ctx old ns s).2.data m = s.data m)
  | [], s, _ => ⟨rfl, fun _ _ => rfl⟩
  | n :: ns, s, h => by
    rw [engineNeedRun]
    have h' : ∀ m ∈ ns, g.inputs m = [] → s.data m = old m := (forall_mem_cons.1 h).2
    split_ifs with hleaf
    · exact engineNeedRun_spec ctx hg h'
    · have hleaf := not_not.1 hleaf
      have honly : OnlyAt n s (callRun g ctx old n s) := onlyAt_callRun s
      dsimp only
      split_ifs with hup
      · exact ⟨honly.force, fun hf => by cases hf⟩
      · have hn : (callRun g ctx old n s).data n = s.data n := by
          rw [(callRun_done hg s).same hup, h n mem_cons_self hleaf]
        have hall : ∀ m, (callRun g ctx old n s).data m = s.data m := fun m => by
          by_cases hm : m = n
          · rw [hm, hn]
          · exact honly.data m hm
        obtain ⟨h1, h2⟩ := engineNeedRun_spec ctx hg fun m hm hml => (hall m).trans (h' m hm hml)
        exact ⟨h1.trans honly.force, fun hf m => (h2 hf m).trans (hall m)⟩

theorem engineHasRun_eq_false (h : engineHasRun g s = false) :
    ∀ n ∈ g.nodes, s.state n = .stale := by
  intro n hn
  have := any_eq_false.1 h n hn
  simpa using this

/-- The bookkeeping, if nothing has changed where the engine did not run. -/
theorem bookkeeping_kept (ctx : κ) (hg : g.Sound F)
    (hstale : (∀ n ∈ g.nodes, s.state n = .stale) → Kept g F s ∧ ∀ n ∈ g.nodes, g.inputs n = [] →
      s.data n = old n)
    (hran : s.runAborted = false → (∃ n ∈ g.nodes, s.state n ≠ .stale) → Consistent g F s.data) :
    Kept g F (bookkeeping g ctx old s) := by
  unfold bookkeeping
  cases hrun : engineHasRun g s with
  | false =>
    obtain ⟨hkept, hleaf⟩ := hstale (engineHasRun_eq_false hrun)
    obtain ⟨hforce, hdata⟩ := engineNeedRun_spec ctx hg hleaf
    simp only [Bool.not_false, if_true]
    split_ifs with hneed
    · exact .inl rfl
    · refine hkept.imp hforce.trans fun h n hn hin => ?_
      have hd := hdata (by simpa using hneed)
      rw [hd, h n hn hin]
      exact congrArg (F n) (map_congr_left fun i _ => (hd i.node).symm)
  | true =>
    simp only [Bool.not_true, Bool.false_eq_true, if_false]
    split_ifs with hab
    · exact .inl rfl
    · obtain ⟨n, hn, hst⟩ := any_eq_true.1 hrun
      exact .inr (hran (by simpa using hab) ⟨n, hn, by simpa using hst⟩)

theorem startIteration_kept (it : Iteration κ) (h : Kept g F s) :
    Kept g F (startIteration it s) := by
  unfold startIteration engineInitRun
  split_ifs
  · exact .inl rfl
  · exact h

/-- **Every iteration keeps the invariant**, and calls no change handler that is not
    there. -/
theorem iterate_kept (hg : g.Sound F) (it : Iteration κ) (h : Kept g F s) :
    ∃ s', iterate g it s = some s' ∧ Kept g F s' := by
  have h1 : Kept g F (startIteration it s) := startIteration_kept it h
  have hidle : Kept g F (bookkeeping g it.ctx (startIteration it s).data (startIteration it s)) :=
    bookkeeping_kept it.ctx hg (fun _ => ⟨h1, fun _ _ _ => rfl⟩)
      fun _ ⟨n, _, hst⟩ => absurd rfl hst
  unfold iterate
  cases hit : it.engineRun with
  | none => exact ⟨_, rfl, hidle⟩
  | some recomputeAllowed =>
    dsimp only
    by_cases hskip : Skipped recomputeAllowed (startIteration it s)
    · rw [engineRun, if_pos hskip]
      exact ⟨_, rfl, hidle⟩
    obtain ⟨s', hrun, hforce, hres⟩ := engineRun_spec it.ctx recomputeAllowed hg h1 hskip
    rw [hrun]
    refine ⟨_, rfl, bookkeeping_kept it.ctx hg (fun hstale => ?_) fun hab _ => ?_⟩
    · rcases hres with ⟨-, n, hn, hab⟩ | ⟨-, hp⟩
      · rw [hstale n hn] at hab; cases hab
      · refine ⟨.inr hp.value, fun n hn _ => hp.same n hn ?_⟩
        rw [hstale n hn]; decide
    · rcases hres with ⟨hab', -⟩ | ⟨-, hp⟩
      · rw [hab'] at hab; cases hab
      · exact hp.value

end

def Step (g : Graph ν δ κ) (s s' : State ν δ) : Prop := ∃ it, iterate g it s = some s'

theorem reachable_kept {g : Graph ν δ κ} {F : ν → List δ → δ} (hg : g.Sound F) {s₀ s : State ν δ}
    (h0 : Kept g F s₀) (hrun : Relation.ReflTransGen (Step g) s₀ s) : Kept g F s := by
  induction hrun with
  | refl => exact h0
  | tail _ hstep ih =>
    obtain ⟨it, hit⟩ := hstep
    obtain ⟨s', hs', hkept⟩ := iterate_kept hg it ih
    cases hit.symm.trans hs'
    exact hkept

/-- A leaf, whose data is the context, and a node that is one more than the leaf. -/
def successor : Graph Bool ℕ ℕ where
  root := true
  inputs n := if n then [⟨false, some fun v _ => ⟨true, v.data false + 1, true⟩⟩] else []
  run n v _ := if n then (v.data false + 1, .updated) else (v.ctx, .updated)
  rank n := if n then 1 else 0
  rank_lt := by decide

theorem successor_sound : successor.Sound fun _ ds => ds.sum + 1 where
  run_data n v d h := by cases n <;> simp [successor] at h ⊢
  run_state n v d h := by cases n <;> simp [successor] at h
  handler n before input after h hin hh v d _ _ := by
    cases n with
    | false => simp [successor] at hin
    | true =>
      obtain ⟨rfl, rfl, rfl⟩ : before = [] ∧ after = [] ∧
          input = ⟨false, some fun v _ => ⟨true, v.data false + 1, true⟩⟩ := by
        match before, hin with
        | [], hin => simp [successor] at hin; exact ⟨rfl, hin.2, hin.1.symm⟩
        | _ :: _, hin => simp [successor] at hin
      cases hh
      exact ⟨rfl, fun _ => rfl⟩

def successorStart : State Bool ℕ := ⟨fun _ => 0, fun _ => .stale, true, false⟩

theorem successor_nodes : successor.nodes = [false, true] := by
  simp [Graph.nodes, Graph.dag, successor, Dag.visit, Dag.visitAll]

end Ovn.Engine

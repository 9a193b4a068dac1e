/-
  The interface manager keeps its map and its sets in step, and marks an interface up only when
  the flows it waits for are installed.

  The sets are a way to walk over the interfaces of a state: a call does with every interface what
  it would do with that interface alone.  What holds over runs follows from that.
-/
import Ovn.Controller.IfStatus
import Ovn.Lib.Ends
import Ovn.Lib.Maps

namespace Ovn.IfStatus

open Function (update_of_ne update_self update_idem update_apply)
open List

/-! ## The map and the sets -/

namespace Mgr

/-- The map has the interfaces that are allocated, by their names, and the sets have them by their
    states. -/
structure Consistent (s : Mgr) : Prop where
  named : ∀ id a, s.ifaces.lookup id = some a ↔ ∃ f, s.heap a = some f ∧ f.id = id
  sorted : s.perState.Partitions fun a => (s.heap a).map (·.state)
  fresh : ∀ a, s.next ≤ a → s.heap a = none

variable {s s' : Mgr} {a : ℕ} {f : Iface}

theorem Consistent.eq_of_id (h : s.Consistent) {b : ℕ} {g : Iface} (hf : s.heap a = some f)
    (hg : s.heap b = some g) (hid : f.id = g.id) : a = b := by
  have ha := (h.named f.id a).2 ⟨f, hf, rfl⟩
  have hb := (h.named f.id b).2 ⟨g, hg, hid.symm⟩
  exact Option.some_inj.1 (ha.symm.trans hb)

theorem status_update (heap : ℕ → Option Iface) (a : ℕ) (o : Option Iface) :
    (fun b => (Function.update heap a o b).map (·.state)) =
      Function.update (fun b => (heap b).map (·.state)) a (o.map (·.state)) :=
  Function.comp_update (Option.map Iface.state) heap a o

section
variable (h : s.Consistent)
include h

theorem Consistent.replace (hf : s.heap a = some f) {g : Iface} (hid : g.id = f.id)
    {sets : StatusIndex IfState ℕ}
    (hsets : sets.Partitions
      (Function.update (fun b => (s.heap b).map (·.state)) a (some g.state))) :
    Consistent { s with heap := Function.update s.heap a (some g), perState := sets } := by
  refine ⟨fun id b => (h.named id b).trans ?_, ?_, fun b hb => ?_⟩
  · by_cases hb : b = a <;> simp [hb, hf, hid]
  · rwa [status_update]
  · have hne : b ≠ a := by
      rintro rfl
      cases hf.symm.trans (h.fresh b hb)
    exact (update_of_ne hne ..).trans (h.fresh b hb)

/-- A record is changed and its interface is put in the set of its state; the name stays. -/
theorem Consistent.put (hf : s.heap a = some f) {g : Iface} (hid : g.id = f.id) :
    Consistent { s with
      heap := Function.update s.heap a (some g)
      perState := (s.perState.remove f.state a).add g.state a } :=
  h.replace hf hid (h.sorted.move (by rw [hf]; rfl) g.state)

theorem Consistent.modify {g : Iface → Iface} (hid : ∀ f, (g f).id = f.id)
    (hstate : ∀ f, (g f).state = f.state) : (s.modifyIface a g).Consistent := by
  unfold modifyIface
  cases hf : s.heap a with
  | none =>
    rw [Function.update_eq_self_iff.2 hf.symm]
    exact h
  | some f =>
    refine h.replace hf (hid f) ?_
    rw [hstate f, Function.update_eq_self_iff.2 (by rw [hf]; rfl)]
    exact h.sorted

theorem Consistent.setState (a : ℕ) (state : IfState) :
    (s.ovsIfaceSetState a state).Consistent := by
  unfold ovsIfaceSetState
  cases hf : s.heap a with
  | none => exact h
  | some f => exact h.put hf rfl

theorem Consistent.destroy (a : ℕ) : (s.ovsIfaceDestroy a).Consistent := by
  unfold ovsIfaceDestroy
  cases hf : s.heap a with
  | none => exact h
  | some f =>
    refine ⟨fun id b => ?_, ?_, fun b hb => ?_⟩
    · simp only [lookup_erase_iff, update_none_iff, h.named]
      constructor
      · rintro ⟨hne, g, hg, rfl⟩
        refine ⟨g, ⟨?_, hg⟩, rfl⟩
        rintro rfl
        cases hf.symm.trans hg
        exact hne rfl
      · rintro ⟨g, ⟨hb, hg⟩, rfl⟩
        exact ⟨fun hid => hb (h.eq_of_id hg hf hid), g, hg, rfl⟩
    · rw [status_update]
      exact h.sorted.remove (by rw [hf]; rfl)
    · exact Option.eq_none_iff_forall_ne_some.2 fun g hg =>
        (Option.eq_none_iff_forall_ne_some.1 (h.fresh b hb)) g (update_none_iff.1 hg).2

theorem Consistent.emit (calls : List Call) : (s.emit calls).Consistent :=
  ⟨h.named, h.sorted, h.fresh⟩

theorem Consistent.create {id : String} (hid : s.ifaces.lookup id = none)
    (ifaceRec : Option String) (state : IfState) :
    (s.ovsIfaceCreate id ifaceRec state).Consistent := by
  have hnone := h.fresh s.next (le_refl _)
  refine Consistent.modify ?_ (fun _ => rfl) fun _ => rfl
  -- `ovs_iface_set_state` first takes the new interface out of the set of the first state
  unfold ovsIfaceSetState
  dsimp only
  rw [update_self]
  dsimp only
  rw [update_idem]
  refine ⟨fun id' b => ?_, ?_, fun b hb => ?_⟩
  · simp only [lookup_insert_iff, update_some_iff, h.named]
    constructor
    · rintro (⟨rfl, rfl⟩ | ⟨-, g, hg, rfl⟩)
      · simp
      · refine ⟨g, .inr ⟨?_, hg⟩, rfl⟩
        rintro rfl
        cases hnone.symm.trans hg
    · rintro ⟨g, ⟨rfl, rfl⟩ | ⟨-, hg⟩, rfl⟩
      · exact .inl ⟨rfl, rfl⟩
      · refine .inr ⟨fun heq => ?_, g, hg, rfl⟩
        cases (heq ▸ hid).symm.trans ((h.named _ _).2 ⟨g, hg, rfl⟩)
  · rw [status_update]
    have hstatus : (fun b => (s.heap b).map (·.state)) s.next = none := by simp_all
    have hremove : s.perState.remove .claimed s.next = s.perState := by
      ext k : 1
      unfold StatusIndex.remove
      rw [update_apply]
      split
      next hk =>
        rw [hk]
        refine filter_eq_self.2 fun b hb => decide_eq_true ?_
        rintro rfl
        cases hstatus.symm.trans ((h.sorted.mem _ _).1 hb)
      · rfl
    rw [hremove]
    exact h.sorted.add hstatus
  · have hb : s.next + 1 ≤ b := hb
    exact (update_of_ne (by omega) ..).trans (h.fresh b (by omega))

end

theorem consistent_create : create.Consistent := by
  refine ⟨fun id a => ?_, ⟨fun _ => nodup_nil, fun _ _ => ?_⟩, fun _ _ => rfl⟩
  · refine iff_of_false (fun h => ?_) (by rintro ⟨f, hf, -⟩; cases hf)
    cases (AList.lookup_empty id).symm.trans h
  · exact iff_of_false not_mem_nil nofun

end Mgr

/-! ## An interface alone -/

def Outcome.apply : Outcome → Iface → Option Iface
  | .keep, f => some f
  | .set state, f => some { f with state := state, installSeqno := 0 }
  | .install seqno, f => some { f with state := .installFlows, installSeqno := seqno }
  | .destroy, _ => none

def Iface.loop (state : IfState) (body : Body) (f : Iface) : Option Iface :=
  if f.state = state then (body f).2.apply f else some f

namespace Mgr

/-- The interfaces have changed as `g` says, one by one, and no number is requested. -/
structure Steps (g : Iface → Option Iface) (s s' : Mgr) : Prop where
  consistent : s'.Consistent
  heap : ∀ a, s'.heap a = (s.heap a).bind g
  seqno : s'.ifaceSeqno = s.ifaceSeqno
  requests : s'.requests = s.requests

variable {s s' s'' : Mgr} {a : ℕ} {f : Iface} {g g' : Iface → Option Iface}

theorem Steps.trans (h : Steps g s s') (h' : Steps g' s' s'') :
    Steps (fun f => (g f).bind g') s s'' := by
  refine ⟨h'.consistent, fun a => ?_, h'.seqno.trans h.seqno, h'.requests.trans h.requests⟩
  rw [h'.heap, h.heap, Option.bind_assoc]

theorem heap_act (hf : s.heap a = some f) (o : Outcome) :
    (s.act a o).heap = Function.update s.heap a (o.apply f) := by
  cases o with
  | keep => exact (Function.update_eq_self_iff.2 hf.symm).symm
  | set state =>
    unfold act ovsIfaceSetState
    rw [hf]
    rfl
  | install seqno =>
    unfold act ovsIfaceSetState modifyIface
    rw [hf]
    dsimp only
    rw [update_self, update_idem]
    rfl
  | destroy =>
    unfold act ovsIfaceDestroy
    rw [hf]
    rfl

theorem Consistent.act (h : s.Consistent) (a : ℕ) (o : Outcome) : (s.act a o).Consistent := by
  cases o with
  | keep => exact h
  | set state => exact h.setState a state
  | install seqno => exact (h.setState a .installFlows).modify (fun _ => rfl) fun _ => rfl
  | destroy => exact h.destroy a

theorem numbers_setState (state : IfState) :
    (s.ovsIfaceSetState a state).ifaceSeqno = s.ifaceSeqno ∧
    (s.ovsIfaceSetState a state).requests = s.requests := by
  unfold ovsIfaceSetState
  split <;> exact ⟨rfl, rfl⟩

theorem numbers_act (o : Outcome) :
    (s.act a o).ifaceSeqno = s.ifaceSeqno ∧ (s.act a o).requests = s.requests := by
  cases o with
  | keep => exact ⟨rfl, rfl⟩
  | set state => exact numbers_setState state
  | install seqno => exact numbers_setState .installFlows
  | destroy =>
    unfold act ovsIfaceDestroy
    dsimp only
    split <;> exact ⟨rfl, rfl⟩

/-- The loop over a set, with the addresses that are left. -/
structure Walking (s₀ : Mgr) (state : IfState) (body : Body) (left : List ℕ) (s : Mgr) : Prop where
  nodup : left.Nodup
  listed : ∀ a ∈ left, a ∈ s₀.perState state
  consistent : s.Consistent
  heap : ∀ a, s.heap a = if a ∈ left then s₀.heap a else (s₀.heap a).bind (Iface.loop state body)
  seqno : s.ifaceSeqno = s₀.ifaceSeqno
  requests : s.requests = s₀.requests

theorem Walking.step {s₀ : Mgr} {state : IfState} {body : Body} {left : List ℕ} (h0 : s₀.Consistent)
    (h : Walking s₀ state body (a :: left) s) : Walking s₀ state body left (s.visit body a) := by
  obtain ⟨hnot, hnodup⟩ := nodup_cons.1 h.nodup
  have ha : (s₀.heap a).map (·.state) = some state := (h0.sorted.mem _ _).1
    (h.listed a mem_cons_self)
  obtain ⟨f, hf0, hstate⟩ := Option.map_eq_some_iff.1 ha
  have hf : s.heap a = some f := by
    rw [h.heap, if_pos mem_cons_self, hf0]
  have hf' : (s.emit (body f).1).heap a = some f := hf
  unfold visit
  rw [hf]
  refine ⟨hnodup, (forall_mem_cons.1 h.listed).2, (h.consistent.emit _).act .., fun b => ?_,
    (numbers_act _).1.trans h.seqno, (numbers_act _).2.trans h.requests⟩
  rw [heap_act hf']
  show Function.update s.heap a _ b = _
  by_cases hb : b = a
  · subst hb
    rw [update_self, if_neg hnot, hf0, Option.bind_some, Iface.loop, if_pos hstate]
  · simp [update_of_ne hb, h.heap, or_iff_right hb]

/-- **A loop does with every interface what it does with that interface alone.** -/
theorem Consistent.forEach (h : s.Consistent) (o : HashOrder ℕ) (state : IfState) (body : Body) :
    Steps (Iface.loop state body) s (s.forEach o state body) := by
  have hperm := o.perm (s.perState state)
  have hstart : Walking s state body (o.order (s.perState state)) s := by
    refine ⟨hperm.nodup_iff.2 (h.sorted.nodup state), fun a ha => hperm.mem_iff.1 ha, h,
      fun a => ?_, rfl, rfl⟩
    split
    · rfl
    next hnot =>
      cases hf : s.heap a with
      | none => rfl
      | some f =>
        have hne : f.state ≠ state := by
          rintro rfl
          exact hnot (hperm.mem_iff.2 ((h.sorted.mem _ _).2 (by rw [hf]; rfl)))
        rw [Option.bind_some, Iface.loop, if_neg hne]
  have hend := foldl_left (I := fun l s' => Walking s state body l s')
    (fun _ _ _ hs => Walking.step h hs)
    _ _ hstart
  exact ⟨hend.consistent, fun a => (hend.heap a).trans (if_neg not_mem_nil), hend.seqno,
    hend.requests⟩

end Mgr

/-! ## The calls, for an interface alone -/

/-- The states after the flows of an interface are installed. -/
def IfState.flowsDone : IfState → Bool
  | .remOldOvnInst | .markUp | .installed => true
  | .claimed | .installFlows | .markDown | .updatePort => false

namespace Iface

section
variable (b : Answers) (sbReadonly : Bool) (seqno : UInt32)

/-- The first loops of `if_status_mgr_update`. -/
def confirm (f : Iface) : Option Iface :=
  ((f.loop .remOldOvnInst b.remOldOvnInst).bind (loop .markUp (b.markUp sbReadonly))).bind
    (loop .markDown (b.markDown sbReadonly))

/-- The loops for a southbound database that can be written. -/
def advance (f : Iface) : Option Iface :=
  ((f.loop .installFlows b.installFlows).bind (loop .claimed (claimedBody seqno))).bind
    (loop .updatePort updatePortBody)

/-- `if_status_mgr_update`. -/
def update (f : Iface) : Option Iface :=
  if sbReadonly then f.confirm b sbReadonly else (f.confirm b sbReadonly).bind (advance b seqno)

end

variable {b : Answers} {sbReadonly : Bool} {seqno : UInt32} {f f' : Iface}

inductive Updated (writable : Bool) (seqno : UInt32) (f : Iface) : Iface → Prop
  | same : Updated writable seqno f f
  /-- The flows were installed before. -/
  | confirmed (state : IfState) : f.state.flowsDone → state.flowsDone →
      Updated writable seqno f { f with state := state, installSeqno := 0 }
  | down : f.state = .markDown →
    Updated writable seqno f { f with state := .updatePort, installSeqno := 0 }
  | wait : writable → f.state = .claimed → f.isVif →
      Updated writable seqno f { f with state := .installFlows, installSeqno := seqno }
  | nonVif : writable → f.state = .claimed → f.isVif = false →
      Updated writable seqno f { f with state := .markUp, installSeqno := 0 }

theorem loop_some {state : IfState} {body : Body} (h : f.loop state body = some f') :
    f.state ≠ state ∧ f' = f ∨ f.state = state ∧ (body f).2.apply f = some f' := by
  unfold loop at h
  split at h
  next hs => exact .inr ⟨hs, h⟩
  next hs => exact .inl ⟨hs, (Option.some_inj.1 h).symm⟩

/-- A loop that sets a state or does nothing, unless it destroys the interface. -/
theorem loop_set {state target : IfState} {body : Body}
    (hbody : (body f).2 = .keep ∨ (body f).2 = .set target ∨ (body f).2 = .destroy)
    (h : f.loop state body = some f') :
    f' = f ∨ f.state = state ∧ f' = { f with state := target, installSeqno := 0 } := by
  rcases loop_some h with ⟨-, rfl⟩ | ⟨hs, h⟩
  · exact .inl rfl
  · rcases hbody with ho | ho | ho <;> rw [ho] at h <;> cases h
    · exact .inl rfl
    · exact .inr ⟨hs, rfl⟩

theorem loop_remOldOvnInst (h : f.loop .remOldOvnInst b.remOldOvnInst = some f') :
    f' = f ∨ f.state = .remOldOvnInst ∧ f' = { f with state := .markUp, installSeqno := 0 } :=
  loop_set (by unfold Answers.remOldOvnInst; split <;> simp) h

theorem loop_markUp (h : f.loop .markUp (b.markUp sbReadonly) = some f') :
    f' = f ∨ f.state = .markUp ∧ f' = { f with state := .installed, installSeqno := 0 } :=
  loop_set (by unfold Answers.markUp; split_ifs <;> simp) h

theorem loop_markDown (h : f.loop .markDown (b.markDown sbReadonly) = some f') :
    f' = f ∨ f.state = .markDown ∧ f' = { f with state := .updatePort, installSeqno := 0 } :=
  loop_set (by unfold Answers.markDown; split_ifs <;> simp) h

theorem confirm_cases (h : f.confirm b sbReadonly = some f') :
    f' = f ∨ (∃ state, f.state.flowsDone ∧ IfState.flowsDone state ∧
      f' = { f with state := state, installSeqno := 0 }) ∨
    f.state = .markDown ∧ f' = { f with state := .updatePort, installSeqno := 0 } := by
  obtain ⟨f₂, h2, h3⟩ := Option.bind_eq_some_iff.1 h
  obtain ⟨f₁, h1, h2⟩ := Option.bind_eq_some_iff.1 h2
  rcases loop_markUp h2 with rfl | ⟨hs2, rfl⟩
  · rcases loop_remOldOvnInst h1 with rfl | ⟨hs1, rfl⟩
    · exact (loop_markDown h3).imp_right .inr
    · rcases loop_markDown h3 with rfl | ⟨hs3, -⟩
      · exact .inr (.inl ⟨.markUp, by rw [hs1]; rfl, rfl, rfl⟩)
      · cases hs3
  · have hdone : f.state.flowsDone = true ∧ f₁.id = f.id ∧
      { f₁ with state := .installed, installSeqno := 0 } =
        { f with state := .installed, installSeqno := 0 } := by
      rcases loop_remOldOvnInst h1 with rfl | ⟨hs1, rfl⟩
      · exact ⟨by rw [hs2]; rfl, rfl, rfl⟩
      · exact ⟨by rw [hs1]; rfl, rfl, rfl⟩
    rcases loop_markDown h3 with rfl | ⟨hs3, -⟩
    · exact .inr (.inl ⟨.installed, hdone.1, rfl, hdone.2.2⟩)
    · cases hs3

theorem advance_cases (h : f.advance b seqno = some f') : f' = f ∨ f.state = .claimed ∧
      (f.isVif = true ∧ f' = { f with state := .installFlows, installSeqno := seqno } ∨
        f.isVif = false ∧ f' = { f with state := .markUp, installSeqno := 0 }) := by
  obtain ⟨f₂, h12, h3⟩ := Option.bind_eq_some_iff.1 h
  obtain ⟨f₁, h1, h2⟩ := Option.bind_eq_some_iff.1 h12
  have h1 : f₁ = f := by
    rcases loop_some h1 with ⟨-, rfl⟩ | ⟨-, h⟩
    · rfl
    · unfold Answers.installFlows at h
      split_ifs at h <;> exact (Option.some_inj.1 h).symm
  have h3 : f' = f₂ := by
    rcases loop_some h3 with ⟨-, rfl⟩ | ⟨-, h⟩
    · rfl
    · cases h
  subst h1 h3
  rcases loop_some h2 with ⟨-, rfl⟩ | ⟨hs, h⟩
  · exact .inl rfl
  · unfold claimedBody at h
    split at h <;> rename_i hvif <;> cases h
    · exact .inr ⟨hs, .inl ⟨hvif, rfl⟩⟩
    · exact .inr ⟨hs, .inr ⟨Bool.eq_false_iff.2 hvif, rfl⟩⟩

theorem update_cases (h : f.update b sbReadonly seqno = some f') :
    Updated (!sbReadonly) seqno f f' := by
  have hconfirmed : ∀ {f''}, f.confirm b sbReadonly = some f'' → Updated (!sbReadonly) seqno f f'' ∧
      (f'' = f ∨ f''.state ≠ .claimed) := by
    intro f'' h
    rcases confirm_cases h with rfl | ⟨state, hf, hs, rfl⟩ | ⟨hf, rfl⟩
    · exact ⟨.same, .inl rfl⟩
    · refine ⟨.confirmed state hf hs, .inr ?_⟩
      rintro rfl
      cases hs
    · exact ⟨.down hf, .inr nofun⟩
  unfold update at h
  split at h
  · exact (hconfirmed h).1
  next hro =>
    have hw : (!sbReadonly) = true := by simpa using hro
    obtain ⟨f₁, h1, h2⟩ := Option.bind_eq_some_iff.1 h
    obtain ⟨hup, hcl⟩ := hconfirmed h1
    rcases advance_cases h2 with rfl | ⟨hs, hf'⟩
    · exact hup
    · obtain rfl : f₁ = f := hcl.resolve_right (not_not.2 hs)
      rcases hf' with ⟨hvif, rfl⟩ | ⟨hvif, rfl⟩
      · exact .wait hw hs hvif
      · exact .nonVif hw hs hvif

theorem run_cases {acked : List ℕ} {b : Option Answers}
    (h : f.loop .installFlows (ackedBody acked b) = some f') :
    f' = f ∨ f.state = .installFlows ∧ f.installSeqno.toNat ∈ acked ∧ ∃ state,
      IfState.flowsDone state ∧
      f' = { f with state := state, installSeqno := 0 } := by
  rcases loop_some h with ⟨-, rfl⟩ | ⟨hs, h⟩
  · exact .inl rfl
  unfold ackedBody at h
  split at h
  · cases h
    exact .inl rfl
  next hacked =>
    split at h <;> cases h
    · exact .inr ⟨hs, not_not.1 hacked, .remOldOvnInst, rfl, rfl⟩
    · exact .inr ⟨hs, not_not.1 hacked, .markUp, rfl, rfl⟩

end Iface

namespace Mgr

variable {s s' : Mgr}

/-- `if_status_mgr_update` does with every interface what it does with that interface alone. -/
structure UpdateSpec (b : Answers) (sbReadonly : Bool) (s s' : Mgr) : Prop where
  consistent : s'.Consistent
  heap : ∀ a, s'.heap a = (s.heap a).bind (Iface.update b sbReadonly (s.ifaceSeqno + 1))
  /-- The number that interfaces wait for is requested. -/
  requests : ∃ new, s'.requests = s.requests ++ new ∧ ∀ a f, s.heap a = some f →
    f.state = .claimed →
    f.isVif = true → sbReadonly = false → s.ifaceSeqno + 1 ∈ new

theorem Consistent.newIfaces (h : s.Consistent) {a : ℕ} {f : Iface} (hf : s.heap a = some f)
    (hs : f.state = .claimed) (hvif : f.isVif = true) : s.newIfaces = true := by
  refine any_eq_true.2 ⟨a, (h.sorted.mem _ _).2 (by rw [hf]; exact congrArg some hs), ?_⟩
  rw [hf]
  exact hvif

theorem Consistent.update (h : s.Consistent) (o : HashOrder ℕ) (b : Answers) (sbReadonly : Bool) :
    UpdateSpec b sbReadonly s (s.update o (some b) sbReadonly) := by
  unfold Mgr.update
  dsimp only
  have h1 := h.forEach o .remOldOvnInst b.remOldOvnInst
  have h2 := h1.trans (h1.consistent.forEach o .markUp (b.markUp sbReadonly))
  have h3 := h2.trans (h2.consistent.forEach o .markDown (b.markDown sbReadonly))
  generalize Mgr.forEach o .markDown (b.markDown sbReadonly) _ = s₃ at h3
  cases sbReadonly with
  | true => exact ⟨h3.consistent, h3.heap, [], by rw [append_nil]; exact h3.requests, nofun⟩
  | false =>
    rw [if_neg Bool.false_ne_true]
    unfold updateWritable
    dsimp only
    have h4 := h3.consistent.forEach o .installFlows b.installFlows
    generalize Mgr.forEach o .installFlows b.installFlows s₃ = s₄ at h4
    have h5 := h4.trans (h4.consistent.forEach o .claimed (claimedBody (s₄.ifaceSeqno + 1)))
    have h6 := h5.trans (h5.consistent.forEach o .updatePort updatePortBody)
    generalize Mgr.forEach o .updatePort updatePortBody _ = s₆ at h6
    have hseqno : s₄.ifaceSeqno = s.ifaceSeqno := h4.seqno.trans h3.seqno
    have hseqno6 : s₆.ifaceSeqno = s.ifaceSeqno := h6.seqno.trans h3.seqno
    have hreq : s₆.requests = s.requests := h6.requests.trans h3.requests
    rw [hseqno] at h6
    have hheap : ∀ a, s₆.heap a = (s.heap a).bind (Iface.update b false (s.ifaceSeqno + 1)) := by
      intro a
      rw [(h3.trans h6).heap]
      rfl
    split
    · refine ⟨⟨h6.consistent.named, h6.consistent.sorted, h6.consistent.fresh⟩, hheap,
        [s.ifaceSeqno + 1], ?_,
        fun _ _ _ _ _ _ => mem_singleton_self _⟩
      rw [hreq, hseqno6]
    next hnew =>
      refine ⟨h6.consistent, hheap, [], by rw [hreq, append_nil], fun a f hf hs hvif _ => ?_⟩
      -- an interface that is claimed stays as it is up to the loop over those
      have hf4 : s₄.heap a = some f := by
        rw [(h3.trans h4).heap, hf]
        simp [Iface.loop, hs]
      exact absurd (h4.consistent.newIfaces hf4 hs hvif) hnew

theorem Steps.congr {g g' : Iface → Option Iface} (h : Steps g s s') (hg : ∀ f, g f = g' f) :
    Steps g' s s' := by
  rwa [show g = g' from funext hg] at h

theorem Consistent.updateBindings (h : s.Consistent) (o : HashOrder ℕ) (b : Option Answers)
    (sbReadonly ovsReadonly : Bool) :
    Steps some s (s.updateBindings o b sbReadonly ovsReadonly) := by
  -- the loops only make calls
  have hkeep : ∀ {s : Mgr}, s.Consistent → ∀ (state : IfState) (body : Body),
    (∀ f, (body f).2 = .keep) →
      Steps some s (s.forEach o state body) := by
    intro s h state body hbody
    refine (h.forEach o state body).congr fun f => ?_
    unfold Iface.loop
    rw [hbody, Outcome.apply, ite_self]
  cases b with
  | none => exact ⟨h, fun a => (Option.bind_fun_some _).symm, rfl, rfl⟩
  | some b =>
    have h1 := hkeep h .installFlows (setDownBody sbReadonly ovsReadonly) fun _ => rfl
    have h2 := hkeep h1.consistent .remOldOvnInst (removeOvnInstalledBody ovsReadonly) fun _ => rfl
    have h3 := hkeep h2.consistent .markUp (setUpBody b sbReadonly ovsReadonly) fun _ => rfl
    exact ((h1.trans h2).trans h3).trans
      (hkeep h3.consistent .markDown (setDownBody sbReadonly ovsReadonly) fun _ => rfl)

theorem Consistent.run (h : s.Consistent) (o : HashOrder ℕ) (acked : List ℕ) (b : Option Answers)
    (sbReadonly ovsReadonly : Bool) :
    Steps (Iface.loop .installFlows (ackedBody acked b)) s
      (s.run o acked b sbReadonly ovsReadonly) := by
  have h1 := h.forEach o .installFlows (ackedBody acked b)
  exact (h1.trans (h1.consistent.updateBindings o b sbReadonly ovsReadonly)).congr fun f =>
    Option.bind_fun_some _

/-- A claim creates the interface or takes it back to `CLAIMED`. -/
def starts (s : Mgr) (c : Claim) : Bool :=
  match s.ifaces.lookup c.pb.logicalPort with
  | none => true
  | some a => (s.heap a).any (·.state.reclaims)

structure ClaimSpec (c : Claim) (s s' : Mgr) : Prop where
  consistent : s'.Consistent
  requests : s'.requests = s.requests
  other : ∀ a f', s'.heap a = some f' → f'.id ≠ c.pb.logicalPort → s.heap a = some f'
  started : s.starts c = true → ∀ a f', s'.heap a = some f' → f'.id = c.pb.logicalPort →
    f'.state = .claimed
  kept : s.starts c = false → ∀ a f', s'.heap a = some f' → f'.id = c.pb.logicalPort →
    ∃ f, s.heap a = some f ∧ f' = c.fill f

theorem heap_ovsIfaceCreate (id : String) (ifaceRec : Option String) (state : IfState) :
    (s.ovsIfaceCreate id ifaceRec state).heap =
      Function.update s.heap s.next (some ⟨id, ifaceRec, 0, 0, state, 0, .cannot, false⟩) := by
  simp [ovsIfaceCreate, ovsIfaceSetState, modifyIface]

theorem requests_ovsIfaceCreate (id : String) (ifaceRec : Option String) (state : IfState) :
    (s.ovsIfaceCreate id ifaceRec state).requests = s.requests := by
  exact (numbers_setState state).2

def claimed (c : Claim) (f : Iface) : Iface :=
  if f.state.reclaims then { c.fill f with state := .claimed, installSeqno := 0 } else c.fill f

theorem claimFound_spec (h : s.Consistent) (c : Claim) {a : ℕ} {f : Iface}
    (hf : s.heap a = some f) :
    (s.claimFound c a).Consistent ∧ (s.claimFound c a).requests = s.requests ∧
      (s.claimFound c a).heap = Function.update s.heap a (some (claimed c f)) := by
  have hcons : ((s.modifyIface a c.fill).emit c.calls).Consistent :=
    Consistent.emit (h.modify (g := c.fill) (fun _ => rfl) fun _ => rfl) _
  have hheap : ((s.modifyIface a c.fill).emit c.calls).heap = Function.update s.heap a
    (some (c.fill f)) := by
    show Function.update s.heap a ((s.heap a).map c.fill) = _
    rw [hf]
    rfl
  unfold claimFound claimed
  dsimp only
  rw [hheap, update_self]
  have hstate : (c.fill f).state = f.state := rfl
  dsimp only
  rw [hstate]
  split
  · refine ⟨hcons.setState a .claimed, (numbers_setState .claimed).2, ?_⟩
    have := heap_act (by rw [hheap, update_self]) (.set .claimed)
    rw [hheap, update_idem] at this
    exact this
  · exact ⟨hcons, rfl, hheap⟩

theorem Consistent.claimIface (h : s.Consistent) (c : Claim) : ClaimSpec c s (s.claimIface c) := by
  unfold Mgr.claimIface
  cases hl : s.ifaces.lookup c.pb.logicalPort with
  | none =>
    have hfind :
      s.findOrCreate c = (s.ovsIfaceCreate c.pb.logicalPort c.ifaceRec .claimed, s.next) := by
      unfold findOrCreate
      rw [hl]
    rw [hfind]
    have hstarts : s.starts c = true := by
      unfold starts
      rw [hl]
    have hheap := heap_ovsIfaceCreate (s := s) c.pb.logicalPort c.ifaceRec .claimed
    obtain ⟨hcons, hreq, hheap'⟩ := claimFound_spec (h.create hl c.ifaceRec .claimed) c
      (by rw [hheap, update_self])
    rw [hheap, update_idem] at hheap'
    refine ⟨hcons, hreq.trans (requests_ovsIfaceCreate ..), fun a f' hf' hne => ?_,
      fun _ a f' hf' hid => ?_,
      fun hno => ?_⟩
    · rcases update_some_iff.1 (hheap' ▸ hf') with ⟨-, rfl⟩ | ⟨-, hf'⟩
      · exact absurd rfl hne
      · exact hf'
    · rcases update_some_iff.1 (hheap' ▸ hf') with ⟨-, rfl⟩ | ⟨-, hf'⟩
      · rfl
      · cases hl.symm.trans ((h.named _ _).2 ⟨f', hf', hid⟩)
    · cases hstarts.symm.trans hno
  | some a =>
    have hfind : s.findOrCreate c = (s, a) := by
      unfold findOrCreate
      rw [hl]
    rw [hfind]
    obtain ⟨f, hf, hid⟩ := (h.named _ _).1 hl
    have hstarts : s.starts c = f.state.reclaims := by simp [hl, hf, starts]
    obtain ⟨hcons, hreq, hheap⟩ := claimFound_spec h c hf
    have hname : (claimed c f).id = c.pb.logicalPort := by
      unfold claimed
      split <;> exact hid
    have hself : ∀ b f', (s.claimFound c a).heap b = some f' → f'.id = c.pb.logicalPort →
        b = a ∧ f' = claimed c f := by
      intro b f' hf' hid'
      rcases update_some_iff.1 (hheap ▸ hf') with ⟨hb, rfl⟩ | ⟨hb, hf'⟩
      · exact ⟨hb, rfl⟩
      · exact absurd (h.eq_of_id hf' hf (hid'.trans hid.symm)) hb
    refine ⟨hcons, hreq, fun b f' hf' hne => ?_, fun hyes b f' hf' hid' => ?_,
      fun hno b f' hf' hid' => ?_⟩
    · rcases update_some_iff.1 (hheap ▸ hf') with ⟨-, rfl⟩ | ⟨-, hf'⟩
      · exact absurd hname hne
      · exact hf'
    · obtain ⟨-, rfl⟩ := hself b f' hf' hid'
      unfold claimed
      rw [if_pos (hstarts ▸ hyes)]
    · obtain ⟨rfl, rfl⟩ := hself b f' hf' hid'
      refine ⟨f, hf, ?_⟩
      unfold claimed
      rw [if_neg (by rw [← hstarts, hno]; exact Bool.false_ne_true)]

/-- A claim leads nowhere from the states that do not lead back to `CLAIMED`. -/
theorem Consistent.claimIface_kept (h : s.Consistent) (c : Claim) {a : ℕ} {f : Iface}
    (hf : s.heap a = some f)
    (hid : f.id = c.pb.logicalPort) (hs : f.state.reclaims = false) :
    (s.claimIface c).heap a = some (c.fill f) := by
  have hfind : s.findOrCreate c = (s, a) := by
    unfold findOrCreate
    rw [(h.named _ a).2 ⟨f, hf, hid⟩]
  unfold Mgr.claimIface
  rw [hfind, (claimFound_spec h c hf).2.2, update_self]
  simp [claimed, hs]

/-- Interfaces are released or go away, and all else stays. -/
structure Dropping (s s' : Mgr) : Prop where
  consistent : s'.Consistent
  requests : s'.requests = s.requests
  kept : ∀ a f', s'.heap a = some f' → f'.state = .markDown ∨ s.heap a = some f'

theorem Consistent.markDown (h : s.Consistent) (a : ℕ) (f : Iface) :
    Dropping s (s.markDown a f) := by
  unfold Mgr.markDown
  split
  · refine ⟨h.setState a .markDown, (numbers_setState .markDown).2, fun b f' hf' => ?_⟩
    unfold ovsIfaceSetState at hf'
    split at hf'
    · exact .inr hf'
    · rcases update_some_iff.1 hf' with ⟨-, rfl⟩ | ⟨-, hf'⟩
      · exact .inl rfl
      · exact .inr hf'
  · exact ⟨h, rfl, fun _ _ hf' => .inr hf'⟩

theorem Consistent.dropping (h : s.Consistent) : Dropping s s := ⟨h, rfl, fun _ _ hf' => .inr hf'⟩

theorem Consistent.releaseIface (h : s.Consistent) (id : String) :
    Dropping s (s.releaseIface id) := by
  unfold Mgr.releaseIface
  split
  · exact h.dropping
  · split
    · exact h.dropping
    · exact h.markDown ..

theorem Consistent.deleteIface (h : s.Consistent) {id : String} {ifaceRec : Option String}
    (hs : s.deleteIface id ifaceRec = some s') : Dropping s s' := by
  unfold Mgr.deleteIface at hs
  split at hs
  · cases hs
    exact h.dropping
  split at hs
  · cases hs
    exact h.dropping
  split at hs
  · cases hs
    exact h.markDown ..
  · cases hs
  · cases hs
    split
    · exact h.markDown ..
    · exact h.dropping

theorem Consistent.clear (h : s.Consistent) : Dropping s s.clear := by
  refine foldlRecOn _ _ h.dropping fun s' hs' a _ => ?_
  refine ⟨hs'.consistent.destroy a, ?_, fun b f' hf' => hs'.kept b f' ?_⟩
  · refine Eq.trans ?_ hs'.requests
    unfold ovsIfaceDestroy
    split <;> rfl
  · unfold ovsIfaceDestroy at hf'
    split at hf'
    · exact hf'
    · exact (update_none_iff.1 hf').2

end Mgr

/-! ## Runs -/

/-- The manager and what is remembered of the run.  A time is the number of requests before it. -/
structure State where
  mgr : Mgr
  claimedAt : String → ℕ
  /-- When a claim last created it or took it back to `CLAIMED`. -/
  startedAt : String → ℕ
  /-- Whether it needed its flows when an update last found it in `CLAIMED`. -/
  waited : String → Bool
  /-- The requests that have been acked, by their positions. -/
  acked : List ℕ

inductive Op
  | claim (c : Claim)
  | release (id : String)
  | delete (id : String) (ifaceRec : Option String)
  | update (o : HashOrder ℕ) (b : Option Answers) (sbReadonly : Bool)
  | run (o : HashOrder ℕ) (acked : List ℕ) (b : Option Answers) (sbReadonly ovsReadonly : Bool)
  | clear

/-- The requests that numbers are acks of: of several with one number, the last. -/
def ackedRequests (requests : List UInt32) (acked : List ℕ) : List ℕ :=
  (range requests.length).filter fun r =>
    (requests[r]?).any fun n => n.toNat ∈ acked && n ∉ requests.drop (r + 1)

/-- Whether an interface needs its flows, if it is about to leave `CLAIMED`. -/
def Mgr.leaving (s : Mgr) (waited : String → Bool) (id : String) : Bool :=
  match (s.ifaces.lookup id).bind s.heap with
  | some f => if f.state = .claimed then f.isVif else waited id
  | none => waited id

def next (s : State) : Op → Option State
  | .claim c =>
    let now := s.mgr.requests.length
    some { s with
      mgr := s.mgr.claimIface c
      claimedAt := Function.update s.claimedAt c.pb.logicalPort now
      startedAt := if s.mgr.starts c then Function.update s.startedAt c.pb.logicalPort now
        else s.startedAt }
  | .release id => some { s with mgr := s.mgr.releaseIface id }
  | .delete id ifaceRec => (s.mgr.deleteIface id ifaceRec).map fun m => { s with mgr := m }
  | .update o b sbReadonly =>
    some { s with mgr := s.mgr.update o b sbReadonly, waited := s.mgr.leaving s.waited }
  | .run o acked b sbReadonly ovsReadonly =>
    some { s with
      mgr := s.mgr.run o acked b sbReadonly ovsReadonly
      acked := s.acked ++ ackedRequests s.mgr.requests acked }
  | .clear => some { s with mgr := s.mgr.clear }

def system : System State Op :=
  ⟨⟨Mgr.create, fun _ => 0, fun _ => 0, fun _ => false, []⟩, next⟩

/-! ## What holds -/

/-- The map by name and the sets by state have the same interfaces, each in the set of its state
    only. -/
structure Mgr.InStep (s : Mgr) : Prop where
  known : ∀ id a, s.ifaces.lookup id = some a →
    ∃ f, s.heap a = some f ∧ f.id = id ∧ ∀ state, a ∈ s.perState state ↔ state = f.state
  listed : ∀ state a, a ∈ s.perState state → ∃ id, s.ifaces.lookup id = some a
  nodup : ∀ state, (s.perState state).Nodup

theorem Mgr.Consistent.inStep {s : Mgr} (h : s.Consistent) : s.InStep := by
  refine ⟨fun id a ha => ?_, fun state a ha => ?_, h.sorted.nodup⟩
  · obtain ⟨f, hf, hid⟩ := (h.named id a).1 ha
    refine ⟨f, hf, hid, fun state => (h.sorted.mem state a).trans ?_⟩
    rw [hf, Option.map_some, Option.some_inj, eq_comm]
  · obtain ⟨f, hf, -⟩ := Option.map_eq_some_iff.1 ((h.sorted.mem state a).1 ha)
    exact ⟨f.id, (h.named f.id a).2 ⟨f, hf, rfl⟩⟩

/-- An interface that needs its flows is marked up or installed only when a number requested since
    it was last claimed is acked. -/
def State.AckedSinceClaim (s : State) : Prop :=
  ∀ a f, s.mgr.heap a = some f → f.isVif = true → f.state = .markUp ∨ f.state = .installed →
    ∃ r ∈ s.acked, s.claimedAt f.id ≤ r

/-- The same since it was last created or taken back to `CLAIMED`, for an interface that needed its
    flows when it left that state. -/
def State.AckedSinceStart (s : State) : Prop :=
  ∀ a f, s.mgr.heap a = some f → s.waited f.id = true → f.state.flowsDone →
    ∃ r ∈ s.acked, s.startedAt f.id ≤ r

/-- An interface that waits for its flows is advanced by an ack for a request since then. -/
def State.AdvancedByAck (s : State) : Prop :=
  ∀ o acked b sbReadonly ovsReadonly a f, s.mgr.heap a = some f → f.state = .installFlows →
    (s.mgr.run o acked b sbReadonly ovsReadonly).heap a ≠ some f →
    ∃ r ∈ ackedRequests s.mgr.requests acked, s.startedAt f.id ≤ r

/-- A claim call changes neither the state of an interface on its way nor the number it waits for,
    so that an ack for a request before the call still advances it. -/
def State.ClaimKeeps (s : State) : Prop :=
  ∀ (c : Claim) a f, s.mgr.heap a = some f → f.id = c.pb.logicalPort →
    f.state ∈ [.claimed, .installFlows, .remOldOvnInst, .markUp] →
    (∃ f', (s.mgr.claimIface c).heap a = some f' ∧ f'.state = f.state ∧
      f'.installSeqno = f.installSeqno) ∧
      (f.state = .installFlows → ∀ o acked b sbReadonly ovsReadonly, f.installSeqno.toNat ∈ acked →
        ∃ f', ((s.mgr.claimIface c).run o acked b sbReadonly ovsReadonly).heap a = some f' ∧
          f'.state.flowsDone)

/-- Every interface that waits does so for a number that is requested since it was started. -/
structure State.Inv (s : State) : Prop where
  consistent : s.mgr.Consistent
  started : ∀ id, s.startedAt id ≤ s.mgr.requests.length
  waiting : ∀ a f, s.mgr.heap a = some f → f.state = .installFlows →
    ∃ r, s.startedAt f.id ≤ r ∧ s.mgr.requests[r]? = some f.installSeqno
  acked : s.AckedSinceStart

theorem exists_ackedRequests {requests : List UInt32} {acked : List ℕ} {n : UInt32}
    (hn : n.toNat ∈ acked)
    (r : ℕ) (hr : requests[r]? = some n) : ∃ r' ∈ ackedRequests requests acked, r ≤ r' := by
  have hlt : r < requests.length := (List.getElem?_eq_some_iff.1 hr).1
  by_cases hlast : n ∈ requests.drop (r + 1)
  · obtain ⟨i, hi⟩ := mem_iff_getElem?.1 hlast
    rw [List.getElem?_drop] at hi
    obtain ⟨r', hr', hle⟩ := exists_ackedRequests hn (r + 1 + i) hi
    exact ⟨r', hr', by omega⟩
  · refine ⟨r, mem_filter.2 ⟨mem_range.2 hlt, ?_⟩, le_refl r⟩
    rw [hr]
    simp [hn, hlast]
termination_by requests.length - r

variable {s s' : State}

theorem State.Inv.dropping (h : s.Inv) {m : Mgr} (hd : Mgr.Dropping s.mgr m) :
    State.Inv { s with mgr := m } := by
  refine ⟨hd.consistent, fun id => hd.requests ▸ h.started id, fun a f hf hs => ?_,
    fun a f hf hw hs => ?_⟩
  · rcases hd.kept a f hf with hdown | hf
    · cases hdown.symm.trans hs
    · rw [hd.requests]
      exact h.waiting a f hf hs
  · rcases hd.kept a f hf with hdown | hf
    · rw [hdown] at hs
      cases hs
    · exact h.acked a f hf hw hs

theorem State.Inv.claim (h : s.Inv) (c : Claim) (hn : next s (.claim c) = some s') : s'.Inv := by
  have hc := h.consistent.claimIface c
  cases hn
  by_cases hst : s.mgr.starts c = true
  · have hother : ∀ a f, (s.mgr.claimIface c).heap a = some f → f.state ≠ .claimed →
        f.id ≠ c.pb.logicalPort ∧ s.mgr.heap a = some f := by
      intro a f hf hne
      have hid : f.id ≠ c.pb.logicalPort := fun hid => hne (hc.started hst a f hf hid)
      exact ⟨hid, hc.other a f hf hid⟩
    refine ⟨hc.consistent, fun id => ?_, fun a f hf hs => ?_, fun a f hf hw hs => ?_⟩
    · dsimp only
      rw [if_pos hst, update_apply, hc.requests]
      split
      · exact le_refl _
      · exact h.started id
    · obtain ⟨hid, hf⟩ := hother a f hf (by rw [hs]; nofun)
      dsimp only
      rw [if_pos hst, update_of_ne hid, hc.requests]
      exact h.waiting a f hf hs
    · obtain ⟨hid, hf⟩ := hother a f hf (by rintro heq; rw [heq] at hs; cases hs)
      dsimp only
      rw [if_pos hst, update_of_ne hid]
      exact h.acked a f hf hw hs
  · -- the record is filled in, and the interface waits as before
    have hold : ∀ a f', (s.mgr.claimIface c).heap a = some f' → ∃ f, s.mgr.heap a = some f ∧
      f.id = f'.id ∧
        f.state = f'.state ∧ f.installSeqno = f'.installSeqno := by
      intro a f' hf'
      by_cases hid : f'.id = c.pb.logicalPort
      · obtain ⟨f, hf, rfl⟩ := hc.kept (Bool.eq_false_iff.2 hst) a f' hf' hid
        exact ⟨f, hf, rfl, rfl, rfl⟩
      · exact ⟨f', hc.other a f' hf' hid, rfl, rfl, rfl⟩
    refine ⟨hc.consistent, fun id => ?_, fun a f' hf' hs => ?_, fun a f' hf' hw hs => ?_⟩
    · rw [if_neg hst, hc.requests]
      exact h.started id
    · obtain ⟨f, hf, hid, hstate, hseqno⟩ := hold a f' hf'
      rw [if_neg hst, hc.requests, ← hid, ← hseqno]
      exact h.waiting a f hf (hstate.trans hs)
    · obtain ⟨f, hf, hid, hstate, -⟩ := hold a f' hf'
      rw [if_neg hst, ← hid]
      rw [← hid] at hw
      exact h.acked a f hf hw (hstate ▸ hs)

theorem Mgr.Consistent.leaving {m : Mgr} (h : m.Consistent) {a : ℕ} {f : Iface}
    (hf : m.heap a = some f)
    (waited : String → Bool) :
    m.leaving waited f.id = if f.state = .claimed then f.isVif else waited f.id := by
  unfold Mgr.leaving
  rw [(h.named f.id a).2 ⟨f, hf, rfl⟩, Option.bind_some, hf]

theorem State.Inv.update (h : s.Inv) (o : HashOrder ℕ) (b : Option Answers) (sbReadonly : Bool) :
    State.Inv { s with mgr := s.mgr.update o b sbReadonly, waited := s.mgr.leaving s.waited } := by
  have hsame : ∀ a f, s.mgr.heap a = some f → s.mgr.leaving s.waited f.id = true →
    f.state.flowsDone →
      ∃ r ∈ s.acked, s.startedAt f.id ≤ r := by
    intro a f hf hw hs
    rw [h.consistent.leaving hf, if_neg] at hw
    · exact h.acked a f hf hw hs
    · rintro heq
      rw [heq] at hs
      cases hs
  cases b with
  | none => exact ⟨h.consistent, h.started, h.waiting, hsame⟩
  | some b =>
    obtain ⟨hcons, hheap, new, hreq, hnew⟩ := h.consistent.update o b sbReadonly
    have hstep : ∀ a f', (s.mgr.update o (some b) sbReadonly).heap a = some f' →
        ∃ f, s.mgr.heap a = some f ∧ Iface.Updated (!sbReadonly) (s.mgr.ifaceSeqno + 1) f f' := by
      intro a f' hf'
      rw [hheap] at hf'
      obtain ⟨f, hf, hup⟩ := Option.bind_eq_some_iff.1 hf'
      exact ⟨f, hf, Iface.update_cases hup⟩
    refine ⟨hcons, fun id => ?_, fun a f' hf' hs => ?_, fun a f' hf' hw hs => ?_⟩
    · rw [hreq, length_append]
      exact Nat.le_add_right_of_le (h.started id)
    · obtain ⟨f, hf, hup⟩ := hstep a f' hf'
      rw [hreq]
      cases hup with
      | same =>
        obtain ⟨r, hle, hr⟩ := h.waiting a f' hf hs
        refine ⟨r, hle, ?_⟩
        rw [List.getElem?_append_left (List.getElem?_eq_some_iff.1 hr).1]
        exact hr
      | confirmed state _ hdone =>
        cases hs
        cases hdone
      | down => cases hs
      | wait hwritable hcl hvif =>
        obtain ⟨i, hi⟩ := mem_iff_getElem?.1 (hnew a f hf hcl hvif (by simpa using hwritable))
        refine ⟨s.mgr.requests.length + i, Nat.le_add_right_of_le (h.started f.id), ?_⟩
        rw [List.getElem?_append_right (Nat.le_add_right _ _), Nat.add_sub_cancel_left]
        exact hi
      | nonVif => cases hs
    · obtain ⟨f, hf, hup⟩ := hstep a f' hf'
      cases hup with
      | same => exact hsame a f' hf hw hs
      | confirmed state hdone => exact hsame a f hf hw hdone
      | down => cases hs
      | wait => cases hs
      | nonVif _ hcl hvif => simp_all [h.consistent.leaving hf]

theorem State.Inv.exists_acked (h : s.Inv) {acked : List ℕ} {a : ℕ} {f : Iface}
    (hf : s.mgr.heap a = some f)
    (hs : f.state = .installFlows) (hacked : f.installSeqno.toNat ∈ acked) :
    ∃ r ∈ ackedRequests s.mgr.requests acked, s.startedAt f.id ≤ r := by
  obtain ⟨r, hle, hr⟩ := h.waiting a f hf hs
  obtain ⟨r', hr', hle'⟩ := exists_ackedRequests hacked r hr
  exact ⟨r', hr', Nat.le_trans hle hle'⟩

theorem State.Inv.run (h : s.Inv) (o : HashOrder ℕ) (acked : List ℕ) (b : Option Answers)
    (sbReadonly ovsReadonly : Bool) :
    State.Inv { s with
      mgr := s.mgr.run o acked b sbReadonly ovsReadonly
      acked := s.acked ++ ackedRequests s.mgr.requests acked } := by
  have hr := h.consistent.run o acked b sbReadonly ovsReadonly
  have hstep : ∀ a f', (s.mgr.run o acked b sbReadonly ovsReadonly).heap a = some f' →
      s.mgr.heap a = some f' ∨ ∃ f, s.mgr.heap a = some f ∧ f.state = .installFlows ∧
        f.installSeqno.toNat ∈ acked ∧ f'.id = f.id ∧ f'.state.flowsDone := by
    intro a f' hf'
    rw [hr.heap] at hf'
    obtain ⟨f, hf, hrun⟩ := Option.bind_eq_some_iff.1 hf'
    rcases Iface.run_cases hrun with rfl | ⟨hs, hin, state, hdone, rfl⟩
    · exact .inl hf
    · exact .inr ⟨f, hf, hs, hin, rfl, hdone⟩
  refine ⟨hr.consistent, fun id => hr.requests ▸ h.started id, fun a f' hf' hs => ?_,
    fun a f' hf' hw hs => ?_⟩
  · rcases hstep a f' hf' with hf | ⟨f, -, -, -, -, hdone⟩
    · rw [hr.requests]
      exact h.waiting a f' hf hs
    · rw [hs] at hdone
      cases hdone
  · rcases hstep a f' hf' with hf | ⟨f, hf, hfs, hin, hid, -⟩
    · obtain ⟨r, hr, hle⟩ := h.acked a f' hf hw hs
      exact ⟨r, mem_append_left _ hr, hle⟩
    · obtain ⟨r, hr, hle⟩ := h.exists_acked hf hfs hin
      exact ⟨r, mem_append_right _ hr, hid ▸ hle⟩

theorem Mgr.Consistent.run_acked {m : Mgr} (h : m.Consistent) (o : HashOrder ℕ) {acked : List ℕ}
    (b : Option Answers) (sbReadonly ovsReadonly : Bool) {a : ℕ} {f : Iface}
    (hf : m.heap a = some f)
    (hs : f.state = .installFlows) (hacked : f.installSeqno.toNat ∈ acked) :
    ∃ f', (m.run o acked b sbReadonly ovsReadonly).heap a = some f' ∧ f'.state.flowsDone := by
  rw [(h.run o acked b sbReadonly ovsReadonly).heap, hf, Option.bind_some]
  unfold Iface.loop ackedBody
  rw [if_pos hs, if_neg (not_not_intro hacked)]
  split <;> exact ⟨_, rfl, rfl⟩

theorem State.Inv.claimKeeps (h : s.Inv) : s.ClaimKeeps := by
  intro c a f hf hid hstate
  have hkept := h.consistent.claimIface_kept c hf hid (by revert hstate; cases f.state <;> decide)
  refine ⟨⟨c.fill f, hkept, rfl, rfl⟩, fun hs o acked b sbReadonly ovsReadonly hacked => ?_⟩
  exact (h.consistent.claimIface c).consistent.run_acked o b sbReadonly ovsReadonly hkept hs hacked

theorem inv_reached (h : system.Reached (fun _ _ => True) s) : s.Inv := by
  refine h.invariant ⟨Mgr.consistent_create, fun _ => le_refl 0, nofun, nofun⟩
    fun s op s' hs _ hn => ?_
  cases op with
  | claim c => exact hs.claim c hn
  | release id =>
    cases hn
    exact hs.dropping (hs.consistent.releaseIface id)
  | delete id ifaceRec =>
    obtain ⟨m, hm, rfl⟩ := Option.map_eq_some_iff.1 hn
    exact hs.dropping (hs.consistent.deleteIface hm)
  | update o b sbReadonly =>
    cases hn
    exact hs.update o b sbReadonly
  | run o acked b sbReadonly ovsReadonly =>
    cases hn
    exact hs.run o acked b sbReadonly ovsReadonly
  | clear =>
    cases hn
    exact hs.dropping hs.consistent.clear

/-- **The interface manager.**  In every run the map and the sets are in step, and an interface that
    needed its flows when it left `CLAIMED` gets past waiting for them only by an ack for a request
    made since it was created or last taken back to `CLAIMED`, which a claim on its way does not
    do. -/
theorem interfaces_in_step (h : system.Reached (fun _ _ => True) s) :
    s.mgr.InStep ∧ s.AckedSinceStart ∧ s.AdvancedByAck ∧ s.ClaimKeeps := by
  have hinv := inv_reached h
  refine ⟨hinv.consistent.inStep, hinv.acked, ?_, hinv.claimKeeps⟩
  intro o acked b sbReadonly ovsReadonly a f hf hs hne
  rw [(hinv.consistent.run o acked b sbReadonly ovsReadonly).heap, hf, Option.bind_some] at hne
  refine hinv.exists_acked hf hs ?_
  by_contra hin
  refine hne ?_
  unfold Iface.loop ackedBody
  rw [if_pos hs, if_pos hin]
  rfl

def vifClaim : Claim := ⟨⟨"p", 1⟩, some "tap", false, .asMain, true, none⟩

def allUp : Answers :=
  ⟨fun _ => false, fun _ => true, fun _ => false, fun _ => true, fun _ => false, fun _ => true,
    fun _ => true,
    fun _ => true, fun _ => true⟩

theorem interfaces_in_step_installed : ∃ s, system.Reached (fun _ _ => True) s ∧
    (s.mgr.heap 0).map (·.state) = some .installed ∧ s.waited "p" = true ∧
    s.mgr.InStep ∧ s.AckedSinceStart ∧ s.AdvancedByAck ∧ s.ClaimKeeps := by
  have h₁ := System.Reached.init.step (S := system) (P := fun _ _ => True) (a := Op.claim vifClaim)
    trivial rfl
  have h₂ := h₁.step (a := Op.update (HashOrder.listed ℕ) (some allUp) false) trivial rfl
  have h₃ := h₂.step (a := Op.run (HashOrder.listed ℕ) [1] (some allUp) false false) trivial rfl
  have h₄ := h₃.step (a := Op.update (HashOrder.listed ℕ) (some allUp) false) trivial rfl
  exact ⟨_, h₄, by decide, by decide, interfaces_in_step h₄⟩

/-- A claim of an interface that waits for its flows changes nothing: the ack for the request before
    the claim marks it up. -/
theorem not_ackedSinceClaim : ¬ ∀ s, system.Reached (fun _ _ => True) s → s.AckedSinceClaim := by
  intro h
  have h₁ := System.Reached.init.step (S := system) (P := fun _ _ => True) (a := Op.claim vifClaim)
    trivial rfl
  have h₂ := h₁.step (a := Op.update (HashOrder.listed ℕ) (some allUp) false) trivial rfl
  have h₃ := h₂.step (a := Op.claim vifClaim) trivial rfl
  have h₄ := h₃.step (a := Op.run (HashOrder.listed ℕ) [1] (some allUp) false false) trivial rfl
  obtain ⟨r, hr, hle⟩ := h _ h₄ 0 _ rfl rfl (.inl rfl)
  revert r
  decide

end Ovn.IfStatus

/-
  What the threads of a worker pool can rely on.

  For the main thread each worker is in one of a few stages of the invocation, and the stage says
  what its control can be (`Fits`).  A worker moves within a stage; the main thread moves one worker
  from a stage to the next.  Next to that the completion semaphore is up whenever a flag was set
  that the main thread would otherwise not see before it waits again.
-/
import Ovn.WorkerPool
import Mathlib.Data.Fintype.Card

namespace Ovn.WorkerPool

open List

variable {n : ℕ} {D R F : Type*}

/-! ## Stages -/

/-- How far the main thread is with a worker. -/
inductive Stage
  /-- There is no invocation. -/
  | resting
  | unfired
  | pending
  /-- Its flag is cleared, and the helper is yet to be called. -/
  | taking
  | taken

/-- The thread has no work: it may still have to post the completion semaphore. -/
def Thread.Idle (t : Thread D) : Prop := t = .waiting ∨ t = .posting

/-- What a control can be, after `k` invocations, when it was given `given.1` and `given.2`. -/
inductive Fits (work : Option D → R → R) (k : ℕ) (given : Option D × R) : Stage → Control D R → Prop
  | resting {t : Thread D} (d : Option D) (r : R) (h : t.Idle) :
    Fits work k given .resting ⟨0, false, d, t, r, k, k⟩
  | unfired {t : Thread D} (h : t.Idle) :
    Fits work k given .unfired ⟨0, false, given.1, t, given.2, k, k⟩
  | fired {t : Thread D} (h : t.Idle) :
    Fits work k given .pending ⟨1, false, given.1, t, given.2, k, k⟩
  | woken : Fits work k given .pending ⟨0, false, given.1, .woken, given.2, k + 1, k⟩
  | working : Fits work k given .pending ⟨0, false, given.1, .working given.1, given.2, k + 1, k⟩
  | worked : Fits work k given .pending
      ⟨0, false, given.1, .worked, work given.1 given.2, k + 1, k + 1⟩
  | finished {t : Thread D} (h : t.Idle) :
    Fits work k given .pending ⟨0, true, given.1, t, work given.1 given.2, k + 1, k + 1⟩
  | taking {t : Thread D} (h : t.Idle) :
    Fits work k given .taking ⟨0, false, given.1, t, work given.1 given.2, k + 1, k + 1⟩
  | taken {t : Thread D} (d : Option D) (r : R) (h : t.Idle) :
    Fits work k given .taken ⟨0, false, d, t, r, k + 1, k + 1⟩

variable {work : Option D → R → R} {k : ℕ} {given : Option D × R} {c : Control D R} {st : Stage}

theorem Fits.step {c' : Control D R} {posts : Bool} (h : Fits work k given st c)
    (hs : c.step work = some (c', posts)) : Fits work k given st c' := by
  cases h with
  | resting d r h =>
    rcases h with rfl | rfl <;> cases hs
    exact .resting d r (.inl rfl)
  | unfired h =>
    rcases h with rfl | rfl <;> cases hs
    exact .unfired (.inl rfl)
  | fired h =>
    rcases h with rfl | rfl
    · cases hs
      exact .woken
    · cases hs
      exact .fired (.inl rfl)
  | woken =>
    cases hs
    exact .working
  | working =>
    cases hs
    exact .worked
  | worked =>
    cases hs
    exact .finished (.inr rfl)
  | finished h =>
    rcases h with rfl | rfl <;> cases hs
    exact .finished (.inl rfl)
  | taking h =>
    rcases h with rfl | rfl <;> cases hs
    exact .taking (.inl rfl)
  | taken d r h =>
    rcases h with rfl | rfl <;> cases hs
    exact .taken d r (.inl rfl)

theorem Fits.fire (h : Fits work k given .unfired c) :
    Fits work k given .pending { c with fire := c.fire + 1 } := by
  cases h with
  | unfired h => exact .fired h

theorem Fits.take (h : Fits work k given .pending c) (hf : c.finished = true) :
    Fits work k given .taking { c with finished := false } := by
  cases h with
  | finished h => exact .taking h
  | _ => cases hf

theorem Fits.help (h : Fits work k given .taking c) (r : R) :
    c.frag = work given.1 given.2 ∧ Fits work k given .taken { c with frag := r } := by
  cases h with
  | taking h => exact ⟨rfl, .taken _ _ h⟩

theorem Fits.clear (h : Fits work k given .taken c) :
    Fits work k given .taken { c with data := none } := by
  cases h with
  | taken _ _ h => exact .taken _ _ h

theorem Fits.ret (h : Fits work k given .taken c) : Fits work (k + 1) given .resting c := by
  cases h with
  | taken _ _ h => exact .resting _ _ h

theorem Fits.set (h : Fits work k given .resting c) (d : Option D) (r : R) :
    Fits work k given .resting { c with data := d, frag := r } := by
  cases h with
  | resting _ _ h => exact .resting _ _ h

theorem Fits.call (h : Fits work k given .resting c) : Fits work k (c.data, c.frag) .unfired c := by
  cases h with
  | resting d r h => exact .unfired h

theorem Fits.finished_eq (h : Fits work k given st c) (hst : st ≠ .pending) :
    c.finished = false := by
  cases h with
  | _ => first | rfl | exact absurd rfl hst

theorem Fits.counts (h : Fits work k given st c) :
    k ≤ c.works ∧ c.works ≤ c.starts ∧ c.starts ≤ k + 1 := by
  cases h with
  | _ =>
    dsimp only
    omega

theorem Fits.of_working {d : Option D} (h : Fits work k given st c) (hd : c.thread = .working d) :
    st = .pending ∧ d = given.1 ∧ c.starts = k + 1 := by
  cases h with
  | _ => grind [Thread.Idle]

/-- A pending worker that neither can take a step nor has set its flag does not exist. -/
theorem Fits.pending_stuck (h : Fits work k given .pending c) (hs : c.step work = none) :
    c.finished = true ∧ c.thread = .waiting := by
  cases h with
  | fired h => rcases h with rfl | rfl <;> cases hs
  | finished h =>
    rcases h with rfl | rfl
    · exact ⟨rfl, rfl⟩
    · cases hs
  | _ => cases hs

theorem Control.step_waiting {c' : Control D R} {posts : Bool} (hs : c.step work = some (c', posts))
    (hw : c'.thread = .waiting) : posts = true := by
  unfold Control.step at hs
  split at hs
  · split at hs
    · cases hs
    · cases hs
      cases hw
  · cases hs
    cases hw
  · cases hs
    cases hw
  · cases hs
    cases hw
  · cases hs
    rfl

/-! ## The invariant -/

namespace State

variable (s : State n D R F)

def stage (i : Fin n) : Stage :=
  match s.main with
  | .caller => .resting
  | .firing index => if i < index then .pending else .unfired
  | .helping index _ => if i = index then .taking else if i ∈ s.helped then .taken else .pending
  | _ => if i ∈ s.helped then .taken else .pending

/-- The main thread waits before it looks at the flag of the worker again. -/
def Passed (i : Fin n) : Prop :=
  match s.main with
  | .scanning index _ => i < index
  | .helping index _ => i < index
  | .clearing index _ => i < index
  | _ => True

def Counted : Prop :=
  match s.main with
  | .caller => s.calls = s.returns ∧ (0 < s.calls → s.helped.length = n)
  | .firing index => s.calls = s.returns + 1 ∧ index ≤ n ∧ s.helped = []
  | .waiting completed =>
    s.calls = s.returns + 1 ∧ s.helped.length = completed ∧ (completed < n ∨ n = 0)
  | .scanning index completed => s.calls = s.returns + 1 ∧ s.helped.length = completed ∧ index ≤ n
  | .helping index completed =>
    s.calls = s.returns + 1 ∧ s.helped.length = completed ∧ index ∉ s.helped
  | .clearing index completed =>
    s.calls = s.returns + 1 ∧ s.helped.length = completed + 1 ∧ index ∈ s.helped

end State

structure Inv (work : Fin n → Option D → R → R) (s : State n D R F) : Prop where
  fits : ∀ i, Fits (work i) s.returns (s.given i) (s.stage i) (s.controls i)
  counted : s.Counted
  nodup : s.helped.Nodup
  fin : s.fin = s.helped.foldl
    (fun fin i => (s.helper i fin (work i (s.given i).1 (s.given i).2)).1) s.fin₀
  signalled : ∀ i, s.Passed i → (s.controls i).finished = true →
    (s.controls i).thread = .waiting → 0 < s.done

section
variable {work : Fin n → Option D → R → R} {s s' : State n D R F}

theorem inv_init (frag : Fin n → R) (fin : F) : Inv work (.init frag fin : State n D R F) where
  fits i := .resting _ _ (.inl rfl)
  counted := ⟨rfl, fun h => absurd h (Nat.lt_irrefl 0)⟩
  nodup := nodup_nil
  fin := rfl
  signalled _ _ h := by cases h

variable {i : Fin n} {c : Control D R}

theorem fits_update {k : ℕ} {given : Fin n → Option D × R} {stage stage' : Fin n → Stage}
    {controls : Fin n → Control D R} (h : ∀ j, Fits (work j) k (given j) (stage j) (controls j))
    (hi : Fits (work i) k (given i) (stage' i) c) (hst : ∀ j, j ≠ i → stage' j = stage j)
    (j : Fin n) :
    Fits (work j) k (given j) (stage' j) (Function.update controls i c j) := by
  by_cases hj : j = i
  · subst hj
    rwa [Function.update_self]
  · simp [*]

theorem Inv.worker (h : Inv work s) {posts : Bool}
    (hs : (s.controls i).step (work i) = some (c, posts)) :
    Inv work { s.setControl i c with done := if posts then s.done + 1 else s.done } :=
  { h with
    fits := fits_update h.fits ((h.fits i).step hs) fun _ _ => rfl
    signalled := fun j hp hf hw => by
      dsimp only [State.setControl] at hf hw ⊢
      by_cases hj : j = i
      · subst hj
        rw [Function.update_self] at hw
        rw [Control.step_waiting hs hw, if_pos rfl]
        omega
      · rw [Function.update_of_ne hj] at hf hw
        have := h.signalled j hp hf hw
        split <;> omega }

/-- The main thread leaves the flag and the thread of a worker alone. -/
theorem State.setControl_flag (hf : c.finished = (s.controls i).finished)
    (ht : c.thread = (s.controls i).thread) (j : Fin n) :
    ((s.setControl i c).controls j).finished = (s.controls j).finished ∧
      ((s.setControl i c).controls j).thread = (s.controls j).thread := by
  dsimp only [State.setControl]
  by_cases hj : j = i
  · simp_all
  · simp [*]

theorem Inv.finished_eq (h : Inv work s) (hst : s.stage i ≠ .pending) :
    (s.controls i).finished = false :=
  (h.fits i).finished_eq hst

theorem Inv.set (h : Inv work s) (hm : s.main = .caller) (i : Fin n) (data : Option D) (frag : R) :
    Inv work (s.setControl i { s.controls i with data := data, frag := frag }) :=
  { h with
    fits := by
      refine fits_update h.fits ?_ fun _ _ => rfl
      have hi := h.fits i
      have hst : (s.setControl i { s.controls i with data := data, frag := frag }).stage i =
        s.stage i := rfl
      rw [hst]
      rw [State.stage, hm] at hi ⊢
      exact hi.set data frag
    signalled := fun j hp hf hw => by
      have hj : (s.controls j).finished = false := h.finished_eq (by rw [State.stage, hm]; nofun)
      have hflag := s.setControl_flag (c := { s.controls i with data := data, frag := frag })
        rfl rfl j
      rw [← hflag.1] at hj
      exact absurd hf (by rw [hj]; nofun) }

theorem Inv.call (h : Inv work s) (hm : s.main = .caller) (fin : F) (helper : Helper n R F) :
    Inv work { s with
      fin := fin
      helper := helper
      main := .firing 0
      calls := s.calls + 1
      given := fun i => ((s.controls i).data, (s.controls i).frag)
      fin₀ := fin
      helped := [] } where
  fits i := by
    have hi := h.fits i
    rw [State.stage, hm] at hi
    exact hi.call
  counted := by
    have hc := h.counted
    rw [State.Counted, hm] at hc
    exact ⟨congrArg (· + 1) hc.1, Nat.zero_le n, rfl⟩
  nodup := nodup_nil
  fin := rfl
  signalled i _ hf := by
    have hi : (s.controls i).finished = false := h.finished_eq (by rw [State.stage, hm]; nofun)
    rw [hi] at hf
    cases hf

theorem State.eq_at {main : Main n} (hm : s.main = main) : s = { s with main := main } := by
  subst hm
  rfl

theorem Inv.firing (h : Inv work s) {index : ℕ} (hm : s.main = .firing index)
    (hs : s.mainStep = some s') : Inv work s' := by
  rw [State.eq_at hm] at h hs
  obtain ⟨hcalls, hle, hnil⟩ := h.counted
  dsimp only [State.mainStep] at hs
  split at hs
  next hlt =>
    cases hs
    refine ⟨fits_update h.fits ?_ fun j hj => ?_, ⟨hcalls, hlt, hnil⟩, h.nodup, h.fin, ?_⟩
    · have hi := h.fits ⟨index, hlt⟩
      dsimp only [State.stage] at hi ⊢
      rw [if_neg (Nat.lt_irrefl index)] at hi
      rw [if_pos (Nat.lt_succ_self index)]
      exact hi.fire
    · have hne : (j : ℕ) ≠ index := fun heq => hj (Fin.ext heq)
      have : (j : ℕ) < index + 1 ↔ (j : ℕ) < index := by omega
      simp only [State.stage, this]
    · intro j _ hf hw
      obtain ⟨hfin, hthr⟩ := s.setControl_flag
        (c := { s.controls ⟨index, hlt⟩ with fire := (s.controls ⟨index, hlt⟩).fire + 1 }) rfl rfl j
      exact h.signalled j trivial (hfin.symm.trans hf) (hthr.symm.trans hw)
  next hge =>
    cases hs
    refine ⟨fun i => ?_, ⟨hcalls, by rw [hnil]; rfl, by omega⟩, h.nodup, h.fin, h.signalled⟩
    have hi := h.fits i
    dsimp only [State.stage] at hi ⊢
    rw [if_pos (by omega)] at hi
    rw [hnil]
    exact hi

variable {completed : ℕ}

theorem Inv.waiting (h : Inv work s) (hm : s.main = .waiting completed)
    (hs : s.mainStep = some s') :
    Inv work s' := by
  rw [State.eq_at hm] at h hs
  obtain ⟨hcalls, hlen, -⟩ := h.counted
  dsimp only [State.mainStep] at hs
  split at hs
  · cases hs
  · cases hs
    exact ⟨h.fits, ⟨hcalls, hlen, Nat.zero_le n⟩, h.nodup, h.fin, fun j hp =>
      absurd hp (Nat.not_lt_zero _)⟩

theorem Inv.mem_helped (h : Inv work s) (hlen : n ≤ s.helped.length) (i : Fin n) :
    i ∈ s.helped := by
  have hcard : s.helped.toFinset = Finset.univ := by
    refine Finset.eq_univ_of_card _ (le_antisymm (Finset.card_le_univ _) ?_)
    rw [toFinset_card_of_nodup h.nodup, Fintype.card_fin]
    exact hlen
  exact mem_toFinset.1 (hcard ▸ Finset.mem_univ i)

theorem Inv.scanning (h : Inv work s) {index : ℕ} (hm : s.main = .scanning index completed)
    (hs : s.mainStep = some s') : Inv work s' := by
  rw [State.eq_at hm] at h hs
  obtain ⟨hcalls, hlen, hle⟩ := h.counted
  have hlen : s.helped.length = completed := hlen
  have hfits : ∀ i, Fits (work i) s.returns (s.given i) (if i ∈ s.helped then .taken else .pending)
    (s.controls i) := h.fits
  have hflag : ∀ i ∈ s.helped, (s.controls i).finished = false := fun i hi =>
    (hfits i).finished_eq (by rw [if_pos hi]; nofun)
  dsimp only [State.mainStep] at hs
  split at hs
  next hlt =>
    split at hs
    next hfin =>
      -- the flag is set, so the worker is pending
      have hnot : (⟨index, hlt⟩ : Fin n) ∉ s.helped := fun hin => by
        cases (hflag _ hin).symm.trans hfin
      cases hs
      refine ⟨fits_update h.fits ?_ fun j hj => if_neg hj, ⟨hcalls, hlen, hnot⟩, h.nodup, h.fin,
        fun j hp hf hw => ?_⟩
      · have hi := hfits ⟨index, hlt⟩
        rw [if_neg hnot] at hi
        dsimp only [State.stage]
        rw [if_pos rfl]
        exact hi.take hfin
      · have hj : j ≠ ⟨index, hlt⟩ := fun heq => absurd hp (by subst heq; exact lt_irrefl _)
        dsimp only [State.setControl] at hf hw
        rw [Function.update_of_ne hj] at hf hw
        exact h.signalled j hp hf hw
    next hfin =>
      cases hs
      refine ⟨h.fits, ⟨hcalls, hlen, hlt⟩, h.nodup, h.fin, fun j hp hf hw => h.signalled j ?_ hf hw⟩
      have hj : (j : ℕ) ≠ index := by
        rintro rfl
        exact hfin hf
      exact lt_of_le_of_ne (Nat.lt_succ_iff.1 hp) hj
  next hge =>
    split at hs
    next hmore =>
      cases hs
      refine ⟨h.fits, ⟨hcalls, hlen, .inl hmore⟩, h.nodup, h.fin, fun j _ => h.signalled j ?_⟩
      show (j : ℕ) < index
      omega
    next hdone =>
      have hall := h.mem_helped (by dsimp only; omega)
      cases hs
      refine ⟨fun i => ?_, ⟨hcalls, fun _ => ?_⟩, h.nodup, h.fin, fun j _ hf => ?_⟩
      · have hi := hfits i
        rw [if_pos (hall i)] at hi
        exact hi.ret
      · have hcard := List.Nodup.length_le_card h.nodup
        rw [Fintype.card_fin] at hcard
        exact le_antisymm hcard (by dsimp only; omega)
      · cases (hflag j (hall j)).symm.trans hf

theorem Inv.helping (h : Inv work s) {index : Fin n} (hm : s.main = .helping index completed)
    (hs : s.mainStep = some s') : Inv work s' := by
  rw [State.eq_at hm] at h hs
  obtain ⟨hcalls, hlen, hnot⟩ := h.counted
  cases hs
  have hi := h.fits index
  dsimp only [State.stage] at hi
  rw [if_pos rfl] at hi
  obtain ⟨hfrag, htaken⟩ := hi.help (s.helper index s.fin (s.controls index).frag).2
  have hmem : index ∈ s.helped ++ [index] := mem_append_right _ (mem_singleton_self index)
  refine ⟨fits_update h.fits ?_ fun j hj => ?_, ⟨hcalls, ?_, hmem⟩,
    nodup_append_comm.2 (nodup_cons.2 ⟨hnot, h.nodup⟩), ?_, fun j hp hf hw => ?_⟩
  · dsimp only [State.stage]
    rw [if_pos hmem]
    exact htaken
  · simp [State.stage, hj]
  · rw [length_append, hlen]
    rfl
  · dsimp only [State.setControl]
    rw [foldl_append, ← h.fin, hfrag]
    rfl
  · obtain ⟨hfin, hthr⟩ := s.setControl_flag
      (c := { s.controls index with frag := (s.helper index s.fin (s.controls index).frag).2 })
        rfl rfl j
    exact h.signalled j hp (hfin.symm.trans hf) (hthr.symm.trans hw)

theorem Inv.clearing (h : Inv work s) {index : Fin n} (hm : s.main = .clearing index completed)
    (hs : s.mainStep = some s') : Inv work s' := by
  rw [State.eq_at hm] at h hs
  obtain ⟨hcalls, hlen, hin⟩ := h.counted
  cases hs
  have hi := h.fits index
  dsimp only [State.stage] at hi
  rw [if_pos hin] at hi
  refine ⟨fits_update h.fits ?_ fun j _ => rfl, ⟨hcalls, hlen, index.isLt⟩, h.nodup, h.fin,
    fun j hp hf hw => ?_⟩
  · dsimp only [State.stage, State.setControl]
    rw [if_pos hin]
    exact hi.clear
  · obtain ⟨hfin, hthr⟩ := s.setControl_flag (c := { s.controls index with data := none }) rfl rfl j
    have hset : (s.controls j).finished = true := hfin.symm.trans hf
    refine h.signalled j (lt_of_le_of_ne (Nat.lt_succ_iff.1 hp) fun heq => ?_) hset
      (hthr.symm.trans hw)
    obtain rfl := heq
    cases (hi.finished_eq nofun).symm.trans hset

theorem Inv.step (h : Inv work s) {a : Action n D R F} (hs : s.step work a = some s') :
    Inv work s' := by
  cases a with
  | set i data frag =>
    dsimp only [State.step] at hs
    split at hs
    next hm =>
      cases hs
      exact h.set hm i data frag
    · cases hs
  | call fin helper =>
    dsimp only [State.step] at hs
    split at hs
    next hm =>
      cases hs
      exact h.call hm fin helper
    · cases hs
  | main =>
    have hs : s.mainStep = some s' := hs
    cases hm : s.main with
    | caller =>
      rw [State.mainStep, hm] at hs
      cases hs
    | firing index => exact h.firing hm hs
    | waiting completed => exact h.waiting hm hs
    | scanning index completed => exact h.scanning hm hs
    | helping index completed => exact h.helping hm hs
    | clearing index completed => exact h.clearing hm hs
  | worker i =>
    obtain ⟨⟨c, posts⟩, hc, rfl⟩ := Option.map_eq_some_iff.1 hs
    exact h.worker hc

end

/-! ## What holds of every run -/

section
variable {work : Fin n → Option D → R → R} {frag : Fin n → R} {fin : F} {s : State n D R F}

theorem inv_reached (h : (pool work frag fin).Reached (fun _ _ => True) s) : Inv work s :=
  h.invariant (inv_init frag fin) fun _ _ _ h _ hs => h.step hs

/-- The main thread cannot take a step, and neither can any worker. -/
def State.Stuck (work : Fin n → Option D → R → R) (s : State n D R F) : Prop :=
  s.step work .main = none ∧ ∀ i, s.step work (.worker i) = none

/-- **No wake-up is lost.**  While an invocation runs, some thread can take a step. -/
theorem not_stuck (h : (pool work frag fin).Reached (fun _ _ => True) s) (hn : 0 < n)
    (hm : s.main ≠ .caller) : ¬ s.Stuck work := by
  rintro ⟨hmain, hworkers⟩
  have hinv := inv_reached h
  have hmain : s.mainStep = none := hmain
  have hc := hinv.counted
  cases hmeq : s.main with
  | caller => exact hm hmeq
  | firing index =>
    rw [State.mainStep, hmeq] at hmain
    dsimp only at hmain
    split at hmain <;> cases hmain
  | scanning index completed =>
    rw [State.mainStep, hmeq] at hmain
    dsimp only at hmain
    split at hmain
    · split at hmain <;> cases hmain
    · split at hmain <;> cases hmain
  | helping | clearing =>
    rw [State.mainStep, hmeq] at hmain
    cases hmain
  | waiting completed =>
    rw [State.Counted, hmeq] at hc
    -- one of the workers has not been taken
    obtain ⟨i, hi⟩ : ∃ i, i ∉ s.helped := by
      by_contra hall
      have hall : ∀ i, i ∈ s.helped := fun i => by_contra fun hno => hall ⟨i, hno⟩
      have hsub := (nodup_finRange n).subperm fun i _ => hall i
      have := hsub.length_le
      rw [length_finRange] at this
      omega
    have hfits := hinv.fits i
    rw [State.stage, hmeq] at hfits
    rw [if_neg hi] at hfits
    obtain ⟨hf, hw⟩ := hfits.pending_stuck (Option.map_eq_none_iff.1 (hworkers i))
    have hdone := hinv.signalled i (by rw [State.Passed, hmeq]; trivial) hf hw
    rw [State.mainStep, hmeq] at hmain
    dsimp only at hmain
    rw [if_neg (by omega)] at hmain
    cases hmain

/-- The main thread waits for the second worker, with the semaphore down. -/
theorem not_stuck_waiting : ∃ s : State 2 ℕ ℕ ℕ, s.main = .waiting 1 ∧ s.done = 0 ∧ s.helped = [0] ∧
    ¬ s.Stuck fun _ _ r => r :=
  ⟨_, rfl, rfl, rfl, not_stuck (System.Reached.init.exec (S := pool (fun _ _ r => r) (fun _ => 0) 0)
    (P := fun _ _ => True) (l := .call 0 (fun _ f r => (f, r)) :: .replicate 3 .main ++
      .replicate 5 (.worker 0) ++ .replicate 6 .main) rfl) (by decide) nofun⟩

/-- **The worker pool is synchronized.**  In every state the threads reach, whatever their order:
    * each worker has finished its work for every invocation that has returned;
    * when an invocation has returned, the helper was called once for each worker, in some order,
      with what the worker made of the data and the fragment it was given for this invocation;
    * no worker has started more often than there were invocations, of which at most one has not
      returned, and the one at work is at work on what it was given for that one;
    * the main thread is not left waiting with every worker idle and a flag set. -/
theorem pool_synchronized (h : (pool work frag fin).Reached (fun _ _ => True) s) :
    (∀ i, s.returns ≤ (s.controls i).works) ∧
    (s.main = .caller → 0 < s.calls → s.helped.Perm (List.finRange n) ∧ s.fin = s.helped.foldl
        (fun fin i => (s.helper i fin (work i (s.given i).1 (s.given i).2)).1) s.fin₀) ∧
    ((∀ i, (s.controls i).starts ≤ s.calls) ∧
      s.calls = s.returns + (if s.main = .caller then 0 else 1) ∧
      ∀ i d, (s.controls i).thread = .working d →
        s.main ≠ .caller ∧ (s.controls i).starts = s.calls ∧ d = (s.given i).1) ∧
    ¬ ((∃ completed, s.main = .waiting completed) ∧ s.done = 0 ∧
      (∀ i, (s.controls i).thread = .waiting ∧ (s.controls i).fire = 0) ∧
      ∃ i, (s.controls i).finished = true) := by
  have hinv := inv_reached h
  have hcalls : s.calls = s.returns + (if s.main = .caller then 0 else 1) := by
    have hc := hinv.counted
    rw [State.Counted] at hc
    split at hc
    all_goals
      next hm =>
        rw [hm]
        exact hc.1
  refine ⟨fun i => (hinv.fits i).counts.1, fun hm hpos => ⟨?_, hinv.fin⟩,
    ⟨fun i => ?_, hcalls, ?_⟩, ?_⟩
  · have hc := hinv.counted
    rw [State.Counted, hm] at hc
    refine (perm_ext_iff_of_nodup hinv.nodup (nodup_finRange n)).2 fun i => ?_
    exact ⟨fun _ => mem_finRange i, fun _ => hinv.mem_helped (hc.2 hpos).ge i⟩
  · have hcount := (hinv.fits i).counts.2.2
    by_cases hm : s.main = .caller
    · have hfits := hinv.fits i
      rw [State.stage, hm] at hfits
      rw [hcalls, if_pos hm]
      cases hc : s.controls i with
      | _ =>
        rw [hc] at hfits
        cases hfits
        exact le_rfl
    · rw [hcalls, if_neg hm]
      exact hcount
  · intro i d hd
    obtain ⟨hst, hgiven, hstarts⟩ := (hinv.fits i).of_working hd
    have hm : s.main ≠ .caller := by
      intro hm
      rw [State.stage, hm] at hst
      cases hst
    refine ⟨hm, ?_, hgiven⟩
    rw [hcalls, if_neg hm, hstarts]
  · rintro ⟨⟨completed, hm⟩, hdone, hidle, i, hf⟩
    have := hinv.signalled i (by rw [State.Passed, hm]; trivial) hf (hidle i).1
    omega

end

/-! Two workers, the second of which is taken before it posts the completion semaphore. -/

private def twoWorkers : List (Action 2 ℕ ℕ ℕ) :=
  [.set 0 (some 1) 0, .set 1 (some 2) 0, .call 10 fun _ fin r => (fin + r, 0), .main, .main, .main,
    .worker 0, .worker 1, .worker 0, .worker 1, .worker 0, .worker 1, .worker 0, .worker 1,
      .worker 0,
    .main, .main, .main, .main, .main, .main, .main, .main]

theorem pool_synchronized_two : ∃ s : State 2 ℕ ℕ ℕ,
    (pool (fun _ d r => d.getD 0 + r) (fun _ => 0) 0).Reached (fun _ _ => True) s ∧
      s.main = .caller ∧ s.calls = 1 ∧ s.fin = 13 ∧ s.helped.Perm (List.finRange 2) := by
  have hreached := System.Reached.exec (S := pool (fun _ (d : Option ℕ) r => d.getD 0 + r)
    (fun _ => 0) (0 : ℕ)) (P := fun _ _ => True) (l := twoWorkers) .init rfl
  exact ⟨_, hreached, rfl, rfl, rfl, ((pool_synchronized hreached).2.1 rfl (by decide)).1⟩

end Ovn.WorkerPool

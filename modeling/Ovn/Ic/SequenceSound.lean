/-
  When the sequence numbers of ovn-ic can be relied on.

  A zone raises its counter to a value only in a transaction for which it ran on an IC northbound
  database with at least that value, and the counters a zone has read were those of the others once.
  That fails for a run that had to leave work out because a transaction on the northbound or
  southbound database was missing, and it says nothing of a zone whose row was not there yet when
  the counters were read.
-/
import Ovn.Ic.Sequence
import Ovn.Lib.Maps

namespace Ovn.Ic

open Function (forall_update_iff update update_of_ne update_self)

variable {Z : Type*}

theorem State.Ran.mono {s : State Z} {z : Z} {n m : ℕ} (h : s.Ran z n) {ran : Z → List ℕ}
    (hran : ∀ z, s.ran z ⊆ ran z) (hm : m ≤ n) : ∃ v ∈ ran z, m ≤ v := by
  obtain ⟨v, hv, hn⟩ := h
  exact ⟨v, hran z hv, hm.trans hn⟩

section
variable (c : ℕ) (s : State Z)

structure Dbs : Prop where
  nbMono : ∀ i j, i ≤ j → j ≤ s.inb.last → (s.inb.version i).nbIcCfg ≤ (s.inb.version j).nbIcCfg
  nbLe : ∀ i ≤ s.inb.last, c ≤ (s.inb.version i).nbIcCfg
  rows : ∀ i ≤ s.isb.last, ∀ y v, (s.isb.version i).az y = some v → v = c ∨ s.Ran y v
  created : ∀ i j, i ≤ j → j ≤ s.isb.last →
    ∀ y, (s.isb.version i).az y = none → (s.isb.version j).az y ≠ none → s.Ran y c
  sb : ∀ i ≤ s.isb.last, (s.isb.version i).nbIcCfg = c ∨
    ∀ y, (s.isb.version i).az y ≠ none → s.Ran y c

/-- What holds of a transaction of a zone, for a zone that has seen `view`. -/
structure TxnOk (z : Z) (view : ℕ) (t : IsbTxn) : Prop where
  le : t.view ≤ view
  ge : c ≤ t.view
  complete : t.insert = true ∨ t.az ≠ .keep → t.complete = true
  counter : ∀ v, t.az ≠ .keep → t.row (s.row z) = some v → v ≤ t.view
  sb : ∀ m, t.nbIcCfg = some m → m = c ∨ ∀ y, s.row y ≠ none → s.Ran y c

structure ZoneOk (z : Z) (o : Zone) : Prop where
  inbLe : o.inb ≤ s.inb.last
  isbLe : o.isb ≤ s.isb.last
  curCfg : o.curCfg ≤ (s.inb.version o.inb).nbIcCfg
  nextCfg : o.nextCfg ≤ (s.inb.version o.inb).nbIcCfg
  counter : ∀ i ≤ s.isb.last, ∀ v, (s.isb.version i).az z = some v →
    v ≤ (s.inb.version o.inb).nbIcCfg
  sinceLe : o.since ≤ s.isb.last
  stable : ∀ j, o.since ≤ j → j ≤ s.isb.last → s.row z = (s.isb.version j).az z ∨ s.row z = none
  txn : ∀ t, o.isbLoop = .committing t → TxnOk c s z (s.inb.version o.inb).nbIcCfg t
  inbTxn : ∀ t, o.inbTxn = some t → t.read ≤ s.isb.last ∧
    ∀ n, t.sbIcCfg = some n → ∀ y, (s.isb.version t.read).az y ≠ none → s.Ran y n

structure Inv : Prop where
  dbs : Dbs c s
  zones : ∀ z, ZoneOk c s z (s.zones z)

end

variable {c : ℕ} {s s' : State Z}

theorem nbIcCfg_init (cfg : Option ℕ) : (⟨cfg.map fun n => ⟨n, n⟩⟩ : Inb).nbIcCfg = cfg.getD 0 := by
  cases cfg <;> rfl

theorem inv_init [Fintype Z] [DecidableEq Z] (cfg : Option ℕ) (present : Z → Bool) :
    Inv (cfg.getD 0) (.init cfg present) where
  dbs :=
    { nbMono := fun _ _ _ _ => le_rfl
      nbLe := fun _ _ => (nbIcCfg_init cfg).ge
      rows := by
        intro i _ y v hv
        change (if present y then some (cfg.getD 0) else none) = some v at hv
        split at hv
        · exact .inl (Option.some.inj hv).symm
        · cases hv
      created := fun _ _ _ _ _ h h' => absurd h h'
      sb := fun _ _ => .inl rfl }
  zones z :=
    { inbLe := le_rfl
      isbLe := le_rfl
      curCfg := Nat.zero_le _
      nextCfg := Nat.zero_le _
      counter := by
        intro i _ v hv
        change (if present z then some (cfg.getD 0) else none) = some v at hv
        split at hv
        · exact (Option.some.inj hv).ge.trans (nbIcCfg_init cfg).ge
        · cases hv
      sinceLe := le_rfl
      stable := fun _ _ _ => .inl rfl
      txn := by
        intro t ht
        cases ht
      inbTxn := by
        intro t ht
        cases ht }

/-! ## The databases -/

theorem Inv.pushInb (h : Inv c s) {inb : Inb} (hnb : s.inb.current.nbIcCfg ≤ inb.nbIcCfg) :
    Inv c { s with inb := s.inb.push inb } where
  dbs :=
    { nbMono := by
        refine History.forall_push_le (P := fun a b : Inb => a.nbIcCfg ≤ b.nbIcCfg) h.dbs.nbMono
          ?_ le_rfl
        exact fun i hi => (h.dbs.nbMono i s.inb.last hi le_rfl).trans hnb
      nbLe := History.forall_push (P := fun a : Inb => c ≤ a.nbIcCfg) h.dbs.nbLe
        ((h.dbs.nbLe _ le_rfl).trans hnb)
      rows := h.dbs.rows
      created := h.dbs.created
      sb := h.dbs.sb }
  zones z := by
    have hz := h.zones z
    have hview : ((s.inb.push inb).version (s.zones z).inb).nbIcCfg
        = (s.inb.version (s.zones z).inb).nbIcCfg := by
      rw [History.version_push hz.inbLe]
    refine ⟨hz.inbLe.trans (Nat.le_succ _), hz.isbLe, ?_, ?_, ?_, hz.sinceLe, hz.stable, ?_,
      hz.inbTxn⟩
    · exact hview ▸ hz.curCfg
    · exact hview ▸ hz.nextCfg
    · exact hview ▸ hz.counter
    · intro t ht
      obtain ⟨h1, h2, h3, h4, h5⟩ := hz.txn t ht
      exact ⟨hview ▸ h1, h2, h3, h4, h5⟩

section
variable (isb : Isb Z) {ran : Z → List ℕ}

theorem Dbs.pushIsb (h : Dbs c s) (hran : ∀ z, s.ran z ⊆ ran z)
    (hrows : ∀ y v, isb.az y = some v → s.row y = some v ∨ v = c ∨ ∃ w ∈ ran y, v ≤ w)
    (hnew : ∀ y, s.row y = none → isb.az y ≠ none → ∃ w ∈ ran y, c ≤ w)
    (hsb : isb.nbIcCfg = s.isb.current.nbIcCfg ∨ isb.nbIcCfg = c ∨ ∀ y, s.row y ≠ none →
      s.Ran y c) :
    Dbs c { s with isb := s.isb.push isb, ran := ran } :=
  { h with
    rows := by
      refine History.forall_push (P := fun b : Isb Z => ∀ y v, b.az y = some v →
        v = c ∨ ∃ w ∈ ran y, v ≤ w) ?_ ?_
      · exact fun i hi y v hv => (h.rows i hi y v hv).imp_right fun hr => hr.mono hran le_rfl
      · intro y v hv
        rcases hrows y v hv with hold | hcase
        · exact (h.rows s.isb.last le_rfl y v hold).imp_right fun hr => hr.mono hran le_rfl
        · exact hcase
    created := by
      refine History.forall_push_le (P := fun a b : Isb Z => ∀ y, a.az y = none → b.az y ≠ none →
        ∃ w ∈ ran y, c ≤ w) ?_ ?_ fun _ h h' => absurd h h'
      · exact fun i j hij hj y h1 h2 => (h.created i j hij hj y h1 h2).mono hran le_rfl
      · intro i hi y h1 h2
        by_cases hrow : s.row y = none
        · exact hnew y hrow h2
        · exact (h.created i s.isb.last hi le_rfl y h1 hrow).mono hran le_rfl
    sb := by
      refine History.forall_push (P := fun b : Isb Z => b.nbIcCfg = c ∨ ∀ y, b.az y ≠ none →
        ∃ w ∈ ran y, c ≤ w) ?_ ?_
      · exact fun i hi => (h.sb i hi).imp_right fun hall y hy => (hall y hy).mono hran le_rfl
      · have hrest : (∀ y, s.row y ≠ none → s.Ran y c) →
            ∀ y, isb.az y ≠ none → ∃ w ∈ ran y, c ≤ w := by
          intro hall y hy
          by_cases hrow : s.row y = none
          · exact hnew y hrow hy
          · exact (hall y hrow).mono hran le_rfl
        rcases hsb with hsame | hc | hall
        · rcases h.sb s.isb.last le_rfl with hc | hall
          · exact .inl (hsame.trans hc)
          · exact .inr (hrest hall)
        · exact .inl hc
        · exact .inr (hrest hall) }

theorem ZoneOk.pushIsb {z : Z} {o : Zone} (h : ZoneOk c s z o) (hran : ∀ z, s.ran z ⊆ ran z)
    (hrow : isb.az z = s.row z ∨ isb.az z = none)
    (hnew : ∀ y, s.row y = none → isb.az y ≠ none → ∃ w ∈ ran y, c ≤ w) :
    ZoneOk c { s with isb := s.isb.push isb, ran := ran } z o :=
  { h with
    isbLe := h.isbLe.trans (Nat.le_succ _)
    counter := by
      refine History.forall_push (P := fun b : Isb Z => ∀ v, b.az z = some v →
        v ≤ (s.inb.version o.inb).nbIcCfg) h.counter fun v hv => ?_
      rcases hrow with hrow | hrow
      · exact h.counter s.isb.last le_rfl v (hrow.symm.trans hv)
      · rw [hrow] at hv
        cases hv
    sinceLe := h.sinceLe.trans (Nat.le_succ _)
    stable := by
      intro j hj hle
      change (s.isb.push isb).current.az z = _ ∨ (s.isb.push isb).current.az z = none
      rw [History.current_push]
      rcases Nat.lt_or_eq_of_le hle with hlt | rfl
      · have hle : j ≤ s.isb.last := Nat.lt_succ_iff.1 hlt
        rw [History.version_push hle]
        rcases hrow with hrow | hrow
        · rw [hrow]
          exact h.stable j hj hle
        · exact .inr hrow
      · exact .inl (congrArg (Isb.az · z) (History.version_push_last isb).symm)
    txn := by
      intro t ht
      obtain ⟨h1, h2, h3, h4, h5⟩ := h.txn t ht
      have hcur : (s.isb.push isb).current = isb := History.current_push isb
      refine ⟨h1, h2, h3, fun v hk hv => ?_, fun m hm => ?_⟩
      · change t.row ((s.isb.push isb).current.az z) = some v at hv
        rw [hcur] at hv
        rcases hrow with hrow | hrow
        · rw [hrow] at hv
          exact h4 v hk hv
        -- without a row there is nothing to write, unless it is created
        rw [hrow] at hv
        refine h4 v hk ?_
        unfold IsbTxn.row at hv ⊢
        cases hins : t.insert with
        | true =>
          rw [hins] at hv
          exact hv
        | false =>
          rw [hins] at hv
          cases haz : t.az with
          | _ =>
            rw [haz] at hv
            cases hv
      · refine (h5 m hm).imp_right fun hall y hy => ?_
        change (s.isb.push isb).current.az y ≠ none at hy
        rw [hcur] at hy
        by_cases hrow : s.row y = none
        · exact hnew y hrow hy
        · exact (hall y hrow).mono hran le_rfl
    inbTxn := by
      intro t ht
      obtain ⟨hle, hall⟩ := h.inbTxn t ht
      refine ⟨hle.trans (Nat.le_succ _), fun n hn y hy => ?_⟩
      rw [History.version_push hle] at hy
      exact (hall n hn y hy).mono hran le_rfl }

end

/-! ## The zones -/

theorem Dbs.ran_of_equal (h : Dbs c s) {j n : ℕ} (hj : j ≤ s.isb.last)
    (hsb : n ≠ (s.isb.version j).nbIcCfg) (hall : ∀ y v, (s.isb.version j).az y = some v → v = n)
    {y : Z} (hy : (s.isb.version j).az y ≠ none) : s.Ran y n := by
  obtain ⟨v, hv⟩ := Option.ne_none_iff_exists'.1 hy
  obtain rfl := hall y v hv
  rcases h.rows j hj y v hv with rfl | hran
  · exact (h.sb j hj).resolve_left hsb.symm y hy
  · exact hran

theorem TxnOk.mono {z : Z} {view view' : ℕ} {t : IsbTxn} (h : TxnOk c s z view t)
    (hle : view ≤ view') : TxnOk c s z view' t :=
  ⟨h.le.trans hle, h.ge, h.complete, h.counter, h.sb⟩

theorem Inv.setZone [DecidableEq Z] (h : Inv c s) {z : Z} {o : Zone} (ho : ZoneOk c s z o) :
    Inv c (s.setZone z o) where
  dbs := { h.dbs with }
  zones y := by
    have hy := (forall_update_iff s.zones (ZoneOk c s)).2 ⟨ho, fun y _ => h.zones y⟩ y
    exact { hy with txn := fun t ht => { hy.txn t ht with } }

section
variable [Fintype Z] {z : Z} {o : Zone}

/-- What `update_sequence_numbers` writes: a counter that is not above `nb_ic_cfg`, or the counter
    that all zones have. -/
theorem updateSequenceNumbers_cases (nb az cur : ℕ) (isb : Isb Z) :
    (updateSequenceNumbers nb isb az cur = ⟨.increment (az = LLONG_MAX), some nb, none⟩ ∧ nb ≠ az) ∨
    updateSequenceNumbers nb isb az cur = ⟨.set cur, none, none⟩ ∨
    (updateSequenceNumbers nb isb az cur = ⟨.keep, none, some az⟩ ∧ nb = az ∧ nb ≠ isb.nbIcCfg ∧
      ∀ y v, isb.az y = some v → v = az) ∨
    updateSequenceNumbers nb isb az cur = ⟨.keep, none, none⟩ := by
  unfold updateSequenceNumbers
  split
  next h => exact .inl ⟨rfl, h.2⟩
  next hfirst =>
    split
    · exact .inr (.inl rfl)
    split
    · exact .inr (.inr (.inr rfl))
    next hall =>
      split
      next hne =>
        refine .inr (.inr (.inl ⟨rfl, ?_, hne, fun y v hv => ?_⟩))
        · omega
        · by_contra hv'
          exact hall ⟨y, by rw [hv, Option.any_some, decide_eq_true_iff]; exact hv'⟩
      · exact .inr (.inr (.inr rfl))

theorem Zone.writes_cases (o : Zone) (z : Z) (inb : Inb) (isb : Isb Z) (avail : Avail) :
    let upd := (o.writes z inb isb avail).2
    let az := (isb.az z).getD 0
    (upd = ⟨.increment (az = LLONG_MAX), some inb.nbIcCfg, none⟩ ∧ inb.nbIcCfg ≠ az) ∨
    upd = ⟨.set o.curCfg, none, none⟩ ∨
    (upd = ⟨.keep, none, some az⟩ ∧ inb.nbIcCfg = az ∧ inb.nbIcCfg ≠ isb.nbIcCfg ∧
      ∀ y v, isb.az y = some v → v = az) ∨
    upd = ⟨.keep, none, none⟩ := by
  dsimp only [Zone.writes]
  split
  · exact updateSequenceNumbers_cases ..
  · exact .inr (.inr (.inr rfl))

section
variable {i j : ℕ}

omit [Fintype Z] in
theorem ZoneOk.az_le (hd : Dbs c s) (h : ZoneOk c s z o) (hi : o.inb ≤ i) (hi' : i ≤ s.inb.last)
    (hj' : j ≤ s.isb.last) : ((s.isb.version j).az z).getD 0 ≤ (s.inb.version i).nbIcCfg := by
  cases hrow : (s.isb.version j).az z with
  | none => exact Nat.zero_le _
  | some v => exact (h.counter j hj' v hrow).trans (hd.nbMono _ _ hi hi')

omit [Fintype Z] in
theorem ZoneOk.row_read (h : ZoneOk c s z o) (hj : o.since ≤ j) (hj' : j ≤ s.isb.last) :
    (if ((s.isb.version j).az z).isNone = true then some 0 else s.row z)
        = some (((s.isb.version j).az z).getD 0) ∨
      (if ((s.isb.version j).az z).isNone = true then some 0 else s.row z) = none := by
  cases hread : (s.isb.version j).az z with
  | none => exact .inl rfl
  | some k =>
    rcases h.stable j hj hj' with hs | hs
    · exact .inl (hs.trans hread)
    · exact .inr hs

variable {avail : Avail} {w : IsbTxn × Update}

theorem ZoneOk.writes_done (hd : Dbs c s) (hi' : i ≤ s.inb.last) (hj' : j ≤ s.isb.last) {n : ℕ}
    (hw : o.writes z (s.inb.version i) (s.isb.version j) avail = w) (hn : w.2.done = some n) :
    c ≤ n ∧ ∀ y, (s.isb.version j).az y ≠ none → s.Ran y n := by
  subst hw
  rcases o.writes_cases z (s.inb.version i) (s.isb.version j) avail with
    ⟨hu, -⟩ | hu | ⟨hu, hnb, hsb, hall⟩ | hu
  · rw [hu] at hn
    cases hn
  · rw [hu] at hn
    cases hn
  · rw [hu] at hn
    obtain rfl := Option.some.inj hn
    have hc := hd.nbLe i hi'
    rw [hnb] at hsb hc
    exact ⟨hc, fun y hy => hd.ran_of_equal hj' hsb hall hy⟩
  · rw [hu] at hn
    cases hn

section
variable (hd : Dbs c s) (h : ZoneOk c s z o) (hi : o.inb ≤ i) (hi' : i ≤ s.inb.last)
    (hj : o.since ≤ j)
  (hj' : j ≤ s.isb.last) (hw : o.writes z (s.inb.version i) (s.isb.version j) avail = w)
include hd h hi hi' hj hj' hw

theorem ZoneOk.writes_counter {v : ℕ} (hk : w.1.az ≠ .keep) (hv : w.1.row (s.row z) = some v) :
    v ≤ (s.inb.version i).nbIcCfg := by
  have haz := h.az_le hd hi hi' hj'
  have hop : w.1.az = w.2.az := by rw [← hw]; rfl
  have hins : w.1.insert = ((s.isb.version j).az z).isNone := by rw [← hw]; rfl
  rw [IsbTxn.row, hop, hins] at hv
  rw [hop] at hk
  rw [← hw] at hk hv
  rcases o.writes_cases z (s.inb.version i) (s.isb.version j) avail with
    ⟨hu, hne⟩ | hu | ⟨hu, -⟩ | hu
  · rw [hu] at hv
    rcases h.row_read hj hj' with hrow | hrow
    · rw [hrow] at hv
      rw [← Option.some.inj hv]
      dsimp only
      split
      next hmax => omega
      · omega
    · rw [hrow] at hv
      cases hv
  · rw [hu] at hv
    rcases h.row_read hj hj' with hrow | hrow
    · rw [hrow] at hv
      obtain rfl := Option.some.inj hv
      exact h.curCfg.trans (hd.nbMono _ _ hi hi')
    · rw [hrow] at hv
      cases hv
  · rw [hu] at hk
    exact absurd rfl hk
  · rw [hu] at hk
    exact absurd rfl hk

theorem ZoneOk.writes_ok
    (hcomplete : w.1.insert = true ∨ w.1.az ≠ .keep → avail.nbTxn = true ∧ avail.sbTxn = true) :
    TxnOk c s z (s.inb.version i).nbIcCfg w.1 where
  le := hw ▸ le_rfl
  ge := hw ▸ hd.nbLe i hi'
  complete h := by
    have := Bool.and_eq_true_iff.2 (hcomplete h)
    rw [← hw]
    exact this
  counter v hk hv := (h.writes_counter hd hi hi' hj hj' hw hk hv).trans (hw ▸ le_rfl)
  sb m hm := by
    have hm : w.2.done = some m := by
      rw [← hw] at hm ⊢
      exact hm
    obtain ⟨hcm, hall⟩ := ZoneOk.writes_done hd hi' hj' hw hm
    refine .inr fun y hy => ?_
    by_cases hrow : (s.isb.version j).az y = none
    · exact hd.created j s.isb.last hj' le_rfl y hrow hy
    · exact (hall y hrow).mono (fun _ => List.Subset.refl _) hcm

end

theorem Zone.since_of_idle (h : o.isbLoop = .idle) : o.since = o.isb := by
  rw [Zone.since, h]

theorem ZoneOk.iterate (hd : Dbs c s) (h : ZoneOk c s z o) (hi : o.inb ≤ i) (hi' : i ≤ s.inb.last)
    (hj : o.isb ≤ j) (hj' : j ≤ s.isb.last)
    (hw : o.writes z (s.inb.version i) (s.isb.version j) avail = w)
    (hcomplete : avail.isbTxn = true →
      w.1.insert = true ∨ w.1.az ≠ .keep → avail.nbTxn = true ∧ avail.sbTxn = true) :
    ZoneOk c s z (o.iterate z i j (s.inb.version i) (s.isb.version j) avail) := by
  set o' := o.iterate z i j (s.inb.version i) (s.isb.version j) avail
  have hview := hd.nbMono _ _ hi hi'
  have hnext : w.2.nextCfg.getD o.nextCfg ≤ (s.inb.version i).nbIcCfg := by
    rw [← hw]
    rcases o.writes_cases z (s.inb.version i) (s.isb.version j) avail with
      ⟨hu, -⟩ | hu | ⟨hu, -⟩ | hu
    · rw [hu]
      exact le_rfl
    all_goals
      rw [hu]
      exact h.nextCfg.trans hview
  -- either there is a new transaction, or the loop is as it was
  have hloop : o'.isbLoop = .committing w.1 ∧ avail.isbTxn = true ∧ o.isbLoop = .idle ∨
      o'.isbLoop = o.isbLoop := by
    dsimp only [o', Zone.iterate]
    rw [hw]
    split
    next hw => exact .inl ⟨rfl, hw.1⟩
    · exact .inr rfl
  have hsince : o.since ≤ o'.since ∧ o'.since ≤ s.isb.last := by
    rcases hloop with ⟨hl, -, hidle⟩ | hl
    · rw [Zone.since_of_idle hidle, Zone.since, hl]
      exact ⟨hj, hj'⟩
    have hle := h.sinceLe
    rw [Zone.since] at hle
    rw [Zone.since, Zone.since, hl]
    cases hcase : o.isbLoop with
    | committed version | down version =>
      rw [hcase] at hle
      exact ⟨le_rfl, hle⟩
    | _ => exact ⟨hj, hj'⟩
  refine ⟨hi', hj', ?_, ?_, fun k hk v hv => (h.counter k hk v hv).trans hview, hsince.2,
    fun k hk hk' => h.stable k (hsince.1.trans hk) hk', fun t ht => ?_, fun t ht => ?_⟩
  · dsimp only [o', Zone.iterate]
    rw [hw]
    split
    · exact hnext
    · exact h.curCfg.trans hview
  · dsimp only [o', Zone.iterate]
    rwa [hw]
  · rcases hloop with ⟨hl, htxn, hidle⟩ | hl
    · rw [hl] at ht
      cases ht
      exact h.writes_ok hd hi hi' (by rw [Zone.since_of_idle hidle]; exact hj) hj'
        hw (hcomplete htxn)
    · rw [hl] at ht
      exact (h.txn t ht).mono hview
  · dsimp only [o', Zone.iterate] at ht
    rw [hw] at ht
    split at ht
    · cases ht
      exact ⟨hj', fun n hn => (ZoneOk.writes_done hd hi' hj' hw hn).2⟩
    · exact h.inbTxn t ht

end

end

/-! ## The steps -/

section
variable [DecidableEq Z] {z : Z}

theorem Inv.remove (h : Inv c s) (z : Z) : Inv c { s with
      isb := s.isb.push ⟨s.isb.current.global, update s.isb.current.az z none⟩ } := by
  have hrow : ∀ y, update s.isb.current.az z none y = s.row y ∨
      update s.isb.current.az z none y = none := update_eq_or_none _ z
  have hnew : ∀ y, s.row y = none → update s.isb.current.az z none y ≠ none →
      ∃ w ∈ s.ran y, c ≤ w := fun y h1 h2 => absurd ((hrow y).elim (·.trans h1) id) h2
  refine ⟨h.dbs.pushIsb _ (fun _ => List.Subset.refl _) (fun y v hv => ?_) hnew (.inl rfl),
    fun y => (h.zones y).pushIsb _ (fun _ => List.Subset.refl _) (hrow y) hnew⟩
  rcases hrow y with hy | hy
  · exact .inl (hy.symm.trans hv)
  · cases hv.symm.trans hy

omit [DecidableEq Z] in
/-- The counter in the global row is as it was, or what the transaction sets it to. -/
theorem IsbTxn.nbIcCfg_global (t : IsbTxn) {isb : Isb Z}
    (h : ¬ (t.insertGlobal = true ∧ isb.global.isSome = true)) (az : Z → Option ℕ) :
    (⟨t.global isb.global, az⟩ : Isb Z).nbIcCfg = isb.nbIcCfg ∨
      ∃ m, t.nbIcCfg = some m ∧ (⟨t.global isb.global, az⟩ : Isb Z).nbIcCfg = m := by
  unfold Isb.nbIcCfg IsbTxn.global
  cases hg : isb.global <;> cases hm : t.nbIcCfg <;> cases hi : t.insertGlobal <;> simp_all

theorem InbTxn.nbIcCfg_global (t : InbTxn) {inb : Inb}
    (h : ¬ (t.insert = true ∧ inb.global.isSome = true)) :
    (⟨t.global inb.global⟩ : Inb).nbIcCfg = inb.nbIcCfg := by
  unfold Inb.nbIcCfg InbTxn.global
  cases hg : inb.global <;> cases hi : t.insert <;> simp_all

theorem Inv.commitIsb (h : Inv c s) {t : IsbTxn} (ht : (s.zones z).isbLoop = .committing t)
    {ran : Z → List ℕ}
    (hran : ran = if t.complete then update s.ran z (t.view :: s.ran z) else s.ran) {isb : Isb Z}
    (hisb : isb = ⟨t.global s.isb.current.global, update s.isb.current.az z (t.row (s.row z))⟩)
    (hglobal : ¬ (t.insertGlobal = true ∧ s.isb.current.global.isSome = true)) :
    Inv c { s.setZone z { s.zones z with isbLoop := .committed (s.isb.last + 1) } with
      isb := s.isb.push isb
      ran := ran } := by
  have hz := h.zones z
  have hok := hz.txn t ht
  have haz : isb.az z = t.row (s.row z) := by
    rw [hisb]
    exact update_self ..
  have hother : ∀ y ≠ z, isb.az y = s.row y := by
    intro y hy
    rw [hisb]
    exact update_of_ne hy _ _
  have hsub : ∀ y, s.ran y ⊆ ran y := by
    intro y
    rw [hran]
    split
    · exact (forall_update_iff s.ran fun y l => s.ran y ⊆ l).2
        ⟨List.subset_cons_self _ _, fun _ _ => List.Subset.refl _⟩ y
    · exact List.Subset.refl _
  have hself : t.insert = true ∨ t.az ≠ .keep → t.view ∈ ran z := by
    intro hw
    rw [hran, if_pos (hok.complete hw), update_self]
    exact List.mem_cons_self
  -- a transaction that writes neither the row nor the counter leaves it as it is
  have hkeep : t.insert = false → t.az = .keep → t.row (s.row z) = s.row z := by
    intro h1 h2
    rw [IsbTxn.row, h1, h2]
    rfl
  have hwritten : ∀ v, isb.az z = some v → s.row z = some v ∨ v ≤ t.view ∧ t.view ∈ ran z := by
    intro v hv
    rw [haz] at hv
    by_cases hk : t.az = .keep
    · cases hins : t.insert with
      | false => exact .inl ((hkeep hins hk).symm.trans hv)
      | true =>
        rw [IsbTxn.row, hins, hk] at hv
        obtain rfl := Option.some.inj hv
        exact .inr ⟨Nat.zero_le _, hself (.inl hins)⟩
    · exact .inr ⟨hok.counter v hk hv, hself (.inr hk)⟩
  have hnew : ∀ y, s.row y = none → isb.az y ≠ none → ∃ w ∈ ran y, c ≤ w := by
    intro y h1 h2
    by_cases hy : y = z
    · subst hy
      obtain ⟨v, hv⟩ := Option.ne_none_iff_exists'.1 h2
      rcases hwritten v hv with hold | ⟨-, hmem⟩
      · rw [h1] at hold
        cases hold
      · exact ⟨_, hmem, hok.ge⟩
    · exact absurd ((hother y hy).trans h1) h2
  have hdbs := h.dbs.pushIsb isb hsub
    (by
      intro y v hv
      by_cases hy : y = z
      · subst hy
        exact (hwritten v hv).imp_right fun hw => .inr ⟨_, hw.2, hw.1⟩
      · exact .inl ((hother y hy).symm.trans hv))
    hnew
    (by
      rcases t.nbIcCfg_global hglobal (update s.isb.current.az z (t.row (s.row z)))
        with hsame | ⟨m, hm, hsb⟩
      · exact .inl (hisb ▸ hsame)
      · exact .inr ((hok.sb m hm).imp_left (hisb ▸ hsb.trans ·)))
  refine ⟨{ hdbs with }, fun y => ?_⟩
  by_cases hy : y = z
  · subst hy
    have hzone : (s.setZone y { s.zones y with isbLoop := .committed (s.isb.last + 1) }).zones y
        = { s.zones y with isbLoop := .committed (s.isb.last + 1) } := update_self ..
    rw [hzone]
    refine ⟨hz.inbLe, hz.isbLe.trans (Nat.le_succ _), hz.curCfg, hz.nextCfg, ?_, le_rfl, ?_, ?_, ?_⟩
    · refine History.forall_push (P := fun b : Isb Z => ∀ v, b.az y = some v →
        v ≤ (s.inb.version (s.zones y).inb).nbIcCfg) hz.counter fun v hv => ?_
      rcases hwritten v hv with hold | ⟨hle, -⟩
      · exact hz.counter s.isb.last le_rfl v hold
      · exact hle.trans hok.le
    · intro j hj hj'
      obtain rfl := le_antisymm hj' hj
      exact .inl rfl
    · intro t' ht'
      cases ht'
    · intro t' ht'
      obtain ⟨hle, hall⟩ := hz.inbTxn t' ht'
      refine ⟨hle.trans (Nat.le_succ _), fun n hn x hx => ?_⟩
      rw [History.version_push hle] at hx
      exact (hall n hn x hx).mono hsub le_rfl
  · have hzone : (s.setZone z { s.zones z with isbLoop := .committed (s.isb.last + 1) }).zones y
        = s.zones y := update_of_ne hy _ _
    rw [hzone]
    have hzy := (h.zones y).pushIsb isb hsub (.inl (hother y hy)) hnew
    exact { hzy with txn := fun t ht => { hzy.txn t ht with } }

omit [DecidableEq Z] in
theorem ZoneOk.finish {o : Zone} (h : ZoneOk c s z o) {cur isb : ℕ}
    (hcur : cur = o.curCfg ∨ cur = o.nextCfg) (hisb : isb ≤ s.isb.last) (hsince : o.since ≤ isb) :
    ZoneOk c s z { o with isbLoop := .idle, curCfg := cur, isb := isb } :=
  { h with
    isbLe := hisb
    curCfg := by
      rcases hcur with rfl | rfl
      · exact h.curCfg
      · exact h.nextCfg
    sinceLe := hisb
    stable j hj hj' := h.stable j (hsince.trans hj) hj'
    txn := fun t ht => by cases ht }

omit [DecidableEq Z] in
/-- The copy is brought up to the version that the zone is to have. -/
theorem ZoneOk.catchUp {o : Zone} (h : ZoneOk c s z o) {cur version : ℕ}
    (hcur : cur = o.curCfg ∨ cur = o.nextCfg) (hv : o.since = version) :
    ZoneOk c s z { o with isbLoop := .idle, curCfg := cur, isb := max o.isb version } :=
  h.finish hcur (max_le h.isbLe (hv ▸ h.sinceLe)) (hv ▸ le_max_right _ _)

omit [DecidableEq Z] in
theorem ZoneOk.clearInbTxn {o : Zone} (h : ZoneOk c s z o) :
    ZoneOk c s z { o with inbTxn := none } :=
  { h with inbTxn := fun t ht => by cases ht }

end

section
variable [Fintype Z] [DecidableEq Z]

/-- The condition on a step: `nb_ic_cfg` does not wrap; a zone that creates its row or writes its
    counter has transactions on its northbound and southbound databases; and when `sb_ic_cfg` is
    set, there is no zone of which the row was missing when the counters were compared. -/
def Careful (s : State Z) : Action Z → Prop
  | .user wait => wait = true → s.inb.current.nbIcCfg ≠ LLONG_MAX
  | .iterate z i j avail =>
    let t := ((s.zones z).writes z (s.inb.version i) (s.isb.version j) avail).1
    avail.isbTxn = true → t.insert = true ∨ t.az ≠ .keep → avail.nbTxn = true ∧ avail.sbTxn = true
  | .commitInb z true =>
    ∀ t, (s.zones z).inbTxn = some t → t.sbIcCfg ≠ none →
      ∀ y, s.row y ≠ none → (s.isb.version t.read).az y ≠ none
  | _ => True

theorem Inv.step (h : Inv c s) {a : Action Z} (ha : Careful s a) (hs : s.step a = some s') :
    Inv c s' := by
  cases a with
  | user wait =>
    dsimp only [State.step] at hs
    split at hs
    next hrow =>
      split at hs
      · cases hs
      · cases hs
        exact h.pushInb (by rw [Inb.nbIcCfg, hrow]; exact le_rfl)
    next row hrow =>
      cases hs
      have hnb : s.inb.current.nbIcCfg = row.nbIcCfg := by rw [Inb.nbIcCfg, hrow]; rfl
      split
      next hwait =>
        have hmax : row.nbIcCfg ≠ LLONG_MAX := hnb ▸ ha hwait
        rw [if_neg hmax]
        exact h.pushInb (hnb ▸ Nat.le_succ _)
      · exact h
  | remove z =>
    cases hs
    exact h.remove z
  | iterate z i j avail =>
    dsimp only [State.step] at hs
    split at hs
    next hguard =>
      obtain ⟨hi, hi', hj, hj', -⟩ := hguard
      cases hs
      exact h.setZone ((h.zones z).iterate h.dbs hi hi' hj hj' rfl ha)
    · cases hs
  | commitIsb z ok =>
    dsimp only [State.step] at hs
    split at hs
    next t ht =>
      split at hs
      · split at hs
        · cases hs
        next hfree =>
          cases hs
          exact h.commitIsb ht rfl rfl (not_or.1 hfree).2
      · cases hs
        have hz := h.zones z
        refine h.setZone (hz.finish (.inl rfl) hz.isbLe ?_)
        rw [Zone.since, ht]
    · cases hs
  | replyIsb z =>
    dsimp only [State.step] at hs
    split at hs
    next version hv =>
      cases hs
      exact h.setZone ((h.zones z).catchUp (.inr rfl) (by rw [Zone.since, hv]))
    · cases hs
  | disconnect z =>
    cases hs
    have hz := h.zones z
    exact h.setZone { hz with txn := fun t ht => by cases ht }
  | reconnect z =>
    dsimp only [State.step] at hs
    split at hs
    next version hv =>
      cases hs
      exact h.setZone ((h.zones z).catchUp (.inl rfl) (by rw [Zone.since, hv]))
    · cases hs
  | commitInb z ok =>
    dsimp only [State.step] at hs
    split at hs
    · cases hs
    next t ht =>
      have hset := h.setZone (h.zones z).clearInbTxn
      split at hs
      · split at hs
        · cases hs
        next hfree =>
          cases hs
          exact hset.pushInb (t.nbIcCfg_global hfree).ge
      · cases hs
        exact hset

theorem inv_reached {cfg : Option ℕ} {present : Z → Bool}
    (h : (zones cfg present).Reached Careful s) :
    Inv (cfg.getD 0) s :=
  h.invariant (inv_init cfg present) fun _ _ _ h ha hs => h.step ha hs

/-- **The sequence numbers are sound** in every run of careful steps: whenever `sb_ic_cfg` is set to
    `n`, every zone with a row has committed a complete run on an IC northbound database with
    `nb_ic_cfg` at least `n`. -/
theorem sequence_sound {cfg : Option ℕ} {present : Z → Bool}
    (h : (zones cfg present).Reached Careful s) {a : Action Z} (ha : Careful s a) : Sound s a := by
  rintro z t n rfl ht hn y hy
  exact (((inv_reached h).zones z).inbTxn t ht).2 n hn y (ha t ht (by simp [hn]) y hy)

end

/-! Two zones with all their transactions, on databases without global rows.  The reply to the first
    of them is lost, and the other one sets `sb_ic_cfg`. -/

private def allTxns : Avail := ⟨true, true, true, true, true⟩

theorem sequence_sound_two : ∃ s : State (Fin 2),
    (zones none fun _ => true).Reached Careful s ∧ (s.zones 1).inbTxn = some ⟨false, some 1, 2⟩ ∧
      Sound s (.commitInb 1 true) := by
  have hfull : ∀ (s : State (Fin 2)) z i j, Careful s (.iterate z i j allTxns) :=
    fun _ _ _ _ _ _ => ⟨rfl, rfl⟩
  have huser (s : State (Fin 2)) (h : s.inb.current.nbIcCfg = 0) : Careful s (.user true) := by
    intro _
    rw [h]
    decide
  have h₁ := System.Reached.init.step (S := zones (Z := Fin 2) none fun _ => true) (P := Careful)
    (a := Action.user false) nofun rfl
  have h₂ := h₁.step (huser _ rfl) rfl
  have h₃ := (h₂.step (hfull _ 0 2 0) rfl).step (a := Action.commitIsb 0 true) True.intro rfl
  have h₄ := (h₃.step (a := Action.disconnect 0) True.intro rfl).step (a := Action.reconnect 0)
    True.intro rfl
  have h₅ := (h₄.step (hfull _ 1 2 1) rfl).step (a := Action.commitIsb 1 true) True.intro rfl
  have h₆ := (h₅.step (a := Action.replyIsb 1) True.intro rfl).step (hfull _ 1 2 2) rfl
  refine ⟨_, h₆, rfl, sequence_sound h₆ fun t ht _ y _ => ?_⟩
  cases ht
  revert y
  decide

/-! One zone, without a transaction on its northbound database: it raises its counter all the
    same. -/

private def noNbTxn : Avail := ⟨false, true, true, true, false⟩

private def skippedWork : List (Action (Fin 1)) :=
  [.user true, .iterate 0 1 0 noNbTxn, .commitIsb 0 true, .replyIsb 0, .iterate 0 1 1 noNbTxn]

/-- **`sb_ic_cfg` is set, and no run was complete.** -/
theorem not_sequence_sound : ∃ s : State (Fin 1),
    (zones (some 0) fun _ => true).Reached (fun _ _ => True) s ∧ ¬ Sound s (.commitInb 0 true) := by
  have hreached := System.Reached.exec (S := zones (Z := Fin 1) (some 0) fun _ => true)
    (P := fun _ _ => True) (l := skippedWork) .init rfl
  refine ⟨_, hreached, fun h => ?_⟩
  obtain ⟨v, hv, -⟩ := h 0 ⟨false, some 1, 1⟩ 1 rfl rfl rfl 0 (Option.some_ne_none 1)
  cases hv

end Ovn.Ic

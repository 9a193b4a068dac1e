/-
  The links between desired and installed flows.

  An installed flow is linked to the desired flows with its key, those that drop before those of
  conjunctions and those that do neither before both; two of conjunctions are never among them.
-/
import Ovn.Ofctrl.FlowFrame

namespace Ovn.FlowTable

open Function (update update_apply update_eq_self_iff update_of_ne update_self)
open List

variable {μ α : Type}

/-! ## Preference -/

/-- The class of a flow, the most preferred first: allow, drop, conjunction. -/
def OvnFlow.rank (f : OvnFlow μ α) : ℕ := if f.hasAllow then 0 else if f.hasDrop then 1 else 2

theorem OvnFlow.hasConj_iff (f : OvnFlow μ α) : f.hasConj = true ↔ f.rank = 2 := by
  unfold OvnFlow.rank OvnFlow.hasAllow OvnFlow.hasDrop
  cases hc : f.hasConj with
  | true =>
    -- a flow with a conjunction has actions
    have hne : f.ofpacts.isEmpty = false := by
      unfold OvnFlow.hasConj at hc
      cases hf : f.ofpacts with
      | nil =>
        rw [hf] at hc
        cases hc
      | cons a as => rfl
    simp [hne]
  | false => cases f.ofpacts.isEmpty <;> simp

theorem OvnFlow.rank_congr {f g : OvnFlow μ α} (h : f.ofpacts = g.ofpacts) : f.rank = g.rank := by
  unfold OvnFlow.rank OvnFlow.hasAllow OvnFlow.hasDrop OvnFlow.hasConj
  rw [h]

/-- A flow is preferred over those of the classes behind; of two conjunctions neither is. -/
theorem flowIsPreferred_eq (a b : OvnFlow μ α) : flowIsPreferred a b =
    if a.rank = 2 ∧ b.rank = 2 then .error .notReached else .ok (decide (a.rank < b.rank)) := by
  unfold flowIsPreferred OvnFlow.rank
  cases a.hasAllow <;> cases b.hasAllow <;> cases a.hasDrop <;> cases b.hasDrop <;> rfl

/-- `a` can stand before `b` in the list of an installed flow. -/
def OvnFlow.Ahead (a b : OvnFlow μ α) : Prop := a.rank ≤ b.rank ∧ ¬ (a.rank = 2 ∧ b.rank = 2)

namespace Core

variable {c : Core μ α}

theorem insertPreferred_cons (f g : ℕ) (gs : List ℕ) :
    c.insertPreferred (c.desired f).toOvnFlow f (g :: gs) =
      if (c.desired f).rank = 2 ∧ (c.desired g).rank = 2 then .error .notReached
      else if (c.desired f).rank < (c.desired g).rank then .ok (f :: g :: gs)
      else (c.insertPreferred (c.desired f).toOvnFlow f gs).map (g :: ·) := by
  rw [insertPreferred, flowIsPreferred_eq]
  by_cases hc : (c.desired f).rank = 2 ∧ (c.desired g).rank = 2
  · rw [if_pos hc, if_pos hc]
  · rw [if_neg hc, if_neg hc]
    by_cases hlt : (c.desired f).rank < (c.desired g).rank <;> simp [hlt]

theorem insertPreferred_ok {f : ℕ} : ∀ {l l' : List ℕ},
    c.insertPreferred (c.desired f).toOvnFlow f l = .ok l' →
    l.Pairwise (fun a b => (c.desired a).toOvnFlow.Ahead (c.desired b).toOvnFlow) →
    l'.Perm (f :: l) ∧
    l'.Pairwise (fun a b => (c.desired a).toOvnFlow.Ahead (c.desired b).toOvnFlow)
  | [], l', h, _ => by
    cases h
    exact ⟨List.Perm.refl _, pairwise_singleton _ _⟩
  | g :: gs, l', h, hs => by
    rw [insertPreferred_cons] at h
    obtain ⟨hg, hgs⟩ := pairwise_cons.1 hs
    split_ifs at h with hc hlt
    · cases h
      refine ⟨List.Perm.refl _, pairwise_cons.2 ⟨fun b hb => ?_, hs⟩⟩
      have hfg : (c.desired f).rank < (c.desired b).rank := by
        rcases mem_cons.1 hb with rfl | hb
        · exact hlt
        · exact Nat.lt_of_lt_of_le hlt (hg b hb).1
      exact ⟨Nat.le_of_lt hfg, fun h2 => absurd hfg (by rw [h2.1, h2.2]; exact Nat.lt_irrefl 2)⟩
    · cases hrec : c.insertPreferred (c.desired f).toOvnFlow f gs with
      | error e =>
        rw [hrec] at h
        cases h
      | ok gs' =>
        rw [hrec] at h
        cases h
        obtain ⟨hperm, hs'⟩ := insertPreferred_ok hrec hgs
        refine ⟨(hperm.cons g).trans (List.Perm.swap f g gs), pairwise_cons.2 ⟨fun b hb => ?_, hs'⟩⟩
        rcases mem_cons.1 (hperm.mem_iff.1 hb) with rfl | hb
        · exact ⟨Nat.le_of_not_lt hlt, fun h2 => hc ⟨h2.2, h2.1⟩⟩
        · exact hg b hb

/-- It fails only for two flows of conjunctions. -/
theorem insertPreferred_error {f : ℕ} {e : Fail} : ∀ {l : List ℕ},
    c.insertPreferred (c.desired f).toOvnFlow f l = .error e →
    e = .notReached ∧ (c.desired f).hasConj = true ∧ ∃ g ∈ l, (c.desired g).hasConj = true
  | g :: gs, h => by
    rw [insertPreferred_cons] at h
    split_ifs at h with hc hlt
    · cases h
      exact ⟨rfl, (OvnFlow.hasConj_iff _).2 hc.1, g, mem_cons_self, (OvnFlow.hasConj_iff _).2 hc.2⟩
    · cases hrec : c.insertPreferred (c.desired f).toOvnFlow f gs with
      | error e' =>
        rw [hrec] at h
        cases h
        obtain ⟨he, hf, g', hg', hconj⟩ := insertPreferred_error hrec
        exact ⟨he, hf, g', mem_cons_of_mem g hg', hconj⟩
      | ok gs' =>
        rw [hrec] at h
        cases h

/-! ## Links -/

/-- Only links have changed, to these. -/
structure Rewired (c c' : Core μ α) (refs : ℕ → List ℕ) (link : ℕ → Option ℕ) : Prop where
  same : c.Same c'
  trackedFlows : c'.trackedFlows = c.trackedFlows
  installedFlows : c'.installedFlows = c.installedFlows
  nextInstalled : c'.nextInstalled = c.nextInstalled
  msgs : c'.msgs = c.msgs
  flow : ∀ i, (c'.installed i).toOvnFlow = (c.installed i).toOvnFlow
  refs : ∀ i, (c'.installed i).desiredRefs = refs i
  link : ∀ d, (c'.desired d).installedFlow = link d

def refsOf (c : Core μ α) (i : ℕ) : List ℕ := (c.installed i).desiredRefs

def linkOf (c : Core μ α) (d : ℕ) : Option ℕ := (c.desired d).installedFlow

theorem rewired_setInstalled (i : ℕ) (refs : List ℕ) :
    c.Rewired (c.setInstalled i fun x => { x with desiredRefs := refs }) (update c.refsOf i refs)
      c.linkOf := by
  refine ⟨same_setInstalled c i _, rfl, rfl, rfl, rfl, fun j => ?_, fun j => ?_, fun _ => rfl⟩
  · by_cases hj : j = i <;> simp [setInstalled, hj]
  · by_cases hj : j = i <;> simp [setInstalled, hj, refsOf]

theorem Rewired.setLink {c' : Core μ α} {refs : ℕ → List ℕ} {link : ℕ → Option ℕ}
    (h : c.Rewired c' refs link) (d : ℕ) (i : Option ℕ) :
    c.Rewired (c'.setDesired d fun x => { x with installedFlow := i }) refs (update link d i) :=
  { h with
    same := h.same.trans (same_setLink c' d i)
    link := fun e => by by_cases he : e = d <;> simp [setDesired, he, h.link] }

theorem linkInstalledToDesired_ok {i f : ℕ} {c' : Core μ α}
    (h : c.linkInstalledToDesired i f = .ok c') :
    ∃ refs, c.insertPreferred (c.desired f).toOvnFlow f (c.refsOf i) = .ok refs ∧
      c.Rewired c' (update c.refsOf i refs) (update c.linkOf f (some i)) := by
  unfold linkInstalledToDesired at h
  split at h
  · cases h
  next refs hrefs =>
    cases h
    exact ⟨refs, hrefs, (rewired_setInstalled i refs).setLink f (some i)⟩

theorem unlinkInstalledToDesired_rewired {i d : ℕ} (h : c.linkOf d = some i) :
    ∃ c', c.unlinkInstalledToDesired i d = .ok c' ∧
      c.Rewired c' (update c.refsOf i ((c.refsOf i).filter (· ≠ d))) (update c.linkOf d none) :=
  ⟨_, if_neg (not_not.2 h), (rewired_setInstalled i _).setLink d none⟩

theorem replaceInstalledToDesired_rewired {i old new : ℕ} (h : c.linkOf old = some i) :
    ∃ c', c.replaceInstalledToDesired i old new = .ok c' ∧
      c.Rewired c' (update c.refsOf i ((c.refsOf i).map fun d => if d = old then new else d))
        (update (update c.linkOf old none) new (some i)) :=
  ⟨_, if_neg (not_not.2 h), ((rewired_setInstalled i _).setLink old none).setLink new (some i)⟩

/-! ## The invariant -/

/-- The links are in order.  Where `peaceful` holds, there is one flow of conjunctions for a key at
    most, and a deleted one comes before the one that takes its place. -/
structure Wired (peaceful : Prop) (c : Core μ α) : Prop where
  linked : ∀ i ∈ c.installedFlows, ∀ d ∈ c.refsOf i, c.linkOf d = some i ∧
    (c.desired d).key = (c.installed i).key ∧
    (d ∈ c.matchFlowTable ∨ d ∈ c.trackedFlows ∧ (c.desired d).isDeleted = true)
  listed : ∀ d, d ∈ c.matchFlowTable ∨ d ∈ c.trackedFlows → ∀ i, c.linkOf d = some i →
    i ∈ c.installedFlows ∧ d ∈ c.refsOf i
  sorted : ∀ i ∈ c.installedFlows, (c.refsOf i).Pairwise fun a b =>
    (c.desired a).toOvnFlow.Ahead (c.desired b).toOvnFlow
  keys : ∀ i ∈ c.installedFlows, ∀ j ∈ c.installedFlows, (c.installed i).key = (c.installed j).key →
    i = j
  present : ∀ f ∈ c.trackedFlows, (c.desired f).isDeleted = false → f ∈ c.matchFlowTable
  kept : ∀ f ∈ c.matchFlowTable, (c.desired f).isDeleted = false
  freshFlows : ∀ f, f ∈ c.matchFlowTable ∨ f ∈ c.trackedFlows → f < c.nextFlow
  freshInstalled : ∀ i ∈ c.installedFlows, i < c.nextInstalled
  nodupMatch : c.matchFlowTable.Nodup
  nodupTracked : c.trackedFlows.Nodup
  nodupInstalled : c.installedFlows.Nodup
  unique : peaceful → ∀ d ∈ c.matchFlowTable, ∀ e ∈ c.matchFlowTable, (c.desired d).hasConj = true →
    (c.desired e).hasConj = true → (c.desired d).key = (c.desired e).key → d = e
  order : peaceful → c.trackedFlows.Pairwise fun a b => (c.desired a).isDeleted = false →
    (c.desired b).isDeleted = true → (c.desired a).hasConj = true → (c.desired b).hasConj = true →
    (c.desired a).key ≠ (c.desired b).key

section
variable {peaceful : Prop} {c' : Core μ α}
variable {i d : ℕ}

theorem Wired.alive (h : c.Wired peaceful) (hi : i ∈ c.installedFlows) (hd : d ∈ c.refsOf i) :
    d ∈ c.matchFlowTable ∨ d ∈ c.trackedFlows :=
  (h.linked i hi d hd).2.2.imp_right fun ht => ht.1

/-- Lists and links that are in order, in place of those of the flows. -/
structure Links (c : Core μ α) (refs : ℕ → List ℕ) (link : ℕ → Option ℕ) : Prop where
  linked : ∀ i ∈ c.installedFlows, ∀ d ∈ refs i, link d = some i ∧
    (c.desired d).key = (c.installed i).key ∧
    (d ∈ c.matchFlowTable ∨ d ∈ c.trackedFlows ∧ (c.desired d).isDeleted = true)
  listed : ∀ d, d ∈ c.matchFlowTable ∨ d ∈ c.trackedFlows → ∀ i, link d = some i →
    i ∈ c.installedFlows ∧ d ∈ refs i
  sorted : ∀ i ∈ c.installedFlows, (refs i).Pairwise fun a b =>
    (c.desired a).toOvnFlow.Ahead (c.desired b).toOvnFlow

theorem Wired.relinked (h : c.Wired peaceful) (hs : c.Same c')
    (ht : c'.trackedFlows = c.trackedFlows) (hinst : c'.installedFlows = c.installedFlows)
    (hnext : c'.nextInstalled = c.nextInstalled)
    (hkey : ∀ i, (c'.installed i).key = (c.installed i).key) (hl : c.Links c'.refsOf c'.linkOf) :
    c'.Wired peaceful := by
  constructor <;> simp only [hs.matchFlowTable, hs.nextFlow, hs.flow, hs.isDeleted, ht, hinst,
    hnext, hkey]
  exacts [hl.linked, hl.listed, hl.sorted, h.keys, h.present, h.kept, h.freshFlows,
    h.freshInstalled,
    h.nodupMatch, h.nodupTracked, h.nodupInstalled, h.unique, h.order]

theorem Wired.rewired {refs : ℕ → List ℕ} {link : ℕ → Option ℕ} (h : c.Wired peaceful)
    (hr : c.Rewired c' refs link) (hl : c.Links refs link) : c'.Wired peaceful := by
  have hrefs : c'.refsOf = refs := funext hr.refs
  have hlink : c'.linkOf = link := funext hr.link
  subst hrefs hlink
  exact h.relinked hr.same hr.trackedFlows hr.installedFlows hr.nextInstalled
    (fun i => congrArg OvnFlow.key (hr.flow i)) hl

theorem Wired.unlink (h : c.Wired peaceful) (hd : c.linkOf d = some i)
    (hr : c.Rewired c' (update c.refsOf i ((c.refsOf i).filter (· ≠ d))) (update c.linkOf d none)) :
    c'.Wired peaceful := by
  have hsub : ∀ {j e}, e ∈ update c.refsOf i ((c.refsOf i).filter (· ≠ d)) j →
      e ∈ c.refsOf j ∧ (j = i → e ≠ d) := by
    intro j e he
    rcases mem_update_iff.1 he with ⟨rfl, he⟩ | ⟨hj, he⟩
    · simpa using he
    · exact ⟨he, fun hji => absurd hji hj⟩
  refine h.rewired hr ⟨fun j hj e he => ?_, fun e he j hlink => ?_, fun j hj => ?_⟩
  · obtain ⟨he, hne⟩ := hsub he
    obtain ⟨hlink, hrest⟩ := h.linked j hj e he
    have hed : e ≠ d := by
      rintro rfl
      exact hne (Option.some_inj.1 (hlink.symm.trans hd)) rfl
    exact ⟨update_none_iff.2 ⟨hed, hlink⟩, hrest⟩
  · obtain ⟨hed, hlink⟩ := update_none_iff.1 hlink
    obtain ⟨hj, hin⟩ := h.listed e he j hlink
    refine ⟨hj, mem_update hin ?_⟩
    rintro rfl
    simpa using ⟨hin, hed⟩
  · rw [update_apply]
    split
    next he => exact he ▸ (h.sorted j hj).filter _
    · exact h.sorted j hj

variable {f : ℕ}

section
variable (h : c.Wired peaceful)
include h

theorem Wired.ne_of_linkOf (hnone : c.linkOf f = none) {j : ℕ}
    (hj : j ∈ c.installedFlows) (hd : d ∈ c.refsOf j) : d ≠ f := by
  rintro rfl
  cases hnone.symm.trans (h.linked j hj d hd).1

theorem Wired.link {refs : List ℕ} (hf : f ∈ c.matchFlowTable)
    (hnone : c.linkOf f = none) (hi : i ∈ c.installedFlows)
    (hkey : (c.desired f).key = (c.installed i).key)
    (hok : c.insertPreferred (c.desired f).toOvnFlow f (c.refsOf i) = .ok refs)
    (hr : c.Rewired c' (update c.refsOf i refs) (update c.linkOf f (some i))) :
    c'.Wired peaceful := by
  obtain ⟨hperm, hsorted⟩ := insertPreferred_ok hok (h.sorted i hi)
  have hold : ∀ j ∈ c.installedFlows, ∀ d ∈ c.refsOf j,
      update c.linkOf f (some i) d = some j ∧ _ := fun j hj d hd =>
    ⟨(update_of_ne (h.ne_of_linkOf hnone hj hd) ..).trans (h.linked j hj d hd).1,
      (h.linked j hj d hd).2⟩
  refine h.rewired hr ⟨fun j hj d hd => ?_, fun d hd j hlink => ?_, fun j hj => ?_⟩
  · rcases mem_update_iff.1 hd with ⟨rfl, hin⟩ | ⟨-, hin⟩
    · rcases mem_cons.1 (hperm.mem_iff.1 hin) with rfl | hin
      · exact ⟨update_self .., hkey, .inl hf⟩
      · exact hold j hj d hin
    · exact hold j hj d hin
  · rcases update_some_iff.1 hlink with ⟨rfl, rfl⟩ | ⟨-, hlink⟩
    · exact ⟨hi, mem_update_iff.2 (.inl ⟨rfl, hperm.mem_iff.2 mem_cons_self⟩)⟩
    · obtain ⟨hj, hin⟩ := h.listed d hd j hlink
      refine ⟨hj, mem_update hin ?_⟩
      rintro rfl
      exact hperm.mem_iff.2 (mem_cons_of_mem f hin)
  · rw [update_apply]
    split
    · exact hsorted
    · exact h.sorted j hj

theorem Wired.replace (hd : c.linkOf d = some i) (hi : i ∈ c.installedFlows)
    (hf : f ∈ c.matchFlowTable) (hnone : c.linkOf f = none)
    (hkey : (c.desired d).key = (c.desired f).key)
    (hacts : (c.desired d).ofpacts = (c.desired f).ofpacts) (hin : d ∈ c.refsOf i)
    (hr : c.Rewired c' (update c.refsOf i ((c.refsOf i).map fun e => if e = d then f else e))
      (update (update c.linkOf d none) f (some i)))
    : c'.Wired peaceful := by
  have hrank : (c.desired f).toOvnFlow.rank = (c.desired d).toOvnFlow.rank :=
    OvnFlow.rank_congr hacts.symm
  have hold : ∀ j ∈ c.installedFlows, ∀ e ∈ c.refsOf j, e ≠ d →
      update (update c.linkOf d none) f (some i) e = some j := by
    intro j hj e he hed
    rw [update_of_ne (h.ne_of_linkOf hnone hj he), update_of_ne hed]
    exact (h.linked j hj e he).1
  refine h.rewired hr ⟨fun j hj e he => ?_, fun e he j hlink => ?_, fun j hj => ?_⟩
  · rcases mem_update_iff.1 he with ⟨rfl, hmap⟩ | ⟨hji, hold'⟩
    · obtain ⟨e₀, he0, rfl⟩ := mem_map.1 hmap
      by_cases hed : e₀ = d
      · rw [if_pos hed, update_self, ← hkey]
        exact ⟨rfl, (h.linked j hj d hin).2.1, .inl hf⟩
      · rw [if_neg hed]
        exact ⟨hold j hj e₀ he0 hed, (h.linked j hj e₀ he0).2⟩
    · have hed : e ≠ d := by
        rintro rfl
        exact hji (Option.some_inj.1 ((h.linked j hj e hold').1.symm.trans hd))
      exact ⟨hold j hj e hold' hed, (h.linked j hj e hold').2⟩
  · rcases update_some_iff.1 hlink with ⟨rfl, rfl⟩ | ⟨-, hlink⟩
    · exact ⟨hi, mem_update_iff.2 (.inl ⟨rfl, mem_map.2 ⟨d, hin, if_pos rfl⟩⟩)⟩
    · obtain ⟨hed, hlink⟩ := update_none_iff.1 hlink
      obtain ⟨hj, hin'⟩ := h.listed e he j hlink
      refine ⟨hj, mem_update hin' ?_⟩
      rintro rfl
      exact mem_map.2 ⟨e, hin', if_neg hed⟩
  · rw [update_apply]
    split
    next hji =>
      subst hji
      rw [pairwise_map]
      refine (h.sorted j hj).imp fun {a b} hab => ?_
      have hcl : ∀ e, (c.desired (if e = d then f else e)).toOvnFlow.rank =
          (c.desired e).toOvnFlow.rank := by
        intro e
        by_cases he : e = d
        · rw [if_pos he, hrank, he]
        · rw [if_neg he]
      unfold OvnFlow.Ahead
      rw [hcl, hcl]
      exact hab
    · exact h.sorted j hj

/-! ## Changes of the table -/

theorem Wired.untrack (hf : (c.desired f).isDeleted = true → c.linkOf f = none) :
    (c.untrack f).Wired peaceful :=
  have hmem : ∀ {d}, d ∈ (c.untrack f).trackedFlows → d ∈ c.trackedFlows := mem_of_mem_filter
  { h with
    linked := fun i hi d hd => by
      obtain ⟨hlink, hkey, hin⟩ := h.linked i hi d hd
      refine ⟨hlink, hkey, hin.imp_right fun hin => ⟨mem_filter.2 ⟨hin.1, ?_⟩, hin.2⟩⟩
      rw [decide_eq_true_iff]
      rintro rfl
      rw [hf hin.2] at hlink
      cases hlink
    listed := fun d hd => h.listed d (hd.imp_right hmem)
    present := fun d hd => h.present d (hmem hd)
    freshFlows := fun d hd => h.freshFlows d (hd.imp_right hmem)
    nodupTracked := h.nodupTracked.filter _
    order := fun hp => (h.order hp).filter _ }

theorem Wired.trackAdd (hf : f ∈ c.matchFlowTable) : (c.trackFlowAddOrModify f).Wired peaceful := by
  unfold trackFlowAddOrModify
  split
  · exact h
  have hkept := h.kept f hf
  -- it is not marked as deleted, nor was it
  have hdesired : update c.desired f { c.desired f with isDeleted := false } = c.desired := by
    simp [← hkept]
  have hu := h.untrack fun hdel => absurd (hkept.symm.trans hdel) (by decide)
  have hc : ∀ c₁ : Core μ α, c₁ = c.untrack f → ({ c₁ with
      trackedFlows := c₁.trackedFlows ++ [f] } : Core μ α).Wired peaceful := by
    rintro _ rfl
    have halive : ∀ {d}, d ∈ (c.untrack f).trackedFlows ++ [f] →
        d ∈ c.matchFlowTable ∨ d ∈ (c.untrack f).trackedFlows := by
      intro d hd
      rcases mem_append.1 hd with hd | hd
      · exact .inr hd
      · exact .inl (mem_singleton.1 hd ▸ hf)
    refine { hu with
        linked := fun i hi d hd => ?_
        listed := fun d hd => hu.listed d (hd.elim .inl halive)
        present := fun d hd hdel => (halive hd).elim id fun hd => hu.present d hd hdel
        freshFlows := fun d hd => hu.freshFlows d (hd.elim .inl halive)
        nodupTracked := ?_
        order := fun hp => ?_ }
    · exact ⟨(hu.linked i hi d hd).1, (hu.linked i hi d hd).2.1, (hu.linked i hi d hd).2.2.imp_right
        fun hin => ⟨mem_append_left _ hin.1, hin.2⟩⟩
    · refine nodup_append_comm.2 (nodup_cons.2 ⟨fun hin => ?_, hu.nodupTracked⟩)
      simpa using (mem_filter.1 hin).2
    · refine pairwise_append.2 ⟨hu.order hp, pairwise_singleton _ _, fun a _ b hb => ?_⟩
      rw [mem_singleton.1 hb]
      exact fun _ hdel => absurd (hkept.symm.trans hdel) (by decide)
  refine hc ((c.untrack f).setDesired f fun x => { x with isDeleted := false }) ?_
  rw [setDesired, show (c.untrack f).desired = c.desired from rfl, hdesired]
  rfl

theorem Wired.dropMatch (hlink : c.linkOf f = none) (ht : f ∉ c.trackedFlows) :
    ({ c with matchFlowTable := c.matchFlowTable.filter (· ≠ f) } : Core μ α).Wired peaceful :=
  have hmem : ∀ {d}, d ∈ c.matchFlowTable.filter (· ≠ f) → d ∈ c.matchFlowTable := mem_of_mem_filter
  { h with
    linked := fun i hi d hd => by
      obtain ⟨hl, hkey, hin⟩ := h.linked i hi d hd
      refine ⟨hl, hkey, hin.imp_left fun hin => mem_filter.2 ⟨hin, ?_⟩⟩
      rw [decide_eq_true_iff]
      rintro rfl
      rw [hlink] at hl
      cases hl
    listed := fun d hd => h.listed d (hd.imp_left hmem)
    present := fun d hd hdel => mem_filter.2 ⟨h.present d hd hdel, by
      rw [decide_eq_true_iff]
      rintro rfl
      exact ht hd⟩
    kept := fun d hd => h.kept d (hmem hd)
    freshFlows := fun d hd => h.freshFlows d (hd.imp_left hmem)
    nodupMatch := h.nodupMatch.filter _
    unique := fun hp d hd e he => h.unique hp d (hmem hd) e (hmem he) }

theorem Wired.trackDel (hf : f ∈ c.matchFlowTable) : ({ c with
        matchFlowTable := c.matchFlowTable.filter (· ≠ f)
        desired := update c.desired f { c.desired f with isDeleted := true }
        trackedFlows := c.trackedFlows.filter (· ≠ f) ++ [f] } : Core μ α).Wired peaceful := by
  set new := update c.desired f { c.desired f with isDeleted := true }
  have hflow : ∀ d, (new d).toOvnFlow = (c.desired d).toOvnFlow ∧
      (new d).installedFlow = (c.desired d).installedFlow := by
    intro d
    by_cases hd : d = f <;> simp [new, hd]
  have hstays : ∀ d, d ≠ f → (new d).isDeleted = (c.desired d).isDeleted := fun d hd => by
    simp [new, hd]
  have hgone : (new f).isDeleted = true := by simp [new]
  have hmem : ∀ {l : List ℕ} {d}, d ∈ l.filter (· ≠ f) ↔ d ∈ l ∧ d ≠ f := by simp
  have htail : ∀ {d}, d ∈ c.trackedFlows.filter (· ≠ f) ++ [f] ↔
      (d ∈ c.trackedFlows ∧ d ≠ f) ∨ d = f := by simp
  have halive : ∀ {d}, (d ∈ c.matchFlowTable.filter (· ≠ f) ∨
      d ∈ c.trackedFlows.filter (· ≠ f) ++ [f]) → d ∈ c.matchFlowTable ∨ d ∈ c.trackedFlows := by
    intro d hd
    rcases hd with hd | hd
    · exact .inl (hmem.1 hd).1
    · rcases htail.1 hd with hd | rfl
      · exact .inr hd.1
      · exact .inl hf
  refine { h with
      linked := fun i hi d hd => ?_
      listed := fun d hd i hl => h.listed d (halive hd) i ((hflow d).2.symm.trans hl)
      sorted := fun i hi => ?_
      present := fun d hd hdel => ?_
      kept := fun d hd => (hstays d (hmem.1 hd).2).trans (h.kept d (hmem.1 hd).1)
      freshFlows := fun d hd => h.freshFlows d (halive hd)
      nodupMatch := h.nodupMatch.filter _
      nodupTracked := ?_
      unique := fun hp d hd e he => ?_
      order := fun hp => ?_ }
  · obtain ⟨hl, hkey, hin⟩ := h.linked i hi d hd
    refine ⟨(hflow d).2.trans hl, (congrArg OvnFlow.key (hflow d).1).trans hkey, ?_⟩
    by_cases hdf : d = f
    · exact .inr ⟨htail.2 (.inr hdf), hdf ▸ hgone⟩
    · simp_all
  · simp only [fun d => (hflow d).1]
    exact h.sorted i hi
  · rcases htail.1 hd with hd | rfl
    · exact hmem.2 ⟨h.present d hd.1 ((hstays d hd.2).symm.trans hdel), hd.2⟩
    · cases hgone.symm.trans hdel
  · refine nodup_append_comm.2 (nodup_cons.2 ⟨fun hin => ?_, h.nodupTracked.filter _⟩)
    exact (hmem.1 hin).2 rfl
  · simp only [fun d => (hflow d).1]
    exact h.unique hp d (hmem.1 hd).1 e (hmem.1 he).1
  · -- a flow of the same conjunction that is tracked would be in the table with this one
    simp only [fun d => (hflow d).1]
    refine pairwise_append.2 ⟨?_, pairwise_singleton _ _, fun a ha b hb => ?_⟩
    · refine ((h.order hp).filter _).imp_of_mem fun {a b} ha hb hab hda hdb => ?_
      exact hab ((hstays a (hmem.1 ha).2).symm.trans hda) ((hstays b (hmem.1 hb).2).symm.trans hdb)
    · rw [mem_singleton.1 hb]
      intro hdel _ hca hcf hkey
      have hda := (hstays a (hmem.1 ha).2).symm.trans hdel
      exact (hmem.1 ha).2 (h.unique hp a (h.present a (hmem.1 ha).1 hda) f hf hca hcf hkey)

omit h in
theorem desiredFlowDestroy_inv (h : c.desiredFlowDestroy f = .ok c') :
    c' = c ∧ c.linkOf f = none := by
  unfold desiredFlowDestroy at h
  split at h
  · cases h
  next hnone =>
    cases h
    exact ⟨rfl, not_not.1 hnone⟩

/-- Nothing is tracked where changes are not tracked. -/
def Quiet (c : Core μ α) : Prop := c.changeTracked = false → c.trackedFlows = []

theorem Wired.removeFlow (hq : c.Quiet) (hf : f ∈ c.matchFlowTable)
    (hok : c.removeFlow f = .ok c') : c'.Wired peaceful := by
  have hkept := h.kept f hf
  have hnodel : (c.desired f).isDeleted = true → c.linkOf f = none := fun hdel =>
    absurd (hkept.symm.trans hdel) (by decide)
  unfold Core.removeFlow trackOrDestroyForFlowDel at hok
  split at hok
  · unfold trackFlowDel at hok
    split at hok
    next hc =>
      -- not yet installed
      obtain ⟨rfl, -⟩ := desiredFlowDestroy_inv hok
      refine (h.untrack hnodel).dropMatch hc.2 fun hin => ?_
      simpa using (mem_filter.1 hin).2
    · cases hok
      exact h.trackDel hf
  next htrack =>
    have hnot : f ∉ c.trackedFlows := by simp [hq (Bool.eq_false_iff.2 htrack)]
    split at hok
    · rename_i hlink
      obtain ⟨rfl, -⟩ := desiredFlowDestroy_inv hok
      exact h.dropMatch hlink hnot
    · rename_i i hlink
      obtain ⟨c₁, hok1, hr⟩ := unlinkInstalledToDesired_rewired (c := c) hlink
      have hw := h.unlink hlink hr
      have hnone : c₁.linkOf f = none := (hr.link f).trans (update_self ..)
      have hd := hw.dropMatch hnone (hr.trackedFlows ▸ hnot)
      -- the match table is left alone by the unlinking
      have hcomm : ({ c with matchFlowTable := c.matchFlowTable.filter (· ≠ f) } :
          Core μ α).unlinkInstalledToDesired i f =
          .ok { c₁ with matchFlowTable := c₁.matchFlowTable.filter (· ≠ f) } := by
        have hc1 : c.unlinkInstalledToDesired i f = .ok _ := if_neg (not_not.2 hlink)
        rw [hok1] at hc1
        cases hc1
        exact if_neg (not_not.2 hlink)
      rw [hcomm] at hok
      obtain ⟨rfl, -⟩ := desiredFlowDestroy_inv hok
      exact hd

omit h in
theorem Quiet.removeFlow (hq : c.Quiet) (hok : c.removeFlow f = .ok c') : c'.Quiet := by
  unfold Core.removeFlow trackOrDestroyForFlowDel at hok
  split at hok
  next htrack =>
    unfold trackFlowDel at hok
    split at hok
    · obtain ⟨rfl, -⟩ := desiredFlowDestroy_inv hok
      exact fun hc => absurd (htrack.symm.trans hc) (by decide)
    · cases hok
      exact fun hc => absurd (htrack.symm.trans hc) (by decide)
  · split at hok
    · obtain ⟨rfl, -⟩ := desiredFlowDestroy_inv hok
      exact hq
    next i hlink =>
      obtain ⟨c₁, hok1, hr⟩ := unlinkInstalledToDesired_rewired hlink
      rw [hok1] at hok
      obtain ⟨rfl, -⟩ := desiredFlowDestroy_inv hok
      intro hc
      rw [hr.trackedFlows]
      exact hq (hr.same.changeTracked.symm.trans hc)

theorem Wired.insertFlow (flow : OvnFlow μ α)
    (hnew : peaceful → flow.hasConj = true → ∀ d ∈ c.matchFlowTable, (c.desired d).hasConj = true →
      (c.desired d).key ≠ flow.key) : (c.insertFlow flow).Wired peaceful := by
  have hold : ∀ d, d ∈ c.matchFlowTable ∨ d ∈ c.trackedFlows →
      (c.insertFlow flow).desired d = c.desired d := fun d hd =>
    update_of_ne (Nat.ne_of_lt (h.freshFlows d hd)) _ _
  have hself : (c.insertFlow flow).desired c.nextFlow = ⟨flow, none, false⟩ := update_self ..
  refine { h with
      linked := fun i hi d hd => ?_
      listed := fun d hd i hl => ?_
      sorted := fun i hi => ?_
      present := fun d hd hdel => ?_
      kept := fun d hd => ?_
      freshFlows := fun d hd => ?_
      nodupMatch := ?_
      unique := fun hp d hd e he => ?_
      order := fun hp => ?_ }
  · have hd' := h.linked i hi d hd
    rw [linkOf, hold d (h.alive hi hd)]
    exact ⟨hd'.1, hd'.2.1, hd'.2.2.imp_left fun hin => mem_cons_of_mem _ hin⟩
  · have hne : d ∈ c.matchFlowTable ∨ d ∈ c.trackedFlows := by
      rcases hd with hd | hd
      · rcases mem_cons.1 hd with rfl | hd
        · rw [linkOf, hself] at hl
          cases hl
        · exact .inl hd
      · exact .inr hd
    rw [linkOf, hold d hne] at hl
    exact h.listed d hne i hl
  · refine (h.sorted i hi).imp_of_mem fun {a b} ha hb hab => ?_
    rw [hold a (h.alive hi ha), hold b (h.alive hi hb)]
    exact hab
  · rw [hold d (.inr hd)] at hdel
    exact mem_cons_of_mem _ (h.present d hd hdel)
  · rcases mem_cons.1 hd with rfl | hd
    · rw [hself]
    · rw [hold d (.inl hd)]
      exact h.kept d hd
  · rcases hd with hd | hd
    · rcases mem_cons.1 hd with rfl | hd
      · exact Nat.lt_succ_self _
      · exact Nat.lt_succ_of_lt (h.freshFlows d (.inl hd))
    · exact Nat.lt_succ_of_lt (h.freshFlows d (.inr hd))
  · exact nodup_cons.2 ⟨fun hin => Nat.lt_irrefl _ (h.freshFlows _ (.inl hin)), h.nodupMatch⟩
  · rcases mem_cons.1 hd with rfl | hd
    · rcases mem_cons.1 he with rfl | he
      · exact fun _ _ _ => rfl
      · rw [hself, hold e (.inl he)]
        exact fun hcf hce hk => absurd hk.symm (hnew hp hcf e he hce)
    · rcases mem_cons.1 he with rfl | he
      · simp_all
      · rw [hold d (.inl hd), hold e (.inl he)]
        exact h.unique hp d hd e he
  · refine (h.order hp).imp_of_mem fun {a b} ha hb hab => ?_
    rw [hold a (.inr ha), hold b (.inr hb)]
    exact hab

/-- **The actions of a flow of conjunctions** become others with conjunctions. -/
theorem Wired.setActions {acts : List (Ofpact α)}
    (hconj : (c.desired f).hasConj = true) (hconj' : acts.any (·.isConj) = true) :
    (c.setDesired f fun x => { x with ofpacts := acts }).Wired peaceful := by
  set c' := c.setDesired f fun x => { x with ofpacts := acts }
  have hd : ∀ d, (c'.desired d).key = (c.desired d).key ∧
    (c'.desired d).hasConj = (c.desired d).hasConj ∧
      (c'.desired d).rank = (c.desired d).rank ∧
      (c'.desired d).isDeleted = (c.desired d).isDeleted ∧
      c'.linkOf d = c.linkOf d := by
    intro d
    by_cases hdf : d = f
    · subst hdf
      have hself : c'.desired d = { c.desired d with ofpacts := acts } := update_self ..
      have hnew : ({ c.desired d with ofpacts := acts } : DesiredFlow μ α).hasConj = true := hconj'
      rw [linkOf, hself]
      refine ⟨rfl, hnew.trans hconj.symm, ?_, rfl, rfl⟩
      rw [(OvnFlow.hasConj_iff _).1 hnew, (OvnFlow.hasConj_iff _).1 hconj]
    · simp [linkOf, show c'.desired d = c.desired d from update_of_ne hdf _ _]
  refine { h with
      linked := fun i hi d hin => ?_
      listed := fun d hin i hl => h.listed d hin i ((hd d).2.2.2.2.symm.trans hl)
      sorted := fun i hi => ?_
      present := fun d hin hdel => h.present d hin ((hd d).2.2.2.1.symm.trans hdel)
      kept := fun d hin => (hd d).2.2.2.1.trans (h.kept d hin)
      unique := fun hp d hin e hin' => ?_
      order := fun hp => ?_ }
  · rw [(hd d).2.2.2.2, (hd d).1, (hd d).2.2.2.1]
    exact h.linked i hi d hin
  · refine (h.sorted i hi).imp fun {a b} hab => ?_
    unfold OvnFlow.Ahead
    rw [(hd a).2.2.1, (hd b).2.2.1]
    exact hab
  · rw [(hd d).1, (hd d).2.1, (hd e).1, (hd e).2.1]
    exact h.unique hp d hin e hin'
  · refine (h.order hp).imp fun {a b} hab => ?_
    rw [(hd a).1, (hd a).2.1, (hd a).2.2.2.1, (hd b).1, (hd b).2.1, (hd b).2.2.2.1]
    exact hab

end

end

end Core

end Ovn.FlowTable

/-
  The ACL policy of a logical switch.

  * what the northbound schema documents: tiers, priorities, `pass` and the default,
  * the loop over the tiers through the action table,
  * the two agree unless an established connection with the blocked mark meets a tier
    without a matching ACL, where a built-in flow lets the packet through.
-/
import Ovn.Northd.AclTables

namespace Ovn.Northd

open List

variable {η : Type*}

/-! ## The documented policy -/

section
variable (opts : Options) (ls : LogicalSwitch η) (stage : AclStage) (p : Packet η)

def tierVerdict (t : ℕ) : Option Verdict := (topAcl ls stage p t).bind (·.action.verdict)

/-- `default_acl_drop` applies to switches with ACLs. -/
def defaultVerdict : Verdict :=
  if opts.defaultAclDrop && !ls.allAcls.isEmpty then .drop else .allow

/-- The verdict of the lowest tier that has one, or else the default. -/
def documentedVerdict : Verdict :=
  ((range 4).findSome? (tierVerdict ls stage p)).getD (defaultVerdict opts ls)

def LogicalSwitch.maxTier (ls : LogicalSwitch η) : ℕ := (ls.allAcls.map Acl.tier).foldr max 0

/-- Connections are tracked: some ACL is stateful, or there is a load balancer. -/
def LogicalSwitch.Stateful (ls : LogicalSwitch η) : Prop :=
  (∃ a ∈ ls.allAcls, a.action = .allowRelated) ∨ ls.hasLbVip = true

/-- The packet is of an established connection with the blocked mark, in a stage that has the
    built-in flow for these. -/
def Reallowed : Prop :=
  stage ≠ .inAclAfterLb ∧ ls.Stateful ∧ p.ip = true ∧ p.ctEst = true ∧
    p.blocked opts.ctNoMaskedLabel = true

/-- Such a packet reaches a tier in which no ACL matches it, though the policy is not to
    allow it. -/
def Bypassed : Prop :=
  Reallowed opts ls stage p ∧ documentedVerdict opts ls stage p ≠ .allow ∧
    ∃ t ≤ ls.maxTier, matching ls stage p t = [] ∧ ∀ t' < t, tierVerdict ls stage p t' = none

end

section
variable {opts : Options} {ls : LogicalSwitch η} {p : Packet η} {st : Bool}

/-! ## The action table and the loop over the tiers -/

variable {r r' : Regs} {t : ℕ}

theorem Decided.ready (h : Decided r none r') (hr : Ready st t r) (t' : ℕ) :
    Ready st t' { r' with tier := t' } where
  tier := rfl
  allow := by exact h.allow
  drop := by exact h.drop
  reject := by exact h.reject
  hinted e := by
    have := hr.hinted e
    exact ⟨by rw [h.hintAllow, h.hintAllowNew]; exact this.allow,
      by rw [h.hintBlock, h.hintDrop]; exact this.block, h.hintAllowRel.trans this.notRel⟩

def Verdict.outcome : Verdict → Outcome
  | .allow => .next
  | .drop => .drop
  | .reject => .reject

theorem runActs_reset (rec : StatefulRecord) (acts : List Act) (r : Regs) :
    ∃ r', runActs (resetVerdict rec ++ acts) r = runActs acts r' := by
  unfold resetVerdict
  split
  · exact ⟨_, rfl⟩
  · exact ⟨_, rfl⟩

variable {stage : AclStage}

theorem mem_actionTable {f : LFlow η} (ha : ls.statefulRecord.hasAcls = true) :
    f ∈ (aclFlows opts ls).filter (·.table = .action stage) ↔
      (f = ⟨.action stage, 1000, .bit .verdictAllow, resetVerdict ls.statefulRecord ++ [.next]⟩ ∨
      f = ⟨.action stage, 1000, .bit .verdictDrop, resetVerdict ls.statefulRecord⟩ ∨
      f = ⟨.action stage, 1000, .bit .verdictReject,
        resetVerdict ls.statefulRecord ++ [.clearReg0, .reject]⟩ ∨ f = ⟨.action stage, 0, .all,
        resetVerdict ls.statefulRecord ++ if opts.defaultAclDrop then [] else [.next]⟩) ∨
      ∃ j < ls.statefulRecord.maxAclTier, f = ⟨.action stage, 500, .tier j,
        [.setTier (j + 1), .nextTable stage.pipeline (stage.actionTable - 1)]⟩ := by
  rw [mem_action]
  simp only [buildAclActionLflows, ha, Bool.not_true, Bool.false_eq_true, if_false,
    mem_append, mem_cons, not_mem_nil, or_false, mem_map, mem_range,
    eq_comm]

theorem runTable_action_some (L : FlowLookup η) {v : Verdict}
    (ha : ls.statefulRecord.hasAcls = true)
    (hd : Decided r (some v) r') :
    (runTable L (aclFlows opts ls) p (.action stage) r').2 = v.outcome := by
  let acts : List Act := match v with
    | .allow => [.next]
    | .drop => []
    | .reject => [.clearReg0, .reject]
  let b : RegBit := match v with
    | .allow => .verdictAllow
    | .drop => .verdictDrop
    | .reject => .verdictReject
  have hacts : ∀ r'', (runActs acts r'').2 = v.outcome := by cases v <;> intro _ <;> rfl
  have hreset : (runActs (resetVerdict ls.statefulRecord ++ acts) r').2 = v.outcome := by
    obtain ⟨r'', e⟩ := runActs_reset ls.statefulRecord acts r'
    rw [e, hacts]
  have h1 := hd.allow
  have h2 := hd.drop
  have h3 := hd.reject
  refine runTable_of L (P := fun x => x.2 = v.outcome)
    (f := ⟨.action stage, 1000, .bit b, resetVerdict ls.statefulRecord ++ acts⟩)
    ((mem_actionTable ha).2 (.inl (by cases v <;> simp [b, acts])))
    (by cases v <;> simpa) fun g hg hgs hle => ?_
  rcases (mem_actionTable ha).1 hg with (rfl | rfl | rfl | rfl) | ⟨j, -, rfl⟩
  · obtain rfl : v = .allow := by simpa [Match.eval, h1] using hgs
    exact hreset
  · obtain rfl : v = .drop := by simpa [Match.eval, h2] using hgs
    simpa [acts] using hreset
  · obtain rfl : v = .reject := by simpa [Match.eval, h3] using hgs
    exact hreset
  · simp at hle
  · simp at hle

/-- Without a verdict the packet goes back for the next tier. -/
theorem runTable_action_tier (L : FlowLookup η) (opts : Options) (stage : AclStage) (p : Packet η)
    (ha : ls.statefulRecord.hasAcls = true) (hd : Decided r none r')
    (ht : r.tier < ls.statefulRecord.maxAclTier) :
    runTable L (aclFlows opts ls) p (.action stage) r' =
      ({ r' with tier := (r.tier + 1) % 4 }, .table stage.pipeline stage.evalTable) := by
  have htab : stage.actionTable - 1 = stage.evalTable := by cases stage <;> rfl
  refine runTable_of L (P := fun x => x = (_, _))
    ((mem_actionTable ha).2 (.inr ⟨_, ht, rfl⟩)) (by simp [Match.eval, hd.tier])
    fun g hg hgs hle => ?_
  rcases (mem_actionTable ha).1 hg with (rfl | rfl | rfl | rfl) | ⟨j, -, rfl⟩
  · simp [Match.eval, hd.allow] at hgs
  · simp [Match.eval, hd.drop] at hgs
  · simp [Match.eval, hd.reject] at hgs
  · simp at hle
  · obtain rfl : r.tier = j := by simpa [Match.eval, hd.tier] using hgs
    rw [← htab]
    rfl

theorem runTable_action_default (L : FlowLookup η) (ha : ls.statefulRecord.hasAcls = true)
    (hd : Decided r none r') (ht : r.tier = ls.statefulRecord.maxAclTier) :
    (runTable L (aclFlows opts ls) p (.action stage) r').2 = (defaultVerdict opts ls).outcome := by
  have hne : ls.allAcls.isEmpty = false := by
    simpa using ls.statefulRecord_spec.2.2.1 ha
  refine runTable_of L (P := fun x => x.2 = (defaultVerdict opts ls).outcome)
    ((mem_actionTable ha).2 (.inl (.inr (.inr (.inr rfl))))) rfl fun g hg hgs _ => ?_
  rcases (mem_actionTable ha).1 hg with (rfl | rfl | rfl | rfl) | ⟨j, hj, rfl⟩
  · simp [Match.eval, hd.allow] at hgs
  · simp [Match.eval, hd.drop] at hgs
  · simp [Match.eval, hd.reject] at hgs
  · obtain ⟨r'', e⟩ := runActs_reset ls.statefulRecord
      (if opts.defaultAclDrop then [] else [.next]) r'
    rw [e, defaultVerdict, hne]
    cases opts.defaultAclDrop <;> rfl
  · have : r.tier = j := by simpa [Match.eval, hd.tier] using hgs
    omega

/-- The verdict of the tiers from `t` on, or else the default. -/
def flowsVerdict (opts : Options) (ls : LogicalSwitch η) (stage : AclStage) (p : Packet η)
    (t k : ℕ) : Verdict :=
  ((range' t k).findSome? (flowVerdict opts ls stage p)).getD (defaultVerdict opts ls)

theorem flowsVerdict_succ (stage : AclStage) (t k : ℕ) : flowsVerdict opts ls stage p t (k + 1) =
    (flowVerdict opts ls stage p t).getD (flowsVerdict opts ls stage p (t + 1) k) := by
  rw [flowsVerdict, range'_succ, findSome?_cons]
  cases flowVerdict opts ls stage p t <;> rfl

theorem runTiers_outcome {L : FlowLookup η} {flows : List (LFlow η)} {v : Verdict} (fuel : ℕ)
    (he : (runTable L flows p (.eval stage) r).2 = .next)
    (hv : (runTable L flows p (.action stage) (runTable L flows p (.eval stage) r).1).2 =
      v.outcome) :
    runTiers L flows p stage (fuel + 1) r = some v := by
  rw [runTiers]
  rcases h1 : runTable L flows p (.eval stage) r with ⟨r1, o1⟩
  rw [h1] at he hv
  rcases h2 : runTable L flows p (.action stage) r1 with ⟨r2, o2⟩
  rw [h2] at hv
  obtain rfl : o1 = .next := he
  obtain rfl : o2 = v.outcome := hv
  cases v <;> simp [h2, Verdict.outcome]

/-- The loop over the tiers, from a tier on with `k` more to come. -/
theorem runTiers_spec (L : FlowLookup η) (hp : p.Ordinary) (hsep : ls.Separated)
    (ha : ls.statefulRecord.hasAcls = true) :
    ∀ (k t fuel : ℕ) (r : Regs), t + k = ls.statefulRecord.maxAclTier → k < fuel →
    Ready ls.statefulRecord.hasStateful t r →
    runTiers L (aclFlows opts ls) p stage fuel r = some
      (flowsVerdict opts ls stage p t (k + 1)) := by
  intro k
  induction k with
  | zero =>
    intro t fuel r ht hfuel hr
    obtain ⟨fuel, rfl⟩ : ∃ n, fuel = n + 1 := ⟨fuel - 1, by omega⟩
    obtain ⟨he, hd⟩ := runTable_eval L opts stage hp hsep ha (by omega) hr
    refine runTiers_outcome fuel he ?_
    rw [flowsVerdict_succ]
    match hv : flowVerdict opts ls stage p t with
    | some v => exact runTable_action_some L ha (hv ▸ hd)
    | none => exact runTable_action_default L ha (hv ▸ hd) (hr.tier.trans (by omega))
  | succ k ih =>
    intro t fuel r ht hfuel hr
    obtain ⟨fuel, rfl⟩ : ∃ n, fuel = n + 1 := ⟨fuel - 1, by omega⟩
    obtain ⟨he, hd⟩ := runTable_eval L opts stage hp hsep ha (by omega) hr
    rw [flowsVerdict_succ]
    match hv : flowVerdict opts ls stage p t with
    | some v => exact runTiers_outcome fuel he (runTable_action_some L ha (hv ▸ hd))
    | none =>
      rw [hv] at hd
      have hact := runTable_action_tier L opts stage p ha hd (by rw [hr.tier]; omega)
      have hlt : t + 1 < 4 := by
        have := foldr_tier_le ls.allAcls
        rw [← ls.statefulRecord_spec.1.tier] at this
        omega
      rw [hr.tier, Nat.mod_eq_of_lt hlt] at hact
      rw [runTiers]
      rcases h1 : runTable L (aclFlows opts ls) p (.eval stage) r with ⟨r1, o1⟩
      rw [h1] at he hd hact
      obtain rfl : o1 = .next := he
      simp only [hact]
      exact ih (t + 1) fuel _ (by omega) (by omega) (hd.ready hr (t + 1))

theorem runTiers_noAcls (L : FlowLookup η) (hp : p.Ordinary)
    (ha : ls.statefulRecord.hasAcls = false)
    (hr : Ready ls.statefulRecord.hasStateful t r) (fuel : ℕ) :
    runTiers L (aclFlows opts ls) p stage (fuel + 1) r = some .allow := by
  have hnil : ls.allAcls = [] := by
    by_contra h
    simp [ls.statefulRecord_spec.2.2.2 h] at ha
  have hact : ∀ g : LFlow η, g ∈ (aclFlows opts ls).filter (·.table = .action stage) ↔
      g = ⟨.action stage, 0, .all, [.next]⟩ := by
    intro g
    rw [mem_action]
    simp [buildAclActionLflows, ha]
  have hev : ∃ f ∈ aclEvalDefaults (η := η) ls.statefulRecord, f.table = .eval stage ∧
      f.guard = .all := by
    unfold aclEvalDefaults
    cases stage <;> cases ls.statefulRecord.hasLbVip <;> simp [ha]
  obtain ⟨f, hf, hft, hfg⟩ := hev
  refine runTiers_outcome fuel ?_ ?_
  · refine runTable_of L (P := fun x => x.2 = .next)
      (mem_filter.2 ⟨mem_aclFlows.2 (.inr (.inl hf)), decide_eq_true hft⟩)
      (by rw [hfg]; rfl) fun g hg hgs _ => ?_
    obtain ⟨hg, hgt⟩ := mem_filter.1 hg
    rw [decide_eq_true_eq] at hgt
    rcases mem_aclFlows.1 hg with ⟨pl, h⟩ | h | h | ⟨acl, hacl, -⟩ | h | ⟨stage', h⟩
    · simp [table_hints _ _ g h] at hgt
    · have hgn : g.actions = [.next] := by
        unfold aclEvalDefaults at h
        cases hlb : ls.statefulRecord.hasLbVip <;> simp [ha, hlb] at h <;>
          rcases h with rfl | rfl | rfl <;> rfl
      rw [hgn]
      rfl
    · obtain ⟨hst, h⟩ := mem_tracked h
      rcases tracked_cases hp hst hr h hgt hgs with ⟨-, e, -⟩ | ⟨e, -⟩ <;> rw [e] <;> rfl
    · rw [hnil] at hacl
      cases hacl
    · simp [eval_exempt hp r _ g h] at hgs
    · simp [table_action _ stage' g h] at hgt
  · refine runTable_of L (P := fun x => x.2 = .next) ((hact _).2 rfl) rfl fun g hg _ _ => ?_
    rw [(hact g).1 hg]
    rfl

/-! ## The policy -/

theorem LogicalSwitch.maxTier_eq (ls : LogicalSwitch η) :
    ls.statefulRecord.maxAclTier = ls.maxTier := ls.statefulRecord_spec.1.tier

theorem hasStateful_iff : ls.statefulRecord.hasStateful = true ↔ ls.Stateful := by
  obtain ⟨hc, hlb, -⟩ := ls.statefulRecord_spec
  rw [StatefulRecord.hasStateful, Bool.or_eq_true, hc.stateful, hlb]
  rfl

theorem reallowed_iff : reallowed opts ls stage p = true ↔ Reallowed opts ls stage p := by
  simp [reallowed, Reallowed, hasStateful_iff, and_assoc]

theorem tierVerdict_none (ht : ls.maxTier < t) : tierVerdict ls stage p t = none := by
  have hnil : matching ls stage p t = [] := by
    by_contra h
    obtain ⟨a, ha⟩ := exists_mem_of_ne_nil _ h
    obtain ⟨hin, -, rfl, -⟩ := mem_matching.1 ha
    exact absurd (tier_le_foldr hin) (by simpa [LogicalSwitch.maxTier] using ht)
  simp [tierVerdict, topAcl, hnil]

theorem documentedVerdict_eq (stage : AclStage) : documentedVerdict opts ls stage p =
    ((range' 0 (ls.maxTier + 1)).findSome? (tierVerdict ls stage p)).getD
      (defaultVerdict opts ls) := by
  have hle : ls.maxTier ≤ 3 := foldr_tier_le ls.allAcls
  have hsplit : range 4 =
      range' 0 (ls.maxTier + 1) ++ range' (ls.maxTier + 1) (3 - ls.maxTier) := by
    have h := range'_append_1 (s := 0) (m := ls.maxTier + 1) (n := 3 - ls.maxTier)
    rw [Nat.zero_add] at h
    rw [h, range_eq_range']
    congr 1
    omega
  have hnone : (range' (ls.maxTier + 1) (3 - ls.maxTier)).findSome?
      (tierVerdict ls stage p) = none := by
    rw [findSome?_eq_none_iff]
    intro t ht
    rw [mem_range'_1] at ht
    exact tierVerdict_none (by omega)
  rw [documentedVerdict, hsplit, findSome?_append, hnone, Option.or_none]

theorem flowVerdict_of_matching (h : matching ls stage p t ≠ []) :
    flowVerdict opts ls stage p t = tierVerdict ls stage p t := by
  unfold flowVerdict tierVerdict
  match htop : topAcl ls stage p t with
  | some a => rfl
  | none => exact absurd (argmax_eq_none.1 htop) h

theorem flowVerdict_of_nil (h : matching ls stage p t = []) :
    flowVerdict opts ls stage p t = if reallowed opts ls stage p then some .allow else none := by
  simp [flowVerdict, topAcl, h]

/-- The tiers are as documented, unless one without a match comes before one with a verdict. -/
theorem flowsVerdict_documented : ∀ (k t : ℕ),
    (reallowed opts ls stage p = true → ∀ i < k, matching ls stage p (t + i) = [] →
      ∃ j < i, tierVerdict ls stage p (t + j) ≠ none) →
    (range' t k).findSome? (flowVerdict opts ls stage p) =
      (range' t k).findSome? (tierVerdict ls stage p)
  | 0, _, _ => rfl
  | k + 1, t, h => by
    have hhead : flowVerdict opts ls stage p t = tierVerdict ls stage p t := by
      by_cases hm : matching ls stage p t = []
      · by_cases hre : reallowed opts ls stage p = true
        · obtain ⟨j, hj, -⟩ := h hre 0 (by omega) hm
          omega
        · rw [flowVerdict_of_nil hm, if_neg hre]
          simp [tierVerdict, topAcl, hm]
      · exact flowVerdict_of_matching hm
    rw [range'_succ, findSome?_cons, findSome?_cons, hhead]
    match hv : tierVerdict ls stage p t with
    | some v => rfl
    | none =>
      refine flowsVerdict_documented k (t + 1) fun hre i hi hm => ?_
      obtain ⟨j, hj, hne⟩ := h hre (i + 1) (by omega) (by rwa [Nat.add_right_comm t 1 i] at hm)
      have hj0 : j ≠ 0 := by
        rintro rfl
        exact hne hv
      obtain ⟨j, rfl⟩ := Nat.exists_eq_succ_of_ne_zero hj0
      exact ⟨j, by omega, by rwa [Nat.add_right_comm t 1 j]⟩

/-- A tier without a match, before any verdict, lets a blocked connection through. -/
theorem flowsVerdict_allow (hre : reallowed opts ls stage p = true) :
    ∀ (i k t : ℕ), i < k → matching ls stage p (t + i) = [] →
    (∀ j < i, tierVerdict ls stage p (t + j) = none) → flowsVerdict opts ls stage p t k = .allow
  | i, 0, _, hi, _, _ => absurd hi (Nat.not_lt_zero i)
  | 0, k + 1, t, _, hm, _ => by
    rw [Nat.add_zero] at hm
    rw [flowsVerdict_succ, flowVerdict_of_nil hm, if_pos hre]
    rfl
  | i + 1, k + 1, t, hi, hm, hnone => by
    rw [flowsVerdict_succ]
    by_cases h0 : matching ls stage p t = []
    · rw [flowVerdict_of_nil h0, if_pos hre]
      rfl
    rw [flowVerdict_of_matching h0, show tierVerdict ls stage p t = none from
      hnone 0 (Nat.succ_pos i)]
    refine flowsVerdict_allow hre i k (t + 1) (by omega) ?_ fun j hj => ?_
    · rwa [Nat.add_right_comm t 1 i]
    · rw [Nat.add_right_comm t 1 j]
      exact hnone (j + 1) (by omega)

theorem runAclStage_eq (L : FlowLookup η) (hsep : ls.Separated) (stage : AclStage)
    (hp : p.Ordinary) {fuel : ℕ} (hfuel : 3 < fuel) :
    runAclStage L (aclFlows opts ls) p stage fuel = some (if ls.allAcls = [] then .allow
        else flowsVerdict opts ls stage p 0 (ls.maxTier + 1)) := by
  have hh := runTable_hint L opts ls hp stage.pipeline
  rw [runAclStage]
  rcases h1 : runTable L (aclFlows opts ls) p (.hint stage.pipeline) .zero with ⟨r, o⟩
  rw [h1] at hh
  obtain ⟨ho, hr⟩ := hh
  obtain rfl : o = .next := ho
  by_cases hnil : ls.allAcls = []
  · have ha : ls.statefulRecord.hasAcls = false := by
      by_contra h
      exact ls.statefulRecord_spec.2.2.1 (by simpa using h) hnil
    obtain ⟨fuel, rfl⟩ : ∃ n, fuel = n + 1 := ⟨fuel - 1, by omega⟩
    simp only [if_pos hnil]
    exact runTiers_noAcls L hp ha hr fuel
  · have hle : ls.maxTier ≤ 3 := foldr_tier_le ls.allAcls
    simp only [if_neg hnil]
    exact runTiers_spec L hp hsep (ls.statefulRecord_spec.2.2.2 hnil) ls.maxTier 0 fuel r
      (by rw [ls.maxTier_eq, Nat.zero_add]) (by omega) hr

/-- **ACL policy.** The flows of the ACL stages terminate with the documented verdict of an
    ordinary packet, unless the packet is of an established connection with the blocked mark
    that reaches a tier in which no ACL matches it. -/
theorem runAclStage_documented_iff (L : FlowLookup η) (opts : Options) (ls : LogicalSwitch η)
    (hsep : ls.Separated) (stage : AclStage) (p : Packet η) (hp : p.Ordinary) (fuel : ℕ)
    (hfuel : 3 < fuel) :
    runAclStage L (aclFlows opts ls) p stage fuel = some (documentedVerdict opts ls stage p) ↔
      ¬ Bypassed opts ls stage p := by
  rw [runAclStage_eq L hsep stage hp hfuel, Option.some_inj]
  by_cases hnil : ls.allAcls = []
  · have hdoc : documentedVerdict opts ls stage p = .allow := by
      have hnone : (range 4).findSome? (tierVerdict ls stage p) = none := by
        simp [tierVerdict, topAcl, matching, hnil]
      simp [documentedVerdict, defaultVerdict, hnone, hnil]
    rw [if_pos hnil, hdoc]
    exact iff_of_true rfl fun h => h.2.1 hdoc
  rw [if_neg hnil]
  by_cases hskip : reallowed opts ls stage p = true ∧ ∃ t ≤ ls.maxTier,
      matching ls stage p t = [] ∧ ∀ t' < t, tierVerdict ls stage p t' = none
  · obtain ⟨hre, t, ht, hm, hnone⟩ := hskip
    rw [flowsVerdict_allow hre t (ls.maxTier + 1) 0 (by omega) (by rwa [Nat.zero_add])
      (by simpa using hnone)]
    constructor
    · exact fun h hb => hb.2.1 h.symm
    · intro h
      by_contra hne
      exact h ⟨reallowed_iff.1 hre, fun e => hne e.symm, t, ht, hm, hnone⟩
  · refine iff_of_true ?_ fun h => hskip ⟨reallowed_iff.2 h.1, h.2.2⟩
    rw [documentedVerdict_eq, flowsVerdict, flowsVerdict_documented]
    intro hre i hi hm
    by_contra hall
    push Not at hall
    refine hskip ⟨hre, i, by omega, by rwa [Nat.zero_add] at hm, fun t' ht' => ?_⟩
    simpa using hall t' ht'

end

/-! ## A connection that an upper tier drops -/

/-- Connections to one port are allowed in tier 0; tier 1 drops everything. -/
def dropTier : LogicalSwitch ℕ where
  acls := [⟨.fromLport, 100, by decide, 0, by decide, fun p => p.headers = 80, .allowRelated,
      false, false, false, 0⟩,
    ⟨.fromLport, 100, by decide, 1, by decide, fun _ => true, .drop, false, false, false, 0⟩]
  portGroups := []
  loadBalancer := []
  loadBalancerGroup := []
  hasDnsRecords := false

def defaultOptions : Options := ⟨false, true, true, true⟩

/-- A packet of an established connection to a port, with the mark that the drop ACL left. -/
def blockedPacket (port : ℕ) : Packet ℕ :=
  ⟨true, false, true, false, false, false, true, false, 0, true, false, false, false, false, port⟩

theorem blockedPacket_ordinary (port : ℕ) : (blockedPacket port).Ordinary :=
  ⟨.inr (.inr ⟨rfl, rfl, rfl⟩), rfl, rfl, rfl, rfl, rfl, rfl⟩

theorem dropTier_separated : dropTier.Separated := by
  simp [LogicalSwitch.Separated, LogicalSwitch.allAcls, dropTier]

/-- Once the drop ACL has marked a connection, its packets are let through. -/
theorem runAclStage_bypassed : dropTier.Separated ∧ (blockedPacket 22).Ordinary ∧
    documentedVerdict defaultOptions dropTier .inAcl (blockedPacket 22) = .drop ∧
    runAclStage (Lookup.first _ _) (aclFlows defaultOptions dropTier) (blockedPacket 22) .inAcl 4 =
      some .allow :=
  ⟨dropTier_separated, blockedPacket_ordinary 22, by decide +kernel, by decide +kernel⟩

theorem runAclStage_documented_web :
    runAclStage (Lookup.first _ _) (aclFlows defaultOptions dropTier) (blockedPacket 80) .inAcl 4 =
      some (documentedVerdict defaultOptions dropTier .inAcl (blockedPacket 80)) :=
  (runAclStage_documented_iff (Lookup.first _ _) defaultOptions dropTier dropTier_separated .inAcl
    (blockedPacket 80) (blockedPacket_ordinary 80) 4 (by decide)).2
      fun h => h.2.1 (by decide +kernel)

end Ovn.Northd

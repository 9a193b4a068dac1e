/-
  The hint and the evaluation table of the ACL stages.

  * the flows of each table, and which of them an ordinary packet can hit,
  * the hints make exactly one of the two flows of an ACL match,
  * the evaluation table notes the verdict of the tier in the registers.
-/
import Ovn.Northd.AclRecord

namespace Ovn.Northd

open List

variable {η : Type*}

/-! ## ACLs and packets -/

/-- The verdict an ACL asks for; `pass` leaves it to the next tier. -/
def AclAction.verdict : AclAction → Option Verdict
  | .drop => some .drop
  | .reject => some .reject
  | .pass => none
  | .allow | .allowRelated | .allowStateless => some .allow

section
variable (ls : LogicalSwitch η) (stage : AclStage) (p : Packet η)

/-- The ACLs of a stage and a tier that match a packet. -/
def matching (t : ℕ) : List (Acl η) :=
  ls.allAcls.filter fun a => decide (a.stage = stage) && decide (a.tier = t) && a.matchExpr p

def topAcl (t : ℕ) : Option (Acl η) := (matching ls stage p t).argmax Acl.priority

end

/-- No two ACLs of one stage and tier have the same priority and overlapping matches. -/
def LogicalSwitch.Separated (ls : LogicalSwitch η) : Prop :=
  ∀ a ∈ ls.allAcls, ∀ b ∈ ls.allAcls, a.stage = b.stage → a.tier = b.tier →
    a.priority = b.priority → (∃ p, a.matchExpr p = true ∧ b.matchExpr p = true) → a = b

/-- The packets the policy is stated for: untracked, or new, or established in the request
    direction, and not one of those that built-in flows exempt from the ACLs. -/
structure Packet.Ordinary (p : Packet η) : Prop where
  state : (p.ctTrk = false ∧ p.ctNew = false ∧ p.ctEst = false ∧ p.ctRel = false) ∨
    (p.ctTrk = true ∧ p.ctNew = true ∧ p.ctEst = false) ∨
    (p.ctTrk = true ∧ p.ctNew = false ∧ p.ctEst = true)
  request : p.ctRpl = false
  valid : p.ctInv = false
  notNd : p.ipv6CtOmit = false
  notToSvcMonitor : p.toSvcMonitor = false
  notFromSvcMonitor : p.fromSvcMonitor = false
  notCtrlDns : p.ctrlDns = false

/-! ## Hints -/

/-- The hints tell one kind of flow for ACLs that allow, and one for those that do not. -/
structure Hinted (r : Regs) : Prop where
  allow : r.bit .hintAllow = !r.bit .hintAllowNew
  block : r.bit .hintBlock = !r.bit .hintDrop
  notRel : r.bit .hintAllowRel = false

/-- The registers at the beginning of a round for the tier `t`. -/
structure Ready (stateful : Bool) (t : ℕ) (r : Regs) : Prop where
  tier : r.tier = t
  allow : r.bit .verdictAllow = false
  drop : r.bit .verdictDrop = false
  reject : r.bit .verdictReject = false
  hinted : stateful = true → Hinted r

section
variable {opts : Options} {ls : LogicalSwitch η} {p : Packet η} {st : Bool}

/-! ### The tables of the flows -/

theorem table_hints (r : StatefulRecord) (pl : Pipeline) :
    ∀ f ∈ buildAclHints (η := η) opts r pl, f.table = .hint pl := by
  unfold buildAclHints
  split <;> split <;> simp

theorem table_defaults (r : StatefulRecord) :
    ∀ f ∈ aclEvalDefaults (η := η) r, ∃ stage, f.table = .eval stage := by
  unfold aclEvalDefaults
  split_ifs <;> simp

variable {f : LFlow η}

theorem mem_tracked {r : StatefulRecord} (hf : f ∈ aclEvalStateful opts r) :
    r.hasStateful = true ∧ f ∈ aclEvalTracked opts := by simp_all [aclEvalStateful]

section
variable (r : StatefulRecord)

theorem table_stateful : ∀ f ∈ aclEvalStateful (η := η) opts r, ∃ stage, f.table = .eval stage := by
  intro f hf
  have hall : ∀ f ∈ aclEvalTracked (η := η) opts, ∃ stage, f.table = .eval stage := by
    simp [aclEvalTracked]
  exact hall f (mem_tracked hf).2

theorem table_considerAcl (acl : Acl η) : ∀ f ∈ considerAcl r acl, f.table = .eval acl.stage := by
  unfold considerAcl
  split
  · simp
  · split <;> simp

theorem table_logRelated (acl : Acl η) :
    ∀ f ∈ buildAclLogRelatedFlows opts r acl, ∃ stage, f.table = .eval stage := by
  unfold buildAclLogRelatedFlows
  split_ifs <;> simp

theorem table_exempt (dns : Bool) :
    ∀ f ∈ aclEvalExempt (η := η) r dns, ∃ stage, f.table = .eval stage := by
  unfold aclEvalExempt
  split_ifs <;> simp

theorem table_action (stage : AclStage) :
    ∀ f ∈ buildAclActionLflows (η := η) opts r stage, f.table = .action stage := by
  unfold buildAclActionLflows
  split <;> simp

end

theorem mem_aclFlows : f ∈ aclFlows opts ls ↔ (∃ pl, f ∈ buildAclHints opts ls.statefulRecord pl) ∨
    f ∈ aclEvalDefaults ls.statefulRecord ∨ f ∈ aclEvalStateful opts ls.statefulRecord ∨
    (∃ acl ∈ ls.allAcls, f ∈ buildAclLogRelatedFlows opts ls.statefulRecord acl ∨
      f ∈ considerAcl ls.statefulRecord acl) ∨
    f ∈ aclEvalExempt ls.statefulRecord ls.hasDnsRecords ∨
    ∃ stage, f ∈ buildAclActionLflows opts ls.statefulRecord stage := by
  have hpl : (∃ pl, f ∈ buildAclHints opts ls.statefulRecord pl) ↔
      f ∈ buildAclHints opts ls.statefulRecord .ingress ∨
        f ∈ buildAclHints opts ls.statefulRecord .egress := by
    constructor
    · rintro ⟨_ | _, h⟩
      · exact .inl h
      · exact .inr h
    · rintro (h | h) <;> exact ⟨_, h⟩
  have hst : f ∈ [AclStage.inAcl, .inAclAfterLb, .outAcl].flatMap
      (buildAclActionLflows opts ls.statefulRecord) ↔
      ∃ stage, f ∈ buildAclActionLflows opts ls.statefulRecord stage := by
    rw [mem_flatMap]
    exact ⟨fun ⟨stage, _, h⟩ => ⟨stage, h⟩, fun ⟨stage, h⟩ => ⟨stage, by cases stage <;> simp, h⟩⟩
  simp only [aclFlows, buildAcls, mem_append, hpl, hst, or_assoc]
  simp

theorem table_cases (hf : f ∈ aclFlows opts ls) :
    (∃ pl, f.table = .hint pl ∧ f ∈ buildAclHints opts ls.statefulRecord pl) ∨
    (∃ stage, f.table = .eval stage) ∨
    ∃ stage, f.table = .action stage ∧ f ∈ buildAclActionLflows opts ls.statefulRecord stage := by
  rcases mem_aclFlows.1 hf with ⟨pl, h⟩ | h | h | ⟨acl, -, h | h⟩ | h | ⟨stage, h⟩
  · exact .inl ⟨pl, table_hints _ _ f h, h⟩
  · exact .inr (.inl (table_defaults _ f h))
  · exact .inr (.inl (table_stateful _ f h))
  · exact .inr (.inl (table_logRelated _ acl f h))
  · exact .inr (.inl ⟨_, table_considerAcl _ acl f h⟩)
  · exact .inr (.inl (table_exempt _ _ f h))
  · exact .inr (.inr ⟨stage, table_action _ stage f h, h⟩)

theorem mem_hint {pl : Pipeline} : f ∈ (aclFlows opts ls).filter (·.table = .hint pl) ↔
      f ∈ buildAclHints opts ls.statefulRecord pl := by
  rw [mem_filter, decide_eq_true_eq]
  constructor
  · rintro ⟨h, ht⟩
    rcases table_cases h with ⟨pl', e, h⟩ | ⟨st, e⟩ | ⟨st, e, -⟩ <;> simp [e] at ht
    exact ht ▸ h
  · exact fun h => ⟨mem_aclFlows.2 (.inl ⟨pl, h⟩), table_hints _ _ f h⟩

variable {stage : AclStage}

theorem mem_action : f ∈ (aclFlows opts ls).filter (·.table = .action stage) ↔
      f ∈ buildAclActionLflows opts ls.statefulRecord stage := by
  rw [mem_filter, decide_eq_true_eq]
  constructor
  · rintro ⟨h, ht⟩
    rcases table_cases h with ⟨pl', e, -⟩ | ⟨st, e⟩ | ⟨st, e, h⟩ <;> simp [e] at ht
    exact ht ▸ h
  · intro h
    exact ⟨mem_aclFlows.2 (by tauto), table_action _ stage f h⟩

variable {r : Regs}

/-- A lookup finds a flow with `P`, where some flow matches and all those that match and are
    not below it have `P`. -/
theorem runTable_of (L : FlowLookup η) {flows : List (LFlow η)} {t : Table}
    {P : Regs × Outcome → Prop}
    (hf : f ∈ flows.filter (·.table = t)) (hs : f.guard.eval ⟨p, r⟩ = true)
    (hP : ∀ g ∈ flows.filter (·.table = t), g.guard.eval ⟨p, r⟩ = true → f.priority ≤ g.priority →
      P (runActs g.actions r)) :
    P (runTable L flows p t r) := by
  obtain ⟨g, hg, hPg⟩ := L.exists_pick hf hs hP
  rw [runTable, hg]
  exact hPg

theorem hasAcls_or_lbVip (h : ls.statefulRecord.hasStateful = true) :
    (!ls.statefulRecord.hasAcls && !ls.statefulRecord.hasLbVip) = false := by
  obtain ⟨hc, -, ha⟩ := ls.statefulRecord_spec
  rcases Bool.or_eq_true_iff.1 h with h | h
  · obtain ⟨a, hm, -⟩ := hc.stateful.1 h
    simp [ha.2 (ne_nil_of_mem hm)]
  · simp [h]

def HintDone (st : Bool) (x : Regs × Outcome) : Prop := x.2 = .next ∧ Ready st 0 x.1

theorem ready_zero (hst : st ≠ true) : Ready st 0 .zero :=
  ⟨rfl, rfl, rfl, rfl, fun h => absurd h hst⟩

theorem runTable_hint (L : FlowLookup η) (opts : Options) (ls : LogicalSwitch η) (hp : p.Ordinary)
    (pl : Pipeline) :
    HintDone ls.statefulRecord.hasStateful (runTable L (aclFlows opts ls) p (.hint pl) .zero) := by
  by_cases hst : ls.statefulRecord.hasStateful = true
  · have hno := hasAcls_or_lbVip hst
    have hmem : ∀ g, g ∈ (aclFlows opts ls).filter (·.table = .hint pl) ↔
        g ∈ buildAclHints opts ls.statefulRecord pl := fun g => mem_hint
    simp only [buildAclHints, hno, hst, Bool.not_true, Bool.false_eq_true, if_false,
      cons_append, nil_append, mem_cons, not_mem_nil, or_false] at hmem
    rw [hst]
    -- the flows from priority 4 on all give a hint of each kind
    have hall : ∀ f : LFlow η, 4 ≤ f.priority →
      ∀ g ∈ (aclFlows opts ls).filter (·.table = .hint pl),
        g.guard.eval ⟨p, .zero⟩ = true → f.priority ≤ g.priority →
          HintDone true (runActs g.actions .zero) := by
      intro f hf g hg _ hle
      have hle := hf.trans hle
      rcases (hmem g).1 hg with rfl | rfl | rfl | rfl | rfl | rfl | rfl | rfl <;>
        first
        | exact ⟨rfl, rfl, rfl, rfl, rfl, fun _ => ⟨rfl, rfl, rfl⟩⟩
        | simp at hle
    rcases hp.state with ⟨h1, h2, h3, -⟩ | ⟨h1, h2, h3⟩ | ⟨h1, h2, h3⟩
    · exact runTable_of L ((hmem _).2 (.inr (.inr (.inr (.inl rfl)))))
        (by simp [Match.eval, h1]) (hall _ (by simp))
    · exact runTable_of L ((hmem _).2 (.inr (.inl rfl)))
        (by simp [Match.eval, h2, h3]) (hall _ (by simp))
    · by_cases hb : p.blocked opts.ctNoMaskedLabel = true
      · exact runTable_of L ((hmem _).2 (.inr (.inr (.inl rfl))))
          (by simp [Match.eval, h2, h3, hb, hp.request]) (hall _ (by simp))
      · exact runTable_of L ((hmem _).2 (.inr (.inr (.inr (.inr (.inl rfl))))))
          (by simp [Match.eval, h2, h3, hb, hp.request]) (hall _ (by simp))
  · have hone : ∃ f : LFlow η, buildAclHints opts ls.statefulRecord pl = [f] ∧ f.guard = .all ∧
        f.actions = [.next] := by
      simp only [buildAclHints, hst]
      split <;> exact ⟨_, rfl, rfl, rfl⟩
    obtain ⟨f, hf, hg, ha⟩ := hone
    have hmem : ∀ g ∈ (aclFlows opts ls).filter (·.table = .hint pl), g = f := by
      intro g hg
      have hg := mem_hint.1 hg
      rw [hf] at hg
      exact mem_singleton.1 hg
    refine runTable_of L (mem_hint.2 (by rw [hf]; exact mem_singleton_self f))
      (by rw [hg]; rfl) fun g hm _ _ => ?_
    rw [hmem g hm, ha]
    exact ⟨rfl, ready_zero hst⟩

/-! ## Evaluation -/

section
variable (hp : p.Ordinary) (r : Regs)
include hp

theorem eval_replyMatch : (replyMatch opts : Match η).eval ⟨p, r⟩ = false := by
  simp [replyMatch, Match.eval, hp.request]

theorem eval_relatedMatch : (relatedMatch opts : Match η).eval ⟨p, r⟩ = false := by
  rcases hp.state with ⟨-, -, -, h⟩ | ⟨-, h, -⟩ | ⟨-, -, h⟩ <;> simp [relatedMatch, Match.eval, h]

theorem eval_deniedMatch : (deniedMatch opts : Match η).eval ⟨p, r⟩ = false := by
  unfold deniedMatch
  split <;> simp [Match.eval, hp.request, hp.valid]

theorem eval_logRelated (acl : Acl η) :
    ∀ f ∈ buildAclLogRelatedFlows opts ls.statefulRecord acl, f.guard.eval ⟨p, r⟩ = false := by
  unfold buildAclLogRelatedFlows
  split_ifs <;> simp [Match.eval, eval_replyMatch hp, eval_relatedMatch hp]

theorem eval_exempt (dns : Bool) :
    ∀ f ∈ aclEvalExempt ls.statefulRecord dns, f.guard.eval ⟨p, r⟩ = false := by
  unfold aclEvalExempt
  split_ifs <;> simp [Match.eval, hp.notNd, hp.notCtrlDns, hp.notToSvcMonitor, hp.notFromSvcMonitor]

end

def Reallows (opts : Options) (ls : LogicalSwitch η) (stage : AclStage) (p : Packet η)
    (f : LFlow η) : Prop :=
  f.priority = 1 ∧ f.actions = [.set .verdictAllow true, .next] ∧ stage ≠ .inAclAfterLb ∧
    ls.statefulRecord.hasStateful = true ∧ p.ip = true ∧ p.ctEst = true ∧
    p.blocked opts.ctNoMaskedLabel = true

def Neutral (p : Packet η) (f : LFlow η) : Prop :=
  f.actions = [.next] ∧ (f.priority = 0 ∨ f.priority = 1 ∧ p.ctEst = false)

variable {t : ℕ}

theorem tracked_cases (hp : p.Ordinary) (hst : ls.statefulRecord.hasStateful = true)
    (hr : Ready ls.statefulRecord.hasStateful t r) (hf : f ∈ aclEvalTracked opts)
    (ht : f.table = .eval stage) (hs : f.guard.eval ⟨p, r⟩ = true) :
    Reallows opts ls stage p f ∨ Neutral p f := by
  simp only [aclEvalTracked, mem_cons, not_mem_nil, or_false] at hf
  have hre : (reallowMatch opts : Match η).eval ⟨p, r⟩ = true →
      p.ip = true ∧ p.ctEst = true ∧ p.blocked opts.ctNoMaskedLabel = true := by
    simp [reallowMatch, Match.eval]
  have hnew : (Match.and (.pkt (·.ip)) (.not (.pkt (·.ctEst))) : Match η).eval ⟨p, r⟩ = true →
      p.ctEst = false := by
    simp [Match.eval]
  rcases hf with rfl | rfl | rfl | rfl | rfl | rfl | rfl | rfl | rfl | rfl | rfl
  · obtain rfl : AclStage.inAcl = stage := by simpa using ht
    exact .inl ⟨rfl, rfl, by simp, hst, hre hs⟩
  · obtain rfl : AclStage.outAcl = stage := by simpa using ht
    exact .inl ⟨rfl, rfl, by simp, hst, hre hs⟩
  · exact .inr ⟨rfl, .inr ⟨rfl, hnew hs⟩⟩
  · exact .inr ⟨rfl, .inr ⟨rfl, hnew hs⟩⟩
  -- the packet hits none of the others
  all_goals
    simp [Match.eval, eval_deniedMatch hp, eval_replyMatch hp, eval_relatedMatch hp,
      (hr.hinted hst).notRel] at hs

/-- The flows that decide on an ordinary packet: those of the ACLs, the one that lets blocked
    connections through, and those that leave the verdict open. -/
theorem eval_cases (hp : p.Ordinary) (ha : ls.statefulRecord.hasAcls = true)
    (hr : Ready ls.statefulRecord.hasStateful t r)
    (hf : f ∈ (aclFlows opts ls).filter (·.table = .eval stage)) (hs : f.guard.eval ⟨p, r⟩ = true) :
    (∃ acl ∈ ls.allAcls, acl.stage = stage ∧ f ∈ considerAcl ls.statefulRecord acl) ∨
      Reallows opts ls stage p f ∨ Neutral p f := by
  rw [mem_filter, decide_eq_true_eq] at hf
  obtain ⟨hf, ht⟩ := hf
  rcases mem_aclFlows.1 hf with ⟨pl, h⟩ | h | h | ⟨acl, hacl, h | h⟩ | h | ⟨stage', h⟩
  · simp [table_hints _ _ f h] at ht
  · simp only [aclEvalDefaults, ha, Bool.not_true, Bool.false_eq_true, if_false, mem_cons,
      not_mem_nil, or_false] at h
    rcases h with rfl | rfl | rfl <;> exact .inr (.inr ⟨rfl, .inl rfl⟩)
  · obtain ⟨hst, h⟩ := mem_tracked h
    exact .inr (tracked_cases hp hst hr h ht hs)
  · simp [eval_logRelated hp r acl f h] at hs
  · refine .inl ⟨acl, hacl, ?_, h⟩
    simpa [table_considerAcl _ acl f h] using ht
  · simp [eval_exempt hp r _ f h] at hs
  · simp [table_action _ stage' f h] at ht

/-- The registers after a flow of the evaluation table: the verdict is noted, what the flows
    of the table read is as before. -/
structure Decided (r : Regs) (v : Option Verdict) (r' : Regs) : Prop where
  tier : r'.tier = r.tier
  hintAllowNew : r'.bit .hintAllowNew = r.bit .hintAllowNew
  hintAllow : r'.bit .hintAllow = r.bit .hintAllow
  hintDrop : r'.bit .hintDrop = r.bit .hintDrop
  hintBlock : r'.bit .hintBlock = r.bit .hintBlock
  hintAllowRel : r'.bit .hintAllowRel = r.bit .hintAllowRel
  allow : r'.bit .verdictAllow = decide (v = some .allow)
  drop : r'.bit .verdictDrop = decide (v = some .drop)
  reject : r'.bit .verdictReject = decide (v = some .reject)

def Decides (r : Regs) (v : Option Verdict) (x : Regs × Outcome) : Prop :=
  x.2 = .next ∧ Decided r v x.1

def Regs.note : Option Verdict → Regs → Regs
  | none, r => r
  | some .allow, r => r.set .verdictAllow true
  | some .drop, r => r.set .verdictDrop true
  | some .reject, r => r.set .verdictReject true

theorem runActs_aclVerdict (acl : Acl η) (acts : List Act) (r : Regs) :
    runActs (aclVerdict acl ++ acts) r = runActs acts (r.note acl.action.verdict) := by
  unfold aclVerdict
  cases acl.log <;> cases acl.action <;> rfl

theorem decided_note (hr : Ready st t r) (v : Option Verdict) : Decided r v (r.note v) := by
  rcases v with _ | _ | _ | _ <;>
    exact ⟨rfl, rfl, rfl, rfl, rfl, rfl, by simp [Regs.note, Regs.set, hr.allow],
      by simp [Regs.note, Regs.set, hr.drop], by simp [Regs.note, Regs.set, hr.reject]⟩

theorem runActs_commit {r' : Regs} {v : Option Verdict} (h : Decided r v r') (acl : Acl η) :
    ∀ acts ∈ [[.next], aclLabelActs acl ++ [.next],
        (if acl.label = 0 then [] else [.set .conntrackCommit true]) ++ aclLabelActs acl ++ [.next],
        [.ctCommit, .next]], Decides r v (runActs acts r') := by
  simp only [forall_mem_cons, not_mem_nil, false_implies, implies_true, and_true]
  unfold aclLabelActs
  refine ⟨⟨rfl, h⟩, ?_, ?_, ⟨rfl, h⟩⟩ <;> split <;>
    exact ⟨rfl, h.tier, h.hintAllowNew, h.hintAllow, h.hintDrop, h.hintBlock, h.hintAllowRel,
      h.allow, h.drop, h.reject⟩

theorem considerAcl_run (hr : Ready st t r) (rec : StatefulRecord) (acl : Acl η) :
    ∀ f ∈ considerAcl rec acl, Decides r acl.action.verdict (runActs f.actions r) := by
  have hrest := runActs_commit (decided_note hr acl.action.verdict) acl
  unfold considerAcl
  split
  · simp [runActs_aclVerdict, hrest]
  · split <;> simp [runActs_aclVerdict, hrest]

theorem eval_matchTier (rec : StatefulRecord) (acl : Acl η) (m : Match η) (s : State η) :
    (matchTier rec acl m).eval s = true ↔
      (rec.maxAclTier = 0 ∨ s.regs.tier = acl.tier) ∧ m.eval s = true := by
  unfold matchTier
  split
  next h => simp [h]
  next h => simp [Match.eval, h]

theorem considerAcl_hits {rec : StatefulRecord} (hr : Ready rec.hasStateful t r) {acl : Acl η} :
    (∃ f ∈ considerAcl rec acl, f.guard.eval ⟨p, r⟩ = true) ↔
      (rec.maxAclTier = 0 ∨ acl.tier = t) ∧ acl.matchExpr p = true := by
  have htier : (rec.maxAclTier = 0 ∨ r.tier = acl.tier) ↔ (rec.maxAclTier = 0 ∨ acl.tier = t) := by
    rw [hr.tier, eq_comm (a := t)]
  unfold considerAcl
  by_cases h1 : (!rec.hasStateful || acl.action = .pass || acl.action = .allowStateless) = true
  · rw [if_pos h1]
    simp [eval_matchTier, htier, Match.eval]
  rw [if_neg h1]
  have hst : rec.hasStateful = true := by
    by_contra h
    simp [h] at h1
  have hh := hr.hinted hst
  by_cases h2 : (acl.action = .allow || acl.action = .allowRelated) = true
  · rw [if_pos h2]
    simp only [exists_mem_cons_iff, eval_matchTier, htier, Match.eval, hh.allow]
    cases r.bit .hintAllowNew <;> simp
  · rw [if_neg h2]
    simp only [exists_mem_cons_iff, eval_matchTier, htier, Match.eval, hh.block]
    cases r.bit .hintDrop <;> simp

theorem considerAcl_priority (rec : StatefulRecord) (acl : Acl η) :
    ∀ f ∈ considerAcl rec acl, f.priority = acl.priority + 1000 := by
  unfold considerAcl ovnAclPriOffset
  split_ifs <;> simp

theorem mem_matching {a : Acl η} : a ∈ matching ls stage p t ↔
    a ∈ ls.allAcls ∧ a.stage = stage ∧ a.tier = t ∧ a.matchExpr p = true := by
  simp [matching, and_assoc]

/-- The built-in flow that lets blocked connections through applies to the packet. -/
def reallowed (opts : Options) (ls : LogicalSwitch η) (stage : AclStage) (p : Packet η) : Bool :=
  decide (stage ≠ .inAclAfterLb) && ls.statefulRecord.hasStateful && p.ip && p.ctEst &&
    p.blocked opts.ctNoMaskedLabel

/-- The verdict that the evaluation table notes for a tier. -/
def flowVerdict (opts : Options) (ls : LogicalSwitch η) (stage : AclStage) (p : Packet η)
    (t : ℕ) : Option Verdict :=
  match topAcl ls stage p t with
  | some a => a.action.verdict
  | none => if reallowed opts ls stage p then some .allow else none

theorem matching_of_hits {acl : Acl η} (ht : t ≤ ls.statefulRecord.maxAclTier)
    (hr : Ready ls.statefulRecord.hasStateful t r) (hacl : acl ∈ ls.allAcls)
    (hst : acl.stage = stage)
    (hf : f ∈ considerAcl ls.statefulRecord acl) (hs : f.guard.eval ⟨p, r⟩ = true) :
    acl ∈ matching ls stage p t := by
  obtain ⟨htier, hm⟩ := (considerAcl_hits hr).1 ⟨f, hf, hs⟩
  refine mem_matching.2 ⟨hacl, hst, ?_, hm⟩
  rcases htier with h0 | h
  · have := tier_le_foldr hacl
    rw [← ls.statefulRecord_spec.1.tier] at this
    omega
  · exact h

theorem runTable_eval (L : FlowLookup η) (opts : Options) (stage : AclStage) (hp : p.Ordinary)
    (hsep : ls.Separated) (ha : ls.statefulRecord.hasAcls = true)
    (ht : t ≤ ls.statefulRecord.maxAclTier)
    (hr : Ready ls.statefulRecord.hasStateful t r) :
    Decides r (flowVerdict opts ls stage p t)
      (runTable L (aclFlows opts ls) p (.eval stage) r) := by
  have hmem : ∀ {f : LFlow η}, f ∈ aclFlows opts ls → f.table = .eval stage →
      f ∈ (aclFlows opts ls).filter (·.table = .eval stage) := fun h1 h2 =>
    mem_filter.2 ⟨h1, decide_eq_true h2⟩
  unfold flowVerdict
  match htop : topAcl ls stage p t with
  | some a =>
    have ham := mem_matching.1 (argmax_mem htop)
    obtain ⟨hin, hstage, htier, hmatch⟩ := ham
    obtain ⟨f, hf, hs⟩ := (considerAcl_hits hr).2 ⟨.inr htier, hmatch⟩
    have hfl : f ∈ aclFlows opts ls :=
      mem_aclFlows.2 (.inr (.inr (.inr (.inl ⟨a, hin, .inr hf⟩))))
    refine runTable_of L (hmem hfl (hstage ▸ table_considerAcl _ a f hf)) hs fun g hg hgs hle => ?_
    rw [considerAcl_priority _ a f hf] at hle
    rcases eval_cases hp ha hr hg hgs with ⟨b, hb, hbs, hbf⟩ | ⟨h1, -⟩ | ⟨-, h1 | ⟨h1, -⟩⟩
    · have hbm := matching_of_hits ht hr hb hbs hbf hgs
      rw [considerAcl_priority _ b g hbf] at hle
      have hba : b.priority ≤ a.priority := le_of_mem_argmax hbm htop
      obtain ⟨-, -, hbt, hbm⟩ := mem_matching.1 hbm
      obtain rfl := hsep b hb a hin (hbs.trans hstage.symm) (hbt.trans htier.symm)
        (by omega) ⟨p, hbm, hmatch⟩
      exact considerAcl_run hr _ b g hbf
    all_goals omega
  | none =>
    have hnil : matching ls stage p t = [] := argmax_eq_none.1 htop
    have hno : ∀ g ∈ (aclFlows opts ls).filter (·.table = .eval stage),
        g.guard.eval ⟨p, r⟩ = true → Reallows opts ls stage p g ∨ Neutral p g := by
      intro g hg hgs
      rcases eval_cases hp ha hr hg hgs with ⟨b, hb, hbs, hbf⟩ | h
      · have := matching_of_hits ht hr hb hbs hbf hgs
        rw [hnil] at this
        cases this
      · exact h
    by_cases hre : reallowed opts ls stage p = true
    · have hre' := hre
      simp only [reallowed, Bool.and_eq_true] at hre'
      obtain ⟨⟨⟨⟨hsg, hst⟩, hip⟩, hest⟩, hbl⟩ := hre'
      simp only [if_pos hre]
      let f : LFlow η := ⟨.eval stage, 1, reallowMatch opts, [.set .verdictAllow true, .next]⟩
      have hfl : f ∈ aclEvalStateful opts ls.statefulRecord := by
        unfold aclEvalStateful
        cases stage <;> simp_all [aclEvalTracked, f]
      refine runTable_of L (hmem (mem_aclFlows.2 (by tauto)) rfl)
        (by simp [f, reallowMatch, Match.eval, hip, hest, hbl]) fun g hg hgs hle => ?_
      have hle : 1 ≤ g.priority := hle
      rcases hno g hg hgs with ⟨-, e, -⟩ | ⟨-, h1 | ⟨-, h1⟩⟩
      · rw [e]
        exact ⟨rfl, decided_note hr (some .allow)⟩
      · omega
      · simp [hest] at h1
    · simp only [if_neg hre]
      let f : LFlow η := ⟨.eval stage, 0, .all, [.next]⟩
      have hfl : f ∈ aclEvalDefaults ls.statefulRecord := by
        cases stage <;> simp [aclEvalDefaults, ha, f]
      refine runTable_of L (hmem (mem_aclFlows.2 (by tauto)) rfl) rfl fun g hg hgs _ => ?_
      rcases hno g hg hgs with ⟨-, -, hsg, hst, hip, hest, hbl⟩ | ⟨e, -⟩
      · exact absurd (by simp [reallowed, hsg, hst, hip, hest, hbl]) hre
      · rw [e]
        exact ⟨rfl, decided_note hr none⟩

end

end Ovn.Northd

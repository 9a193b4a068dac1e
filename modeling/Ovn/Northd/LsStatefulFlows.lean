/-
  The records and the flows of the switches follow the northbound content.

  * what the tracked rows say of a switch that no handler looks at,
  * the records are exact after every iteration,
  * the flows are too, unless a port group gains or loses an ACL that is in the table before and
    after, and the records of its switches stay as they are: nothing then rebuilds their flows.
-/
import Ovn.Northd.LsStateful

namespace Ovn.LsStateful

open Northd
open List

variable {η : Type*} {env : Env} {nb : Lb.Nb} {c : Content η} {pgLs : ℕ → Option (Finset ℕ)}
  {od u : ℕ}

/-! ## What a switch depends on -/

theorem mem_allAcls_switch {a : Acl η} : a ∈ (env.switch nb c pgLs od).allAcls ↔
    (∃ u ∈ c.lsAcls od, c.acl u = some a) ∨
      ∃ pg ∈ c.pgs, od ∈ (pgLs pg.uuid).getD ∅ ∧ ∃ u ∈ pg.acls, c.acl u = some a := by
  simp [LogicalSwitch.allAcls, Env.switch, and_assoc]

theorem hasLbVip_switch : (env.switch nb c pgLs od).hasLbVip = true ↔ nb.HasVip od := by
  have hvip : ∀ lbs : List ℕ, (lbs.filterMap (lbOf nb)).any (·.hasVip) = true ↔
      ∃ L ∈ lbs, ∃ row, rowOf (·.uuid) nb.lbs L = some row ∧ row.vips ≠ [] := by
    intro lbs
    simp only [any_eq_true, mem_filterMap, lbOf, Option.map_eq_some_iff, LoadBalancer.hasVip]
    constructor
    · rintro ⟨_, ⟨L, hL, row, hrow, rfl⟩, hv⟩
      exact ⟨L, hL, row, hrow, by simpa using hv⟩
    · rintro ⟨L, hL, row, hrow, hv⟩
      exact ⟨_, ⟨L, hL, row, hrow, rfl⟩, by simpa using hv⟩
  simp only [LogicalSwitch.hasLbVip, Env.switch, Bool.or_eq_true, hvip, any_map,
    any_eq_true, Function.comp_apply, Lb.Nb.mem_lbs_iff_odLb, Lb.Nb.mem_lbgrps_iff_odGrp]
  constructor
  · rintro (⟨L, hL, row, hrow, hv⟩ | ⟨G, hG, L, hL, row, hrow, hv⟩)
    · exact ⟨L, row, .inl hL, hrow, hv⟩
    · exact ⟨L, row, .inr ⟨G, hG, hL⟩, hrow, hv⟩
  · rintro ⟨L, row, hL | ⟨G, hG, hL⟩, hrow, hv⟩
    · exact .inl ⟨L, hL, row, hrow, hv⟩
    · exact .inr ⟨G, hG, L, hL, row, hrow, hv⟩

/-! ## What is tracked -/

/-- What holds of the input of an iteration: the rows are tracked that changed, and those that
    refer to a row that was modified. -/
structure Valid (nb : Lb.Nb) (c : Content η) (inp : Input η) : Prop where
  lb : Lb.Valid nb inp.lb
  acls : Tracks (·.uuid) c.acls inp.content.acls inp.acls
  pgs : Tracks (·.uuid) c.pgs inp.content.pgs inp.pgs
  modified : ∀ r ∈ c.acls, ∀ r' ∈ inp.content.acls, r'.uuid = r.uuid → r' ≠ r →
    inp.aclModified r.uuid = true
  lsUpdated : ∀ od, inp.content.lsAcls od ≠ c.lsAcls od →
    inp.lsAclsUpdated od = true ∧ od ∈ (inp.lb.ods .ls).map (·.row.uuid)
  lsRefs : ∀ od, ∀ u ∈ inp.content.lsAcls od, inp.aclModified u = true →
    od ∈ (inp.lb.ods .ls).map (·.row.uuid)
  pgRefs : ∀ pg ∈ inp.content.pgs, ∀ u ∈ pg.acls, inp.aclModified u = true →
    pg.uuid ∈ inp.pgs.map (·.row.uuid)

namespace Valid

variable {inp : Input η}

theorem acl_eq (hv : Valid nb c inp) (hold : u ∈ c.acls.map (·.uuid))
    (hnew : u ∈ inp.content.acls.map (·.uuid)) (hm : inp.aclModified u = false) :
    inp.content.acl u = c.acl u := by
  obtain ⟨r, hr, rfl⟩ := mem_map.1 hold
  obtain ⟨r', hr', hu⟩ := mem_map.1 hnew
  have heq : r' = r := by
    by_contra hne
    rw [hv.modified r hr r' hr' hu hne] at hm
    cases hm
  subst heq
  rw [Content.acl, Content.acl, rowOf_of_mem c.aclsNodup hr, rowOf_of_mem inp.content.aclsNodup hr']

theorem lsAcls_same (hv : Valid nb c inp) (hod : od ∉ inp.lsWithChangedAcls) :
    inp.content.lsAcls od = c.lsAcls od ∧ ∀ u ∈ c.lsAcls od, inp.content.acl u = c.acl u := by
  have hno : od ∈ (inp.lb.ods .ls).map (·.row.uuid) → inp.isLsAclsChanged od = false := by
    intro hin
    by_contra hch
    exact hod (mem_filter.2 ⟨hin, by simpa using hch⟩)
  have hcol : inp.content.lsAcls od = c.lsAcls od := by
    by_contra hne
    obtain ⟨hupd, hin⟩ := hv.lsUpdated od hne
    have := hno hin
    simp [Input.isLsAclsChanged, hupd] at this
  refine ⟨hcol, fun u hu => ?_⟩
  have hu' : u ∈ inp.content.lsAcls od := hcol ▸ hu
  refine hv.acl_eq (c.lsAclRefs od u hu) (inp.content.lsAclRefs od u hu') ?_
  by_contra hm
  have hm : inp.aclModified u = true := by simpa using hm
  have := hno (hv.lsRefs od u hu' hm)
  simp only [Input.isLsAclsChanged, Bool.or_eq_false_iff, any_eq_false] at this
  exact this.2 u hu' hm

theorem pgs_same (hv : Valid nb c inp) (hnil : inp.pgs = []) :
    (∀ pg, pg ∈ inp.content.pgs ↔ pg ∈ c.pgs) ∧
      ∀ pg ∈ c.pgs, ∀ u ∈ pg.acls, inp.content.acl u = c.acl u := by
  have hsame : ∀ pg, pg ∈ inp.content.pgs ↔ pg ∈ c.pgs := by
    intro pg
    rw [← rowOf_self_iff inp.content.pgsNodup, ← rowOf_self_iff c.pgsNodup,
      hv.pgs.rowOf_eq c.pgsNodup (by simp [hnil])]
  refine ⟨hsame, fun pg hpg u hu => ?_⟩
  have hpg' := (hsame pg).2 hpg
  refine hv.acl_eq (c.pgAclRefs pg hpg u hu) (inp.content.pgAclRefs pg hpg' u hu) ?_
  by_contra hm
  have := hv.pgRefs pg hpg' u hu (by simpa using hm)
  rw [hnil] at this
  cases this

theorem acls_same (hv : Valid nb c inp) (hnil : inp.acls = []) (u : ℕ) :
    inp.content.acl u = c.acl u := by
  rw [Content.acl, Content.acl, hv.acls.rowOf_eq c.aclsNodup (by simp [hnil])]

section
variable (hv : Valid nb c inp) (hh : env.portGroupHandler pgLs inp.pgs = true)

include hv hh

theorem tracked_pg {t : TrackedRow PgRow} (ht : t ∈ inp.pgs) :
    t.isNew = false ∧ t.row ∈ inp.content.pgs ∧ pgLs t.row.uuid = some (env.switches t.row) := by
  have := all_eq_true.1 hh t ht
  simp only [Bool.and_eq_true, Bool.not_eq_true', decide_eq_true_eq] at this
  exact ⟨this.1.1, (hv.pgs.each t ht).row this.1.2, this.2⟩

theorem pgLs_same (hpg : pgLs = env.lsPortGroupTableBuild c.pgs) :
    env.lsPortGroupTableBuild inp.content.pgs = pgLs := by
  funext u
  by_cases hu : u ∈ inp.pgs.map (·.row.uuid)
  · obtain ⟨t, ht, rfl⟩ := mem_map.1 hu
    obtain ⟨-, hrow, hs⟩ := hv.tracked_pg hh ht
    rw [hs, Env.lsPortGroupTableBuild, rowOf_of_mem inp.content.pgsNodup hrow]
    rfl
  · simp [hpg, Env.lsPortGroupTableBuild, hv.pgs.rowOf_eq c.pgsNodup hu]

theorem exists_old {pg' : PgRow} (hpg' : pg' ∈ inp.content.pgs) :
    ∃ pg ∈ c.pgs, pg.uuid = pg'.uuid := by
  by_cases hold : pg' ∈ c.pgs
  · exact ⟨pg', hold, rfl⟩
  · obtain ⟨t, ht, rfl⟩ := hv.pgs.changed pg' hpg' hold
    exact mem_map.1 ((hv.pgs.each t ht).mem_old (hv.tracked_pg hh ht).1)

theorem exists_new {pg : PgRow} (hpg : pg ∈ c.pgs) :
    ∃ pg' ∈ inp.content.pgs, pg'.uuid = pg.uuid := by
  by_contra hno
  obtain ⟨t, ht, hu⟩ := hv.pgs.deleted pg hpg fun hin => hno (by simpa using hin)
  exact hno ⟨t.row, (hv.tracked_pg hh ht).2.1, hu⟩

end

end Valid

/-! ## The handlers of ls_stateful -/

def aclFlags (r : StatefulRecord) : Bool × Bool × ℕ := (r.hasStatefulAcl, r.hasAcls, r.maxAclTier)

theorem handleLsPg_eq (r : ℕ → StatefulRecord) (n : Node) (od : ℕ) : n.handleLsPg r od =
    { records := Function.update n.records od (r od)
      crupdated := if aclFlags (n.records od) ≠ aclFlags (r od) then insert od n.crupdated
        else n.crupdated } := by
  have hiff : aclFlags (n.records od) ≠ aclFlags (r od) ↔
      (n.records od).hasStatefulAcl ≠ (r od).hasStatefulAcl ∨
        (n.records od).hasAcls ≠ (r od).hasAcls ∨
        (n.records od).maxAclTier ≠ (r od).maxAclTier := by
    simp only [aclFlags, ne_eq, Prod.mk.injEq]
    tauto
  simp only [Node.handleLsPg, hiff]

theorem portGroupHandler_spec (r : ℕ → StatefulRecord) (l : List ℕ) (n : Node) (od : ℕ) :
    (n.portGroupHandler r l).records od = (if od ∈ l then r od else n.records od) ∧
      (od ∈ (n.portGroupHandler r l).crupdated ↔
        od ∈ n.crupdated ∨ (od ∈ l ∧ aclFlags (n.records od) ≠ aclFlags (r od))) := by
  induction l generalizing n with
  | nil => simp [Node.portGroupHandler]
  | cons o l ih =>
    obtain ⟨hrec, htrk⟩ := ih (n.handleLsPg r o)
    have hfold : n.portGroupHandler r (o :: l) = (n.handleLsPg r o).portGroupHandler r l := rfl
    rw [hfold, hrec, htrk, handleLsPg_eq]
    by_cases ho : od = o
    · subst ho
      by_cases hf : aclFlags (n.records od) = aclFlags (r od) <;> simp [hf]
    · by_cases hf : aclFlags (n.records o) = aclFlags (r o) <;> simp [hf, ho]

theorem handlers_spec (r : ℕ → StatefulRecord) (ch : Finset ℕ) (l : List ℕ)
    (records : ℕ → StatefulRecord) (b : Bool) (od : ℕ) :
    let n := Node.northdHandler r ch ⟨records, ∅⟩
    let n' := if b then n else n.portGroupHandler r l
    n'.records od = (if od ∈ ch ∨ (b = false ∧ od ∈ l) then r od else records od) ∧
      (od ∈ n'.crupdated ↔ od ∈ ch ∨
        (b = false ∧ od ∈ l ∧ aclFlags (records od) ≠ aclFlags (r od))) := by
  intro n n'
  have hrec : n.records od = if od ∈ ch then r od else records od := rfl
  have htrk : od ∈ n.crupdated ↔ od ∈ ch := by simp [n, Node.northdHandler]
  cases b with
  | true => simp [n', hrec, htrk]
  | false =>
    obtain ⟨h1, h2⟩ := portGroupHandler_spec r l n od
    refine ⟨h1.trans ?_, h2.trans ?_⟩
    · rw [hrec]
      by_cases hch : od ∈ ch <;> simp [hch]
    · rw [hrec, htrk]
      by_cases hch : od ∈ ch <;> simp [hch]

/-! ## One iteration -/

structure Inv (env : Env) (s : State η) : Prop where
  data : s.lb.data.Of s.lb.nb
  covers : Lb.Covers env.dp s.lb.nb s.lb.northd
  pgLs : s.pgLs = env.lsPortGroupTableBuild s.content.pgs
  records : ∀ od ∈ env.dp.ods .ls, s.records od = init env s.lb.nb s.content s.pgLs od

/-- The flows of the switches are those of the current content. -/
def FlowsExact (env : Env) (s : State η) : Prop :=
  ∀ od ∈ env.dp.ods .ls, ∀ f, f ∈ s.flows od ↔
    f ∈ build env s.lb.nb s.content s.pgLs (init env s.lb.nb s.content s.pgLs) od

def changed (lb : Lb.State) (inp : Input η) : Finset ℕ :=
  lb.northd.lsWithChangedLbs ∪ inp.lsWithChangedAcls.toFinset

/-- Where a port group gains or loses an ACL although the table of ACLs and the switches of the
    port groups stay as they are, each of its switches is one that northd says changed, or has
    the flags of its record change. -/
def PgAclsCovered (env : Env) (s : State η) (inp : Input η) : Prop :=
  inp.acls = [] → inp.lflowRecompute = false → env.portGroupHandler s.pgLs inp.pgs = true →
  ∀ lb, s.lb.iterate env.dp inp.lb = .ok lb →
  ∀ pg ∈ s.content.pgs, ∀ pg' ∈ inp.content.pgs, pg'.uuid = pg.uuid →
    (∃ u, ¬ (u ∈ pg.acls ↔ u ∈ pg'.acls)) → ∀ od ∈ env.switches pg', od ∈ changed lb inp ∨
      aclFlags (s.records od) ≠ aclFlags (init env lb.nb inp.content s.pgLs od)

section
variable {inp : Input η} {lb : Lb.State}

/-- A switch that no handler looks at has the record it had. -/
theorem init_same (hv : Valid nb c inp)
    (hh : env.portGroupHandler pgLs inp.pgs = true) (hdp : od ∈ env.dp.ods .ls)
    (hvip : nb.HasVip od ↔ lb.nb.HasVip od) (hod : od ∉ inp.lsWithChangedAcls)
    (hpgs : inp.pgs = [] ∨ od ∉ env.lsPortGroups inp.content.pgs pgLs) :
    init env lb.nb inp.content pgLs od = init env nb c pgLs od := by
  obtain ⟨hcol, hacl⟩ := hv.lsAcls_same hod
  refine LogicalSwitch.statefulRecord_congr (fun a => ?_) ?_
  · rw [mem_allAcls_switch, mem_allAcls_switch, hcol]
    refine or_congr ?_ ?_
    · refine exists_congr fun u => and_congr_right fun hu => ?_
      rw [hacl u hu]
    · rcases hpgs with hnil | hno
      · obtain ⟨hsame, hacl⟩ := hv.pgs_same hnil
        refine exists_congr fun pg => ?_
        rw [hsame pg]
        refine and_congr_right fun hin => and_congr_right fun _ => exists_congr fun u =>
          and_congr_right fun hu => ?_
        rw [hacl pg hin u hu]
      · -- the switch has no port groups, and had none
        have hnone : ∀ pg' ∈ inp.content.pgs, od ∉ (pgLs pg'.uuid).getD ∅ := by
          intro pg' hpg' hin
          refine hno (mem_filter.2 ⟨hdp, any_eq_true.2 ⟨pg', hpg', by simpa using hin⟩⟩)
        refine iff_of_false ?_ ?_
        · simp_all
        · rintro ⟨pg, hpg, hin, -⟩
          obtain ⟨pg', hpg', hu⟩ := hv.exists_new hh hpg
          rw [← hu] at hin
          exact hnone pg' hpg' hin
  · rw [Bool.eq_iff_iff, hasLbVip_switch, hasLbVip_switch, hvip]

/-- An iteration in which the sets of switches of the port groups stay as they are. -/
structure Kept (env : Env) (s : State η) (inp : Input η) (lb : Lb.State) (s' : State η) : Prop where
  handled : env.portGroupHandler s.pgLs inp.pgs = true
  lbState : s'.lb = lb
  content : s'.content = inp.content
  pgLs : s'.pgLs = s.pgLs
  records : ∀ od, s'.records od =
    if od ∈ changed lb inp ∨
      (inp.pgs.isEmpty = false ∧ od ∈ env.lsPortGroups inp.content.pgs s.pgLs)
    then init env lb.nb inp.content s.pgLs od else s.records od
  flows : ∀ od, s'.flows od = build env lb.nb inp.content s.pgLs s'.records od ∨
    (s'.flows od = s.flows od ∧ inp.acls = [] ∧ inp.lflowRecompute = false ∧ od ∉ changed lb inp ∧
      (inp.pgs.isEmpty = false → od ∈ env.lsPortGroups inp.content.pgs s.pgLs →
        aclFlags (s.records od) = aclFlags (init env lb.nb inp.content s.pgLs od)))

/-- **What an iteration does**: everything anew, or what the handlers say. -/
theorem iterate_cases {s s' : State η} (hs' : s.iterate env inp = .ok s') :
    ∃ lb, s.lb.iterate env.dp inp.lb = .ok lb ∧
      (s' = State.computed env lb inp.content ∨ Kept env s inp lb s') := by
  unfold State.iterate at hs'
  cases hit : s.lb.iterate env.dp inp.lb with
  | error e => simp [hit] at hs'
  | ok lb =>
    refine ⟨lb, rfl, ?_⟩
    simp only [hit] at hs'
    split at hs'
    · cases hs'
      exact .inl rfl
    rename_i hh
    have hspec := handlers_spec (init env lb.nb inp.content s.pgLs)
      (lb.northd.lsWithChangedLbs ∪ inp.lsWithChangedAcls.toFinset)
      (env.lsPortGroups inp.content.pgs s.pgLs) s.records inp.pgs.isEmpty
    dsimp only at hspec
    generalize ite (inp.pgs.isEmpty = true) _ _ = n at hs' hspec
    cases hs'
    refine .inr ⟨by simpa using hh, rfl, rfl, rfl, fun od => (hspec od).1, fun od => ?_⟩
    by_cases hlflow : (!inp.acls.isEmpty || inp.lflowRecompute) = true
    · exact .inl (by simp only [if_pos hlflow])
    by_cases hno : od ∈ n.crupdated
    · exact .inl (by simp only [if_neg hlflow, if_pos hno])
    obtain ⟨hacls, hre⟩ : inp.acls = [] ∧ inp.lflowRecompute = false := by simpa using hlflow
    obtain ⟨hch, hpg⟩ := not_or.1 ((hspec od).2.not.1 hno)
    refine .inr ⟨by simp only [if_neg hlflow, if_neg hno], hacls, hre, hch, fun hne hin => ?_⟩
    by_contra hflags
    exact hpg ⟨hne, hin, hflags⟩

theorem Inv.iterate {s s' : State η} (h : Inv env s) (hv : Valid s.lb.nb s.content inp)
    (hs' : s.iterate env inp = .ok s') : Inv env s' := by
  obtain ⟨lb, hit, hcase⟩ := iterate_cases hs'
  have hlb := Lb.covers_iterate h.data h.covers hv.lb
  rw [hit] at hlb
  obtain ⟨-, hdata, hcov, -, htrk⟩ := hlb
  rcases hcase with rfl | hk
  · exact ⟨hdata, hcov, rfl, fun od _ => rfl⟩
  have hsame := hv.pgLs_same hk.handled h.pgLs
  refine ⟨?_, ?_, ?_, fun od hod => ?_⟩
  · rwa [hk.lbState]
  · rwa [hk.lbState]
  · rw [hk.pgLs, hk.content, hsame]
  · rw [hk.records od, hk.lbState, hk.content, hk.pgLs]
    split
    · rfl
    next hno =>
      obtain ⟨hch, hpg⟩ := not_or.1 hno
      obtain ⟨hlbs, hacls⟩ := not_or.1 (Finset.mem_union.not.1 hch)
      rw [h.records od hod]
      refine (init_same hv hk.handled hod ?_ (fun hin => hacls (mem_toFinset.2 hin)) ?_).symm
      · by_contra hne
        exact hlbs (htrk od hod hne)
      · cases he : inp.pgs.isEmpty with
        | true => exact .inl (isEmpty_iff.1 he)
        | false => exact .inr fun hin => hpg ⟨he, hin⟩

/-- A switch whose flows are not rebuilt has the ACLs it had. -/
theorem Kept.acls_same {s s' : State η} (hk : Kept env s inp lb s') (hinv : Inv env s)
    (hv : Valid s.lb.nb s.content inp) (hcov : PgAclsCovered env s inp)
    (hit : s.lb.iterate env.dp inp.lb = .ok lb) (hod : od ∈ env.dp.ods .ls) (hacls : inp.acls = [])
    (hre : inp.lflowRecompute = false) (hch : od ∉ changed lb inp)
    (hflags : inp.pgs.isEmpty = false → od ∈ env.lsPortGroups inp.content.pgs s.pgLs →
      aclFlags (s.records od) = aclFlags (init env lb.nb inp.content s.pgLs od)) (a : Acl η) :
    a ∈ (env.switch lb.nb inp.content s.pgLs od).allAcls ↔
      a ∈ (env.switch s.lb.nb s.content s.pgLs od).allAcls := by
  have hacl := hv.acls_same hacls
  obtain ⟨-, hls⟩ := not_or.1 (Finset.mem_union.not.1 hch)
  -- a port group of the switch has the ACLs it had
  have hpgAcls : ∀ pg ∈ s.content.pgs, ∀ pg' ∈ inp.content.pgs, pg'.uuid = pg.uuid →
      od ∈ (s.pgLs pg'.uuid).getD ∅ → ∀ u, u ∈ pg.acls ↔ u ∈ pg'.acls := by
    intro pg hpg pg' hpg' hu hin u
    by_contra hne
    have hsw : od ∈ env.switches pg' := by
      have := hv.pgLs_same hk.handled hinv.pgLs
      rw [← this, Env.lsPortGroupTableBuild, rowOf_of_mem inp.content.pgsNodup hpg'] at hin
      exact hin
    rcases hcov hacls hre hk.handled lb hit pg hpg pg' hpg' hu ⟨u, hne⟩ od hsw with h | h
    · exact hch h
    refine h (hflags ?_ ?_)
    · have hnew : pg' ∉ s.content.pgs := by
        intro hold
        rw [inj_on_of_nodup_map s.content.pgsNodup hold hpg hu] at hne
        exact hne .rfl
      obtain ⟨t, ht, -⟩ := hv.pgs.changed pg' hpg' hnew
      rw [isEmpty_eq_false_iff]
      exact ne_nil_of_mem ht
    · exact mem_filter.2 ⟨hod, any_eq_true.2 ⟨pg', hpg', by simpa using hin⟩⟩
  rw [mem_allAcls_switch, mem_allAcls_switch,
    (hv.lsAcls_same fun hin => hls (mem_toFinset.2 hin)).1]
  simp only [hacl]
  refine or_congr_right ?_
  constructor
  · rintro ⟨pg', hpg', hin, u, hu, ha⟩
    obtain ⟨pg, hpg, heq⟩ := hv.exists_old hk.handled hpg'
    refine ⟨pg, hpg, heq ▸ hin, u, (hpgAcls pg hpg pg' hpg' heq.symm hin u).2 hu, ha⟩
  · rintro ⟨pg, hpg, hin, u, hu, ha⟩
    obtain ⟨pg', hpg', heq⟩ := hv.exists_new hk.handled hpg
    have hin : od ∈ (s.pgLs pg'.uuid).getD ∅ := heq ▸ hin
    exact ⟨pg', hpg', hin, u, (hpgAcls pg hpg pg' hpg' heq hin u).1 hu, ha⟩

theorem FlowsExact.iterate {s s' : State η} (h : FlowsExact env s) (hinv : Inv env s)
    (hv : Valid s.lb.nb s.content inp) (hcov : PgAclsCovered env s inp)
    (hs' : s.iterate env inp = .ok s') : FlowsExact env s' := by
  have hinv' := hinv.iterate hv hs'
  obtain ⟨lb, hit, hcase⟩ := iterate_cases hs'
  intro od hod f
  rcases hcase with rfl | hk
  · rfl
  have hrec := hinv'.records od hod
  rw [hk.lbState, hk.content, hk.pgLs] at hrec ⊢
  rcases hk.flows od with hnew | ⟨hold, hacls, hre, hch, hflags⟩
  · rw [hnew, build, build, hrec]
  have hsame := hk.acls_same hinv hv hcov hit hod hacls hre hch hflags
  have hvip : (env.switch lb.nb inp.content s.pgLs od).hasLbVip =
      (env.switch s.lb.nb s.content s.pgLs od).hasLbVip := by
    have hlb := Lb.covers_iterate hinv.data hinv.covers hv.lb
    rw [hit] at hlb
    rw [Bool.eq_iff_iff, hasLbVip_switch, hasLbVip_switch]
    by_contra hne
    exact hch (Finset.mem_union_left _ (hlb.2.2.2.2 od hod fun hiff => hne hiff.symm))
  rw [hold, h od hod f, build, build, init, init, LogicalSwitch.statefulRecord_congr hsame hvip]
  exact (mem_buildLsStatefulFlows_congr hsame rfl f).symm

end

/-! ## Whole runs -/

theorem inv_computed (env : Env) (nb : Lb.Nb) (c : Content η) {t : Lb.Northd}
    (ht : Lb.Northd.recompute env.dp nb = .ok t) :
    Inv env (State.computed env ⟨nb, .run nb, t⟩ c) := by
  have hx : Ends (· = Lb.Fail.overflow) (Lb.Exact env.dp nb) (.ok t) :=
    ht ▸ Lb.Northd.ends_recompute (.inl rfl)
  exact ⟨Lb.LbData.of_run nb, hx.covers, rfl, fun _ _ => rfl⟩

theorem next_eq {s₀ s s' : State η} {inp : Input η} (h : (iterations env s₀).next s inp = some s') :
    s.iterate env inp = .ok s' := by
  cases hit : s.iterate env inp with
  | ok t => simpa [iterations, hit, Except.toOption] using h
  | error e => simp [iterations, hit, Except.toOption] at h

/-- **Records and flows follow the content.** After every iteration the record of every switch is
    the one that `ls_stateful_record_init` computes from the current content.  If no iteration
    changes the ACLs of a port group unnoticed, the flows of every switch are those that
    `build_ls_stateful_flows` produces from the current content. -/
theorem ls_stateful_exact (env : Env) (nb₀ : Lb.Nb) (c₀ : Content η) {t₀ : Lb.Northd}
    (h₀ : Lb.Northd.recompute env.dp nb₀ = .ok t₀) {s : State η} :
    ((iterations env (.computed env ⟨nb₀, .run nb₀, t₀⟩ c₀)).Reached
      (fun s inp => Valid s.lb.nb s.content inp) s →
      ∀ od ∈ env.dp.ods .ls, s.records od = init env s.lb.nb s.content s.pgLs od) ∧
    ((iterations env (.computed env ⟨nb₀, .run nb₀, t₀⟩ c₀)).Reached
      (fun s inp => Valid s.lb.nb s.content inp ∧ PgAclsCovered env s inp) s →
      FlowsExact env s) := by
  constructor
  · intro h
    have hinv : Inv env s := h.invariant (inv_computed env nb₀ c₀ h₀)
      fun s inp s' hs hv hn => hs.iterate hv (next_eq hn)
    exact hinv.records
  · intro h
    have hinv : Inv env s ∧ FlowsExact env s :=
      h.invariant (I := fun s => Inv env s ∧ FlowsExact env s)
        ⟨inv_computed env nb₀ c₀ h₀, fun _ _ _ => .rfl⟩
        fun s inp s' hs hv hn => ⟨hs.1.iterate hv.1 (next_eq hn),
          hs.2.iterate hs.1 hv.1 hv.2 (next_eq hn)⟩
    exact hinv.2

def twoSwitches : Lb.Nb where
  lbs := []
  lbgrps := []
  ods
    | .ls => [⟨0, [], []⟩, ⟨1, [], []⟩]
    | .lr => []
  lbsNodup := nodup_nil
  lbgrpsNodup := nodup_nil
  odsNodup k := by cases k <;> decide
  lbgrpRefs := nofun
  odLbRefs k od hod L hL := by
    cases k with
    | ls => rcases mem_pair.1 hod with rfl | rfl <;> cases hL
    | lr => cases hod
  odLbgrpRefs k od hod := by
    cases k with
    | ls =>
      rcases mem_pair.1 hod with rfl | rfl <;>
        exact ⟨nodup_nil, nofun⟩
    | lr => cases hod

def anyAcl (priority : ℕ) (h : priority ≤ 32767) (action : AclAction) : Acl Unit where
  direction := .toLport
  priority := priority
  priority_le := h
  tier := 0
  tier_le := Nat.zero_le (nat_lit 3)
  matchExpr _ := true
  action := action
  log := false
  logRelated := false
  applyAfterLb := false
  label := 0

def onePortGroup (acls : List ℕ) (h : ∀ a ∈ acls, a < 3) : Content Unit where
  acls := [⟨0, anyAcl 10 (by decide) .drop⟩, ⟨1, anyAcl 20 (by decide) .allow⟩,
    ⟨2, anyAcl 30 (by decide) .allowRelated⟩]
  pgs := [⟨0, [0], acls⟩]
  lsAcls od := if od = 1 then [0, 1, 2] else []
  aclsNodup := by decide
  pgsNodup := by simp
  lsAclRefs od a ha := by
    by_cases hod : od = 1
    · simpa [hod] using ha
    · simp [hod] at ha
  pgAclRefs pg hpg a ha := by
    obtain rfl := mem_singleton.1 hpg
    have := h a ha
    simp
    omega

def onePort : Env where
  dp := ⟨fun | .ls => [0, 1] | .lr => [], fun _ => [], false⟩
  ports _ := ⟨[], []⟩
  portLs _ := some 0
  hasDnsRecords _ := false
  opts := ⟨false, false, false, false⟩

def pgAclsChange (acls : List ℕ) (h : ∀ a ∈ acls, a < 3) : Input Unit where
  lb := ⟨twoSwitches, [], [], fun _ => [], fun _ => false⟩
  content := onePortGroup acls h
  acls := []
  pgs := [⟨⟨0, [0], acls⟩, false, false⟩]
  aclModified _ := false
  lsAclsUpdated _ := false
  lflowRecompute := false

theorem pgAclsChange_valid {acls acls' : List ℕ} (h : ∀ a ∈ acls, a < 3) (h' : ∀ a ∈ acls', a < 3) :
    Valid twoSwitches (onePortGroup acls h) (pgAclsChange acls' h') where
  lb := ⟨.same _ _, .same _ _, fun _ => .same _ _, nofun⟩
  acls := .same _ _
  pgs := .replaced rfl
  modified r hr r' hr' hu hne := by
    exact absurd (inj_on_of_nodup_map (onePortGroup acls h).aclsNodup hr' hr hu) hne
  lsUpdated _ hne := absurd rfl hne
  lsRefs _ _ _ hm := absurd hm Bool.false_ne_true
  pgRefs _ _ _ _ hm := absurd hm Bool.false_ne_true

/-- A port group loses an ACL that another switch still has: its switch keeps the flow of the
    ACL. -/
theorem ls_stateful_not_exact : ∃ t s', Lb.Northd.recompute onePort.dp twoSwitches = .ok t ∧
    Valid twoSwitches (onePortGroup [0, 1] (by decide)) (pgAclsChange [0] (by decide)) ∧
    State.iterate onePort (.computed onePort ⟨twoSwitches, .run twoSwitches, t⟩
      (onePortGroup [0, 1] (by decide))) (pgAclsChange [0] (by decide)) = .ok s' ∧
    (s'.flows 0).any (·.priority = 1020) = true ∧
    (build onePort s'.lb.nb s'.content s'.pgLs (init onePort s'.lb.nb s'.content s'.pgLs) 0).any
      (·.priority = 1020) = false := by
  refine ⟨_, _, rfl, pgAclsChange_valid _ _, rfl, ?_, ?_⟩
  · decide
  · decide

/-- A port group gains the first stateful ACL of its switch. -/
theorem ls_stateful_exact_gains : ∃ t s', Lb.Northd.recompute onePort.dp twoSwitches = .ok t ∧
    State.iterate onePort (.computed onePort ⟨twoSwitches, .run twoSwitches, t⟩
      (onePortGroup [0] (by decide))) (pgAclsChange [0, 2] (by decide)) = .ok s' ∧
    (s'.records 0).hasStatefulAcl = true ∧ FlowsExact onePort s' := by
  have hcov : ∀ t, PgAclsCovered onePort (.computed onePort ⟨twoSwitches, .run twoSwitches, t⟩
      (onePortGroup [0] (by decide))) (pgAclsChange [0, 2] (by decide)) := by
    intro t _ _ _ lb _ pg _ pg' _ _ _ od hod
    obtain rfl : od = 0 := by
      simp only [Env.switches, mem_toFinset, mem_filterMap] at hod
      obtain ⟨_, -, h⟩ := hod
      exact (Option.some.inj h).symm
    refine .inr fun heq => ?_
    have hflag : false = true := congrArg Prod.fst heq
    cases hflag
  refine ⟨_, _, rfl, rfl, ?_, (ls_stateful_exact onePort twoSwitches (onePortGroup [0] (by decide))
    rfl).2 (.step .init
      ⟨pgAclsChange_valid (by decide) (by decide), hcov _⟩ rfl)⟩
  decide

end Ovn.LsStateful

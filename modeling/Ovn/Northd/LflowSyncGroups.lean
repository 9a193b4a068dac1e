/-
  When the logical flow table is synchronized, said of the table and of the southbound database as
  they were.

  The type of a row's datapaths does not change while the rows are visited, so the flow of each row
  is known from the start.  A row of a flow with several datapaths, which no flow of an earlier row
  has, makes a group.  Only the first of the rows with one group that makes a group can be misled by
  what that group had.
-/
import Ovn.Northd.LflowSyncRun

namespace Ovn.LflowSync

open Sync
open Function (update update_apply update_of_ne update_self)
open List

variable {dps : Datapaths}

/-! ## The rows that make a group -/

section
variable (table : Table dps) (sb : Sb)

/-- The flow of a row. -/
def flowOf (r : SbFlow) : Option Lflow :=
  (rowType dps sb.groups r).bind fun t => table.entries.find? fun f => f.dpType = t ∧
  f.spec = r.spec

/-- A row, after others, is the first one of a flow with these datapaths, which are several. -/
def Creates (pre : List SbFlow) (r : SbFlow) (f : Lflow) : Prop :=
  flowOf table sb r = some f ∧ 1 < f.dpgBitmap.card ∧ ∀ r' ∈ pre, ∀ f',
    flowOf table sb r' = some f' →
    f'.dpType = f.dpType → f'.dpgBitmap ≠ f.dpgBitmap

/-- One of the rows makes a group where it has this one. -/
def Touched (pre : List SbFlow) (u : ℕ) : Prop :=
  ∃ p r q f, pre = p ++ r :: q ∧ Creates table sb p r f ∧ r.logicalDpGroup = some u

/-- A row, after others, is the first that makes a group where it has a misleading one. -/
def Mistakes (pre : List SbFlow) (r : SbFlow) : Prop :=
  ∃ f u l, Creates table sb pre r f ∧ r.logicalDpGroup = some u ∧ ¬ Touched table sb pre u ∧
    sb.groups u = some l ∧ Misleading dps f.dpType f.dpgBitmap l

/-- No row is misled by its group. -/
def Unmistaken : Prop := ∀ pre r post, sb.flows = pre ++ r :: post → ¬ Mistakes table sb pre r

end

/-- No group has switches and routers. -/
def Unmixed (dps : Datapaths) (sb : Sb) : Prop :=
  ∀ u l, sb.groups u = some l → ∀ v ∈ l, ∀ w ∈ l, ∀ x y, dps.fromSbrec v = some x →
    dps.fromSbrec w = some y →
    x.1 = y.1

section
variable {table : Table dps} {sb : Sb} {pre : List SbFlow} {r : SbFlow} {f : Lflow}
    {s s' : Sync} {u : ℕ}

/-- The type of the first datapath of a group that is found. -/
def firstType (dps : Datapaths) (l : List ℕ) : Option DpType :=
  (l.findSome? dps.fromSbrec).map (·.1)

theorem rowType_eq (hr : r ∈ sb.flows) {groups : ℕ → Option (List ℕ)} {l : List ℕ}
    (hgroup : r.logicalDpGroup = some u) (hu : groups u = some l) :
    rowType dps groups r = firstType dps l := by
  have hdp : r.logicalDatapath = none := (sb.either r hr).resolve_left (by rw [hgroup]; exact nofun)
  unfold rowType
  rw [hgroup, Option.bind_some, hu, hdp]
  cases l <;> rfl

theorem find?_flow {l : List Lflow} (hsub : ∀ g ∈ l, g ∈ table.entries) (hf : f ∈ l) :
    l.find? (fun g => g.dpType = f.dpType ∧ g.spec = f.spec) = some f := by
  cases hfind : l.find? (fun g => g.dpType = f.dpType ∧ g.spec = f.spec) with
  | none => exact absurd (find?_eq_none.1 hfind f hf) (by simp)
  | some g =>
    have hg := find?_some hfind
    rw [decide_eq_true_iff] at hg
    rw [inj_on_of_nodup_map table.nodup (hsub g (mem_of_find?_eq_some hfind)) (hsub f hf)
      (Prod.ext hg.1 hg.2)]

theorem flowOf_eq_some : flowOf table sb r = some f ↔
    rowType dps sb.groups r = some f.dpType ∧ f ∈ table.entries ∧ f.spec = r.spec := by
  constructor
  · intro h
    obtain ⟨t, ht, hfind⟩ := Option.bind_eq_some_iff.1 h
    have hf := find?_some hfind
    rw [decide_eq_true_iff] at hf
    exact ⟨by rw [ht, hf.1], mem_of_find?_eq_some hfind, hf.2⟩
  · rintro ⟨ht, hf, hspec⟩
    rw [flowOf, ht, Option.bind_some, ← hspec]
    exact find?_flow (fun _ hg => hg) hf

theorem touched_append_singleton : Touched table sb (pre ++ [r]) u ↔
    Touched table sb pre u ∨ ∃ f, Creates table sb pre r f ∧ r.logicalDpGroup = some u := by
  constructor
  · rintro ⟨p, r', q, f, hsplit, hc, hgroup⟩
    rcases eq_nil_or_concat q with rfl | ⟨q, x, rfl⟩
    · obtain ⟨rfl, hr⟩ := append_inj' hsplit rfl
      cases hr
      exact .inr ⟨f, hc, hgroup⟩
    · rw [concat_eq_append, ← cons_append, ← append_assoc] at hsplit
      obtain ⟨rfl, -⟩ := append_inj' hsplit rfl
      exact .inl ⟨p, r', q, f, rfl, hc, hgroup⟩
  · rintro (⟨p, r', q, f, rfl, hc, hgroup⟩ | ⟨f, hc, hgroup⟩)
    · exact ⟨p, r', q ++ [r], f, by simp, hc, hgroup⟩
    · exact ⟨pre, r, [], f, rfl, hc, hgroup⟩

end

/-! ## The walk over the rows -/

/-- The state after some of the rows, by what these are. -/
structure Track (table : Table dps) (sb : Sb) (pre : List SbFlow) (s : Sync) : Prop where
  good : Good table s
  sub : ∀ r ∈ pre, r ∈ sb.flows
  left : ∀ f ∈ table.entries, f ∈ s.lflows ↔ ∀ r ∈ pre, flowOf table sb r ≠ some f
  nodup : s.lflows.Nodup
  known : ∀ t b, (∃ g ∈ s.dpGroups t, g.bitmap = b) ↔ 1 < b.card ∧
    ∃ r ∈ pre, ∃ f, flowOf table sb r = some f ∧ f.dpType = t ∧ f.dpgBitmap = b
  type : ∀ u l, sb.groups u = some l → ∃ l', s.groups u = some l' ∧
    firstType dps l' = firstType dps l
  same : ∀ u, ¬ Touched table sb pre u → ∀ l, sb.groups u = some l → s.groups u = some l
  /-- A group that was one of a row that makes one misleads no other. -/
  settled : ∀ u, Touched table sb pre u → ∀ l t b, s.groups u = some l → firstType dps l = some t →
    (∀ g ∈ s.dpGroups t, g.bitmap ≠ b) → ¬ Misleading dps t b l

section
variable {table : Table dps} {sb : Sb} {pre : List SbFlow} {r : SbFlow} {f : Lflow}
    {s s' : Sync} {u : ℕ}

theorem firstType_of_find (hr : r ∈ sb.flows) (hfind : s.ovnLflowFind dps r = some f)
    (hgroup : r.logicalDpGroup = some u) {l : List ℕ} (hl : s.groups u = some l) :
    firstType dps l = some f.dpType := by
  rw [← rowType_eq hr hgroup hl]
  exact (ovnLflowFind_some hfind).2.1

variable (h : Track table sb pre s) (hr : r ∈ sb.flows)

section
include h hr

theorem Track.rowType : rowType dps s.groups r = rowType dps sb.groups r := by
  cases hgroup : r.logicalDpGroup with
  | none =>
    unfold Sync.rowType
    rw [hgroup]
    rfl
  | some u =>
    obtain ⟨l, hl⟩ := Option.isSome_iff_exists.1 (sb.refs r hr u hgroup)
    obtain ⟨l', hl', htype⟩ := h.type u l hl
    rw [rowType_eq hr hgroup hl', rowType_eq hr hgroup hl, htype]

theorem Track.find_iff : s.ovnLflowFind dps r = some f ↔ flowOf table sb r = some f ∧
    f ∈ s.lflows := by
  rw [flowOf_eq_some, ← h.rowType hr]
  constructor
  · intro hfind
    obtain ⟨hf, ht, hspec⟩ := ovnLflowFind_some hfind
    exact ⟨⟨ht, h.good.mem_entries hf, hspec⟩, hf⟩
  · rintro ⟨⟨ht, -, hspec⟩, hf⟩
    rw [ovnLflowFind, ht, Option.bind_some, ← hspec]
    exact find?_flow (fun _ hg => h.good.mem_entries hg) hf

end

include h

theorem Track.get_eq_none_iff (hcard : 1 < f.dpgBitmap.card) :
    s.ovnDpGroupGet f.dpType f.dpgBitmap = none ↔ ∀ r' ∈ pre, ∀ f', flowOf table sb r' = some f' →
      f'.dpType = f.dpType → f'.dpgBitmap ≠ f.dpgBitmap := by
  have hnone : s.ovnDpGroupGet f.dpType f.dpgBitmap = none ↔
      ¬ ∃ g ∈ s.dpGroups f.dpType, g.bitmap = f.dpgBitmap := by
    constructor
    · rintro hnone ⟨g, hg, hb⟩
      exact ovnDpGroupFind_none hnone hg hb rfl
    · intro hno
      refine find?_eq_none.2 fun g hg hc => hno ⟨g, hg, (of_decide_eq_true hc).2⟩
  rw [hnone, h.known, and_iff_right hcard]
  push Not
  rfl

/-- The flow of a row that makes a group is still to be done, and the group is not known. -/
theorem Track.creates_iff (hr : r ∈ sb.flows) : Creates table sb pre r f ↔
    s.ovnLflowFind dps r = some f ∧ 1 < f.dpgBitmap.card ∧ s.ovnDpGroupGet f.dpType f.dpgBitmap =
      none := by
  constructor
  · rintro ⟨hflow, hcard, hfirst⟩
    refine ⟨(h.find_iff hr).2 ⟨hflow, (h.left f (flowOf_eq_some.1 hflow).2.1).2
      fun r' hr' hf' => ?_⟩, hcard,
      (h.get_eq_none_iff hcard).2 hfirst⟩
    exact hfirst r' hr' f hf' rfl rfl
  · rintro ⟨hfind, hcard, hnone⟩
    exact ⟨((h.find_iff hr).1 hfind).1, hcard, (h.get_eq_none_iff hcard).1 hnone⟩

/-- **A row is misled** exactly if it is by what its group had. -/
theorem Track.misled_iff (hr : r ∈ sb.flows) : s.Misled dps r ↔ Mistakes table sb pre r := by
  constructor
  · rintro ⟨f, u, l, hfind, hcard, hnone, hgroup, hl, hmis⟩
    have htouched : ¬ Touched table sb pre u := by
      intro htouched
      refine h.settled u htouched l f.dpType f.dpgBitmap hl (firstType_of_find hr hfind hgroup hl)
        ?_ hmis
      exact fun g hg hb => ovnDpGroupFind_none hnone hg hb rfl
    obtain ⟨l₀, hl0⟩ := Option.isSome_iff_exists.1 (sb.refs r hr u hgroup)
    cases (h.same u htouched l₀ hl0).symm.trans hl
    exact ⟨f, u, l, (h.creates_iff hr).2 ⟨hfind, hcard, hnone⟩, hgroup, htouched, hl0, hmis⟩
  · rintro ⟨f, u, l, hc, hgroup, htouched, hl, hmis⟩
    obtain ⟨hfind, hcard, hnone⟩ := (h.creates_iff hr).1 hc
    exact ⟨f, u, l, hfind, hcard, hnone, hgroup, h.same u htouched l hl, hmis⟩

theorem Track.exists_group {pre' : List SbFlow} (hpre : ∀ r' ∈ pre', r' ∈ sb.flows)
    (ht : Touched table sb pre' u) :
    ∃ l, s.groups u = some l := by
  obtain ⟨p, r', q, f, rfl, -, hgroup⟩ := ht
  obtain ⟨l, hl⟩ := Option.isSome_iff_exists.1
    (sb.refs r' (hpre r' (mem_append_right _ mem_cons_self)) u hgroup)
  obtain ⟨l', hl', -⟩ := h.type u l hl
  exact ⟨l', hl'⟩

theorem Track.sub_append (hr : r ∈ sb.flows) : ∀ r' ∈ pre ++ [r], r' ∈ sb.flows :=
  forall_mem_append.2 ⟨h.sub, forall_mem_singleton.2 hr⟩

/-- A row whose flow is done already, or that has none. -/
theorem Track.skip (hr : r ∈ sb.flows) (hnone : s.ovnLflowFind dps r = none) :
    Track table sb (pre ++ [r]) s := by
  have hdone : ∀ f, flowOf table sb r = some f → f ∉ s.lflows := by
    intro f hf hin
    rw [(h.find_iff hr).2 ⟨hf, hin⟩] at hnone
    cases hnone
  have hearlier : ∀ f, flowOf table sb r = some f → ∃ r' ∈ pre, flowOf table sb r' = some f := by
    intro f hf
    by_contra! hno
    exact hdone f hf ((h.left f (flowOf_eq_some.1 hf).2.1).2 hno)
  have htouched : ∀ u, Touched table sb (pre ++ [r]) u ↔ Touched table sb pre u := by
    intro u
    refine touched_append_singleton.trans (or_iff_left ?_)
    rintro ⟨f, hc, -⟩
    obtain ⟨hfind, -⟩ := (h.creates_iff hr).1 hc
    rw [hfind] at hnone
    cases hnone
  refine ⟨h.good, h.sub_append hr, fun f hf => ?_, h.nodup, fun t b => ?_, h.type, fun u hu => ?_,
    fun u hu => ?_⟩
  · rw [h.left f hf, forall_mem_append, forall_mem_singleton]
    refine (and_iff_left_of_imp fun hpre hrf => ?_).symm
    obtain ⟨r', hr', hf'⟩ := hearlier f hrf
    exact hpre r' hr' hf'
  · rw [h.known]
    refine and_congr_right fun _ => ⟨fun ⟨r', hr', hf⟩ => ⟨r', mem_append_left _ hr', hf⟩, ?_⟩
    rintro ⟨r', hr', f, hf, htb⟩
    rcases mem_append.1 hr' with hr' | hr'
    · exact ⟨r', hr', f, hf, htb⟩
    · cases mem_singleton.1 hr'
      obtain ⟨r'', hr'', hf''⟩ := hearlier f hf
      exact ⟨r'', hr'', f, hf'', htb⟩
  · exact h.same u fun ht => hu ((htouched u).2 ht)
  · exact h.settled u ((htouched u).1 hu)

/-- A row whose flow is done, with what becomes of the groups. -/
theorem Track.next (hr : r ∈ sb.flows) (hfind : s.ovnLflowFind dps r = some f)
    (hgood : Good table s')
    (hlflows : s'.lflows = s.lflows.erase f)
    (hknown : ∀ t b, (∃ g ∈ s'.dpGroups t, g.bitmap = b) ↔
      (∃ g ∈ s.dpGroups t, g.bitmap = b) ∨ 1 < b.card ∧ f.dpType = t ∧ f.dpgBitmap = b)
    (hgroups : ∀ u l, s.groups u = some l → s'.groups u = some l ∨ Creates table sb pre r f ∧
      r.logicalDpGroup = some u ∧ ∃ l', s'.groups u = some l' ∧ firstType dps l' = some f.dpType)
    (hsettled : Creates table sb pre r f → ∀ u, r.logicalDpGroup = some u → ∀ l b,
      s'.groups u = some l →
      (∀ g ∈ s'.dpGroups f.dpType, g.bitmap ≠ b) → ¬ Misleading dps f.dpType b l) :
    Track table sb (pre ++ [r]) s' := by
  have hflow := ((h.find_iff hr).1 hfind).1
  have hcreates : ∀ {f'}, Creates table sb pre r f' → f' = f := fun hc =>
    Option.some_inj.1 (hc.1.symm.trans hflow)
  have hunion : ∀ {P : SbFlow → Prop}, (∀ r' ∈ pre ++ [r], P r') ↔ (∀ r' ∈ pre, P r') ∧ P r := by
    intro P
    rw [forall_mem_append, forall_mem_singleton]
  refine ⟨hgood, h.sub_append hr, fun f' hf' => ?_, hlflows ▸ h.nodup.erase f, fun t b => ?_,
    fun u l hl => ?_,
    fun u hu l hl => ?_, fun u hu l t b hl htype hb => ?_⟩
  · rw [hlflows, h.nodup.mem_erase_iff, h.left f' hf', hunion, hflow, and_comm]
    exact and_congr_right fun _ => not_congr ⟨fun he => congrArg some he.symm,
      fun he => (Option.some_inj.1 he).symm⟩
  · rw [hknown, h.known]
    constructor
    · rintro (⟨hcard, r', hr', hf'⟩ | ⟨hcard, htb⟩)
      · exact ⟨hcard, r', mem_append_left _ hr', hf'⟩
      · exact ⟨hcard, r, mem_append_right _ mem_cons_self, f, hflow, htb⟩
    · rintro ⟨hcard, r', hr', f', hf', htb⟩
      rcases mem_append.1 hr' with hr' | hr'
      · exact .inl ⟨hcard, r', hr', f', hf', htb⟩
      · cases mem_singleton.1 hr'
        cases hf'.symm.trans hflow
        exact .inr ⟨hcard, htb⟩
  · obtain ⟨l₁, hl1, htype⟩ := h.type u l hl
    rcases hgroups u l₁ hl1 with hsame | ⟨-, hgroup, l', hl', htype'⟩
    · exact ⟨l₁, hsame, htype⟩
    · exact ⟨l', hl', by rw [htype', ← htype, firstType_of_find hr hfind hgroup hl1]⟩
  · rw [touched_append_singleton, not_or] at hu
    refine (hgroups u l (h.same u hu.1 l hl)).resolve_right ?_
    rintro ⟨hc, hgroup, -⟩
    exact hu.2 ⟨f, hc, hgroup⟩
  · by_cases hnew : Creates table sb pre r f ∧ r.logicalDpGroup = some u
    · obtain ⟨l₁, hl1⟩ := h.exists_group (h.sub_append hr) hu
      have ht : t = f.dpType := by
        rcases hgroups u l₁ hl1 with hsame | ⟨-, hgroup, l', hl', htype'⟩
        · cases hsame.symm.trans hl
          exact Option.some_inj.1 (htype.symm.trans (firstType_of_find hr hfind hnew.2 hl1))
        · cases hl'.symm.trans hl
          exact Option.some_inj.1 (htype.symm.trans htype')
      subst ht
      exact hsettled hnew.1 u hnew.2 l b hl hb
    · have hold : Touched table sb pre u := by
        refine (touched_append_singleton.1 hu).resolve_right ?_
        rintro ⟨f', hc, hgroup⟩
        exact hnew ⟨hcreates hc ▸ hc, hgroup⟩
      obtain ⟨l₁, hl1⟩ := h.exists_group h.sub hold
      have hsame := (hgroups u l₁ hl1).resolve_right fun hc => hnew ⟨hc.1, hc.2.1⟩
      cases hsame.symm.trans hl
      refine h.settled u hold l t b hl1 htype fun g hg hgb => ?_
      obtain ⟨g', hg', hgb'⟩ := (hknown t b).2 (.inl ⟨g, hg, hgb⟩)
      exact hb g' hg' hgb'

/-- The row of a flow that makes its group. -/
theorem Track.created (hr : r ∈ sb.flows) (hfind : s.ovnLflowFind dps r = some f)
    (hmisled : ¬ s.Misled dps r)
    (hcard : 1 < f.dpgBitmap.card) (hnone : s.ovnDpGroupGet f.dpType f.dpgBitmap = none) {s₁ : Sync}
    (hc : Created dps s f.dpType r.logicalDpGroup f.dpgBitmap u s₁)
    (hlflows : s'.lflows = s.lflows.erase f)
    (hgroups : s'.groups = s₁.groups) (hdpGroups : s'.dpGroups = s₁.dpGroups)
    (hgood : Good table s') :
    Track table sb (pre ++ [r]) s' := by
  have hcreates := (h.creates_iff hr).2 ⟨hfind, hcard, hnone⟩
  have hmem := h.good.mem_entries (ovnLflowFind_some hfind).1
  have hex := Datapaths.exactly_bindings (table.lt_size f hmem)
  have hne : f.dpgBitmap.Nonempty := Finset.card_pos.1 (by omega)
  have hnotmis : ∀ {v l}, r.logicalDpGroup = some v → s.groups v = some l →
      ¬ Misleading dps f.dpType f.dpgBitmap l := fun hv hl hmis =>
    hmisled ⟨f, _, _, hfind, hcard, hnone, hv, hl, hmis⟩
  have hpure : ∀ b, ¬ Misleading dps f.dpType b (dps.bindings f.dpType f.dpgBitmap) := fun b =>
    not_misleading fun v hv x hx => by
      obtain ⟨i, -, hi⟩ := hex.fromSbrec (table.lt_size f hmem) hv
      cases hi.symm.trans hx
      rfl
  have hfirst : firstType dps (dps.bindings f.dpType f.dpgBitmap) = some f.dpType := by
    obtain ⟨v, vs, hl, htype⟩ := hex.findSome (table.lt_size f hmem) hne
    rw [hl]
    exact htype
  have hmemGroups : ∀ t g, g ∈ s'.dpGroups t ↔ g ∈ s.dpGroups t ∨ t = f.dpType ∧
    g = ⟨f.dpgBitmap, u⟩ := by
    intro t g
    rw [hdpGroups, hc.dpGroups, update_apply]
    split
    next ht =>
      subst ht
      rw [mem_cons, or_comm, and_iff_right rfl]
    next ht => exact (or_iff_left fun hg => ht hg.1).symm
  refine h.next hr hfind hgood hlflows (fun t b => ?_) (fun v l hl => ?_) fun _ v hv l b hl hb => ?_
  · constructor
    · rintro ⟨g, hg, rfl⟩
      rcases (hmemGroups t g).1 hg with hg | ⟨rfl, rfl⟩
      · exact .inl ⟨g, hg, rfl⟩
      · exact .inr ⟨hcard, rfl, rfl⟩
    · rintro (⟨g, hg, hgb⟩ | ⟨-, rfl, rfl⟩)
      · exact ⟨g, (hmemGroups t g).2 (.inl hg), hgb⟩
      · exact ⟨_, (hmemGroups _ _).2 (.inr ⟨rfl, rfl⟩), rfl⟩
  · rcases hc.how with ⟨-, hsame, -⟩ | ⟨hupdate, ⟨hre, -⟩ | ⟨-, hu, -⟩⟩
    · exact .inl (by rw [hgroups, hsame, hl])
    · by_cases hvu : v = u
      · subst hvu
        exact .inr ⟨hcreates, hre.groups_of_modify.1, _, by rw [hgroups, hupdate, update_self],
          hfirst⟩
      · exact .inl (by rw [hgroups, hupdate, update_of_ne hvu, hl])
    · refine .inl ?_
      rw [hgroups, hupdate, update_of_ne, hl]
      rintro rfl
      rw [hu, h.good.fresh s.next (le_refl _)] at hl
      cases hl
  · rw [hgroups] at hl
    rcases hc.how with ⟨hre, hsame, -⟩ | ⟨hupdate, ⟨hre, -⟩ | ⟨hre, hu, -⟩⟩
    · cases hre with
      | keep _ l' ods hv' hl' hover hods hbitmap =>
        cases hv.symm.trans hv'
        rw [hsame, hl'] at hl
        cases hl
        -- the group has the bitmap, so that all of its datapaths have the type
        rintro (hover' | ⟨ods', hods', -, x, hx, hne'⟩)
        · exact hover hover'
        · cases hods.symm.trans hods'
          exact hnotmis hv hl' (.inr ⟨ods, hods, hbitmap, x, hx, hne'⟩)
    · cases hv.symm.trans hre.groups_of_modify.1
      rw [hupdate, update_self] at hl
      cases hl
      exact hpure b
    · obtain ⟨l₀, hl0⟩ := Option.isSome_iff_exists.1 (sb.refs r hr v hv)
      obtain ⟨l₁, hl1, -⟩ := h.type v l₀ hl0
      have hvu : v ≠ u := by
        rintro rfl
        rw [hu, h.good.fresh s.next (le_refl _)] at hl1
        cases hl1
      rw [hupdate, update_of_ne hvu, hl1] at hl
      cases hl
      cases hre with
      | noGroup hno =>
        rw [hv, Option.bind_some, hl1] at hno
        cases hno
      | insert _ l' ods g hv' hl' hover hods _ hg hgb =>
        cases hv.symm.trans hv'
        cases hl1.symm.trans hl'
        -- the bitmap of the group is one of a known group
        rintro (hover' | ⟨ods', hods', hbitmap, -⟩)
        · exact hover hover'
        · cases hods.symm.trans hods'
          exact hb g ((hmemGroups _ g).2 (.inl hg)) (hgb.trans hbitmap)

theorem Track.syncRow (hall : ∀ f ∈ table.entries, f.dpgBitmap.Nonempty) (hr : r ∈ sb.flows)
    (hmisled : ¬ s.Misled dps r) : Ends (fun _ => False) (Track table sb (pre ++ [r]))
    (s.syncRow dps r) := by
  have hgood := h.good.syncRow hall hmisled
  unfold Sync.syncRow at hgood ⊢
  cases hfind : s.ovnLflowFind dps r with
  | none => exact h.skip hr hfind
  | some f =>
    rw [hfind] at hgood
    have hplaced := syncLflowToSb_spec dps s f (some r)
    dsimp only at hgood ⊢
    cases hs : s.syncLflowToSb dps f (some r) with
    | error e =>
      rw [hs] at hgood
      exact hgood
    | ok s₁ =>
      rw [hs] at hgood hplaced
      obtain ⟨-, hp⟩ := hplaced
      have hgood : Good table { s₁ with lflows := s₁.lflows.erase f } := hgood
      show Track table sb (pre ++ [r]) { s₁ with lflows := s₁.lflows.erase f }
      have hlflows : s₁.lflows.erase f = s.lflows.erase f := by rw [hp.lflows]
      cases hp with
      | single hcard =>
        refine h.next hr hfind hgood hlflows (fun t b => (or_iff_left ?_).symm)
          (fun v l hl => .inl hl) ?_
        · rintro ⟨hlt, -, rfl⟩
          omega
        · intro hc
          have := hc.2.1
          omega
      | lost g hg _ hlost =>
        obtain ⟨-, -, l, hl, -⟩ := h.good.known _ g hg
        cases hlost.symm.trans hl
      | known g hcard hg hb =>
        refine h.next hr hfind hgood hlflows (fun t b => (or_iff_left_of_imp ?_).symm)
          (fun v l hl => .inl hl) ?_
        · rintro ⟨-, rfl, rfl⟩
          exact ⟨g, hg, hb⟩
        · intro hc
          exact absurd rfl (ovnDpGroupFind_none ((h.creates_iff hr).1 hc).2.2 hg hb)
      | created u s₂ hcard hnone hc =>
        exact h.created hr hfind hmisled hcard hnone hc hlflows rfl rfl hgood

omit h in
/-- **No row is misled** on the way exactly if none is by what its group had. -/
theorem Track.sound_iff (hall : ∀ f ∈ table.entries, f.dpgBitmap.Nonempty) :
    ∀ {post pre : List SbFlow} {s : Sync},
    Track table sb pre s → (∀ r ∈ post, r ∈ sb.flows) →
    (Sound dps s post ↔ ∀ p r q, post = p ++ r :: q → ¬ Mistakes table sb (pre ++ p) r)
  | [], _, _, _, _ => iff_of_true trivial fun p r q hsplit => absurd hsplit (by simp)
  | r :: post, pre, s, h, hpost => by
    have hr := hpost r mem_cons_self
    have hhead : (∀ p r' q, r :: post = p ++ r' :: q → ¬ Mistakes table sb (pre ++ p) r') ↔
        ¬ Mistakes table sb pre r ∧ ∀ p r' q, post = p ++ r' :: q →
          ¬ Mistakes table sb (pre ++ [r] ++ p) r' := by
      constructor
      · intro hno
        refine ⟨by simpa using hno [] r post rfl, fun p r' q hsplit => ?_⟩
        rw [append_assoc]
        exact hno (r :: p) r' q (by rw [hsplit]; rfl)
      · rintro ⟨hfirst, hrest⟩ p r' q hsplit
        cases p with
        | nil =>
          cases hsplit
          rwa [append_nil]
        | cons x p =>
          obtain ⟨rfl, htail⟩ := cons_eq_cons.1 hsplit
          rw [append_cons]
          exact hrest p r' q htail
    rw [hhead, ← h.misled_iff hr]
    refine and_congr_right fun hmisled => ?_
    obtain ⟨s', hs', htrack⟩ := (h.syncRow hall hr hmisled).exists_ok
    rw [← Track.sound_iff hall htrack fun r' hr' => hpost r' (mem_cons_of_mem r hr')]
    refine ⟨fun hnext => hnext s' hs', fun hnext s'' hs'' => ?_⟩
    cases hs'.symm.trans hs''
    exact hnext

omit h in
theorem track_start (table : Table dps) (sb : Sb) : Track table sb [] (start table sb) where
  good := good_start table sb
  sub := nofun
  left f hf := iff_of_true hf nofun
  nodup := table.nodup.of_map
  known t b := by
    refine iff_of_false ?_ ?_
    · rintro ⟨g, hg, -⟩
      cases hg
    · rintro ⟨-, r, hr, -⟩
      cases hr
  type u l hl := ⟨l, hl, rfl⟩
  same u _ l hl := hl
  settled u hu := by
    obtain ⟨p, r, q, f, hsplit, -⟩ := hu
    simp at hsplit

omit h in
/-- A group without datapaths of both types misleads no row. -/
theorem Unmixed.unmistaken (hun : Unmixed dps sb) : Unmistaken table sb := by
  rintro pre r post hsplit ⟨f, u, l, hc, hgroup, -, hl, hmis⟩
  have hr : r ∈ sb.flows := hsplit ▸ mem_append_right _ mem_cons_self
  have htype := (flowOf_eq_some.1 hc.1).1
  rw [rowType_eq hr hgroup hl] at htype
  obtain ⟨x, hx, hxt⟩ := Option.map_eq_some_iff.1 htype
  obtain ⟨v, hv, hvx⟩ := exists_of_findSome?_eq_some hx
  exact not_misleading (fun w hw y hy => (hun u l hl w hw v hv y x hy hvx).trans hxt) hmis

end

def twoOfEach : Datapaths where
  size _ := 2
  sb t i := if t = .switch then i else i + 2
  fromSbrec u := if u < 2 then some (.switch, u) else if u < 4 then some (.router, u - 2) else none
  fromSbrec_iff u t i := by
    cases t <;> grind

def flowSpec : FlowSpec := ⟨.ingress, 0, 0, "1", "next;", none⟩

def bothSwitches : Table twoOfEach := ⟨[⟨.switch, flowSpec, {0, 1}⟩], by decide, by decide⟩

def mixedGroup : Sb where
  flows := [⟨flowSpec, none, some 0⟩]
  groups u := if u = 0 then some [0, 3] else none
  nodup u l hl := by
    split at hl <;> cases hl
    decide
  refs r hr u hu := by
    cases mem_singleton.1 hr
    cases hu
    rfl
  either r hr := .inr (by cases mem_singleton.1 hr; rfl)
  next := 1
  fresh u hu := if_neg (by omega)

end Ovn.LflowSync

/-
  Crushing conjunctions over one symbol, and with it all expressions over one
  symbol (`crushCmps_spec`).

  While it runs over the operands, the code merges the single comparisons into
  one constant and keeps the disjunctions.  `crushSubs_spec` is the loop rule:
  the comparisons merged so far form a set `D`, the disjunctions kept a list
  `css`, and `D` together with `css` has exactly the paths of the operands seen.
  `Stands` says what the constant of `crush_and_numeric` is worth.
-/
import Ovn.Expr.Crush

namespace Ovn

open List

/-! ## The loop over the operands -/

def conj (D : Set Cmp) (css : List (List Cmp)) : Set (Set Cmp) :=
  Dnf.and {D} (Dnf.all (css.map alts))

theorem and_conj_singleton (D : Set Cmp) (css : List (List Cmp)) (c : Cmp) :
    Dnf.and (conj D css) (alts [c]) = conj (insert c D) css := by
  have h : Dnf.and {D} {{c}} = {insert c D} := by
    simp [Dnf.and]
  rw [conj, alts_singleton, Dnf.and_assoc, Dnf.and_comm (Dnf.all _), ← Dnf.and_assoc, h, conj]

theorem conj_append (D : Set Cmp) (css css' : List (List Cmp)) :
    conj D (css ++ css') = Dnf.and (conj D css) (Dnf.all (css'.map alts)) := by
  simp [conj, Dnf.and_assoc, Dnf.all_append]

theorem holds_conj {v : Cmp → Prop} {D : Set Cmp} {css : List (List Cmp)} :
    Dnf.Holds v (conj D css) ↔ (∀ d ∈ D, v d) ∧ ∀ cs ∈ css, ∃ c ∈ cs, v c := by
  simp only [conj, Dnf.holds_and, Dnf.holds_all, forall_mem_map, holds_alts]
  simp [Dnf.Holds]

theorem nonempty_of_mem_conj {D π : Set Cmp} {css : List (List Cmp)} (h : π ∈ conj D css)
    (hne : D.Nonempty ∨ css ≠ []) : π.Nonempty := by
  obtain ⟨_, rfl, ρ, hρ, rfl⟩ := h
  rcases hne with hne | hne
  · exact hne.inl
  · obtain ⟨cs, css, rfl⟩ := exists_cons_of_ne_nil hne
    obtain ⟨_, ⟨c, -, rfl⟩, _, -, rfl⟩ := hρ
    exact ⟨c, .inr (.inl rfl)⟩

theorem alts_flatten (csl : List (List Cmp)) : alts csl.flatten = Dnf.any (csl.map alts) := by
  ext π
  simp only [alts, Dnf.any, mem_flatten, mem_map]
  constructor
  · rintro ⟨c, ⟨cs, hcs, hc⟩, rfl⟩; exact ⟨_, ⟨cs, hcs, rfl⟩, c, hc, rfl⟩
  · rintro ⟨_, ⟨cs, hcs, rfl⟩, c, hc, rfl⟩; exact ⟨c, ⟨cs, hcs, hc⟩, rfl⟩

/-- What the loop has kept: comparisons on `s`, and proper disjunctions of them. -/
structure Kept (s : ExprSymbol) (D : Set Cmp) (css : List (List Cmp)) : Prop where
  on : ∀ d ∈ D, d.On s
  ors : ∀ cs ∈ css, ∀ c ∈ cs, c.On s
  long : ∀ cs ∈ css, 2 ≤ cs.length

section
variable {s : ExprSymbol} {D : Set Cmp} {css : List (List Cmp)} {out : List Cmp}

theorem Kept.empty (s : ExprSymbol) : Kept s ∅ [] := ⟨by simp, by simp, by simp⟩

theorem Kept.insert (h : Kept s D css) {c : Cmp} (hc : c.On s) : Kept s (insert c D) css :=
  ⟨Set.forall_mem_insert.2 ⟨hc, h.on⟩, h.ors, h.long⟩

theorem Kept.snoc (h : Kept s D css) {cs : List Cmp} (hcs : ∀ c ∈ cs, c.On s)
    (hlen : 2 ≤ cs.length) : Kept s D (css ++ [cs]) := by
  refine ⟨h.on, forall_mem_append.2 ⟨h.ors, ?_⟩, forall_mem_append.2 ⟨h.long, ?_⟩⟩
  · simpa using hcs
  · simpa using hlen

/-- The disjunction `out` in place of a conjunction: each of its comparisons
    entails one from every disjunction. -/
theorem Kept.refines (h : Kept s D css) (hne : D.Nonempty ∨ css ≠ [])
    (hout : ∀ c ∈ out, c.symbol = s)
    (hD : ∀ c ∈ out, ∀ d ∈ D, ∀ σ : NamedAssignment, c.Sat σ.toAssignment → d.Sat σ.toAssignment)
    (hors : ∀ c ∈ out, ∀ cs ∈ css, ∃ d ∈ cs, ∀ σ : NamedAssignment,
      c.Sat σ.toAssignment → d.Sat σ.toAssignment)
    (hcov : ∀ σ : NamedAssignment, (∀ d ∈ D, d.Sat σ.toAssignment) →
      (∀ cs ∈ css, ∃ c ∈ cs, c.Sat σ.toAssignment) → ∃ c ∈ out, c.Sat σ.toAssignment) :
    PathRefines (alts out) (conj D css) := by
  constructor
  · rintro _ ⟨c, hc, rfl⟩
    obtain ⟨π, hπ, hP⟩ := (holds_conj (v := fun d => d.symbol = s ∧ ∀ σ : NamedAssignment,
      c.Sat σ.toAssignment → d.Sat σ.toAssignment)).2
      ⟨fun d hd => ⟨(h.on d hd).symbol_eq, hD c hc d hd⟩, fun cs hcs => by
        obtain ⟨d, hd, himp⟩ := hors c hc cs hcs
        exact ⟨d, hd, (h.ors cs hcs d hd).symbol_eq, himp⟩⟩
    obtain ⟨d, hd⟩ := nonempty_of_mem_conj hπ hne
    refine ⟨π, hπ, ?_, fun σ hσ d hd => (hP d hd).2 σ (hσ c rfl)⟩
    rintro _ rfl
    exact ⟨d, hd, (hP d hd).1.trans (hout _ hc).symm⟩
  · intro σ hσ
    rw [holds_conj] at hσ
    exact holds_alts.2 (hcov σ hσ.1 hσ.2)

end

section
variable {s : ExprSymbol} {τ : Type} {step : τ → Expr → Except Abort (Option τ)}
  {I : Set Cmp → List (List Cmp) → τ → Prop}

/-- The loop over operands that are crushed to `csl` ends in `r`. -/
def LoopsTo (step : τ → Expr → Except Abort (Option τ)) (csl : List (List Cmp)) (st : τ)
    (r : Option τ) : Prop :=
  ∀ crush subs, CrushesTo crush subs csl → crushSubs crush step subs st = .ok r

variable {csl : List (List Cmp)}

theorem LoopsTo.cons {cs : List Cmp} {st st' : τ} {r : Option τ}
    (h : step st (orCmps cs) = .ok (some st')) (hr : LoopsTo step csl st' r) :
    LoopsTo step (cs :: csl) st r := by
  rintro crush (_ | ⟨sub, subs⟩) (_ | ⟨hsub, hsubs⟩)
  rw [crushSubs, hsub]
  simp only [bind, Except.bind, h]
  exact hr _ _ hsubs

theorem LoopsTo.stop {cs : List Cmp} {st : τ} (h : step st (orCmps cs) = .ok none) :
    LoopsTo step (cs :: csl) st none := by
  rintro crush (_ | ⟨sub, subs⟩) (_ | ⟨hsub, hsubs⟩)
  rw [crushSubs, hsub]
  simp only [bind, Except.bind, h]
  rfl

/-- An iteration stops at a contradiction, merges a comparison, or keeps a disjunction. -/
def Iterates (step : τ → Expr → Except Abort (Option τ)) (I : Set Cmp → List (List Cmp) → τ → Prop)
    (D : Set Cmp) (css : List (List Cmp)) (st : τ) (cs : List Cmp) : Prop :=
  (step st (orCmps cs) = .ok none ∧ ∀ σ : NamedAssignment,
    ¬((∀ d ∈ D, d.Sat σ.toAssignment) ∧ ∃ c ∈ cs, c.Sat σ.toAssignment)) ∨
  (∃ c st', cs = [c] ∧ step st (orCmps cs) = .ok (some st') ∧ I (insert c D) css st') ∨
  ∃ st', 2 ≤ cs.length ∧ step st (orCmps cs) = .ok (some st') ∧ I D (css ++ [cs]) st'

/-- **The loop rule.**  What every iteration does, the loop does. -/
theorem crushSubs_spec
    (hstep : ∀ {D css st cs}, I D css st → Kept s D css → (∀ c ∈ cs, c.On s) →
      Iterates step I D css st cs)
    (hon : ∀ cs ∈ csl, ∀ c ∈ cs, c.On s) : ∀ {D css st}, I D css st → Kept s D css →
      (LoopsTo step csl st none ∧ ∀ σ : NamedAssignment,
        ¬Dnf.Holds (Cmp.Sat σ.toAssignment) (Dnf.and (conj D css) (Dnf.all (csl.map alts)))) ∨
      ∃ D' css' st', LoopsTo step csl st (some st') ∧ I D' css' st' ∧
        Kept s D' css' ∧ conj D' css' = Dnf.and (conj D css) (Dnf.all (csl.map alts)) ∧
        css'.length ≤ css.length + csl.length ∧ ((∀ cs ∈ csl, cs.length ≤ 1) → css' = css) ∧
        (D.Nonempty ∨ css ≠ [] ∨ csl ≠ [] → D'.Nonempty ∨ css' ≠ []) := by
  induction csl with
  | nil =>
    intro D css st hinv hkept
    refine .inr ⟨D, css, st, ?_, hinv, hkept, by simp, by simp, fun _ => rfl, ?_⟩
    · rintro crush _ (_ | _); rfl
    · simp
  | cons cs csl ih =>
    intro D css st hinv hkept
    have hcs : ∀ c ∈ cs, c.On s := hon cs mem_cons_self
    have ih' := @ih (forall_mem_cons.1 hon).2
    have hand : ∀ d, Dnf.and d (Dnf.all ((cs :: csl).map alts))
        = Dnf.and (Dnf.and d (alts cs)) (Dnf.all (csl.map alts)) := fun d => by
      rw [map_cons, Dnf.all_cons, Dnf.and_assoc]
    rcases hstep hinv hkept hcs with ⟨hnone, hfalse⟩ | ⟨c, st', rfl, hok, hinv'⟩ |
      ⟨st', hlen, hok, hinv'⟩
    · refine .inl ⟨.stop hnone, fun σ hσ => hfalse σ ?_⟩
      rw [hand, Dnf.holds_and, Dnf.holds_and, holds_conj, holds_alts] at hσ
      exact ⟨hσ.1.1.1, hσ.1.2⟩
    · rw [hand, and_conj_singleton]
      rcases ih' hinv' (hkept.insert (hcs c (by simp))) with hl | ⟨D', css', st'', h1, h2, h3, h4,
        h5, h6, h7⟩
      · exact .inl ⟨.cons hok hl.1, hl.2⟩
      · refine .inr ⟨D', css', st'', .cons hok h1, h2, h3, h4, by simp; omega, fun hall => h6
          (forall_mem_cons.1 hall).2, fun _ => h7 (.inl ⟨c, .inl rfl⟩)⟩
    · have hsnoc : Dnf.and (conj D css) (alts cs) = conj D (css ++ [cs]) := by
        rw [conj_append]; simp
      rw [hand, hsnoc]
      rcases ih' hinv' (hkept.snoc hcs hlen) with hl | ⟨D', css', st'', h1, h2, h3, h4, h5, h6, h7⟩
      · exact .inl ⟨.cons hok hl.1, hl.2⟩
      · refine .inr ⟨D', css', st'', .cons hok h1, h2, h3, h4, by simp at h5 ⊢; omega,
          fun hall => ?_, fun _ => h7 (.inr (.inl (by simp)))⟩
        have := hall cs mem_cons_self
        omega

end

/-! ## Numeric symbols -/

/-- The masked constant `value/mask` stands for the conjunction of `D`. -/
structure Stands (s : ExprSymbol) (D : Set Cmp) (value mask : MfSubvalue) : Prop where
  within : Bits.Within value mask
  mask_lt : ∀ i, mask.getLsbD i = true → i < s.width
  iff : ∀ σ : Assignment, σ.num s &&& mask = value ↔ ∀ d ∈ D, d.Sat σ

section
variable {s : ExprSymbol} {D : Set Cmp} {value mask value' mask' : MfSubvalue} {c : Cmp}

theorem Stands.empty (s : ExprSymbol) : Stands s ∅ 0 0 := by
  refine ⟨fun i => by simp, fun i => by simp, fun σ => by simp⟩

theorem mfSubvalueIntersect_eq_some (h : mfSubvalueIntersect value mask c.value c.mask
    = some (value', mask')) : Bits.conflict value mask c.value c.mask = false ∧
      value ||| c.value = value' ∧ mask ||| c.mask = mask' := by
  simp_all [mfSubvalueIntersect]

theorem Stands.intersect (h : Stands s D value mask) (hw : s.width ≠ 0) (hc : c.On s)
    (hi : mfSubvalueIntersect value mask c.value c.mask = some (value', mask')) :
    Stands s (insert c D) value' mask' ∧ mask' ≠ 0 := by
  have hw' : c.symbol.width ≠ 0 := hc.symbol_eq ▸ hw
  obtain ⟨hconf, rfl, rfl⟩ := mfSubvalueIntersect_eq_some hi
  refine ⟨⟨h.within.or (hc.within hw'), fun i hi => ?_, fun σ => ?_⟩, fun h0 => hc.mask_ne hw' ?_⟩
  · simp only [BitVec.getLsbD_or, Bool.or_eq_true] at hi
    exact hi.elim (h.mask_lt i) fun hi => hc.symbol_eq ▸ hc.mask_lt hw' i hi
  · have := Bits.meet_iff (x := σ.num s) h.within (hc.within hw')
    simp only [hconf, true_and] at this
    rw [← this, h.iff, ← hc.sat_iff hw, Set.forall_mem_insert, and_comm]
  · simp_all

theorem Stands.conflict (h : Stands s D value mask) (hw : s.width ≠ 0) (hc : c.On s)
    (hi : mfSubvalueIntersect value mask c.value c.mask = none) (σ : Assignment) :
    ¬((∀ d ∈ D, d.Sat σ) ∧ c.Sat σ) := by
  have hw' : c.symbol.width ≠ 0 := hc.symbol_eq ▸ hw
  rw [← h.iff σ, hc.sat_iff hw, Bits.meet_iff h.within (hc.within hw')]
  unfold mfSubvalueIntersect at hi
  split_ifs at hi with hconf
  simp [hconf]

theorem Stands.numericCmp (h : Stands s D value mask) (hs : s.Wf) (hm : mask ≠ 0) :
    (numericCmp s value mask).On s where
  symbol := hs
  string_eq _ := rfl
  string_as _ := rfl
  mask_lt _ := h.mask_lt
  within _ := h.within
  eq := rfl
  mask_ne _ := hm
  symbol_eq := rfl

theorem Stands.numericCmp_sat (h : Stands s D value mask) (hw : s.width ≠ 0) (σ : Assignment) :
    (Ovn.numericCmp s value mask).Sat σ ↔ ∀ d ∈ D, d.Sat σ := by
  rw [← h.iff σ]; exact Cmp.sat_eq_iff hw rfl

/-- The loop invariant of `crush_and_numeric`. -/
structure NumericInv (s : ExprSymbol) (D : Set Cmp) (css : List (List Cmp)) (st : NumericAnd) :
    Prop where
  stands : Stands s D st.value st.mask
  mask_ne : D.Nonempty → st.mask ≠ 0
  ors : st.ors = css.map fun cs => cs.map .cmp

variable {cs : List Cmp}

theorem crushAndNumericStep_spec (hw : s.width ≠ 0) {css : List (List Cmp)} {st : NumericAnd}
    (hinv : NumericInv s D css st) (hcs : ∀ c ∈ cs, c.On s) :
    Iterates crushAndNumericStep (NumericInv s) D css st cs := by
  match cs, hcs with
  | [], _ => exact .inl ⟨rfl, by simp⟩
  | [c], hcs =>
    have hc := hcs c mem_cons_self
    cases hi : mfSubvalueIntersect st.value st.mask c.value c.mask with
    | none =>
      refine .inl ⟨by simp [orCmps, crushAndNumericStep, hi], fun σ => ?_⟩
      simpa using hinv.stands.conflict hw hc hi σ.toAssignment
    | some vm =>
      have := hinv.stands.intersect hw hc hi
      exact .inr (.inl ⟨c, { st with value := vm.1, mask := vm.2 }, rfl,
        by simp [orCmps, crushAndNumericStep, hi], ⟨this.1, fun _ => this.2, hinv.ors⟩⟩)
  | c :: c' :: cs, _ =>
    refine .inr (.inr ⟨_, by simp, rfl, hinv.stands, hinv.mask_ne, ?_⟩)
    simp [hinv.ors]

theorem mem_productOne {c' : Cmp} : c' ∈ productOne value mask cs ↔ ∃ c ∈ cs, ∃ vm,
      mfSubvalueIntersect value mask c.value c.mask = some vm ∧
      c' = { c with value := vm.1, mask := vm.2 } := by
  simp only [productOne, mem_filterMap, Option.map_eq_some_iff]
  exact exists_congr fun c => and_congr_right fun _ => exists_congr fun vm =>
    and_congr_right fun _ => eq_comm

theorem productOne_spec (h : Stands s D value mask) (hw : s.width ≠ 0) (hk : Kept s D [cs]) :
    (∀ c ∈ productOne value mask cs, c.On s) ∧
      PathRefines (alts (productOne value mask cs)) (conj D [cs]) := by
  have hcs : ∀ c ∈ cs, c.On s := hk.ors cs (by simp)
  have hout : ∀ c' ∈ productOne value mask cs, c'.On s ∧ ∃ c ∈ cs, ∀ σ : Assignment,
      c'.Sat σ ↔ ∀ d ∈ insert c D, d.Sat σ := by
    intro c' hc'
    obtain ⟨c, hc, vm, hi, rfl⟩ := mem_productOne.1 hc'
    have hc' := hcs c hc
    obtain ⟨hst, hm⟩ := h.intersect hw hc' hi
    have hon : ({ c with value := vm.1, mask := vm.2 } : Cmp).On s :=
      ⟨⟨⟨⟨hc'.symbol, hc'.string_eq, hc'.string_as, fun _ i hi =>
        hc'.symbol_eq ▸ hst.mask_lt i hi⟩, fun _ => hst.within⟩, hc'.eq, fun _ => hm⟩,
        hc'.symbol_eq⟩
    exact ⟨hon, c, hc, fun σ => (hon.sat_iff hw).trans (hst.iff σ)⟩
  refine ⟨fun c hc => (hout c hc).1, hk.refines (.inr (by simp))
    (fun c hc => (hout c hc).1.symbol_eq) ?_ ?_ ?_⟩
  · intro c' hc' d hd σ hs
    obtain ⟨-, c, -, hiff⟩ := hout c' hc'
    exact (hiff σ.toAssignment).1 hs d (.inr hd)
  · intro c' hc' cs' hcs'
    obtain ⟨-, c, hc, hiff⟩ := hout c' hc'
    exact ⟨c, by rw [mem_singleton.1 hcs']; exact hc,
      fun σ hs => (hiff σ.toAssignment).1 hs c (.inl rfl)⟩
  · intro σ hD hors
    obtain ⟨c, hc, hs⟩ := hors cs (by simp)
    cases hi : mfSubvalueIntersect value mask c.value c.mask with
    | none => exact absurd ⟨hD, hs⟩ (h.conflict hw (hcs c hc) hi _)
    | some vm =>
      have hmem := mem_productOne.2 ⟨c, hc, vm, hi, rfl⟩
      refine ⟨_, hmem, ((hout _ hmem).1.sat_iff hw).2 ?_⟩
      exact ((h.intersect hw (hcs c hc) hi).1.iff _).2 (Set.forall_mem_insert.2 ⟨hs, hD⟩)

theorem mem_productTwo {as bs : List Cmp} {c' : Cmp} :
    c' ∈ productTwo s value mask as bs ↔ ∃ a ∈ as, ∃ b ∈ bs, ∃ vm vm',
      mfSubvalueIntersect value mask a.value a.mask = some vm ∧
      mfSubvalueIntersect vm.1 vm.2 b.value b.mask = some vm' ∧ c' = numericCmp s vm'.1 vm'.2 := by
  simp only [productTwo, mem_flatMap]
  refine exists_congr fun a => and_congr_right fun _ => ?_
  cases hi : mfSubvalueIntersect value mask a.value a.mask with
  | none => simp
  | some vm =>
    simp [eq_comm]

theorem productTwo_spec (h : Stands s D value mask) (hw : s.width ≠ 0) {as bs : List Cmp}
    (hk : Kept s D [as, bs]) : (∀ c ∈ productTwo s value mask as bs, c.On s) ∧
      PathRefines (alts (productTwo s value mask as bs)) (conj D [as, bs]) := by
  have has : ∀ a ∈ as, a.On s := hk.ors as (by simp)
  have hbs : ∀ b ∈ bs, b.On s := hk.ors bs (by simp)
  have hout : ∀ c' ∈ productTwo s value mask as bs, c'.On s ∧ ∃ a ∈ as, ∃ b ∈ bs,
      ∀ σ : Assignment, c'.Sat σ ↔ ∀ d ∈ insert b (insert a D), d.Sat σ := by
    intro c' hc'
    obtain ⟨a, ha, b, hb, vm, vm', hi, hi', rfl⟩ := mem_productTwo.1 hc'
    obtain ⟨hst', hm'⟩ := (h.intersect hw (has a ha) hi).1.intersect hw (hbs b hb) hi'
    have hwf : s.Wf := (has a ha).symbol_eq ▸ (has a ha).symbol
    exact ⟨hst'.numericCmp hwf hm', a, ha, b, hb, hst'.numericCmp_sat hw⟩
  refine ⟨fun c hc => (hout c hc).1, hk.refines (.inr (by simp))
    (fun c hc => (hout c hc).1.symbol_eq) ?_ ?_ ?_⟩
  · intro c' hc' d hd σ hs
    obtain ⟨-, a, -, b, -, hiff⟩ := hout c' hc'
    exact (hiff σ.toAssignment).1 hs d (.inr (.inr hd))
  · intro c' hc' cs' hcs'
    obtain ⟨-, a, ha, b, hb, hiff⟩ := hout c' hc'
    rcases mem_cons.1 hcs' with rfl | hcs'
    · exact ⟨a, ha, fun σ hs => (hiff σ.toAssignment).1 hs a (.inr (.inl rfl))⟩
    · rw [mem_singleton.1 hcs']
      exact ⟨b, hb, fun σ hs => (hiff σ.toAssignment).1 hs b (.inl rfl)⟩
  · intro σ hD hors
    obtain ⟨a, ha, hsa⟩ := hors as (by simp)
    obtain ⟨b, hb, hsb⟩ := hors bs (by simp)
    cases hi : mfSubvalueIntersect value mask a.value a.mask with
    | none => exact absurd ⟨hD, hsa⟩ (h.conflict hw (has a ha) hi _)
    | some vm =>
      have hst := (h.intersect hw (has a ha) hi).1
      have hDa := Set.forall_mem_insert.2 ⟨hsa, hD⟩
      cases hi' : mfSubvalueIntersect vm.1 vm.2 b.value b.mask with
      | none => exact absurd ⟨hDa, hsb⟩ (hst.conflict hw (hbs b hb) hi' _)
      | some vm' =>
        refine ⟨_, mem_productTwo.2 ⟨a, ha, b, hb, vm, vm', hi, hi', rfl⟩, ?_⟩
        exact ((hst.intersect hw (hbs b hb) hi').1.numericCmp_sat hw _).2
          (Set.forall_mem_insert.2 ⟨hsb, hDa⟩)

end

/-! ## String symbols -/

section
variable {s : ExprSymbol} {D : Set Cmp} {css : List (List Cmp)}

/-- The loop invariant of `crush_and_string`: `singleton` has the string of all
    the comparisons that were merged into it. -/
structure StringInv (s : ExprSymbol) (D : Set Cmp) (css : List (List Cmp)) (st : StringAnd) :
    Prop where
  singleton : match st.singleton with
    | none => D = ∅
    | some c => c ∈ D ∧ ∀ d ∈ D, d.string = c.string
  ors : st.ors = css.map fun cs => cs.map .cmp

theorem crushAndStringStep_spec (hw : s.width = 0) {st : StringAnd} {cs : List Cmp}
    (hinv : StringInv s D css st) (hk : Kept s D css) (hcs : ∀ c ∈ cs, c.On s) :
    Iterates crushAndStringStep (StringInv s) D css st cs := by
  match cs, hcs with
  | [], _ => exact .inl ⟨rfl, by simp⟩
  | c :: c' :: cs, _ =>
    refine .inr (.inr ⟨_, by simp, rfl, hinv.singleton, ?_⟩)
    simp [hinv.ors]
  | [c], hcs =>
    have hc := hcs c mem_cons_self
    obtain ⟨hsing, hors⟩ := hinv
    cases hst : st.singleton with
    | none =>
      rw [hst] at hsing
      refine .inr (.inl ⟨c, { st with singleton := some c }, rfl,
        by simp [orCmps, crushAndStringStep, hst], ?_, hors⟩)
      subst hsing
      simp
    | some d =>
      rw [hst] at hsing
      obtain ⟨hd, hall⟩ := hsing
      by_cases heq : c.string = d.string
      · refine .inr (.inl ⟨c, st, rfl, by simp [orCmps, crushAndStringStep, hst, heq], ?_, hors⟩)
        rw [hst]
        exact ⟨.inr hd, Set.forall_mem_insert.2 ⟨heq, hall⟩⟩
      · refine .inl ⟨by simp [orCmps, crushAndStringStep, hst, heq], fun σ hσ => heq ?_⟩
        obtain ⟨hD, c', hc', hs⟩ := hσ
        rw [mem_singleton.1 hc'] at hs
        exact σ.isName_unique s _ _ ((hc.sat_string_iff hw).1 hs)
          (((hk.on d hd).sat_string_iff hw).1 (hD d hd))

theorem mapM_orOperands (css : List (List Cmp)) :
    (css.map fun cs => cs.map Expr.cmp).mapM orOperands = .ok css := by
  induction css with
  | nil => rfl
  | cons cs css ih =>
    rw [map_cons, mapM_cons, orOperands_map, ih]
    rfl

/-- The strings that all of the disjunctions have in common. -/
theorem mem_intersectStrings : ∀ (css : List (List Cmp)) {result : List String}, result ≠ [] → ∀ t,
    t ∈ (intersectStrings result css).getD [] ↔ t ∈ result ∧ ∀ cs ∈ css, ∃ c ∈ cs, c.string = t
  | [], result, _, t => by simp [intersectStrings]
  | cs :: css, result, hne, t => by
    have hmem : t ∈ result.filter (· ∈ (cs.map Cmp.string).dedup) ↔
        t ∈ result ∧ ∃ c ∈ cs, c.string = t := by simp
    rw [intersectStrings, forall_mem_cons, ← and_assoc, ← hmem]
    simp only [List.isEmpty_iff, hne, if_false]
    split_ifs with h
    · rw [h]
      simp
    · exact mem_intersectStrings css h t

theorem mem_intersectStrings_nil (hne : css ≠ []) (hlong : ∀ cs ∈ css, cs ≠ []) (t : String) :
    t ∈ (intersectStrings [] css).getD [] ↔ ∀ cs ∈ css, ∃ c ∈ cs, c.string = t := by
  obtain ⟨cs, css, rfl⟩ := exists_cons_of_ne_nil hne
  have hcs : (cs.map Cmp.string).dedup ≠ [] := by
    simpa using hlong cs mem_cons_self
  rw [intersectStrings]
  simp only [if_true, List.isEmpty_iff, if_neg hcs]
  rw [mem_intersectStrings css hcs]
  simp

theorem stringCmp_on (hs : s.Wf) (hw : s.width = 0) (t : String) : (stringCmp s t).On s where
  symbol := hs
  string_eq _ := rfl
  string_as _ := rfl
  mask_lt h := absurd hw h
  within h := absurd hw h
  eq := rfl
  mask_ne h := absurd hw h
  symbol_eq := rfl

/-- A disjunction of the strings that satisfy all of a conjunction. -/
theorem Kept.refines_strings (hw : s.width = 0) (hk : Kept s D css) (hne : D.Nonempty ∨ css ≠ [])
    {out : List Cmp} (hon : ∀ c ∈ out, c.On s) (hout : ∀ t, (∃ c ∈ out, c.string = t) ↔
      (∀ d ∈ D, d.string = t) ∧ ∀ cs ∈ css, ∃ c ∈ cs, c.string = t) :
    PathRefines (alts out) (conj D css) := by
  have hname : ∀ {c : Cmp} {σ : NamedAssignment}, c.On s →
      (c.Sat σ.toAssignment ↔ σ.isName s c.string) := fun hc => hc.sat_string_iff hw
  refine hk.refines hne (fun c hc => (hon c hc).symbol_eq) (fun c hc d hd σ h => ?_)
    (fun c hc cs hcs => ?_) fun σ hD hors => ?_
  · have heq := ((hout _).1 ⟨c, hc, rfl⟩).1 d hd
    exact (hname (hk.on d hd)).2 (heq ▸ (hname (hon c hc)).1 h)
  · obtain ⟨d, hd, heq⟩ := ((hout _).1 ⟨c, hc, rfl⟩).2 cs hcs
    exact ⟨d, hd, fun σ h => (hname (hk.ors cs hcs d hd)).2 (heq ▸ (hname (hon c hc)).1 h)⟩
  · obtain ⟨t, ht⟩ : ∃ t, σ.isName s t := by
      rcases hne with ⟨d, hd⟩ | hne
      · exact ⟨_, (hname (hk.on d hd)).1 (hD d hd)⟩
      · obtain ⟨cs, hcs⟩ := exists_mem_of_ne_nil _ hne
        obtain ⟨c, hc, h⟩ := hors cs hcs
        exact ⟨_, (hname (hk.ors cs hcs c hc)).1 h⟩
    have hstring : ∀ {c : Cmp}, c.On s → c.Sat σ.toAssignment → c.string = t := fun hc h =>
      σ.isName_unique s _ _ ((hname hc).1 h) ht
    obtain ⟨c, hc, rfl⟩ := (hout t).2 ⟨fun d hd => hstring (hk.on d hd) (hD d hd), fun cs hcs =>
      (hors cs hcs).imp fun c hc => ⟨hc.1, hstring (hk.ors cs hcs c hc.1) hc.2⟩⟩
    exact ⟨c, hc, (hname (hon c hc)).2 ht⟩

theorem crushAndStringRest_spec (hs : s.Wf) (hw : s.width = 0) {st : StringAnd}
    (hinv : StringInv s D css st) (hk : Kept s D css) (hne : D.Nonempty ∨ css ≠ []) :
    ∃ cs, crushAndStringRest s st = .ok (orCmps cs) ∧ (∀ c ∈ cs, c.On s) ∧
      PathRefines (alts cs) (conj D css) ∧ (css = [] → cs.length ≤ 1) := by
  obtain ⟨hsing, hors⟩ := hinv
  rw [crushAndStringRest, hors, mapM_orOperands]
  simp only [bind, Except.bind]
  cases hst : st.singleton with
  | some c =>
    rw [hst] at hsing
    obtain ⟨hc, hall⟩ := hsing
    have hon := hk.on c hc
    have hD : ∀ t, (∀ d ∈ D, d.string = t) ↔ c.string = t := fun t =>
      ⟨fun h => h c hc, fun h d hd => (hall d hd).trans h⟩
    have hall' : (css.all fun cs => cs.any fun d => d.string == c.string) = true ↔
        ∀ cs ∈ css, ∃ d ∈ cs, d.string = c.string := by simp
    dsimp only
    by_cases hmatch : ∀ cs ∈ css, ∃ d ∈ cs, d.string = c.string
    · refine ⟨[c], ?_, by simpa using hon, hk.refines_strings hw hne (by simpa using hon)
        fun t => ?_,
        by simp⟩
      · rw [if_pos (hall'.2 hmatch)]; rfl
      · simp only [hD, mem_singleton, exists_eq_left]
        exact (and_iff_left_of_imp fun h => h ▸ hmatch).symm
    · refine ⟨[], ?_, by simp, hk.refines_strings hw hne (by simp) fun t => ?_, by simp⟩
      · rw [if_neg (mt hall'.1 hmatch)]; rfl
      · rw [hD]
        refine iff_of_false (by simp) ?_
        rintro ⟨rfl, h⟩
        exact hmatch h
  | none =>
    rw [hst] at hsing
    have hD : D = ∅ := hsing
    have hcss : css ≠ [] := hne.resolve_left (by simp [hD])
    have hlong : ∀ cs ∈ css, cs ≠ [] := fun cs hcs h => by
      have := hk.long cs hcs; simp [h] at this
    have hon : ∀ c ∈ ((intersectStrings [] css).getD []).map (stringCmp s), c.On s := by
      intro c hc
      obtain ⟨t, -, rfl⟩ := mem_map.1 hc
      exact stringCmp_on hs hw t
    refine ⟨_, ?_, hon, hk.refines_strings hw hne hon fun t => ?_, fun h => absurd h hcss⟩
    · cases intersectStrings [] css with
      | none => rfl
      | some out =>
        simp only [← exprFix_or_cmps, map_map]
        rfl
    · rw [← mem_intersectStrings_nil hcss hlong, hD]
      simp [stringCmp]

end

/-! ## All expressions over one symbol -/

inductive Expr.Crushable (s : ExprSymbol) : Expr → Prop
  | cmp {c : Cmp} : c.On s → Crushable s (.cmp c)
  | and {subs : List Expr} : 2 ≤ subs.length → (∀ e ∈ subs, e.Crushable s) →
      Crushable s (.andor .and subs)
  | or {subs : List Expr} : (∀ e ∈ subs, e.Crushable s) → Crushable s (.andor .or subs)

/-- With enough fuel, crushing `e` returns the disjunction of `cs`. -/
def CrushesBy (s : ExprSymbol) (e : Expr) (cs : List Cmp) : Prop :=
  ∃ N, ∀ n ≥ N, crushCmps n s e = .ok (orCmps cs)

section
variable {s : ExprSymbol} {csl : List (List Cmp)} {subs : List Expr}

theorem eventually_forall₂ {α β : Type*} {P : ℕ → α → β → Prop} {xs : List α} {ys : List β}
    (h : Forall₂ (fun x y => ∃ N, ∀ n ≥ N, P n x y) xs ys) :
    ∃ N, ∀ n ≥ N, Forall₂ (P n) xs ys := by
  induction h with
  | nil => simp
  | cons hp _ ih =>
    obtain ⟨N, hN⟩ := hp
    obtain ⟨M, hM⟩ := ih
    exact ⟨max N M, fun n hn => .cons (hN n (by omega)) (hM n (by omega))⟩

theorem exists_forall₂ {α β : Type*} [Nonempty β] {P : α → β → Prop} {xs : List α}
    (h : ∀ x ∈ xs, ∃ y, P x y) : ∃ ys, Forall₂ P xs ys := by
  choose! f hf using h
  exact ⟨xs.map f, forall₂_map_right_iff.2 (forall₂_same.2 hf)⟩

theorem eventually_succ {P : ℕ → Prop} (h : ∃ N, ∀ n ≥ N, P (n + 1)) : ∃ N, ∀ n ≥ N, P n := by
  obtain ⟨N, hN⟩ := h
  refine ⟨N + 1, fun n hn => ?_⟩
  obtain ⟨n, rfl⟩ : ∃ m, n = m + 1 := ⟨n - 1, by omega⟩
  exact hN n (by omega)

theorem exists_crushesTo (h : Forall₂ (CrushesBy s) subs csl) :
    ∃ N, ∀ n ≥ N, CrushesTo (crushCmps n s) subs csl :=
  eventually_forall₂ h

theorem crushesBy_or (hon : ∀ cs ∈ csl, ∀ c ∈ cs, c.On s)
    (h : Forall₂ (CrushesBy s) subs csl) :
    ∃ out, CrushesBy s (.andor .or subs) out ∧ Reduced out csl.flatten := by
  obtain ⟨N, hN⟩ := exists_crushesTo h
  have hflat : ∀ c ∈ csl.flatten, c.On s := fun c hc => by
    obtain ⟨cs, hcs, hc⟩ := mem_flatten.1 hc; exact hon cs hcs c hc
  obtain ⟨out, hred, hout⟩ := crushOr_spec hflat
  exact ⟨out, eventually_succ ⟨N, fun n hn => hout (hN n hn)⟩, hred⟩

theorem crushesBy_cmp (c : Cmp) : CrushesBy s (.cmp c) [c] := eventually_succ ⟨0, fun _ _ => rfl⟩

variable {cs : List Cmp}

theorem crushesBy_orCmps (hon : ∀ c ∈ cs, c.On s) :
    ∃ out, CrushesBy s (.andor .or (cs.map .cmp)) out ∧ Reduced out cs := by
  have hflat : (cs.map fun c => [c]).flatten = cs := flatMap_singleton' cs
  have heach : Forall₂ (CrushesBy s) (cs.map Expr.cmp) (cs.map fun c => [c]) := by
    rw [forall₂_map_left_iff, forall₂_map_right_iff]
    exact forall₂_same.2 fun c _ => crushesBy_cmp c
  have := crushesBy_or (by simpa using hon) heach
  rwa [hflat] at this

def Returns (s : ExprSymbol) (rest : ℕ → Except Abort Expr) (D : Set Cmp) (css : List (List Cmp)) :
    Prop :=
  ∃ cs N, (∀ n ≥ N, rest n = .ok (orCmps cs)) ∧ (∀ c ∈ cs, c.On s) ∧
    PathRefines (alts cs) (conj D css) ∧ (css = [] → cs.length ≤ 1)

/-- What is left of a conjunction after the first loop can be multiplied out, if
    it has at most `k` disjunctions. -/
def RestOk (s : ExprSymbol) (k : ℕ) : Prop :=
  ∀ D css st, css.length ≤ k → NumericInv s D css st → Kept s D css → D.Nonempty ∨ css ≠ [] →
    Returns s (fun n => crushAndNumericRest (crushCmps n s) s st) D css

/-- Crushing the conjunction of `subs`, which are crushed to `csl`. -/
def CrushesAnd (s : ExprSymbol) (subs : List Expr) (csl : List (List Cmp)) : Prop :=
  ∃ cs, CrushesBy s (.andor .and subs) cs ∧ (∀ c ∈ cs, c.On s) ∧
    PathRefines (alts cs) (Dnf.all (csl.map alts)) ∧ ((∀ cs' ∈ csl, cs'.length ≤ 1) → cs.length ≤ 1)

section
variable (hlen : 2 ≤ subs.length) (hon : ∀ cs ∈ csl, ∀ c ∈ cs, c.On s)
  (h : Forall₂ (CrushesBy s) subs csl)
include hlen hon h

theorem crushesAnd_of {τ : Type} {step : τ → Expr → Except Abort (Option τ)}
    {I : Set Cmp → List (List Cmp) → τ → Prop} {g : ℕ → τ → Except Abort Expr} {t : τ}
    (hinv0 : I ∅ [] t)
    (hstep : ∀ {D css st cs}, I D css st → Kept s D css → (∀ c ∈ cs, c.On s) →
      Iterates step I D css st cs)
    (hrun : ∀ n r, crushSubs (crushCmps n s) step subs t = .ok r →
      crushCmps (n + 1) s (.andor .and subs) = r.elim (.ok (.boolean false)) (g n))
    (hrest : ∀ {D css st}, css.length ≤ csl.length → I D css st → Kept s D css →
      D.Nonempty ∨ css ≠ [] → Returns s (g · st) D css) : CrushesAnd s subs csl := by
  obtain ⟨N, hN⟩ := exists_crushesTo h
  have hstart : conj ∅ [] = {∅} := by simp [conj]
  rcases crushSubs_spec hstep hon hinv0 (.empty s) with
    ⟨hloop, hfalse⟩ | ⟨D, css, st, hloop, hinv, hkept, hconj, hle, hsmall, hne⟩
  · refine ⟨[], eventually_succ ⟨N, fun n hn => hrun n _ (hloop _ _ (hN n hn))⟩, by simp, ?_,
      by simp⟩
    rw [hstart, Dnf.unit_and] at hfalse
    rw [alts_nil]
    exact .empty hfalse
  · have hcsl : csl ≠ [] := by
      rintro rfl
      rw [h.length_eq] at hlen
      cases hlen
    obtain ⟨cs, M, hM, hcs, href, hone⟩ := hrest (by simpa using hle) hinv hkept
      (hne (.inr (.inr hcsl)))
    refine ⟨cs, eventually_succ ⟨max N M, fun n hn => ?_⟩, hcs, ?_, fun hall => hone (hsmall hall)⟩
    · exact (hrun n _ (hloop _ _ (hN n (by omega)))).trans (hM n (by omega))
    · rwa [hconj, hstart, Dnf.unit_and] at href

theorem crushesAnd_numeric (hw : s.width ≠ 0) {k : ℕ} (hrest : RestOk s k) (hk : csl.length ≤ k) :
    CrushesAnd s subs csl := by
  refine crushesAnd_of hlen hon h (t := ⟨0, 0, []⟩) ⟨.empty s, by simp, rfl⟩
    (fun hinv _ hcs => crushAndNumericStep_spec hw hinv hcs) (fun n r hr => ?_)
    fun hle hinv hkept hne => hrest _ _ _ (hle.trans hk) hinv hkept hne
  rw [crushCmps, if_pos hw, crushAndNumeric, if_neg (by omega), hr]
  cases r <;> rfl

theorem crushesAnd_string (hs : s.Wf) (hw : s.width = 0) : CrushesAnd s subs csl := by
  refine crushesAnd_of hlen hon h (t := ⟨none, []⟩)
    (g := fun _ => crushAndStringRest s) ⟨rfl,
      rfl⟩ (fun hinv hk hcs => crushAndStringStep_spec hw hinv hk hcs) (fun n r hr => ?_)
    fun _ hinv hkept hne => ?_
  · rw [crushCmps, if_neg (not_not.2 hw), crushAndString, if_neg (by omega), hr]
    cases r <;> rfl
  · obtain ⟨cs, hM, hcs⟩ := crushAndStringRest_spec hs hw hinv hkept hne
    exact ⟨cs, 0, fun _ _ => hM, hcs⟩

end

variable {D : Set Cmp} {st : NumericAnd}

theorem rest_nil (hs : s.Wf) (hw : s.width ≠ 0) (hinv : NumericInv s D [] st) (hk : Kept s D [])
    (hne : D.Nonempty) : Returns s (fun n => crushAndNumericRest (crushCmps n s) s st) D [] := by
  have hm := hinv.mask_ne hne
  have hon := hinv.stands.numericCmp hs hm
  refine ⟨[numericCmp s st.value st.mask], 0, fun n _ => ?_, by simpa using hon, ?_, by simp⟩
  · simp only [crushAndNumericRest, hinv.ors, if_neg hm]
    rfl
  · refine hk.refines (.inl hne) (by simp [numericCmp]) ?_ (by simp) ?_
    · intro c hc d hd σ h
      rw [mem_singleton.1 hc, hinv.stands.numericCmp_sat hw] at h
      exact h d hd
    · exact fun σ hD _ => ⟨_, mem_cons_self, (hinv.stands.numericCmp_sat hw _).2 hD⟩

theorem rest_one (hw : s.width ≠ 0) (hinv : NumericInv s D [cs] st) (hk : Kept s D [cs]) :
    Returns s (fun n => crushAndNumericRest (crushCmps n s) s st) D [cs] := by
  obtain ⟨hon, href⟩ := productOne_spec hinv.stands hw hk
  generalize hp : productOne st.value st.mask cs = prod at hon href
  have hrun : ∀ n, crushAndNumericRest (crushCmps n s) s st =
      if prod.length < 2 then .ok (orCmps prod)
      else crushCmps n s (.andor .or (prod.map .cmp)) := by
    intro n
    rw [crushAndNumericRest, hinv.ors]
    simp only [map_cons, map_nil, orOperands_map, bind, Except.bind, hp]
    rcases prod with _ | ⟨_, _ | _⟩ <;> rfl
  by_cases hlen : prod.length < 2
  · exact ⟨prod, 0, fun n _ => (hrun n).trans (if_pos hlen), hon, href, by simp⟩
  · obtain ⟨out, ⟨N, hN⟩, hred⟩ := crushesBy_orCmps hon
    exact ⟨out, N, fun n hn => (hrun n).trans ((if_neg hlen).trans (hN n hn)), hred.on hon,
      (hred.refines hon).trans href, by simp⟩

theorem exists_crushesBy_orCmps {csl : List (List Cmp)} (hon : ∀ cs ∈ csl, ∀ c ∈ cs, c.On s) :
    ∃ csl', Forall₂ (CrushesBy s) (csl.map fun cs => .andor .or (cs.map .cmp)) csl' ∧
      Forall₂ Reduced csl' csl := by
  obtain ⟨csl', h⟩ := exists_forall₂ fun cs hcs => crushesBy_orCmps (hon cs hcs)
  exact ⟨csl', forall₂_map_left_iff.2 (h.imp fun _ _ h => h.1), (h.imp fun _ _ h => h.2).flip⟩

theorem crushesBy_orCmps' (hne : cs ≠ []) (hon : ∀ c ∈ cs, c.On s) :
    ∃ out, CrushesBy s (orCmps cs) out ∧ Reduced out cs := by
  match cs, hne, hon with
  | [c], _, _ => exact ⟨[c], crushesBy_cmp c, .refl _⟩
  | c :: c' :: cs, _, hon => exact crushesBy_orCmps hon

theorem refines_of_reduced {csl' csl : List (List Cmp)} (h : Forall₂ Reduced csl' csl)
    (hon : ∀ cs ∈ csl, ∀ c ∈ cs, c.On s) :
    PathRefines (Dnf.all (csl'.map alts)) (Dnf.all (csl.map alts)) := by
  refine .all ?_
  induction h with
  | nil => exact .nil
  | cons h _ ih =>
    exact .cons (h.refines (hon _ mem_cons_self)) (ih (forall_mem_cons.1 hon).2)

/-- Two or more disjunctions are left: the first two become one, which makes for
    one disjunction less in the next round. -/
theorem rest_two (hw : s.width ≠ 0) {as bs : List Cmp} {rest : List (List Cmp)}
    (hinv : NumericInv s D (as :: bs :: rest) st) (hk : Kept s D (as :: bs :: rest))
    (hrest : RestOk s (rest.length + 1)) :
    Returns s (fun n => crushAndNumericRest (crushCmps n s) s st) D (as :: bs :: rest) := by
  have hk2 : Kept s D [as, bs] := ⟨hk.on, fun cs h => hk.ors cs (by simp at h ⊢; tauto),
    fun cs h => hk.long cs (by simp at h ⊢; tauto)⟩
  obtain ⟨hon, href⟩ := productTwo_spec hinv.stands hw hk2
  have hconj : conj D (as :: bs :: rest) = Dnf.and (conj D [as, bs]) (Dnf.all (rest.map alts)) :=
    conj_append D [as, bs] rest
  generalize hp : productTwo s st.value st.mask as bs = prod at hon href
  have hrun : ∀ n, crushAndNumericRest (crushCmps n s) s st =
      if prod = [] then .ok (.boolean false) else if rest = [] then crushCmps n s (orCmps prod)
      else crushCmps n s (.andor .and (orCmps prod ::
        rest.map fun cs => .andor .or (cs.map .cmp))) := fun n => by
    rw [crushAndNumericRest, hinv.ors]
    simp only [map_cons, orOperands_map, bind, Except.bind, hp]
    rcases prod with _ | ⟨c, _ | ⟨c', cs⟩⟩
    · rfl
    · simp [orCmps, combine, Function.comp_def]
    · simp [orCmps, combine, Function.comp_def]
  rcases eq_or_ne prod [] with rfl | hprod
  · refine ⟨[], 0, fun n _ => hrun n, hon, ?_, by simp⟩
    rw [hconj, alts_nil, ← Dnf.empty_and (Dnf.all (rest.map alts)), ← alts_nil]
    exact href.and (.refl _)
  obtain ⟨first, hfirst, hred⟩ := crushesBy_orCmps' hprod hon
  rcases eq_or_ne rest [] with rfl | hne
  · obtain ⟨N, hN⟩ := hfirst
    refine ⟨first, N, fun n hn => ?_, hred.on hon, (hred.refines hon).trans href, by simp⟩
    exact (hrun n).trans ((if_neg hprod).trans (hN n hn))
  · have hrestOn : ∀ cs ∈ rest, ∀ c ∈ cs, c.On s := fun cs h => hk.ors cs (by simp [h])
    obtain ⟨csl', h1, h2⟩ := exists_crushesBy_orCmps hrestOn
    have hon' : ∀ cs ∈ first :: csl', ∀ c ∈ cs, c.On s := by
      refine forall_mem_cons.2 ⟨hred.on hon, fun cs hcs => ?_⟩
      obtain ⟨cs', hcs', hr⟩ := forall₂_mem_right h2.flip cs hcs
      exact hr.on (hrestOn cs' hcs')
    obtain ⟨out, ⟨N, hN⟩, hout, hr, -⟩ := crushesAnd_numeric
      (by have := length_pos_of_ne_nil hne; simp; omega) hon' (Forall₂.cons hfirst h1) hw hrest
      (by simp [h2.length_eq])
    refine ⟨out, N, fun n hn => ?_, hout, hr.trans ?_, by simp⟩
    · exact (hrun n).trans (((if_neg hprod).trans (if_neg hne)).trans (hN n hn))
    · rw [hconj]
      exact ((hred.refines hon).trans href).and (refines_of_reduced h2 hrestOn)

theorem restOk (hs : s.Wf) (hw : s.width ≠ 0) : ∀ k, RestOk s k := by
  intro k
  induction k using Nat.strong_induction_on with
  | _ k ih =>
    intro D css st hlen hinv hk hne
    match css, hlen, hinv, hk, hne with
    | [], _, hinv, hk, hne => exact rest_nil hs hw hinv hk (hne.resolve_right (by simp))
    | [cs], _, hinv, hk, _ => exact rest_one hw hinv hk
    | as :: bs :: rest, hlen, hinv, hk, _ =>
      exact rest_two hw hinv hk (ih _ (by simp at hlen; omega))

end

mutual

/-- How often an expression can be distributed: the number of ORs on a path. -/
def Expr.weight : Expr → ℕ
  | .andor .or subs => 1 + maxWeight subs
  | .andor .and subs => sumWeight subs
  | .cmp _ => 0
  | .boolean _ => 0
  | .condition _ _ => 0

def sumWeight : List Expr → ℕ
  | [] => 0
  | sub :: subs => sub.weight + sumWeight subs

def maxWeight : List Expr → ℕ
  | [] => 0
  | sub :: subs => max sub.weight (maxWeight subs)

end

theorem weight_le_sumWeight {subs : List Expr} {e : Expr} (he : e ∈ subs) :
    e.weight ≤ sumWeight subs := by
  induction subs with
  | nil => cases he
  | cons sub subs ih =>
    rw [sumWeight]
    rcases mem_cons.1 he with rfl | he
    · omega
    · have := ih he; omega

/-- `cs` is what crushing `e` returns. -/
structure Crushed (s : ExprSymbol) (e : Expr) (cs : List Cmp) : Prop where
  returns : CrushesBy s e cs
  on : ∀ c ∈ cs, c.On s
  refines : ∀ res, PathRefines (alts cs) (e.paths res)
  small : e.weight = 0 → cs.length ≤ 1

section
variable {s : ExprSymbol} {subs : List Expr} {csl : List (List Cmp)}
  (h : Forall₂ (Crushed s) subs csl)
include h

theorem on_of_crushed (cs : List Cmp) (hcs : cs ∈ csl) : ∀ c ∈ cs, c.On s := by
  obtain ⟨e, -, hc⟩ := forall₂_mem_right h cs hcs
  exact hc.on

theorem refines_of_crushed (res : String → Bool) :
    Forall₂ PathRefines (csl.map alts) (subs.map (Expr.paths res)) := by
  rw [forall₂_map_left_iff, forall₂_map_right_iff]
  exact (h.imp fun _ _ hc => hc.refines res).flip

end

/-- **Crushing.**  On an expression over one symbol `crush_cmps` returns: with
    enough fuel no assertion fails, and the result is a disjunction of
    comparisons on the symbol that refines the expression. -/
theorem crushCmps_spec {s : ExprSymbol} (hs : s.Wf) {e : Expr} (he : e.Crushable s) :
    ∃ cs, Crushed s e cs := by
  induction he with
  | @cmp c hc => exact ⟨[c], crushesBy_cmp c, by simpa using hc, fun _ => .of_eq (by simp), by simp⟩
  | @and subs hlen _ ih =>
    obtain ⟨csl, h⟩ := exists_forall₂ ih
    have hon := on_of_crushed h
    have hby : Forall₂ (CrushesBy s) subs csl := h.imp fun _ _ hc => hc.returns
    have hpaths : ∀ res, PathRefines (Dnf.all (csl.map alts))
        ((Expr.andor .and subs).paths res) := fun res => by
      rw [paths_andor]
      exact .all (refines_of_crushed h res)
    have hsmall : (Expr.andor .and subs).weight = 0 → ∀ cs ∈ csl, cs.length ≤ 1 := by
      intro hw cs hcs
      obtain ⟨e, he, hc⟩ := forall₂_mem_right h cs hcs
      have := weight_le_sumWeight he
      rw [Expr.weight] at hw
      exact hc.small (by omega)
    have hand : CrushesAnd s subs csl := by
      by_cases hw : s.width = 0
      · exact crushesAnd_string hlen hon hby hs hw
      · exact crushesAnd_numeric hlen hon hby hw (restOk hs hw _) le_rfl
    obtain ⟨cs, h1, h2, h3, h4⟩ := hand
    exact ⟨cs, h1, h2, fun res => h3.trans (hpaths res), fun hw => h4 (hsmall hw)⟩
  | @or subs _ ih =>
    obtain ⟨csl, h⟩ := exists_forall₂ ih
    have hflat : ∀ c ∈ csl.flatten, c.On s := fun c hc => by
      obtain ⟨cs, hcs, hc⟩ := mem_flatten.1 hc; exact on_of_crushed h cs hcs c hc
    obtain ⟨out, hout, hred⟩ := crushesBy_or (on_of_crushed h) (h.imp fun _ _ hc => hc.returns)
    refine ⟨out, hout, hred.on hflat, fun res => (hred.refines hflat).trans ?_, fun hw => ?_⟩
    · rw [paths_andor, alts_flatten]
      exact .any (refines_of_crushed h res)
    · rw [Expr.weight] at hw; omega

end Ovn

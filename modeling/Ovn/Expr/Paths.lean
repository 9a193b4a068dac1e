/-
  The meaning of an expression as a set of paths.

  * `Expr.paths` collects, for every way an expression can be true, the
    comparisons that have to hold; tidying up AND and OR nodes does not change it.
  * `Assignment` gives every symbol a value of its own, also where two symbols
    share a field; the evaluator returns true iff a path holds under the one that
    the flow and the port lookup induce.
  * `Expr.Tidy` is the shape `exprFix` establishes level by level.
-/
import Ovn.Expr.Basic

namespace Ovn

open List

/-! ## Comparisons of an expression -/

theorem cmpsList_eq (subs : List Expr) : cmpsList subs = subs.flatMap Expr.cmps := by
  induction subs with
  | nil => rfl
  | cons sub subs ih => rw [cmpsList, ih]; rfl

@[simp] theorem cmps_andor (t : AndOr) (subs : List Expr) :
    (Expr.andor t subs).cmps = subs.flatMap Expr.cmps := by
  rw [Expr.cmps, cmpsList_eq]

@[simp] theorem cmps_cmp (c : Cmp) : (Expr.cmp c).cmps = [c] := by rw [Expr.cmps]

@[simp] theorem cmps_boolean (b : Bool) : (Expr.boolean b).cmps = [] := by rw [Expr.cmps]

@[simp] theorem cmps_condition (n : Bool) (s : String) : (Expr.condition n s).cmps = [] := by
  rw [Expr.cmps]

variable {c : Cmp} {t : AndOr} {subs : List Expr}

theorem mem_cmps_andor : c ∈ (Expr.andor t subs).cmps ↔ ∃ e ∈ subs, c ∈ e.cmps := by
  simp

/-! ## Paths -/

def AndOr.dnf : AndOr → List (Set (Set Cmp)) → Set (Set Cmp)
  | and => Dnf.all
  | or => Dnf.any

def AndOr.dnf₂ : AndOr → Set (Set Cmp) → Set (Set Cmp) → Set (Set Cmp)
  | and => Dnf.and
  | or => (· ∪ ·)

theorem AndOr.dnf_append (t : AndOr) (ds es : List (Set (Set Cmp))) :
    t.dnf (ds ++ es) = t.dnf₂ (t.dnf ds) (t.dnf es) := by
  cases t with
  | and => exact Dnf.all_append ds es
  | or => exact Dnf.any_append ds es

@[simp] theorem AndOr.dnf_singleton (t : AndOr) (d : Set (Set Cmp)) : t.dnf [d] = d := by
  cases t <;> simp [dnf]

theorem AndOr.dnf_cons (t : AndOr) (d : Set (Set Cmp)) (ds : List (Set (Set Cmp))) :
    t.dnf (d :: ds) = t.dnf₂ d (t.dnf ds) := by
  rw [← singleton_append, dnf_append, dnf_singleton]

def truth (b : Bool) : Set (Set Cmp) := if b then {∅} else ∅

mutual

/-- The paths of an expression, given which ports are resident on the chassis. -/
def Expr.paths (res : String → Bool) : Expr → Set (Set Cmp)
  | .cmp c => {{c}}
  | .andor t subs => t.dnf (pathsList res subs)
  | .boolean b => truth b
  | .condition not string => truth (res string ^^ not)

def pathsList (res : String → Bool) : List Expr → List (Set (Set Cmp))
  | [] => []
  | sub :: subs => sub.paths res :: pathsList res subs

end

section
variable {res : String → Bool}

theorem pathsList_eq (subs : List Expr) : pathsList res subs = subs.map (Expr.paths res) := by
  induction subs with
  | nil => rfl
  | cons sub subs ih => rw [pathsList, ih]; rfl

@[simp] theorem paths_andor (t : AndOr) (subs : List Expr) :
    (Expr.andor t subs).paths res = t.dnf (subs.map (Expr.paths res)) := by
  rw [Expr.paths, pathsList_eq]

@[simp] theorem paths_cmp (c : Cmp) : (Expr.cmp c).paths res = {{c}} := by rw [Expr.paths]

@[simp] theorem paths_boolean (b : Bool) : (Expr.boolean b).paths res = truth b := by
  rw [Expr.paths]

@[simp] theorem paths_condition (n : Bool) (s : String) :
    (Expr.condition n s).paths res = truth (res s ^^ n) := by
  rw [Expr.paths]

theorem dnf_insertAndor (t : AndOr) (e : Expr) :
    t.dnf ((insertAndor t e).map (Expr.paths res)) = e.paths res := by
  unfold insertAndor
  split
  · split_ifs with h
    · subst h; exact (paths_andor _ _).symm
    · simp
  · simp

theorem dnf_flatMap_insertAndor (t : AndOr) (subs : List Expr) :
    t.dnf ((subs.flatMap (insertAndor t)).map (Expr.paths res))
      = t.dnf (subs.map (Expr.paths res)) := by
  induction subs with
  | nil => rfl
  | cons sub subs ih =>
    rw [flatMap_cons, map_append, AndOr.dnf_append, dnf_insertAndor, ih, map_cons, AndOr.dnf_cons]

@[simp] theorem AndOr.dnf₂_neutral (t : AndOr) (d : Set (Set Cmp)) :
    t.dnf₂ (truth !t.shortCircuit) d = d := by
  cases t <;> simp [dnf₂, truth, shortCircuit]

theorem dnf_fixSubs {t : AndOr} {subs subs' : List Expr}
    (h : fixSubs t.shortCircuit subs = some subs') :
    t.dnf (subs'.map (Expr.paths res)) = t.dnf (subs.map (Expr.paths res)) := by
  induction subs generalizing subs' with
  | nil => cases h; rfl
  | cons sub subs ih =>
    rw [map_cons, AndOr.dnf_cons]
    cases sub with
    | boolean b =>
      simp only [fixSubs] at h
      split_ifs at h with hb
      have hb' : b = !t.shortCircuit := by exact Bool.eq_not_of_ne hb
      rw [ih h, paths_boolean, hb', AndOr.dnf₂_neutral]
    | cmp | andor | condition =>
      simp only [fixSubs, Option.map_eq_some_iff] at h
      obtain ⟨subs'', h, rfl⟩ := h
      rw [map_cons, AndOr.dnf_cons, ih h]

variable {ι κ : Type*} {sat : ι → Cmp → Prop} {key : Cmp → κ}

theorem refines_truth_of_fixSubs {t : AndOr} {subs : List Expr}
    (h : fixSubs t.shortCircuit subs = none) :
    Dnf.Refines sat key (truth t.shortCircuit) (t.dnf (subs.map (Expr.paths res))) := by
  have hmem : Expr.boolean t.shortCircuit ∈ subs := by
    induction subs with
    | nil => cases h
    | cons sub subs ih =>
      cases sub with
      | boolean b =>
        simp only [fixSubs] at h
        split_ifs at h with hb
        · rw [hb]; exact mem_cons_self
        · exact mem_cons_of_mem _ (ih h)
      | cmp | andor | condition => simp_all [fixSubs]
  have hpath : truth t.shortCircuit ∈ subs.map (Expr.paths res) :=
    mem_map.2 ⟨_, hmem, paths_boolean _⟩
  cases t with
  | and =>
    refine .empty fun i hi => ?_
    simpa [truth, AndOr.shortCircuit] using (Dnf.holds_all _).1 hi _ hpath
  | or =>
    refine ⟨fun π hπ => ⟨π, ⟨_, hpath, hπ⟩, .refl π⟩, fun _ _ => ?_⟩
    simp [truth, AndOr.shortCircuit]

theorem refines_exprFix (e : Expr) : Dnf.Refines sat key ((exprFix e).paths res) (e.paths res) := by
  cases e with
  | cmp | boolean | condition => exact .refl _
  | andor t subs =>
    simp only [exprFix, exprFixAndor, paths_andor]
    split
    · rename_i h; rw [paths_boolean]; exact refines_truth_of_fixSubs h
    next h =>
      refine .of_eq ?_
      rw [← dnf_fixSubs h]
      cases t <;> simp [truth, AndOr.shortCircuit, AndOr.dnf]
    next h =>
      refine .of_eq ?_
      rw [← dnf_fixSubs h, map_singleton, AndOr.dnf_singleton]
    next h =>
      refine .of_eq ?_
      rw [← dnf_fixSubs h, paths_andor]

theorem AndOr.refines_dnf (t : AndOr) {ds' ds : List (Set (Set Cmp))}
    (h : List.Forall₂ (Dnf.Refines sat key) ds' ds) :
    Dnf.Refines sat key (t.dnf ds') (t.dnf ds) := by
  cases t with
  | and => exact .all h
  | or => exact .any h

end

variable {e : Expr}

theorem mem_cmps_of_mem_paths {res : String → Bool} :
    ∀ {π : Set Cmp}, π ∈ e.paths res → ∀ c ∈ π, c ∈ e.cmps := by
  induction e with
  | cmp c => simp
  | boolean b => intro π hπ d hd; cases b <;> simp [truth] at hπ; simp [hπ] at hd
  | condition n s =>
    intro π hπ d hd
    rw [paths_condition] at hπ
    revert hπ
    cases (res s ^^ n) <;> intro hπ <;> simp [truth] at hπ
    simp [hπ] at hd
  | andor t subs ih =>
    intro π hπ d hd
    rw [paths_andor] at hπ
    obtain ⟨_, hmem, ρ, hρ, hdρ⟩ : ∃ p ∈ subs.map (Expr.paths res), ∃ ρ ∈ p, d ∈ ρ := by
      cases t with
      | and => exact Dnf.exists_of_mem_all hπ hd
      | or => obtain ⟨p, hp, hπp⟩ := hπ; exact ⟨p, hp, π, hπp, hd⟩
    obtain ⟨e, he, rfl⟩ := mem_map.1 hmem
    exact mem_cmps_andor.2 ⟨e, he, ih e he hρ d hdρ⟩

/-! ## Assignments -/

/-- A value for every symbol: the number of a numeric one, and which names the
    port of a string one goes by. -/
structure Assignment where
  num : ExprSymbol → MfSubvalue
  isName : ExprSymbol → String → Prop

def Cmp.Sat (σ : Assignment) (c : Cmp) : Prop :=
  if c.symbol.width ≠ 0 then
    exprRelopTest c.relop (compare (σ.num c.symbol &&& c.mask).toNat c.value.toNat) = true
  else σ.isName c.symbol c.string

def Assignment.ofFlow (f : Flow) (lookupPort : LookupPort) : Assignment where
  num s := f.get s.field
  isName s n := ∃ port, lookupPort n = some port ∧ (f.get s.field).toNat = port.toNat

/-- What parsing and annotation promise of a comparison: only equality on
    strings (a string symbol is nominal), which never come from an address set,
    and a mask inside of the field. -/
structure Cmp.Annotated (c : Cmp) : Prop where
  symbol : c.symbol.Wf
  string_eq : c.symbol.width = 0 → c.relop = .eq
  string_as : c.symbol.width = 0 → c.asName = none
  mask_lt : c.symbol.width ≠ 0 → ∀ i, c.mask.getLsbD i = true → i < c.symbol.width

/-- An annotated comparison whose value lies inside of its mask. -/
structure Cmp.Wf (c : Cmp) : Prop extends c.Annotated where
  within : c.symbol.width ≠ 0 → Bits.Within c.value c.mask

/-- An annotated expression: it honors the invariants, and its symbols come from
    one symbol table, which holds them by name. -/
structure Expr.Annotated (e : Expr) : Prop where
  honors : exprHonorsInvariants e = true
  cmps : ∀ c ∈ e.cmps, c.Annotated
  symtab : ∀ c ∈ e.cmps, ∀ d ∈ e.cmps, c.symbol.name = d.symbol.name → c.symbol = d.symbol

theorem lastBytes_eq {n w : ℕ} {v : MfSubvalue} (hw : w ≤ 8 * n)
    (hv : ∀ i, v.getLsbD i = true → i < w) : lastBytes n v = v.toNat := by
  refine Nat.mod_eq_of_lt (Nat.lt_pow_two_of_testBit _ fun i hi => ?_)
  by_contra h
  have := hv i (by simpa [BitVec.getLsbD] using h)
  omega

variable {f : Flow} {lookupPort : LookupPort}

theorem exprEvaluateCmp_iff (h : c.Wf) :
    exprEvaluateCmp f lookupPort c = true ↔ c.Sat (.ofFlow f lookupPort) := by
  unfold exprEvaluateCmp Cmp.Sat
  split_ifs with hw
  · have hn : c.symbol.width ≤ 8 * c.symbol.field.nBytes :=
      (h.symbol.width_eq hw).trans_le h.symbol.bits_le
    have hf : lastBytes c.symbol.field.nBytes (f.get c.symbol.field)
        = (f.get c.symbol.field).toNat := by
      refine Nat.mod_eq_of_lt ((f.get_lt _).trans_le (Nat.pow_le_pow_right (by omega) ?_))
      exact h.symbol.bits_le
    simp only
    rw [hf, lastBytes_eq hn (h.mask_lt hw),
      lastBytes_eq hn fun i hi => h.mask_lt hw i (h.within hw i hi)]
    simp [Assignment.ofFlow]
  · have heq : c.relop = .eq := h.string_eq (not_not.1 hw)
    cases hl : lookupPort c.string with
    | none => simp [Assignment.ofFlow, hl]
    | some port => simp [Assignment.ofFlow, hl, heq, exprRelopTest]

theorem exprEvaluateAndor_iff (t : AndOr) (subs : List Expr) :
    exprEvaluateAndor f lookupPort t.shortCircuit subs = true ↔ match t with
      | .and => ∀ e ∈ subs, exprEvaluate f lookupPort e = true
      | .or => ∃ e ∈ subs, exprEvaluate f lookupPort e = true := by
  induction subs with
  | nil => cases t <;> simp [exprEvaluateAndor, AndOr.shortCircuit]
  | cons sub subs ih =>
    cases t <;> cases hs : exprEvaluate f lookupPort sub <;>
      simp_all [exprEvaluateAndor, AndOr.shortCircuit]

/-- **The evaluator computes the paths.** -/
theorem exprEvaluate_iff (h : ∀ c ∈ e.cmps, c.Wf) : exprEvaluate f lookupPort e = true ↔
      Dnf.Holds (Cmp.Sat (.ofFlow f lookupPort)) (e.paths fun _ => true) := by
  induction e with
  | cmp c => rw [exprEvaluate, exprEvaluateCmp_iff (h c (by simp)), paths_cmp, Dnf.holds_atom]
  | boolean b => cases b <;> simp [exprEvaluate, truth]
  | condition n s => cases n <;> simp [exprEvaluate, truth]
  | andor t subs ih =>
    have ih' : ∀ e ∈ subs, (exprEvaluate f lookupPort e = true ↔
        Dnf.Holds (Cmp.Sat (.ofFlow f lookupPort)) (e.paths fun _ => true)) :=
      fun e he => ih e he fun c hc => h c (mem_cmps_andor.2 ⟨e, he, hc⟩)
    rw [exprEvaluate, exprEvaluateAndor_iff, paths_andor]
    cases t with
    | and =>
      simp only [AndOr.dnf, Dnf.holds_all, forall_mem_map]
      exact forall₂_congr ih'
    | or =>
      simp only [AndOr.dnf, Dnf.holds_any, mem_map, exists_exists_and_eq_and]
      exact exists_congr fun e => and_congr_right (ih' e)

/-! ## Tidy expressions -/

/-- Every AND or OR node has at least two operands, none of them a constant or
    of its own type. -/
inductive Expr.Tidy : Expr → Prop
  | cmp (c : Cmp) : Tidy (.cmp c)
  | boolean (b : Bool) : Tidy (.boolean b)
  | condition (n : Bool) (s : String) : Tidy (.condition n s)
  | andor {t : AndOr} {subs : List Expr} : 2 ≤ subs.length → (∀ e ∈ subs, e.Tidy) →
      (∀ e ∈ subs, e.isBoolean = false) → (∀ e ∈ subs, e.isAndor t = false) → Tidy (.andor t subs)

theorem mem_fixSubs {b : Bool} : ∀ {subs subs' : List Expr}, fixSubs b subs = some subs' →
    ∀ e ∈ subs', e ∈ subs ∧ e.isBoolean = false
  | [], _, h => by cases h; simp
  | sub :: subs, subs', h => by
    cases sub with
    | boolean b' =>
      simp only [fixSubs] at h
      split_ifs at h
      exact fun e he => ⟨mem_cons_of_mem _ (mem_fixSubs h e he).1, (mem_fixSubs h e he).2⟩
    | cmp | andor | condition =>
      simp only [fixSubs, Option.map_eq_some_iff] at h
      obtain ⟨subs'', h, rfl⟩ := h
      rintro e (_ | ⟨_, he⟩)
      · exact ⟨mem_cons_self, rfl⟩
      · exact ⟨mem_cons_of_mem _ (mem_fixSubs h e he).1, (mem_fixSubs h e he).2⟩

theorem cmps_exprFix_subset (e : Expr) : (exprFix e).cmps ⊆ e.cmps := by
  cases e with
  | cmp | boolean | condition => exact fun _ h => h
  | andor t subs =>
    intro c hc
    rw [mem_cmps_andor]
    simp only [exprFix, exprFixAndor] at hc
    split at hc
    · simp at hc
    · simp at hc
    next h => exact ⟨_, (mem_fixSubs h _ mem_cons_self).1, hc⟩
    next h =>
      obtain ⟨e, he, hce⟩ := mem_cmps_andor.1 hc
      exact ⟨e, (mem_fixSubs h e he).1, hce⟩

theorem mem_insertAndor_cmps {e' : Expr} (h : e' ∈ insertAndor t e) : e'.cmps ⊆ e.cmps := by
  unfold insertAndor at h
  split at h
  · split_ifs at h
    · exact fun c hc => mem_cmps_andor.2 ⟨e', h, hc⟩
    · rw [mem_singleton.1 h]; exact fun _ h => h
  · rw [mem_singleton.1 h]; exact fun _ h => h

theorem Expr.Tidy.insertAndor {e' : Expr} (he : e.Tidy) (h : e' ∈ insertAndor t e) :
    e'.Tidy ∧ e'.isAndor t = false := by
  unfold Ovn.insertAndor at h
  cases he with
  | cmp | boolean | condition => rw [mem_singleton.1 h]; exact ⟨by constructor, rfl⟩
  | @andor t' subs hlen htidy hbool hty =>
    simp only at h
    split_ifs at h with ht
    · subst ht; exact ⟨htidy e' h, hty e' h⟩
    · rw [mem_singleton.1 h]
      exact ⟨.andor hlen htidy hbool hty, by simpa [isAndor] using ht⟩

theorem tidy_exprFix (h : ∀ e ∈ subs, e.Tidy ∧ e.isAndor t = false) :
    (exprFix (.andor t subs)).Tidy := by
  simp only [exprFix, exprFixAndor]
  split
  · exact .boolean _
  · exact .boolean _
  · rename_i hf; exact (h _ (mem_fixSubs hf _ mem_cons_self).1).1
  next subs' hnil hone hf =>
    refine .andor ?_ (fun e he => (h e (mem_fixSubs hf e he).1).1)
      (fun e he => (mem_fixSubs hf e he).2) fun e he => (h e (mem_fixSubs hf e he).1).2
    match subs', hnil, hone with
    | [e], _, hone => exact absurd rfl (hone e)
    | _ :: _ :: _, _, _ => simp

theorem Expr.Tidy.exprFix (h : e.Tidy) : (exprFix e).Tidy := by
  cases h with
  | cmp | boolean | condition => constructor
  | andor _ htidy _ hty => exact tidy_exprFix fun e he => ⟨htidy e he, hty e he⟩

/-! ## Rebuilding a node

The passes rewrite the operands of a node one by one, splice them back in, and
fix up the result. -/

section
variable {t : AndOr} {subs rs : List Expr}

theorem tidy_rebuild (h : ∀ r ∈ rs, r.Tidy) :
    (exprFix (.andor t (rs.flatMap (insertAndor t)))).Tidy := by
  refine tidy_exprFix fun e he => ?_
  obtain ⟨r, hr, he⟩ := mem_flatMap.1 he
  exact (h r hr).insertAndor he

theorem mem_cmps_rebuild {c : Cmp}
    (hc : c ∈ (exprFix (.andor t (rs.flatMap (insertAndor t)))).cmps) : ∃ r ∈ rs, c ∈ r.cmps := by
  obtain ⟨e, he, hc⟩ := mem_cmps_andor.1 (cmps_exprFix_subset _ hc)
  obtain ⟨r, hr, he⟩ := mem_flatMap.1 he
  exact ⟨r, hr, mem_insertAndor_cmps he hc⟩

theorem refines_rebuild {ι κ : Type*} {sat : ι → Cmp → Prop} {key : Cmp → κ}
    {res res' : String → Bool}
    (h : List.Forall₂ (fun e r => Dnf.Refines sat key (r.paths res') (e.paths res)) subs rs) :
    Dnf.Refines sat key ((exprFix (.andor t (rs.flatMap (insertAndor t)))).paths res')
      ((Expr.andor t subs).paths res) := by
  refine (refines_exprFix _).trans ?_
  rw [paths_andor, dnf_flatMap_insertAndor, paths_andor]
  refine t.refines_dnf ?_
  rw [forall₂_map_left_iff, forall₂_map_right_iff]
  exact h.flip

end

/-! ## Tidy expressions honor the invariants -/

theorem honorsInvariantsSubs_iff : honorsInvariantsSubs t subs = true ↔
      ∀ e ∈ subs, e.isAndor t = false ∧ exprHonorsInvariants e = true := by
  induction subs with
  | nil => simp [honorsInvariantsSubs]
  | cons sub subs ih => simp [honorsInvariantsSubs, ih]

theorem exprHonorsInvariants_andor : exprHonorsInvariants (.andor t subs) = true ↔
      2 ≤ subs.length ∧ ∀ e ∈ subs, e.isAndor t = false ∧ exprHonorsInvariants e = true := by
  rw [exprHonorsInvariants]
  split_ifs with h
  · simp only [false_iff]; omega
  · rw [honorsInvariantsSubs_iff]
    exact ⟨fun h' => ⟨by omega, h'⟩, fun h' => h'.2⟩

theorem Cmp.within_of_honors (h : exprHonorsInvariants (.cmp c) = true) (hw : c.symbol.width ≠ 0) :
    Bits.Within c.value c.mask := by
  rw [exprHonorsInvariants, if_pos hw, beq_iff_eq] at h
  exact Bits.and_not_eq_zero_iff.1 h

theorem within_of_honors (h : exprHonorsInvariants e = true) :
    ∀ c ∈ e.cmps, c.symbol.width ≠ 0 → Bits.Within c.value c.mask := by
  induction e with
  | cmp c => simpa using c.within_of_honors h
  | boolean | condition => simp
  | andor t subs ih =>
    intro c hc
    obtain ⟨e, he, hc⟩ := mem_cmps_andor.1 hc
    exact ih e he ((exprHonorsInvariants_andor.1 h).2 e he).2 c hc

theorem Expr.Tidy.honors (he : e.Tidy)
    (h : ∀ c ∈ e.cmps, c.symbol.width ≠ 0 → Bits.Within c.value c.mask) :
    exprHonorsInvariants e = true := by
  induction he with
  | cmp c =>
    rw [exprHonorsInvariants]
    split_ifs with hw
    · rw [beq_iff_eq]; exact Bits.and_not_eq_zero_iff.2 (h c (by simp) hw)
    · rfl
  | boolean | condition => rw [exprHonorsInvariants]
  | andor hlen _ _ hty ih =>
    rw [exprHonorsInvariants_andor]
    exact ⟨hlen, fun e he => ⟨hty e he, ih e he fun c hc => h c (mem_cmps_andor.2 ⟨e, he, hc⟩)⟩⟩

end Ovn

/-
  Normalization: `expr_normalize_and`, `expr_normalize_or` and `expr_normalize`
  (`lib/expr.c`).

  After sorting an AND, the first disjunction that is not on one symbol, or is
  on one that must be multiplied out, is distributed over the other clauses, and
  every conjunction that results is normalized in turn.  Sorting does not increase
  the weight of a conjunction and distributing decreases it, so normalization ends,
  in normal form, without running into an assertion.
-/
import Ovn.Expr.Sort

namespace Ovn

open List

/-! ## The code -/

/-- What the first loop of `expr_normalize_and` does to two neighbors: nothing,
    drop the first one and change the second one, or find a contradiction. -/
def mergeCmps : Expr → Expr → Option (Option Expr)
  | .cmp a, .cmp b =>
    if a.symbol ≠ b.symbol then none
    else if a.symbol.width ≠ 0 then
      some ((mfSubvalueIntersect a.value a.mask b.value b.mask).map fun (value, mask) =>
        .cmp { b with value := value, mask := mask })
    else some (if a.string = b.string then some (.cmp b) else none)
  | _, _ => none

/-- The first loop of `expr_normalize_and`; `none` if there is a contradiction. -/
def mergeNeighbors (a : Expr) : List Expr → Option (List Expr)
  | [] => some [a]
  | b :: subs =>
    match mergeCmps a b with
    | none => (mergeNeighbors b subs).map (a :: ·)
    | some none => none
    | some (some b) => mergeNeighbors b subs

/-- The search for the first operand that has to be distributed: the operands
    before it, its own operands, and the operands after it. -/
def findDistributed : List Expr → Except Abort (Option (List Expr × List Expr × List Expr))
  | [] => .ok none
  | sub :: subs =>
    let next := (findDistributed subs).map fun r =>
      r.map fun (before, ks, after) => (sub :: before, ks, after)
    match sub with
    | .cmp _ => next
    | .condition _ _ => next
    | .andor .or ks =>
      match exprGetUniqueSymbol sub with
      | none => .ok (some ([], ks, subs))
      | some symbol => if symbol.mustCrossproduct then .ok (some ([], ks, subs)) else next
    | _ => .error .assertion

/-- `expr_normalize_and`, on the operands of the AND. -/
def normalizeAnd (crush : ExprSymbol → Expr → Except Abort Expr)
    (normalizeOr : List Expr → Except Abort Expr) (subs : List Expr) : Except Abort Expr := do
  match ← exprSort crush subs with
  | .andor .and (a :: subs) =>
    match mergeNeighbors a subs with
    | none => return .boolean false
    | some [sub] => return sub
    | some subs =>
      match ← findDistributed subs with
      | none => return .andor .and subs
      | some (before, ks, after) =>
        normalizeOr
          (ks.map fun k => .andor .and ((before ++ k :: after).flatMap (insertAndor .and)))
  | e => return e

/-- The loop of `expr_normalize_or`; `none` if an operand is true. -/
def normalizeOrSubs (normalizeAnd : List Expr → Except Abort Expr) :
    List Expr → Except Abort (Option (List Expr))
  | [] => .ok (some [])
  | sub :: subs =>
    match sub with
    | .andor .and es => do
      match ← normalizeAnd es with
      | .boolean true => return none
      | .boolean false => normalizeOrSubs normalizeAnd subs
      | new => return (← normalizeOrSubs normalizeAnd subs).map (insertAndor .or new ++ ·)
    | .cmp _ => do return (← normalizeOrSubs normalizeAnd subs).map (sub :: ·)
    | .condition _ _ => do return (← normalizeOrSubs normalizeAnd subs).map (sub :: ·)
    | _ => .error .assertion

/-- `expr_normalize_or`, on the operands of the OR. -/
def normalizeOr (normalizeAnd : List Expr → Except Abort Expr) (subs : List Expr) :
    Except Abort Expr := do
  match ← normalizeOrSubs normalizeAnd subs with
  | none => return .boolean true
  | some [] => return .boolean false
  | some [e] => return e
  | some subs => return .andor .or subs

def exprNormalizeAnd : ℕ → List Expr → Except Abort Expr
  | 0, _ => .error .fuel
  | fuel + 1, subs => normalizeAnd (crushCmps fuel) (normalizeOr (exprNormalizeAnd fuel)) subs

def exprNormalizeOr (fuel : ℕ) (subs : List Expr) : Except Abort Expr :=
  normalizeOr (exprNormalizeAnd fuel) subs

def exprNormalize (fuel : ℕ) : Expr → Except Abort Expr
  | .cmp c => .ok (.cmp c)
  | .andor .and subs => exprNormalizeAnd fuel subs
  | .andor .or subs => exprNormalizeOr fuel subs
  | .boolean b => .ok (.boolean b)
  | .condition _ _ => .error .notReached

/-! ## The normal form -/

/-- Symbols, and comparisons on them. -/
abbrev ClauseList := List (ExprSymbol × List Cmp)

/-- The comparisons of a clause: one or more, on one symbol, and only one if the
    symbol must be multiplied out. -/
structure Clause (s : ExprSymbol) (cs : List Cmp) : Prop where
  ne : cs ≠ []
  on : ∀ c ∈ cs, c.On s
  cross : 2 ≤ cs.length → s.mustCrossproduct = false

/-- A comparison, or a conjunction of clauses on pairwise different symbols. -/
inductive Expr.Term : Expr → Prop
  | cmp {c : Cmp} : c.Simple → Term (.cmp c)
  | and {rs : ClauseList} : 2 ≤ rs.length → (rs.map Prod.fst).Nodup →
      (∀ r ∈ rs, Clause r.1 r.2) → Term (.andor .and (rs.map fun r => orCmps r.2))

def orTerms : List Expr → Expr
  | [] => .boolean false
  | [t] => t
  | ts => .andor .or ts

/-- A constant or a disjunction of terms. -/
inductive Expr.Normal : Expr → Prop
  | boolean (b : Bool) : Normal (.boolean b)
  | orTerms {ts : List Expr} : (∀ t ∈ ts, t.Term) → Normal (orTerms ts)

variable {t : Expr}

theorem Expr.Term.not_or (h : t.Term) : t.isAndor .or = false := by
  cases h <;> rfl

theorem Expr.Term.not_boolean (h : t.Term) : t.isBoolean = false := by
  cases h <;> rfl

theorem orCmps_not_boolean {cs : List Cmp} (h : cs ≠ []) : (orCmps cs).isBoolean = false := by
  match cs, h with
  | [_], _ | _ :: _ :: _, _ => rfl

theorem Expr.Term.simple (h : t.Term) : ∀ c ∈ t.cmps, c.Simple := by
  intro c hc
  cases h with
  | cmp h => rw [cmps_cmp, mem_singleton] at hc; exact hc ▸ h
  | and _ _ hrs =>
    obtain ⟨e, he, hc⟩ := mem_cmps_andor.1 hc
    obtain ⟨r, hr, rfl⟩ := mem_map.1 he
    rw [cmps_orCmps] at hc
    exact ((hrs r hr).on c hc).toSimple

theorem Expr.Term.tidy (h : t.Term) : t.Tidy := by
  cases h with
  | cmp => exact .cmp _
  | and hlen _ hrs =>
    refine .andor (by simpa using hlen) ?_ ?_ ?_ <;> rw [forall_mem_map]
    · exact fun r _ => tidy_orCmps _
    · exact fun r hr => orCmps_not_boolean (hrs r hr).ne
    · exact fun r _ => orCmps_not_and _

theorem paths_orTerms (res : String → Bool) (ts : List Expr) :
    (orTerms ts).paths res = Dnf.any (ts.map (Expr.paths res)) := by
  match ts with
  | [] => simp [orTerms, truth]
  | [t] => simp [orTerms]
  | _ :: _ :: _ => exact paths_andor _ _

theorem cmps_orTerms (ts : List Expr) : ∀ c ∈ (orTerms ts).cmps, ∃ t ∈ ts, c ∈ t.cmps := by
  intro c hc
  match ts with
  | [t] => exact ⟨t, mem_cons_self, hc⟩
  | _ :: _ :: _ => exact mem_cmps_andor.1 hc

theorem tidy_orTerms {ts : List Expr} (h : ∀ t ∈ ts, t.Term) : (orTerms ts).Tidy := by
  match ts, h with
  | [], _ => exact .boolean _
  | [t], h => exact (h t mem_cons_self).tidy
  | _ :: _ :: _, h =>
    exact .andor (by simp) (fun t ht => (h t ht).tidy) (fun t ht => (h t ht).not_boolean)
      (fun t ht => (h t ht).not_or)

variable {e : Expr}

theorem Expr.Normal.tidy (h : e.Normal) : e.Tidy := by
  cases h with
  | boolean b => exact .boolean b
  | orTerms h => exact tidy_orTerms h

theorem Expr.Normal.simple (h : e.Normal) : ∀ c ∈ e.cmps, c.Simple := by
  intro c hc
  cases h with
  | boolean b => simp at hc
  | orTerms h =>
    obtain ⟨t, ht, hc⟩ := cmps_orTerms _ c hc
    exact (h t ht).simple c hc

theorem orTerms_map_cmp (cs : List Cmp) : orTerms (cs.map .cmp) = orCmps cs := by
  match cs with
  | [] | [_] | _ :: _ :: _ => rfl

/-! ## The loops -/

theorem normalizeOr_spec {normalizeAnd : List Expr → Except Abort Expr} {subs : List Expr}
    {tss : List (List Expr)} (h : List.Forall₂ (fun sub ts => (∃ c, sub = .cmp c ∧ ts = [.cmp c]) ∨
      ∃ es, sub = .andor .and es ∧ normalizeAnd es = .ok (orTerms ts) ∧ ∀ t ∈ ts, t.Term)
      subs tss) : normalizeOr normalizeAnd subs = .ok (orTerms tss.flatten) := by
  have hsubs : normalizeOrSubs normalizeAnd subs = .ok (some tss.flatten) := by
    induction h with
    | nil => rfl
    | @cons sub ts subs tss hsub _ ih =>
      rcases hsub with ⟨c, rfl, rfl⟩ | ⟨es, rfl, hes, hts⟩
      · rw [normalizeOrSubs, ih]; rfl
      rw [normalizeOrSubs, hes]
      rcases ts with _ | ⟨t, _ | _⟩
      · exact ih
      · have ht := hts t mem_cons_self
        cases ht <;> simp [orTerms, bind, Except.bind, pure, Except.pure, ih, insertAndor]
      · simp [orTerms, bind, Except.bind, pure, Except.pure, ih, insertAndor]
  rw [normalizeOr, hsubs]
  rcases tss.flatten with _ | ⟨_, _ | _⟩ <;> rfl

section
variable {S : ExprSymbol → Prop}
variable {e : Expr}

theorem Item.symbol_cmp {t : Option ExprSymbol} {c : Cmp} (h : Item S t e) (he : e = .cmp c) :
    t = some c.symbol := by
  cases h with
  | other => cases he
  | @group s cs _ _ hon =>
    have hc : c ∈ cs := by rw [← cmps_orCmps cs, he]; simp
    rw [(hon c hc).symbol_eq]

theorem resolved_orCmps (cs : List Cmp) : (orCmps cs).Resolved := by
  match cs with
  | [] => exact .boolean _
  | [c] => exact .cmp c
  | _ :: _ :: _ =>
    refine .andor ?_
    rw [forall_mem_map]
    exact fun c _ => .cmp c

theorem Item.operand {t : Option ExprSymbol} (h : Item S t e) : Operand S e := by
  cases h with
  | other h _ => exact h
  | group hs hne hon =>
    refine ⟨⟨tidy_orCmps _, resolved_orCmps _, ?_, ?_⟩, orCmps_not_and _, orCmps_not_boolean
      hne⟩ <;>
      rw [cmps_orCmps]
    · exact fun c hc => (hon c hc).toSimple
    · intro c hc; rw [(hon c hc).symbol_eq]; exact hs

/-- No two clauses of the sorted conjunction are on the same symbol, so there is
    nothing to merge. -/
theorem mergeNeighbors_items :
    ∀ {r : Option ExprSymbol × Expr} {rs : ItemList}, (∀ q ∈ r :: rs, Item S q.1 q.2) →
      ((r :: rs).filterMap Prod.fst).Nodup →
      mergeNeighbors r.2 (rs.map Prod.snd) = some ((r :: rs).map Prod.snd)
  | _, [], _, _ => rfl
  | r, q :: rs, hitem, hnodup => by
    have hr := hitem r mem_cons_self
    have hq := hitem q (by simp)
    have hnone : mergeCmps r.2 q.2 = none := by
      unfold mergeCmps
      split
      · next a b ha hb =>
        have hab : a.symbol ≠ b.symbol := by
          intro heq
          rw [filterMap_cons, hr.symbol_cmp ha, filterMap_cons, hq.symbol_cmp hb, heq] at hnodup
          exact (nodup_cons.1 hnodup).1 mem_cons_self
        rw [if_pos hab]
      · rfl
    have ih := mergeNeighbors_items (forall_mem_cons.1 hitem).2
      (hnodup.sublist (List.Sublist.filterMap _ (sublist_cons_self _ _)))
    rw [map_cons, mergeNeighbors, hnone]
    simp only [ih, Option.map_some, map_cons]

/-- What the search for a disjunction finds: nothing, if all operands are clauses
    of a term, or the disjunction. -/
def Searched (rs : ItemList) : Prop :=
  (findDistributed (rs.map Prod.snd) = .ok none ∧ ∃ qs : ClauseList,
    rs = qs.map (fun q => (some q.1, orCmps q.2)) ∧ ∀ q ∈ qs, Clause q.1 q.2) ∨
  ∃ before ks after, findDistributed (rs.map Prod.snd) = .ok (some (before, ks, after)) ∧
    rs.map Prod.snd = before ++ .andor .or ks :: after

theorem Searched.cons {s : ExprSymbol} {cs : List Cmp} {rs : ItemList}
    (h : Searched rs) (hcl : Clause s cs) (hstep : findDistributed (orCmps cs :: rs.map Prod.snd)
      = (findDistributed (rs.map Prod.snd)).map
          fun r => r.map fun (before, ks, after) => (orCmps cs :: before, ks, after)) :
    Searched ((some s, orCmps cs) :: rs) := by
  rcases h with ⟨hnone, qs, hqs, hclause⟩ | ⟨before, ks, after, hsome, heq⟩
  · refine .inl ⟨by rw [map_cons, hstep, hnone]; rfl, (s, cs) :: qs, by rw [hqs]; rfl, ?_⟩
    exact forall_mem_cons.2 ⟨hcl, hclause⟩
  · exact .inr ⟨orCmps cs :: before, ks, after, by rw [map_cons, hstep, hsome]; rfl,
      by rw [map_cons, heq]; rfl⟩

theorem findDistributed_spec : ∀ {rs : ItemList}, (∀ r ∈ rs, Item S r.1 r.2) → Searched rs
  | [], _ => .inl ⟨rfl, [], rfl, by simp⟩
  | (t, e) :: rs, h => by
    have ih := findDistributed_spec (forall_mem_cons.1 h).2
    cases h _ mem_cons_self with
    | @other ks _ hu =>
      exact .inr ⟨[], ks, _, by rw [map_cons, findDistributed]; simp only [hu], rfl⟩
    | @group s cs _ hne hon =>
      have hu := uniqueSymbol_orCmps hne fun c hc => (hon c hc).symbol_eq
      match cs, hne, hon, hu with
      | [c], hne, hon, _ => exact ih.cons ⟨hne, hon, by simp⟩ (by rw [orCmps, findDistributed])
      | c :: c' :: cs, hne, hon, hu =>
        have hor : orCmps (c :: c' :: cs) = .andor .or ((c :: c' :: cs).map .cmp) := rfl
        rw [hor] at hu
        by_cases hm : s.mustCrossproduct = true
        · refine .inr ⟨[], (c :: c' :: cs).map .cmp, rs.map Prod.snd, ?_, rfl⟩
          show findDistributed (.andor .or ((c :: c' :: cs).map .cmp) :: rs.map Prod.snd) = _
          rw [findDistributed]; simp only [hu, hm, if_true]
        · refine ih.cons ⟨hne, hon, fun _ => by simpa using hm⟩ ?_
          rw [hor, findDistributed]; simp only [hu, hm]; rfl

/-! ## Normalizing a conjunction -/

theorem weight_le_maxWeight {subs : List Expr} (he : e ∈ subs) : e.weight ≤ maxWeight subs := by
  induction subs with
  | nil => cases he
  | cons sub subs ih =>
    rcases mem_cons.1 he with rfl | he
    · exact le_max_left _ _
    · exact (ih he).trans (le_max_right _ _)

theorem sumWeight_insertAndor (e : Expr) : sumWeight (insertAndor .and e) = e.weight := by
  unfold insertAndor
  split
  · split_ifs with h
    · subst h; rw [Expr.weight]
    · simp [sumWeight]
  · simp [sumWeight]

theorem sumWeight_flatMap_insertAndor (es : List Expr) :
    sumWeight (es.flatMap (insertAndor .and)) = sumWeight es := by
  induction es with
  | nil => rfl
  | cons e es ih => rw [flatMap_cons, sumWeight_append, sumWeight_insertAndor, ih, sumWeight]

/-- `ts` are terms that together refine `e`. -/
structure Normalized (S : ExprSymbol → Prop) (e : Expr) (ts : List Expr) : Prop where
  terms : ∀ t ∈ ts, t.Term
  symbols : ∀ t ∈ ts, ∀ c ∈ t.cmps, S c.symbol
  refines : ∀ res, PathRefines (Dnf.any (ts.map (Expr.paths res))) (e.paths res)

/-- `expr_normalize_and` returns the disjunction of `ts`, given enough fuel. -/
def NormalizesAnd (subs ts : List Expr) : Prop :=
  ∃ N, ∀ n ≥ N, exprNormalizeAnd n subs = .ok (orTerms ts)

theorem distribute_operands {before ks after : List Expr}
    (h : ∀ e ∈ before ++ .andor .or ks :: after, Operand S e)
    (hlen : 2 ≤ (before ++ .andor .or ks :: after).length) {k : Expr} (hk : k ∈ ks) :
    let es := (before ++ k :: after).flatMap (insertAndor .and)
    (∀ e ∈ es, Operand S e) ∧ 2 ≤ es.length ∧
      sumWeight es < sumWeight (before ++ .andor .or ks :: after) := by
  have hor : Operand S (.andor .or ks) := h _ (by simp)
  obtain ⟨hne, hop⟩ := hor.splice hk
  have hself : ∀ es : List Expr, (∀ e ∈ es, Operand S e) → es.flatMap (insertAndor .and) = es := by
    intro es hes
    induction es with
    | nil => rfl
    | cons e es ih =>
      rw [flatMap_cons, insertAndor_of_not (hes e mem_cons_self).not_and,
        ih (forall_mem_cons.1 hes).2]
      rfl
  have hb : ∀ e ∈ before, Operand S e := fun e he => h e (by simp [he])
  have ha : ∀ e ∈ after, Operand S e := fun e he => h e (by simp [he])
  have heq : (before ++ k :: after).flatMap (insertAndor .and)
      = before ++ (insertAndor .and k ++ after) := by
    rw [flatMap_append, flatMap_cons, hself before hb, hself after ha]
  refine ⟨?_, ?_, ?_⟩
  · rw [heq]
    simp only [mem_append]
    rintro e (he | he | he)
    · exact hb e he
    · exact hop e he
    · exact ha e he
  · have := length_pos_iff.2 hne
    simp only [heq, length_append, length_cons] at hlen ⊢
    omega
  · rw [sumWeight_flatMap_insertAndor, sumWeight_append, sumWeight_append, sumWeight, sumWeight,
      Expr.weight]
    have := weight_le_maxWeight hk
    omega

theorem paths_distribute (res : String → Bool) (before ks after : List Expr) :
    Dnf.any ((ks.map fun k =>
      Expr.andor .and ((before ++ k :: after).flatMap (insertAndor .and))).map (Expr.paths res))
      = Dnf.all ((before ++ .andor .or ks :: after).map (Expr.paths res)) := by
  have hk : ∀ k : Expr, (Expr.andor .and ((before ++ k :: after).flatMap (insertAndor .and))).paths
      res = Dnf.and (k.paths res) (Dnf.all ((before ++ after).map (Expr.paths res))) := by
    intro k
    rw [paths_andor, dnf_flatMap_insertAndor]
    show Dnf.all _ = _
    rw [Dnf.all_perm (perm_middle.map _), map_cons, Dnf.all_cons]
  have hmap : (ks.map fun k =>
      Expr.andor .and ((before ++ k :: after).flatMap (insertAndor .and))).map (Expr.paths res)
      = (ks.map (Expr.paths res)).map
          fun d => Dnf.and d (Dnf.all ((before ++ after).map (Expr.paths res))) := by simp_all
  rw [hmap, Dnf.any_map_and, Dnf.all_perm (perm_middle.map _), map_cons, paths_andor]
  rfl

/-- An operand of an OR that can be normalized: a comparison, or a conjunction on
    which `expr_normalize_and` returns. -/
def Normalizable (S : ExprSymbol → Prop) (sub : Expr) : Prop :=
  (∃ c, sub = .cmp c ∧ c.Simple ∧ S c.symbol) ∨
    ∃ es ts, sub = .andor .and es ∧ NormalizesAnd es ts ∧ Normalized S sub ts

theorem Normalizable.normalized {sub : Expr} (h : Normalizable S sub) :
    ∃ ts, Normalized S sub ts ∧ ∃ N, ∀ n ≥ N, (∃ c, sub = .cmp c ∧ ts = [.cmp c]) ∨
      ∃ es, sub = .andor .and es ∧ exprNormalizeAnd n es = .ok (orTerms ts) ∧ ∀ t ∈ ts, t.Term := by
  rcases h with ⟨c, rfl, hc, hS⟩ | ⟨es, ts, rfl, ⟨N, hN⟩, hts⟩
  · refine ⟨[.cmp c], ⟨by simpa using .cmp hc, by simpa using hS, fun res => .of_eq ?_⟩, 0,
      fun n _ => .inl ⟨c, rfl, rfl⟩⟩
    simp
  · exact ⟨ts, hts, N, fun n hn => .inr ⟨es, rfl, hN n hn, hts.terms⟩⟩

theorem exprNormalizeOr_spec {subs : List Expr} (h : ∀ sub ∈ subs, Normalizable S sub) :
    ∃ ts, (∃ N, ∀ n ≥ N, exprNormalizeOr n subs = .ok (orTerms ts)) ∧
      Normalized S (.andor .or subs) ts := by
  obtain ⟨tss, htss⟩ := exists_forall₂ fun sub hsub => (h sub hsub).normalized
  obtain ⟨N, hN⟩ := eventually_forall₂ (htss.imp fun _ _ h => h.2)
  have hmem : ∀ t ∈ tss.flatten, ∃ ts ∈ tss, ∃ sub ∈ subs, t ∈ ts ∧ Normalized S sub ts := by
    intro t ht
    obtain ⟨ts, hts, ht⟩ := mem_flatten.1 ht
    obtain ⟨sub, hsub, hn, -⟩ := forall₂_mem_right htss ts hts
    exact ⟨ts, hts, sub, hsub, ht, hn⟩
  refine ⟨tss.flatten, ⟨N, fun n hn => normalizeOr_spec (hN n hn)⟩, ?_, ?_, fun res => ?_⟩
  · intro t ht
    obtain ⟨ts, -, sub, -, ht, hn⟩ := hmem t ht
    exact hn.terms t ht
  · intro t ht
    obtain ⟨ts, -, sub, -, ht, hn⟩ := hmem t ht
    exact hn.symbols t ht
  · have hflat : Dnf.any (tss.flatten.map (Expr.paths res))
        = Dnf.any (tss.map fun ts => Dnf.any (ts.map (Expr.paths res))) := by
      clear htss hN hmem
      induction tss with
      | nil => rfl
      | cons ts tss ih => rw [flatten_cons, map_append, Dnf.any_append, ih, map_cons, Dnf.any_cons]
    rw [hflat, paths_andor]
    refine .any ?_
    rw [forall₂_map_left_iff, forall₂_map_right_iff]
    exact (htss.imp fun _ _ h => h.1.refines res).flip

/-- **Normalizing a conjunction.**  Sorting does not make it heavier and every
    distribution makes it lighter. -/
theorem exprNormalizeAnd_spec (hS : ∀ s t, S s → S t → s.name = t.name → s = t) (w : ℕ) :
    ∀ {subs : List Expr}, sumWeight subs ≤ w → (∀ e ∈ subs, Operand S e) → 2 ≤ subs.length →
      ∃ ts, NormalizesAnd subs ts ∧ Normalized S (.andor .and subs) ts := by
  induction w using Nat.strong_induction_on with
  | _ w ih =>
    intro subs hw hsubs hlen
    have hrun : ∀ n, exprNormalizeAnd (n + 1) subs
        = normalizeAnd (crushCmps n) (exprNormalizeOr n) subs := fun n => rfl
    rcases exprSort_spec hS hsubs hlen with
      ⟨⟨N, hN⟩, hfalse⟩ | ⟨rs, hne, hsingle, ⟨N, hN⟩, hitem, hnodup, hweight, href⟩
    · -- a contradiction
      refine ⟨[], eventually_succ ⟨N, fun n hn => ?_⟩, by simp, by simp, fun res => ?_⟩
      · rw [hrun, normalizeAnd, hN n hn]; rfl
      · rw [map_nil, Dnf.any_nil]; exact .empty (hfalse res)
    match rs, hne, hsingle, hN, hitem, hnodup, hweight, href with
    | [(t, e)], _, hsingle, hN, hitem, _, _, href =>
      -- all operands are on one symbol
      obtain ⟨s, cs, rfl, hs, hon⟩ : ∃ s cs, e = orCmps cs ∧ S s ∧ ∀ c ∈ cs, c.On s := by
        cases hitem _ mem_cons_self with
        | group hs _ hon => exact ⟨_, _, rfl, hs, hon⟩
        | other => exact absurd rfl (hsingle _)
      refine ⟨cs.map .cmp, eventually_succ ⟨N, fun n hn => ?_⟩, ?_, ?_, fun res => ?_⟩
      · rw [hrun, normalizeAnd, hN n hn]
        match cs with
        | [] | [_] | _ :: _ :: _ => rfl
      · rw [forall_mem_map]; exact fun c hc => .cmp (hon c hc).toSimple
      · simp only [forall_mem_map, cmps_cmp, mem_singleton, forall_eq]
        intro c hc; rw [(hon c hc).symbol_eq]; exact hs
      · rw [← paths_orTerms, orTerms_map_cmp]
        simpa using href res
    | r :: r' :: rs, _, _, hN, hitem, hnodup, hweight, href =>
      have hsort : ∀ n ≥ N, exprNormalizeAnd (n + 1) subs = (do
          match ← findDistributed ((r :: r' :: rs).map Prod.snd) with
          | none => return .andor .and ((r :: r' :: rs).map Prod.snd)
          | some (before, ks, after) => exprNormalizeOr n (ks.map fun k =>
              .andor .and ((before ++ k :: after).flatMap (insertAndor .and)))) := by
        intro n hn
        rw [hrun, normalizeAnd, hN n hn]
        show (match mergeNeighbors r.2 ((r' :: rs).map Prod.snd) with
          | none => _ | some [sub] => _ | some subs => _) = _
        rw [mergeNeighbors_items hitem hnodup]
        rfl
      rcases findDistributed_spec hitem with ⟨hnone, qs, hqs, hcl⟩ | ⟨before, ks, after, hsome, heq⟩
      · -- the conjunction is a term
        have hsnd : (r :: r' :: rs).map Prod.snd = qs.map fun q => orCmps q.2 := by
          rw [hqs, map_map]; rfl
        refine ⟨[.andor .and ((r :: r' :: rs).map Prod.snd)], eventually_succ ⟨N, fun n hn => ?_⟩,
          ?_, ?_,
          fun res => ?_⟩
        · rw [hsort n hn, hnone]; rfl
        · rw [forall_mem_singleton, hsnd]
          refine .and ?_ ?_ hcl
          · rw [← length_map (fun q : ExprSymbol × List Cmp => (some q.1, orCmps q.2)), ← hqs]
            simp
          · simp_all
        · rw [forall_mem_singleton]
          intro c hc
          obtain ⟨e, he, hc⟩ := mem_cmps_andor.1 hc
          obtain ⟨q, hq, rfl⟩ := mem_map.1 he
          exact (hitem q hq).operand.symbols c hc
        · rw [map_singleton, Dnf.any_cons, Dnf.any_nil, Set.union_empty, paths_andor, map_map]
          exact href res
      · -- distribute, and normalize what results
        have hop : ∀ e ∈ before ++ .andor .or ks :: after, Operand S e := by
          rw [← heq]
          intro e he
          obtain ⟨q, hq, rfl⟩ := mem_map.1 he
          exact (hitem q hq).operand
        have hlen' : 2 ≤ (before ++ .andor .or ks :: after).length := by rw [← heq]; simp
        rw [heq] at hweight
        have hnorm : ∀ sub ∈ ks.map fun k =>
            Expr.andor .and ((before ++ k :: after).flatMap (insertAndor .and)),
            Normalizable S sub := by
          rw [forall_mem_map]
          intro k hk
          obtain ⟨h1, h2, h3⟩ := distribute_operands hop hlen' hk
          obtain ⟨ts, hts, hn⟩ := ih _ (lt_of_lt_of_le h3 (hweight.trans hw)) le_rfl h1 h2
          exact .inr ⟨_, ts, rfl, hts, hn⟩
        obtain ⟨ts, ⟨M, hM⟩, hts⟩ := exprNormalizeOr_spec hnorm
        refine ⟨ts, eventually_succ ⟨max N M, fun n hn => ?_⟩, hts.terms, hts.symbols,
          fun res => ?_⟩
        · rw [hsort n (by omega), hsome]
          exact hM n (by omega)
        · refine (hts.refines res).trans ?_
          rw [paths_andor]
          show PathRefines (Dnf.any _) _
          rw [paths_distribute, ← heq, map_map]
          exact href res

/-! ## The whole pass -/

structure NormalForm (S : ExprSymbol → Prop) (e r : Expr) : Prop where
  returns : ∃ N, ∀ n ≥ N, exprNormalize n e = .ok r
  normal : r.Normal
  symbols : ∀ c ∈ r.cmps, S c.symbol
  refines : ∀ res, PathRefines (r.paths res) (e.paths res)

theorem Normalized.normalForm {ts : List Expr} (h : Normalized S e ts)
    (hrun : ∃ N, ∀ n ≥ N, exprNormalize n e = .ok (orTerms ts)) : NormalForm S e (orTerms ts) where
  returns := hrun
  normal := .orTerms h.terms
  symbols c hc := by
    obtain ⟨t, ht, hc⟩ := cmps_orTerms _ c hc
    exact h.symbols t ht c hc
  refines res := paths_orTerms res ts ▸ h.refines res

theorem exprNormalize_spec (hS : ∀ s t, S s → S t → s.name = t.name → s = t) (h : Ready S e) :
    ∃ r, NormalForm S e r := by
  cases e with
  | cmp c =>
    have hc := h.simple c (by simp)
    have hnormal : Expr.Normal (orTerms [.cmp c]) := .orTerms (by simpa using .cmp hc)
    exact ⟨.cmp c, ⟨0, fun _ _ => rfl⟩, hnormal, h.symbols, fun _ => .refl _⟩
  | boolean b => exact ⟨.boolean b, ⟨0, fun _ _ => rfl⟩, .boolean b, by simp, fun _ => .refl _⟩
  | condition n s => cases h.resolved
  | andor t subs =>
    cases t with
    | and =>
      obtain ⟨ts, hrun, hts⟩ := exprNormalizeAnd_spec hS _ le_rfl h.and.2 h.and.1
      exact ⟨_, hts.normalForm hrun⟩
    | or =>
      have hsub : ∀ sub ∈ subs, Normalizable S sub := by
        intro sub hsub
        rcases h.or_cases hsub with hc | ⟨es, rfl, hlen, hes⟩
        · exact .inl hc
        · obtain ⟨ts, hrun, hts⟩ := exprNormalizeAnd_spec hS _ le_rfl hes hlen
          exact .inr ⟨es, ts, rfl, hrun, hts⟩
      obtain ⟨ts, hrun, hts⟩ := exprNormalizeOr_spec hsub
      exact ⟨_, hts.normalForm hrun⟩

end

/-- The three passes before the translation into flows, on an annotated
    expression. -/
structure Prepared (isChassisResident : String → Bool) (e₀ e r : Expr) : Prop where
  wf : ∀ c ∈ e.cmps, c.Wf
  normalized : NormalForm (fun s => ∃ c ∈ e₀.cmps, c.symbol = s) e r
  refines : ∀ res, Dnf.Refines Cmp.Sat Cmp.symbol (e.paths res) (e₀.paths isChassisResident)

theorem exprNormalize_prepared {e₀ e₁ : Expr} (he : e₀.Annotated)
    (hsimp : exprSimplify e₀ = .ok e₁) (isChassisResident : String → Bool) :
    ∃ r, Prepared isChassisResident e₀ (exprEvaluateCondition isChassisResident e₁) r := by
  have hwf : ∀ c ∈ e₀.cmps, c.Wf := fun c hc => ⟨he.cmps c hc, within_of_honors he.honors c hc⟩
  obtain ⟨e₁, h, hs⟩ := exprSimplify_spec hwf (simplifiable_of_exprSimplify he.cmps hsimp)
  cases hsimp.symm.trans h
  have hcond := exprEvaluateCondition_spec isChassisResident e₁
  have hready : Ready (fun s => ∃ c ∈ e₀.cmps, c.symbol = s)
      (exprEvaluateCondition isChassisResident e₁) :=
    ⟨hcond.tidy, hcond.resolved, fun c hc => hs.simple c (hcond.cmps hc),
      fun c hc => hs.symbols c (hcond.cmps hc)⟩
  obtain ⟨r, hr⟩ := exprNormalize_spec (by
    rintro _ _ ⟨c, hc, rfl⟩ ⟨d, hd, rfl⟩ hname
    exact he.symtab c hc d hd hname) hready
  exact ⟨r, fun c hc => (hready.simple c hc).toWf, hr,
    fun res => (hcond.refines res).trans (hs.refines _)⟩

/-- An injective port lookup tells every field at most one name. -/
def NamedAssignment.ofFlow (f : Flow) {lookupPort : LookupPort} (h : lookupPort.Injective) :
    NamedAssignment where
  toAssignment := .ofFlow f lookupPort
  isName_unique s a b := by
    rintro ⟨p, hp, hfp⟩ ⟨q, hq, hfq⟩
    have hpq : p = q := BitVec.eq_of_toNat_eq (hfp.symm.trans hfq)
    exact h a b p hp (hpq ▸ hq)

/-- **Normalization is exact and ends in normal form.**  On whatever
    `expr_simplify` and `expr_evaluate_condition` make of an annotated expression,
    `expr_normalize` returns without running into an assertion; the result
    evaluates the same on every flow under every injective port lookup, is in
    normal form, and honors the invariants. -/
theorem exprNormalize_correct (e₀ e₁ : Expr) (he : e₀.Annotated)
    (hsimp : exprSimplify e₀ = .ok e₁) (isChassisResident : String → Bool) :
    ∃ r, (∃ N, ∀ n ≥ N, exprNormalize n (exprEvaluateCondition isChassisResident e₁) = .ok r) ∧
      (∀ f lookupPort, lookupPort.Injective → exprEvaluate f lookupPort r
        = exprEvaluate f lookupPort (exprEvaluateCondition isChassisResident e₁)) ∧
      r.Normal ∧ r.Invariants := by
  obtain ⟨r, hwf, hr, -⟩ := exprNormalize_prepared he hsimp isChassisResident
  refine ⟨r, hr.returns, fun f lookupPort hinj => ?_, hr.normal, hr.normal.tidy.invariants
    hr.normal.simple⟩
  rw [Bool.eq_iff_iff, exprEvaluate_iff hwf,
    exprEvaluate_iff fun c hc => (hr.normal.simple c hc).toWf]
  exact (hr.refines _).holds_iff (.ofFlow f hinj)

def portExpr : Expr :=
  .andor .and [.andor .or [.cmp (portCmp 0 "tcp.dst" .eq 80), .cmp (portCmp 0 "tcp.dst" .eq 443)],
    .cmp (portCmp 1 "tcp.src" .eq 22)]

theorem mem_cmps_portExpr {c : Cmp} (hc : c ∈ portExpr.cmps) : c = portCmp 0 "tcp.dst" .eq 80 ∨
    c = portCmp 0 "tcp.dst" .eq 443 ∨ c = portCmp 1 "tcp.src" .eq 22 := by
  simpa [portExpr] using hc

theorem portExpr_annotated : portExpr.Annotated where
  honors := by decide +kernel
  cmps c hc := by
    rcases mem_cmps_portExpr hc with rfl | rfl | rfl <;> exact portCmp_annotated (by decide) _ _ _
  symtab c hc d hd := by
    rcases mem_cmps_portExpr hc with rfl | rfl | rfl <;>
      rcases mem_cmps_portExpr hd with rfl | rfl | rfl <;> decide

theorem exprSimplify_portCmp (id : ℕ) (name : String) (port : ℕ) :
    exprSimplify (.cmp (portCmp id name .eq port)) = .ok (.cmp (portCmp id name .eq port)) := by
  show Except.ok (exprSimplifyEq _) = _
  rw [exprSimplifyEq, if_neg (portCmp_mask_ne _ _ _ _)]

theorem exprSimplify_portExpr : exprSimplify portExpr = .ok portExpr := by
  simp only [portExpr, exprSimplify.eq_2, simplifySubs, exprSimplify_portCmp]
  rfl

theorem exprNormalize_correct_port :
    ∃ r, (∃ N, ∀ n ≥ N, exprNormalize n (exprEvaluateCondition (fun _ => true) portExpr) = .ok r) ∧
      (∀ f lookupPort, lookupPort.Injective → exprEvaluate f lookupPort r
        = exprEvaluate f lookupPort (exprEvaluateCondition (fun _ => true) portExpr)) ∧
      r.Normal ∧ r.Invariants :=
  exprNormalize_correct portExpr portExpr portExpr_annotated exprSimplify_portExpr fun _ => true

/-- **The mutual recursion ends**, also where a conjunction is multiplied out and normalized
    again: from some depth of recursion on no call is cut off, and the result is the same. -/
theorem exprNormalize_terminates (e₀ e₁ : Expr) (he : e₀.Annotated)
    (hsimp : exprSimplify e₀ = .ok e₁) (isChassisResident : String → Bool) :
    ∃ N r, ∀ n ≥ N, exprNormalize n (exprEvaluateCondition isChassisResident e₁) = .ok r := by
  obtain ⟨r, hr⟩ := exprNormalize_prepared he hsimp isChassisResident
  exact hr.normalized.returns.imp fun N hN => ⟨r, hN⟩

/-- The disjunction is over two symbols, so that the conjunction is multiplied out. -/
def crossExpr : Expr :=
  .andor .and [.andor .or [.cmp (portCmp 0 "tcp.dst" .eq 80), .cmp (portCmp 2 "udp.dst" .eq 53)],
    .cmp (portCmp 1 "tcp.src" .eq 22)]

theorem mem_cmps_crossExpr {c : Cmp} (hc : c ∈ crossExpr.cmps) : c = portCmp 0 "tcp.dst" .eq 80 ∨
    c = portCmp 2 "udp.dst" .eq 53 ∨ c = portCmp 1 "tcp.src" .eq 22 := by
  simpa [crossExpr] using hc

theorem crossExpr_annotated : crossExpr.Annotated where
  honors := by decide +kernel
  cmps c hc := by
    rcases mem_cmps_crossExpr hc with rfl | rfl | rfl <;> exact portCmp_annotated (by decide) _ _ _
  symtab c hc d hd := by
    rcases mem_cmps_crossExpr hc with rfl | rfl | rfl <;>
      rcases mem_cmps_crossExpr hd with rfl | rfl | rfl <;> decide

theorem exprSimplify_crossExpr : exprSimplify crossExpr = .ok crossExpr := by
  simp only [crossExpr, exprSimplify.eq_2, simplifySubs, exprSimplify_portCmp]
  rfl

theorem exprNormalize_terminates_port :
    ∃ N r, ∀ n ≥ N, exprNormalize n (exprEvaluateCondition (fun _ => true) crossExpr) = .ok r :=
  exprNormalize_terminates crossExpr crossExpr crossExpr_annotated exprSimplify_crossExpr
    fun _ => true

end Ovn

/-
  Sorting an AND: `expr_sort` (`lib/expr.c`).

  The operands of an AND are sorted so that those on one symbol come together,
  and each such group is crushed into one clause.  That the groups are complete
  rests on symbols being told apart by their names.
-/
import Ovn.Expr.CrushAnd
import Mathlib.Data.List.TakeWhile

namespace Ovn

open List

/-! ## The code -/

/-- `struct expr_sort`; the type is its place in `enum expr_type`. -/
structure ExprSort where
  expr : Expr
  symbol : Option ExprSymbol
  type : ℕ

/-- `expr->type`, as its place in `enum expr_type`. -/
def Expr.typeRank : Expr → ℕ
  | .cmp _ => 0
  | .andor .and _ => 1
  | .andor .or _ => 2
  | .boolean _ => 3
  | .condition _ _ => 4

/-- How `expr_sort` fills in its array. -/
def exprSortOf (sub : Expr) : ExprSort where
  expr := sub
  symbol := exprGetUniqueSymbol sub
  type := if (exprGetUniqueSymbol sub).isSome then 0 else sub.typeRank

/-- The number of operands that `compare_expr_sort` compares. -/
def ExprSort.len (a : ExprSort) : ℕ :=
  match a.expr with
  | .andor _ subs => if a.type = 1 ∨ a.type = 2 then subs.length else 0
  | _ => 0

/-- `compare_expr_sort`.  The comparison of the types of two expressions on the
    same symbol compares the first one with itself.  Of two entries of equal
    type either both have a symbol or none has. -/
def compareExprSort (a b : ExprSort) : Ordering :=
  if a.type ≠ b.type then compare a.type b.type
  else
    match a.symbol, b.symbol with
    | some s, some t => compare s.name t.name
    | none, none => compare a.len b.len
    | none, some _ => .lt
    | some _, none => .gt

/-- `combined` of `expr_sort`: the operands on one symbol in one AND, which the
    code asserts to have more than one operand if there is more than one. -/
def combineGroup (x : ExprSort) (group : List ExprSort) : Except Abort Expr :=
  let combined := group.foldl (fun e y => combine .and e y.expr) x.expr
  match group, combined with
  | [], _ => .ok combined
  | _, .andor _ (_ :: _ :: _) => .ok combined
  | _, _ => .error .assertion

/-- The main loop of `expr_sort`, over the sorted entries. -/
def exprSortLoop (crush : ExprSymbol → Expr → Except Abort Expr) :
    ℕ → List ExprSort → Option Expr → Except Abort (Option Expr)
  | _, [], expr => .ok expr
  | 0, _ :: _, _ => .error .fuel
  | fuel + 1, x :: xs, expr =>
    match x.symbol with
    | some symbol => do
      let group := xs.takeWhile fun y => y.symbol == some symbol
      let rest := xs.dropWhile fun y => y.symbol == some symbol
      match ← crush symbol (← combineGroup x group) with
      | .boolean false => return some (.boolean false)
      | .boolean true => exprSortLoop crush fuel rest expr
      | crushed => exprSortLoop crush fuel rest (exprCombine .and expr (some crushed))
    | none => exprSortLoop crush fuel xs (exprCombine .and expr (some x.expr))

/-- `expr_sort`, on the operands of the AND. -/
def exprSort (crush : ExprSymbol → Expr → Except Abort Expr) (subs : List Expr) :
    Except Abort Expr := do
  let sorted := (subs.map exprSortOf).insertionSort fun a b => (compareExprSort a b).isLE
  let expr ← exprSortLoop crush sorted.length sorted none
  return expr.getD (.boolean true)

/-! ## Operands of a conjunction -/

variable {s : ExprSymbol}

theorem uniqueSymbolSubs_eq_some : ∀ {subs : List Expr} {prev},
    uniqueSymbolSubs prev subs = some s →
      (prev = none ∨ prev = some s) ∧ (∀ e ∈ subs, exprGetUniqueSymbol e = some s) ∧
        (subs = [] → prev = some s)
  | [], prev, h => ⟨.inr h, by simp, fun _ => h⟩
  | sub :: subs, prev, h => by
    rw [uniqueSymbolSubs] at h
    cases hsub : exprGetUniqueSymbol sub with
    | none => rw [hsub] at h; cases h
    | some t =>
      rw [hsub] at h
      simp only at h
      split_ifs at h with hp
      obtain ⟨h1, h2, -⟩ := uniqueSymbolSubs_eq_some h
      obtain rfl : t = s := by simpa using h1
      refine ⟨?_, ?_, by simp⟩
      · cases prev with
        | none => exact .inl rfl
        | some u => exact .inr (by simpa using hp)
      · exact forall_mem_cons.2 ⟨hsub, h2⟩

theorem uniqueSymbolSubs_eq : ∀ {subs : List Expr},
    (∀ e ∈ subs, exprGetUniqueSymbol e = some s) → uniqueSymbolSubs (some s) subs = some s
  | [], _ => rfl
  | sub :: subs, h => by
    rw [uniqueSymbolSubs, h sub mem_cons_self]
    simpa using uniqueSymbolSubs_eq (forall_mem_cons.1 h).2

theorem uniqueSymbol_orCmps {cs : List Cmp} (hne : cs ≠ []) (h : ∀ c ∈ cs, c.symbol = s) :
    exprGetUniqueSymbol (orCmps cs) = some s := by
  match cs, hne, h with
  | [c], _, h => rw [orCmps, exprGetUniqueSymbol, h c mem_cons_self]
  | c :: c' :: cs, _, h =>
    rw [show orCmps (c :: c' :: cs) = .andor .or ((c :: c' :: cs).map .cmp) from rfl,
      exprGetUniqueSymbol, map_cons, uniqueSymbolSubs, exprGetUniqueSymbol]
    simp only [h c mem_cons_self]
    refine uniqueSymbolSubs_eq fun e he => ?_
    obtain ⟨d, hd, rfl⟩ := mem_map.1 he
    rw [exprGetUniqueSymbol, h d (mem_cons_of_mem _ hd)]

theorem crushable_of_unique {e : Expr} (he : e.Tidy) (hc : ∀ c ∈ e.cmps, c.Simple)
    (h : exprGetUniqueSymbol e = some s) : e.Crushable s := by
  induction he with
  | cmp c =>
    rw [exprGetUniqueSymbol, Option.some.injEq] at h
    exact .cmp ⟨hc c (by simp), h⟩
  | boolean | condition => rw [exprGetUniqueSymbol] at h; cases h
  | @andor t subs hlen _ _ _ ih =>
    have hsub : ∀ e ∈ subs, e.Crushable s := fun e he =>
      ih e he (fun c hc' => hc c (mem_cmps_andor.2 ⟨e, he, hc'⟩))
        ((uniqueSymbolSubs_eq_some h).2.1 e he)
    cases t with
    | and => exact .and hlen hsub
    | or => exact .or hsub

/-- What simplification and the evaluation of conditions leave, with all symbols
    in `S`. -/
structure Ready (S : ExprSymbol → Prop) (e : Expr) : Prop where
  tidy : e.Tidy
  resolved : e.Resolved
  simple : ∀ c ∈ e.cmps, c.Simple
  symbols : ∀ c ∈ e.cmps, S c.symbol

/-- An operand that an AND can then have: a comparison or an OR. -/
structure Operand (S : ExprSymbol → Prop) (e : Expr) : Prop extends Ready S e where
  not_and : e.isAndor .and = false
  not_boolean : e.isBoolean = false

section
variable {S : ExprSymbol → Prop}
variable {e : Expr}

theorem Operand.cases (h : Operand S e) : (∃ c, e = .cmp c) ∨ ∃ ks, e = .andor .or ks := by
  cases e with
  | cmp c => exact .inl ⟨c, rfl⟩
  | boolean b => have := h.not_boolean; simp [Expr.isBoolean] at this
  | condition n s => cases h.resolved
  | andor t ks =>
    cases t with
    | and => have := h.not_and; simp [Expr.isAndor] at this
    | or => exact .inr ⟨ks, rfl⟩

theorem Operand.cmp {c : Cmp} (hc : c.Simple) (hS : S c.symbol) : Operand S (.cmp c) :=
  ⟨⟨.cmp c, .cmp c, by simpa using hc, by simpa using hS⟩, rfl, rfl⟩

variable {subs : List Expr}

theorem Ready.andor {t : AndOr} (h : Ready S (.andor t subs)) :
    2 ≤ subs.length ∧ ∀ e ∈ subs, Ready S e ∧ e.isBoolean = false ∧ e.isAndor t = false := by
  obtain ⟨htidy, hres, hsimple, hsym⟩ := h
  cases htidy with
  | andor hlen htidy hbool hand =>
    refine ⟨hlen, fun e he => ⟨⟨htidy e he, ?_, fun c hc => ?_, fun c hc => ?_⟩, hbool e he,
      hand e he⟩⟩
    · cases hres with | andor h => exact h e he
    · exact hsimple c (mem_cmps_andor.2 ⟨e, he, hc⟩)
    · exact hsym c (mem_cmps_andor.2 ⟨e, he, hc⟩)

theorem Ready.and (h : Ready S (.andor .and subs)) : 2 ≤ subs.length ∧ ∀ e ∈ subs, Operand S e :=
  ⟨h.andor.1, fun e he =>
    have ⟨h1, h2, h3⟩ := h.andor.2 e he
    ⟨h1, h3, h2⟩⟩

theorem Ready.or_cases {ks : List Expr} (h : Ready S (.andor .or ks)) {k : Expr}
    (hk : k ∈ ks) : (∃ c, k = .cmp c ∧ c.Simple ∧ S c.symbol) ∨
      ∃ es, k = .andor .and es ∧ 2 ≤ es.length ∧ ∀ e ∈ es, Operand S e := by
  obtain ⟨hready, hbool, hor⟩ := h.andor.2 k hk
  cases k with
  | cmp c => exact .inl ⟨c, rfl, hready.simple c (by simp), hready.symbols c (by simp)⟩
  | boolean b => simp [Expr.isBoolean] at hbool
  | condition n s => cases hready.resolved
  | andor t subs =>
    cases t with
    | or => simp [Expr.isAndor] at hor
    | and => exact .inr ⟨subs, rfl, hready.and⟩

theorem Operand.splice {ks : List Expr} (h : Operand S (.andor .or ks)) {k : Expr} (hk : k ∈ ks) :
    insertAndor .and k ≠ [] ∧ ∀ e ∈ insertAndor .and k, Operand S e := by
  rcases h.toReady.or_cases hk with ⟨c, rfl, hc, hS⟩ | ⟨es, rfl, hlen, hes⟩
  · refine ⟨by simp [insertAndor], fun e he => ?_⟩
    rw [mem_singleton.1 he]; exact .cmp hc hS
  · exact ⟨by rintro rfl; simp at hlen, hes⟩

/-! ## Sorting -/

theorem isLE_compareExprSort {a b : ExprSort} :
    (compareExprSort a b).isLE = true ↔ a.type < b.type ∨ a.type = b.type ∧
      match a.symbol, b.symbol with
      | some s, some t => (compare s.name t.name).isLE = true
      | none, none => a.len ≤ b.len
      | none, some _ => True
      | some _, none => False := by
  unfold compareExprSort
  split_ifs with h
  · rw [Nat.isLE_compare]; omega
  · have h : a.type = b.type := not_not.1 h
    simp only [h]
    cases a.symbol <;> cases b.symbol <;> simp [Nat.isLE_compare]

instance : Std.Total fun a b : ExprSort => (compareExprSort a b).isLE = true where
  total a b := by
    simp only [isLE_compareExprSort]
    rcases Nat.lt_trichotomy a.type b.type with h | h | h
    · exact .inl (.inl h)
    · have hname : ∀ s t : String, (compare s t).isLE = true ∨ (compare t s).isLE = true := by
        intro s t
        rw [show compare s t = (compare t s).swap from Std.OrientedCmp.eq_swap]
        cases compare t s <;> simp
      cases hs : a.symbol with
      | none =>
        cases ht : b.symbol with
        | none =>
          rcases Nat.le_total a.len b.len with h' | h'
          · exact .inl (.inr ⟨h, h'⟩)
          · exact .inr (.inr ⟨h.symm, h'⟩)
        | some t => exact .inl (.inr ⟨h, trivial⟩)
      | some s =>
        cases ht : b.symbol with
        | none => exact .inr (.inr ⟨h.symm, trivial⟩)
        | some t =>
          rcases hname s.name t.name with h' | h'
          · exact .inl (.inr ⟨h, h'⟩)
          · exact .inr (.inr ⟨h.symm, h'⟩)
    · exact .inr (.inl h)

instance : IsTrans ExprSort fun a b => (compareExprSort a b).isLE = true where
  trans a b c := by
    simp only [isLE_compareExprSort]
    rintro (h | ⟨h, h1⟩) (h' | ⟨h', h2⟩)
    · exact .inl (by omega)
    · exact .inl (by omega)
    · exact .inl (by omega)
    · refine .inr ⟨by omega, ?_⟩
      cases hs : a.symbol <;> cases ht : b.symbol <;> cases hu : c.symbol <;>
        simp only [hs, ht, hu] at h1 h2 ⊢
      · omega
      · exact Std.TransCmp.isLE_trans h1 h2

structure Entry (S : ExprSymbol → Prop) (x : ExprSort) : Prop where
  operand : Operand S x.expr
  eq : x = exprSortOf x.expr

variable {x : ExprSort}

theorem Entry.type_eq_zero (h : Entry S x) : x.type = 0 ↔ x.symbol ≠ none := by
  have hsym : x.symbol = exprGetUniqueSymbol x.expr := by rw [h.eq]; rfl
  have htype : x.type = if (exprGetUniqueSymbol x.expr).isSome then 0 else x.expr.typeRank := by
    rw [h.eq]; rfl
  rw [htype, hsym]
  rcases h.operand.cases with ⟨c, hc⟩ | ⟨ks, hk⟩
  · rw [hc]; simp [exprGetUniqueSymbol]
  · simp [hk, Expr.typeRank]

variable {xs : List ExprSort} {s : ExprSymbol}

theorem symbol_ne_of_mem_dropWhile (hS : ∀ s t, S s → S t → s.name = t.name → s = t)
    (hx : x.symbol = some s) (hentry : ∀ y ∈ x :: xs, Entry S y)
    (hsym : ∀ y ∈ x :: xs, ∀ t, y.symbol = some t → S t)
    (hsorted : (x :: xs).Pairwise fun a b => (compareExprSort a b).isLE = true) :
    ∀ y ∈ xs.dropWhile fun y => y.symbol == some s, y.symbol ≠ some s := by
  intro y hy hys
  obtain ⟨z, zs, hz⟩ := exists_cons_of_ne_nil (ne_nil_of_mem hy)
  have hsub : ∀ w ∈ z :: zs, w ∈ xs := fun w hw => (dropWhile_sublist _).subset (hz ▸ hw)
  have hzs : z.symbol ≠ some s := by
    have := head_dropWhile_not (fun y : ExprSort => y.symbol == some s) (by rw [hz]; simp)
    simpa [hz] using this
  rw [hz] at hy
  have hpair : (z :: zs).Pairwise fun a b => (compareExprSort a b).isLE = true := by
    rw [← hz]; exact (pairwise_cons.1 hsorted).2.sublist (dropWhile_sublist _)
  have hxz := (pairwise_cons.1 hsorted).1 z (hsub z mem_cons_self)
  rcases mem_cons.1 hy with rfl | hy'
  · exact hzs hys
  have hzy := (pairwise_cons.1 hpair).1 y hy'
  have hy0 := (hentry y (mem_cons_of_mem _ (hsub y hy))).type_eq_zero.2 (by simp [hys])
  rw [isLE_compareExprSort] at hxz hzy
  have hz0 : z.type = 0 := by omega
  obtain ⟨t, ht⟩ := Option.ne_none_iff_exists'.1
    ((hentry z (mem_cons_of_mem _ (hsub z mem_cons_self))).type_eq_zero.1 hz0)
  -- the name of `z`'s symbol lies between two equal names
  simp only [hx, ht, hys, hz0, hy0] at hxz hzy
  have hname : s.name = t.name := by
    rw [show compare t.name s.name = (compare s.name t.name).swap from
      Std.OrientedCmp.eq_swap] at hzy
    refine Std.compare_eq_iff_eq.1 ?_
    revert hxz hzy
    cases compare s.name t.name <;> simp
  refine hzs (ht.trans (congrArg some (hS t s ?_ ?_ hname.symm)))
  · exact hsym z (mem_cons_of_mem _ (hsub z mem_cons_self)) t ht
  · exact hsym x mem_cons_self s hx

def andOf : List Expr → Option Expr
  | [] => none
  | [e] => some e
  | es => some (.andor .and es)

theorem combine_eq (t : AndOr) (a b : Expr) :
    combine t a b = .andor t (insertAndor t a ++ insertAndor t b) := by
  unfold combine insertAndor
  cases a <;> cases b <;> dsimp only <;> (try split_ifs) <;> rfl

theorem insertAndor_of_not {t : AndOr} (h : e.isAndor t = false) : insertAndor t e = [e] := by
  unfold insertAndor
  split
  · simp_all [Expr.isAndor]
  · rfl

theorem exprCombine_andOf {es : List Expr} (he : e.isAndor .and = false)
    (hes : ∀ e ∈ es, e.isAndor .and = false) :
    exprCombine .and (andOf es) (some e) = andOf (es ++ [e]) := by
  match es, hes with
  | [], _ => rfl
  | [a], hes =>
    simp [andOf, exprCombine, combine_eq, insertAndor_of_not (hes a mem_cons_self),
      insertAndor_of_not he]
  | a :: b :: es, _ =>
    simp only [andOf, exprCombine, combine_eq]
    rw [insertAndor_of_not he]
    rfl

theorem foldl_combine {ys : List ExprSort} (hys : ∀ y ∈ ys, y.expr.isAndor .and = false) :
    ∀ (es : List Expr) {e : Expr}, (∀ e ∈ es, e.isAndor .and = false) → some e = andOf es →
      some (ys.foldl (fun e y => combine .and e y.expr) e) = andOf
        (es ++ ys.map ExprSort.expr) := by
  induction ys with
  | nil => simp
  | cons y ys ih =>
    intro es e hes h
    have hy := hys y mem_cons_self
    have hstep : some (combine .and e y.expr) = andOf (es ++ [y.expr]) := by
      rw [← exprCombine_andOf hy hes, ← h]; rfl
    have := ih (forall_mem_cons.1 hys).2 (es ++ [y.expr])
      (forall_mem_append.2 ⟨hes, by simpa using hy⟩) hstep
    simpa using this

theorem exists_cmp_of_unique (he : e.Tidy) (h : exprGetUniqueSymbol e = some s) :
    ∃ c ∈ e.cmps, c.symbol = s := by
  induction he with
  | cmp c => rw [exprGetUniqueSymbol, Option.some.injEq] at h; exact ⟨c, by simp, h⟩
  | boolean | condition => rw [exprGetUniqueSymbol] at h; cases h
  | @andor t subs hlen _ _ _ ih =>
    match subs, hlen, ih, h with
    | sub :: subs, _, ih, h =>
      obtain ⟨c, hc, hcs⟩ := ih sub mem_cons_self
        ((uniqueSymbolSubs_eq_some h).2.1 sub mem_cons_self)
      exact ⟨c, mem_cmps_andor.2 ⟨sub, mem_cons_self, hc⟩, hcs⟩

theorem Entry.symbol (h : Entry S x) (hs : x.symbol = some s) :
    S s ∧ s.Wf ∧ x.expr.Crushable s := by
  have hu : exprGetUniqueSymbol x.expr = some s := by rw [← hs, h.eq]; rfl
  obtain ⟨c, hc, rfl⟩ := exists_cmp_of_unique h.operand.tidy hu
  exact ⟨h.operand.symbols c hc, (h.operand.simple c hc).symbol,
    crushable_of_unique h.operand.tidy h.operand.simple hu⟩

/-- A clause of the sorted conjunction: the crushed operands on one symbol, or an
    OR over more than one. -/
inductive Item (S : ExprSymbol → Prop) : Option ExprSymbol → Expr → Prop
  | group {s : ExprSymbol} {cs : List Cmp} : S s → cs ≠ [] → (∀ c ∈ cs, c.On s) →
      Item S (some s) (orCmps cs)
  | other {ks : List Expr} : Operand S (.andor .or ks) →
      exprGetUniqueSymbol (.andor .or ks) = none → Item S none (.andor .or ks)

abbrev ItemList := List (Option ExprSymbol × Expr)

structure SortedOut (S : ExprSymbol → Prop) (L : List ExprSort) (rs : ItemList) : Prop where
  items : ∀ r ∈ rs, Item S r.1 r.2
  nodup : (rs.filterMap Prod.fst).Nodup
  mem : ∀ s ∈ rs.filterMap Prod.fst, ∃ x ∈ L, x.symbol = some s
  refines : ∀ res, PathRefines (Dnf.all (rs.map fun r => r.2.paths res))
    (Dnf.all (L.map fun x => x.expr.paths res))
  weight : sumWeight (rs.map Prod.snd) ≤ sumWeight (L.map ExprSort.expr)
  ne : L ≠ [] → rs ≠ []
  single : ∀ e, rs = [(none, e)] → L.length ≤ 1

theorem orCmps_not_and (cs : List Cmp) : (orCmps cs).isAndor .and = false := by
  match cs with
  | [] | [_] | _ :: _ :: _ => rfl

theorem weight_orCmps (cs : List Cmp) :
    (orCmps cs).weight ≤ 1 ∧ (cs.length ≤ 1 → (orCmps cs).weight = 0) := by
  have hmax : ∀ cs : List Cmp, maxWeight (cs.map .cmp) = 0 := fun cs => by
    induction cs with
    | nil => rfl
    | cons c cs ih => rw [map_cons, maxWeight, ih]; rfl
  match cs with
  | [] => simp [orCmps, Expr.weight]
  | [c] => simp [orCmps, Expr.weight]
  | c :: c' :: cs =>
    refine ⟨?_, by simp⟩
    rw [show orCmps (c :: c' :: cs) = .andor .or ((c :: c' :: cs).map .cmp) from rfl, Expr.weight,
      hmax]

theorem sumWeight_append (xs ys : List Expr) :
    sumWeight (xs ++ ys) = sumWeight xs + sumWeight ys := by
  induction xs with
  | nil => simp [sumWeight]
  | cons x xs ih => simp [sumWeight, ih, Nat.add_assoc]

theorem group_spec {group : List ExprSort} (hentry : ∀ y ∈ x :: group, Entry S y)
    (hsym : ∀ y ∈ x :: group, y.symbol = some s) :
    ∃ e cs, combineGroup x group = .ok e ∧ CrushesBy s e cs ∧ (∀ c ∈ cs, c.On s) ∧
      (∀ res, PathRefines (alts cs) (Dnf.all ((x :: group).map fun y => y.expr.paths res))) ∧
      (orCmps cs).weight ≤ sumWeight ((x :: group).map ExprSort.expr) := by
  have hwf : s.Wf := ((hentry x mem_cons_self).symbol (hsym x mem_cons_self)).2.1
  have hcr : ∀ y ∈ x :: group, y.expr.Crushable s := fun y hy =>
    ((hentry y hy).symbol (hsym y hy)).2.2
  have hfold : some (group.foldl (fun e y => combine .and e y.expr) x.expr)
      = andOf (x.expr :: group.map ExprSort.expr) := foldl_combine
    (fun y hy => (hentry y (mem_cons_of_mem _ hy)).operand.not_and) [x.expr]
    (by simpa using (hentry x mem_cons_self).operand.not_and) rfl
  obtain ⟨e, hok, hshape⟩ : ∃ e, combineGroup x group = .ok e ∧ ((group = [] ∧ e = x.expr) ∨
      (group ≠ [] ∧ e = .andor .and ((x :: group).map ExprSort.expr))) := by
    match group, hfold with
    | [], _ => exact ⟨x.expr, rfl, .inl ⟨rfl, rfl⟩⟩
    | y :: ys, hfold => simp_all [andOf, combineGroup]
  have hcrush : e.Crushable s := by
    rcases hshape with ⟨-, h⟩ | ⟨hne, h⟩
    · rw [h]; exact hcr x mem_cons_self
    · rw [h]
      refine .and (by have := length_pos_of_ne_nil hne; simp; omega) ?_
      exact forall_mem_map.2 hcr
  have hpaths : ∀ res, e.paths res = Dnf.all ((x :: group).map fun y => y.expr.paths res) := by
    intro res
    rcases hshape with ⟨hnil, h⟩ | ⟨-, h⟩
    · rw [h, hnil]; simp
    · rw [h, paths_andor, map_map]; rfl
  have hweight : e.weight = sumWeight ((x :: group).map ExprSort.expr) := by
    rcases hshape with ⟨hnil, h⟩ | ⟨-, h⟩
    · rw [h, hnil]; simp [sumWeight]
    · rw [h, Expr.weight]
  obtain ⟨cs, hcs⟩ := crushCmps_spec hwf hcrush
  refine ⟨e, cs, hok, hcs.returns, hcs.on, fun res => hpaths res ▸ hcs.refines res, ?_⟩
  rw [← hweight]
  rcases Nat.eq_zero_or_pos e.weight with h0 | hpos
  · rw [(weight_orCmps cs).2 (hcs.small h0)]; omega
  · exact (weight_orCmps cs).1.trans hpos

/-- The loop, run with enough fuel for crushing, ends in `r`. -/
def SortsTo (k : ℕ) (L : List ExprSort) (expr r : Option Expr) : Prop :=
  ∃ N, ∀ n ≥ N, exprSortLoop (crushCmps n) k L expr = .ok r

def Contradictory (L : List ExprSort) : Prop :=
  ∀ res, ∀ σ : NamedAssignment,
    ¬Dnf.Holds (Cmp.Sat σ.toAssignment) (Dnf.all (L.map fun x => x.expr.paths res))

theorem SortsTo.other {k : ℕ} {expr r : Option Expr} (hx : x.symbol = none)
    (h : SortsTo k xs (exprCombine .and expr (some x.expr)) r) :
    SortsTo (k + 1) (x :: xs) expr r := by
  obtain ⟨N, hN⟩ := h
  refine ⟨N, fun n hn => ?_⟩
  rw [exprSortLoop, hx]
  exact hN n hn

theorem SortsTo.contradiction {k : ℕ} {expr : Option Expr} (hx : x.symbol = some s)
    (hok : combineGroup x (xs.takeWhile fun y => y.symbol == some s) = .ok e)
    (hcrush : CrushesBy s e [])
    : SortsTo (k + 1) (x :: xs) expr (some (.boolean false)) := by
  obtain ⟨N, hN⟩ := hcrush
  refine ⟨N, fun n hn => ?_⟩
  rw [exprSortLoop, hx]
  simp only [hok, bind, Except.bind, hN n hn]
  rfl

theorem SortsTo.group {k : ℕ} {expr r : Option Expr} {cs : List Cmp} (hx : x.symbol = some s)
    (hok : combineGroup x (xs.takeWhile fun y => y.symbol == some s) = .ok e)
    (hcrush : CrushesBy s e cs)
    (hne : cs ≠ [])
    (h : SortsTo k (xs.dropWhile fun y => y.symbol == some s)
      (exprCombine .and expr (some (orCmps cs))) r) :
    SortsTo (k + 1) (x :: xs) expr r := by
  obtain ⟨N, hN⟩ := hcrush
  obtain ⟨M, hM⟩ := h
  refine ⟨max N M, fun n hn => ?_⟩
  rw [exprSortLoop, hx]
  simp only [hok, bind, Except.bind, hN n (by omega)]
  match cs, hne, hM with
  | [c], _, hM => exact hM n (by omega)
  | _ :: _ :: _, _, hM => exact hM n (by omega)

theorem SortedOut.other {rs : ItemList} (hx : Entry S x) (hs : x.symbol = none)
    (h : SortedOut S xs rs) : SortedOut S (x :: xs) ((none, x.expr) :: rs) where
  items := by
    refine forall_mem_cons.2 ⟨?_, h.items⟩
    have hu : exprGetUniqueSymbol x.expr = none := by rw [← hs, hx.eq]; rfl
    rcases hx.operand.cases with ⟨c, hc⟩ | ⟨ks, hk⟩
    · rw [hc] at hu; simp [exprGetUniqueSymbol] at hu
    · rw [hk] at hu ⊢; exact .other (hk ▸ hx.operand) hu
  nodup := by exact h.nodup
  mem := by
    intro s hs
    obtain ⟨y, hy, hys⟩ := h.mem s (by exact hs)
    exact ⟨y, mem_cons_of_mem _ hy, hys⟩
  refines res := (Dnf.Refines.refl _).and (h.refines res)
  weight := by
    have := h.weight
    simp only [map_cons, sumWeight]; omega
  ne := by simp
  single := by
    intro e he
    simp only [List.cons.injEq] at he
    by_contra hlen
    refine h.ne ?_ he.2
    rintro rfl
    simp at hlen

theorem SortedOut.group {group rest : List ExprSort} {rs : ItemList} {cs : List Cmp}
    (hS : S s) (hcs : cs ≠ []) (hx : x.symbol = some s) (hon : ∀ c ∈ cs, c.On s)
    (hrest : ∀ y ∈ rest, y.symbol ≠ some s)
    (href : ∀ res, PathRefines (alts cs) (Dnf.all ((x :: group).map fun y => y.expr.paths res)))
    (hw : (orCmps cs).weight ≤ sumWeight ((x :: group).map ExprSort.expr))
    (h : SortedOut S rest rs) :
    SortedOut S (x :: (group ++ rest)) ((some s, orCmps cs) :: rs) where
  items := forall_mem_cons.2 ⟨.group hS hcs hon, h.items⟩
  nodup := by
    simp only [filterMap_cons, nodup_cons]
    refine ⟨fun hmem => ?_, h.nodup⟩
    obtain ⟨y, hy, hys⟩ := h.mem s hmem
    exact hrest y hy hys
  mem := by
    intro t ht
    rcases mem_cons.1 ht with rfl | ht
    · exact ⟨x, mem_cons_self, hx⟩
    · obtain ⟨y, hy, hys⟩ := h.mem t ht
      exact ⟨y, by simp [hy], hys⟩
  refines res := by
    rw [← cons_append, map_append, Dnf.all_append, map_cons, paths_orCmps]
    exact (href res).and (h.refines res)
  weight := by
    have := h.weight
    rw [← cons_append, map_append, sumWeight_append, map_cons, sumWeight]
    simp only
    omega
  ne := by simp
  single := by simp

/-- **Sorting.**  The loop either finds a contradiction or returns the
    conjunction of clauses no two of which are on the same symbol. -/
theorem sortLoop_spec (hS : ∀ s t, S s → S t → s.name = t.name → s = t) :
    ∀ (k : ℕ) {L : List ExprSort} (items : List Expr), L.length ≤ k →
      (L.Pairwise fun a b => (compareExprSort a b).isLE = true) → (∀ x ∈ L, Entry S x) →
      (∀ e ∈ items, e.isAndor .and = false) →
      (SortsTo k L (andOf items) (some (.boolean false)) ∧ Contradictory L) ∨
      ∃ rs, SortsTo k L (andOf items) (andOf (items ++ rs.map Prod.snd)) ∧ SortedOut S L rs
  | k, [], items, _, _, _, _ => by
    refine .inr ⟨[], ⟨0, fun n _ => ?_⟩, by simp, by simp, by simp, fun _ => .refl _, le_rfl,
      fun h => absurd rfl h, by simp⟩
    cases k <;> simp [exprSortLoop]
  | 0, x :: xs, _, hlen, _, _, _ => by simp at hlen
  | k + 1, x :: xs, items, hlen, hsorted, hentry, hitems => by
    have hx := hentry x mem_cons_self
    cases hs : x.symbol with
    | none =>
      have hand := hx.operand.not_and
      have ih := sortLoop_spec hS k (items ++ [x.expr]) (by simpa using hlen)
        (pairwise_cons.1 hsorted).2 (forall_mem_cons.1 hentry).2
        (forall_mem_append.2 ⟨hitems, by simpa using hand⟩)
      rw [← exprCombine_andOf hand hitems] at ih
      rcases ih with ⟨hrun, hcon⟩ | ⟨rs, hrun, hout⟩
      · refine .inl ⟨.other hs hrun, fun res σ hσ => hcon res σ ?_⟩
        rw [map_cons, Dnf.all_cons, Dnf.holds_and] at hσ
        exact hσ.2
      · refine .inr ⟨(none, x.expr) :: rs, .other hs ?_, .other hx hs hout⟩
        simpa using hrun
    | some s =>
      set group := xs.takeWhile fun y => y.symbol == some s with hgroup
      set rest := xs.dropWhile fun y => y.symbol == some s with hrest
      have hxs : xs = group ++ rest := (takeWhile_append_dropWhile).symm
      have hrestmem : ∀ y ∈ rest, y ∈ xs := fun y hy => (dropWhile_sublist _).subset hy
      have hgroupsym : ∀ y ∈ x :: group, y.symbol = some s :=
        forall_mem_cons.2 ⟨hs, fun y hy => by simpa using mem_takeWhile_imp hy⟩
      have hgroupentry : ∀ y ∈ x :: group, Entry S y := fun y hy =>
        hentry y ((takeWhile_sublist _).cons_cons x |>.subset hy)
      have hrestsym : ∀ y ∈ rest, y.symbol ≠ some s := symbol_ne_of_mem_dropWhile hS hs hentry
        (fun y hy t ht => ((hentry y hy).symbol ht).1) hsorted
      obtain ⟨e, cs, hok, hcrush, hon, href, hw⟩ := group_spec hgroupentry hgroupsym
      rcases eq_or_ne cs [] with rfl | hne
      · refine .inl ⟨.contradiction hs hok hcrush, fun res σ hσ => ?_⟩
        rw [hxs, ← cons_append, map_append, Dnf.all_append, Dnf.holds_and] at hσ
        simpa using ((href res).holds_iff σ).2 hσ.1
      · have ih := sortLoop_spec hS k (L := rest) (items ++ [orCmps cs])
          (by have := congrArg List.length hxs; simp at hlen this; omega)
          ((pairwise_cons.1 hsorted).2.sublist (dropWhile_sublist _))
          (fun y hy => hentry y (mem_cons_of_mem _ (hrestmem y hy)))
          (forall_mem_append.2 ⟨hitems, by simpa using orCmps_not_and cs⟩)
        rw [← exprCombine_andOf (orCmps_not_and cs) hitems] at ih
        rcases ih with ⟨hrun, hcon⟩ | ⟨rs, hrun, hout⟩
        · refine .inl ⟨.group hs hok hcrush hne hrun, fun res σ hσ => hcon res σ ?_⟩
          rw [hxs, ← cons_append, map_append, Dnf.all_append, Dnf.holds_and] at hσ
          exact hσ.2
        · refine .inr ⟨(some s, orCmps cs) :: rs, .group hs hok hcrush hne ?_, ?_⟩
          · simpa using hrun
          · rw [hxs]
            exact .group (hx.symbol hs).1 hne hs hon hrestsym href hw hout

theorem sumWeight_perm {xs ys : List Expr} (h : xs.Perm ys) : sumWeight xs = sumWeight ys := by
  induction h with
  | nil => rfl
  | cons x _ ih => simp only [sumWeight, ih]
  | swap x y l => simp only [sumWeight]; omega
  | trans _ _ ih₁ ih₂ => exact ih₁.trans ih₂

theorem exprSort_spec (hS : ∀ s t, S s → S t → s.name = t.name → s = t)
    (hsubs : ∀ e ∈ subs, Operand S e)
    (hlen : 2 ≤ subs.length) : ((∃ N, ∀ n ≥ N, exprSort (crushCmps n) subs = .ok (.boolean false)) ∧
      ∀ res, ∀ σ : NamedAssignment,
        ¬Dnf.Holds (Cmp.Sat σ.toAssignment) ((Expr.andor .and subs).paths res)) ∨
    ∃ rs : ItemList, rs ≠ [] ∧ (∀ e, rs ≠ [(none, e)]) ∧
      (∃ N, ∀ n ≥ N, exprSort (crushCmps n) subs
        = .ok ((andOf (rs.map Prod.snd)).getD (.boolean true))) ∧
      (∀ r ∈ rs, Item S r.1 r.2) ∧ (rs.filterMap Prod.fst).Nodup ∧
      sumWeight (rs.map Prod.snd) ≤ sumWeight subs ∧
      ∀ res, PathRefines (Dnf.all (rs.map fun r => r.2.paths res))
        ((Expr.andor .and subs).paths res) := by
  set L := (subs.map exprSortOf).insertionSort fun a b => (compareExprSort a b).isLE with hL
  have hperm : L.Perm (subs.map exprSortOf) := perm_insertionSort _ _
  have hexpr : (L.map ExprSort.expr).Perm subs := by
    have := hperm.map ExprSort.expr
    rwa [map_map, show ExprSort.expr ∘ exprSortOf = id from rfl, map_id] at this
  have hentry : ∀ x ∈ L, Entry S x := by
    intro x hx
    obtain ⟨e, he, rfl⟩ := mem_map.1 (hperm.subset hx)
    exact ⟨hsubs e he, rfl⟩
  have hpaths : ∀ res, Dnf.all (L.map fun x => x.expr.paths res)
      = (Expr.andor .and subs).paths res := fun res => by
    rw [paths_andor]
    have := hexpr.map (Expr.paths res)
    rw [map_map] at this
    exact Dnf.all_perm this
  have hLlen : L.length = subs.length := by simpa using hperm.length_eq
  have hrun : ∀ n, exprSort (crushCmps n) subs = (exprSortLoop (crushCmps n) L.length L none).map
      fun expr => expr.getD (.boolean true) := fun n => rfl
  rcases sortLoop_spec hS L.length [] le_rfl (pairwise_insertionSort _ _) hentry
    (by simp) with ⟨⟨N, hN⟩, hcon⟩ | ⟨rs, ⟨N, hN⟩, hout⟩
  · refine .inl ⟨⟨N, fun n hn => ?_⟩, fun res σ => hpaths res ▸ hcon res σ⟩
    rw [hrun, show none = andOf [] from rfl, hN n hn]; rfl
  refine .inr ⟨rs, hout.ne ?_, fun e he => ?_, ⟨N, fun n hn => ?_⟩, hout.items, hout.nodup,
    ?_, fun res => hpaths res ▸ hout.refines res⟩
  · intro h; rw [h] at hLlen; simp at hLlen; omega
  · have := hout.single e he; omega
  · rw [hrun, show none = andOf [] from rfl, hN n hn]; rfl
  · rw [← sumWeight_perm hexpr]; exact hout.weight

end

end Ovn

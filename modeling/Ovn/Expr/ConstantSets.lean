/-
  Sets of integer constants (lib/expr.c): `expr_constant_set_create_integers` and
  `expr_constant_set_integers_diff`, for any lexer and any order that `qsort` leaves of constants
  that compare equal.
-/
import Mathlib.Data.Multiset.AddSub
import Mathlib.Data.Prod.Lex
import Mathlib.Order.WithBot

namespace Ovn.ConstantSet

inductive Format where
  | decimal | hexadecimal | ipv4 | ipv6 | ethernet

/-- `struct expr_constant`: what `memcmp` compares is its bytes as a number, and `mask` is there if
    it is `masked`. -/
structure Constant where
  value : ℕ
  format : Format
  mask : Option ℕ

def compareIntegerCb (a b : Constant) : Ordering :=
  (compare a.value b.value).then <|
    match a.mask, b.mask with
    | none, none => .eq
    | some _, none => .lt
    | none, some _ => .gt
    | some m, some m' => compare m m'

structure Qsort where
  sort : List Constant → List Constant
  perm : ∀ l, (sort l).Perm l
  sorted : ∀ l, (sort l).Pairwise fun a b => compareIntegerCb a b ≠ .gt

def createIntegers (lex : String → Option Constant) (q : Qsort) (values : List String) :
    List Constant :=
  q.sort (values.filterMap lex)

/-- `diff_added` and `diff_deleted`. -/
def integersDiff : List Constant → List Constant → List Constant × List Constant
  | o :: old, n :: new =>
    match compareIntegerCb o n with
    | .lt => ((integersDiff old (n :: new)).1, o :: (integersDiff old (n :: new)).2)
    | .gt => (n :: (integersDiff (o :: old) new).1, (integersDiff (o :: old) new).2)
    | .eq => integersDiff old new
  | [], new => (new, [])
  | old, [] => ([], old)

/-- The value and the mask; a constant without one comes last. -/
def Constant.key (c : Constant) : ℕ ×ₗ WithTop ℕ := toLex (c.value, c.mask)

def keys (l : List Constant) : Multiset (ℕ ×ₗ WithTop ℕ) := l.map Constant.key

theorem keys_cons (c : Constant) (l : List Constant) : keys (c :: l) = c.key ::ₘ keys l := rfl

/-- The order is linear, and equal are those of one value and mask. -/
theorem compareIntegerCb_compares (a b : Constant) :
    (compareIntegerCb a b).Compares a.key b.key := by
  obtain ⟨v, _, m⟩ := a
  obtain ⟨v', _, m'⟩ := b
  simp only [compareIntegerCb]
  obtain h | rfl | h := lt_trichotomy v v'
  · rw [compare_lt_iff_lt.2 h]
    exact Prod.Lex.toLex_lt_toLex.2 (.inl h)
  · rw [compare_eq_iff_eq.2 rfl]
    have hv {x y : WithTop ℕ} (h : x < y) : toLex (v, x) < toLex (v, y) :=
      Prod.Lex.toLex_lt_toLex.2 (.inr ⟨rfl, h⟩)
    match m, m' with
    | none, none => exact rfl
    | some m, none => exact hv (WithTop.coe_lt_top m)
    | none, some m' => exact hv (WithTop.coe_lt_top m')
    | some m, some m' =>
      have hmono : StrictMono fun m : ℕ => toLex (v, (m : WithTop ℕ)) :=
        fun _ _ h => hv (WithTop.coe_lt_coe.2 h)
      exact hmono.compares.2 ((compare_iff m m').1 rfl)
  · rw [compare_gt_iff_gt.2 h]
    exact Prod.Lex.toLex_lt_toLex.2 (.inl h)

instance : Inhabited Qsort where
  default.sort l := l.mergeSort fun a b => compareIntegerCb a b ≠ .gt
  default.perm l := l.mergeSort_perm _
  default.sorted l := by
    have hle (a b) : compareIntegerCb a b ≠ .gt ↔ a.key ≤ b.key :=
      (compareIntegerCb_compares a b).ne_gt
    simp only [hle]
    refine (l.pairwise_mergeSort ?_ ?_).imp of_decide_eq_true
    · simpa using fun a b c => le_trans
    · simpa using fun a b : Constant => le_total a.key b.key

theorem count_eq_zero {c d : Constant} {l : List Constant} (hlt : c.key < d.key)
    (hl : (d :: l).Pairwise (·.key ≤ ·.key)) : (keys (d :: l)).count c.key = 0 := by
  refine Multiset.count_eq_zero.2 fun hin => ?_
  obtain ⟨e, he, heq⟩ := List.mem_map.1 (Multiset.mem_coe.1 hin)
  obtain rfl | he := List.mem_cons.1 he
  · exact hlt.ne' heq
  · exact (hlt.trans_le ((List.pairwise_cons.1 hl).1 e he)).ne' heq

/-- The merge leaves of each set what the other has less of. -/
theorem count_integersDiff {old new : List Constant} (ho : old.Pairwise (·.key ≤ ·.key))
    (hn : new.Pairwise (·.key ≤ ·.key)) (k : ℕ ×ₗ WithTop ℕ) :
    (keys (integersDiff old new).1).count k = (keys new).count k - (keys old).count k ∧
      (keys (integersDiff old new).2).count k = (keys old).count k - (keys new).count k := by
  fun_induction integersDiff old new with
  | case1 o old n new h ih =>
    have hno := count_eq_zero ((compareIntegerCb_compares o n).eq_lt.1 h) hn
    obtain ⟨hadd, hdel⟩ := ih ho.tail hn
    rw [keys_cons o, keys_cons o, Multiset.count_cons, Multiset.count_cons, hadd, hdel]
    split_ifs with hk
    · subst hk
      omega
    · omega
  | case2 o old n new h ih =>
    have hno := count_eq_zero ((compareIntegerCb_compares o n).eq_gt.1 h) ho
    obtain ⟨hadd, hdel⟩ := ih ho hn.tail
    rw [keys_cons n, keys_cons n, Multiset.count_cons, Multiset.count_cons, hadd, hdel]
    split_ifs with hk
    · subst hk
      omega
    · omega
  | case3 o old n new h ih =>
    obtain ⟨hadd, hdel⟩ := ih ho.tail hn.tail
    rw [keys_cons, keys_cons, Multiset.count_cons, Multiset.count_cons, hadd, hdel,
      (compareIntegerCb_compares o n).eq_eq.1 h]
    omega
  | case4 new => simp [keys]
  | case5 old => simp [keys]

theorem sorted_createIntegers (lex : String → Option Constant) (q : Qsort) (values : List String) :
    (createIntegers lex q values).Pairwise (·.key ≤ ·.key) :=
  (q.sorted _).imp (compareIntegerCb_compares _ _).ne_gt.1

/-- **The difference of two constant sets** turns the old one into the new one. -/
theorem integersDiff_correct (lex : String → Option Constant) (q : Qsort) (old new : List String) :
    ∃ added deleted, integersDiff (createIntegers lex q old) (createIntegers lex q new) =
      (added, deleted) ∧
      (∀ k ∈ keys added, k ∉ keys deleted) ∧ keys deleted ≤ keys (createIntegers lex q old) ∧
      keys (createIntegers lex q old) - keys deleted + keys added = keys
        (createIntegers lex q new) := by
  have hcount := count_integersDiff (sorted_createIntegers lex q old)
    (sorted_createIntegers lex q new)
  refine ⟨_, _, rfl, fun k hadd hdel => ?_, Multiset.le_iff_count.2 fun k => ?_, Multiset.ext.2
    fun k => ?_⟩
  · have := Multiset.count_pos.2 hadd
    have := Multiset.count_pos.2 hdel
    have := hcount k
    omega
  · rw [(hcount k).2]
    omega
  · rw [Multiset.count_add, Multiset.count_sub, (hcount k).1, (hcount k).2]
    omega

end Ovn.ConstantSet

/-
  Values over a directed acyclic graph.

  The nodes of the graph have inputs, and a rank tells that no node depends on
  itself.  Given a function for every inner node and a value for every leaf,
  `Dag.value` is the value of a node computed bottom up.

  * `eq_value`: data that satisfies the equation of every inner node, on a set of
    nodes closed under inputs, is what is computed from the leaves.
  * `Sorted` is a list in which the inputs of a node come before it; `visit` puts
    the nodes that a node reaches in such an order by depth-first search
    (`sorted_visit`, `mem_visit_iff`).
-/
import Mathlib.Data.List.Nodup
import Mathlib.Logic.Relation

structure Dag (ν : Type*) where
  inputs : ν → List ν
  rank : ν → ℕ
  rank_lt : ∀ {m n}, m ∈ inputs n → rank m < rank n

namespace Dag

open List

variable {ν δ : Type*} (g : Dag ν) (F : ν → List δ → δ)

/-! ## Values -/

def value (leaf : ν → δ) (n : ν) : δ :=
  if g.inputs n = [] then leaf n
  else F n ((g.inputs n).attach.map fun m => value leaf m.1)
  termination_by g.rank n
  decreasing_by exact g.rank_lt m.2

variable {g F}

theorem value_leaf {leaf : ν → δ} {n : ν} (h : g.inputs n = []) : g.value F leaf n = leaf n := by
  rw [value, if_pos h]

theorem value_inner {leaf : ν → δ} {n : ν} (h : g.inputs n ≠ []) :
    g.value F leaf n = F n ((g.inputs n).map (g.value F leaf)) := by
  rw [value, if_neg h]
  exact congrArg (F n) attach_map_val

def Closed (g : Dag ν) (P : ν → Prop) : Prop := ∀ n, P n → ∀ m ∈ g.inputs n, P m

/-- **Data that is consistent at every inner node is computed from the leaves.** -/
theorem eq_value {P : ν → Prop} (hP : g.Closed P) {data leaf : ν → δ}
    (hleaf : ∀ n, P n → g.inputs n = [] → data n = leaf n)
    (h : ∀ n, P n → g.inputs n ≠ [] → data n = F n ((g.inputs n).map data)) (n : ν) (hn : P n) :
    data n = g.value F leaf n := by
  induction hr : g.rank n using Nat.strongRecOn generalizing n with
  | ind r ih =>
    by_cases hin : g.inputs n = []
    · rw [value_leaf hin, hleaf n hn hin]
    · rw [value_inner hin, h n hn hin]
      refine congrArg (F n) (map_congr_left fun m hm => ?_)
      exact ih (g.rank m) (hr ▸ g.rank_lt hm) m (hP n hn m hm) rfl

/-! ## Sorted lists -/

/-- The inputs of every node of the list come before it. -/
def Sorted (g : Dag ν) (ns : List ν) : Prop :=
  ∀ before n after, ns = before ++ n :: after → ∀ m ∈ g.inputs n, m ∈ before

theorem Sorted.nil : g.Sorted [] := by
  intro before n after h
  simp at h

theorem Sorted.snoc {ns : List ν} (h : g.Sorted ns) {n : ν} (hn : ∀ m ∈ g.inputs n, m ∈ ns) :
    g.Sorted (ns ++ [n]) := by
  intro before n' after heq m hm
  rcases eq_nil_or_concat after with rfl | ⟨after', x, rfl⟩
  · obtain ⟨rfl, h'⟩ := append_inj' heq rfl
    cases h'
    exact hn m hm
  · rw [concat_eq_append, ← cons_append, ← append_assoc] at heq
    exact h before n' after' (append_inj' heq rfl).1 m hm

theorem Sorted.closed {ns : List ν} (h : g.Sorted ns) : g.Closed (· ∈ ns) := by
  intro n hn m hm
  obtain ⟨before, after, rfl⟩ := append_of_mem hn
  exact mem_append_left _ (h before n after rfl m hm)

/-- `m` is `n` or below it. -/
def Reach (g : Dag ν) : ν → ν → Prop := Relation.ReflTransGen fun n m => m ∈ g.inputs n

theorem Reach.rank_le {n m : ν} (h : g.Reach n m) : g.rank m ≤ g.rank n := by
  induction h with
  | refl => exact Nat.le_refl _
  | tail _ hm ih => exact Nat.le_trans (Nat.le_of_lt (g.rank_lt hm)) ih

theorem Closed.reach {P : ν → Prop} (hP : g.Closed P) {n m : ν} (h : g.Reach n m) (hn : P n) :
    P m := by
  induction h with
  | refl => exact hn
  | tail _ hm ih => exact hP _ ih _ hm

variable [DecidableEq ν]

mutual

/-- Depth-first search from `n`: appends to `ns` what is below `n` and not there
    yet, inputs first.  The fuel is the depth. -/
def visit (g : Dag ν) : ℕ → ν → List ν → List ν
  | 0, _, ns => ns
  | fuel + 1, n, ns => if n ∈ ns then ns else visitAll g fuel (g.inputs n) ns ++ [n]

def visitAll (g : Dag ν) : ℕ → List ν → List ν → List ν
  | _, [], ns => ns
  | fuel, m :: ms, ns => visitAll g fuel ms (visit g fuel m ns)

end

structure Visited (g : Dag ν) (ms ns ns' : List ν) : Prop where
  sorted : g.Sorted ns'
  nodup : ns'.Nodup
  subset : ns ⊆ ns'
  mem : ∀ m ∈ ms, m ∈ ns'
  new : ∀ n ∈ ns', n ∈ ns ∨ ∃ m ∈ ms, g.Reach m n

mutual

theorem visited_visit : ∀ {fuel : ℕ} {n : ν} {ns : List ν}, g.rank n < fuel → g.Sorted ns →
    ns.Nodup → Visited g [n] ns (g.visit fuel n ns)
  | fuel + 1, n, ns, hr, hs, hd => by
    rw [visit]
    split_ifs with hn
    · exact ⟨hs, hd, fun _ h => h, by simpa using hn, fun m hm => .inl hm⟩
    · have hin : ∀ m ∈ g.inputs n, g.rank m < fuel := fun m hm => by
        have := g.rank_lt hm; omega
      have h := visited_visitAll hin hs hd
      refine ⟨h.sorted.snoc h.mem, ?_, fun m hm => mem_append_left _ (h.subset hm), by simp,
        fun m hm => ?_⟩
      · refine List.Nodup.append h.nodup (nodup_singleton n) ?_
        rw [disjoint_singleton]
        intro hmem
        rcases h.new n hmem with hns | ⟨m, hm, hr⟩
        · exact hn hns
        · have := g.rank_lt hm; have := hr.rank_le; omega
      · rcases mem_append.1 hm with hm | hm
        · rcases h.new m hm with hns | ⟨k, hk, hr⟩
          · exact .inl hns
          · exact .inr ⟨n, by simp, hr.head hk⟩
        · rw [mem_singleton.1 hm]; exact .inr ⟨n, by simp, .refl⟩

theorem visited_visitAll : ∀ {fuel : ℕ} {ms ns : List ν}, (∀ m ∈ ms, g.rank m < fuel) →
    g.Sorted ns → ns.Nodup → Visited g ms ns (g.visitAll fuel ms ns)
  | fuel, [], ns, _, hs, hd => by
    rw [visitAll]; exact ⟨hs, hd, fun _ h => h, by simp, fun m hm => .inl hm⟩
  | fuel, m :: ms, ns, hr, hs, hd => by
    have h := visited_visit (hr m mem_cons_self) hs hd
    have h' := visited_visitAll (forall_mem_cons.1 hr).2 h.sorted h.nodup
    rw [visitAll]
    refine ⟨h'.sorted, h'.nodup, fun k hk => h'.subset (h.subset hk), ?_, fun k hk => ?_⟩
    · exact forall_mem_cons.2 ⟨h'.subset (h.mem m mem_cons_self), h'.mem⟩
    · rcases h'.new k hk with hk | ⟨j, hj, hr⟩
      · rcases h.new k hk with hk | ⟨j, hj, hr⟩
        · exact .inl hk
        · rw [mem_singleton.1 hj] at hr; exact .inr ⟨m, mem_cons_self, hr⟩
      · exact .inr ⟨j, mem_cons_of_mem _ hj, hr⟩

end

theorem visited_nil (g : Dag ν) (n : ν) : Visited g [n] [] (g.visit (g.rank n + 1) n []) :=
  visited_visit (Nat.lt_succ_self (g.rank n)) Sorted.nil nodup_nil

theorem sorted_visit (g : Dag ν) (n : ν) :
    g.Sorted (g.visit (g.rank n + 1) n []) ∧ (g.visit (g.rank n + 1) n []).Nodup :=
  ⟨(g.visited_nil n).sorted, (g.visited_nil n).nodup⟩

theorem mem_visit_iff (g : Dag ν) (n m : ν) : m ∈ g.visit (g.rank n + 1) n [] ↔ g.Reach n m := by
  have h := g.visited_nil n
  constructor
  · intro hm
    simpa using h.new m hm
  · intro hr
    exact h.sorted.closed.reach hr (h.mem n mem_cons_self)

end Dag

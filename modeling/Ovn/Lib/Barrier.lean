/-
  Batches of messages sent over connections that come and go.

  * each batch is closed by a barrier, whose answer tells that the other side has processed
    this batch and all those sent before it on the same connection,
  * the log of the batches only grows, and answers are written into it,
  * `Acknowledged`: a batch sent after a given time is known to have been processed.
-/
import Mathlib.Data.List.Basic
import Mathlib.Order.Nat

namespace Ovn

/-- A batch: the connection it was sent on, the id of its barrier (none when the batch was
    empty, and no message was sent), and whether that barrier was answered. -/
structure Batch (ξ : Type*) where
  conn : ℕ
  barrier : Option ξ
  answered : Bool
  deriving DecidableEq

namespace Batch

variable {ξ : Type*}

def answer [DecidableEq ξ] (c : ℕ) (x : ξ) (log : List (Batch ξ)) : List (Batch ξ) :=
  log.map fun b => if b.conn = c ∧ b.barrier = some x then { b with answered := true } else b

/-- Every nonempty batch of the connection `c` up to the `k`-th of the log was answered, or a
    later one of that connection was. -/
def Settled (log : List (Batch ξ)) (c k : ℕ) : Prop :=
  ∀ i ≤ k, ∀ b, log[i]? = some b → b.conn = c → b.barrier ≠ none →
    ∃ j, i ≤ j ∧ ∃ b', log[j]? = some b' ∧ b'.conn = c ∧ b'.answered = true

/-- Some batch was sent on the connection `c` when the log had at least `n` entries, and all
    those of this connection up to it are settled. -/
def Acknowledged (log : List (Batch ξ)) (c n : ℕ) : Prop :=
  ∃ k, n ≤ k ∧ (∃ b, log[k]? = some b ∧ b.conn = c) ∧ Settled log c k

/-- An answer with the id `x` is all that `Acknowledged` waits for. -/
def Covered (log : List (Batch ξ)) (c : ℕ) (x : ξ) (n : ℕ) : Prop :=
  ∃ p k, p ≤ k ∧ n ≤ k ∧ (∃ b, log[p]? = some b ∧ b.conn = c ∧ b.barrier = some x) ∧
    (∃ b, log[k]? = some b ∧ b.conn = c) ∧
    ∀ i, p < i → i ≤ k → ∀ b, log[i]? = some b → b.conn = c → b.barrier = none

/-- The last nonempty batch of the connection `c` has the barrier `x`. -/
def Last (log : List (Batch ξ)) (c : ℕ) (x : ξ) : Prop :=
  ∃ p, (∃ b : Batch ξ, log[p]? = some b ∧ b.conn = c ∧ b.barrier = some x) ∧
    ∀ (i : ℕ), p < i → ∀ b : Batch ξ, log[i]? = some b → b.conn = c → b.barrier = none

variable {log : List (Batch ξ)} {c : ℕ} {x : ξ} {n : ℕ}

/-! ## Answers -/

section
variable [DecidableEq ξ]

theorem getElem?_answer (i : ℕ) : (answer c x log)[i]? = log[i]?.map
    fun b => if b.conn = c ∧ b.barrier = some x then { b with answered := true } else b := by
  rw [answer, List.getElem?_map]

@[simp] theorem length_answer : (answer c x log).length = log.length := by simp [answer]

theorem answer_of_getElem? {i : ℕ} {b : Batch ξ} (h : log[i]? = some b) :
    ∃ b', (answer c x log)[i]? = some b' ∧ b'.conn = b.conn ∧ b'.barrier = b.barrier ∧
      (b.answered = true → b'.answered = true) ∧
      (b.conn = c → b.barrier = some x → b'.answered = true) := by
  rw [getElem?_answer, h, Option.map_some]
  by_cases hb : b.conn = c ∧ b.barrier = some x
  · exact ⟨_, rfl, by simp [hb]⟩
  · simp_all [if_neg hb]

theorem getElem?_of_answer {i : ℕ} {b' : Batch ξ} (h : (answer c x log)[i]? = some b') :
    ∃ b, log[i]? = some b ∧ b'.conn = b.conn ∧ b'.barrier = b.barrier := by
  rw [getElem?_answer, Option.map_eq_some_iff] at h
  obtain ⟨b, hb, rfl⟩ := h
  refine ⟨b, hb, ?_⟩
  split <;> exact ⟨rfl, rfl⟩

theorem mem_of_mem_answer {b' : Batch ξ} (h : b' ∈ answer c x log) :
    ∃ b ∈ log, b'.conn = b.conn ∧ b'.barrier = b.barrier := by
  obtain ⟨i, hi⟩ := List.mem_iff_getElem?.1 h
  obtain ⟨b, hb, e⟩ := getElem?_of_answer hi
  exact ⟨b, List.mem_of_getElem? hb, e⟩

variable {c' : ℕ}

theorem Settled.answer {k : ℕ} (h : Settled log c k) : Settled (answer c' x log) c k := by
  intro i hi b' hb' hc hx
  obtain ⟨b, hb, e1, e2⟩ := getElem?_of_answer hb'
  obtain ⟨j, hj, b₁, hb1, hc1, ha1⟩ := h i hi b hb (e1 ▸ hc) (e2 ▸ hx)
  obtain ⟨b₂, hb2, f1, -, f3, -⟩ := answer_of_getElem? hb1
  exact ⟨j, hj, b₂, hb2, f1.trans hc1, f3 ha1⟩

theorem Acknowledged.answer (h : Acknowledged log c n) : Acknowledged (answer c' x log) c n := by
  obtain ⟨k, hk, ⟨b, hb, hc⟩, hs⟩ := h
  obtain ⟨b', hb', f1, -⟩ := answer_of_getElem? hb
  exact ⟨k, hk, ⟨b', hb', f1.trans hc⟩, hs.answer⟩

theorem Covered.answer {y : ξ} (h : Covered log c x n) : Covered (answer c' y log) c x n := by
  obtain ⟨p, k, hpk, hk, ⟨b, hb, hc, hx⟩, ⟨b₁, hb1, hc1⟩, hn⟩ := h
  obtain ⟨b', hb', f1, f2, -⟩ := answer_of_getElem? hb
  obtain ⟨b₂, hb2, g1, -⟩ := answer_of_getElem? hb1
  refine ⟨p, k, hpk, hk, ⟨b', hb', f1.trans hc, f2.trans hx⟩, ⟨b₂, hb2, g1.trans hc1⟩, ?_⟩
  intro i hpi hik b₃ hb3 hc3
  obtain ⟨b₄, hb4, e1, e2⟩ := getElem?_of_answer hb3
  exact e2.trans (hn i hpi hik b₄ hb4 (e1 ▸ hc3))

theorem Last.answer {y : ξ} (h : Last log c x) : Last (answer c' y log) c x := by
  obtain ⟨p, ⟨b, hb, hc, hx⟩, hn⟩ := h
  obtain ⟨b', hb', f1, f2, -⟩ := answer_of_getElem? hb
  refine ⟨p, ⟨b', hb', f1.trans hc, f2.trans hx⟩, ?_⟩
  intro i hpi b₃ hb3 hc3
  obtain ⟨b₄, hb4, e1, e2⟩ := getElem?_of_answer hb3
  exact e2.trans (hn i hpi b₄ hb4 (e1 ▸ hc3))

/-- The answer to the barrier at `p` settles everything up to `k` when the batches between
    the two are empty. -/
theorem settled_answer {p k : ℕ} {b : Batch ξ} (hb : log[p]? = some b) (hc : b.conn = c)
    (hx : b.barrier = some x)
    (hn : ∀ i, p < i → i ≤ k → ∀ b, log[i]? = some b → b.conn = c → b.barrier = none) :
    Settled (answer c x log) c k := by
  obtain ⟨b', hb', f1, -, -, f4⟩ := answer_of_getElem? hb
  intro i hi b₃ hb3 hc3 hx3
  by_cases hip : i ≤ p
  · exact ⟨p, hip, b', hb', f1.trans hc, f4 hc hx⟩
  · obtain ⟨b₄, hb4, e1, e2⟩ := getElem?_of_answer hb3
    exact absurd (e2.trans (hn i (by omega) hi b₄ hb4 (e1 ▸ hc3))) hx3

theorem Covered.acknowledged (h : Covered log c x n) : Acknowledged (Batch.answer c x log) c n := by
  obtain ⟨p, k, -, hk, ⟨b, hb, hc, hx⟩, ⟨b₁, hb1, hc1⟩, hn⟩ := h
  obtain ⟨b₂, hb2, g1, -⟩ := answer_of_getElem? hb1
  exact ⟨k, hk, ⟨b₂, hb2, g1.trans hc1⟩, settled_answer hb hc hx hn⟩

theorem Last.settled (h : Last log c x) (k : ℕ) : Settled (Batch.answer c x log) c k := by
  obtain ⟨p, ⟨b, hb, hc, hx⟩, hn⟩ := h
  exact settled_answer hb hc hx fun i hi _ => hn i hi

end

/-! ## New batches -/

variable {log : List (Batch ξ)} {b : Batch ξ} {i : ℕ}

theorem getElem?_snoc {b' : Batch ξ} (h : (log ++ [b])[i]? = some b') :
    log[i]? = some b' ∨ i = log.length ∧ b' = b := by
  rcases Nat.lt_trichotomy i log.length with hi | rfl | hi
  · exact .inl (by rwa [List.getElem?_append_left hi] at h)
  · exact .inr ⟨rfl, by simpa using h.symm⟩
  · rw [List.getElem?_eq_none (by simp; omega)] at h
    cases h

theorem lt_of_getElem? (h : log[i]? = some b) : i < log.length := (List.getElem?_eq_some_iff.1 h).1

theorem getElem?_snoc_left {b' : Batch ξ} (h : log[i]? = some b) : (log ++ [b'])[i]? = some b := by
  rwa [List.getElem?_append_left (lt_of_getElem? h)]

theorem Settled.snoc {k : ℕ} (h : Settled log c k) (hk : k < log.length) :
    Settled (log ++ [b]) c k := by
  intro i hi b' hb' hc hx
  rcases getElem?_snoc hb' with hb' | ⟨rfl, -⟩
  · obtain ⟨j, hj, b₁, hb1, h1⟩ := h i hi b' hb' hc hx
    exact ⟨j, hj, b₁, getElem?_snoc_left hb1, h1⟩
  · omega

theorem Acknowledged.snoc (h : Acknowledged log c n) : Acknowledged (log ++ [b]) c n := by
  obtain ⟨k, hk, ⟨b₁, hb1, hc1⟩, hs⟩ := h
  exact ⟨k, hk, ⟨b₁, getElem?_snoc_left hb1, hc1⟩, hs.snoc (lt_of_getElem? hb1)⟩

theorem Covered.snoc (h : Covered log c x n) : Covered (log ++ [b]) c x n := by
  obtain ⟨p, k, hpk, hk, ⟨b₁, hb1, h1⟩, ⟨b₂, hb2, h2⟩, hn⟩ := h
  refine ⟨p, k, hpk, hk, ⟨b₁, getElem?_snoc_left hb1, h1⟩, ⟨b₂, getElem?_snoc_left hb2, h2⟩, ?_⟩
  intro i hpi hik b₃ hb3 hc3
  have := lt_of_getElem? hb2
  rcases getElem?_snoc hb3 with hb3 | ⟨rfl, -⟩
  · exact hn i hpi hik b₃ hb3 hc3
  · omega

variable {a : Bool}

theorem Last.snoc (h : Last log c x) : Last (log ++ [⟨c, none, a⟩]) c x := by
  obtain ⟨p, ⟨b₁, hb1, h1⟩, hn⟩ := h
  refine ⟨p, ⟨b₁, getElem?_snoc_left hb1, h1⟩, ?_⟩
  intro i hpi b₃ hb3 hc3
  rcases getElem?_snoc hb3 with hb3 | ⟨-, rfl⟩
  · exact hn i hpi b₃ hb3 hc3
  · rfl

theorem last_snoc : Last (log ++ [⟨c, some x, a⟩]) c x := by
  refine ⟨log.length, ⟨_, List.getElem?_concat_length, rfl, rfl⟩, ?_⟩
  intro i hi b hb
  have := lt_of_getElem? hb
  simp only [List.length_append, List.length_singleton] at this
  omega

theorem covered_snoc (hn : n ≤ log.length) : Covered (log ++ [⟨c, some x, a⟩]) c x n :=
  ⟨log.length, log.length, le_rfl, hn, ⟨_, List.getElem?_concat_length, rfl, rfl⟩,
    ⟨_, List.getElem?_concat_length, rfl⟩,
    fun i h1 h2 => by omega⟩

/-- After an empty batch, the answer to the last nonempty one covers this one too. -/
theorem Last.covered (h : Last log c x) (hn : n ≤ log.length) :
    Covered (log ++ [⟨c, none, a⟩]) c x n := by
  obtain ⟨p, ⟨b₁, hb1, h1⟩, hp⟩ := h.snoc
  have hl := lt_of_getElem? hb1
  simp only [List.length_append, List.length_singleton] at hl
  exact ⟨p, log.length, by omega, hn, ⟨b₁, hb1, h1⟩, ⟨_, List.getElem?_concat_length, rfl⟩,
    fun i hi _ => hp i hi⟩

theorem settled_snoc (h : ∀ k, Settled log c k) (k : ℕ) : Settled (log ++ [⟨c, none, a⟩]) c k := by
  intro i hi b hb hc hx
  rcases getElem?_snoc hb with hb | ⟨-, rfl⟩
  · obtain ⟨j, hj, b₁, hb1, h1⟩ := h i i le_rfl b hb hc hx
    exact ⟨j, hj, b₁, getElem?_snoc_left hb1, h1⟩
  · exact absurd rfl hx

theorem acknowledged_snoc (h : ∀ k, Settled log c k) (hn : n ≤ log.length) :
    Acknowledged (log ++ [⟨c, none, a⟩]) c n :=
  ⟨log.length, hn, ⟨_, List.getElem?_concat_length, rfl⟩, settled_snoc h _⟩

end Batch

end Ovn

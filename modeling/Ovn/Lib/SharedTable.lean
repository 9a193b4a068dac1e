/-
  A join table that several workers fill at the same time.

  Each worker adds its own list of keys with values.  An add takes the lock of the key's
  bucket, looks for the key, inserts it if it is not there, joins the value to the one that the
  key has, and gives the lock back.  Several buckets may share a lock.  The number of elements
  that the table records is not guarded: a worker reads it and writes it back in two steps.
  Each worker counts its own insertions.

  Whatever the order of the steps, in the end each key is in the table once, with the join of
  all the values added for it, and the workers' counters add up to the number of keys.
-/
import Ovn.Lib.Run
import Ovn.Lib.JoinTable
import Mathlib.Algebra.BigOperators.Fin

namespace Ovn.SharedTable

open JoinTable (Layout Has Ok entries Joins)
open Function (update update_of_ne update_self)

/-- Where a worker is in an add. -/
inductive Pc
  | idle
  | locked
  | missing
  | inserted
  /-- It has read the number of elements. -/
  | loaded (n : ℕ)
  | found
  /-- The value is joined, the lock not given back yet. -/
  | merged
  deriving DecidableEq

structure Worker (κ ν : Type*) where
  todo : List (κ × ν)
  pc : Pc
  counter : ℕ

structure State (κ ν : Type*) (m : ℕ) where
  buckets : ℕ → List (κ × ν)
  n : ℕ
  owner : ℕ → Option (Fin m)
  workers : Fin m → Worker κ ν

variable {κ ν : Type*} {m : ℕ}

def State.setWorker (s : State κ ν m) (i : Fin m) (w : Worker κ ν) : State κ ν m :=
  { s with workers := update s.workers i w }

/-- The next step of a worker; `lockOf` is the lock of a bucket. -/
def next [DecidableEq κ] [Max ν] [Bot ν] (L : Layout κ) (lockOf : ℕ → ℕ) (s : State κ ν m)
    (i : Fin m) : Option (State κ ν m) :=
  let w := s.workers i
  match w.todo with
  | [] => none
  | (k, v) :: rest =>
    let l := lockOf (L.bucketOf k)
    match w.pc with
    | .idle =>
      if s.owner l = none then
        some ({ s with owner := update s.owner l (some i) }.setWorker i
          { w with pc := .locked })
      else none
    | .locked =>
      some (s.setWorker i { w with pc := if Has L s.buckets k then .found else .missing })
    | .missing =>
      some ({ s with buckets := JoinTable.insert L k s.buckets }.setWorker i
        { w with pc := .inserted, counter := w.counter + 1 })
    | .inserted => some (s.setWorker i { w with pc := .loaded s.n })
    | .loaded n => some ({ s with n := n + 1 }.setWorker i { w with pc := .found })
    | .found =>
      some ({ s with buckets := JoinTable.merge L k v s.buckets }.setWorker i
        { w with pc := .merged })
    | .merged =>
      some ({ s with owner := update s.owner l none }.setWorker i
        { w with todo := rest, pc := .idle })

def start (work : Fin m → List (κ × ν)) : State κ ν m where
  buckets _ := []
  n := 0
  owner _ := none
  workers i := ⟨work i, .idle, 0⟩

def system [DecidableEq κ] [Max ν] [Bot ν] (L : Layout κ) (lockOf : ℕ → ℕ)
    (work : Fin m → List (κ × ν)) : System (State κ ν m) (Fin m) :=
  ⟨start work, next L lockOf⟩

def Finished (s : State κ ν m) : Prop := ∀ i, (s.workers i).todo = []

/-! ## What a step can do -/

/-- The steps that change nothing but where their worker is and the recorded number. -/
inductive Moves (L : Layout κ) (s : State κ ν m) (k : κ) : Pc → Pc → Prop
  | hit : Has L s.buckets k → Moves L s k .locked .found
  | miss : ¬ Has L s.buckets k → Moves L s k .locked .missing
  | load (n : ℕ) : Moves L s k .inserted (.loaded n)
  | store (n : ℕ) : Moves L s k (.loaded n) .found

inductive Step [DecidableEq κ] [Max ν] [Bot ν] (L : Layout κ) (lockOf : ℕ → ℕ)
    (s : State κ ν m) (i : Fin m) : State κ ν m → Prop
  | lock {k v rest c} : s.workers i = ⟨(k, v) :: rest, .idle, c⟩ →
      s.owner (lockOf (L.bucketOf k)) = none →
      Step L lockOf s i ({ s with
        owner := update s.owner (lockOf (L.bucketOf k)) (some i) }.setWorker i
          ⟨(k, v) :: rest, .locked, c⟩)
  | move {k v rest pc c} (pc' : Pc) (n : ℕ) : s.workers i = ⟨(k, v) :: rest, pc, c⟩ →
      Moves L s k pc pc' →
      Step L lockOf s i ({ s with n := n }.setWorker i ⟨(k, v) :: rest, pc', c⟩)
  | insert {k v rest c} : s.workers i = ⟨(k, v) :: rest, .missing, c⟩ →
      Step L lockOf s i ({ s with buckets := JoinTable.insert L k s.buckets }.setWorker i
        ⟨(k, v) :: rest, .inserted, c + 1⟩)
  | merge {k v rest c} : s.workers i = ⟨(k, v) :: rest, .found, c⟩ →
      Step L lockOf s i ({ s with buckets := JoinTable.merge L k v s.buckets }.setWorker i
        ⟨(k, v) :: rest, .merged, c⟩)
  | unlock {k v rest c} : s.workers i = ⟨(k, v) :: rest, .merged, c⟩ → Step L lockOf s i ({ s with
        owner := update s.owner (lockOf (L.bucketOf k)) none }.setWorker i
          ⟨rest, .idle, c⟩)

section
variable [DecidableEq κ] [Max ν] [Bot ν] {L : Layout κ} {lockOf : ℕ → ℕ} {s s' : State κ ν m}
  {i : Fin m}

theorem step_of_next (h : next L lockOf s i = some s') : Step L lockOf s i s' := by
  unfold next at h
  match hw : s.workers i with
  | ⟨[], pc, c⟩ => simp [hw] at h
  | ⟨(k, v) :: rest, pc, c⟩ =>
    simp only [hw] at h
    cases pc with
    | idle =>
      simp only at h
      split at h
      · cases h
        exact .lock hw ‹_›
      · cases h
    | locked =>
      cases h
      refine .move _ s.n hw ?_
      split
      · exact .hit ‹_›
      · exact .miss ‹_›
    | missing =>
      cases h
      exact .insert hw
    | inserted =>
      cases h
      exact .move _ s.n hw (.load _)
    | loaded n =>
      cases h
      exact .move _ (n + 1) hw (.store n)
    | found =>
      cases h
      exact .merge hw
    | merged =>
      cases h
      exact .unlock hw

/-- A worker that has work can take a step, unless it waits for a lock. -/
theorem next_isSome {k : κ} {v : ν} {rest : List (κ × ν)} {pc : Pc} {c : ℕ}
    (hw : s.workers i = ⟨(k, v) :: rest, pc, c⟩)
    (h : pc = .idle → s.owner (lockOf (L.bucketOf k)) = none) : (next L lockOf s i).isSome := by
  unfold next
  simp only [hw]
  cases pc with
  | idle => simp [h rfl]
  | locked | missing | inserted | loaded | found | merged => rfl

end

/-! ## The invariant -/

/-- What the worker has not joined yet. -/
def Worker.left (w : Worker κ ν) : List (κ × ν) := if w.pc = .merged then w.todo.tail else w.todo

def Worker.Holds (w : Worker κ ν) (k : κ) : Prop :=
  w.pc ≠ .idle ∧ w.todo.head?.map Prod.fst = some k

/-- The worker has seen to it that the key is in the table, but has not joined its value. -/
def Worker.Inserts (w : Worker κ ν) (k : κ) : Prop :=
  (w.pc = .inserted ∨ (∃ n, w.pc = .loaded n) ∨ w.pc = .found) ∧ w.todo.head?.map Prod.fst = some k

/-- A worker that had to do `work` and has joined `joined`. -/
structure Worker.Ok (L : Layout κ) (buckets : ℕ → List (κ × ν)) (work joined : List (κ × ν))
    (w : Worker κ ν) : Prop where
  split : joined ++ w.left = work
  busy : w.pc ≠ .idle → w.todo ≠ []
  missing : ∀ k, w.pc = .missing → w.Holds k → ¬ Has L buckets k
  inserts : ∀ k, w.Inserts k → Has L buckets k

/-- `joined i` is what worker `i` has joined so far. -/
structure Inv [Preorder ν] (L : Layout κ) (lockOf : ℕ → ℕ)
    (work joined : Fin m → List (κ × ν)) (s : State κ ν m) : Prop where
  worker : ∀ i, (s.workers i).Ok L s.buckets (work i) (joined i)
  owner : ∀ i l, s.owner l = some i ↔ ∃ k, (s.workers i).Holds k ∧ lockOf (L.bucketOf k) = l
  table : Ok L {a | ∃ i, a ∈ joined i} {k | ∃ i, (s.workers i).Inserts k} s.buckets
  count : ∑ i, (s.workers i).counter = ∑ b ∈ Finset.range (L.mask + 1), (s.buckets b).length

theorem inv_start [SemilatticeSup ν] (L : Layout κ) (lockOf : ℕ → ℕ)
    (work : Fin m → List (κ × ν)) : Inv L lockOf work (fun _ => []) (start work) where
  worker i := ⟨by simp [start, Worker.left], fun h => absurd rfl h, fun k h => (nomatch h),
    fun k h => by simp [start, Worker.Inserts] at h⟩
  owner i l := by simp [start, Worker.Holds]
  table := by
    have hjoined : {a : κ × ν | ∃ _ : Fin m, a ∈ []} = ∅ := by
      simp
    rw [hjoined]
    exact (JoinTable.ok_empty L).mono (Set.empty_subset _)
  count := by simp [start]

/-! ## The invariant is kept -/

theorem sum_update {ι α : Type*} [DecidableEq ι] (t : Finset ι) (f : ι → α) (g : α → ℕ) {x : ι}
    (hx : x ∈ t) (a : α) : ∑ y ∈ t, g (update f x a y) + g (f x) = ∑ y ∈ t, g (f y) + g a := by
  have hg : (fun y => g (update f x a y)) = update (fun y => g (f y)) x (g a) := by
    ext y
    exact Function.apply_update (fun _ => g) f x a y
  rw [hg, Finset.sum_update_of_mem hx, Finset.sdiff_singleton_eq_erase,
    ← Finset.add_sum_erase t (fun y => g (f y)) hx]
  omega

theorem mem_update_append {α : Type*} (joined : Fin m → List α) (i : Fin m) (x a : α) :
    (∃ j, a ∈ update joined i (joined i ++ [x]) j) ↔ a = x ∨ ∃ j, a ∈ joined j := by
  rw [Function.exists_update_iff joined (p := fun _ l => a ∈ l), List.mem_append,
    List.mem_singleton]
  grind

section
variable {L : Layout κ} {k k' : κ} {v : ν} {rest : List (κ × ν)} {pc : Pc} {c : ℕ}

theorem holds_cons (hpc : pc ≠ .idle) :
    (⟨(k, v) :: rest, pc, c⟩ : Worker κ ν).Holds k' ↔ k = k' := by
  simp [Worker.Holds, hpc]

theorem inserts_cons : (⟨(k, v) :: rest, pc, c⟩ : Worker κ ν).Inserts k' ↔
    (pc = .inserted ∨ (∃ n, pc = .loaded n) ∨ pc = .found) ∧ k = k' := by
  simp [Worker.Inserts]

theorem inserts_setWorker {s : State κ ν m} {i : Fin m} {w : Worker κ ν}
    (hkeep : (s.workers i).Inserts k' → w.Inserts k') (hex : ∃ j, (s.workers j).Inserts k') :
    ∃ j, (update s.workers i w j).Inserts k' := by
  obtain ⟨j, hj⟩ := hex
  by_cases hji : j = i
  · subst hji
    exact ⟨j, by simpa using hkeep hj⟩
  · exact ⟨j, by simpa [update_of_ne hji] using hj⟩

/-- The other workers do not notice a change that only inserts keys they are not busy with. -/
theorem Worker.Ok.mono {w : Worker κ ν} {buckets buckets' : ℕ → List (κ × ν)}
    {work joined : List (κ × ν)} (h : w.Ok L buckets work joined)
    (hmono : ∀ k, Has L buckets k → Has L buckets' k)
    (hnew : ∀ k, w.Holds k → Has L buckets' k → Has L buckets k) : w.Ok L buckets' work joined :=
  ⟨h.split, h.busy, fun k hpc hk hin => h.missing k hpc hk (hnew k hk hin),
    fun k hk => hmono k (h.inserts k hk)⟩

end

section
variable [SemilatticeSup ν] {L : Layout κ} {lockOf : ℕ → ℕ} {s : State κ ν m} {i : Fin m}
  {work joined : Fin m → List (κ × ν)} {k : κ} {v : ν} {rest : List (κ × ν)} {pc : Pc} {c : ℕ}

section
variable (h : Inv L lockOf work joined s)
include h

/-- Two adds that need the same lock are of the same worker. -/
theorem Inv.exclusive {j : Fin m} {k k' : κ} (hi : (s.workers i).Holds k)
    (hj : (s.workers j).Holds k')
    (hl : lockOf (L.bucketOf k) = lockOf (L.bucketOf k')) : i = j := by
  have hi' := (h.owner i _).2 ⟨k, hi, rfl⟩
  have hj' := (h.owner j _).2 ⟨k', hj, hl.symm⟩
  exact Option.some.inj (hi'.symm.trans hj')

theorem Inv.other_key (hw : s.workers i = ⟨(k, v) :: rest, pc, c⟩) (hpc : pc ≠ .idle) {j : Fin m}
    (hj : j ≠ i) {k' : κ} (hk' : (s.workers j).Holds k') : k' ≠ k := by
  rintro rfl
  have hk : (s.workers i).Holds k' := by
    rw [hw]
    exact (holds_cons hpc).2 rfl
  exact hj (h.exclusive hk' hk rfl)

theorem Inv.count_of_eq {w : Worker κ ν} (hc : w.counter = (s.workers i).counter) :
    ∑ j, (update s.workers i w j).counter =
      ∑ b ∈ Finset.range (L.mask + 1), (s.buckets b).length := by
  have := sum_update Finset.univ s.workers Worker.counter (Finset.mem_univ i) w
  rw [← h.count]
  omega

theorem Inv.worker_update {w w' : Worker κ ν} (hw : s.workers i = w)
    (hi : w.Ok L s.buckets (work i) (joined i) → w'.Ok L s.buckets (work i) (joined i)) :
    ∀ j, (update s.workers i w' j).Ok L s.buckets (work j) (joined j) :=
  (Function.forall_update_iff s.workers (p := fun j w => w.Ok L s.buckets (work j) (joined j))).2
    ⟨hi (hw ▸ h.worker i), fun j _ => h.worker j⟩

theorem Inv.owner_update (owner : ℕ → Option (Fin m)) {w : Worker κ ν}
    (hi : ∀ l, owner l = some i ↔ ∃ k, w.Holds k ∧ lockOf (L.bucketOf k) = l)
    (hother : ∀ j ≠ i, ∀ l, owner l = some j ↔ s.owner l = some j) : ∀ j l, owner l = some j ↔
      ∃ k, (update s.workers i w j).Holds k ∧ lockOf (L.bucketOf k) = l :=
  (Function.forall_update_iff s.workers (p := fun j w => ∀ l, owner l = some j ↔
    ∃ k, w.Holds k ∧ lockOf (L.bucketOf k) = l)).2
    ⟨hi, fun j hj l => (hother j hj l).trans (h.owner j l)⟩

theorem Inv.owner_of_busy (hw : s.workers i = ⟨(k, v) :: rest, pc, c⟩) (hpc : pc ≠ .idle) {pc' : Pc}
    {c' : ℕ} (hpc' : pc' ≠ .idle) : ∀ j l, s.owner l = some j ↔ ∃ k', (update s.workers i
      ⟨(k, v) :: rest, pc', c'⟩ j).Holds k' ∧ lockOf (L.bucketOf k') = l := by
  refine h.owner_update s.owner (fun l => ?_) fun _ _ _ => Iff.rfl
  have hi := h.owner i l
  rw [hw] at hi
  simpa [holds_cons hpc, holds_cons hpc'] using hi

end

section
variable (h : Inv L lockOf work joined s)
include h

theorem Inv.lock (hw : s.workers i = ⟨(k, v) :: rest, .idle, c⟩)
    (ho : s.owner (lockOf (L.bucketOf k)) = none) : Inv L lockOf work joined ({ s with
      owner := update s.owner (lockOf (L.bucketOf k)) (some i) }.setWorker i
        ⟨(k, v) :: rest, .locked, c⟩) where
  worker := h.worker_update hw fun hi => ⟨hi.split, fun _ => List.cons_ne_nil _ _,
    fun k' hm => (nomatch hm), fun k' hk => by simp [inserts_cons] at hk⟩
  owner := by
    refine h.owner_update (update s.owner _ (some i)) (fun l => ?_) fun j hj l => ?_
    · -- before, the worker had no lock
      have hold : s.owner l ≠ some i := fun hl => by
        obtain ⟨k', hk', -⟩ := (h.owner i l).1 hl
        simp [hw, Worker.Holds] at hk'
      by_cases hl : l = lockOf (L.bucketOf k)
      · simp [hl, holds_cons]
      · simp [update_of_ne hl, hold, holds_cons, Ne.symm hl]
    · by_cases hl : l = lockOf (L.bucketOf k)
      · simp [hl, ho, Ne.symm hj]
      · rw [update_of_ne hl]
  table := h.table.mono fun k' => inserts_setWorker fun hk => by simp [hw, inserts_cons] at hk
  count := h.count_of_eq (by rw [hw])

theorem Inv.unlock
    (hw : s.workers i = ⟨(k, v) :: rest, .merged, c⟩) : Inv L lockOf work joined ({ s with
      owner := update s.owner (lockOf (L.bucketOf k)) none }.setWorker i
        ⟨rest, .idle, c⟩) where
  worker := h.worker_update hw fun hi => ⟨hi.split, fun hpc => absurd rfl hpc,
    fun k' hm => (nomatch hm), fun k' hk => by simp [Worker.Inserts] at hk⟩
  owner := by
    have hself : s.owner (lockOf (L.bucketOf k)) = some i := by
      refine (h.owner i _).2 ⟨k, ?_, rfl⟩
      rw [hw]
      exact (holds_cons (by simp)).2 rfl
    refine h.owner_update (update s.owner _ none) (fun l => ?_) fun j hj l => ?_
    · have hidle : ∀ k', ¬ (⟨rest, .idle, c⟩ : Worker κ ν).Holds k' := fun k' hk' => hk'.1 rfl
      by_cases hl : l = lockOf (L.bucketOf k)
      · simp [hl, hidle]
      -- the worker had no other lock
      have hno : s.owner l ≠ some i := fun hol => by
        obtain ⟨k', hk', rfl⟩ := (h.owner i l).1 hol
        rw [hw, holds_cons (by simp)] at hk'
        exact hl (by rw [hk'])
      simp [update_of_ne hl, hno, hidle]
    · by_cases hl : l = lockOf (L.bucketOf k)
      · simp [hl, hself, Ne.symm hj]
      · rw [update_of_ne hl]
  table := h.table.mono fun k' => inserts_setWorker fun hk => by simp [hw, inserts_cons] at hk
  count := h.count_of_eq (by rw [hw])

theorem Inv.move {pc' : Pc} (n : ℕ)
    (hw : s.workers i = ⟨(k, v) :: rest, pc, c⟩) (hm : Moves L s k pc pc') :
    Inv L lockOf work joined ({ s with n := n }.setWorker i ⟨(k, v) :: rest, pc', c⟩) where
  worker := by
    refine h.worker_update hw fun hi => ⟨?_, fun _ => List.cons_ne_nil _ _, fun k' hmiss hk => ?_,
      fun k' hins => ?_⟩
    · have hsplit := hi.split
      cases hm <;> simpa [Worker.left] using hsplit
    · cases hm with
      | hit | load | store => cases hmiss
      | miss hn =>
        obtain rfl := (holds_cons (by simp)).1 hk
        exact hn
    · obtain ⟨hpc, rfl⟩ := inserts_cons.1 hins
      cases hm with
      | hit hin => exact hin
      | miss => simp at hpc
      | load | store => exact hi.inserts k (by simp [inserts_cons])
  owner := h.owner_of_busy hw (by cases hm <;> simp) (by cases hm <;> simp)
  table := h.table.mono fun k' => inserts_setWorker fun hk => by
    cases hm <;> simp_all [inserts_cons]
  count := h.count_of_eq (by rw [hw])

theorem Inv.insert [OrderBot ν] (hw : s.workers i = ⟨(k, v) :: rest, .missing, c⟩) :
    Inv L lockOf work joined ({ s with buckets := JoinTable.insert L k s.buckets }.setWorker i
      ⟨(k, v) :: rest, .inserted, c + 1⟩) := by
  have hi := h.worker i
  rw [hw] at hi
  constructor
  case worker =>
    refine (Function.forall_update_iff s.workers (p := fun j w => w.Ok L
      (JoinTable.insert L k s.buckets) (work j) (joined j))).2
        ⟨⟨hi.split, fun _ => List.cons_ne_nil _ _, fun k' hm => (nomatch hm), fun k' hins => ?_⟩,
          fun j hj => (h.worker j).mono (fun k' hk' => JoinTable.has_insert.2 (.inr hk'))
            fun k' hk' hin => ?_⟩
    · obtain ⟨-, rfl⟩ := inserts_cons.1 hins
      exact JoinTable.has_insert.2 (.inl rfl)
    · exact (JoinTable.has_insert.1 hin).resolve_left (h.other_key hw (by simp) hj hk')
  case owner => exact h.owner_of_busy hw (by simp) (by simp)
  case table =>
    refine (h.table.insert (hi.missing k rfl ((holds_cons (by simp)).2 rfl))).mono ?_
    rintro k' (rfl | hk')
    · exact ⟨i, by simp [State.setWorker, inserts_cons]⟩
    · exact inserts_setWorker (fun hk => by simp [hw, inserts_cons] at hk) hk'
  case count =>
    have hcount := sum_update Finset.univ s.workers Worker.counter (Finset.mem_univ i)
      ⟨(k, v) :: rest, .inserted, c + 1⟩
    have hlen := sum_update (Finset.range (L.mask + 1)) s.buckets List.length
      (Finset.mem_range.2 (Nat.lt_succ_of_le (L.bucketOf_le k)))
      ((k, ⊥) :: s.buckets (L.bucketOf k))
    have hbefore := h.count
    simp only [hw, List.length_cons, State.setWorker, JoinTable.insert] at hcount hlen ⊢
    omega

theorem Inv.merge [DecidableEq κ] (hw : s.workers i = ⟨(k, v) :: rest, .found, c⟩) :
    Inv L lockOf work (update joined i (joined i ++ [(k, v)]))
      ({ s with buckets := JoinTable.merge L k v s.buckets }.setWorker i
        ⟨(k, v) :: rest, .merged, c⟩) := by
  have hi := h.worker i
  rw [hw] at hi
  constructor
  case worker =>
    intro j
    by_cases hj : j = i
    · subst hj
      simp only [State.setWorker, update_self]
      refine ⟨?_, fun _ => List.cons_ne_nil _ _, fun k' hm => (nomatch hm),
        fun k' hk => by simp [inserts_cons] at hk⟩
      have hsplit := hi.split
      simpa [Worker.left] using hsplit
    · simp only [State.setWorker, update_of_ne hj]
      exact (h.worker j).mono (fun k' => JoinTable.has_merge.2) fun k' _ => JoinTable.has_merge.1
  case owner => exact h.owner_of_busy hw (by simp) (by simp)
  case table =>
    have hjoined : {a | ∃ j, a ∈ update joined i (joined i ++ [(k, v)]) j} =
        Insert.insert (k, v) {a | ∃ j, a ∈ joined j} := by
      ext a
      exact mem_update_append joined i (k, v) a
    rw [hjoined]
    refine h.table.merge (hi.inserts k (by simp [inserts_cons])) ?_
    intro k' hk'
    by_cases hk : k' = k
    · exact .inl hk
    · refine .inr (inserts_setWorker (fun hins => ?_) hk')
      rw [hw] at hins
      exact absurd (inserts_cons.1 hins).2.symm hk
  case count =>
    refine (h.count_of_eq (by rw [hw])).trans (Finset.sum_congr rfl fun b _ => ?_)
    have hlen := congrArg List.length (JoinTable.map_fst_merge L k v s.buckets b)
    simp only [List.length_map] at hlen
    exact hlen.symm

end

end

/-! ## Runs -/

def Pc.rank : Pc → ℕ
  | .idle => 6
  | .locked => 5
  | .missing => 4
  | .inserted => 3
  | .loaded _ => 2
  | .found => 1
  | .merged => 0

def Worker.steps (w : Worker κ ν) : ℕ := w.todo.length * 7 + w.pc.rank

def stepsLeft (s : State κ ν m) : ℕ := ∑ i, (s.workers i).steps

theorem stepsLeft_setWorker (s : State κ ν m) (i : Fin m) {w : Worker κ ν}
    (h : w.steps < (s.workers i).steps) : stepsLeft (s.setWorker i w) < stepsLeft s := by
  have := sum_update Finset.univ s.workers Worker.steps (Finset.mem_univ i) w
  unfold stepsLeft State.setWorker
  simp only
  omega

theorem stepsLeft_lt [DecidableEq κ] [Max ν] [Bot ν] {L : Layout κ} {lockOf : ℕ → ℕ}
    {s s' : State κ ν m} {i : Fin m} (hs : Step L lockOf s i s') : stepsLeft s' < stepsLeft s := by
  cases hs with
  | lock hw | insert hw | merge hw =>
    refine stepsLeft_setWorker _ i ?_
    simp [hw, Worker.steps, Pc.rank]
  | move pc' n hw hm =>
    refine stepsLeft_setWorker _ i ?_
    cases hm <;> simp [hw, Worker.steps, Pc.rank]
  | unlock hw =>
    refine stepsLeft_setWorker _ i ?_
    simp only [hw, Worker.steps, Pc.rank, List.length_cons]
    omega

section
variable [DecidableEq κ] [SemilatticeSup ν] [OrderBot ν] {L : Layout κ} {lockOf : ℕ → ℕ}
  {s s' : State κ ν m} {i : Fin m} {work : Fin m → List (κ × ν)}

theorem Inv.step {joined : Fin m → List (κ × ν)} (h : Inv L lockOf work joined s)
    (hs : Step L lockOf s i s') : ∃ joined', Inv L lockOf work joined' s' := by
  cases hs with
  | lock hw ho => exact ⟨joined, h.lock hw ho⟩
  | move pc' n hw hm => exact ⟨joined, h.move n hw hm⟩
  | insert hw => exact ⟨joined, h.insert hw⟩
  | merge hw => exact ⟨_, h.merge hw⟩
  | unlock hw => exact ⟨joined, h.unlock hw⟩

section
variable (h : (system L lockOf work).Reached (fun _ _ => True) s)
include h

theorem inv_reached : ∃ joined, Inv L lockOf work joined s := by
  refine h.invariant (I := fun s => ∃ joined, Inv L lockOf work joined s)
    ⟨_, inv_start L lockOf work⟩ ?_
  rintro s i s' ⟨joined, hs⟩ - hn
  exact hs.step (step_of_next hn)

/-- **The table.** Once all the work is done, the table has each key once, with the join of
    what was added for it, and the counters add up to the number of keys. -/
theorem finished_spec (hf : Finished s) : Ok L {a | ∃ i, a ∈ work i} ∅ s.buckets ∧
      ∑ i, (s.workers i).counter = (entries L s.buckets).length := by
  obtain ⟨joined, hinv⟩ := inv_reached h
  -- everything is joined, and no worker is in an add
  have hwork : joined = work := by
    ext1 i
    have := (hinv.worker i).split
    simpa [Worker.left, hf i] using this
  subst hwork
  refine ⟨hinv.table.mono ?_, ?_⟩
  · rintro k ⟨i, hi⟩
    simp [Worker.Inserts, hf i] at hi
  · rw [hinv.count, entries, List.length_flatMap]
    rfl

/-- **No deadlock.** As long as there is work, some worker can take a step. -/
theorem finished_or_step : Finished s ∨ ∃ i, (next L lockOf s i).isSome := by
  obtain ⟨joined, hinv⟩ := inv_reached h
  by_cases hf : Finished s
  · exact .inl hf
  -- a worker in an add has its lock; if there is none, all the locks are free
  right
  obtain ⟨i, hi⟩ := not_forall.1 hf
  by_cases hbusy : ∃ j, (s.workers j).pc ≠ .idle
  · obtain ⟨j, hj⟩ := hbusy
    match hw : s.workers j with
    | ⟨[], pc, c⟩ =>
      have := (hinv.worker j).busy hj
      simp [hw] at this
    | ⟨(k, v) :: rest, pc, c⟩ =>
      refine ⟨j, next_isSome hw fun hpc => ?_⟩
      rw [hw] at hj
      exact absurd hpc hj
  · match hw : s.workers i with
    | ⟨[], pc, c⟩ => simp [hw] at hi
    | ⟨(k, v) :: rest, pc, c⟩ =>
      refine ⟨i, next_isSome hw fun _ => ?_⟩
      rcases ho : s.owner (lockOf (L.bucketOf k)) with _ | j
      · rfl
      · obtain ⟨k', hk', -⟩ := (hinv.owner j _).1 ho
        exact absurd ⟨j, hk'.1⟩ hbusy

end

/-- From every state that is reached, the work can be finished. -/
theorem exists_finished (h : (system L lockOf work).Reached (fun _ _ => True) s) :
    ∃ s', (system L lockOf work).Reached (fun _ _ => True) s' ∧ Finished s' := by
  induction hn : stepsLeft s using Nat.strong_induction_on generalizing s with
  | _ n ih =>
    rcases finished_or_step h with hf | ⟨i, hi⟩
    · exact ⟨s, h, hf⟩
    · obtain ⟨s', hs'⟩ := Option.isSome_iff_exists.1 hi
      exact ih _ (hn ▸ stepsLeft_lt (step_of_next hs')) (h.step trivial hs') rfl

end

end Ovn.SharedTable

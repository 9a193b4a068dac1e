/-
  Conjunction ids (controller/lflow-conj-ids.c): the search of `lflow_conj_ids_alloc` for
  consecutive ids that are free, and the indexes of what is allocated.

  The search goes on from the id that it starts with, and from 1 when it has come to the last id.
  It ends where it started, so that free ids on both sides of the start are not seen as
  one range.
-/
import Ovn.Lib.Ends
import Mathlib.Data.List.Perm.Lattice
import Mathlib.Order.Interval.Finset.Nat

namespace Ovn.ConjIds

/-- How the inner loop ends: all ids are free, it has come back to the start, or an id is not. -/
inductive Scan where
  | available
  | exhausted
  | conflict (conjId : ℕ)

/-- The inner loop, for the ids from `conjId` on. -/
def scan (allocations : Finset ℕ) (initialId : ℕ) : ℕ → ℕ → Bool → Scan
  | 0, _, _ => .available
  | i + 1, conjId, initial =>
    if conjId = 0 then .conflict 0
    else if !initial && conjId = initialId then .exhausted
    else if conjId ∈ allocations then .conflict conjId
    else scan allocations initialId i ((conjId + 1) % 2 ^ 32) false

/-- The outer loop, for at most `fuel` turns.  It is no longer `initial` after the first one. -/
def search (allocations : Finset ℕ) (initialId nConjs : ℕ) : ℕ → ℕ → Bool → Option ℕ
  | 0, _, _ => none
  | fuel + 1, start, initial =>
    let startConjId := if start = 0 then 1 else start
    match scan allocations initialId nConjs startConjId initial with
    | .available => some startConjId
    | .exhausted => some 0
    | .conflict conjId => search allocations initialId nConjs fuel ((conjId + 1) % 2 ^ 32) false

def initialId (hash : ℕ) : ℕ := if hash = 0 then 1 else hash

/-- The result of `lflow_conj_ids_alloc`, if `2 ^ 33` turns are enough. -/
def lflowConjIdsAlloc (allocations : Finset ℕ) (hash nConjs : ℕ) : Option ℕ :=
  if nConjs = 0 then some 0
  else search allocations (initialId hash) nConjs (2 ^ 33) (initialId hash) true

def Free (allocations : Finset ℕ) (nConjs s : ℕ) : Prop :=
  1 ≤ s ∧ s + nConjs ≤ 2 ^ 32 ∧ ∀ k, s ≤ k → k < s + nConjs → k ∉ allocations

/-- What is to be returned: the start of a free range, or `0` if there is none. -/
def Right (allocations : Finset ℕ) (nConjs r : ℕ) : Prop :=
  r ≠ 0 ∧ Free allocations nConjs r ∨ r = 0 ∧ ∀ s, ¬ Free allocations nConjs s

/-- The range has no ids on both sides of the start. -/
def Aside (initialId nConjs s : ℕ) : Prop := initialId ≤ s ∨ s + nConjs ≤ initialId

def Finds (allocations : Finset ℕ) (initialId nConjs r : ℕ) : Prop :=
  r ≠ 0 ∧ Free allocations nConjs r ∧ Aside initialId nConjs r ∨
    r = 0 ∧ ∀ s, Free allocations nConjs s → ¬ Aside initialId nConjs s

/-- How the inner loop ends from `c` on, with the first id that it stops at. -/
def Scanned (A : Finset ℕ) (init i c : ℕ) (initial : Bool) : Scan → Prop
  | .available => c + i ≤ 2 ^ 32 ∧
    ∀ k, c ≤ k → k < c + i → k ∉ A ∧ (k = init → initial = true ∧ k = c)
  | .exhausted => c ≤ init ∧ init < c + i ∧ (initial = true → init ≠ c)
  | .conflict q => ∃ p, q = p % 2 ^ 32 ∧ c ≤ p ∧ p < c + i ∧ p ≤ 2 ^ 32 ∧
    (p = 2 ^ 32 ∨ p ∈ A) ∧ (c ≤ init → init ≤ p → initial = true ∧ init = c)

variable {A : Finset ℕ} {init n : ℕ}

theorem Scanned.next {i c : ℕ} {initial : Bool} {r : Scan} (h : Scanned A init i (c + 1) false r)
    (hA : c ∉ A) (hfirst : c = init → initial = true) : Scanned A init (i + 1) c initial r := by
  cases r with
  | available =>
    refine ⟨by have := h.1; omega, fun k hk hlt => ?_⟩
    obtain rfl | hck := hk.eq_or_lt
    · exact ⟨hA, fun hi => ⟨hfirst hi, rfl⟩⟩
    · have := h.2 k hck (by omega)
      exact ⟨this.1, fun hi => by simpa using this.2 hi⟩
  | exhausted =>
    exact ⟨by have := h.1; omega, by have := h.2.1; omega, fun _ => by have := h.1; omega⟩
  | conflict q =>
    obtain ⟨p, hq, hcp, hlt, hle, hp, hi⟩ := h
    refine ⟨p, hq, by omega, by omega, hle, hp, fun h1 h2 => ?_⟩
    obtain rfl | hck := h1.eq_or_lt
    · exact ⟨hfirst rfl, rfl⟩
    · simpa using hi hck h2

/-- The inner loop from `c` on; the id after the last one is `0`. -/
theorem scan_spec (hinit : init < 2 ^ 32) : ∀ (i c : ℕ) (initial : Bool), 1 ≤ c → c ≤ 2 ^ 32 →
    Scanned A init i c initial (scan A init i (c % 2 ^ 32) initial)
  | 0, c, initial, hc, hle => ⟨hle, fun k hk hlt => absurd hk (by omega)⟩
  | i + 1, c, initial, hc, hle => by
    unfold scan
    obtain rfl | hlt := hle.eq_or_lt
    · rw [Nat.mod_self]
      exact ⟨2 ^ 32, by simp, le_rfl, by omega, le_rfl, .inl rfl, fun h => absurd h (by omega)⟩
    rw [Nat.mod_eq_of_lt hlt, if_neg (by omega)]
    split
    next h =>
      simp only [Bool.and_eq_true, Bool.not_eq_eq_eq_not, decide_eq_true_eq] at h
      exact ⟨by omega, by omega, by simp [h]⟩
    next h =>
      have hfirst : c = init → initial = true := by
        rintro rfl
        simpa using h
      split
      next hA =>
        exact ⟨c, (Nat.mod_eq_of_lt hlt).symm, le_rfl, by omega, hle, .inr hA,
          fun h1 h2 => ⟨hfirst (by omega), by omega⟩⟩
      next hA => exact (scan_spec hinit i (c + 1) false (by omega) (by omega)).next hA hfirst

/-- The start of a turn: what lies behind it is no free range. -/
def Turn (A : Finset ℕ) (init n s : ℕ) (initial : Bool) (fuel : ℕ) : Prop :=
  init ≤ s ∧ s < 2 ^ 32 ∧ 2 ^ 33 ≤ s + fuel ∧ (s = init ↔ initial = true) ∧
      (∀ x, Free A n x → init ≤ x → s ≤ x) ∨
    1 ≤ s ∧ s ≤ init ∧ initial = false ∧ 2 ^ 32 ≤ s + fuel ∧
      ∀ x, Free A n x → Aside init n x → s ≤ x ∧ x + n ≤ init

theorem search_spec (hn : 0 < n) (hpos : 1 ≤ init) (hinit : init < 2 ^ 32) :
    ∀ {fuel t : ℕ} {initial : Bool}, Turn A init n (if t = 0 then 1 else t) initial fuel →
      ∃ r, search A init n fuel t initial = some r ∧ Finds A init n r
  | 0, t, initial, h => by
    unfold Turn at h
    omega
  | fuel + 1, t, initial, h => by
    unfold search
    dsimp only
    generalize (if t = 0 then 1 else t) = s at h ⊢
    have hs : 1 ≤ s ∧ s < 2 ^ 32 := by
      unfold Turn at h
      omega
    have hscan := scan_spec (A := A) hinit n s initial hs.1 hs.2.le
    rw [Nat.mod_eq_of_lt hs.2] at hscan
    split
    next heq =>
      rw [heq] at hscan
      refine ⟨s, rfl, .inl ⟨by omega, ⟨hs.1, hscan.1, fun k hk hlt => (hscan.2 k hk hlt).1⟩, ?_⟩⟩
      obtain h | ⟨-, hle, hfalse, -⟩ := h
      · exact .inl h.1
      · refine .inr (not_lt.1 fun hlt => ?_)
        simpa [hfalse] using (hscan.2 init hle hlt).2 rfl
    next heq =>
      rw [heq] at hscan
      refine ⟨0, rfl, .inr ⟨rfl, fun x hx hax => ?_⟩⟩
      obtain ⟨hle, -, -, hfirst, -⟩ | ⟨-, -, -, -, hx'⟩ := h
      · have heq := hscan.1.antisymm hle
        exact hscan.2.2 (hfirst.1 heq) heq.symm
      · have := hx' x hx hax
        have := hscan.2.1
        omega
    next q heq =>
      rw [heq] at hscan
      obtain ⟨p, rfl, hsp, hpn, hple, hp, hmeet⟩ := hscan
      have hbehind : ∀ x, Free A n x → s ≤ x → p < x := by
        intro x hx hsx
        by_contra hxp
        obtain rfl | hA := hp
        · have := hx.2.1
          omega
        · exact hx.2.2 p (by omega) (by omega) hA
      have hgo (hp1 : p + 1 < 2 ^ 32) : (p % 2 ^ 32 + 1) % 2 ^ 32 = p + 1 := by
        rw [Nat.mod_eq_of_lt (show p < 2 ^ 32 by omega), Nat.mod_eq_of_lt hp1]
      refine search_spec hn hpos hinit ?_
      obtain ⟨hle, -, hfuel, -, hleft⟩ | ⟨-, hle, rfl, hfuel, hleft⟩ := h
      · by_cases hp1 : p + 1 < 2 ^ 32
        · rw [hgo hp1, if_neg (by omega)]
          refine .inl ⟨by omega, hp1, by omega, by simp; omega, fun x hx hix => ?_⟩
          exact hbehind x hx (hleft x hx hix)
        · -- the last id, or the one after it: on from 1
          rw [show (if (p % 2 ^ 32 + 1) % 2 ^ 32 = 0 then 1 else (p % 2 ^ 32 + 1) % 2 ^ 32) = 1 by
            split <;> omega]
          refine .inr ⟨le_rfl, hpos, rfl, by omega, fun x hx hax => ⟨hx.1, ?_⟩⟩
          refine hax.resolve_left fun hix => ?_
          have := hbehind x hx (hleft x hx hix)
          have := hx.2.1
          omega
      · have hpi : p < init := not_le.1 fun h => by simpa using hmeet hle h
        rw [hgo (by omega), if_neg (by omega)]
        refine .inr ⟨by omega, hpi, rfl, by omega, fun x hx hax => ?_⟩
        exact ⟨hbehind x hx (hleft x hx hax).1, (hleft x hx hax).2⟩

theorem lflowConjIdsAlloc_spec (A : Finset ℕ) {hash : ℕ} (hh : hash < 2 ^ 32) (hn : 0 < n) :
    ∃ r, lflowConjIdsAlloc A hash n = some r ∧ Finds A (initialId hash) n r := by
  have hpos : 1 ≤ initialId hash ∧ initialId hash < 2 ^ 32 := by
    unfold initialId
    split <;> omega
  rw [lflowConjIdsAlloc, if_neg (by omega)]
  refine search_spec hn hpos.1 hpos.2 ?_
  rw [if_neg (by omega)]
  exact .inl ⟨le_rfl, hpos.2, by omega, by simp, fun x _ h => h⟩

/-- **The search** is right if and only if some free range lies on one side of the start, or there
is none at all. -/
theorem lflowConjIdsAlloc_right_iff (A : Finset ℕ) {hash n : ℕ} (hh : hash < 2 ^ 32) (hn : 0 < n) :
    (∃ r, lflowConjIdsAlloc A hash n = some r ∧ Right A n r) ↔
      ((∃ s, Free A n s) → ∃ s, Free A n s ∧ Aside (initialId hash) n s) := by
  obtain ⟨r, hr, hfinds⟩ := lflowConjIdsAlloc_spec A hh hn
  simp only [hr, Option.some_inj, exists_eq_left']
  obtain ⟨h0, hfree, haside⟩ | ⟨rfl, hnone⟩ := hfinds
  · exact iff_of_true (.inl ⟨h0, hfree⟩) fun _ => ⟨r, hfree, haside⟩
  · constructor
    · rintro (⟨h0, -⟩ | ⟨-, h⟩) ⟨s, hs⟩
      exacts [absurd rfl h0, absurd hs (h s)]
    · refine fun h => .inr ⟨rfl, fun s hs => ?_⟩
      obtain ⟨x, hx, hax⟩ := h ⟨s, hs⟩
      exact hnone x hx hax

/-- All ids but two. -/
def allBut (a : ℕ) : Finset ℕ := Finset.range (2 ^ 32) \ {a, a + 1}

theorem free_allBut {a : ℕ} (ha : 1 ≤ a) (hle : a + 2 ≤ 2 ^ 32) (s : ℕ) :
    Free (allBut a) 2 s ↔ s = a := by
  simp only [Free, allBut, Finset.mem_sdiff, Finset.mem_range, Finset.mem_insert,
    Finset.mem_singleton]
  constructor
  · rintro ⟨-, hs, h⟩
    have := h s
    have := h (s + 1)
    omega
  · rintro rfl
    exact ⟨ha, hle, fun k _ _ => by omega⟩

/-- The search goes on from 1, and finds the two ids that are left before it is where it started. -/
theorem lflowConjIdsAlloc_right_allBut :
    ∃ r, lflowConjIdsAlloc (allBut 3) 5 2 = some r ∧ Right (allBut 3) 2 r :=
  (lflowConjIdsAlloc_right_iff _ (by decide) (by decide)).2 fun _ =>
    ⟨3, (free_allBut (by decide) (by decide) 3).2 rfl, .inr (by decide)⟩

/-- Two ids are left, and the search starts with the second one. -/
theorem not_right_straddling : ∃ A hash n, hash < 2 ^ 32 ∧ 0 < n ∧
    ¬ ∃ r, lflowConjIdsAlloc A hash n = some r ∧ Right A n r := by
  have hfree (s : ℕ) : Free (allBut 4) 2 s ↔ s = 4 := free_allBut (by decide) (by decide) s
  refine ⟨allBut 4, 5, 2, by decide, by decide, ?_⟩
  rintro ⟨r, hr, hright⟩
  obtain ⟨r', hr', hfinds⟩ := lflowConjIdsAlloc_spec (allBut 4) (show 5 < 2 ^ 32 by decide)
    (show 0 < 2 by decide)
  obtain rfl := Option.some_inj.1 (hr.symm.trans hr')
  simp only [Finds, Right, hfree, Aside] at hfinds hright
  obtain ⟨-, rfl⟩ | ⟨-, h⟩ := hright
  · simp [initialId] at hfinds
  · exact h 4 rfl

/-! ## The indexes -/

open Function (update update_of_ne update_self)
open List

structure Entry where
  lflow : ℕ
  dp : ℕ
  start : ℕ
  nConjs : ℕ
  deriving DecidableEq

/-- `struct conj_ids`, where a flow that is not in `lflow_to_dps` has no datapaths, and how often
`lflow_conj_free_unexpected` was counted. -/
structure State where
  allocations : List ℕ
  lflowConjIds : List Entry
  lflowToDps : ℕ → List Entry
  unexpected : ℕ

/-- The loops over the ids of an entry; the error is a failed assertion. -/
def forIds (f : List ℕ → ℕ → List ℕ) : ℕ → ℕ → List ℕ → Except Unit (List ℕ)
  | 0, _, A => .ok A
  | i + 1, conjId, A =>
    if conjId = 0 then .error () else forIds f i ((conjId + 1) % 2 ^ 32) (f A conjId)

namespace State

variable (s : State)

/-- `lflow_conj_ids_free_`. -/
def free_ (e : Entry) : Except Unit State :=
  if e.nConjs = 0 then .error ()
  else (forIds List.erase e.nConjs e.start s.allocations).map fun A =>
    { s with
      allocations := A
      lflowConjIds := s.lflowConjIds.erase e
      lflowToDps := update s.lflowToDps e.lflow ((s.lflowToDps e.lflow).erase e) }

/-- `lflow_conj_ids_insert_`. -/
def insert_ (e : Entry) : Except Unit State :=
  if e.nConjs = 0 then .error ()
  else (forIds (fun A conjId => conjId :: A) e.nConjs e.start s.allocations).map fun A =>
    { s with
      allocations := A
      lflowConjIds := e :: s.lflowConjIds
      lflowToDps := update s.lflowToDps e.lflow (s.lflowToDps e.lflow ++ [e]) }

def freeForLflowDp (lflow dp : ℕ) : Except Unit State :=
  match s.lflowConjIds.find? fun e => e.lflow = lflow ∧ e.dp = dp with
  | none => .ok s
  | some e => { s with unexpected := s.unexpected + 1 }.free_ e

/-- An allocation, at what `find` finds once the pair has no entry. -/
def allocAt (lflow dp nConjs : ℕ) (find : List ℕ → Option ℕ) : Except Unit State :=
  if nConjs = 0 then .ok s
  else do
    let s ← s.freeForLflowDp lflow dp
    match find s.allocations with
    | none => .ok s
    | some start => s.insert_ ⟨lflow, dp, start, nConjs⟩

inductive Call where
  | alloc (lflow dp : ℕ) (nConjs : UInt32)
  | allocSpecified (lflow dp : ℕ) (start nConjs : UInt32)
  | free (lflow : ℕ)
  | clear

/-- What a call makes of the state, with the hash of a flow and a datapath. -/
def step (hash : ℕ → ℕ → UInt32) : Call → Except Unit State
  | .alloc lflow dp n => s.allocAt lflow dp n.toNat fun A =>
    -- the search always ends, and `0` tells that there is no range
    (lflowConjIdsAlloc A.toFinset (hash lflow dp).toNat n.toNat).filter (· ≠ 0)
  | .allocSpecified lflow dp start n => s.allocAt lflow dp n.toNat fun A =>
    -- the inner loop of the search, which never comes to the id `0`
    match scan A.toFinset 0 n.toNat start.toNat false with
    | .available => some start.toNat
    | _ => none
  | .free lflow => (s.lflowToDps lflow).foldlM free_ s
  | .clear => .ok ⟨[], [], fun _ => [], s.unexpected⟩

def run (hash : ℕ → ℕ → UInt32) (calls : List Call) : Except Unit State :=
  calls.foldlM (·.step hash) ⟨[], [], fun _ => [], 0⟩

end State

def Entry.ids (e : Entry) : List ℕ := range' e.start e.nConjs

/-- The ids that are taken are those of the entries, a flow and a datapath have one entry at most,
and the list of a flow is that of its entries. -/
structure Inv (s : State) : Prop where
  ids : s.allocations.Perm (s.lflowConjIds.flatMap Entry.ids)
  nodup : s.allocations.Nodup
  ranges : ∀ e ∈ s.lflowConjIds, 0 < e.nConjs ∧ 1 ≤ e.start ∧ e.start + e.nConjs ≤ 2 ^ 32
  pairs : (s.lflowConjIds.map fun e => (e.lflow, e.dp)).Nodup
  lists : ∀ l, (s.lflowToDps l).Perm (s.lflowConjIds.filter (·.lflow = l))

theorem inv_empty (k : ℕ) : Inv ⟨[], [], fun _ => [], k⟩ :=
  ⟨.nil, nodup_nil, nofun, nodup_nil, fun _ => .nil⟩

theorem forIds_eq (f : List ℕ → ℕ → List ℕ) : ∀ {i c : ℕ} {A : List ℕ}, 1 ≤ c → c + i ≤ 2 ^ 32 →
    forIds f i c A = .ok ((range' c i).foldl f A)
  | 0, _, _, _, _ => rfl
  | 1, c, _, hc, _ => by simp [forIds, show c ≠ 0 by omega]
  | i + 2, c, A, hc, hle => by
    rw [forIds, if_neg (by omega), Nat.mod_eq_of_lt (by omega), forIds_eq f (by omega) (by omega)]
    rfl

theorem perm_foldl_erase : ∀ {t A r : List ℕ}, A.Perm (t ++ r) → (t.foldl List.erase A).Perm r
  | [], _, _, h => h
  | x :: t, A, r, h => perm_foldl_erase (t := t) (by simpa using h.erase x)

section
variable {s : State} {e : Entry} (h : Inv s)
include h

theorem Inv.free_ (he : e ∈ s.lflowConjIds) : Ends (fun _ => False) (fun s' => Inv s' ∧
    s'.lflowConjIds = s.lflowConjIds.erase e ∧
    s'.lflowToDps e.lflow = (s.lflowToDps e.lflow).erase e) (s.free_ e) := by
  obtain ⟨hn, hs, hle⟩ := h.ranges e he
  have hperm := perm_cons_erase he
  have hids : s.allocations.Perm (e.ids ++ (s.lflowConjIds.erase e).flatMap Entry.ids) :=
    h.ids.trans (hperm.flatMap_right _)
  have herase := perm_foldl_erase hids
  rw [State.free_, if_neg hn.ne', forIds_eq _ hs hle]
  refine ⟨⟨herase, herase.nodup_iff.2 (hids.nodup_iff.1 h.nodup).of_append_right,
    fun x hx => h.ranges x (mem_of_mem_erase hx), h.pairs.sublist (erase_sublist.map _),
      fun l => ?_⟩,
    rfl, update_self ..⟩
  have hl := (h.lists l).trans (hperm.filter _)
  by_cases hel : l = e.lflow
  · subst hel
    simpa using hl.erase e
  · simpa [hel, Ne.symm hel] using hl

theorem Inv.insert_ (hn : 0 < e.nConjs) (hfree : Free s.allocations.toFinset e.nConjs e.start)
    (hnew : ∀ x ∈ s.lflowConjIds, ¬ (x.lflow = e.lflow ∧ x.dp = e.dp)) :
    Ends (fun _ => False) Inv (s.insert_ e) := by
  have hids : (e.ids.foldl (fun A c => c :: A) s.allocations).Perm (e.ids ++ s.allocations) := by
    simp [(reverse_perm e.ids).append_right]
  rw [State.insert_, if_neg hn.ne', forIds_eq _ hfree.1 hfree.2.1]
  refine ⟨hids.trans (h.ids.append_left _), hids.nodup_iff.2
    (nodup_append'.2 ⟨nodup_range', h.nodup, ?_⟩),
    forall_mem_cons.2 ⟨⟨hn, hfree.1, hfree.2.1⟩, h.ranges⟩, nodup_cons.2 ⟨?_, h.pairs⟩, fun l => ?_⟩
  · intro k hk
    rw [Entry.ids, mem_range'_1] at hk
    simpa using hfree.2.2 k hk.1 hk.2
  · simpa using hnew
  · by_cases hel : l = e.lflow
    · subst hel
      simpa using (perm_append_singleton e _).trans ((h.lists _).cons e)
    · simpa [hel, Ne.symm hel] using h.lists l

theorem Inv.freeForLflowDp (lflow dp : ℕ) : Ends (fun _ => False) (fun s' => Inv s' ∧
    ∀ x ∈ s'.lflowConjIds, ¬ (x.lflow = lflow ∧ x.dp = dp)) (s.freeForLflowDp lflow dp) := by
  unfold State.freeForLflowDp
  split
  next hnone => exact ⟨h, by simpa using hnone⟩
  next e hsome =>
    have he := mem_of_find?_eq_some hsome
    have hpair : e.lflow = lflow ∧ e.dp = dp := by simpa using List.find?_some hsome
    have h' : Inv { s with unexpected := s.unexpected + 1 } := ⟨h.ids, h.nodup, h.ranges, h.pairs,
      h.lists⟩
    refine (h'.free_ he).mono fun s' ⟨h1, h2, _⟩ => ⟨h1, fun x hx hxe => ?_⟩
    rw [h2] at hx
    obtain rfl := inj_on_of_nodup_map h.pairs (mem_of_mem_erase hx) he (by simp [hxe, hpair])
    exact h.pairs.of_map.not_mem_erase hx

theorem Inv.allocAt {lflow dp n : ℕ} {find : List ℕ → Option ℕ}
    (hfind : 0 < n → ∀ A start, find A = some start → Free A.toFinset n start) :
    Ends (fun _ => False) Inv (s.allocAt lflow dp n find) := by
  unfold State.allocAt
  split
  · exact h
  next h0 =>
    have hn := Nat.pos_of_ne_zero h0
    refine Ends.bind (h.freeForLflowDp lflow dp) fun t ⟨ht, hnew⟩ => ?_
    split
    · exact ht
    next start hs => exact ht.insert_ hn (hfind hn _ start hs) hnew

/-- **A call** keeps the indexes in order, and no assertion fails. -/
theorem Inv.step (hash : ℕ → ℕ → UInt32) (call : State.Call) :
    Ends (fun _ => False) Inv (s.step hash call) := by
  cases call with
  | alloc lflow dp n =>
    rw [State.step]
    refine h.allocAt fun hn A start hs => ?_
    obtain ⟨r, hr, hfinds⟩ := lflowConjIdsAlloc_spec A.toFinset (hash lflow dp).toNat_lt hn
    simp only [hr, Option.filter_eq_some_iff, Option.some.injEq, decide_eq_true_eq] at hs
    obtain ⟨rfl, h0⟩ := hs
    exact (hfinds.resolve_right fun h => h0 h.1).2.1
  | allocSpecified lflow dp start n =>
    rw [State.step]
    refine h.allocAt fun hn A r hs => ?_
    split at hs
    next hscan =>
      cases hs
      have hstart : 1 ≤ start.toNat := by
        by_contra h0
        rw [← Nat.succ_pred_eq_of_pos hn, scan, if_pos (by omega)] at hscan
        cases hscan
      have hspec := scan_spec (A := A.toFinset) (show 0 < 2 ^ 32 by decide) n.toNat _ false hstart
        start.toNat_lt.le
      rw [Nat.mod_eq_of_lt start.toNat_lt, hscan] at hspec
      exact ⟨hstart, hspec.1, fun k hk hlt => (hspec.2 k hk hlt).1⟩
    · cases hs
  | free lflow =>
    refine (Ends.foldlM (I := fun left t => Inv t ∧ t.lflowToDps lflow = left)
      (fun e left t ⟨ht, hl⟩ => ?_) _ s ⟨h, rfl⟩).mono fun t ht => ht.1
    obtain ⟨he, rfl⟩ : e ∈ t.lflowConjIds ∧ e.lflow = lflow := by
      simpa using (ht.lists lflow).subset (hl ▸ mem_cons_self)
    refine (ht.free_ he).mono fun u hu => ⟨hu.1, ?_⟩
    rw [hu.2.2, hl, erase_cons_head]
  | clear => exact inv_empty _

end

/-- **Every run** of calls keeps the indexes in order and fails no assertion. -/
theorem conjIds_consistent (hash : ℕ → ℕ → UInt32) (calls : List State.Call) :
    ∃ s, State.run hash calls = .ok s ∧ Inv s :=
  (Ends.foldlM (I := fun _ => Inv) (fun call _ _ hs => hs.step hash call) calls _
    (inv_empty 0)).exists_ok

/-- A range is asked for twice. -/
theorem not_unexpected_free : ∃ hash calls, (State.run hash calls).map (·.unexpected) = .ok 1 :=
  ⟨fun _ _ => 0, [.allocSpecified 1 1 5 2, .allocSpecified 1 1 5 2], rfl⟩

end Ovn.ConjIds

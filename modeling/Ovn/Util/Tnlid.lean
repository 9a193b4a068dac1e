/-
  Tunnel ids (lib/ovn-util.c): `ovn_add_tnlid`, `next_tnlid` and
  `ovn_allocate_tnlid`, on 32-bit numbers.

  * `Ends`: the loop, standing at an id, ends with a result; `ends_iff` is one turn
    of it and `search` what it does on a stretch of ids.
  * `ovnAllocateTnlid_allocates_iff`: the allocation does what it is for exactly
    if the hint it starts from is `Usable`.
-/
import Mathlib.Algebra.Ring.Int.Defs
import Mathlib.Data.Finset.Sum

namespace Ovn.Tnlid

/-- An `int` that is assigned to a `uint32_t`. -/
def toUint32 (i : ℤ) : ℕ := (i % 2 ^ 32).toNat

/-- `next_tnlid`; the sum is one of 32 bits. -/
def nextTnlid (tnlid min max : ℕ) : ℕ :=
  if (tnlid + 1) % 2 ^ 32 ≤ max then (tnlid + 1) % 2 ^ 32 else min

/-- `ovn_add_tnlid`: the set, and whether the id was added. -/
def ovnAddTnlid (set : Finset ℕ) (tnlid : ℕ) : Finset ℕ × Bool :=
  if tnlid ∈ set then (set, false) else (insert tnlid set, true)

/-- What `ovn_allocate_tnlid` leaves: the set, the id it returns and the hint. -/
structure Result where
  set : Finset ℕ
  tnlid : ℕ
  hint : ℕ
  deriving DecidableEq

def loop (set : Finset ℕ) (min max hint : ℕ) : ℕ → ℕ → Option Result
  | 0, _ => none
  | fuel + 1, tnlid =>
    let (set, added) := ovnAddTnlid set tnlid
    if added then some ⟨set, tnlid, tnlid⟩
    else
      let tnlid := nextTnlid tnlid min max
      if tnlid ≠ hint then loop set min max hint fuel tnlid else some ⟨set, 0, hint⟩

/-- `ovn_allocate_tnlid`, for at most `fuel` turns of its loop. -/
def ovnAllocateTnlid (fuel : ℕ) (set : Finset ℕ) (min max hint : ℕ) : Option Result :=
  let hint := nextTnlid hint min max
  loop set min max hint fuel hint

/-- What an allocation is for: a new id of the range, which is then in the set, or `0` and the
    set as it was if the range is used up. -/
def Right (set : Finset ℕ) (min max : ℕ) (r : Result) : Prop :=
  (min ≤ r.tnlid ∧ r.tnlid ≤ max ∧ r.tnlid ∉ set ∧ r.set = insert r.tnlid set) ∨
    (r.tnlid = 0 ∧ r.set = set ∧ ∀ k, min ≤ k → k ≤ max → k ∈ set)

def Allocates (set : Finset ℕ) (min max hint : ℕ) : Prop :=
  ∃ r, (∃ fuel, ovnAllocateTnlid fuel set min max hint = some r) ∧ Right set min max r

/-- The normalized hint `h` is one the search can start from: nothing is free from it
    up to the range; if the range ends with the largest number, where the sum wraps to
    `0`, something is free before the wrap or nothing below the range; and if the hint
    is below a range that does not, so that the search never comes back to it, something
    is free in the range. -/
structure Usable (set : Finset ℕ) (min max h : ℕ) : Prop where
  upto : ∀ k, h ≤ k → k < min → k ∈ set
  wrap : max + 1 = 2 ^ 32 → (∀ k < min, k ∈ set) ∨ ∃ f, min ≤ f ∧ h ≤ f ∧ f ≤ max ∧ f ∉ set
  back : max + 1 < 2 ^ 32 → h < min → ∃ f, min ≤ f ∧ f ≤ max ∧ f ∉ set

section
variable {set : Finset ℕ} {min max h : ℕ} {r : Result}

/-- The loop, standing at `t`, ends with `r`. -/
def Ends (set : Finset ℕ) (min max h t : ℕ) (r : Result) : Prop :=
  ∃ fuel, loop set min max h fuel t = some r

theorem ends_iff {t : ℕ} : Ends set min max h t r ↔ if t ∉ set then ⟨insert t set, t, t⟩ = r
    else if nextTnlid t min max = h then ⟨set, 0, h⟩ = r
    else Ends set min max h (nextTnlid t min max) r := by
  have hsucc : Ends set min max h t r ↔ ∃ n, loop set min max h (n + 1) t = some r := by
    refine ⟨?_, fun ⟨n, hn⟩ => ⟨_, hn⟩⟩
    rintro ⟨_ | n, hn⟩
    · cases hn
    · exact ⟨n, hn⟩
  rw [hsucc]
  simp only [loop, ovnAddTnlid]
  split_ifs <;> simp_all [Ends]

theorem nextTnlid_of_lt {t : ℕ} (ht : t < max) (hmax : max < 2 ^ 32) :
    nextTnlid t min max = t + 1 := by
  rw [nextTnlid, Nat.mod_eq_of_lt (by omega), if_pos (by omega)]

/-- On the ids from `a` to `b`, with the hint not after `a`, the loop finds the first
    free one or goes on after `b`. -/
theorem search (set : Finset ℕ) (min : ℕ) (hmax : max < 2 ^ 32) {a b : ℕ} (hab : a ≤ b)
    (hb : b ≤ max)
    (hh : h ≤ a ∨ b < h) : (∃ f, a ≤ f ∧ f ≤ b ∧ f ∉ set ∧ (∀ k, a ≤ k → k < f → k ∈ set) ∧
      ∀ r, Ends set min max h a r ↔ ⟨insert f set, f, f⟩ = r) ∨
    ((∀ k, a ≤ k → k ≤ b → k ∈ set) ∧ ∀ r, Ends set min max h a r ↔
      if nextTnlid b min max = h then ⟨set, 0, h⟩ = r
      else Ends set min max h (nextTnlid b min max) r) := by
  induction b, hab using Nat.le_induction with
  | base =>
    by_cases ha : a ∈ set
    · refine .inr ⟨fun k h1 h2 => le_antisymm h2 h1 ▸ ha, fun r => ?_⟩
      rw [ends_iff, if_neg (not_not.2 ha)]
    · refine .inl ⟨a, le_rfl, le_rfl, ha, fun k h1 h2 => (by omega), fun r => ?_⟩
      rw [ends_iff, if_pos ha]
  | succ b hab ih =>
    obtain ⟨f, h1, h2, hf⟩ | ⟨hused, hends⟩ := ih (by omega) (by omega)
    · exact .inl ⟨f, h1, by omega, hf⟩
    simp only [nextTnlid_of_lt hb hmax, if_neg (show b + 1 ≠ h by omega)] at hends
    by_cases hb : b + 1 ∈ set
    · refine .inr ⟨fun k h1 h2 => ?_, fun r => ?_⟩
      · obtain hk | rfl := Nat.le_succ_iff.1 h2
        · exact hused k h1 hk
        · exact hb
      · rw [hends, ends_iff, if_neg (not_not.2 hb)]
    · refine .inl ⟨b + 1, by omega, le_rfl, hb, fun k h1 h2 => hused k h1 (by omega), fun r => ?_⟩
      rw [hends, ends_iff, if_pos hb]

/-- A hint below the range is not met again. -/
theorem not_ends (hh : h < min) (hle : min ≤ max) (hlt : max + 1 < 2 ^ 32)
    (hused : ∀ k, h ≤ k → k ≤ max → k ∈ set) : ¬ Ends set min max h h r := by
  suffices hnone : ∀ fuel t, h ≤ t → t ≤ max → loop set min max h fuel t = none by
    rintro ⟨fuel, hr⟩
    rw [hnone fuel h le_rfl (by omega)] at hr
    cases hr
  intro fuel
  induction fuel with
  | zero => exact fun _ _ _ => rfl
  | succ n ih =>
    intro t h1 h2
    have hnext : h < nextTnlid t min max ∧ nextTnlid t min max ≤ max := by
      unfold nextTnlid
      split_ifs <;> omega
    simp [loop, ovnAddTnlid, hused t h1 h2, hnext.1.ne', ih _ hnext.1.le hnext.2]

theorem right_found {f : ℕ} (hf : f ≤ max) (hfree : f ∉ set) :
    Right set min max ⟨insert f set, f, f⟩ ↔ min ≤ f := by
  simp [Right, hf, hfree]

theorem right_full (h1 : 1 ≤ min) :
    Right set min max ⟨set, 0, h⟩ ↔ ∀ k, min ≤ k → k ≤ max → k ∈ set := by
  simp [Right, show min ≠ 0 by omega]

end

/-- **The allocation does what it is for** exactly if its normalized hint is usable. -/
theorem ovnAllocateTnlid_allocates_iff (set : Finset ℕ) (min max hint : ℕ) (h1 : 1 ≤ min)
    (hle : min ≤ max) (hmax : max ≤ 2 ^ 32 - 1) :
    Allocates set min max hint ↔ Usable set min max (nextTnlid hint min max) := by
  have hmax : max < 2 ^ 32 := by omega
  have hh : nextTnlid hint min max ≤ max := by
    unfold nextTnlid
    split_ifs <;> omega
  change (∃ r, Ends set min max (nextTnlid hint min max) (nextTnlid hint min max) r ∧ _) ↔ _
  generalize nextTnlid hint min max = h at hh
  obtain ⟨f, hf1, hf2, hfree, hfirst, hends⟩ | ⟨hused, hends⟩ :=
    search set min hmax hh le_rfl (.inl le_rfl)
  · -- found on the way from the hint to the end of the range
    simp only [hends, exists_eq_left', right_found hf2 hfree]
    refine ⟨fun hf => ⟨fun k hk1 hk2 => hfirst k hk1 (by omega),
      fun _ => .inr ⟨f, hf, hf1, hf2, hfree⟩, fun _ _ => ⟨f, hf, hf2, hfree⟩⟩, ?_⟩
    exact fun hok => not_lt.1 fun hlt => hfree (hok.upto f hf1 hlt)
  have hupto : ∀ k, h ≤ k → k < min → k ∈ set := fun k hk _ => hused k hk (by omega)
  have hz : max + 1 = 2 ^ 32 ∧ nextTnlid max min max = 0 ∨
      max + 1 < 2 ^ 32 ∧ nextTnlid max min max = min := by
    unfold nextTnlid
    split_ifs <;> omega
  generalize nextTnlid max min max = z at hz hends
  obtain hzh | rfl | hzh := lt_trichotomy z h
  · -- the search goes on below the hint
    obtain ⟨f, hf1, hf2, hfree, hfirst, hends'⟩ | ⟨hused', hends'⟩ :=
      search (h := h) set min hmax (Nat.le_sub_one_of_lt hzh) (by omega) (by omega)
    · simp only [hends, if_neg hzh.ne, hends', exists_eq_left',
        right_found (by omega : f ≤ max) hfree]
      refine ⟨fun hf => ⟨hupto, fun hm => .inl fun k hk => hfirst k ?_ ?_, ?_⟩, fun hok => ?_⟩
      iterate 3 omega
      by_contra hlt
      obtain hlow | ⟨f', -, hf', hmax', hfree'⟩ := hok.wrap (by omega)
      · exact hfree (hlow f (by omega))
      · exact hfree' (hused f' hf' hmax')
    · have hall : ∀ k, z ≤ k → k ≤ max → k ∈ set := fun k hk1 hk2 => by
        obtain hk | hk := lt_or_ge k h
        · exact hused' k hk1 (by omega)
        · exact hused k hk hk2
      simp only [nextTnlid_of_lt (show h - 1 < max by omega) hmax, Nat.sub_add_cancel
        (Nat.one_le_of_lt hzh),
        if_pos] at hends'
      simp only [hends, if_neg hzh.ne, hends', exists_eq_left', right_full h1]
      refine iff_of_true (fun k hk => hall k ?_) ⟨hupto, fun hm => .inl fun k hk => hall k ?_ ?_,
        ?_⟩ <;>
        omega
  · simp only [if_pos] at hends
    simp only [hends, exists_eq_left', right_full h1]
    refine iff_of_true (fun k hk => hused k ?_) ⟨hupto, fun hm => .inl fun k hk => hused k ?_ ?_,
      ?_⟩ <;>
      omega
  · -- the hint is below the range and not met again
    have hm : max + 1 < 2 ^ 32 ∧ z = min := by omega
    refine iff_of_false (fun ⟨r, hr, _⟩ => not_ends (by omega) hle hm.1 hused hr) fun hok => ?_
    obtain ⟨f, hf1, hf2, hfree⟩ := hok.back hm.1 (by omega)
    exact hfree (hused f (by omega) hf2)

/-! ## How long the loop takes -/

section
variable {set : Finset ℕ} {max hint : ℕ}

/-- How many ids there are from one on to the hint, around the end of the range. -/
def distance (max hint t : ℕ) : ℕ := if t < hint then hint - t else max - t + hint

/-- The loop ends within as many turns, with an id that is free or none if there is none. -/
theorem loop_of_distance_le (hmax : max + 1 < 2 ^ 32) (hhint : 1 ≤ hint ∧ hint ≤ max) {fuel t : ℕ}
    (ht : 1 ≤ t ∧ t ≤ max) (hfuel : distance max hint t ≤ fuel) :
    (∃ k, loop set 1 max hint fuel t = some ⟨insert k set, k, k⟩ ∧ k ∉ set ∧ 1 ≤ k ∧ k ≤ max) ∨
    loop set 1 max hint fuel t = some ⟨set, 0, hint⟩ ∧
      ∀ k, 1 ≤ k → k ≤ max → distance max hint k ≤ distance max hint t → k ∈ set := by
  induction fuel generalizing t with
  | zero =>
    unfold distance at hfuel
    split at hfuel <;> omega
  | succ fuel ih =>
    by_cases hin : t ∈ set
    · have hnext : distance max hint t = (if nextTnlid t 1 max = hint then 1
          else distance max hint (nextTnlid t 1 max) + 1) ∧
          1 ≤ nextTnlid t 1 max ∧ nextTnlid t 1 max ≤ max := by
        unfold nextTnlid distance
        rw [Nat.mod_eq_of_lt (by omega)]
        split_ifs <;> omega
      have hself : ∀ k, 1 ≤ k → k ≤ max → distance max hint k = distance max hint t → k ∈ set := by
        intro k h1 h2 heq
        suffices k = t by rwa [this]
        unfold distance at heq
        split at heq <;> split at heq <;> omega
      simp only [loop, ovnAddTnlid, if_pos hin, Bool.false_eq_true, if_false, ne_eq, ite_not]
      split
      · next hend =>
        refine .inr ⟨rfl, fun k h1 h2 hle => hself k h1 h2 ?_⟩
        have hpos : 0 < distance max hint k := by
          unfold distance
          split <;> omega
        rw [if_pos hend] at hnext
        omega
      · next hend =>
        rw [if_neg hend] at hnext
        refine (ih hnext.2 (by omega)).imp_right fun ⟨hloop, hall⟩ => ⟨hloop, fun k h1 h2 hle => ?_⟩
        obtain heq | hlt := hle.eq_or_lt
        · exact hself k h1 h2 heq
        · exact hall k h1 h2 (by omega)
    · refine .inl ⟨t, ?_, hin, ht⟩
      simp [loop, ovnAddTnlid, hin]

/-- **The allocation from `1..max`** ends with a free id, or with none only if there is none. -/
theorem ovnAllocateTnlid_spec (h1 : 1 ≤ max) (hmax : max + 1 < 2 ^ 32) (set : Finset ℕ)
    (hhint : hint + 1 < 2 ^ 32) :
    (∃ k, ovnAllocateTnlid (max + 1) set 1 max hint = some ⟨insert k set, k, k⟩ ∧ k ∉ set ∧ 1 ≤ k ∧
      k ≤ max) ∨
    ∃ h ≤ max, ovnAllocateTnlid (max + 1) set 1 max hint = some ⟨set, 0, h⟩ ∧ ∀ k, 1 ≤ k → k ≤ max →
      k ∈ set := by
  have hnext : 1 ≤ nextTnlid hint 1 max ∧ nextTnlid hint 1 max ≤ max := by
    unfold nextTnlid
    rw [Nat.mod_eq_of_lt hhint]
    split <;> omega
  refine (loop_of_distance_le hmax hnext hnext ?_).imp_right fun ⟨hloop, hall⟩ =>
    ⟨_, hnext.2, hloop, fun k h1 h2 => hall k h1 h2 ?_⟩
  · unfold distance
    split <;> omega
  · unfold distance
    split <;> split <;> omega

/-- From the largest number the search starts at 0, whatever the range. -/
theorem ovnAllocateTnlid_wraps {fuel min : ℕ} (hhint : hint + 1 = 2 ^ 32) (hzero : 0 ∉ set) :
    ovnAllocateTnlid (fuel + 1) set min max hint = some ⟨insert 0 set, 0, 0⟩ := by
  simp [ovnAllocateTnlid, nextTnlid, hhint, loop, ovnAddTnlid, hzero]

end

/-- With one id of the range `1..2` taken, the other one is found. -/
theorem ovnAllocateTnlid_allocates_two : Allocates {1} 1 2 0 :=
  (ovnAllocateTnlid_allocates_iff {1} 1 2 0 le_rfl (by decide) (by decide)).2
    ⟨by decide, fun h => absurd h (by decide), fun _ h => absurd h (by decide)⟩

/-- A hint below the range gives an id that is not of the range. -/
theorem not_allocates_below : ¬ Allocates ∅ 5 9 0 := by
  rintro ⟨r, ⟨_ | fuel, hr⟩, hok⟩
  · cases hr
  · cases hr
    unfold Right at hok
    revert hok
    decide

end Ovn.Tnlid

/-
  MAC address management (northd/ipam.c): `ipam_insert_mac` and
  `ipam_get_unused_mac`, on MAC addresses as 48-bit numbers.

  The probe visits every suffix of the interval, but what it tells an exhausted space by
  is a number of turns that its loop does not make: `ipamGetUnusedMac_right_iff`.
-/
import Mathlib.Data.List.Induction
import Mathlib.Data.Nat.Bitwise

namespace Ovn.Ipam

def macAddrSpace : ℕ := 0xffffff

/-- `mac_prefix`, of which the last three bytes are zero. -/
def macPrefix (oui : ℕ) : ℕ := oui <<< 24

def ipamIsDuplicateMac (macam : List ℕ) (mac64 : ℕ) : Bool := decide (mac64 ∈ macam)

def ipamInsertMac (oui : ℕ) (macam : List ℕ) (ea : Option ℕ) (check : Bool) : List ℕ :=
  match ea with
  | none => macam
  | some mac64 =>
    if (mac64 ^^^ macPrefix oui) >>> 24 ≠ 0 ∨ (check && ipamIsDuplicateMac macam mac64) then macam
    else mac64 :: macam

def macamOf (oui : ℕ) (calls : List (Option ℕ × Bool)) : List ℕ :=
  calls.foldl (fun macam c => ipamInsertMac oui macam c.1 c.2) []

/-- The MAC that is tried in turn `i`.  The sum does not exceed 32 bits. -/
def tentative (oui base i : ℕ) : ℕ := macPrefix oui ||| ((base + i) % (macAddrSpace - 1) + 1)

/-- The loop of `ipam_get_unused_mac` from turn `i` on: where it stops, and with which MAC. -/
def loop (oui : ℕ) (macam : List ℕ) (base : ℕ) : ℕ → ℕ → ℕ → ℕ × ℕ
  | 0, i, mac64 => (i, mac64)
  | left + 1, i, _ =>
    let mac64 := tentative oui base i
    if !ipamIsDuplicateMac macam mac64 then (i, mac64) else loop oui macam base left (i + 1) mac64

def ipamGetUnusedMac (oui : ℕ) (macam : List ℕ) (ip : ℕ) : ℕ :=
  let (i, mac64) := loop oui macam (ip &&& macAddrSpace) (macAddrSpace - 1) 0 0
  if i = macAddrSpace then 0 else mac64

/-- The MACs that may be given out. -/
def Assignable (oui mac : ℕ) :
    Prop := ∃ suffix, 1 ≤ suffix ∧ suffix ≤ 0xfffffe ∧ mac = macPrefix oui ||| suffix

/-- What is to be returned: a MAC that is not in the table, or `0` if there is none left. -/
def Right (oui : ℕ) (macam : List ℕ) (mac : ℕ) : Prop :=
  (Assignable oui mac ∧ mac ∉ macam) ∨ (mac = 0 ∧ ∀ m, Assignable oui m → m ∈ macam)

section
variable {oui : ℕ} (base : ℕ) {macam : List ℕ}

theorem assignable_iff {mac : ℕ} :
    Assignable oui mac ↔ ∃ i < 0xfffffe, mac = tentative oui base i := by
  constructor
  · rintro ⟨s, h1, h2, rfl⟩
    refine ⟨(s - 1 + 0xfffffe - base % 0xfffffe) % 0xfffffe, Nat.mod_lt _ (by decide), ?_⟩
    unfold tentative macAddrSpace
    congr 1
    omega
  · rintro ⟨i, -, rfl⟩
    exact ⟨_, Nat.le_add_left .., Nat.mod_lt _ (by decide), rfl⟩

theorem assignable_ne_zero {mac : ℕ} (h : Assignable oui mac) : mac ≠ 0 := by
  obtain ⟨s, h1, -, rfl⟩ := h
  exact fun h0 => absurd (Nat.or_eq_zero_iff.1 h0).2 (by omega)

/-- The loop stops with one of the MACs it tries, and with one of the table only if all are. -/
theorem loop_spec (left i mac64 : ℕ) : (loop oui macam base (left + 1) i mac64).1 ≤ i + left + 1 ∧
    (∃ k ≤ i + left, (loop oui macam base (left + 1) i mac64).2 = tentative oui base k) ∧
    ((loop oui macam base (left + 1) i mac64).2 ∈ macam →
      ∀ k, i ≤ k → k ≤ i + left → tentative oui base k ∈ macam) := by
  induction left generalizing i mac64 with
  | zero =>
    have hloop : (loop oui macam base 1 i mac64).1 ≤ i + 1 ∧
        (loop oui macam base 1 i mac64).2 = tentative oui base i := by
      simp only [loop]
      split_ifs <;> simp
    rw [hloop.2]
    exact ⟨hloop.1, ⟨i, le_rfl, rfl⟩, fun h k h1 h2 => le_antisymm h2 h1 ▸ h⟩
  | succ left ih =>
    rw [loop]
    by_cases hi : tentative oui base i ∈ macam
    · obtain ⟨hle, ⟨k, hk, heq⟩, hall⟩ := ih (i + 1) (tentative oui base i)
      rw [if_neg (by simp [ipamIsDuplicateMac, hi])]
      refine ⟨by omega, ⟨k, by omega, heq⟩, fun h k h1 h2 => ?_⟩
      obtain rfl | hk := h1.eq_or_lt
      · exact hi
      · exact hall h k hk (by omega)
    · rw [if_pos (by simp [ipamIsDuplicateMac, hi])]
      exact ⟨by omega, ⟨i, by omega, rfl⟩, fun h => absurd h hi⟩

/-- What is returned may be given out, and is in the table only if all of them are: the loop stops
    before the number of turns that the code tells an exhausted space by. -/
theorem ipamGetUnusedMac_spec (macam : List ℕ) (ip : ℕ) :
    Assignable oui (ipamGetUnusedMac oui macam ip) ∧
    (ipamGetUnusedMac oui macam ip ∈ macam → ∀ m, Assignable oui m → m ∈ macam) := by
  unfold ipamGetUnusedMac
  generalize ip &&& macAddrSpace = base
  obtain ⟨hle, ⟨k, hk, heq⟩, hall⟩ :=
    loop_spec base (macAddrSpace - 2) 0 0
  dsimp only
  rw [if_neg (fun h => absurd (h ▸ hle) (by decide))]
  refine ⟨(assignable_iff base).2 ⟨k, Nat.lt_succ_of_le hk, heq⟩, fun h m hm => ?_⟩
  obtain ⟨i, hi, rfl⟩ := (assignable_iff base).1 hm
  exact hall h i i.zero_le (Nat.le_of_lt_succ hi)

theorem not_right_of_mem {ip : ℕ} (h : ipamGetUnusedMac oui macam ip ∈ macam) :
    ¬ Right oui macam (ipamGetUnusedMac oui macam ip) := by
  rintro (⟨-, hfree⟩ | ⟨h0, -⟩)
  · exact hfree h
  · exact assignable_ne_zero (ipamGetUnusedMac_spec macam ip).1 h0

end

/-- **An unused MAC is returned as long as there is one**; an exhausted space is never told. -/
theorem ipamGetUnusedMac_right_iff (oui : ℕ) (calls : List (Option ℕ × Bool)) (ip : ℕ) :
    Right oui (macamOf oui calls) (ipamGetUnusedMac oui (macamOf oui calls) ip) ↔
      ∃ m, Assignable oui m ∧ m ∉ macamOf oui calls := by
  obtain ⟨hok, hall⟩ := ipamGetUnusedMac_spec (macamOf oui calls) ip
  constructor
  · exact fun h => ⟨_, hok, fun hin => not_right_of_mem hin h⟩
  · exact fun ⟨m, hm, hfree⟩ => .inl ⟨hok, fun hin => hfree (hall hin m hm)⟩

/-- What was inserted without a check is in the table. -/
theorem mem_macamOf {oui s : ℕ} (hs : s < 2 ^ 24) {calls : List (Option ℕ × Bool)}
    (h : (some (macPrefix oui ||| s), false) ∈ calls) :
    macPrefix oui ||| s ∈ macamOf oui calls := by
  have hzero : ((macPrefix oui ||| s) ^^^ macPrefix oui) >>> 24 = 0 := by
    rw [Nat.shiftRight_xor_distrib, Nat.shiftRight_or_distrib, Nat.shiftRight_eq_zero _ _ hs,
      Nat.or_zero,
      Nat.xor_self]
  unfold macamOf
  induction calls using List.reverseRecOn with
  | nil => cases h
  | append_singleton calls c ih =>
    rw [List.foldl_append, List.foldl_cons]
    obtain hc | h := List.mem_append.1 h
    · obtain ⟨_ | mac, check⟩ := c
      · exact ih hc
      · rw [ipamInsertMac]
        split_ifs
        · exact ih hc
        · exact List.mem_cons_of_mem _ (ih hc)
    · obtain rfl := List.mem_singleton.1 h
      simp [ipamInsertMac, hzero]

/-- With all of them in the table, one of them is returned. -/
theorem not_right_exhausted : ∃ calls,
    ¬ Right 1 (macamOf 1 calls) (ipamGetUnusedMac 1 (macamOf 1 calls) 0) := by
  refine ⟨(List.range 0xffffff).map fun s => (some (macPrefix 1 ||| s), false), not_right_of_mem ?_⟩
  obtain ⟨s, -, hs, heq⟩ := (ipamGetUnusedMac_spec _ _).1
  rw [heq]
  exact mem_macamOf (by omega) (List.mem_map.2 ⟨s, List.mem_range.2 (by omega), rfl⟩)

end Ovn.Ipam

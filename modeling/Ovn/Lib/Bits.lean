/-
  Bits of a word: scanning for a position, masked constants, and the order on
  words read off their bits.

  * `scan p n i` is the first position of `[i, i + n)` that satisfies `p`, or
    `i + n`; `positions` is the loop that restarts a scan after every hit, and
    `mem_positions` says what it visits.
  * A masked constant `v/m` is met by a word `x` when `x &&& m = v`.  `Within`
    says that `v` has no 1-bit outside of `m`, and `and_eq_iff` reads `v/m` bit
    by bit; `meet_iff` is the conjunction of two masked constants.
  * `toNat_lt_iff`: a word is smaller than another one iff at the highest
    position where they differ it has the 0-bit.
-/
import Mathlib.Data.Nat.Bitwise

namespace Bits

/-! ## Scanning -/

def scan (p : ℕ → Bool) : ℕ → ℕ → ℕ
  | 0, i => i
  | n + 1, i => if p i then i else scan p n (i + 1)

theorem le_scan (p : ℕ → Bool) : ∀ n i, i ≤ scan p n i
  | 0, _ => le_rfl
  | n + 1, i => by
    unfold scan; split
    · exact le_rfl
    · exact (Nat.le_succ i).trans (le_scan p n (i + 1))

theorem scan_le (p : ℕ → Bool) : ∀ n i, scan p n i ≤ i + n
  | 0, _ => le_rfl
  | n + 1, i => by
    unfold scan; split
    · omega
    · have := scan_le p n (i + 1); omega

theorem scan_hit (p : ℕ → Bool) : ∀ n i, scan p n i < i + n → p (scan p n i) = true
  | 0, i => by simp [scan]
  | n + 1, i => by
    unfold scan; split
    · exact fun _ => ‹_›
    · exact fun h => scan_hit p n (i + 1) (by omega)

theorem scan_miss (p : ℕ → Bool) : ∀ n i j, i ≤ j → j < scan p n i → p j = false
  | 0, i, j => by simp only [scan]; omega
  | n + 1, i, j => by
    unfold scan; split
    · omega
    · intro hij hj
      rcases Nat.eq_or_lt_of_le hij with rfl | hij
      · simpa using ‹¬p i = true›
      · exact scan_miss p n (i + 1) j hij hj

variable {p : ℕ → Bool}

theorem scan_eq_end_iff {n i : ℕ} : scan p n i = i + n ↔ ∀ j, i ≤ j → j < i + n → p j = false := by
  constructor
  · exact fun h j hij hj => scan_miss p n i j hij (h ▸ hj)
  · intro h
    by_contra hne
    have hlt : scan p n i < i + n := by have := scan_le p n i; omega
    simpa [scan_hit p n i hlt] using h _ (le_scan p n i) hlt

theorem scan_eq {n i k : ℕ} (hik : i ≤ k) (hk : k ≤ i + n)
    (hmiss : ∀ j, i ≤ j → j < k → p j = false)
    (hhit : k < i + n → p k = true) : scan p n i = k := by
  rcases Nat.lt_trichotomy (scan p n i) k with h | h | h
  · have := scan_hit p n i (by omega)
    rw [hmiss _ (le_scan p n i) h] at this; cases this
  · exact h
  · have := scan_miss p n i k hik h
    rw [hhit (by have := scan_le p n i; omega)] at this; cases this

/-- The positions of `[i, stop)` that satisfy `p`, each one found by a scan that
    starts behind the previous one; at most `fuel` of them. -/
def positions (p : ℕ → Bool) (stop : ℕ) : ℕ → ℕ → List ℕ
  | 0, _ => []
  | fuel + 1, i =>
    let z := scan p (stop - i) i
    if z < stop then z :: positions p stop fuel (z + 1) else []

theorem mem_positions {stop z : ℕ} :
    ∀ {fuel i : ℕ}, stop ≤ i + fuel → (z ∈ positions p stop fuel i ↔ i ≤ z ∧ z < stop ∧ p z)
  | 0, i, h => by simp [positions]; omega
  | fuel + 1, i, h => by
    have hle := le_scan p (stop - i) i
    have hmiss := scan_miss p (stop - i) i
    simp only [positions]
    split
    next hz =>
      have hhit := scan_hit p (stop - i) i (by omega)
      rw [List.mem_cons, mem_positions (by omega)]
      constructor
      · rintro (rfl | ⟨h1, h2⟩)
        · exact ⟨hle, hz, hhit⟩
        · exact ⟨by omega, h2⟩
      · rintro ⟨h1, h2, h3⟩
        rcases Nat.lt_trichotomy z (scan p (stop - i) i) with hlt | rfl | hgt
        · simp [hmiss z h1 hlt] at h3
        · exact .inl rfl
        · exact .inr ⟨hgt, h2, h3⟩
    · simp only [List.not_mem_nil, false_iff]
      rintro ⟨h1, h2, h3⟩
      simp [hmiss z h1 (by omega)] at h3

/-! ## Masked constants -/

section
variable {w : ℕ}

/-- `v` has no 1-bit in a position where `m` has a 0-bit. -/
def Within (v m : BitVec w) : Prop := ∀ i, v.getLsbD i = true → m.getLsbD i = true

variable {v m : BitVec w}

theorem and_not_eq_zero_iff : v &&& ~~~m = 0#w ↔ Within v m := by
  constructor
  · intro h i hi
    have hw := BitVec.lt_of_getLsbD hi
    have := congrArg (fun x => x.getLsbD i) h
    simpa [hi, hw] using this
  · intro h
    refine BitVec.eq_of_getLsbD_eq fun i hi => ?_
    cases hv : v.getLsbD i with
    | false => simp [hv]
    | true => simp [h i hv]

theorem eq_zero_iff : m = 0#w ↔ ∀ i, m.getLsbD i = false := by
  constructor
  · rintro rfl i; simp
  · exact fun h => BitVec.eq_of_getLsbD_eq fun i _ => by simp [h i]

theorem Within.get_eq_false (h : Within v m) {i : ℕ} (hi : m.getLsbD i = false) :
    v.getLsbD i = false := by
  cases hv : v.getLsbD i with
  | false => rfl
  | true => simp [h i hv] at hi

theorem and_eq_iff {x : BitVec w} (h : Within v m) :
    x &&& m = v ↔ ∀ i, m.getLsbD i = true → x.getLsbD i = v.getLsbD i := by
  constructor
  · rintro rfl i hi; simp [hi]
  · intro hx
    refine BitVec.eq_of_getLsbD_eq fun i _ => ?_
    cases hm : m.getLsbD i with
    | false => simp [hm, h.get_eq_false hm]
    | true => simp [hm, hx i hm]

variable {v' m' : BitVec w}

theorem Within.or (h : Within v m) (h' : Within v' m') : Within (v ||| v') (m ||| m') := by
  intro i hi
  simp only [BitVec.getLsbD_or, Bool.or_eq_true] at hi ⊢
  exact hi.imp (h i) (h' i)

/-- Two masked constants contradict each other. -/
def conflict (v m v' m' : BitVec w) : Bool := (v ^^^ v') &&& (m &&& m') != 0#w

theorem conflict_eq_false_iff : conflict v m v' m' = false ↔
      ∀ i, m.getLsbD i = true → m'.getLsbD i = true → v.getLsbD i = v'.getLsbD i := by
  simp only [conflict, bne_eq_false_iff_eq, eq_zero_iff, BitVec.getLsbD_and, BitVec.getLsbD_xor]
  refine forall_congr' fun i => ?_
  cases v.getLsbD i <;> cases v'.getLsbD i <;> cases m.getLsbD i <;> cases m'.getLsbD i <;> simp

/-- **Conjunction of masked constants.**  A word meets both `v/m` and `v'/m'`
    iff they do not contradict each other and it meets their union. -/
theorem meet_iff {x : BitVec w} (h : Within v m) (h' : Within v' m') :
    (x &&& m = v ∧ x &&& m' = v') ↔ conflict v m v' m' = false ∧ x &&& (m ||| m') = v ||| v' := by
  rw [and_eq_iff h, and_eq_iff h', and_eq_iff (h.or h'), conflict_eq_false_iff]
  simp only [BitVec.getLsbD_or, Bool.or_eq_true]
  constructor
  · rintro ⟨h1, h2⟩
    refine ⟨fun i hi hi' => (h1 i hi).symm.trans (h2 i hi'), fun i hi => ?_⟩
    cases hm : m.getLsbD i <;> cases hm' : m'.getLsbD i
    · simp [hm, hm'] at hi
    · simp [h2 i hm', h.get_eq_false hm]
    · simp [h1 i hm, h'.get_eq_false hm']
    · simp [h1 i hm, ← h2 i hm']
  · rintro ⟨hc, hx⟩
    constructor <;> intro i hi
    · rw [hx i (.inl hi)]
      cases hm' : m'.getLsbD i
      · simp [h'.get_eq_false hm']
      · simp [hc i hi hm']
    · rw [hx i (.inr hi)]
      cases hm : m.getLsbD i
      · simp [h.get_eq_false hm]
      · simp [hc i hm hi]

/-! ## The order on words -/

/-- **Comparison by the highest differing bit.** -/
theorem toNat_lt_iff {a b : BitVec w} :
    a.toNat < b.toNat ↔ ∃ z, a.getLsbD z = false ∧ b.getLsbD z = true ∧
      ∀ j, z < j → a.getLsbD j = b.getLsbD j := by
  simp only [BitVec.getLsbD]
  constructor
  · intro h
    obtain ⟨z, hz, hhigh⟩ := Nat.exists_most_significant_bit
      (n := a.toNat ^^^ b.toNat) (by simpa using h.ne)
    have heq : ∀ j, z < j → a.toNat.testBit j = b.toNat.testBit j := fun j hj => by
      simpa using hhigh j hj
    cases ha : a.toNat.testBit z with
    | false => exact ⟨z, ha, by simpa [ha] using hz, heq⟩
    | true =>
      have hb : b.toNat.testBit z = false := by simpa [ha] using hz
      have := Nat.lt_of_testBit z hb ha fun j hj => (heq j hj).symm
      omega
  · rintro ⟨z, ha, hb, heq⟩
    exact Nat.lt_of_testBit z ha hb heq

/-! ## The low bits of a word -/

theorem toNat_and_ones {n : ℕ} (h : n ≤ w) (x : BitVec w) :
    (x &&& BitVec.ofNat w (2 ^ n - 1)).toNat = x.toNat % 2 ^ n := by
  have hlt : 2 ^ n - 1 < 2 ^ w :=
    (Nat.sub_lt (Nat.two_pow_pos n) Nat.one_pos).trans_le (Nat.pow_le_pow_right Nat.two_pos h)
  rw [BitVec.toNat_and, BitVec.toNat_ofNat, Nat.mod_eq_of_lt hlt, Nat.and_two_pow_sub_one_eq_mod]

theorem toNat_setWidth_and_ones {v n : ℕ} (hv : v ≤ n) (hn : n ≤ w) (x : BitVec v) :
    (x.setWidth w &&& BitVec.ofNat w (2 ^ n - 1)).toNat = x.toNat := by
  have hlt : x.toNat < 2 ^ n := x.isLt.trans_le (Nat.pow_le_pow_right Nat.two_pos hv)
  rw [toNat_and_ones hn, BitVec.toNat_setWidth, Nat.mod_mod_of_dvd _ (Nat.pow_dvd_pow 2 hn),
    Nat.mod_eq_of_lt hlt]

end

end Bits

/-
  Simplification of match expressions: `expr_simplify` and
  `expr_evaluate_condition` (`lib/expr.c`).

  Every numeric comparison is rewritten into tests for equality: `!=` into one test
  per bit of the mask, `<`, `<=`, `>` and `>=` into one test per prefix of the
  constant.  This fails where the C code asserts that the mask of a relational
  comparison is one run of 1-bits.
-/
import Ovn.Expr.Paths

namespace Ovn

open List

/-! ## The code -/

/-- `bitwise_scan` on a subvalue. -/
def bitwiseScan (v : MfSubvalue) (target : Bool) (start stop : ℕ) : ℕ :=
  Bits.scan (fun i => v.getLsbD i == target) (stop - start) start

/-- `bitwise_zero`: clears `n` bits from `ofs` on. -/
def bitwiseZero (v : MfSubvalue) (ofs n : ℕ) : MfSubvalue :=
  v &&& ~~~(BitVec.ofNat 1024 (2 ^ n - 1) <<< ofs)

/-- `find_bitwise_range`: the first bit and the length of the only run of 1-bits. -/
def findBitwiseRange (sv : MfSubvalue) (width : ℕ) : ℕ × ℕ :=
  let start := bitwiseScan sv true 0 width
  if start < width then
    let stop := bitwiseScan sv false start width
    if stop ≥ width ∨ bitwiseScan sv true stop width ≥ width then (start, stop - start)
    else (0, 0)
  else (0, 0)

/-- The loop variable `new` of the two expansions: `or`ing one more comparison. -/
def orCmp (new : Option Expr) (c : Cmp) : Option Expr :=
  exprCombine .or new (some (.cmp c))

def exprSimplifyEq (c : Cmp) : Expr :=
  if c.mask = 0#1024 then .boolean true else .cmp c

def bitCmp (c : Cmp) (i : ℕ) : Cmp where
  symbol := c.symbol
  relop := .eq
  string := ""
  value := if c.value.getLsbD i then 0#1024 else BitVec.twoPow 1024 i
  mask := BitVec.twoPow 1024 i
  asName := none

def exprSimplifyNe (c : Cmp) : Expr :=
  let w := c.symbol.width
  let new := ((Bits.positions c.mask.getLsbD w w 0).map (bitCmp c)).foldl orCmp none
  new.getD (.boolean false)

/-- The test that the bits above `z` are those of the constant and bit `z` is not. -/
def prefixCmp (c : Cmp) (start z : ℕ) : Cmp :=
  { c with
    relop := .eq
    value := bitwiseZero (c.value ^^^ BitVec.twoPow 1024 z) start (z - start)
    mask := bitwiseZero c.mask start (z - start) }

def exprSimplifyRelational (c : Cmp) : Except Abort Expr :=
  let (start, nBits) := findBitwiseRange c.mask c.symbol.width
  if nBits = 0 then .error .assertion
  else
    let stop := start + nBits
    let lt := c.relop == .lt || c.relop == .le
    let eq := c.relop == .le || c.relop == .ge
    if bitwiseScan c.value (!lt) start stop = stop then
      if eq then .ok (.boolean true) else .ok (exprSimplifyNe c)
    else
      let new := if eq then some (.cmp { c with relop := .eq }) else none
      let zs := Bits.positions (fun i => c.value.getLsbD i == lt) stop nBits start
      .ok (((zs.map (prefixCmp c start)).foldl orCmp new).getD (.boolean false))

mutual

def exprSimplify : Expr → Except Abort Expr
  | .cmp c =>
    if c.symbol.width = 0 then .ok (.cmp c)
    else
      match c.relop with
      | .eq => .ok (exprSimplifyEq c)
      | .ne => .ok (exprSimplifyNe c)
      | _ => exprSimplifyRelational c
  | .andor t subs => (simplifySubs t subs).map fun subs => exprFix (.andor t subs)
  | .boolean b => .ok (.boolean b)
  | .condition not string => .ok (.condition not string)

def simplifySubs (t : AndOr) : List Expr → Except Abort (List Expr)
  | [] => .ok []
  | sub :: subs => do
    let new ← exprSimplify sub
    let rest ← simplifySubs t subs
    return insertAndor t new ++ rest

end

mutual

def exprEvaluateCondition (isChassisResident : String → Bool) : Expr → Expr
  | .andor t subs => exprFix (.andor t (evaluateConditionSubs isChassisResident t subs))
  | .condition not string => .boolean (isChassisResident string ^^ not)
  | .cmp c => .cmp c
  | .boolean b => .boolean b

def evaluateConditionSubs (isChassisResident : String → Bool) (t : AndOr) : List Expr → List Expr
  | [] => []
  | sub :: subs =>
    insertAndor t (exprFix (exprEvaluateCondition isChassisResident sub)) ++
      evaluateConditionSubs isChassisResident t subs

end

/-! ## Disjunctions of comparisons -/

def orCmps : List Cmp → Expr
  | [] => .boolean false
  | [c] => .cmp c
  | cs => .andor .or (cs.map .cmp)

theorem foldl_orCmp_andor (cs : List Cmp) : ∀ cs' : List Cmp,
    cs.foldl orCmp (some (.andor .or (cs'.map .cmp)))
      = some (.andor .or ((cs' ++ cs).map .cmp)) := by
  induction cs with
  | nil => simp
  | cons c cs ih =>
    intro cs'
    have := ih (cs' ++ [c])
    simpa [orCmp, exprCombine, combine] using this

theorem foldl_orCmp_some (c : Cmp) (cs : List Cmp) :
    (cs.foldl orCmp (some (.cmp c))).getD (.boolean false) = orCmps (c :: cs) := by
  cases cs with
  | nil => rfl
  | cons c' cs =>
    have := foldl_orCmp_andor cs [c, c']
    simpa [orCmp, exprCombine, combine, orCmps] using congrArg (·.getD (.boolean false)) this

theorem foldl_orCmp_none (cs : List Cmp) :
    (cs.foldl orCmp none).getD (.boolean false) = orCmps cs := by
  cases cs with
  | nil => rfl
  | cons c cs => exact foldl_orCmp_some c cs

theorem paths_orCmps (res : String → Bool) (cs : List Cmp) :
    (orCmps cs).paths res = {π | ∃ c ∈ cs, π = {c}} := by
  have hand : (Expr.andor .or (cs.map .cmp)).paths res = {π | ∃ c ∈ cs, π = {c}} := by
    ext π; simp [AndOr.dnf, Dnf.any]
  rcases cs with _ | ⟨c, _ | _⟩
  · ext; simp [orCmps, truth]
  · ext; simp [orCmps]
  · exact hand

@[simp] theorem cmps_orCmps : ∀ cs : List Cmp, (orCmps cs).cmps = cs
  | [] => cmps_boolean _
  | [c] => cmps_cmp c
  | c :: c' :: cs => by simp [orCmps, flatMap_map]

theorem tidy_orCmps : ∀ cs : List Cmp, (orCmps cs).Tidy
  | [] => .boolean _
  | [c] => .cmp c
  | c :: c' :: cs => by
    refine .andor (by simp) ?_ ?_ ?_ <;> rw [forall_mem_map]
    · exact fun c _ => .cmp c
    · exact fun c _ => rfl
    · exact fun c _ => rfl

variable {c : Cmp}

theorem refines_orCmps {ι : Type*} {sat : ι → Cmp → Prop} {res : String → Bool} {cs : List Cmp}
    (hsym : ∀ c' ∈ cs, c'.symbol = c.symbol) (h : ∀ i, sat i c ↔ ∃ c' ∈ cs, sat i c') :
    Dnf.Refines sat Cmp.symbol ((orCmps cs).paths res) {{c}} := by
  rw [paths_orCmps]
  constructor
  · rintro _ ⟨c', hc', rfl⟩
    refine ⟨{c}, rfl, ?_, ?_⟩
    · rintro _ rfl; exact ⟨c, rfl, (hsym _ hc').symm⟩
    · rintro i hi _ rfl; exact (h i).2 ⟨c', hc', hi c' rfl⟩
  · intro i hi
    obtain ⟨c', hc', hs⟩ := (h i).1 ((Dnf.holds_atom c).1 hi)
    exact ⟨{c'}, ⟨c', hc', rfl⟩, by rintro _ rfl; exact hs⟩

theorem refines_true {ι : Type*} {sat : ι → Cmp → Prop} (h : ∀ i, sat i c) :
    Dnf.Refines sat Cmp.symbol (truth true) {{c}} := by
  refine ⟨fun π hπ => ⟨{c}, rfl, ?_, ?_⟩, fun _ _ => Dnf.holds_unit⟩
  · rw [Set.mem_singleton_iff.1 hπ]; simp
  · rintro i - _ rfl; exact h i

/-! ## Bits of the expansions -/

theorem getLsbD_bitwiseZero (v : MfSubvalue) (ofs n i : ℕ) :
    (bitwiseZero v ofs n).getLsbD i = (v.getLsbD i && !decide (ofs ≤ i ∧ i < ofs + n)) := by
  cases hv : v.getLsbD i with
  | false => simp [bitwiseZero, hv]
  | true =>
    have hi := BitVec.lt_of_getLsbD hv
    rw [bitwiseZero, BitVec.getLsbD_and, BitVec.getLsbD_not, BitVec.getLsbD_shiftLeft,
      BitVec.getLsbD_ofNat, hv]
    by_cases h : ofs ≤ i
    · have h0 : ¬i < ofs := by omega
      have h1 : i - ofs < 1024 := by omega
      have h2 : i - ofs < n ↔ i < ofs + n := by omega
      simp [hi, h0, h1, h2]
    · have h0 : i < ofs := by omega
      simp [hi, h0]

/-- A test for equality, as the expansions produce them. -/
structure Cmp.Simple (c : Cmp) : Prop extends c.Wf where
  eq : c.relop = .eq
  mask_ne : c.symbol.width ≠ 0 → c.mask ≠ 0#1024

variable {σ : Assignment}

theorem Cmp.sat_of_numeric (hw : c.symbol.width ≠ 0) : c.Sat σ ↔ exprRelopTest c.relop
      (compare (σ.num c.symbol &&& c.mask).toNat c.value.toNat) = true := by
  rw [Sat, if_pos hw]

theorem Cmp.sat_eq_iff (hw : c.symbol.width ≠ 0) (h : c.relop = .eq) :
    c.Sat σ ↔ σ.num c.symbol &&& c.mask = c.value := by
  rw [sat_of_numeric hw, h, ← BitVec.toNat_inj]
  simp [exprRelopTest]

theorem bitCmp_sat (hw : c.symbol.width ≠ 0) {i : ℕ} (hi : i < 1024) :
    (bitCmp c i).Sat σ ↔ (σ.num c.symbol).getLsbD i = !c.value.getLsbD i := by
  rw [Cmp.sat_eq_iff (c := bitCmp c i) hw rfl, Bits.and_eq_iff]
  · simp only [bitCmp]
    cases c.value.getLsbD i <;> simp [hi]
  · intro j
    simp only [bitCmp]
    split <;> simp

theorem bitCmp_simple (hc : c.Wf) (hw : c.symbol.width ≠ 0) {i : ℕ} (hi : c.mask.getLsbD i = true) :
    (bitCmp c i).Simple where
  symbol := hc.symbol
  string_eq _ := rfl
  string_as _ := rfl
  mask_lt _ j hj := by
    simp only [bitCmp, BitVec.getLsbD_twoPow, Bool.and_eq_true, decide_eq_true_eq] at hj
    exact hj.2 ▸ hc.mask_lt hw i hi
  within _ j := by
    simp only [bitCmp]
    split <;> simp
  eq := rfl
  mask_ne _ h := by
    have hlt := BitVec.lt_of_getLsbD hi
    have := Bits.eq_zero_iff.1 h i
    simp [bitCmp, hlt] at this

/-- The mask of the comparison is one run of 1-bits. -/
def Cmp.MaskRun (c : Cmp) (start n : ℕ) : Prop :=
  0 < n ∧ ∀ i, c.mask.getLsbD i = true ↔ start ≤ i ∧ i < start + n

theorem findBitwiseRange_eq (hc : c.Wf) (hw : c.symbol.width ≠ 0) {start n : ℕ}
    (h : c.MaskRun start n) :
    findBitwiseRange c.mask c.symbol.width = (start, n) := by
  obtain ⟨hn, hrun⟩ := h
  have hmask : ∀ i, c.mask.getLsbD i = decide (start ≤ i ∧ i < start + n) := fun i => by
    rw [Bool.eq_iff_iff, hrun, decide_eq_true_eq]
  have hend : start + n ≤ c.symbol.width := by
    have := hc.mask_lt hw (start + n - 1) ((hrun _).2 (by omega)); omega
  have h1 : bitwiseScan c.mask true 0 c.symbol.width = start :=
    Bits.scan_eq (by omega) (by omega) (fun j _ hj => by simp [hmask]; omega)
      fun _ => by simp [hmask]; omega
  have h2 : bitwiseScan c.mask false start c.symbol.width = start + n :=
    Bits.scan_eq (by omega) (by omega) (fun j h1 h2 => by simp [hmask]; omega)
      fun _ => by simp [hmask]
  have h3 : bitwiseScan c.mask true (start + n) c.symbol.width = c.symbol.width :=
    Bits.scan_eq (by omega) (by omega) (fun j h1 _ => by simp [hmask]; omega)
      fun h => by omega
  simp only [findBitwiseRange, h1, h2, h3]
  rw [if_pos (by omega)]
  simp

theorem maskRun_of_findBitwiseRange (hc : c.Annotated) (hw : c.symbol.width ≠ 0)
    (h : (findBitwiseRange c.mask c.symbol.width).2 ≠ 0) : ∃ start n, c.MaskRun start n := by
  set w := c.symbol.width with hwdef
  set start := bitwiseScan c.mask true 0 w with hstart
  set stop := bitwiseScan c.mask false start w with hstop
  unfold findBitwiseRange at h
  simp only [← hstart] at h
  split_ifs at h with hlt hend
  · have hscan : ∀ i, start ≤ i → i < stop → c.mask.getLsbD i = true := fun i h1 h2 => by
      simpa using Bits.scan_miss _ _ _ i h1 h2
    have hbelow : ∀ i, i < start → c.mask.getLsbD i = false := fun i hi => by
      simpa using Bits.scan_miss _ _ _ i (Nat.zero_le i) hi
    have habove : ∀ i, stop ≤ i → i < w → c.mask.getLsbD i = false := by
      intro i h1 h2
      rcases hend with hge | hge
      · omega
      · have := Bits.scan_miss _ _ _ i h1 (lt_of_lt_of_le h2 hge)
        simpa using this
    refine ⟨start, stop - start, by omega, fun i => ⟨fun hi => ?_, fun hi => ?_⟩⟩
    · have hi' := hc.mask_lt hw i hi
      by_contra hout
      by_cases h1 : i < start
      · rw [hbelow i h1] at hi; cases hi
      · rw [habove i (by omega) hi'] at hi; cases hi
    · exact hscan i hi.1 (by omega)
  · exact absurd rfl h
  · exact absurd rfl h

/-! ## The expansions are exact -/

/-- `r` is a simplification of `e`. -/
structure Simplified (e r : Expr) : Prop where
  tidy : r.Tidy
  simple : ∀ c ∈ r.cmps, c.Simple
  symbols : ∀ c ∈ r.cmps, ∃ d ∈ e.cmps, d.symbol = c.symbol
  refines : ∀ res, Dnf.Refines Cmp.Sat Cmp.symbol (r.paths res) (e.paths res)

theorem simplified_orCmps {cs : List Cmp} (hsimple : ∀ c' ∈ cs, c'.Simple)
    (hsym : ∀ c' ∈ cs, c'.symbol = c.symbol) (h : ∀ σ, c.Sat σ ↔ ∃ c' ∈ cs, c'.Sat σ) :
    Simplified (.cmp c) (orCmps cs) where
  tidy := tidy_orCmps cs
  simple := by simpa using hsimple
  symbols := by simp_all
  refines res := by rw [paths_cmp]; exact refines_orCmps hsym h

theorem simplified_true (h : ∀ σ, c.Sat σ) : Simplified (.cmp c) (.boolean true) where
  tidy := .boolean _
  simple := by simp
  symbols := by simp
  refines res := by rw [paths_boolean]; exact refines_true h

theorem simplified_cmp (h : c.Simple) : Simplified (.cmp c) (.cmp c) :=
  ⟨.cmp c, by simpa using h, by simp, fun _ => .refl _⟩

section
variable (hc : c.Wf) (hw : c.symbol.width ≠ 0)
include hc hw

theorem simplified_eq (h : c.relop = .eq) : Simplified (.cmp c) (exprSimplifyEq c) := by
  unfold exprSimplifyEq
  split_ifs with hm
  · refine simplified_true fun σ => ?_
    have hv : c.value = 0#1024 :=
      Bits.eq_zero_iff.2 fun i => (hc.within hw).get_eq_false (by rw [hm]; simp)
    rw [Cmp.sat_eq_iff hw h, hm, hv, BitVec.and_zero]
  · exact simplified_cmp ⟨hc, h, fun _ => hm⟩

theorem mem_maskBits {i : ℕ} :
    i ∈ Bits.positions c.mask.getLsbD c.symbol.width c.symbol.width 0 ↔
      c.mask.getLsbD i = true := by
  rw [Bits.mem_positions (by omega)]
  exact ⟨fun h => h.2.2, fun h => ⟨by omega, hc.mask_lt hw i h, h⟩⟩

/-- **`!=`, bit by bit.**  Whatever its relational operator, the expansion of
    `c` accepts the values that differ from the constant under the mask. -/
theorem simplified_ne (h : ∀ σ, c.Sat σ ↔ σ.num c.symbol &&& c.mask ≠ c.value) :
    Simplified (.cmp c) (exprSimplifyNe c) := by
  unfold exprSimplifyNe
  rw [foldl_orCmp_none]
  refine simplified_orCmps ?_ ?_ fun σ => ?_
  · rintro c' hc'
    obtain ⟨i, hi, rfl⟩ := mem_map.1 hc'
    exact bitCmp_simple hc hw ((mem_maskBits hc hw).1 hi)
  · rintro c' hc'
    obtain ⟨i, -, rfl⟩ := mem_map.1 hc'
    rfl
  · rw [h, Ne, Bits.and_eq_iff (hc.within hw)]
    simp only [mem_map, exists_exists_and_eq_and, mem_maskBits hc hw, not_forall]
    refine exists_congr fun i => ?_
    constructor
    · rintro ⟨hi, hne⟩
      exact ⟨hi, (bitCmp_sat hw (BitVec.lt_of_getLsbD hi)).2 (by exact Bool.eq_not_of_ne hne)⟩
    · rintro ⟨hi, hs⟩
      rw [bitCmp_sat hw (BitVec.lt_of_getLsbD hi)] at hs
      exact ⟨hi, by simp [hs]⟩

end

/-- `z` is the highest bit below `stop` where `x` differs from the constant. -/
def Cmp.DiffersAt (c : Cmp) (stop : ℕ) (x : MfSubvalue) (z : ℕ) : Prop :=
  x.getLsbD z = (!c.value.getLsbD z) ∧ ∀ i, z < i → i < stop → x.getLsbD i = c.value.getLsbD i

section
variable {c : Cmp} {start n : ℕ}

section
variable (hc : c.Wf) (hw : c.symbol.width ≠ 0) (h : c.MaskRun start n)
include hc hw h

theorem Cmp.MaskRun.value_out {i : ℕ} (hi : ¬(start ≤ i ∧ i < start + n)) :
    c.value.getLsbD i = false :=
  (hc.within hw).get_eq_false (Bool.eq_false_iff.2 fun hm => hi ((h.2 i).1 hm))

theorem prefixCmp_within {z : ℕ} (hz : start ≤ z ∧ z < start + n) :
    Bits.Within (prefixCmp c start z).value (prefixCmp c start z).mask := by
  intro i hi
  simp only [prefixCmp, getLsbD_bitwiseZero, Bool.and_eq_true] at hi ⊢
  refine ⟨?_, hi.2⟩
  by_cases hiz : z = i
  · exact hiz ▸ (h.2 z).2 hz
  · exact hc.within hw i (by simpa [hiz] using hi.1)

theorem prefixCmp_simple {z : ℕ} (hz : start ≤ z ∧ z < start + n) : (prefixCmp c start z).Simple :=
  { hc with
    string_eq := fun _ => rfl
    mask_lt := fun _ i hi => by
      simp only [prefixCmp, getLsbD_bitwiseZero, Bool.and_eq_true] at hi
      exact hc.mask_lt hw i hi.1
    within := fun _ => prefixCmp_within hc hw h hz
    eq := rfl
    mask_ne := fun _ h0 => by
      have := Bits.eq_zero_iff.1 h0 z
      simp only [prefixCmp, getLsbD_bitwiseZero, (h.2 z).2 hz] at this
      simp at this
      omega }

theorem prefixCmp_sat {z : ℕ} (hz : start ≤ z ∧ z < start + n) (σ : Assignment) :
    (prefixCmp c start z).Sat σ ↔ c.DiffersAt (start + n) (σ.num c.symbol) z := by
  have hz' : z < 1024 := BitVec.lt_of_getLsbD ((h.2 z).2 hz)
  rw [Cmp.sat_eq_iff (c := prefixCmp c start z) hw rfl, Bits.and_eq_iff
    (prefixCmp_within hc hw h hz)]
  have hmask : ∀ i, (prefixCmp c start z).mask.getLsbD i = true ↔ z ≤ i ∧ i < start + n := by
    simp only [prefixCmp, getLsbD_bitwiseZero, Bool.and_eq_true, h.2, Bool.not_eq_true',
      decide_eq_false_iff_not]
    omega
  have hvalue : ∀ i, z ≤ i → (prefixCmp c start z).value.getLsbD i
      = (c.value.getLsbD i ^^ decide (z = i)) := by
    intro i hi
    have : ¬(start ≤ i ∧ i < start + (z - start)) := by omega
    simp [prefixCmp, getLsbD_bitwiseZero, hz', this]
  simp only [hmask]
  constructor
  · intro hx
    refine ⟨?_, fun i hi hlt => ?_⟩
    · rw [show (σ.num c.symbol) = σ.num (prefixCmp c start z).symbol from rfl,
        hx z ⟨le_rfl, hz.2⟩, hvalue z le_rfl]
      simp
    · rw [show (σ.num c.symbol) = σ.num (prefixCmp c start z).symbol from rfl,
        hx i ⟨by omega, hlt⟩, hvalue i (by omega)]
      simp [show z ≠ i by omega]
  · rintro ⟨hxz, hx⟩ i ⟨hi, hlt⟩
    rw [hvalue i hi]
    rcases Nat.eq_or_lt_of_le hi with rfl | hi
    · simpa [prefixCmp] using hxz
    · simpa [prefixCmp, show z ≠ i by omega] using hx i hi hlt

/-- The highest bit where a masked value differs from the constant lies in the
    mask, so it is one of the positions that the expansion visits. -/
theorem exists_prefix_iff (x : MfSubvalue) (b : Bool) :
    (∃ z, (x &&& c.mask).getLsbD z = (!b) ∧ c.value.getLsbD z = b ∧
        ∀ j, z < j → (x &&& c.mask).getLsbD j = c.value.getLsbD j) ↔
      ∃ z, (start ≤ z ∧ z < start + n) ∧ c.value.getLsbD z = b ∧ c.DiffersAt (start + n) x z := by
  have hin : ∀ {i}, start ≤ i ∧ i < start + n → (x &&& c.mask).getLsbD i = x.getLsbD i :=
    fun hi => by simp [(h.2 _).2 hi]
  have hout : ∀ {i}, ¬(start ≤ i ∧ i < start + n) → (x &&& c.mask).getLsbD i = false :=
    fun hi => by
      rw [BitVec.getLsbD_and, Bool.eq_false_iff.2 fun hm => hi ((h.2 _).1 hm), Bool.and_false]
  constructor
  · rintro ⟨z, hxz, hvz, hx⟩
    have hz : start ≤ z ∧ z < start + n := by
      by_contra hz
      rw [hout hz] at hxz
      rw [h.value_out hc hw hz] at hvz
      simp [← hvz] at hxz
    refine ⟨z, hz, hvz, by rw [← hin hz, hxz, hvz], fun i hi hlt => ?_⟩
    rw [← hin ⟨by omega, hlt⟩, hx i hi]
  · rintro ⟨z, hz, hvz, hxz, hx⟩
    refine ⟨z, by rw [hin hz, hxz, hvz], hvz, fun j hj => ?_⟩
    by_cases hj' : start ≤ j ∧ j < start + n
    · rw [hin hj', hx j hj hj'.2]
    · rw [hout hj', h.value_out hc hw hj']

theorem masked_lt_iff (x : MfSubvalue) : (x &&& c.mask).toNat < c.value.toNat ↔
      ∃ z, (start ≤ z ∧ z < start + n) ∧ c.value.getLsbD z = true ∧
        c.DiffersAt (start + n) x z := by
  rw [Bits.toNat_lt_iff, ← exists_prefix_iff hc hw h x true]
  rfl

theorem lt_masked_iff (x : MfSubvalue) : c.value.toNat < (x &&& c.mask).toNat ↔
      ∃ z, (start ≤ z ∧ z < start + n) ∧ c.value.getLsbD z = false ∧
        c.DiffersAt (start + n) x z := by
  rw [Bits.toNat_lt_iff, ← exists_prefix_iff hc hw h x false]
  refine exists_congr fun z => ⟨?_, ?_⟩
  · rintro ⟨hv, hx, hj⟩; exact ⟨hx, hv, fun j h => (hj j h).symm⟩
  · rintro ⟨hx, hv, hj⟩; exact ⟨hv, hx, fun j h => (hj j h).symm⟩

end

def Relop.isLess (r : Relop) : Bool := r == .lt || r == .le

def Relop.orEqual (r : Relop) : Bool := r == .le || r == .ge

def Relop.Relational (r : Relop) : Prop := r ≠ .eq ∧ r ≠ .ne

theorem exprRelopTest_iff {r : Relop} (hr : r.Relational) (a b : ℕ) :
    exprRelopTest r (compare a b) = true ↔
      (r.orEqual = true ∧ a = b) ∨ if r.isLess then a < b else b < a := by
  rcases Nat.lt_trichotomy a b with h | h | h
  · rw [compare_lt_iff_lt.2 h]
    cases r <;> simp_all [exprRelopTest, Relop.isLess, Relop.Relational] <;> omega
  · cases r <;> simp_all [exprRelopTest, Relop.orEqual, Relop.Relational]
  · rw [compare_gt_iff_gt.2 h]
    cases r <;> simp_all [exprRelopTest, Relop.isLess, Relop.Relational] <;> omega

/-- A relational comparison holds if the masked value equals the constant and
    the operator allows it, or if the first bit that differs is on the right
    side. -/
theorem relational_sat (hc : c.Wf) (hw : c.symbol.width ≠ 0) (h : c.MaskRun start n)
    (hr : c.relop.Relational) (σ : Assignment) :
    c.Sat σ ↔ (c.relop.orEqual = true ∧ σ.num c.symbol &&& c.mask = c.value) ∨
      ∃ z, (start ≤ z ∧ z < start + n) ∧ c.value.getLsbD z = c.relop.isLess ∧
        (prefixCmp c start z).Sat σ := by
  have hp : ∀ b, (∃ z, (start ≤ z ∧ z < start + n) ∧ c.value.getLsbD z = b ∧
      (prefixCmp c start z).Sat σ) ↔ ∃ z, (start ≤ z ∧ z < start + n) ∧
        c.value.getLsbD z = b ∧ c.DiffersAt (start + n) (σ.num c.symbol) z :=
    fun b => exists_congr fun z => and_congr_right fun hz => and_congr_right fun _ =>
      prefixCmp_sat hc hw h hz σ
  have hlt := (masked_lt_iff hc hw h (σ.num c.symbol)).trans (hp true).symm
  have hgt := (lt_masked_iff hc hw h (σ.num c.symbol)).trans (hp false).symm
  rw [Cmp.sat_of_numeric hw, ← BitVec.toNat_inj, exprRelopTest_iff hr]
  cases c.relop.isLess with
  | true => exact or_congr_right hlt
  | false => exact or_congr_right hgt

theorem masked_ne_iff (hc : c.Wf) (hw : c.symbol.width ≠ 0) (h : c.MaskRun start n)
    (σ : Assignment) : σ.num c.symbol &&& c.mask ≠ c.value ↔
      ∃ z, (start ≤ z ∧ z < start + n) ∧ (prefixCmp c start z).Sat σ := by
  have hlt := masked_lt_iff hc hw h (σ.num c.symbol)
  have hgt := lt_masked_iff hc hw h (σ.num c.symbol)
  constructor
  · intro hne
    rcases Nat.lt_or_gt_of_ne (fun heq => hne (BitVec.toNat_inj.1 heq)) with hx | hx
    · obtain ⟨z, hz, -, hp⟩ := hlt.1 hx; exact ⟨z, hz, (prefixCmp_sat hc hw h hz σ).2 hp⟩
    · obtain ⟨z, hz, -, hp⟩ := hgt.1 hx; exact ⟨z, hz, (prefixCmp_sat hc hw h hz σ).2 hp⟩
  · rintro ⟨z, hz, hp⟩ heq
    have hxz := (Bits.and_eq_iff (hc.within hw)).1 heq z ((h.2 z).2 hz)
    rw [((prefixCmp_sat hc hw h hz σ).1 hp).1] at hxz
    simp at hxz

theorem Cmp.MaskRun.eq_simple (hc : c.Wf) (h : c.MaskRun start n) :
    ({ c with relop := .eq } : Cmp).Simple :=
  { hc with
    string_eq := fun _ => rfl
    eq := rfl
    mask_ne := fun _ h0 => by
      have := (h.2 start).2 ⟨le_rfl, by have := h.1; omega⟩
      rw [show c.mask = 0#1024 from h0] at this
      simp at this }

/-- **Relational operators, prefix by prefix.**  On a mask that is one run of
    1-bits the assertion holds and the expansion is exact, whatever the offset
    and the length of the run and whatever the constant. -/
theorem exprSimplifyRelational_spec (hc : c.Wf) (hw : c.symbol.width ≠ 0)
    (hr : c.relop.Relational) (h : c.MaskRun start n) :
    ∃ r, exprSimplifyRelational c = .ok r ∧ Simplified (.cmp c) r := by
  have hless : (c.relop == .lt || c.relop == .le) = c.relop.isLess := rfl
  have hsat := relational_sat hc hw h hr
  simp only [exprSimplifyRelational, findBitwiseRange_eq hc hw h, if_neg h.1.ne', hless]
  have hscan : bitwiseScan c.value (!c.relop.isLess) start (start + n) = start + n →
      ∀ z, start ≤ z ∧ z < start + n → c.value.getLsbD z = c.relop.isLess := by
    simp [bitwiseScan, Bits.scan_eq_end_iff]
  set zs := Bits.positions (fun i => c.value.getLsbD i == c.relop.isLess) (start + n) n start
  have hzs : ∀ z, z ∈ zs ↔ (start ≤ z ∧ z < start + n) ∧ c.value.getLsbD z = c.relop.isLess :=
    fun z => by
    rw [Bits.mem_positions le_rfl, beq_iff_eq, and_assoc]
  have hsimple : ∀ c' ∈ zs.map (prefixCmp c start), c'.Simple ∧ c'.symbol = c.symbol := by
    intro c' hc'
    obtain ⟨z, hz, rfl⟩ := mem_map.1 hc'
    exact ⟨prefixCmp_simple hc hw h ((hzs z).1 hz).1, rfl⟩
  have hex : ∀ σ, (∃ c' ∈ zs.map (prefixCmp c start), c'.Sat σ) ↔
      ∃ z, (start ≤ z ∧ z < start + n) ∧ c.value.getLsbD z = c.relop.isLess ∧
        (prefixCmp c start z).Sat σ := fun σ => by simp [hzs, and_assoc]
  split_ifs with hall hor hor
  · -- the constant is the last or the first value of the run: all values are on one side
    refine ⟨_, rfl, simplified_true fun σ => (hsat σ).2 ?_⟩
    by_cases hx : σ.num c.symbol &&& c.mask = c.value
    · exact .inl ⟨hor, hx⟩
    · obtain ⟨z, hz, hp⟩ := (masked_ne_iff hc hw h σ).1 hx
      exact .inr ⟨z, hz, hscan hall z hz, hp⟩
  · refine ⟨_, rfl, simplified_ne hc hw fun σ => ?_⟩
    rw [hsat σ, masked_ne_iff hc hw h σ]
    constructor
    · rintro (⟨hor', -⟩ | ⟨z, hz, -, hp⟩)
      · exact absurd hor' hor
      · exact ⟨z, hz, hp⟩
    · rintro ⟨z, hz, hp⟩; exact .inr ⟨z, hz, hscan hall z hz, hp⟩
  · rw [foldl_orCmp_some]
    refine ⟨_, rfl, simplified_orCmps ?_ ?_ fun σ => ?_⟩
    · exact forall_mem_cons.2 ⟨h.eq_simple hc, fun c' hc' => (hsimple c' hc').1⟩
    · exact forall_mem_cons.2 ⟨rfl, fun c' hc' => (hsimple c' hc').2⟩
    · rw [hsat σ, exists_mem_cons_iff, Cmp.sat_eq_iff (by exact hw) rfl, hex σ]
      exact or_congr_left (and_iff_right hor)
  · rw [foldl_orCmp_none]
    refine ⟨_, rfl, simplified_orCmps (fun c' hc' => (hsimple c' hc').1)
      (fun c' hc' => (hsimple c' hc').2) fun σ => ?_⟩
    rw [hsat σ, hex σ]
    exact or_iff_right fun h => hor h.1

end

/-! ## The whole pass -/

def Cmp.Simplifiable (c : Cmp) : Prop :=
  c.symbol.width ≠ 0 → c.relop.Relational → ∃ start n, c.MaskRun start n

theorem exprSimplify_cmp (hc : c.Wf) (hs : c.Simplifiable) :
    ∃ r, exprSimplify (.cmp c) = .ok r ∧ Simplified (.cmp c) r := by
  rw [exprSimplify]
  split_ifs with hw
  · exact ⟨_, rfl, simplified_cmp ⟨hc, hc.string_eq hw, fun h => absurd hw h⟩⟩
  · cases hr : c.relop with
    | eq => exact ⟨_, rfl, simplified_eq hc hw hr⟩
    | ne =>
      refine ⟨_, rfl, simplified_ne hc hw fun σ => ?_⟩
      rw [Cmp.sat_of_numeric hw, hr, Ne, ← BitVec.toNat_inj]
      simp [exprRelopTest]
    | lt | le | gt | ge =>
      have hrel : c.relop.Relational := by rw [hr]; exact ⟨by decide, by decide⟩
      obtain ⟨start, n, hrun⟩ := hs hw hrel
      exact exprSimplifyRelational_spec hc hw hrel hrun

theorem simplifySubs_ok {t : AndOr} : ∀ {subs : List Expr},
    (∀ e ∈ subs, ∃ r, exprSimplify e = .ok r ∧ Simplified e r) →
    ∃ rs, List.Forall₂ Simplified subs rs ∧ simplifySubs t subs = .ok (rs.flatMap (insertAndor t))
  | [], _ => ⟨[], .nil, rfl⟩
  | sub :: subs, h => by
    obtain ⟨r, hr, hs⟩ := h sub mem_cons_self
    obtain ⟨rs, hrs, hok⟩ := simplifySubs_ok (forall_mem_cons.1 h).2
    refine ⟨r :: rs, .cons hs hrs, ?_⟩
    rw [simplifySubs, hr, hok]
    rfl

theorem forall₂_mem_right {α β : Type*} {P : α → β → Prop} {xs : List α} {ys : List β}
    (h : Forall₂ P xs ys) : ∀ y ∈ ys, ∃ x ∈ xs, P x y := fun y hy => by
  obtain ⟨i, hi, rfl⟩ := getElem_of_mem hy
  exact ⟨_, getElem_mem (h.length_eq ▸ hi), (forall₂_iff_get.1 h).2 i _ hi⟩

variable {t : AndOr}

theorem simplified_andor {subs rs : List Expr} (h : List.Forall₂ Simplified subs rs) :
    Simplified (.andor t subs) (exprFix (.andor t (rs.flatMap (insertAndor t)))) := by
  have hmem := forall₂_mem_right h
  constructor
  · refine tidy_rebuild fun r hr => ?_
    obtain ⟨_, _, hs⟩ := hmem r hr
    exact hs.tidy
  · intro c hc
    obtain ⟨r, hr, hc⟩ := mem_cmps_rebuild hc
    obtain ⟨_, _, hs⟩ := hmem r hr
    exact hs.simple c hc
  · intro c hc
    obtain ⟨r, hr, hc⟩ := mem_cmps_rebuild hc
    obtain ⟨e, he, hs⟩ := hmem r hr
    obtain ⟨d, hd, hsym⟩ := hs.symbols c hc
    exact ⟨d, mem_cmps_andor.2 ⟨e, he, hd⟩, hsym⟩
  · exact fun res => refines_rebuild (h.imp fun e r hs => hs.refines res)

variable {e : Expr}

theorem exprSimplify_spec (hwf : ∀ c ∈ e.cmps, c.Wf) (hs : ∀ c ∈ e.cmps, c.Simplifiable) :
    ∃ r, exprSimplify e = .ok r ∧ Simplified e r := by
  induction e with
  | cmp c => exact exprSimplify_cmp (hwf c (by simp)) (hs c (by simp))
  | boolean b => exact ⟨_, by rw [exprSimplify], .boolean b, by simp, by simp, fun _ => .refl _⟩
  | condition n s =>
    exact ⟨_, by rw [exprSimplify], .condition n s, by simp, by simp, fun _ => .refl _⟩
  | andor t subs ih =>
    obtain ⟨rs, hrs, hok⟩ := simplifySubs_ok fun e he =>
      ih e he (fun c hc => hwf c (mem_cmps_andor.2 ⟨e, he, hc⟩))
        fun c hc => hs c (mem_cmps_andor.2 ⟨e, he, hc⟩)
    exact ⟨_, by rw [exprSimplify, hok]; rfl, simplified_andor hrs⟩

theorem exists_exprSimplify_of_subs : ∀ {subs rs : List Expr},
    simplifySubs t subs = .ok rs → e ∈ subs → ∃ r, exprSimplify e = .ok r
  | sub :: subs, rs, h, he => by
    rw [simplifySubs] at h
    cases hsub : exprSimplify sub with
    | error a => rw [hsub] at h; cases h
    | ok new =>
      rw [hsub] at h
      rcases mem_cons.1 he with rfl | he
      · exact ⟨new, hsub⟩
      · cases hrest : simplifySubs t subs with
        | error a => rw [hrest] at h; cases h
        | ok rest => exact exists_exprSimplify_of_subs hrest he

theorem simplifiable_of_exprSimplify (hann : ∀ c ∈ e.cmps, c.Annotated) :
    ∀ {r : Expr}, exprSimplify e = .ok r → ∀ c ∈ e.cmps, c.Simplifiable := by
  induction e with
  | cmp c =>
    intro r hr c' hc' hw hrel
    obtain rfl : c' = c := by simpa using hc'
    by_contra hrun
    have hzero : (findBitwiseRange c'.mask c'.symbol.width).2 = 0 := by
      by_contra h
      exact hrun (maskRun_of_findBitwiseRange (hann c' (by simp)) hw h)
    have herr : exprSimplifyRelational c' = .error .assertion := by
      simp only [exprSimplifyRelational, hzero, if_true]
    rw [exprSimplify, if_neg hw] at hr
    split at hr
    · next h => exact hrel.1 h
    · next h => exact hrel.2 h
    · rw [herr] at hr; cases hr
  | boolean | condition => simp
  | andor t subs ih =>
    intro r hr c hc
    obtain ⟨e, he, hc⟩ := mem_cmps_andor.1 hc
    have hsub : ∃ r, exprSimplify e = .ok r := by
      rw [exprSimplify] at hr
      cases hs : simplifySubs t subs with
      | error a => rw [hs] at hr; cases hr
      | ok rs => exact exists_exprSimplify_of_subs hs he
    obtain ⟨r, hr⟩ := hsub
    exact ih e he (fun c hc => hann c (mem_cmps_andor.2 ⟨e, he, hc⟩)) hr c hc

theorem Simplified.evaluate {r : Expr} (h : Simplified e r) (hwf : ∀ c ∈ e.cmps, c.Wf) (f : Flow)
    (lookupPort : LookupPort) : exprEvaluate f lookupPort r = exprEvaluate f lookupPort e := by
  rw [Bool.eq_iff_iff, exprEvaluate_iff hwf, exprEvaluate_iff fun c hc => (h.simple c hc).toWf]
  exact (h.refines _).holds_iff _

theorem Expr.Tidy.invariants (h : e.Tidy) (hs : ∀ c ∈ e.cmps, c.Simple) : e.Invariants where
  honors := h.honors fun c hc => (hs c hc).within
  mask_ne c hc := (hs c hc).mask_ne

/-- **Simplification is exact.**  On an annotated expression that honors the
    invariants and whose relational comparisons are on runs of bits,
    `expr_simplify` returns an expression that evaluates the same on every flow,
    has only tests for equality, and honors the invariants. -/
theorem exprSimplify_correct (e : Expr) (hinv : exprHonorsInvariants e = true)
    (hann : ∀ c ∈ e.cmps, c.Annotated) (hrel : ∀ c ∈ e.cmps, c.Simplifiable) :
    ∃ r, exprSimplify e = .ok r ∧
      (∀ f lookupPort, exprEvaluate f lookupPort r = exprEvaluate f lookupPort e) ∧
      (∀ c ∈ r.cmps, c.relop = .eq) ∧ r.Invariants := by
  have hwf : ∀ c ∈ e.cmps, c.Wf := fun c hc => ⟨hann c hc, within_of_honors hinv c hc⟩
  obtain ⟨r, hr, h⟩ := exprSimplify_spec hwf hrel
  exact ⟨r, hr, h.evaluate hwf, fun c hc => (h.simple c hc).eq, h.tidy.invariants h.simple⟩

def portSymbol (id : ℕ) (name : String) : ExprSymbol where
  name := name
  width := 16
  field := ⟨id, 2, 16⟩
  level := .ordinal
  mustCrossproduct := false

def portCmp (id : ℕ) (name : String) (relop : Relop) (port : ℕ) : Cmp where
  symbol := portSymbol id name
  relop := relop
  string := ""
  value := BitVec.ofNat 1024 port
  mask := BitVec.ofNat 1024 (2 ^ 16 - 1)
  asName := none

theorem getLsbD_portCmp_mask (i : ℕ) :
    (BitVec.ofNat 1024 (2 ^ 16 - 1)).getLsbD i = true ↔ i < 16 := by
  rw [BitVec.getLsbD_ofNat, Nat.testBit_two_pow_sub_one, Bool.and_eq_true, decide_eq_true_eq,
    decide_eq_true_eq]
  omega

theorem portCmp_mask_ne (id : ℕ) (name : String) (relop : Relop) (port : ℕ) :
    (portCmp id name relop port).mask ≠ 0#1024 := fun h => by
  have := (getLsbD_portCmp_mask 0).2 (by decide)
  rw [show BitVec.ofNat 1024 (2 ^ 16 - 1) = 0#1024 from h] at this
  simp at this

theorem portCmp_annotated {id : ℕ} (hid : id < 255) (name : String) (relop : Relop) (port : ℕ) :
    (portCmp id name relop port).Annotated where
  symbol := ⟨fun _ => rfl, by simp [portCmp, portSymbol], by simp [portCmp, portSymbol],
    by simp [portCmp, portSymbol], hid⟩
  string_eq h := by simp [portCmp, portSymbol] at h
  string_as _ := rfl
  mask_lt _ i hi := (getLsbD_portCmp_mask i).1 hi

theorem portCmp_simplifiable (id : ℕ) (name : String) (relop : Relop) (port : ℕ) :
    (portCmp id name relop port).Simplifiable := fun _ _ =>
  ⟨0, 16, by decide, fun i => by
    rw [Nat.zero_add]; exact (getLsbD_portCmp_mask i).trans ⟨fun h => ⟨i.zero_le, h⟩, And.right⟩⟩

theorem exprSimplify_correct_port :
    ∃ r, exprSimplify (.cmp (portCmp 0 "tcp.dst" .lt 1024)) = .ok r ∧
    (∀ f lookupPort, exprEvaluate f lookupPort r
      = exprEvaluate f lookupPort (.cmp (portCmp 0 "tcp.dst" .lt 1024))) ∧
    (∀ c ∈ r.cmps, c.relop = .eq) ∧ r.Invariants :=
  exprSimplify_correct _ (by decide +kernel) (by simpa using portCmp_annotated (by decide) _ _ _)
    (by simpa using portCmp_simplifiable _ _ _ _)

/-! ## Conditions -/

/-- No node is a condition. -/
inductive Expr.Resolved : Expr → Prop
  | cmp (c : Cmp) : Resolved (.cmp c)
  | boolean (b : Bool) : Resolved (.boolean b)
  | andor {t : AndOr} {subs : List Expr} : (∀ e ∈ subs, e.Resolved) → Resolved (.andor t subs)

theorem Expr.Resolved.exprFix (h : e.Resolved) : (exprFix e).Resolved := by
  cases h with
  | cmp c => exact .cmp c
  | boolean b => exact .boolean b
  | @andor t subs h =>
    simp only [Ovn.exprFix, exprFixAndor]
    split
    · exact .boolean _
    · exact .boolean _
    · rename_i hf; exact h _ (mem_fixSubs hf _ mem_cons_self).1
    · rename_i hf; exact .andor fun e he => h e (mem_fixSubs hf e he).1

theorem Expr.Resolved.insertAndor {e' : Expr} (h : e.Resolved) (he : e' ∈ insertAndor t e) :
    e'.Resolved := by
  unfold Ovn.insertAndor at he
  split at he
  · split_ifs at he
    · cases h with
      | andor h => exact h e' he
    · rw [mem_singleton.1 he]; exact h
  · rw [mem_singleton.1 he]; exact h

theorem evaluateConditionSubs_eq (res : String → Bool) (t : AndOr) (subs : List Expr) :
    evaluateConditionSubs res t subs
      = (subs.map fun e => exprFix (exprEvaluateCondition res e)).flatMap (insertAndor t) := by
  induction subs with
  | nil => rfl
  | cons sub subs ih => rw [evaluateConditionSubs, ih]; rfl

/-- `r` is `e` with its conditions resolved. -/
structure ConditionFree (res : String → Bool) (e r : Expr) : Prop where
  tidy : r.Tidy
  resolved : r.Resolved
  cmps : r.cmps ⊆ e.cmps
  refines : ∀ res', Dnf.Refines Cmp.Sat Cmp.symbol (r.paths res') (e.paths res)

theorem exprEvaluateCondition_spec (res : String → Bool) (e : Expr) :
    ConditionFree res e (exprEvaluateCondition res e) := by
  induction e with
  | cmp c =>
    exact ⟨.cmp c, .cmp c, fun _ h => h, fun _ => by exact .refl _⟩
  | boolean b =>
    exact ⟨.boolean b, .boolean b, fun _ h => h, fun _ => by exact .refl _⟩
  | condition n s =>
    rw [exprEvaluateCondition]
    exact ⟨.boolean _, .boolean _, by simp, fun _ => by exact .refl _⟩
  | andor t subs ih =>
    rw [exprEvaluateCondition, evaluateConditionSubs_eq]
    constructor
    · refine tidy_rebuild fun r hr => ?_
      obtain ⟨e, he, rfl⟩ := mem_map.1 hr
      exact (ih e he).tidy.exprFix
    · refine (Expr.Resolved.andor fun e' he' => ?_).exprFix
      obtain ⟨r, hr, he'⟩ := mem_flatMap.1 he'
      obtain ⟨e, he, rfl⟩ := mem_map.1 hr
      exact (ih e he).resolved.exprFix.insertAndor he'
    · intro c hc
      obtain ⟨r, hr, hc⟩ := mem_cmps_rebuild hc
      obtain ⟨e, he, rfl⟩ := mem_map.1 hr
      exact mem_cmps_andor.2 ⟨e, he, (ih e he).cmps (cmps_exprFix_subset _ hc)⟩
    · intro res'
      refine refines_rebuild (forall₂_map_right_iff.2 (forall₂_same.2 fun e he => ?_))
      exact (refines_exprFix _).trans ((ih e he).refines res')

end Ovn

/-
  Crushing: an expression over a single symbol becomes a disjunction of
  comparisons (`crush_cmps` and its helpers, `lib/expr.c`).

  The C functions call each other: crushing an AND first crushes its operands,
  multiplies out two of them, and crushes the result again.  Here the helpers
  take the recursive call as an argument and `crushCmps` ties the knot on a
  fuel; `crushCmps_spec` says that on every expression over one symbol enough
  fuel gives a result, without running into an assertion, and that the result
  refines the expression.
-/
import Ovn.Expr.Simplify
import Mathlib.Data.List.Dedup
import Mathlib.Data.List.Sort

namespace Ovn

open List

/-! ## Unique symbols -/

mutual

def exprGetUniqueSymbol : Expr → Option ExprSymbol
  | .cmp c => some c.symbol
  | .andor _ subs => uniqueSymbolSubs none subs
  | .boolean _ => none
  | .condition _ _ => none

def uniqueSymbolSubs (prev : Option ExprSymbol) : List Expr → Option ExprSymbol
  | [] => prev
  | sub :: subs =>
    match exprGetUniqueSymbol sub with
    | none => none
    | some symbol =>
      if prev ≠ none ∧ prev ≠ some symbol then none else uniqueSymbolSubs (some symbol) subs

end

/-! ## Helpers -/

section
variable (crush : Expr → Except Abort Expr) (symbol : ExprSymbol)

def mfSubvalueIntersect (aValue aMask bValue bMask : MfSubvalue) :
    Option (MfSubvalue × MfSubvalue) :=
  if Bits.conflict aValue aMask bValue bMask then none
  else some (aValue ||| bValue, aMask ||| bMask)

/-- The operands of an OR that has to be a disjunction of comparisons.  The C
    code checks each one when it gets to it. -/
def orOperands : List Expr → Except Abort (List Cmp)
  | [] => .ok []
  | .cmp c :: subs => (orOperands subs).map (c :: ·)
  | _ :: _ => .error .assertion

def numericCmp (value mask : MfSubvalue) : Cmp where
  symbol := symbol
  relop := .eq
  string := ""
  value := value
  mask := mask
  asName := none

def stringCmp (string : String) : Cmp where
  symbol := symbol
  relop := .eq
  string := string
  value := 0
  mask := 0
  asName := none

/-- The first loop of `crush_and_string` and `crush_and_numeric`: crushes the
    operands and feeds the results to `step`, which returns `none` once the
    whole conjunction is known to be false. -/
def crushSubs {σ : Type} (crush : Expr → Except Abort Expr)
    (step : σ → Expr → Except Abort (Option σ)) : List Expr → σ → Except Abort (Option σ)
  | [], st => .ok (some st)
  | sub :: subs, st => do
    let new ← crush sub
    match ← step st new with
    | none => return none
    | some st => crushSubs crush step subs st

/-! ## Conjunctions over a string symbol -/

/-- The variables of the first loop of `crush_and_string`. -/
structure StringAnd where
  singleton : Option Cmp
  ors : List (List Expr)

/-- One iteration of the first loop of `crush_and_string`. -/
def crushAndStringStep (st : StringAnd) : Expr → Except Abort (Option StringAnd)
  | .cmp c =>
    match st.singleton with
    | none => .ok (some { st with singleton := some c })
    | some s => .ok (if c.string = s.string then some st else none)
  | .andor .and _ => .error .notReached
  | .andor .or subs => .ok (some { st with ors := st.ors ++ [subs] })
  | .boolean b => .ok (if b then some st else none)
  | .condition _ _ => .error .notReached

/-- The loop that intersects the strings of the ORs; `none` once nothing is left. -/
def intersectStrings : List String → List (List Cmp) → Option (List String)
  | result, [] => some result
  | result, cs :: css =>
    let strings := (cs.map Cmp.string).dedup
    let result := if result.isEmpty then strings else result.filter (· ∈ strings)
    if result.isEmpty then none else intersectStrings result css

/-- The second part of `crush_and_string`. -/
def crushAndStringRest (st : StringAnd) : Except Abort Expr := do
  let ors ← st.ors.mapM orOperands
  match st.singleton with
  | some s =>
    -- `disjunction_matches_string` for every OR
    return if ors.all fun cs => cs.any fun c => c.string == s.string then .cmp s
      else .boolean false
  | none =>
    match intersectStrings [] ors with
    | none => return .boolean false
    | some strings =>
      return exprFix (.andor .or (strings.map fun string => .cmp (stringCmp symbol string)))

def crushAndString (subs : List Expr) : Except Abort Expr := do
  if subs.length < 2 then throw .assertion
  match ← crushSubs crush crushAndStringStep subs ⟨none, []⟩ with
  | none => return .boolean false
  | some st => crushAndStringRest symbol st

/-! ## Disjunctions -/

/-- The width of a symbol, rounded up to whole 64-bit words. -/
def bitWidth : ℕ := (symbol.width + 63) / 64 * 64

/-- `mask_n_bits`: the number of 1-bits in the mask. -/
def maskNBits (c : Cmp) : ℕ :=
  (List.range (bitWidth symbol)).countP c.mask.getLsbD

/-- `compare_cmps_3way`, on comparisons on the same symbol. -/
def compareCmps3way (a b : Cmp) : Ordering :=
  if symbol.width = 0 then compare a.string b.string
  else
    (compare (maskNBits symbol a) (maskNBits symbol b)).then
      ((compare a.value.toNat b.value.toNat).then (compare a.mask.toNat b.mask.toNat))

/-- The loop that eliminates duplicates; `last` is the last one kept. -/
def dropDuplicates (symbol : ExprSymbol) (last : Cmp) : List Cmp → List Cmp
  | [] => [last]
  | c :: cs =>
    if compareCmps3way symbol last c = .eq then
      dropDuplicates symbol { last with asName := none } cs
    else last :: dropDuplicates symbol c cs

/-- `b` is a subset of `a`: `expr_bitmap_intersect_check` on the two and
    `bitmap_is_superset` on the masks. -/
def isSubset (b a : Cmp) : Bool :=
  ((List.range (bitWidth symbol)).all fun i =>
    !((a.value.getLsbD i ^^ b.value.getLsbD i) && (a.mask.getLsbD i && b.mask.getLsbD i))) &&
  (List.range (bitWidth symbol)).all fun i => !a.mask.getLsbD i || b.mask.getLsbD i

/-- The loop that eliminates every comparison that is a subset of one with fewer
    bits in its mask.  The C code runs over an array, with `next` and
    `mask_index` to skip what has been eliminated and what has too few bits. -/
def dropSubsets (symbol : ExprSymbol) : ℕ → List Cmp → List Cmp
  | 0, cs => cs
  | _, [] => []
  | fuel + 1, a :: cs =>
    let kept := cs.filter fun b => !(maskNBits symbol a < maskNBits symbol b && isSubset symbol b a)
    let a := if kept.length < cs.length then { a with asName := none } else a
    a :: dropSubsets symbol fuel kept

/-- `crush_or_supersets`, on the operands of the OR. -/
def crushOrSupersets (cs : List Cmp) : Except Abort (List Cmp) :=
  if ∀ a ∈ cs, ∀ b ∈ cs, a.symbol = b.symbol then
    match cs.insertionSort fun a b => (compareCmps3way symbol a b).isLE with
    | [] => .ok []
    | c :: sorted =>
      let subs := dropDuplicates symbol c sorted
      if symbol.width = 0 || symbol.level != .ordinal || cs.any (·.asName.isSome) then .ok subs
      else .ok (dropSubsets symbol subs.length subs)
  else .error .assertion

def crushOrSubs (crush : Expr → Except Abort Expr) : List Expr → Except Abort (List Expr)
  | [] => .ok []
  | sub :: subs => do
    let new ← crush sub
    let rest ← crushOrSubs crush subs
    return insertAndor .or new ++ rest

def crushOr (subs : List Expr) : Except Abort Expr := do
  match exprFix (.andor .or (← crushOrSubs crush subs)) with
  | .andor .or subs =>
    let cs ← crushOrSupersets symbol (← orOperands subs)
    return exprFix (.andor .or (cs.map .cmp))
  | e => return e

/-! ## Conjunctions over a numeric symbol -/

/-- The variables of the first loop of `crush_and_numeric`. -/
structure NumericAnd where
  value : MfSubvalue
  mask : MfSubvalue
  ors : List (List Expr)

/-- One iteration of the first loop of `crush_and_numeric`. -/
def crushAndNumericStep (st : NumericAnd) : Expr → Except Abort (Option NumericAnd)
  | .cmp c =>
    match mfSubvalueIntersect st.value st.mask c.value c.mask with
    | none => .ok none
    | some (value, mask) => .ok (some { st with value := value, mask := mask })
  | .andor .and _ => .error .notReached
  | .andor .or subs => .ok (some { st with ors := st.ors ++ [subs] })
  | .boolean b => .ok (if b then some st else none)
  | .condition _ _ => .error .notReached

/-- The product of a masked constant and one OR; the comparisons keep their
    address set. -/
def productOne (value mask : MfSubvalue) (disjuncts : List Cmp) : List Cmp :=
  disjuncts.filterMap fun c =>
    (mfSubvalueIntersect value mask c.value c.mask).map fun (value, mask) =>
      { c with value := value, mask := mask }

/-- The product of a masked constant and two ORs. -/
def productTwo (value mask : MfSubvalue) (as bs : List Cmp) : List Cmp :=
  as.flatMap fun a =>
    match mfSubvalueIntersect value mask a.value a.mask with
    | none => []
    | some (aValue, aMask) =>
      bs.filterMap fun b =>
        (mfSubvalueIntersect aValue aMask b.value b.mask).map fun (value, mask) =>
          numericCmp symbol value mask

/-- The second part of `crush_and_numeric`: multiplies out the ORs that are left. -/
def crushAndNumericRest (st : NumericAnd) : Except Abort Expr :=
  match st.ors with
  | [] =>
    if st.mask = 0 then .ok (.boolean true)
    else .ok (.cmp (numericCmp symbol st.value st.mask))
  | [disjuncts] => do
    match productOne st.value st.mask (← orOperands disjuncts) with
    | [] => return .boolean false
    | [c] => return .cmp c
    | cs => crush (.andor .or (cs.map .cmp))
  | as :: bs :: rest => do
    match productTwo symbol st.value st.mask (← orOperands as) (← orOperands bs) with
    | [] => return .boolean false
    | [c] =>
      if rest = [] then crush (.cmp c)
      else crush (combine .and (.cmp c) (.andor .and (rest.map (.andor .or))))
    | cs =>
      if rest ≠ [] then
        crush (combine .and (.andor .or (cs.map .cmp)) (.andor .and (rest.map (.andor .or))))
      else crush (.andor .or (cs.map .cmp))

def crushAndNumeric (subs : List Expr) : Except Abort Expr := do
  if subs.length < 2 then throw .assertion
  match ← crushSubs crush crushAndNumericStep subs ⟨0, 0, []⟩ with
  | none => return .boolean false
  | some st => crushAndNumericRest crush symbol st

def crushCmps : ℕ → ExprSymbol → Expr → Except Abort Expr
  | 0, _, _ => .error .fuel
  | fuel + 1, symbol, .andor .or subs => crushOr (crushCmps fuel symbol) symbol subs
  | fuel + 1, symbol, .andor .and subs =>
    if symbol.width ≠ 0 then crushAndNumeric (crushCmps fuel symbol) symbol subs
    else crushAndString (crushCmps fuel symbol) symbol subs
  | _ + 1, _, .cmp c => .ok (.cmp c)
  | _ + 1, _, .boolean b => .ok (.boolean b)
  | _ + 1, _, .condition _ _ => .error .notReached

end

/-! ## Meaning -/

/-- An assignment in which a port has one name, as an injective port lookup
    induces. -/
structure NamedAssignment extends Assignment where
  isName_unique : ∀ s a b, isName s a → isName s b → a = b

abbrev PathRefines (d' d : Set (Set Cmp)) : Prop :=
  Dnf.Refines (fun (σ : NamedAssignment) c => Cmp.Sat σ.toAssignment c) Cmp.symbol d' d

/-- A simple comparison on symbol `s`. -/
structure Cmp.On (s : ExprSymbol) (c : Cmp) : Prop extends c.Simple where
  symbol_eq : c.symbol = s

def alts (cs : List Cmp) : Set (Set Cmp) := {π | ∃ c ∈ cs, π = {c}}

@[simp] theorem alts_nil : alts [] = ∅ := by simp [alts]

@[simp] theorem alts_singleton (c : Cmp) : alts [c] = {{c}} := by ext; simp [alts]

theorem holds_alts {v : Cmp → Prop} {cs : List Cmp} : Dnf.Holds v (alts cs) ↔ ∃ c ∈ cs, v c := by
  constructor
  · rintro ⟨_, ⟨c, hc, rfl⟩, h⟩; exact ⟨c, hc, h c rfl⟩
  · rintro ⟨c, hc, h⟩; exact ⟨{c}, ⟨c, hc, rfl⟩, by rintro _ rfl; exact h⟩

section
variable {s : ExprSymbol} {c a b : Cmp} {σ : Assignment}

theorem Cmp.On.clearAsName (h : c.On s) : ({ c with asName := none } : Cmp).On s :=
  ⟨⟨⟨⟨h.symbol, h.string_eq, fun _ => rfl, h.mask_lt⟩, h.within⟩, h.eq, h.mask_ne⟩, h.symbol_eq⟩

theorem sat_clearAsName : ({ c with asName := none } : Cmp).Sat σ ↔ c.Sat σ := .rfl

theorem Cmp.On.sat_iff (h : c.On s) (hw : s.width ≠ 0) :
    c.Sat σ ↔ σ.num s &&& c.mask = c.value := by
  rw [← h.symbol_eq]; exact Cmp.sat_eq_iff (h.symbol_eq ▸ hw) h.eq

theorem Cmp.On.sat_string_iff (h : c.On s) (hw : s.width = 0) : c.Sat σ ↔ σ.isName s c.string := by
  rw [Cmp.Sat, if_neg (by rw [h.symbol_eq]; exact not_not.2 hw), h.symbol_eq]

theorem Cmp.On.mask_lt_bitWidth (h : c.On s) (hw : s.width ≠ 0) {i : ℕ}
    (hi : c.mask.getLsbD i = true) : i < bitWidth s := by
  have := h.mask_lt (h.symbol_eq ▸ hw) i hi
  rw [h.symbol_eq] at this
  unfold bitWidth; omega

theorem sat_of_compare_eq (ha : a.On s) (hb : b.On s) (h : compareCmps3way s a b = .eq) :
    b.Sat σ ↔ a.Sat σ := by
  unfold compareCmps3way at h
  split_ifs at h with hw
  · rw [ha.sat_string_iff hw, hb.sat_string_iff hw, Std.compare_eq_iff_eq.1 h]
  · simp only [Ordering.then_eq_eq, compare_eq_iff_eq, BitVec.toNat_inj] at h
    rw [ha.sat_iff hw, hb.sat_iff hw, h.2.1, h.2.2]

theorem sat_of_isSubset (ha : a.On s) (hb : b.On s) (hw : s.width ≠ 0)
    (h : isSubset s b a = true) : b.Sat σ → a.Sat σ := by
  simp only [isSubset, Bool.and_eq_true, all_eq_true, mem_range] at h
  rw [ha.sat_iff hw, hb.sat_iff hw, Bits.and_eq_iff (ha.within (ha.symbol_eq ▸ hw)),
    Bits.and_eq_iff (hb.within (hb.symbol_eq ▸ hw))]
  intro hx i hi
  have hlt := ha.mask_lt_bitWidth hw hi
  have hmask : b.mask.getLsbD i = true := by simpa [hi] using h.2 i hlt
  have hval := h.1 i hlt
  rw [hx i hmask]
  revert hval
  cases a.value.getLsbD i <;> cases b.value.getLsbD i <;> simp [hi, hmask]

end

/-! ## Disjunctions -/

/-- `out` is what is left of the disjunction `cs`: some of its comparisons,
    possibly without the address set, which still accept all that it accepts. -/
structure Reduced (out cs : List Cmp) : Prop where
  mem : ∀ c' ∈ out, ∃ c ∈ cs, c' = c ∨ c' = { c with asName := none }
  covers : ∀ σ : Assignment, ∀ c ∈ cs, c.Sat σ → ∃ c' ∈ out, c'.Sat σ

section
variable {s : ExprSymbol} {out cs ds : List Cmp}

theorem Reduced.refl (cs : List Cmp) : Reduced cs cs :=
  ⟨fun c hc => ⟨c, hc, .inl rfl⟩, fun _ c hc h => ⟨c, hc, h⟩⟩

theorem Reduced.trans (h : Reduced out cs) (h' : Reduced cs ds) : Reduced out ds := by
  constructor
  · intro c hc
    obtain ⟨d, hd, hcd⟩ := h.mem c hc
    obtain ⟨e, he, hde⟩ := h'.mem d hd
    refine ⟨e, he, ?_⟩
    rcases hcd with rfl | rfl <;> rcases hde with rfl | rfl <;> simp
  · intro σ e he hs
    obtain ⟨d, hd, hs⟩ := h'.covers σ e he hs
    exact h.covers σ d hd hs

theorem Reduced.of_perm (h : cs.Perm ds) : Reduced cs ds :=
  ⟨fun c hc => ⟨c, h.subset hc, .inl rfl⟩, fun _ c hc hs => ⟨c, h.symm.subset hc, hs⟩⟩

theorem Reduced.on (h : Reduced out cs) (hcs : ∀ c ∈ cs, c.On s) : ∀ c ∈ out, c.On s := by
  intro c hc
  obtain ⟨d, hd, rfl | rfl⟩ := h.mem c hc
  · exact hcs _ hd
  · exact (hcs d hd).clearAsName

theorem Reduced.cons (c : Cmp) (h : Reduced out cs) : Reduced (c :: out) (c :: cs) := by
  constructor
  · rintro c' (_ | ⟨_, hc'⟩)
    · exact ⟨c, mem_cons_self, .inl rfl⟩
    · obtain ⟨d, hd, hcd⟩ := h.mem c' hc'
      exact ⟨d, mem_cons_of_mem _ hd, hcd⟩
  · rintro σ c' (_ | ⟨_, hc'⟩) hs
    · exact ⟨c, mem_cons_self, hs⟩
    · obtain ⟨d, hd, hs⟩ := h.covers σ c' hc' hs
      exact ⟨d, mem_cons_of_mem _ hd, hs⟩

theorem Reduced.clearAsName (c : Cmp) (cs : List Cmp) :
    Reduced ({ c with asName := none } :: cs) (c :: cs) := by
  constructor
  · rintro c' (_ | ⟨_, hc'⟩)
    · exact ⟨c, mem_cons_self, .inr rfl⟩
    · exact ⟨c', mem_cons_of_mem _ hc', .inl rfl⟩
  · rintro σ c' (_ | ⟨_, hc'⟩) hs
    · exact ⟨_, mem_cons_self, hs⟩
    · exact ⟨c', mem_cons_of_mem _ hc', hs⟩

theorem Reduced.drop {c : Cmp} (hsub : ∀ d ∈ ds, d ∈ cs)
    (h : ∀ d ∈ cs, d ∉ ds → ∀ σ, d.Sat σ → c.Sat σ) : Reduced (c :: ds) (c :: cs) := by
  constructor
  · rintro c' (_ | ⟨_, hc'⟩)
    · exact ⟨c, mem_cons_self, .inl rfl⟩
    · exact ⟨c', mem_cons_of_mem _ (hsub c' hc'), .inl rfl⟩
  · rintro σ c' (_ | ⟨_, hc'⟩) hs
    · exact ⟨c, mem_cons_self, hs⟩
    · by_cases hd : c' ∈ ds
      · exact ⟨c', mem_cons_of_mem _ hd, hs⟩
      · exact ⟨c, mem_cons_self, h c' hc' hd σ hs⟩

theorem reduced_dropDuplicates : ∀ {cs : List Cmp} {last : Cmp}, last.On s →
    (∀ c ∈ cs, c.On s) → Reduced (dropDuplicates s last cs) (last :: cs)
  | [], last, _, _ => .refl _
  | c :: cs, last, hlast, hcs => by
    have hcs' : ∀ d ∈ cs, d.On s := (forall_mem_cons.1 hcs).2
    rw [dropDuplicates]
    split_ifs with h
    · refine (reduced_dropDuplicates hlast.clearAsName hcs').trans
        ((Reduced.clearAsName last cs).trans (.drop (fun d => mem_cons_of_mem c) ?_))
      rintro d (_ | ⟨_, hd⟩) hnot σ hs
      · exact (sat_of_compare_eq hlast (hcs _ mem_cons_self) h).1 hs
      · exact absurd hd hnot
    · exact (reduced_dropDuplicates (hcs c mem_cons_self) hcs').cons last

theorem reduced_dropSubsets (hw : s.width ≠ 0) : ∀ {fuel : ℕ} {cs : List Cmp},
    (∀ c ∈ cs, c.On s) → Reduced (dropSubsets s fuel cs) cs
  | 0, cs, _ => by rw [dropSubsets]; exact .refl _
  | fuel + 1, [], _ => by rw [dropSubsets]; exact .refl _; simp
  | fuel + 1, a :: cs, hcs => by
    have hcs' : ∀ d ∈ cs, d.On s := (forall_mem_cons.1 hcs).2
    rw [dropSubsets]
    set kept := cs.filter fun b => !(maskNBits s a < maskNBits s b && isSubset s b a) with hkept
    have hmem : ∀ d ∈ kept, d ∈ cs := fun d hd => mem_of_mem_filter hd
    have hdrop : Reduced (a :: kept) (a :: cs) := by
      refine .drop hmem fun d hd hnot σ hs => ?_
      have : isSubset s d a = true := by
        by_contra hsub
        exact hnot (mem_filter.2 ⟨hd, by simp [hsub]⟩)
      exact sat_of_isSubset (hcs a mem_cons_self) (hcs' d hd) hw this hs
    have hrest : Reduced (a :: dropSubsets s fuel kept) (a :: cs) :=
      ((reduced_dropSubsets hw fun d hd => hcs' d (hmem d hd)).cons a).trans hdrop
    split_ifs
    · exact (Reduced.clearAsName a _).trans hrest
    · exact hrest

theorem crushOrSupersets_spec (hcs : ∀ c ∈ cs, c.On s) :
    ∃ out, crushOrSupersets s cs = .ok out ∧ Reduced out cs := by
  have hsym : ∀ a ∈ cs, ∀ b ∈ cs, a.symbol = b.symbol := fun a ha b hb =>
    (hcs a ha).symbol_eq.trans (hcs b hb).symbol_eq.symm
  rw [crushOrSupersets, if_pos hsym]
  have hperm := perm_insertionSort (fun a b => (compareCmps3way s a b).isLE = true) cs
  split
  · rename_i heq; rw [heq] at hperm; exact ⟨_, rfl, .of_perm hperm⟩
  next c sorted heq =>
    rw [heq] at hperm
    have hon : ∀ d ∈ c :: sorted, d.On s := fun d hd => hcs d (hperm.subset hd)
    have hdup : Reduced (dropDuplicates s c sorted) cs :=
      (reduced_dropDuplicates (hon c mem_cons_self)
        (forall_mem_cons.1 hon).2).trans (.of_perm hperm)
    split_ifs with h
    · exact ⟨_, rfl, hdup⟩
    · have hw : s.width ≠ 0 := by intro hw; simp [hw] at h
      exact ⟨_, rfl, (reduced_dropSubsets hw (hdup.on hcs)).trans hdup⟩

end

theorem Reduced.refines {s : ExprSymbol} {out cs : List Cmp} (h : Reduced out cs)
    (hcs : ∀ c ∈ cs, c.On s) : PathRefines (alts out) (alts cs) := by
  constructor
  · rintro _ ⟨c', hc', rfl⟩
    obtain ⟨c, hc, hcc⟩ := h.mem c' hc'
    refine ⟨{c}, ⟨c, hc, rfl⟩, ?_, ?_⟩
    · rintro _ rfl
      exact ⟨c, rfl, (hcs c hc).symbol_eq.trans (h.on hcs _ hc').symbol_eq.symm⟩
    · rintro σ hσ _ rfl
      rcases hcc with rfl | rfl
      · exact hσ _ rfl
      · exact sat_clearAsName.1 (hσ _ rfl)
  · intro σ hσ
    rw [holds_alts] at hσ ⊢
    obtain ⟨c, hc, hs⟩ := hσ
    exact h.covers _ c hc hs

/-! ### `crush_or` -/

theorem orOperands_map (cs : List Cmp) : orOperands (cs.map .cmp) = .ok cs := by
  induction cs with
  | nil => rfl
  | cons c cs ih => rw [map_cons, orOperands, ih]; rfl

theorem fixSubs_map_cmp (b : Bool) (cs : List Cmp) :
    fixSubs b (cs.map .cmp) = some (cs.map .cmp) := by
  induction cs with
  | nil => rfl
  | cons c cs ih => rw [map_cons, fixSubs, ih]; rfl; simp

theorem exprFix_or_cmps (cs : List Cmp) : exprFix (.andor .or (cs.map .cmp)) = orCmps cs := by
  simp only [exprFix, exprFixAndor, fixSubs_map_cmp]
  rcases cs with _ | ⟨_, _ | _⟩ <;> rfl

theorem fixSubs_append {b : Bool} {xs ys xs' ys' : List Expr} (hx : fixSubs b xs = some xs')
    (hy : fixSubs b ys = some ys') : fixSubs b (xs ++ ys) = some (xs' ++ ys') := by
  induction xs generalizing xs' with
  | nil => cases hx; exact hy
  | cons x xs ih =>
    cases x with
    | boolean b' => simp_all [fixSubs]
    | cmp | andor | condition =>
      simp only [fixSubs, cons_append, Option.map_eq_some_iff] at hx ⊢
      obtain ⟨xs'', hx, rfl⟩ := hx
      exact ⟨_, ih hx, rfl⟩

theorem fixSubs_insertAndor_orCmps (cs : List Cmp) :
    fixSubs true (insertAndor .or (orCmps cs)) = some (cs.map .cmp) := by
  match cs with
  | [] => rfl
  | [c] => rfl
  | c :: c' :: cs => simpa [orCmps, insertAndor] using fixSubs_map_cmp true (c :: c' :: cs)

theorem exprFix_or_flatten (csl : List (List Cmp)) :
    exprFix (.andor .or ((csl.map orCmps).flatMap (insertAndor .or))) = orCmps csl.flatten := by
  have h : fixSubs true ((csl.map orCmps).flatMap (insertAndor .or))
      = some (csl.flatten.map .cmp) := by
    induction csl with
    | nil => rfl
    | cons cs csl ih =>
      rw [flatten_cons, map_append]
      exact fixSubs_append (fixSubs_insertAndor_orCmps cs) ih
  rw [← exprFix_or_cmps]
  simp only [exprFix, exprFixAndor, AndOr.shortCircuit, h, fixSubs_map_cmp]

/-- `crush` turns the operands `subs` into the disjunctions `csl`. -/
def CrushesTo (crush : Expr → Except Abort Expr) (subs : List Expr) (csl : List (List Cmp)) :
    Prop :=
  List.Forall₂ (fun e cs => crush e = .ok (orCmps cs)) subs csl

theorem CrushesTo.crushOrSubs {crush : Expr → Except Abort Expr} {subs : List Expr}
    {csl : List (List Cmp)} (h : CrushesTo crush subs csl) :
    crushOrSubs crush subs = .ok ((csl.map orCmps).flatMap (insertAndor .or)) := by
  induction h with
  | nil => rfl
  | cons h _ ih => rw [Ovn.crushOrSubs, h, ih]; rfl

theorem crushOr_spec {s : ExprSymbol} {csl : List (List Cmp)} (hon : ∀ c ∈ csl.flatten, c.On s) :
    ∃ out, Reduced out csl.flatten ∧ ∀ {crush subs}, CrushesTo crush subs csl →
      crushOr crush s subs = .ok (orCmps out) := by
  have hrun : ∀ {crush subs}, CrushesTo crush subs csl → crushOr crush s subs =
      match orCmps csl.flatten with
      | .andor .or subs => do
        let cs ← crushOrSupersets s (← orOperands subs)
        return exprFix (.andor .or (cs.map .cmp))
      | e => return e := fun h => by
    rw [crushOr, h.crushOrSubs]
    simp only [bind, Except.bind, exprFix_or_flatten]
  generalize csl.flatten = cs at hon hrun
  match cs, hon with
  | [], _ => exact ⟨[], .refl _, fun h => hrun h⟩
  | [c], _ => exact ⟨[c], .refl _, fun h => hrun h⟩
  | c :: c' :: cs, hon =>
    obtain ⟨out, hout, hred⟩ := crushOrSupersets_spec hon
    refine ⟨out, hred, fun h => ?_⟩
    rw [hrun h]
    simp only [orCmps, orOperands_map, hout, exprFix_or_cmps, bind, Except.bind]
    rfl

end Ovn

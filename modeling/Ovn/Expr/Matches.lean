/-
  From a normalized expression to OpenFlow matches: `expr_to_matches`
  (`lib/expr.c`).

  A comparison becomes one match, and an AND becomes one match if it has no OR,
  one match per operand if it has one OR, and otherwise conjunctive matches: the
  operands of the `k`th of `n` ORs become matches that carry `(id, k, n)`, and one
  more match is on `conj_id` being `id`.  Matches that are equal are merged as they
  are added to the table.

  `Hit` is when a packet is hit by a list of matches, and `Emission` what a term adds,
  merging aside.  The ids of different terms differ, so what a list of terms adds is
  hit if what one of them adds is.
-/
import Ovn.Expr.Normalize
import Mathlib.Data.Finset.Card

namespace Ovn

open List

/-! ## The code -/

/-- `struct match`: a value and a mask for some fields, the last one set first,
    and the value of `conj_id`, if that is matched on. -/
structure Match where
  conjId : Option ℕ
  fields : List (MfField × MfSubvalue × MfSubvalue)
  deriving DecidableEq, Repr

namespace Match

/-- `match_init_catchall`. -/
def catchall : Match := ⟨none, []⟩

def get (m : Match) (field : MfField) : MfSubvalue × MfSubvalue :=
  match m.fields.find? fun x => x.1 == field with
  | some x => x.2
  | none => (0, 0)

/-- `mf_mask_subfield`: replaces whatever the match has on the field. -/
def set (m : Match) (field : MfField) (value mask : MfSubvalue) : Match :=
  { m with fields := (field, value, mask) :: m.fields }

/-- `mf_write_subfield` of a port number, to all bits of the field. -/
def write (m : Match) (field : MfField) (port : BitVec 32) : Match :=
  let mask := BitVec.ofNat 1024 (2 ^ field.nBits - 1)
  m.set field (port.setWidth 1024 &&& mask) mask

/-- `match_equal`. -/
def equal (a b : Match) : Bool :=
  a.conjId == b.conjId && (a.fields ++ b.fields).all fun x => a.get x.1 == b.get x.1

/-- A packet, whose own `conj_id` is zero, satisfies a match. -/
def satisfied (f : Flow) (m : Match) : Bool :=
  m.conjId == none && m.fields.all fun x => f.get x.1 &&& (m.get x.1).2 == (m.get x.1).1

end Match

/-- `struct cls_conjunction`; `clause` and `nClauses` are of 8 bits. -/
structure Conjunction where
  id : ℕ
  clause : ℕ
  nClauses : ℕ
  deriving DecidableEq, Repr

/-- `struct expr_match`, with the `match` of the C code as `m`. -/
structure ExprMatch where
  m : Match
  conjunctions : List Conjunction
  asName : Option String
  asIp : BitVec 128
  asMask : BitVec 128
  deriving DecidableEq, Repr

def exprMatchNew (m : Match) (clause nClauses conjId : ℕ) : ExprMatch where
  m := m
  conjunctions := if conjId ≠ 0 then [⟨conjId, clause % 256, nClauses % 256⟩] else []
  asName := none
  asIp := 0
  asMask := 0

def exprMatchAdd : List ExprMatch → ExprMatch → Except Abort (List ExprMatch)
  | [], x => .ok [x]
  | m :: ms, x =>
    if m.m.equal x.m then
      if m.conjunctions = [] ∨ x.conjunctions = [] then
        .ok ({ m with conjunctions := [], asName := none } :: ms)
      else
        match x.conjunctions with
        | [c] => .ok ({ m with conjunctions := m.conjunctions ++ [c], asName := none } :: ms)
        | _ => .error .assertion
    else (exprMatchAdd ms x).map (m :: ·)

/-- `constrain_match`; `none` if the port can't be found. -/
def constrainMatch (lookupPort : LookupPort) (m : Match) : Expr → Except Abort (Option Match)
  | .cmp c =>
    if c.symbol.width ≠ 0 then .ok (some (m.set c.symbol.field c.value c.mask))
    else .ok ((lookupPort c.string).map (m.write c.symbol.field))
  | _ => .error .assertion

/-- The tracking of an address set in `add_disjunction`. -/
def trackAddressSet (x : ExprMatch) : Expr → Except Abort ExprMatch
  | .cmp c =>
    match c.asName with
    | none => .ok x
    | some asName =>
      if c.symbol.width = 0 then .error .assertion
      else .ok { x with
        asName := some asName
        asIp := c.value.setWidth 128
        asMask := c.mask.setWidth 128 }
  | _ => .ok x

/-- `add_disjunction`; the Boolean tells if anything has been added. -/
def addDisjunction (lookupPort : LookupPort) (m : Match) (clause nClauses conjId : ℕ) :
    List Expr → List ExprMatch → Except Abort (Bool × List ExprMatch)
  | [], ms => .ok (false, ms)
  | sub :: subs, ms => do
    let x ← trackAddressSet (exprMatchNew m clause nClauses conjId) sub
    match ← constrainMatch lookupPort x.m sub with
    | some m' =>
      let ms ← exprMatchAdd ms { x with m := m' }
      let (_, ms) ← addDisjunction lookupPort m clause nClauses conjId subs ms
      return (true, ms)
    | none => addDisjunction lookupPort m clause nClauses conjId subs ms

/-- The first loop of `add_conjunction`: the match that all comparisons make, and
    the number of ORs; `none` if a port can't be found. -/
def conjunctionBase (lookupPort : LookupPort) :
    List Expr → Match → ℕ → Except Abort (Option (Match × ℕ))
  | [], m, nClauses => .ok (some (m, nClauses))
  | sub :: subs, m, nClauses =>
    match sub with
    | .cmp _ => do
      match ← constrainMatch lookupPort m sub with
      | none => return none
      | some m => conjunctionBase lookupPort subs m nClauses
    | .andor .or _ => conjunctionBase lookupPort subs m (nClauses + 1)
    | _ => .error .notReached

/-- The loop of `add_conjunction` for more than one OR; the Boolean tells if it
    has come to the end. -/
def addClauses (lookupPort : LookupPort) (m : Match) (nClauses conjId : ℕ) :
    ℕ → List Expr → List ExprMatch → Except Abort (Bool × List ExprMatch)
  | _, [], ms => .ok (true, ms)
  | clause, sub :: subs, ms =>
    match sub with
    | .andor .or ks => do
      let (any, ms) ← addDisjunction lookupPort m clause nClauses conjId ks ms
      if any then addClauses lookupPort m nClauses conjId (clause + 1) subs ms
      else return (false, ms)
    | _ => addClauses lookupPort m nClauses conjId clause subs ms

/-- The loop of `add_conjunction` for a single OR. -/
def addOnlyClause (lookupPort : LookupPort) (m : Match) :
    List Expr → List ExprMatch → Except Abort (List ExprMatch)
  | [], ms => .ok ms
  | sub :: subs, ms =>
    match sub with
    | .andor .or ks => do
      let (_, ms) ← addDisjunction lookupPort m 0 0 0 ks ms
      addOnlyClause lookupPort m subs ms
    | _ => addOnlyClause lookupPort m subs ms

/-- `add_conjunction`; `nConjs` is the number of ids in use. -/
def addConjunction (lookupPort : LookupPort) (subs : List Expr) (nConjs : ℕ)
    (ms : List ExprMatch) : Except Abort (ℕ × List ExprMatch) := do
  match ← conjunctionBase lookupPort subs .catchall 0 with
  | none => return (nConjs, ms)
  | some (m, 0) => return (nConjs, ← exprMatchAdd ms (exprMatchNew m 0 0 0))
  | some (m, 1) => return (nConjs, ← addOnlyClause lookupPort m subs ms)
  | some (m, nClauses) =>
    let nConjs := nConjs + 1
    let (done, ms) ← addClauses lookupPort m nClauses nConjs 0 subs ms
    if done then
      return (nConjs, ← exprMatchAdd ms (exprMatchNew { m with conjId := some nConjs } 0 0 0))
    else return (nConjs, ms)

def addCmpFlow (lookupPort : LookupPort) (cmp : Expr) (ms : List ExprMatch) :
    Except Abort (List ExprMatch) := do
  let x := exprMatchNew .catchall 0 0 0
  match ← constrainMatch lookupPort x.m cmp with
  | some m => exprMatchAdd ms { x with m := m }
  | none => return ms

/-- The loop of `expr_to_matches` over the operands of an OR. -/
def addTerms (lookupPort : LookupPort) :
    List Expr → ℕ → List ExprMatch → Except Abort (ℕ × List ExprMatch)
  | [], nConjs, ms => .ok (nConjs, ms)
  | sub :: subs, nConjs, ms =>
    match sub with
    | .andor .and es => do
      let (nConjs, ms) ← addConjunction lookupPort es nConjs ms
      addTerms lookupPort subs nConjs ms
    | _ => do
      let ms ← addCmpFlow lookupPort sub ms
      addTerms lookupPort subs nConjs ms

/-- The loop of `expr_to_matches` over the operands of an OR on one symbol. -/
def addCmpFlows (lookupPort : LookupPort) :
    List Expr → List ExprMatch → Except Abort (List ExprMatch)
  | [], ms => .ok ms
  | sub :: subs, ms => do
    let ms ← addCmpFlow lookupPort sub ms
    addCmpFlows lookupPort subs ms

/-- `expr_to_matches`: the number of conjunction ids in use, and the table. -/
def exprToMatches (lookupPort : LookupPort) : Expr → Except Abort (ℕ × List ExprMatch)
  | .cmp c => do return (0, ← addCmpFlow lookupPort (.cmp c) [])
  | .andor .and subs => addConjunction lookupPort subs 0 []
  | .andor .or subs => do
    match exprGetUniqueSymbol (.andor .or subs) with
    | some _ => return (0, ← addCmpFlows lookupPort subs [])
    | none => addTerms lookupPort subs 0 []
  | .boolean true => do return (0, ← exprMatchAdd [] (exprMatchNew .catchall 0 0 0))
  | .boolean false => .ok (0, [])
  | .condition _ _ => .error .notReached

/-! ## Matches -/

namespace Match

theorem get_set (m : Match) (field : MfField) (value mask : MfSubvalue) (field' : MfField) :
    (m.set field value mask).get field' = if field' = field then (value, mask)
      else m.get field' := by
  unfold get set
  by_cases h : field' = field
  · subst h; simp
  · have h' : (field == field') = false := by simpa using fun h' => h h'.symm
    simp [h, h']

@[simp] theorem get_catchall (field : MfField) : catchall.get field = (0, 0) := rfl

variable {m : Match}

theorem get_of_forall_ne {field : MfField} (h : ∀ x ∈ m.fields, x.1 ≠ field) :
    m.get field = (0, 0) := by
  unfold get
  rw [List.find?_eq_none.2 fun x hx => by simpa using h x hx]

/-- What is checked of the fields that are listed holds of all, if it does of the others. -/
theorem all_fields_iff {l : List (MfField × MfSubvalue × MfSubvalue)} {p : MfField → Prop}
    (h : ∀ field, (∀ x ∈ l, x.1 ≠ field) → p field) : (∀ x ∈ l, p x.1) ↔ ∀ field, p field := by
  refine ⟨fun hl field => ?_, fun hall x _ => hall x.1⟩
  by_cases hf : ∃ x ∈ l, x.1 = field
  · obtain ⟨x, hx, rfl⟩ := hf
    exact hl x hx
  · exact h field fun x hx hxf => hf ⟨x, hx, hxf⟩

variable {a b : Match}

theorem equal_iff : a.equal b = true ↔ a.conjId = b.conjId ∧ ∀ field,
    a.get field = b.get field := by
  simp only [equal, Bool.and_eq_true, beq_iff_eq, all_eq_true]
  refine and_congr_right fun _ => all_fields_iff (p := fun _ => _ = _) fun field hne => ?_
  rw [get_of_forall_ne (forall_mem_append.1 hne).1, get_of_forall_ne (forall_mem_append.1 hne).2]

theorem satisfied_iff {f : Flow} : m.satisfied f = true ↔ m.conjId = none ∧
      ∀ field, f.get field &&& (m.get field).2 = (m.get field).1 := by
  simp only [satisfied, Bool.and_eq_true, beq_iff_eq, all_eq_true]
  refine and_congr_right fun _ => all_fields_iff
    (p := fun field => f.get field &&& (m.get field).2 = (m.get field).1) fun field hne => ?_
  rw [get_of_forall_ne hne]
  exact BitVec.and_zero

theorem satisfied_congr (h : a.equal b = true) (f : Flow) : a.satisfied f = b.satisfied f := by
  obtain ⟨hid, hget⟩ := equal_iff.1 h
  rw [Bool.eq_iff_iff, satisfied_iff, satisfied_iff, hid]
  simp only [hget]

theorem equal_refl (m : Match) : m.equal m = true := equal_iff.2 ⟨rfl, fun _ => rfl⟩

theorem equal_symm (h : a.equal b = true) : b.equal a = true := by
  obtain ⟨hid, hget⟩ := equal_iff.1 h
  exact equal_iff.2 ⟨hid.symm, fun field => (hget field).symm⟩

@[simp] theorem satisfied_catchall (f : Flow) : catchall.satisfied f = true := rfl

theorem satisfied_set {f : Flow} {field : MfField} (h : m.get field = (0, 0))
    (value mask : MfSubvalue) :
    (m.set field value mask).satisfied f = true ↔
      m.satisfied f = true ∧ f.get field &&& mask = value := by
  rw [satisfied_iff, satisfied_iff, and_assoc]
  refine and_congr_right fun _ => ⟨fun hs => ⟨fun field' => ?_, ?_⟩, fun hs field' => ?_⟩
  · by_cases heq : field' = field
    · subst heq; rw [h]; exact BitVec.and_zero
    · have := hs field'
      rwa [get_set, if_neg heq] at this
  · have := hs field
    rwa [get_set, if_pos rfl] at this
  · rw [get_set]
    split_ifs with heq
    · subst heq; exact hs.2
    · exact hs.1 field'

end Match

/-- A packet is hit by a list of matches: it satisfies one without conjunctions, or
    it satisfies for some `conj_id` flow a match for each of its clauses. -/
def Hit (f : Flow) (ms : List ExprMatch) : Prop :=
  (∃ x ∈ ms, x.conjunctions = [] ∧ x.m.satisfied f = true) ∨
  ∃ x ∈ ms, ∃ id, x.conjunctions = [] ∧ x.m.conjId = some id ∧
    ∃ n > 0, ∀ k < n, ∃ y ∈ ms, ⟨id, k, n⟩ ∈ y.conjunctions ∧ y.m.satisfied f = true

/-! ## Merging -/

/-- The table that results from adding the matches `L`. -/
structure Table (L ms : List ExprMatch) : Prop where
  plain : ∀ m ∈ ms, m.conjunctions = [] → ∃ x ∈ L, x.conjunctions = [] ∧ x.m.equal m.m = true
  conj : ∀ m ∈ ms, ∀ c ∈ m.conjunctions, ∃ x ∈ L, c ∈ x.conjunctions ∧ x.m.equal m.m = true
  covers : ∀ x ∈ L, ∃ m ∈ ms, x.m.equal m.m = true ∧
    (m.conjunctions = [] ∨ x.conjunctions ≠ [] ∧ x.conjunctions ⊆ m.conjunctions)

theorem Table.nil : Table [] [] := ⟨by simp, by simp, by simp⟩

/-- What `x` is for is kept in `x'`. -/
def ExprMatch.Kept (x x' : ExprMatch) : Prop :=
  x'.conjunctions = [] ∨ x.conjunctions ≠ [] ∧ x.conjunctions ⊆ x'.conjunctions

theorem ExprMatch.Kept.refl (x : ExprMatch) : x.Kept x := by
  by_cases hc : x.conjunctions = []
  · exact .inl hc
  · exact .inr ⟨hc, Subset.refl _⟩

theorem ExprMatch.Kept.trans {x y z : ExprMatch} (h : x.Kept y) (h' : y.Kept z) : x.Kept z := by
  rcases h' with hz | ⟨hy, hsub⟩
  · exact .inl hz
  · obtain ⟨hx, hsub'⟩ := h.resolve_left hy
    exact .inr ⟨hx, fun c hc => hsub (hsub' hc)⟩

/-- Adding `x` to the table `ms` makes it `ms'`. -/
structure Added (x : ExprMatch) (ms ms' : List ExprMatch) : Prop where
  plain : ∀ y ∈ ms', y.conjunctions = [] →
    x.conjunctions = [] ∧ x.m.equal y.m = true ∨ ∃ z ∈ ms, z.conjunctions = [] ∧ z.m = y.m
  conj : ∀ y ∈ ms', ∀ c ∈ y.conjunctions,
    c ∈ x.conjunctions ∧ x.m.equal y.m = true ∨ ∃ z ∈ ms, c ∈ z.conjunctions ∧ z.m = y.m
  kept : ∃ y ∈ ms', x.m.equal y.m = true ∧ x.Kept y
  old : ∀ z ∈ ms, ∃ y ∈ ms', z.m = y.m ∧ z.Kept y

theorem Added.merge {x m m' : ExprMatch} (ms : List ExprMatch) (hm : m.m = m'.m)
    (heq : m'.m.equal x.m = true)
    (hplain : m'.conjunctions = [] → m.conjunctions = [] ∨ x.conjunctions = [])
    (hconj : ∀ c ∈ m'.conjunctions, c ∈ m.conjunctions ∨ c ∈ x.conjunctions) (hx : x.Kept m')
    (hkept : m.Kept m') : Added x (m :: ms) (m' :: ms) := by
  refine ⟨?_, ?_, ⟨m', mem_cons_self, Match.equal_symm heq, hx⟩, ?_⟩
  · rintro y (_ | ⟨_, hy⟩) h0
    · exact (hplain h0).symm.imp (⟨·, Match.equal_symm heq⟩) (⟨m, mem_cons_self, ·, hm⟩)
    · exact .inr ⟨y, mem_cons_of_mem m hy, h0, rfl⟩
  · rintro y (_ | ⟨_, hy⟩) c hc
    · exact (hconj c hc).symm.imp (⟨·, Match.equal_symm heq⟩) (⟨m, mem_cons_self, ·, hm⟩)
    · exact .inr ⟨y, mem_cons_of_mem m hy, hc, rfl⟩
  · rintro z (_ | ⟨_, hz⟩)
    · exact ⟨m', mem_cons_self, hm, hkept⟩
    · exact ⟨z, mem_cons_of_mem _ hz, rfl, .refl z⟩

theorem exprMatchAdd_spec {x : ExprMatch} (hx : x.conjunctions.length ≤ 1) : ∀ ms : List ExprMatch,
    ∃ ms', exprMatchAdd ms x = .ok ms' ∧ Added x ms ms'
  | [] => ⟨[x], rfl, by simp [Match.equal_refl], by simp [Match.equal_refl],
      ⟨x, mem_cons_self, Match.equal_refl _, .refl x⟩, nofun⟩
  | m :: ms => by
    rw [exprMatchAdd]
    split_ifs with heq hor
    · exact ⟨_, rfl, .merge ms rfl heq (fun _ => hor) nofun (.inl rfl) (.inl rfl)⟩
    · rw [not_or] at hor
      obtain ⟨c, hc⟩ : ∃ c, x.conjunctions = [c] := by
        rw [← length_eq_one_iff]
        have := length_pos_iff.2 hor.2
        omega
      simp only [hc]
      refine ⟨_, rfl, .merge ms rfl heq (by simp) (fun d hd => ?_) (.inr ⟨hor.2, by simp [hc]⟩)
        (.inr ⟨hor.1, subset_append_left _ _⟩)⟩
      rw [hc]
      exact mem_append.1 hd
    · obtain ⟨ms', hadd, hplain, hconj, ⟨x', hin, hx'⟩, hkept⟩ := exprMatchAdd_spec hx ms
      refine ⟨m :: ms', by rw [hadd]; rfl, ?_, ?_, ⟨x', mem_cons_of_mem m hin, hx'⟩, ?_⟩
      · rintro y (_ | ⟨_, hy⟩) h0
        · exact .inr ⟨m, mem_cons_self, h0, rfl⟩
        · exact (hplain y hy h0).imp_right fun ⟨z, hz, h⟩ => ⟨z, mem_cons_of_mem m hz, h⟩
      · rintro y (_ | ⟨_, hy⟩) c hc
        · exact .inr ⟨m, mem_cons_self, hc, rfl⟩
        · exact (hconj y hy c hc).imp_right fun ⟨z, hz, h⟩ => ⟨z, mem_cons_of_mem m hz, h⟩
      · rintro z (_ | ⟨_, hz⟩)
        · exact ⟨m, mem_cons_self, rfl, .refl m⟩
        · obtain ⟨y, hy, h⟩ := hkept z hz
          exact ⟨y, mem_cons_of_mem m hy, h⟩

variable {L : List ExprMatch}

theorem Table.add {ms : List ExprMatch} (h : Table L ms) {x : ExprMatch}
    (hx : x.conjunctions.length ≤ 1) :
    ∃ ms', exprMatchAdd ms x = .ok ms' ∧ Table (L ++ [x]) ms' := by
  have hL : ∀ y ∈ L, y ∈ L ++ [x] := fun y hy => mem_append_left _ hy
  have hxL : x ∈ L ++ [x] := mem_append_right L mem_cons_self
  obtain ⟨ms', hadd, hplain, hconj, hkept, hold⟩ := exprMatchAdd_spec hx ms
  refine ⟨ms', hadd, fun y hy h0 => ?_, fun y hy c hc => ?_, fun y hy => ?_⟩
  · rcases hplain y hy h0 with hx | ⟨z, hz, h0, hzy⟩
    · exact ⟨x, hxL, hx⟩
    · obtain ⟨w, hw, hwc, heq⟩ := h.plain z hz h0
      exact ⟨w, hL w hw, hwc, hzy ▸ heq⟩
  · rcases hconj y hy c hc with hx | ⟨z, hz, hc, hzy⟩
    · exact ⟨x, hxL, hx⟩
    · obtain ⟨w, hw, hwc, heq⟩ := h.conj z hz c hc
      exact ⟨w, hL w hw, hwc, hzy ▸ heq⟩
  · rcases mem_append.1 hy with hy | hy
    · obtain ⟨z, hz, heq, hk⟩ := h.covers y hy
      obtain ⟨w, hw, hzw, hk'⟩ := hold z hz
      exact ⟨w, hw, hzw ▸ heq, ExprMatch.Kept.trans hk hk'⟩
    · rw [mem_singleton.1 hy]
      exact hkept

/-- **Merging does not change what is hit.**  A match that loses its conjunctions
    has become one that hits on its own. -/
theorem Table.hit_iff {ms : List ExprMatch} (h : Table L ms) (f : Flow) : Hit f ms ↔ Hit f L := by
  constructor
  · rintro (⟨m, hm, hc, hs⟩ | ⟨m, hm, id, hc, hid, n, hn, hk⟩)
    · obtain ⟨x, hx, hxc, heq⟩ := h.plain m hm hc
      exact .inl ⟨x, hx, hxc, by rw [Match.satisfied_congr heq]; exact hs⟩
    · obtain ⟨x, hx, hxc, heq⟩ := h.plain m hm hc
      refine .inr ⟨x, hx, id, hxc, (Match.equal_iff.1 heq).1.trans hid, n, hn, fun k hkn => ?_⟩
      obtain ⟨y, hy, hyc, hys⟩ := hk k hkn
      obtain ⟨z, hz, hzc, heq⟩ := h.conj y hy _ hyc
      exact ⟨z, hz, hzc, by rw [Match.satisfied_congr heq]; exact hys⟩
  · rintro (⟨x, hx, hc, hs⟩ | ⟨x, hx, id, hc, hid, n, hn, hk⟩)
    · obtain ⟨m, hm, heq, hcon⟩ := h.covers x hx
      have hmc := hcon.resolve_right fun h => h.1 hc
      exact .inl ⟨m, hm, hmc, by rw [← Match.satisfied_congr heq]; exact hs⟩
    · obtain ⟨m, hm, heq, hcon⟩ := h.covers x hx
      have hmc := hcon.resolve_right fun h => h.1 hc
      by_cases hall : ∀ k < n, ∃ y ∈ ms, ⟨id, k, n⟩ ∈ y.conjunctions ∧ y.m.satisfied f = true
      · exact .inr ⟨m, hm, id, hmc, (Match.equal_iff.1 heq).1.symm.trans hid, n, hn, hall⟩
      -- the match for some clause has lost it
      simp only [not_forall] at hall
      obtain ⟨k, hkn, hno⟩ := hall
      obtain ⟨y, hy, hyc, hys⟩ := hk k hkn
      obtain ⟨z, hz, heq, hcon⟩ := h.covers y hy
      have hzs : z.m.satisfied f = true := by rw [← Match.satisfied_congr heq]; exact hys
      rcases hcon with hnil | ⟨-, hsub⟩
      · exact .inl ⟨z, hz, hnil, hzs⟩
      · exact absurd ⟨z, hz, hsub hyc, hzs⟩ hno

/-! ## Emissions -/

/-- A list of matches as it is added, with the conjunction ids above `lo` up to
    `hi`. -/
structure Emission (lo hi : ℕ) (L : List ExprMatch) : Prop where
  small : ∀ x ∈ L, x.conjunctions.length ≤ 1
  ids : ∀ x ∈ L, ∀ c ∈ x.conjunctions, lo < c.id ∧ c.id ≤ hi
  conjId : ∀ x ∈ L, ∀ id, x.m.conjId = some id → lo < id ∧ id ≤ hi
  le : lo ≤ hi

theorem Emission.nil (lo : ℕ) : Emission lo lo [] := ⟨by simp, by simp, by simp, le_rfl⟩

variable {lo hi : ℕ} {L' : List ExprMatch}

theorem Emission.union (h : Emission lo hi L) (h' : Emission lo hi L') : Emission lo hi (L ++ L') :=
  ⟨forall_mem_append.2 ⟨h.small, h'.small⟩, forall_mem_append.2 ⟨h.ids, h'.ids⟩,
    forall_mem_append.2 ⟨h.conjId, h'.conjId⟩, h.le⟩

theorem Emission.widen {lo' hi' : ℕ} (h : Emission lo hi L) (hlo : lo' ≤ lo) (hhi : hi ≤ hi') :
    Emission lo' hi' L :=
  ⟨h.small, fun x hx c hc => (h.ids x hx c hc).imp hlo.trans_lt hhi.trans',
    fun x hx id hid => (h.conjId x hx id hid).imp hlo.trans_lt hhi.trans',
      hlo.trans (h.le.trans hhi)⟩

theorem Emission.append {mid : ℕ} (h : Emission lo mid L) (h' : Emission mid hi L') :
    Emission lo hi (L ++ L') :=
  (h.widen le_rfl h'.le).union (h'.widen h.le le_rfl)

theorem Hit.mono {f : Flow} (h : ∀ x ∈ L, x ∈ L') (hL : Hit f L) : Hit f L' := by
  rcases hL with ⟨x, hx, hc, hs⟩ | ⟨x, hx, id, hc, hid, n, hn, hk⟩
  · exact .inl ⟨x, h x hx, hc, hs⟩
  · refine .inr ⟨x, h x hx, id, hc, hid, n, hn, fun k hkn => ?_⟩
    obtain ⟨y, hy, hyc, hys⟩ := hk k hkn
    exact ⟨y, h y hy, hyc, hys⟩

/-- Matches with different conjunction ids do not interfere. -/
theorem Emission.hit_append {mid : ℕ} (h : Emission lo mid L) (h' : Emission mid hi L') (f : Flow) :
    Hit f (L ++ L') ↔ Hit f L ∨ Hit f L' := by
  constructor
  · rintro (⟨x, hx, hc, hs⟩ | ⟨x, hx, id, hc, hid, n, hn, hk⟩)
    · rcases mem_append.1 hx with hx | hx
      · exact .inl (.inl ⟨x, hx, hc, hs⟩)
      · exact .inr (.inl ⟨x, hx, hc, hs⟩)
    · rcases mem_append.1 hx with hx | hx
      · refine .inl (.inr ⟨x, hx, id, hc, hid, n, hn, fun k hkn => ?_⟩)
        obtain ⟨y, hy, hyc, hys⟩ := hk k hkn
        refine ⟨y, (mem_append.1 hy).resolve_right fun hy => ?_, hyc, hys⟩
        exact absurd (h.conjId x hx id hid).2 (not_le.2 (h'.ids y hy _ hyc).1)
      · refine .inr (.inr ⟨x, hx, id, hc, hid, n, hn, fun k hkn => ?_⟩)
        obtain ⟨y, hy, hyc, hys⟩ := hk k hkn
        refine ⟨y, (mem_append.1 hy).resolve_left fun hy => ?_, hyc, hys⟩
        exact absurd (h'.conjId x hx id hid).1 (not_lt.2 (h.ids y hy _ hyc).2)
  · rintro (hL | hL)
    · exact hL.mono fun x hx => mem_append_left _ hx
    · exact hL.mono fun x hx => mem_append_right _ hx

/-! ## Comparisons and disjunctions -/

section
variable {lookupPort : LookupPort}
variable {m : Match}

theorem satisfied_write {f : Flow} {field : MfField} (h : m.get field = (0, 0))
    (hn : field.nBits ≤ 1024)
    (hp : 32 ≤ field.nBits) (port : BitVec 32) : (m.write field port).satisfied f = true ↔
      m.satisfied f = true ∧ (f.get field).toNat = port.toNat := by
  rw [Match.write, Match.satisfied_set h, ← BitVec.toNat_inj, Bits.toNat_and_ones hn,
    Bits.toNat_setWidth_and_ones hp hn, Nat.mod_eq_of_lt (f.get_lt field)]

variable {c : Cmp}

theorem constrainMatch_spec (lookupPort : LookupPort) (hc : c.Simple)
    (hfree : m.get c.symbol.field = (0, 0)) :
    (constrainMatch lookupPort m (.cmp c) = .ok none ∧ ∀ f, ¬c.Sat (.ofFlow f lookupPort)) ∨
    ∃ m', constrainMatch lookupPort m (.cmp c) = .ok (some m') ∧ m'.conjId = m.conjId ∧
      (∀ field ≠ c.symbol.field, m'.get field = m.get field) ∧
      ∀ f, m'.satisfied f = true ↔ m.satisfied f = true ∧ c.Sat (.ofFlow f lookupPort) := by
  rw [constrainMatch]
  split_ifs with hw
  · refine .inr ⟨_, rfl, rfl, fun field hf => by rw [Match.get_set, if_neg hf], fun f => ?_⟩
    rw [Match.satisfied_set hfree, Cmp.sat_eq_iff hw hc.eq]
    rfl
  · have hw : c.symbol.width = 0 := not_not.1 hw
    have hsat : ∀ f, c.Sat (.ofFlow f lookupPort) ↔ ∃ port, lookupPort c.string = some port ∧
        (f.get c.symbol.field).toNat = port.toNat := fun f => by
      rw [Cmp.Sat, if_neg (not_not.2 hw)]; rfl
    cases hp : lookupPort c.string with
    | none => exact .inl ⟨rfl, fun f => by rw [hsat, hp]; simp⟩
    | some port =>
      refine .inr ⟨m.write c.symbol.field port, rfl, rfl, fun field hf => by
        rw [Match.write, Match.get_set, if_neg hf], fun f => ?_⟩
      have hbits : c.symbol.field.nBits ≤ 1024 :=
        hc.symbol.bits_le.trans (by have := hc.symbol.bytes_le; omega)
      rw [satisfied_write hfree hbits (hc.symbol.string_bits hw), hsat, hp]
      simp

/-- `E` are the matches for the comparisons `cs`, on top of `m`. -/
structure Alternatives (lookupPort : LookupPort) (m : Match) (conj : List Conjunction)
    (cs : List Cmp) (E : List ExprMatch) : Prop where
  conj_eq : ∀ x ∈ E, x.conjunctions = conj
  conjId : ∀ x ∈ E, x.m.conjId = m.conjId
  sat : ∀ f, (∃ x ∈ E, x.m.satisfied f = true) ↔
    m.satisfied f = true ∧ ∃ c ∈ cs, c.Sat (.ofFlow f lookupPort)

theorem Alternatives.nil (m : Match) (conj : List Conjunction) :
    Alternatives lookupPort m conj [] [] :=
  ⟨by simp, by simp, by simp⟩

variable {conj : List Conjunction} {cs : List Cmp} {E : List ExprMatch}

theorem Alternatives.skip (h : Alternatives lookupPort m conj cs E)
    (hc : ∀ f, ¬c.Sat (.ofFlow f lookupPort)) : Alternatives lookupPort m conj (c :: cs) E := by
  refine ⟨h.conj_eq, h.conjId, fun f => ?_⟩
  rw [h.sat f]
  simp [hc f]

theorem Alternatives.cons (h : Alternatives lookupPort m conj cs E) {x : ExprMatch}
    (hconj : x.conjunctions = conj) (hid : x.m.conjId = m.conjId)
    (hx : ∀ f, x.m.satisfied f = true ↔ m.satisfied f = true ∧ c.Sat (.ofFlow f lookupPort)) :
    Alternatives lookupPort m conj (c :: cs) (x :: E) := by
  refine ⟨forall_mem_cons.2 ⟨hconj, h.conj_eq⟩, forall_mem_cons.2 ⟨hid, h.conjId⟩, fun f => ?_⟩
  rw [exists_mem_cons_iff, h.sat f, hx f, exists_mem_cons_iff, and_or_left]

theorem Alternatives.append {cs' : List Cmp} {E' : List ExprMatch}
    (h : Alternatives lookupPort m conj cs E) (h' : Alternatives lookupPort m conj cs' E') :
    Alternatives lookupPort m conj (cs ++ cs') (E ++ E') := by
  refine ⟨forall_mem_append.2 ⟨h.conj_eq, h'.conj_eq⟩, forall_mem_append.2 ⟨h.conjId, h'.conjId⟩,
    fun f => ?_⟩
  simp only [mem_append, or_and_right, exists_or, h.sat f, h'.sat f, and_or_left]

theorem length_conjunctions_exprMatchNew (m : Match) (clause nClauses conjId : ℕ) :
    (exprMatchNew m clause nClauses conjId).conjunctions.length ≤ 1 := by
  unfold exprMatchNew; dsimp only; split <;> simp

theorem trackAddressSet_spec (x : ExprMatch) (hc : c.Simple) :
    ∃ x', trackAddressSet x (.cmp c) = .ok x' ∧ x'.m = x.m ∧ x'.conjunctions = x.conjunctions := by
  unfold trackAddressSet
  dsimp only
  cases h : c.asName with
  | none => exact ⟨x, rfl, rfl, rfl⟩
  | some name =>
    have hw : c.symbol.width ≠ 0 := fun hw => by rw [hc.string_as hw] at h; cases h
    simp only [hw]
    exact ⟨_, rfl, rfl, rfl⟩

theorem addDisjunction_spec (lookupPort : LookupPort) (m : Match) (clause nClauses conjId : ℕ) :
    ∀ {cs : List Cmp}, (∀ c ∈ cs, c.Simple ∧ m.get c.symbol.field = (0, 0)) →
      ∀ {L ms : List ExprMatch},
      Table L ms → ∃ E ms', addDisjunction lookupPort m clause nClauses conjId (cs.map .cmp) ms
          = .ok (!E.isEmpty, ms') ∧ Table (L ++ E) ms' ∧
        Alternatives lookupPort m (exprMatchNew m clause nClauses conjId).conjunctions cs E
  | [], _, L, ms, hT => ⟨[], ms, rfl, by simpa using hT, .nil _ _⟩
  | c :: cs, hcs, L, ms, hT => by
    obtain ⟨hc, hfree⟩ := hcs c mem_cons_self
    have hcs' : ∀ c ∈ cs, c.Simple ∧ m.get c.symbol.field = (0, 0) := (forall_mem_cons.1 hcs).2
    obtain ⟨x, htrack, hxm, hxc⟩ := trackAddressSet_spec (exprMatchNew m clause nClauses conjId) hc
    have hxm : x.m = m := hxm
    rw [map_cons, addDisjunction, htrack]
    simp only [bind, Except.bind, hxm]
    rcases constrainMatch_spec lookupPort hc hfree with
      ⟨hnone, hno⟩ | ⟨m', hsome, hid, -, hsat⟩
    · obtain ⟨E, ms', hrun, hT', hE⟩ := addDisjunction_spec lookupPort m clause nClauses
        conjId hcs' hT
      exact ⟨E, ms', by rw [hnone]; exact hrun, hT', hE.skip hno⟩
    obtain ⟨ms₁, hadd, hT1⟩ := hT.add (x := { x with m := m' })
      (by rw [hxc]; exact length_conjunctions_exprMatchNew _ _ _ _)
    obtain ⟨E, ms', hrun, hT', hE⟩ := addDisjunction_spec lookupPort m clause nClauses conjId
      hcs' hT1
    refine ⟨{ x with m := m' } :: E, ms', ?_, by simpa using hT', hE.cons hxc hid hsat⟩
    rw [hsome]
    simp only [hadd, hrun]
    rfl

/-! ## Conjunctions -/

def ors (rs : ClauseList) : ClauseList :=
  rs.filter fun r => 2 ≤ r.2.length

/-- The clauses of a term, on pairwise different fields. -/
structure Clauses (rs : ClauseList) : Prop where
  clause : ∀ r ∈ rs, Clause r.1 r.2
  nodup : (rs.map fun r => r.1.field).Nodup

variable {rs : ClauseList}

theorem Clause.simple {s : ExprSymbol} (h : Clause s cs) (hfree : m.get s.field = (0, 0)) :
    ∀ c ∈ cs, c.Simple ∧ m.get c.symbol.field = (0, 0) := fun c hc =>
  ⟨(h.on c hc).toSimple, by rw [(h.on c hc).symbol_eq]; exact hfree⟩

theorem Clauses.tail {r : ExprSymbol × List Cmp} (h : Clauses (r :: rs)) : Clauses rs :=
  ⟨(forall_mem_cons.1 h.clause).2, (nodup_cons.1 h.nodup).2⟩

def Clause.Sat (σ : Assignment) (cs : List Cmp) : Prop := ∃ c ∈ cs, c.Sat σ

/-- The base match `m'` of a term, from `m`: it has the comparisons, and leaves the
    fields of the ORs free. -/
structure Base (lookupPort : LookupPort) (rs : ClauseList) (m m' : Match) : Prop where
  conjId : m'.conjId = m.conjId
  free : ∀ field, (∀ r ∈ rs, r.1.field = field → 2 ≤ r.2.length) → m'.get field = m.get field
  sat : ∀ f, m'.satisfied f = true ↔ m.satisfied f = true ∧
    ∀ r ∈ rs, r.2.length < 2 → Clause.Sat (.ofFlow f lookupPort) r.2

theorem conjunctionBase_spec (lookupPort : LookupPort) : ∀ {rs : ClauseList}, Clauses rs →
    ∀ {m : Match} {n : ℕ}, (∀ r ∈ rs, m.get r.1.field = (0, 0)) →
      (conjunctionBase lookupPort (rs.map fun r => orCmps r.2) m n = .ok none ∧
        ∀ f, ¬∀ r ∈ rs, Clause.Sat (.ofFlow f lookupPort) r.2) ∨
      ∃ m', conjunctionBase lookupPort (rs.map fun r => orCmps r.2) m n
          = .ok (some (m', n + (ors rs).length)) ∧ Base lookupPort rs m m'
  | [], _, m, n, _ => .inr ⟨m, rfl, rfl, fun _ _ => rfl, by simp⟩
  | (s, cs) :: rs, h, m, n, hfree => by
    have hcl : Clause s cs := h.clause (s, cs) mem_cons_self
    have hfield : ∀ r ∈ rs, r.1.field ≠ s.field := fun r hr heq =>
      (nodup_cons.1 h.nodup).1 (mem_map.2 ⟨r, hr, heq⟩)
    have hfree' : ∀ r ∈ rs, m.get r.1.field = (0, 0) := (forall_mem_cons.1 hfree).2
    rw [map_cons]
    match cs, hcl with
    | [], hcl => exact absurd rfl hcl.ne
    | [c], hcl =>
      have hc := hcl.on c mem_cons_self
      have hors : ors ((s, [c]) :: rs) = ors rs := by simp [ors]
      have hone : ∀ f, Clause.Sat (.ofFlow f lookupPort) [c] ↔ c.Sat (.ofFlow f lookupPort) :=
        fun f => by simp [Clause.Sat]
      have hcfree : m.get c.symbol.field = (0, 0) := by
        rw [hc.symbol_eq]; exact hfree (s, [c]) mem_cons_self
      simp only [orCmps, conjunctionBase]
      rcases constrainMatch_spec lookupPort hc.toSimple hcfree with
        ⟨hnone, hno⟩ | ⟨m₁, hsome, hid, hget, hsat⟩
      · refine .inl ⟨by rw [hnone]; rfl, fun f hall => hno f ?_⟩
        exact (hone f).1 (hall (s, [c]) mem_cons_self)
      rw [hsome]
      have hfree1 : ∀ r ∈ rs, m₁.get r.1.field = (0, 0) := fun r hr => by
        rw [hget _ (hc.symbol_eq ▸ hfield r hr)]; exact hfree' r hr
      rcases conjunctionBase_spec lookupPort h.tail hfree1 with ⟨hnone, hno⟩ | ⟨m', hrun, hb⟩
      · exact .inl ⟨hnone, fun f hall => hno f (forall_mem_cons.1 hall).2⟩
      refine .inr ⟨m', by rw [hors]; exact hrun, hb.conjId.trans hid, fun field hf => ?_,
        fun f => ?_⟩
      · rw [hb.free field (forall_mem_cons.1 hf).2, hget]
        rintro rfl
        have := hf (s, [c]) mem_cons_self (congrArg ExprSymbol.field hc.symbol_eq.symm)
        simp at this
      · rw [hb.sat f, hsat f, forall_mem_cons, and_assoc, hone f]
        simp
    | c :: c' :: cs, hcl =>
      have hors : ors ((s, c :: c' :: cs) :: rs) = (s, c :: c' :: cs) :: ors rs := by simp [ors]
      rcases conjunctionBase_spec lookupPort h.tail hfree' with ⟨hnone, hno⟩ | ⟨m', hrun, hb⟩
      · exact .inl ⟨hnone, fun f hall => hno f (forall_mem_cons.1 hall).2⟩
      refine .inr ⟨m', ?_, hb.conjId, fun field hf => ?_, fun f => ?_⟩
      · rw [hors, length_cons, show n + ((ors rs).length + 1) = n + 1 + (ors rs).length by omega]
        exact hrun
      · exact hb.free field (forall_mem_cons.1 hf).2
      · rw [hb.sat f]
        simp

/-- The matches `E` for the ORs of a term, from clause `k` on. -/
structure ClauseMatches (lookupPort : LookupPort) (m : Match) (id n k : ℕ)
    (qs : ClauseList) (E : List ExprMatch) : Prop where
  conj : ∀ x ∈ E, ∃ j, k ≤ j ∧ x.conjunctions = [⟨id, j, n⟩]
  conjId : ∀ x ∈ E, x.m.conjId = m.conjId
  sat : ∀ j (hj : j < qs.length) f,
    (∃ x ∈ E, x.conjunctions = [⟨id, k + j, n⟩] ∧ x.m.satisfied f = true) ↔
      m.satisfied f = true ∧ Clause.Sat (.ofFlow f lookupPort) qs[j].2

variable {id n : ℕ}

theorem ClauseMatches.cons {k : ℕ} {q : ExprSymbol × List Cmp} {qs : ClauseList}
    {E₀ : List ExprMatch} (h0 : Alternatives lookupPort m [⟨id, k, n⟩] q.2 E₀)
    (h : ClauseMatches lookupPort m id n (k + 1) qs E) :
    ClauseMatches lookupPort m id n k (q :: qs) (E₀ ++ E) := by
  refine ⟨fun x hx => ?_, forall_mem_append.2 ⟨h0.conjId, h.conjId⟩, fun j hj f => ?_⟩
  · rcases mem_append.1 hx with hx | hx
    · exact ⟨k, le_rfl, h0.conj_eq x hx⟩
    · obtain ⟨j, hj, hc⟩ := h.conj x hx; exact ⟨j, by omega, hc⟩
  cases j with
  | zero =>
    rw [getElem_cons_zero, Clause.Sat, ← h0.sat f]
    constructor
    · rintro ⟨x, hx, hc, hs⟩
      rcases mem_append.1 hx with hx | hx
      · exact ⟨x, hx, hs⟩
      · obtain ⟨j, hj, hc'⟩ := h.conj x hx
        rw [hc, List.cons.injEq, Conjunction.mk.injEq] at hc'
        omega
    · rintro ⟨x, hx, hs⟩
      exact ⟨x, mem_append_left _ hx, h0.conj_eq x hx, hs⟩
  | succ j =>
    rw [getElem_cons_succ, ← h.sat j (by simpa using hj) f, show k + (j + 1) = k + 1 + j by omega]
    constructor
    · rintro ⟨x, hx, hc, hs⟩
      rcases mem_append.1 hx with hx | hx
      · rw [h0.conj_eq x hx, List.cons.injEq, Conjunction.mk.injEq] at hc
        omega
      · exact ⟨x, hx, hc, hs⟩
    · rintro ⟨x, hx, hc, hs⟩
      exact ⟨x, mem_append_right _ hx, hc, hs⟩

def OrsFree (m : Match) (rs : ClauseList) : Prop :=
  ∀ r ∈ rs, Clause r.1 r.2 ∧ (2 ≤ r.2.length → m.get r.1.field = (0, 0))

/-- The loop over the ORs: it either adds matches for all of them, or stops at one
    that cannot be true. -/
theorem addClauses_spec (lookupPort : LookupPort) (hid : id ≠ 0) (hn : n < 256) :
    ∀ {rs : ClauseList}, OrsFree m rs → ∀ {k : ℕ}, k + (ors rs).length ≤ n →
      ∀ {L ms : List ExprMatch}, Table L ms →
      (∃ E ms', addClauses lookupPort m n id k (rs.map fun r => orCmps r.2) ms
          = .ok (true, ms') ∧ Table (L ++ E) ms' ∧ ClauseMatches lookupPort m id n k (ors rs) E) ∨
      ∃ E ms', addClauses lookupPort m n id k (rs.map fun r => orCmps r.2) ms
          = .ok (false, ms') ∧ Table (L ++ E) ms' ∧
          (∀ x ∈ E, x.m.conjId = m.conjId ∧ ∃ j, x.conjunctions = [⟨id, j, n⟩]) ∧
          ∃ r ∈ rs, ∀ f, m.satisfied f = true → ¬Clause.Sat (.ofFlow f lookupPort) r.2
  | [], _, k, _, L, ms, hT =>
    .inl ⟨[], ms, rfl, by simpa using hT, by simp, by simp, by simp [ors]⟩
  | (s, cs) :: rs, h, k, hk, L, ms, hT => by
    obtain ⟨⟨hsc, hfree⟩, hrs⟩ := forall_mem_cons.1 h
    rw [map_cons]
    match cs, hsc, hfree with
    | [], hsc, _ => exact absurd rfl hsc.ne
    | [c], _, _ =>
      rcases addClauses_spec lookupPort hid hn hrs hk hT with
        hdone | ⟨E, ms', hrun, hT', hE, r, hr, hno⟩
      · exact .inl hdone
      · exact .inr ⟨E, ms', hrun, hT', hE, r, mem_cons_of_mem _ hr, hno⟩
    | c :: c' :: cs, hsc, hfree =>
      have hors : ors ((s, c :: c' :: cs) :: rs) = (s, c :: c' :: cs) :: ors rs := by simp [ors]
      rw [hors] at hk ⊢
      rw [length_cons] at hk
      have hconj : (exprMatchNew m k n id).conjunctions = [⟨id, k, n⟩] := by
        unfold exprMatchNew
        rw [if_pos hid, Nat.mod_eq_of_lt (by omega), Nat.mod_eq_of_lt hn]
      obtain ⟨E₀, ms₀, hrun0, hT0, hE0⟩ :=
        addDisjunction_spec lookupPort m k n id (hsc.simple (hfree (by simp))) hT
      rw [hconj] at hE0
      have hstep : addClauses lookupPort m n id k
          (orCmps (c :: c' :: cs) :: rs.map fun r => orCmps r.2) ms
          = if E₀.isEmpty then .ok (false, ms₀)
            else addClauses lookupPort m n id (k + 1) (rs.map fun r => orCmps r.2) ms₀ := by
        simp only [orCmps, addClauses, hrun0]
        cases E₀ <;> rfl
      by_cases hE : E₀ = []
      · subst hE
        refine .inr ⟨[], ms₀, by rw [hstep]; rfl, hT0, by simp, _, mem_cons_self, fun f hf hs => ?_⟩
        have := (hE0.sat f).2 ⟨hf, hs⟩
        simp at this
      · have hE' : E₀.isEmpty = false := by simpa using hE
        simp only [hstep, hE']
        have hk' : k + 1 + (ors rs).length ≤ n := by omega
        rcases addClauses_spec lookupPort hid hn hrs hk' hT0 with
          ⟨E, ms', hrun, hT', hE⟩ | ⟨E, ms', hrun, hT', hE, r, hr, hno⟩
        · exact .inl ⟨E₀ ++ E, ms', hrun, by rwa [← append_assoc], .cons hE0 hE⟩
        · refine .inr ⟨E₀ ++ E, ms', hrun, by rwa [← append_assoc], fun x hx => ?_, r,
            mem_cons_of_mem _ hr, hno⟩
          rcases mem_append.1 hx with hx | hx
          · exact ⟨hE0.conjId x hx, k, hE0.conj_eq x hx⟩
          · exact hE x hx

theorem addOnlyClause_spec (lookupPort : LookupPort) :
    ∀ {rs : ClauseList}, OrsFree m rs → ∀ {L ms : List ExprMatch}, Table L ms →
      ∃ E ms', addOnlyClause lookupPort m (rs.map fun r => orCmps r.2) ms = .ok ms' ∧
        Table (L ++ E) ms' ∧ Alternatives lookupPort m [] ((ors rs).flatMap Prod.snd) E
  | [], _, L, ms, hT => ⟨[], ms, rfl, by simpa using hT, .nil _ _⟩
  | (s, cs) :: rs, h, L, ms, hT => by
    obtain ⟨⟨hsc, hfree⟩, hrs⟩ := forall_mem_cons.1 h
    match cs, hsc, hfree with
    | [], hsc, _ => exact absurd rfl hsc.ne
    | [c], _, _ => exact addOnlyClause_spec lookupPort hrs hT
    | c :: c' :: cs, hsc, hfree =>
      obtain ⟨E₀, ms₀, hrun0, hT0, hE0⟩ :=
        addDisjunction_spec lookupPort m 0 0 0 (hsc.simple (hfree (by simp))) hT
      obtain ⟨E, ms', hrun, hT', hE⟩ := addOnlyClause_spec lookupPort hrs hT0
      refine ⟨E₀ ++ E, ms', ?_, by rwa [← append_assoc], hE0.append hE⟩
      simp only [map_cons, orCmps, addOnlyClause]
      rw [← map_cons, ← map_cons, hrun0]
      exact hrun

theorem forall_clause_iff {σ : Assignment} : (∀ r ∈ rs, Clause.Sat σ r.2) ↔
      (∀ r ∈ rs, r.2.length < 2 → Clause.Sat σ r.2) ∧ ∀ r ∈ ors rs, Clause.Sat σ r.2 := by
  simp only [ors, mem_filter, decide_eq_true_eq]
  constructor
  · exact fun h => ⟨fun r hr _ => h r hr, fun r hr => h r hr.1⟩
  · rintro ⟨h1, h2⟩ r hr
    by_cases hlen : r.2.length < 2
    · exact h1 r hr hlen
    · exact h2 r ⟨hr, by omega⟩

theorem hit_of_alternatives (hm : m.conjId = none) (h : Alternatives lookupPort m [] cs E)
    (f : Flow) :
    Hit f E ↔ m.satisfied f = true ∧ Clause.Sat (.ofFlow f lookupPort) cs := by
  rw [Clause.Sat, ← h.sat f]
  constructor
  · rintro (⟨x, hx, -, hs⟩ | ⟨x, hx, id, -, hid, -⟩)
    · exact ⟨x, hx, hs⟩
    · rw [h.conjId x hx, hm] at hid; cases hid
  · rintro ⟨x, hx, hs⟩
    exact .inl ⟨x, hx, h.conj_eq x hx, hs⟩

theorem hit_of_clauseMatches {qs : ClauseList} (hm : m.conjId = none) (hqs : qs ≠ [])
    (h : ClauseMatches lookupPort m id qs.length 0 qs E) (f : Flow) :
    Hit f (E ++ [exprMatchNew { m with conjId := some id } 0 0 0]) ↔
      m.satisfied f = true ∧ ∀ q ∈ qs, Clause.Sat (.ofFlow f lookupPort) q.2 := by
  have hpos : 0 < qs.length := length_pos_iff.2 hqs
  have hmem : ∀ x ∈ E ++ [exprMatchNew { m with conjId := some id } 0 0 0],
      x ∈ E ∨ x.conjunctions = [] ∧ x.m.conjId = some id := by
    intro x hx
    rcases mem_append.1 hx with hx | hx
    · exact .inl hx
    · rw [mem_singleton.1 hx]; exact .inr ⟨rfl, rfl⟩
  have hE : ∀ x ∈ E, x.conjunctions ≠ [] := fun x hx => by
    obtain ⟨j, -, hc⟩ := h.conj x hx; rw [hc]; simp
  have hiff : (∀ j < qs.length, ∃ x ∈ E, x.conjunctions = [⟨id, j, qs.length⟩] ∧
      x.m.satisfied f = true) ↔
      m.satisfied f = true ∧ ∀ q ∈ qs, Clause.Sat (.ofFlow f lookupPort) q.2 := by
    constructor
    · intro hall
      have hj : ∀ j (hj : j < qs.length), m.satisfied f = true ∧
          Clause.Sat (.ofFlow f lookupPort) qs[j].2 := fun j hj =>
        (h.sat j hj f).1 (by simpa using hall j hj)
      refine ⟨(hj 0 hpos).1, fun q hq => ?_⟩
      obtain ⟨j, hlt, rfl⟩ := getElem_of_mem hq
      exact (hj j hlt).2
    · rintro ⟨hm, hall⟩ j hj
      simpa using (h.sat j hj f).2 ⟨hm, hall _ (getElem_mem hj)⟩
  rw [← hiff]
  constructor
  · rintro (⟨x, hx, hc, hs⟩ | ⟨x, hx, id', hc, hid, n, hn, hk⟩)
    · rcases hmem x hx with hx | ⟨-, hid⟩
      · exact absurd hc (hE x hx)
      · rw [Match.satisfied_iff, hid] at hs; simp at hs
    · obtain rfl : id' = id := by
        rcases hmem x hx with hx | ⟨-, hid'⟩
        · rw [h.conjId x hx, hm] at hid; cases hid
        · rw [hid'] at hid; cases hid; rfl
      -- all matches for a clause carry the same number of clauses
      have hclause : ∀ k < n, ∃ y ∈ E, y.conjunctions = [⟨id', k, qs.length⟩] ∧
          n = qs.length ∧ y.m.satisfied f = true := by
        intro k hkn
        obtain ⟨y, hy, hyc, hys⟩ := hk k hkn
        rcases hmem y hy with hy | ⟨hnil, -⟩
        · obtain ⟨j, -, hc⟩ := h.conj y hy
          rw [hc, mem_singleton, Conjunction.mk.injEq] at hyc
          obtain ⟨-, rfl, hn'⟩ := hyc
          exact ⟨y, hy, hc, hn', hys⟩
        · rw [hnil] at hyc; cases hyc
      obtain ⟨-, -, -, hn', -⟩ := hclause 0 hn
      intro j hj
      obtain ⟨y, hy, hc, -, hs⟩ := hclause j (hn' ▸ hj)
      exact ⟨y, hy, hc, hs⟩
  · intro hall
    refine .inr ⟨exprMatchNew { m with conjId := some id } 0 0 0, by simp, id, rfl, rfl,
      qs.length, hpos, fun k hk => ?_⟩
    obtain ⟨y, hy, hc, hs⟩ := hall k hk
    exact ⟨y, mem_append_left _ hy, by rw [hc]; exact mem_singleton.2 rfl, hs⟩

/-- From a table for `L`, running `run` adds matches that are hit when `P` holds. -/
def Adds (lo : ℕ) (L : List ExprMatch) (run : Except Abort (ℕ × List ExprMatch))
    (P : Flow → Prop) : Prop :=
  ∃ E hi ms, run = .ok (hi, ms) ∧ Table (L ++ E) ms ∧ Emission lo hi E ∧ ∀ f, Hit f E ↔ P f

theorem emission_of_alternatives (hm : m.conjId = none) (h : Alternatives lookupPort m [] cs E)
    (lo : ℕ)
    : Emission lo lo E :=
  ⟨fun x hx => by simp [h.conj_eq x hx], fun x hx c hc => by simp [h.conj_eq x hx] at hc,
    fun x hx id hid => by simp [h.conjId x hx, hm] at hid, le_rfl⟩

theorem emission_of_clauses {lo : ℕ}
    (h : ∀ x ∈ E, x.m.conjId = none ∧ ∃ j, x.conjunctions = [⟨lo + 1, j, n⟩]) :
    Emission lo (lo + 1) E := by
  refine ⟨fun x hx => ?_, fun x hx c hc => ?_, fun x hx id hid => ?_, by omega⟩ <;>
    obtain ⟨hnone, j, hj⟩ := h x hx
  · simp [hj]
  · simp_all
  · rw [hnone] at hid; cases hid

theorem emission_conjId (m : Match) (lo : ℕ) :
    Emission lo (lo + 1) [exprMatchNew { m with conjId := some (lo + 1) } 0 0 0] :=
  ⟨by simp [exprMatchNew], by simp [exprMatchNew], by simp [exprMatchNew], by omega⟩

/-- **A conjunction.**  What `add_conjunction` adds is hit when all clauses are true;
    there are fewer than 256 clauses because there are fewer than 256 fields. -/
theorem addConjunction_spec (h : Clauses rs) (hlen : rs.length < 256) (lo : ℕ)
    {L ms : List ExprMatch}
    (hT : Table L ms) : Adds lo L (addConjunction lookupPort (rs.map fun r => orCmps r.2) lo ms)
      fun f => ∀ r ∈ rs, Clause.Sat (.ofFlow f lookupPort) r.2 := by
  unfold addConjunction
  have hcatch : ∀ r ∈ rs, Match.catchall.get r.1.field = (0, 0) := fun r _ => rfl
  rcases conjunctionBase_spec lookupPort h hcatch with ⟨hnone, hno⟩ | ⟨m, hrun, hb⟩
  · refine ⟨[], lo, ms, by rw [hnone]; rfl, by simpa using hT, .nil lo, fun f => ?_⟩
    exact iff_of_false (by simp [Hit]) (hno f)
  have hid : m.conjId = none := hb.conjId
  have hfree : OrsFree m rs := by
    refine fun r hr => ⟨h.clause r hr, fun hr2 => ?_⟩
    rw [hb.free r.1.field, Match.get_catchall]
    intro q hq heq
    rwa [inj_on_of_nodup_map h.nodup hq hr heq]
  have hiff : ∀ f, (∀ r ∈ rs, Clause.Sat (.ofFlow f lookupPort) r.2) ↔
      m.satisfied f = true ∧ ∀ q ∈ ors rs, Clause.Sat (.ofFlow f lookupPort) q.2 := fun f => by
    rw [forall_clause_iff, hb.sat f]; simp
  rw [hrun, Nat.zero_add]
  simp only [hiff]
  match hq : ors rs with
  | [] =>
    obtain ⟨ms', hadd, hT'⟩ := hT.add (length_conjunctions_exprMatchNew m 0 0 0)
    refine ⟨_, lo, ms', ?_, hT', ⟨by simp [exprMatchNew], by simp [exprMatchNew],
      by simp [exprMatchNew, hid], le_rfl⟩, fun f => ?_⟩
    · simp [bind, Except.bind, hadd, pure, Except.pure]
    · simp [Hit, exprMatchNew, hid]
  | [q] =>
    obtain ⟨E, ms', hadd, hT', hE⟩ := addOnlyClause_spec lookupPort hfree hT
    refine ⟨E, lo, ms', ?_, hT', emission_of_alternatives hid hE lo, fun f => ?_⟩
    · simp [bind, Except.bind, hadd, pure, Except.pure]
    · rw [hit_of_alternatives hid hE, hq]
      simp
  | q :: q' :: qs =>
    have hqlen : (ors rs).length = qs.length + 2 := by rw [hq]; rfl
    have hn : qs.length + 2 < 256 := by
      rw [← hqlen]; exact (length_filter_le _ _).trans_lt hlen
    rcases addClauses_spec lookupPort (Nat.succ_ne_zero lo) hn hfree (k := 0) (by omega) hT with
      ⟨E, ms₀, hadd, hT', hE⟩ | ⟨E, ms', hadd, hT', hE, r, hr, hno⟩
    · obtain ⟨ms', hadd', hT''⟩ := hT'.add
        (length_conjunctions_exprMatchNew { m with conjId := some (lo + 1) } 0 0 0)
      have hem : Emission lo (lo + 1) E := emission_of_clauses fun x hx => by
        obtain ⟨j, -, hj⟩ := hE.conj x hx
        exact ⟨(hE.conjId x hx).trans hid, j, hj⟩
      refine ⟨E ++ [exprMatchNew { m with conjId := some (lo + 1) } 0 0 0], lo + 1, ms', ?_,
        by rwa [← append_assoc], hem.union (emission_conjId m lo), fun f => ?_⟩
      · simp only [bind, Except.bind, length_cons, hadd, hadd', if_true, pure, Except.pure]
      · rw [← hq]
        refine hit_of_clauseMatches hid (by rw [hq]; simp) ?_ f
        rw [hqlen]; exact hE
    · -- one of the ORs names only ports that do not exist
      refine ⟨E, lo + 1, ms', ?_, hT', emission_of_clauses fun x hx =>
        ⟨(hE x hx).1.trans hid, (hE x hx).2⟩, fun f => ?_⟩
      · simp [bind, Except.bind, hadd, pure, Except.pure]
      · rw [← hq]
        refine iff_of_false ?_ fun hall => hno f hall.1 ((hiff f).2 hall r hr)
        have hne : ∀ x ∈ E, x.conjunctions ≠ [] := fun x hx hnil => by
          obtain ⟨-, j, hj⟩ := hE x hx
          rw [hnil] at hj; cases hj
        rintro (⟨x, hx, hc, -⟩ | ⟨x, hx, id, hc, -⟩)
        · exact hne x hx hc
        · exact hne x hx hc

theorem addCmpFlow_spec (lookupPort : LookupPort) (hc : c.Simple) (lo : ℕ) {L ms : List ExprMatch}
    (hT : Table L ms) : Adds lo L ((addCmpFlow lookupPort (.cmp c) ms).map fun ms => (lo, ms))
      fun f => c.Sat (.ofFlow f lookupPort) := by
  have hfree : Match.catchall.get c.symbol.field = (0, 0) := rfl
  unfold addCmpFlow
  rcases constrainMatch_spec lookupPort hc hfree with ⟨hnone, hno⟩ | ⟨m, hsome, hid, -, hsat⟩
  · refine ⟨[], lo, ms, ?_, by simpa using hT, .nil lo, fun f => ?_⟩
    · simp [exprMatchNew, hnone, bind, Except.bind, pure, Except.pure, Except.map]
    · exact iff_of_false (by simp [Hit]) (hno f)
  · obtain ⟨ms', hadd, hT'⟩ := hT.add (length_conjunctions_exprMatchNew m 0 0 0)
    have hid : m.conjId = none := hid
    refine ⟨[exprMatchNew m 0 0 0], lo, ms', ?_, hT', ⟨by simp [exprMatchNew],
      by simp [exprMatchNew], by simp [exprMatchNew, hid], le_rfl⟩, fun f => ?_⟩
    · have hadd' : exprMatchAdd ms { exprMatchNew .catchall 0 0 0 with m := m } = .ok ms' := hadd
      simp only [hsome, bind, Except.bind, show (exprMatchNew .catchall 0 0 0).m = .catchall
        from rfl,
        hadd', Except.map]
    · simp [Hit, exprMatchNew, hid, hsat f]

/-! ## Terms -/

/-- A term that can be turned into matches: no two clauses are on one field, and the
    clauses can be counted in a byte. -/
inductive Expr.Compilable : Expr → Prop
  | cmp {c : Cmp} : c.Simple → Compilable (.cmp c)
  | and {rs : ClauseList} : 2 ≤ rs.length → Clauses rs → rs.length < 256 →
      Compilable (.andor .and (rs.map fun r => orCmps r.2))

theorem evaluate_and_iff {f : Flow} (h : Clauses rs) :
    exprEvaluate f lookupPort (.andor .and (rs.map fun r => orCmps r.2)) = true ↔
      ∀ r ∈ rs, Clause.Sat (.ofFlow f lookupPort) r.2 := by
  have hwf : ∀ c ∈ (Expr.andor .and (rs.map fun r => orCmps r.2)).cmps, c.Wf := by
    intro c hc
    obtain ⟨e, he, hc⟩ := mem_cmps_andor.1 hc
    obtain ⟨r, hr, rfl⟩ := mem_map.1 he
    rw [cmps_orCmps] at hc
    exact ((h.clause r hr).on c hc).toWf
  rw [exprEvaluate_iff hwf, paths_andor, map_map]
  show Dnf.Holds _ (Dnf.all _) ↔ _
  rw [Dnf.holds_all, forall_mem_map]
  refine forall₂_congr fun r _ => ?_
  rw [Function.comp_apply, paths_orCmps]
  exact holds_alts

theorem Adds.bind {lo : ℕ} {L : List ExprMatch} {run : Except Abort (ℕ × List ExprMatch)}
    {P Q : Flow → Prop} {next : ℕ → List ExprMatch → Except Abort (ℕ × List ExprMatch)}
    (h : Adds lo L run P)
    (hnext : ∀ {E} hi {ms}, Table (L ++ E) ms → Adds hi (L ++ E) (next hi ms) Q) :
    Adds lo L (run >>= fun r => next r.1 r.2) fun f => P f ∨ Q f := by
  obtain ⟨E, mid, ms, rfl, hT, hE, hP⟩ := h
  obtain ⟨E', hi, ms', hrun, hT', hE', hQ⟩ := hnext mid hT
  refine ⟨E ++ E', hi, ms', hrun, by rwa [← append_assoc], hE.append hE', fun f => ?_⟩
  rw [hE.hit_append hE' f, hP f, hQ f]

theorem addTerms_cmp (c : Cmp) (ts : List Expr) (lo : ℕ) (ms : List ExprMatch) :
    addTerms lookupPort (.cmp c :: ts) lo ms
      = ((addCmpFlow lookupPort (.cmp c) ms).map fun ms => (lo, ms)) >>= fun r =>
          addTerms lookupPort ts r.1 r.2 := by
  rw [addTerms]
  · cases addCmpFlow lookupPort (.cmp c) ms <;> rfl
  · nofun

theorem addTerms_spec (lookupPort : LookupPort) : ∀ {ts : List Expr}, (∀ t ∈ ts, t.Compilable) →
    ∀ (lo : ℕ) {L ms : List ExprMatch}, Table L ms →
      Adds lo L (addTerms lookupPort ts lo ms) fun f => ∃ t ∈ ts, exprEvaluate f lookupPort t = true
  | [], _, lo, L, ms, hT => ⟨[], lo, ms, rfl, by simpa using hT, .nil lo, fun f => by simp [Hit]⟩
  | t :: ts, h, lo, L, ms, hT => by
    have ih : ∀ {E} hi {ms}, Table (L ++ E) ms → Adds hi (L ++ E) (addTerms lookupPort ts hi ms)
        fun f => ∃ t ∈ ts, exprEvaluate f lookupPort t = true := fun hi _ hT =>
      addTerms_spec lookupPort (forall_mem_cons.1 h).2 hi hT
    simp only [exists_mem_cons_iff]
    cases h t mem_cons_self with
    | @cmp c hc =>
      have heval : ∀ f, exprEvaluate f lookupPort (.cmp c) = true ↔
          c.Sat (.ofFlow f lookupPort) := fun f => by
        rw [exprEvaluate]; exact exprEvaluateCmp_iff hc.toWf
      simp only [heval, addTerms_cmp]
      exact (addCmpFlow_spec lookupPort hc lo hT).bind ih
    | @and rs _ hcl hlen =>
      simp only [evaluate_and_iff hcl]
      exact (addConjunction_spec hcl hlen lo hT).bind ih

theorem addCmpFlows_eq (lo : ℕ) : ∀ (cs : List Cmp) (ms : List ExprMatch),
    (addCmpFlows lookupPort (cs.map .cmp) ms).map (fun ms => (lo, ms))
      = addTerms lookupPort (cs.map .cmp) lo ms
  | [], ms => rfl
  | c :: cs, ms => by
    rw [map_cons, addCmpFlows, addTerms_cmp]
    cases hc : addCmpFlow lookupPort (.cmp c) ms with
    | error a => rfl
    | ok ms' => exact addCmpFlows_eq lo cs ms'

theorem exists_cmps_of_unique {s : ExprSymbol} {ts : List Expr} (h : ∀ t ∈ ts, t.Compilable)
    (hu : exprGetUniqueSymbol (.andor .or ts) = some s) : ∃ cs : List Cmp, ts = cs.map .cmp := by
  have hsub := (uniqueSymbolSubs_eq_some hu).2.1
  have hcmp : ∀ t ∈ ts, ∃ c, Expr.cmp c = t := by
    intro t ht
    cases h t ht with
    | @cmp c _ => exact ⟨c, rfl⟩
    | @and rs hlen hcl _ =>
      have hsym := hsub _ ht
      have hall : ∀ r ∈ rs, r.1 = s := fun r hr => by
        have h1 := (uniqueSymbolSubs_eq_some hsym).2.1 _ (mem_map.2 ⟨r, hr, rfl⟩)
        rw [uniqueSymbol_orCmps (hcl.clause r hr).ne
          fun c hc => ((hcl.clause r hr).on c hc).symbol_eq] at h1
        exact Option.some.inj h1
      match rs, hlen, hcl.nodup with
      | r :: r' :: rs, _, hnodup => simp_all
  obtain ⟨cs, hcs⟩ := (Set.range_list_map Expr.cmp).ge hcmp
  exact ⟨cs, hcs.symm⟩

/-- **Flow compilation, for a disjunction of terms.** -/
theorem exprToMatches_spec (lookupPort : LookupPort) {ts : List Expr} (h : ∀ t ∈ ts, t.Compilable) :
    ∃ n ms, exprToMatches lookupPort (orTerms ts) = .ok (n, ms) ∧
      ∀ f, Hit f ms ↔ ∃ t ∈ ts, exprEvaluate f lookupPort t = true := by
  obtain ⟨E, n, ms, hrun, hT, -, hhit⟩ := addTerms_spec lookupPort h 0 .nil
  refine ⟨n, ms, ?_, fun f => (hT.hit_iff f).trans (hhit f)⟩
  rw [← hrun]
  match ts, h with
  | [], _ => rfl
  | [t], h =>
    cases h t mem_cons_self with
    | cmp hc =>
      rw [addTerms_cmp, orTerms, exprToMatches]
      cases addCmpFlow lookupPort (.cmp _) [] <;> rfl
    | and =>
      rw [addTerms, orTerms, exprToMatches]
      cases addConjunction lookupPort _ 0 [] <;> rfl
  | t :: t' :: ts, h =>
    show exprToMatches lookupPort (.andor .or (t :: t' :: ts)) = _
    rw [exprToMatches]
    cases hu : exprGetUniqueSymbol (.andor .or (t :: t' :: ts)) with
    | none => rfl
    | some s =>
      obtain ⟨cs, hcs⟩ := exists_cmps_of_unique h hu
      rw [hcs, ← addCmpFlows_eq]
      cases addCmpFlows lookupPort (cs.map .cmp) [] <;> rfl

end

/-! ## Fields -/

/-- On no path that can be true are there two symbols for one field.  This is so if
    a field is used for a single symbol only, as `expr_symtab_add_field` asks for
    (`fieldsApart_of_unique`), and also if the prerequisites of two symbols for one
    field exclude each other, like those of `arp.op` and `rarp.op`. -/
def FieldsApart (d : Set (Set Cmp)) : Prop :=
  ∀ π ∈ d, (∃ σ : NamedAssignment, ∀ c ∈ π, c.Sat σ.toAssignment) →
    ∀ c ∈ π, ∀ c' ∈ π, c.symbol.field.id = c'.symbol.field.id → c.symbol = c'.symbol

theorem FieldsApart.refines {d d' : Set (Set Cmp)} (h : FieldsApart d) (href : PathRefines d' d) :
    FieldsApart d' := by
  intro π' hπ' hsat c hc c' hc' hid
  obtain ⟨π, hπ, hb⟩ := href.below π' hπ'
  obtain ⟨σ, hσ⟩ := hsat
  obtain ⟨b, hbπ, hbc⟩ := hb.keys c hc
  obtain ⟨b', hbπ', hbc'⟩ := hb.keys c' hc'
  rw [← hbc, ← hbc'] at hid ⊢
  exact h π hπ ⟨σ, hb.imp σ hσ⟩ b hbπ b' hbπ' hid

theorem exists_assignment {π : Set Cmp} (hs : ∀ c ∈ π, c.Simple)
    (hinj : ∀ c ∈ π, ∀ c' ∈ π, c.symbol = c'.symbol → c = c') :
    ∃ σ : NamedAssignment, ∀ c ∈ π, c.Sat σ.toAssignment := by
  classical
  let pick (s : ExprSymbol) : Option Cmp := if h : ∃ c ∈ π, c.symbol = s then some h.choose
    else none
  have hpick : ∀ c ∈ π, pick c.symbol = some c := by
    intro c hc
    have h : ∃ c' ∈ π, c'.symbol = c.symbol := ⟨c, hc, rfl⟩
    simp only [pick, dif_pos h, Option.some.injEq]
    exact hinj _ h.choose_spec.1 c hc h.choose_spec.2
  refine ⟨{ num := fun s => ((pick s).map Cmp.value).getD 0,
            isName := fun s n => (pick s).map Cmp.string = some n,
            isName_unique := fun s a b ha hb => Option.some.inj (ha.symm.trans hb) }, ?_⟩
  intro c hc
  by_cases hw : c.symbol.width = 0
  · rw [Cmp.Sat, if_neg (not_not.2 hw)]
    simp [hpick c hc]
  · rw [Cmp.sat_eq_iff hw (hs c hc).eq]
    simp only [hpick c hc]
    exact (Bits.and_eq_iff ((hs c hc).within hw)).2 fun i _ => rfl

theorem exists_path : ∀ {rs : ClauseList}, (∀ r ∈ rs, r.2 ≠ []) →
    ∃ π ∈ Dnf.all (rs.map fun r => alts r.2), (∀ c ∈ π, ∃ r ∈ rs, r.2.head? = some c) ∧
      ∀ r ∈ rs, ∃ c ∈ π, r.2.head? = some c
  | [], _ => ⟨∅, by simp, by simp, by simp⟩
  | r :: rs, h => by
    obtain ⟨π, hπ, h1, h2⟩ := exists_path (forall_mem_cons.1 h).2
    obtain ⟨c, cs, hcs⟩ := exists_cons_of_ne_nil (h r mem_cons_self)
    have hhead : r.2.head? = some c := by rw [hcs]; rfl
    refine ⟨{c} ∪ π, ?_, ?_, ?_⟩
    · exact ⟨{c}, ⟨c, by rw [hcs]; exact mem_cons_self, rfl⟩, π, hπ, rfl⟩
    · rintro d (rfl | hd)
      · exact ⟨r, mem_cons_self, hhead⟩
      · obtain ⟨q, hq, hqd⟩ := h1 d hd; exact ⟨q, mem_cons_of_mem _ hq, hqd⟩
    · rintro q (_ | ⟨_, hq⟩)
      · exact ⟨c, .inl rfl, hhead⟩
      · obtain ⟨d, hd, hqd⟩ := h2 q hq; exact ⟨d, .inr hd, hqd⟩

theorem fieldsApart_of_unique {e : Expr} (res : String → Bool)
    (h : ∀ c ∈ e.cmps, ∀ c' ∈ e.cmps, c.symbol.field.id = c'.symbol.field.id →
      c.symbol = c'.symbol) : FieldsApart (e.paths res) :=
  fun _ hπ _ c hc c' hc' hid =>
    h c (mem_cmps_of_mem_paths hπ c hc) c' (mem_cmps_of_mem_paths hπ c' hc') hid

theorem compilable_of_term {t : Expr} (ht : t.Term) (res : String → Bool)
    (h : FieldsApart (t.paths res)) : t.Compilable := by
  cases ht with
  | cmp hc => exact .cmp hc
  | @and rs hlen hnodup hcl =>
    have hpaths : (Expr.andor .and (rs.map fun r => orCmps r.2)).paths res
        = Dnf.all (rs.map fun r => alts r.2) := by
      rw [paths_andor, map_map]
      exact congrArg Dnf.all (map_congr_left fun r _ => paths_orCmps res r.2)
    obtain ⟨π, hπ, hpath, hmeets⟩ := exists_path fun r hr => (hcl r hr).ne
    have hon : ∀ r ∈ rs, ∀ c, r.2.head? = some c → c.On r.1 := fun r hr c hc =>
      (hcl r hr).on c (mem_of_head? hc)
    have hsat := exists_assignment
      (fun c hc => by obtain ⟨r, hr, hrc⟩ := hpath c hc; exact (hon r hr c hrc).toSimple)
      (fun c hc c' hc' heq => by
        obtain ⟨r, hr, hrc⟩ := hpath c hc
        obtain ⟨r', hr', hrc'⟩ := hpath c' hc'
        rw [(hon r hr c hrc).symbol_eq, (hon r' hr' c' hrc').symbol_eq] at heq
        rw [inj_on_of_nodup_map hnodup hr hr' heq, hrc'] at hrc
        exact (Option.some.inj hrc).symm)
    have hids : (rs.map fun r => r.1.field.id).Nodup := by
      refine (nodup_map_iff_inj_on hnodup.of_map).2 fun r hr r' hr' hid => ?_
      obtain ⟨c, hc, hrc⟩ := hmeets r hr
      obtain ⟨c', hc', hrc'⟩ := hmeets r' hr'
      have heq := h π (hpaths ▸ hπ) hsat c hc c' hc'
      rw [(hon r hr c hrc).symbol_eq, (hon r' hr' c' hrc').symbol_eq] at heq
      exact inj_on_of_nodup_map hnodup hr hr' (heq hid)
    have hlt : ∀ i ∈ rs.map fun r => r.1.field.id, i < 255 := by
      rw [forall_mem_map]
      intro r hr
      obtain ⟨c, -, hrc⟩ := hmeets r hr
      have := hon r hr c hrc
      exact this.symbol_eq ▸ this.symbol.id_lt
    refine .and hlen ⟨hcl, ?_⟩ ?_
    · refine List.Nodup.of_map MfField.id ?_
      rwa [map_map]
    · have hcard : (rs.map fun r => r.1.field.id).length ≤ (Finset.range 255).card := by
        rw [← toFinset_card_of_nodup hids]
        refine Finset.card_le_card fun i hi => ?_
        rw [Finset.mem_range]
        exact hlt i (mem_toFinset.1 hi)
      rw [length_map, Finset.card_range] at hcard
      omega

theorem evaluate_orTerms {f : Flow} {lookupPort : LookupPort} {ts : List Expr} :
    exprEvaluate f lookupPort (orTerms ts) = true ↔ ∃ t ∈ ts,
      exprEvaluate f lookupPort t = true := by
  match ts with
  | [] => simp [orTerms, exprEvaluate]
  | [t] => simp [orTerms]
  | t :: t' :: ts =>
    exact exprEvaluateAndor_iff .or _

/-- **Flow compilation is exact.**  Whatever the passes before make of an annotated
    expression whose symbols for one field exclude each other, `expr_to_matches`
    turns into matches by which a packet is hit if and only if the expression is
    true for it. -/
theorem exprToMatches_correct (e₀ e₁ : Expr) (he : e₀.Annotated)
    (hsimp : exprSimplify e₀ = .ok e₁) (isChassisResident : String → Bool)
    (hfields : FieldsApart (e₀.paths isChassisResident)) (r : Expr)
    (hr : ∃ N, ∀ n ≥ N, exprNormalize n (exprEvaluateCondition isChassisResident e₁) = .ok r)
    (lookupPort : LookupPort) : ∃ n ms, exprToMatches lookupPort r = .ok (n, ms) ∧
      ∀ f, Hit f ms ↔ exprEvaluate f lookupPort r = true := by
  obtain ⟨r', -, hnf, href⟩ := exprNormalize_prepared he hsimp isChassisResident
  obtain rfl : r = r' := by
    obtain ⟨N, hN⟩ := hr
    obtain ⟨M, hM⟩ := hnf.returns
    have h := hN (max N M) (le_max_left _ _)
    rw [hM (max N M) (le_max_right _ _)] at h
    cases h; rfl
  have happart : FieldsApart (r.paths isChassisResident) :=
    (hfields.refines ((href isChassisResident).comap NamedAssignment.toAssignment)).refines
      (hnf.refines isChassisResident)
  cases hnf.normal with
  | boolean b =>
    cases b with
    | true => exact ⟨0, _, rfl, fun f => by simp [Hit, exprMatchNew, exprEvaluate]⟩
    | false => exact ⟨0, [], rfl, fun f => by simp [Hit, exprEvaluate]⟩
  | @orTerms ts hts =>
    have hcomp : ∀ t ∈ ts, t.Compilable := fun t ht => by
      refine compilable_of_term (hts t ht) isChassisResident fun π hπ => happart π ?_
      rw [paths_orTerms]
      exact ⟨_, mem_map.2 ⟨t, ht, rfl⟩, hπ⟩
    obtain ⟨n, ms, hrun, hhit⟩ := exprToMatches_spec lookupPort hcomp
    exact ⟨n, ms, hrun, fun f => (hhit f).trans evaluate_orTerms.symm⟩

theorem portExpr_fieldsApart (res : String → Bool) : FieldsApart (portExpr.paths res) := by
  refine fieldsApart_of_unique res fun c hc c' hc' => ?_
  rcases mem_cmps_portExpr hc with rfl | rfl | rfl <;>
    rcases mem_cmps_portExpr hc' with rfl | rfl | rfl <;> decide

theorem exprToMatches_correct_port :
    ∃ r, (∃ N, ∀ n ≥ N, exprNormalize n (exprEvaluateCondition (fun _ => true) portExpr) = .ok r) ∧
      ∃ n ms, exprToMatches (fun _ => none) r = .ok (n, ms) ∧
        ∀ f, Hit f ms ↔ exprEvaluate f (fun _ => none) r = true := by
  obtain ⟨r, hr⟩ := exprNormalize_prepared portExpr_annotated exprSimplify_portExpr fun _ => true
  exact ⟨r, hr.normalized.returns, exprToMatches_correct portExpr portExpr portExpr_annotated
    exprSimplify_portExpr (fun _ => true) (portExpr_fieldsApart _) r hr.normalized.returns _⟩

end Ovn

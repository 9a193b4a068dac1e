/-
  OVN match expressions (`lib/expr.c`): the syntax tree, how it is put
  together, and how it is evaluated.

  * `Expr` is `struct expr` after annotation: every comparison is on a symbol
    that stands for a whole field.  The address set name is kept on comparisons,
    the only nodes on which the C code ever sets it.
  * A null `struct expr *` is `none`.
  * `exprHonorsInvariants` is the run-time check of the invariants that the
    comment above `struct expr` states; `Expr.Invariants` adds the part the
    check leaves out, that no mask is zero.
-/
import Ovn.Lib.Bits
import Ovn.Lib.Dnf

namespace Ovn

/-- Why a C function does not return: a failed `ovs_assert`, `OVS_NOT_REACHED`,
    or (of the model only) a recursion deeper than the given fuel. -/
inductive Abort where
  | assertion | notReached | fuel
  deriving DecidableEq, Repr

/-! ## Symbols and fields -/

inductive Level where
  | nominal | boolean | ordinal
  deriving DecidableEq, Repr

/-- `struct mf_field`, as far as the expression code reads it. -/
structure MfField where
  id : ℕ
  nBytes : ℕ
  nBits : ℕ
  deriving DecidableEq, Repr

/-- `union mf_subvalue`, the widest value a field can have, as a number: the C
    code keeps it in network byte order, so `memcmp` is the numerical order. -/
abbrev MfSubvalue := BitVec 1024

/-- `struct expr_symbol` for a symbol that stands for a field; `width` is 0 for
    a string field. -/
structure ExprSymbol where
  name : String
  width : ℕ
  field : MfField
  level : Level
  mustCrossproduct : Bool
  deriving DecidableEq, Repr

/-- What `expr_symtab_add_field` and `expr_symtab_add_string` establish: a
    numeric symbol is as wide as its field, and a string field is a register
    that can hold a port number.  Of the fields themselves only that the number
    of their ids, `MFF_N_IDS`, fits into a byte. -/
structure ExprSymbol.Wf (s : ExprSymbol) : Prop where
  width_eq : s.width ≠ 0 → s.width = s.field.nBits
  string_bits : s.width = 0 → 32 ≤ s.field.nBits
  bits_le : s.field.nBits ≤ 8 * s.field.nBytes
  bytes_le : s.field.nBytes ≤ 128
  id_lt : s.field.id < 255

/-! ## Expressions -/

inductive Relop where
  | eq | ne | lt | le | gt | ge
  deriving DecidableEq, Repr

/-- The comparison of a `struct expr` of type `EXPR_T_CMP`: `string` is read if
    the symbol is a string field, `value` and `mask` if it is numeric. -/
structure Cmp where
  symbol : ExprSymbol
  relop : Relop
  string : String
  value : MfSubvalue
  mask : MfSubvalue
  asName : Option String
  deriving DecidableEq, Repr

/-- `EXPR_T_AND` or `EXPR_T_OR`. -/
inductive AndOr where
  | and | or
  deriving DecidableEq, Repr

def AndOr.shortCircuit : AndOr → Bool
  | and => false
  | or => true

inductive Expr where
  | cmp (c : Cmp)
  | andor (t : AndOr) (subs : List Expr)
  | boolean (b : Bool)
  | condition (not : Bool) (string : String)

/-- Induction over expressions, with the operands of a node at once. -/
@[elab_as_elim, induction_eliminator]
theorem Expr.induct {P : Expr → Prop} (cmp : ∀ c, P (.cmp c))
    (andor : ∀ t subs, (∀ e ∈ subs, P e) → P (.andor t subs)) (boolean : ∀ b, P (.boolean b))
    (condition : ∀ not string, P (.condition not string)) : ∀ e, P e
  | .cmp c => cmp c
  | .andor t subs => andor t subs fun e _ => Expr.induct cmp andor boolean condition e
  | .boolean b => boolean b
  | .condition not string => condition not string

/-- `expr->type == type` for an AND or OR type. -/
def Expr.isAndor (t : AndOr) : Expr → Bool
  | .andor t' _ => t' = t
  | _ => false

def Expr.isBoolean : Expr → Bool
  | .boolean _ => true
  | _ => false

/-! ## Building expressions -/

def combine (t : AndOr) (a b : Expr) : Expr :=
  match a with
  | .andor t' as =>
    if t' = t then
      match b with
      | .andor t'' bs => if t'' = t then .andor t (as ++ bs) else .andor t (as ++ [b])
      | _ => .andor t (as ++ [b])
    else
      match b with
      | .andor t'' bs => if t'' = t then .andor t (a :: bs) else .andor t [a, b]
      | _ => .andor t [a, b]
  | _ =>
    match b with
    | .andor t'' bs => if t'' = t then .andor t (a :: bs) else .andor t [a, b]
    | _ => .andor t [a, b]

/-- `expr_combine`, either of whose arguments may be null. -/
def exprCombine (t : AndOr) : Option Expr → Option Expr → Option Expr
  | none, b => b
  | a, none => a
  | some a, some b => some (combine t a b)

/-- What `expr_insert_andor` puts into an AND or OR node for `new`. -/
def insertAndor (t : AndOr) (new : Expr) : List Expr :=
  match new with
  | .andor t' subs => if t' = t then subs else [new]
  | _ => [new]

/-- The operands that the loop of `expr_fix_andor` keeps, or `none` if it comes
    to the operand that decides the result. -/
def fixSubs (shortCircuit : Bool) : List Expr → Option (List Expr)
  | [] => some []
  | .boolean b :: subs => if b = shortCircuit then none else fixSubs shortCircuit subs
  | sub :: subs => (fixSubs shortCircuit subs).map (sub :: ·)

def exprFixAndor (t : AndOr) (subs : List Expr) (shortCircuit : Bool) : Expr :=
  match fixSubs shortCircuit subs with
  | none => .boolean shortCircuit
  | some [] => .boolean (!shortCircuit)
  | some [sub] => sub
  | some subs => .andor t subs

def exprFix : Expr → Expr
  | .andor t subs => exprFixAndor t subs t.shortCircuit
  | e => e

/-! ## Evaluation -/

/-- A `struct flow`: the value of every field, which is as wide as the field. -/
structure Flow where
  get : MfField → MfSubvalue
  get_lt : ∀ f, (get f).toNat < 2 ^ f.nBits

abbrev LookupPort := String → Option (BitVec 32)

def LookupPort.Injective (lookupPort : LookupPort) : Prop :=
  ∀ a b port, lookupPort a = some port → lookupPort b = some port → a = b

/-- `expr_relop_test`, with the 3-way comparison as an `Ordering`. -/
def exprRelopTest (relop : Relop) (cmp : Ordering) : Bool :=
  match relop with
  | .eq => cmp == .eq
  | .ne => cmp != .eq
  | .lt => cmp == .lt
  | .le => cmp != .gt
  | .gt => cmp == .gt
  | .ge => cmp != .lt

/-- The last `n` bytes of a subvalue, as a big-endian number. -/
def lastBytes (n : ℕ) (v : MfSubvalue) : ℕ := v.toNat % 2 ^ (8 * n)

def exprEvaluateCmp (f : Flow) (lookupPort : LookupPort) (c : Cmp) : Bool :=
  if c.symbol.width ≠ 0 then
    let n := c.symbol.field.nBytes
    exprRelopTest c.relop
      (compare (lastBytes n (f.get c.symbol.field) &&& lastBytes n c.mask) (lastBytes n c.value))
  else
    match lookupPort c.string with
    | none => false
    | some cst => exprRelopTest c.relop (compare (f.get c.symbol.field).toNat cst.toNat)

mutual

/-- `expr_evaluate`; a condition counts as `is_chassis_resident` being true. -/
def exprEvaluate (f : Flow) (lookupPort : LookupPort) : Expr → Bool
  | .cmp c => exprEvaluateCmp f lookupPort c
  | .andor t subs => exprEvaluateAndor f lookupPort t.shortCircuit subs
  | .boolean b => b
  | .condition not _ => if not then false else true

def exprEvaluateAndor (f : Flow) (lookupPort : LookupPort) (shortCircuit : Bool) : List Expr → Bool
  | [] => !shortCircuit
  | sub :: subs =>
    if exprEvaluate f lookupPort sub = shortCircuit then shortCircuit
    else exprEvaluateAndor f lookupPort shortCircuit subs

end

/-! ## Invariants -/

mutual

def exprHonorsInvariants : Expr → Bool
  | .cmp c => if c.symbol.width ≠ 0 then c.value &&& ~~~c.mask == 0#1024 else true
  | .andor t subs => if subs.length < 2 then false else honorsInvariantsSubs t subs
  | .boolean _ => true
  | .condition _ _ => true

def honorsInvariantsSubs (t : AndOr) : List Expr → Bool
  | [] => true
  | sub :: subs =>
    if sub.isAndor t || !exprHonorsInvariants sub then false else honorsInvariantsSubs t subs

end

mutual

def Expr.cmps : Expr → List Cmp
  | .cmp c => [c]
  | .andor _ subs => cmpsList subs
  | .boolean _ => []
  | .condition _ _ => []

def cmpsList : List Expr → List Cmp
  | [] => []
  | sub :: subs => sub.cmps ++ cmpsList subs

end

/-- The invariants of `struct expr`, the nonzero masks included. -/
structure Expr.Invariants (e : Expr) : Prop where
  honors : exprHonorsInvariants e = true
  mask_ne : ∀ c ∈ e.cmps, c.symbol.width ≠ 0 → c.mask ≠ 0#1024

end Ovn

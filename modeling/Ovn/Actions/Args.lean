/-
  Arguments of actions (lib/actions.c): the stack actions of `encode_setup_args` and
  `encode_restore_args`, run on the bits of the fields.

  An argument whose source is its destination is not saved, so that what the actions in between
  make of it stays.  Fields may share bits, as `xxreg0` does with `reg0`.
-/
import Mathlib.Data.List.Pairwise
import Mathlib.Data.List.Range
import Mathlib.Order.Interval.Finset.Nat

namespace Ovn.Args

open List

/-- The values of all bits, and `nx_stack`. -/
abbrev State := (ℕ → Bool) × List (List Bool)

/-- Where the bits of the fields are. -/
structure Layout where
  base : ℕ → ℕ
  nBits : ℕ → ℕ

section
variable {L : Layout}

structure Subfield (L : Layout) where
  field : ℕ
  ofs : ℕ
  nBits : ℕ
  within : ofs + nBits ≤ L.nBits field

def Subfield.bits (sf : Subfield L) : Finset ℕ :=
  Finset.Ico (L.base sf.field + sf.ofs) (L.base sf.field + sf.ofs + sf.nBits)

def Subfield.read (sf : Subfield L) (s : ℕ → Bool) : List Bool :=
  (range sf.nBits).map fun i => s (L.base sf.field + sf.ofs + i)

def Subfield.write (sf : Subfield L) (v : List Bool) (s : ℕ → Bool) (x : ℕ) : Bool :=
  if x ∈ sf.bits then v.getD (x - (L.base sf.field + sf.ofs)) false else s x

/-- `struct arg`, with what `encode_setup_args` asserts. -/
structure Arg (L : Layout) where
  src : Subfield L
  dst : ℕ
  width : src.nBits = L.nBits dst

/-- The subfield of `init_stack`. -/
def Arg.whole (a : Arg L) : Subfield L := ⟨a.dst, 0, L.nBits a.dst, (Nat.zero_add _).le⟩

inductive Action (L : Layout) where
  | push (sf : Subfield L)
  | pop (sf : Subfield L)

def Action.exec : State → Action L → State
  | (s, stack), push sf => (s, sf.read s :: stack)
  | (s, []), pop _ => (s, [])
  | (s, v :: stack), pop sf => (sf.write v s, stack)

/-- The arguments that the loops do not skip. -/
def moved (args : List (Arg L)) : List (Arg L) := args.filter fun a => a.src.field ≠ a.dst

def encodeSetupArgs (args : List (Arg L)) : List (Action L) :=
  (moved args).map (.push ·.whole) ++ (moved args).reverse.map (.push ·.src) ++
    (moved args).map (.pop ·.whole)

def encodeRestoreArgs (args : List (Arg L)) : List (Action L) :=
  (moved args).reverse.map (.pop ·.whole)

def Apart (a b : Arg L) : Prop := ∀ x ∈ a.whole.bits, x ∉ b.whole.bits

instance : Std.Symm (Apart (L := L)) := ⟨fun _ _ h x hb ha => h x ha hb⟩

theorem exec_pushes (f : Arg L → Subfield L) (args : List (Arg L)) (s : ℕ → Bool)
    (stack : List (List Bool)) :
    (args.map (.push <| f ·)).foldl Action.exec (s, stack) =
      (s, (args.map fun a => (f a).read s).reverse ++ stack) := by
  induction args generalizing stack with
  | nil => rfl
  | cons a args ih =>
    rw [map_cons, foldl_cons, Action.exec, ih]
    simp

theorem read_congr {sf : Subfield L} {s s' : ℕ → Bool} (h : ∀ x ∈ sf.bits, s x = s' x) :
    sf.read s = sf.read s' := by
  refine map_congr_left fun i hi => h _ (Finset.mem_Ico.2 ⟨Nat.le_add_right .., ?_⟩)
  have := mem_range.1 hi
  omega

theorem read_write {sf : Subfield L} {v : List Bool} (hv : v.length = sf.nBits) (s : ℕ → Bool) :
    sf.read (sf.write v s) = v := by
  refine ext_getElem (by simp [Subfield.read, hv]) fun i hi hi' => ?_
  have hin : L.base sf.field + sf.ofs + i ∈ sf.bits := by
    simpa [Subfield.bits, hv] using hi'
  simp [Subfield.read, Subfield.write, hin, hi']

/-- The arguments take the values of the stack if they share no bits. -/
theorem exec_pops {args : List (Arg L)} (hd : args.Pairwise Apart) {v : Arg L → List Bool}
    (hv : ∀ a ∈ args, (v a).length = L.nBits a.dst) (s : ℕ → Bool) (stack : List (List Bool)) :
    ∃ s', (args.map (.pop ·.whole)).foldl Action.exec (s, args.map v ++ stack) = (s', stack) ∧
      (∀ a ∈ args, a.whole.read s' = v a) ∧ ∀ x, (∀ a ∈ args, x ∉ a.whole.bits) → s' x = s x := by
  induction args generalizing s with
  | nil => simp
  | cons a args ih =>
    obtain ⟨ha, hd⟩ := pairwise_cons.1 hd
    obtain ⟨hva, hv⟩ := forall_mem_cons.1 hv
    obtain ⟨s', hrun, hread, hframe⟩ := ih hd hv (a.whole.write (v a) s)
    refine ⟨s', hrun, forall_mem_cons.2 ⟨?_, hread⟩, fun x hx => ?_⟩
    · rw [← @read_write _ a.whole _ hva s]
      exact read_congr fun x hx => hframe x fun b hb hxb => ha b hb x hx hxb
    · obtain ⟨hxa, hx⟩ := forall_mem_cons.1 hx
      exact (hframe x hx).trans (if_neg hxa)

/-- The destinations take the values of the sources, and after any actions that leave the stack the
    saved ones take their own again. -/
def SetUp (args : List (Arg L)) (s : ℕ → Bool) (stack : List (List Bool)) : Prop :=
  ∃ s' saved, (encodeSetupArgs args).foldl Action.exec (s, stack) = (s', saved) ∧
    (∀ a ∈ args, a.whole.read s' = a.src.read s) ∧
    (∀ x, (∀ a ∈ args, x ∉ a.whole.bits) → s' x = s x) ∧
    ∀ t, ∃ t', (encodeRestoreArgs args).foldl Action.exec (t, saved) = (t', stack) ∧
      (∀ a ∈ moved args, a.whole.read t' = a.whole.read s) ∧
      ∀ x, (∀ a ∈ moved args, x ∉ a.whole.bits) → t' x = t x

/-- **Arguments are set up at once**, and what was saved is restored. -/
theorem setup_restore_args (args : List (Arg L)) (hd : args.Pairwise Apart) (s : ℕ → Bool)
    (stack : List (List Bool)) : SetUp args s stack := by
  have hmoved : (moved args).Pairwise Apart := hd.filter _
  obtain ⟨s', hrun, hread, hframe⟩ := exec_pops hmoved (v := (·.src.read s))
    (fun a _ => by simp [Subfield.read, a.width]) s
    ((moved args).reverse.map (·.whole.read s) ++ stack)
  refine ⟨s', (moved args).reverse.map (·.whole.read s) ++ stack, ?_, fun a ha => ?_,
    fun x hx => hframe x fun a ha => hx a (mem_of_mem_filter ha), fun t => ?_⟩
  · rw [encodeSetupArgs, foldl_append, foldl_append, exec_pushes (·.whole), exec_pushes]
    simpa using hrun
  · by_cases hne : a.src.field = a.dst
    · -- the source is the whole destination, which no other argument changes
      rw [read_congr fun x hx => hframe x fun b hb hxb => ?_]
      · obtain ⟨⟨f, o, n, hle⟩, d, hw⟩ := a
        obtain rfl : f = d := hne
        obtain rfl : n = L.nBits f := hw
        obtain rfl : o = 0 :=
          Nat.le_zero.1 ((Nat.add_le_add_iff_right ..).1 (hle.trans (Nat.zero_add _).ge))
        rfl
      · have hab : a ≠ b := by
          rintro rfl
          simp [moved, hne] at hb
        exact hd.forall ha (mem_of_mem_filter hb) hab x hx hxb
    · exact hread a (mem_filter.2 ⟨ha, by simpa using hne⟩)
  · have hrev : (moved args).reverse.Pairwise Apart :=
      pairwise_reverse.2 (hmoved.imp fun h => symm h)
    obtain ⟨t', hrun, hread, hframe⟩ := exec_pops hrev (v := (·.whole.read s))
      (fun a _ => by simp [Subfield.read, Arg.whole]) t stack
    simp only [mem_reverse] at hread hframe
    exact ⟨t', hrun, hread, hframe⟩

end

def regs : Layout := ⟨(32 * ·), fun _ => 32⟩

def regArg (src dst : ℕ) : Arg regs := ⟨⟨src, 0, 32, le_rfl⟩, dst, rfl⟩

theorem setup_restore_args_swap : SetUp [regArg 0 1, regArg 1 0] (decide <| · < 32) [] :=
  setup_restore_args _ (by simp [Apart, regArg, Arg.whole, Subfield.bits, regs]; omega) _ _

/-- A register that is set to itself, and then changed. -/
theorem not_restore_args : ∃ (a : Arg regs) (s t : ℕ → Bool),
    a.whole.read ((encodeRestoreArgs [a]).foldl Action.exec
      (t, ((encodeSetupArgs [a]).foldl Action.exec (s, [])).2)).1 ≠ a.whole.read s :=
  ⟨regArg 0 0, fun _ => false, fun _ => true, by decide⟩

/-- The registers, and `xreg0`, the bits of which are those of the first two. -/
def xregs : Layout :=
  ⟨fun f => if f < 8 then 32 * f else 64 * (f - 8), fun f => if f < 8 then 32 else 64⟩

/-- The second register is set after `xreg0`, and is a part of it. -/
theorem not_setup_args : ∃ (args : List (Arg xregs)) (s : ℕ → Bool),
    args.Pairwise (fun a b => a.dst ≠ b.dst) ∧ ¬ SetUp args s [] := by
  refine ⟨[⟨⟨9, 0, 64, le_rfl⟩, 8, rfl⟩, ⟨⟨4, 0, 32, le_rfl⟩, 1, rfl⟩], (decide <| · < 128),
    by decide, ?_⟩
  rintro ⟨s', saved, hrun, hread, -⟩
  obtain ⟨rfl, -⟩ := Prod.mk.inj hrun
  exact absurd (hread _ mem_cons_self) (by decide)

end Ovn.Args

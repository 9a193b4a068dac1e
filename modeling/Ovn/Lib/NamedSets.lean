/-
  Tables whose rows hold a set under a name, brought up to date by name.

  `applyDiff` walks two sorted arrays and reports what is only in one of them.  `Claims` is a full
  sync: the rows of before are claimed by their names, a row is created for each name that has none,
  and what nobody claimed is deleted.
-/
import Ovn.Lib.KeyedRows
import Mathlib.Data.Finset.Sort

namespace Ovn

open List

/-! ## Differences of sorted arrays -/

section
variable {α σ : Type*} [LinearOrder α]

/-- Reports what is only in the first array as added, and what is only in the second as removed. -/
def applyDiff (apply : σ → α → Bool → σ) : List α → List α → σ → σ
  | [], bs, s => bs.foldl (fun s b => apply s b false) s
  | as, [], s => as.foldl (fun s a => apply s a true) s
  | a :: as, b :: bs, s =>
    match compare a b with
    | .lt => applyDiff apply as (b :: bs) (apply s a true)
    | .gt => applyDiff apply (a :: as) bs (apply s b false)
    | .eq => applyDiff apply as bs s
termination_by as bs => as.length + bs.length

def setApply (s : Finset α) (a : α) (add : Bool) : Finset α := if add then insert a s else s.erase a

theorem mem_foldl_insert {x : α} : ∀ (as : List α) (s : Finset α),
    x ∈ as.foldl (fun s a => setApply s a true) s ↔ x ∈ as ∨ x ∈ s
  | [], s => by simp
  | a :: as, s => by
    rw [foldl_cons, mem_foldl_insert as, setApply, if_pos rfl, Finset.mem_insert, mem_cons]
    tauto

theorem mem_foldl_erase {x : α} : ∀ (bs : List α) (s : Finset α),
    x ∈ bs.foldl (fun s b => setApply s b false) s ↔ x ∉ bs ∧ x ∈ s
  | [], s => by simp
  | b :: bs, s => by
    rw [foldl_cons, mem_foldl_erase bs, setApply, if_neg Bool.false_ne_true, Finset.mem_erase,
      mem_cons]
    tauto

/-- **What is left of a set** after the difference: the elements of the first array that the second
    does not have are in, those of the second that the first does not have are out, and the others
    are as before.  The first array may have an element twice. -/
theorem mem_applyDiff {x : α} (as bs : List α) (s : Finset α) (has : as.Pairwise (· ≤ ·))
    (hbs : bs.Pairwise (· < ·)) (hsub : ∀ b ∈ bs, b ∈ s) :
    x ∈ applyDiff setApply as bs s ↔ x ∈ as ∨ x ∉ bs ∧ x ∈ s := by
  fun_induction applyDiff setApply as bs s with
  | case1 bs s =>
    rw [mem_foldl_erase]
    simp
  | case2 as s =>
    rw [mem_foldl_insert]
    simp
  | case3 a as b bs s hcmp ih =>
    have hab : a < b := compare_lt_iff_lt.1 hcmp
    obtain ⟨-, has⟩ := pairwise_cons.1 has
    rw [ih has hbs fun c hc => Finset.mem_insert_of_mem (hsub c hc), setApply, if_pos rfl,
      Finset.mem_insert, mem_cons (l := as)]
    -- `a` comes before all of the second array
    have ha : x = a → x ∉ b :: bs := by
      rintro rfl hx
      rcases mem_cons.1 hx with rfl | hx
      · exact lt_irrefl x hab
      · exact lt_asymm hab ((pairwise_cons.1 hbs).1 x hx)
    tauto
  | case4 a as b bs s _ ih =>
    obtain ⟨hb, hbs⟩ := pairwise_cons.1 hbs
    have hsub' : ∀ c ∈ bs, c ∈ setApply s b false := fun c hc =>
      Finset.mem_erase.2 ⟨(hb c hc).ne', hsub c (mem_cons_of_mem b hc)⟩
    rw [ih has hbs hsub', setApply, if_neg Bool.false_ne_true, Finset.mem_erase, mem_cons (l := bs)]
    tauto
  | case5 a as b bs s hcmp ih =>
    obtain rfl : a = b := compare_eq_iff_eq.1 hcmp
    obtain ⟨hb, hbs⟩ := pairwise_cons.1 hbs
    rw [ih (pairwise_cons.1 has).2 hbs (forall_mem_cons.1 hsub).2, mem_cons, mem_cons]
    have ha : x = a → x ∉ bs ∧ x ∈ s := by
      rintro rfl
      exact ⟨fun hx => lt_irrefl x (hb x hx), hsub x mem_cons_self⟩
    tauto

end

/-! ## Rows -/

/-- A row that holds a set under a name. -/
structure NamedSet (ν α : Type*) where
  name : ν
  values : Finset α
  deriving DecidableEq

section
variable {ν α : Type*} [LinearOrder α]

def NamedSet.update (new : List α) (r : NamedSet ν α) : NamedSet ν α :=
  { r with values := applyDiff setApply new r.values.sort r.values }

theorem NamedSet.update_eq {new : List α} (h : new.Pairwise (· ≤ ·)) (r : NamedSet ν α) :
    r.update new = ⟨r.name, new.toFinset⟩ := by
  have hsort : r.values.sort.Pairwise (· < ·) := (Finset.sortedLT_sort r.values).pairwise
  refine congrArg (NamedSet.mk r.name) ?_
  ext x
  rw [mem_applyDiff new _ _ h hsort fun b hb => (Finset.mem_sort _).1 hb, Finset.mem_sort,
    mem_toFinset]
  tauto

theorem NamedSet.update_sort (s : Finset α) (r : NamedSet ν α) : r.update s.sort = ⟨r.name, s⟩ := by
  rw [NamedSet.update_eq (Finset.pairwise_sort s _), Finset.sort_toFinset]

end

/-! ## Claiming rows by name -/

/-- A sync in progress: the rows nobody claimed yet, and the rows that stay. -/
structure Claims (ρ : Type*) where
  unclaimed : List ρ
  rows : List ρ

section
variable {ν ρ : Type*} [DecidableEq ν] (name : ρ → ν)

def Claims.claim (n : ν) (create : ρ) (update : ρ → ρ) (c : Claims ρ) : Claims ρ :=
  match c.unclaimed.find? fun r => name r = n with
  | some r => ⟨c.unclaimed.eraseP fun r => name r = n, c.rows ++ [update r]⟩
  | none => ⟨c.unclaimed, c.rows ++ [create]⟩

/-- If a claim makes the same row of whatever has the name, that row stays. -/
theorem Claims.rows_claim {n : ν} {create row : ρ} {update : ρ → ρ} (hcreate : create = row)
    (hupdate : ∀ r, name r = n → update r = row) (c : Claims ρ) :
    (c.claim name n create update).rows = c.rows ++ [row] := by
  unfold Claims.claim
  split
  next r hr => rw [hupdate r (by simpa using List.find?_some hr)]
  next => rw [hcreate]

/-- **A sync has a row for each claim**, and no others. -/
theorem Claims.rows_foldl {ι : Type*} {n : ι → ν} {create row : ι → ρ} {update : ι → ρ → ρ} :
    ∀ (l : List ι) (c : Claims ρ), (∀ i ∈ l, create i = row i) →
      (∀ i ∈ l, ∀ r, name r = n i → update i r = row i) →
      (l.foldl (fun c i => c.claim name (n i) (create i) (update i)) c).rows = c.rows ++ l.map row
  | [], c, _, _ => (append_nil _).symm
  | i :: l, c, hcreate, hupdate => by
    rw [foldl_cons, Claims.rows_foldl l _ (forall_mem_cons.1 hcreate).2
      (forall_mem_cons.1 hupdate).2,
      rows_claim name (hcreate i mem_cons_self) (hupdate i mem_cons_self), map_cons,
      append_assoc, singleton_append]

end

end Ovn

/-
  The index of object dependencies (lib/objdep.c): which objects refer to which resources.

  `objdep_mgr_handle_change` calls its handler last and on a list of its own, so what the handler
  does to the index are calls like any other.  The index is right after all calls,
  but the count that it has for a mapping is the one that this was first added with.
-/
import Mathlib.Data.Finset.Basic

namespace Ovn.Objdep

open List
open Function (update update_eq_self)

inductive ObjdepType where
  | addrset | portgroup | portbinding | mcGroup | template
  deriving DecidableEq

abbrev Resource := ObjdepType × String

/-- `struct object_to_resources_list_node`, with the key of its `resource_node`. -/
structure ListNode where
  resource : Resource
  obj : ℕ
  refCount : ℕ
  deriving DecidableEq

/-- `resource_to_objects_table` and `object_to_resources_table`: the lists of the nodes. -/
structure Mgr where
  objs : Resource → Option (List ListNode)
  resources : ℕ → Option (List ListNode)

/-- What `objdep_mgr_init` and `objdep_mgr_clear` leave. -/
def Mgr.init : Mgr := ⟨fun _ => none, fun _ => none⟩

def Mgr.addWithRefcount (m : Mgr) (r : Resource) (u refCount : ℕ) : Mgr :=
  if (m.resources u).isSome && ((m.objs r).getD []).any (·.obj = u) then m
  else
    ⟨update m.objs r (some (⟨r, u, refCount⟩ :: (m.objs r).getD [])),
      update m.resources u (some ((m.resources u).getD [] ++ [⟨r, u, refCount⟩]))⟩

def orNone {α : Type} (l : List α) : Option (List α) := if l.isEmpty then none else some l

/-- A node leaves the objects of its resource, whose own node goes with the last one. -/
def removeNode (objs : Resource → Option (List ListNode)) (n : ListNode) :
    Resource → Option (List ListNode) :=
  update objs n.resource (orNone (((objs n.resource).getD []).erase n))

def Mgr.removeObj (m : Mgr) (u : ℕ) : Mgr :=
  match m.resources u with
  | none => m
  | some ns => ⟨ns.foldl removeNode m.objs, update m.resources u none⟩

/-- The objects that the handler is called with, if it is called. -/
def Mgr.handleChange (m : Mgr) (r : Resource) (processed : Finset ℕ) : Option (List ℕ) :=
  match m.objs r with
  | none => none
  | some ns => orNone ((ns.filter (·.obj ∉ processed)).map (·.obj))

inductive Call where
  | add (r : Resource) (u refCount : ℕ)
  | removeObj (u : ℕ)
  | clear

def Call.apply (m : Mgr) : Call → Mgr
  | .add r u refCount => m.addWithRefcount r u refCount
  | .removeObj u => m.removeObj u
  | .clear => .init

def indexOf (calls : List Call) : Mgr := calls.foldl Call.apply Mgr.init

/-! ## The mappings -/

abbrev Mappings := Resource → ℕ → Option ℕ

/-- What a call does to the mappings; `count` is the count of one that is added, from the
one it had. -/
def Call.record (count : Option ℕ → ℕ → ℕ) (t : Mappings) : Call → Mappings
  | .add r u c => update t r (update (t r) u (some (count (t r u) c)))
  | .removeObj u => fun r => update (t r) u none
  | .clear => fun _ _ => none

/-- The mappings that were added and not removed since. -/
def mappings (count : Option ℕ → ℕ → ℕ) (calls : List Call) : Mappings :=
  calls.foldl (Call.record count) fun _ _ => none

def ListNode.In (t : Mappings) (n : ListNode) : Prop := t n.resource n.obj = some n.refCount

/-- The lists hold the nodes that are as in `P`, each once, and no list is empty. -/
def Lists {κ : Type} (f : κ → Option (List ListNode)) (P : κ → ListNode → Prop) : Prop :=
  ∀ k, f k ≠ some [] ∧ ((f k).getD []).Nodup ∧ ∀ n, n ∈ (f k).getD [] ↔ P k n

/-- Both tables represent the mappings. -/
structure Represents (m : Mgr) (t : Mappings) : Prop where
  objs : Lists m.objs fun r n => n.resource = r ∧ n.In t
  resources : Lists m.resources fun u n => n.obj = u ∧ n.In t

/-- The handler is called with the objects that refer to the resource and are not processed yet,
each once, or not at all where there are none. -/
def Handles (m : Mgr) (t : Mappings) : Prop :=
  ∀ r processed, ((m.handleChange r processed).getD []).Nodup ∧
    m.handleChange r processed ≠ some [] ∧
    ∀ u, u ∈ (m.handleChange r processed).getD [] ↔ t r u ≠ none ∧ u ∉ processed

/-! ## The calls keep the tables in step -/

section
variable {α : Type} (l : List α)

@[simp] theorem orNone_ne : orNone l ≠ some [] := by
  cases l <;> simp [orNone]

@[simp] theorem getD_orNone : (orNone l).getD [] = l := by
  cases l <;> simp [orNone]

end

section
variable {κ : Type} {f : κ → Option (List ListNode)} {P Q : κ → ListNode → Prop}

theorem Lists.congr (h : Lists f P) (hPQ : ∀ k n, P k n ↔ Q k n) : Lists f Q := by
  intro k
  simp only [← hPQ]
  exact h k

theorem Lists.insert [DecidableEq κ] {k : κ} {n : ListNode} {l : List ListNode} (h : Lists f P)
    (hn : ¬ P k n) (hl : l.Perm (n :: (f k).getD [])) :
    Lists (update f k (some l)) fun k' x => P k' x ∨ k' = k ∧ x = n := by
  intro k'
  obtain ⟨hne, hnodup, hmem⟩ := h k'
  by_cases hk : k' = k
  · subst hk
    refine ⟨?_, ?_, fun x => ?_⟩
    · rintro hnil
      simp_all
    · simpa [hl.nodup_iff, hmem, hn] using hnodup
    · simp [hl.mem_iff, hmem, or_comm]
  · simpa [hk] using h k'

end

variable {m : Mgr} {t : Mappings} {objs : Resource → Option (List ListNode)}
  {P : Resource → ListNode → Prop}

theorem Lists.removeNode (h : Lists objs P) (n : ListNode) :
    Lists (removeNode objs n) fun r x => P r x ∧ ¬ (r = x.resource ∧ x = n) := by
  intro r
  obtain ⟨hne, hnodup, hmem⟩ := h r
  by_cases hr : r = n.resource
  · subst hr
    refine ⟨by simp [Objdep.removeNode], by simpa [Objdep.removeNode] using hnodup.erase n,
      fun x => ?_⟩
    simp only [Objdep.removeNode, Function.update_self, getD_orNone]
    grind
  · have hx : ∀ x, ¬ (r = x.resource ∧ x = n) := by
      rintro x ⟨hrx, rfl⟩
      exact hr hrx
    simpa [Objdep.removeNode, hr, hx] using h r

theorem Lists.removeNodes (ns : List ListNode) : ∀ {objs : Resource → Option (List ListNode)}
    {P : Resource → ListNode → Prop}, Lists objs P →
    Lists (ns.foldl Objdep.removeNode objs) fun r x => P r x ∧ ¬ (r = x.resource ∧ x ∈ ns) := by
  induction ns with
  | nil => simp
  | cons n ns ih =>
    intro objs P h
    refine (ih (h.removeNode n)).congr fun r x => ?_
    grind

theorem Mgr.removeObj_eq (m : Mgr) (u : ℕ) : m.removeObj u =
    ⟨((m.resources u).getD []).foldl removeNode m.objs, update m.resources u none⟩ := by
  unfold Mgr.removeObj
  split
  next h => rw [h, Option.getD_none, foldl_nil, ← h, update_eq_self]
  next h => rw [h, Option.getD_some]

theorem Represents.removeObj (h : Represents m t) (u : ℕ) :
    Represents (m.removeObj u) ((Call.removeObj u).record Option.getD t) := by
  have hin (n : ListNode) : n.In ((Call.removeObj u).record Option.getD t) ↔ n.In t ∧
    n.obj ≠ u := by
    by_cases hn : n.obj = u <;> simp [ListNode.In, Call.record, hn]
  have hu := (h.resources u).2.2
  rw [Mgr.removeObj_eq]
  constructor
  · refine (h.objs.removeNodes _).congr fun r n => ?_
    grind
  · intro v
    by_cases hv : v = u
    · simp +contextual [hv, hin]
    · have hl := h.resources v
      grind

theorem Represents.add (h : Represents m t) (r : Resource) (u c : ℕ) :
    Represents (m.addWithRefcount r u c) ((Call.add r u c).record Option.getD t) := by
  have hr := (h.objs r).2.2
  have hu := (h.resources u).2.2
  cases htru : t r u with
  | none =>
    have hin (n : ListNode) :
        n.In ((Call.add r u c).record Option.getD t) ↔ n.In t ∨ n = ⟨r, u, c⟩ := by
      obtain ⟨r', u', c'⟩ := n
      by_cases hr' : r' = r <;> by_cases hu' : u' = u <;>
        simp [ListNode.In, Call.record, htru, hr', hu', eq_comm (a := c)]
    have hmapped : ((m.objs r).getD []).any (·.obj = u) = false := by
      simp only [any_eq_false, decide_eq_true_eq]
      rintro n hn rfl
      obtain ⟨rfl, ht⟩ := (hr n).1 hn
      cases htru.symm.trans ht
    have hnew : ¬ ListNode.In t ⟨r, u, c⟩ := by simp [ListNode.In, htru]
    simp only [Mgr.addWithRefcount, hmapped, Bool.and_false]
    constructor
    · refine (h.objs.insert (n := ⟨r, u, c⟩) (fun hn => hnew hn.2) (.refl _)).congr fun r' n => ?_
      grind
    · refine (h.resources.insert (n := ⟨r, u, c⟩) (fun hn => hnew hn.2)
        perm_append_comm).congr fun u' n => ?_
      grind
  | some c' =>
    have hobj := (hr ⟨r, u, c'⟩).2 ⟨rfl, htru⟩
    have hsome : (m.resources u).isSome = true := by
      cases hm : m.resources u <;> simp_all
    have hmapped : ((m.objs r).getD []).any (·.obj = u) = true := any_eq_true.2 ⟨_, hobj, by simp⟩
    -- The count that is given is not looked at.
    have hsame : (Call.add r u c).record Option.getD t = t := by
      rw [Call.record, htru, Option.getD_some, ← htru, update_eq_self, update_eq_self]
    rwa [Mgr.addWithRefcount, hsome, hmapped, Bool.and_true, if_pos rfl, hsame]

theorem represents_init : Represents .init fun _ _ => none := by
  constructor <;> simp [Lists, Mgr.init, ListNode.In]

theorem represents (calls : List Call) :
    Represents (indexOf calls) (mappings Option.getD calls) := by
  induction calls using reverseRecOn with
  | nil => exact represents_init
  | append_singleton calls call ih =>
    simp only [indexOf, mappings, foldl_append]
    cases call with
    | add r u c => exact ih.add r u c
    | removeObj u => exact ih.removeObj u
    | clear => exact represents_init

theorem Represents.handles (h : Represents m t) : Handles m t := by
  intro r processed
  obtain ⟨-, hnodup, hmem⟩ := h.objs r
  have heq : m.handleChange r processed =
      orNone ((((m.objs r).getD []).filter (·.obj ∉ processed)).map (·.obj)) := by
    unfold Mgr.handleChange
    cases m.objs r <;> simp [orNone]
  refine ⟨?_, by simp [heq], fun u => ?_⟩
  · rw [heq, getD_orNone]
    refine (hnodup.filter _).map_on fun n hn n' hn' hobj => ?_
    obtain ⟨hr', hin'⟩ := (hmem n').1 (mem_of_mem_filter hn')
    -- The count of a mapping is known from its resource and its object.
    cases n
    cases n'
    simp_all [ListNode.In]
  · simp only [heq, getD_orNone, mem_map, mem_filter, hmem, decide_eq_true_eq]
    constructor
    · rintro ⟨n, ⟨⟨rfl, hin⟩, hp⟩, rfl⟩
      exact ⟨by simp [show t n.resource n.obj = _ from hin], hp⟩
    · rintro ⟨ht, hp⟩
      obtain ⟨c, hc⟩ := Option.ne_none_iff_exists'.1 ht
      exact ⟨⟨r, u, c⟩, ⟨⟨rfl, hc⟩, hp⟩, rfl⟩

/-- **The index is right after all calls**, with the count a mapping was first added with. -/
theorem objdep_index (calls : List Call) : Represents (indexOf calls) (mappings Option.getD calls) ∧
      Handles (indexOf calls) (mappings Option.getD calls) :=
  ⟨represents calls, (represents calls).handles⟩

/-- The count of a later add is not recorded. -/
theorem not_objdep_recent : ∃ calls, ¬ Represents (indexOf calls)
    (mappings (fun _ c => c) calls) := by
  refine ⟨[.add (.addrset, "as") 0 1, .add (.addrset, "as") 0 2], fun h => ?_⟩
  have hmem := ((h.objs (.addrset, "as")).2.2 ⟨(.addrset, "as"), 0, 2⟩).2 (by
    simp [ListNode.In, mappings, Call.record])
  simp [indexOf, Call.apply, Mgr.addWithRefcount, Mgr.init] at hmem

end Ovn.Objdep

/-
  What `ls_stateful_record` keeps of the ACLs of a switch.

  * the loops over the ACLs stop early, but only when no flag is left to be set,
  * so the record holds the greatest tier and whether some ACL is stateful.
-/
import Ovn.Northd.Acl

namespace Ovn.Northd

open List

variable {η : Type*}

structure StatefulRecord.Covers (r : StatefulRecord) (acls : List (Acl η)) : Prop where
  stateful : r.hasStatefulAcl = true ↔ ∃ a ∈ acls, a.action = .allowRelated
  tier : r.maxAclTier = (acls.map Acl.tier).foldr max 0

theorem foldr_max_append (l l' : List ℕ) :
    (l ++ l').foldr max 0 = max (l.foldr max 0) (l'.foldr max 0) := by
  induction l with
  | nil => simp
  | cons a l ih => rw [cons_append, foldr_cons, ih, foldr_cons, max_assoc]

theorem tier_le_foldr {acls : List (Acl η)} {a : Acl η} (h : a ∈ acls) :
    a.tier ≤ (acls.map Acl.tier).foldr max 0 := by
  induction acls with
  | nil => cases h
  | cons b acls ih =>
    rcases mem_cons.1 h with rfl | h
    · exact le_max_left _ _
    · exact (ih h).trans (le_max_right _ _)

theorem foldr_tier_le (acls : List (Acl η)) : (acls.map Acl.tier).foldr max 0 ≤ 3 := by
  induction acls with
  | nil => simp
  | cons a acls ih =>
    exact max_le a.tier_le ih

namespace StatefulRecord

variable {r : StatefulRecord} {acls : List (Acl η)}

theorem Covers.addAcl (h : r.Covers acls) (a : Acl η) : (r.addAcl a).Covers (acls ++ [a]) := by
  constructor
  · simp [StatefulRecord.addAcl, h.stateful]
  · rw [map_append, foldr_max_append, ← h.tier]
    simp only [StatefulRecord.addAcl, map_cons, map_nil, foldr_cons, foldr_nil]
    split <;> omega

theorem Covers.append (h : r.Covers acls) (hf : r.full = true) (more : List (Acl η)) :
    r.Covers (acls ++ more) := by
  simp only [full, Bool.and_eq_true, decide_eq_true_eq] at hf
  obtain ⟨a, ha, ha'⟩ := h.stateful.1 hf.1
  constructor
  · simp only [hf.1, true_iff]
    exact ⟨a, mem_append_left _ ha, ha'⟩
  · rw [map_append, foldr_max_append, ← h.tier]
    have := foldr_tier_le more
    omega

end StatefulRecord

theorem setAclFlagsLoop_spec :
    ∀ (acls : List (Acl η)) (r : StatefulRecord) (pre : List (Acl η)), r.Covers pre →
    (setAclFlagsLoop acls r).1.Covers (pre ++ acls) ∧
      (setAclFlagsLoop acls r).1.hasLbVip = r.hasLbVip ∧
      (setAclFlagsLoop acls r).1.hasAcls = r.hasAcls ∧
      ((setAclFlagsLoop acls r).2 = true → (setAclFlagsLoop acls r).1.full = true)
  | [], r, pre, h => by
    rw [append_nil]
    exact ⟨h, rfl, rfl, by simp [setAclFlagsLoop]⟩
  | a :: acls, r, pre, h => by
    have h' := h.addAcl a
    rw [append_cons, setAclFlagsLoop]
    by_cases hf : (r.addAcl a).full = true
    · simp only [if_pos hf]
      exact ⟨h'.append hf acls, rfl, rfl, fun _ => hf⟩
    · simp only [if_neg hf]
      exact setAclFlagsLoop_spec acls (r.addAcl a) (pre ++ [a]) h'

theorem setAclFlags'_spec (acls : List (Acl η)) (r : StatefulRecord) (pre : List (Acl η))
    (h : r.Covers pre) (ha : r.hasAcls = true ↔ pre ≠ []) :
    (setAclFlags' acls r).1.Covers (pre ++ acls) ∧ (setAclFlags' acls r).1.hasLbVip = r.hasLbVip ∧
      ((setAclFlags' acls r).1.hasAcls = true ↔ pre ++ acls ≠ []) ∧
      ((setAclFlags' acls r).2 = true → (setAclFlags' acls r).1.full = true) := by
  unfold setAclFlags'
  cases acls with
  | nil => simpa using ⟨h, ha⟩
  | cons a acls =>
    obtain ⟨h1, h2, h3, h4⟩ :=
      setAclFlagsLoop_spec (a :: acls) { r with hasAcls := true } pre ⟨h.stateful, h.tier⟩
    exact ⟨h1, h2, by simp [h3], h4⟩

theorem setAclFlagsPortGroups_spec :
    ∀ (pgs : List (List (Acl η))) (r : StatefulRecord) (pre : List (Acl η)), r.Covers pre →
    (r.hasAcls = true ↔ pre ≠ []) → (setAclFlagsPortGroups pgs r).Covers (pre ++ pgs.flatten) ∧
      (setAclFlagsPortGroups pgs r).hasLbVip = r.hasLbVip ∧
      ((setAclFlagsPortGroups pgs r).hasAcls = true ↔ pre ++ pgs.flatten ≠ [])
  | [], r, pre, h, ha => by simpa [setAclFlagsPortGroups] using ⟨h, ha⟩
  | acls :: pgs, r, pre, h, ha => by
    obtain ⟨h1, h2, h3, h4⟩ := setAclFlags'_spec acls r pre h ha
    rw [setAclFlagsPortGroups, flatten_cons, ← append_assoc]
    split
    next hd =>
      have hne : pre ++ acls ≠ [] := by
        intro e
        have hs := (h1.stateful).1 (by exact (Bool.and_eq_true_iff.1 (h4 hd)).1)
        simp [e] at hs
      exact ⟨h1.append (h4 hd) _, h2, iff_of_true (h3.2 hne) (append_ne_nil_of_left_ne_nil hne _)⟩
    next =>
      obtain ⟨g1, g2, g3⟩ := setAclFlagsPortGroups_spec pgs _ (pre ++ acls) h1 h3
      exact ⟨g1, g2.trans h2, g3⟩

theorem LogicalSwitch.statefulRecord_spec (ls : LogicalSwitch η) :
    ls.statefulRecord.Covers ls.allAcls ∧ ls.statefulRecord.hasLbVip = ls.hasLbVip ∧
      (ls.statefulRecord.hasAcls = true ↔ ls.allAcls ≠ []) := by
  have h := setAclFlagsPortGroups_spec (ls.acls :: ls.portGroups)
    ⟨false, ls.hasLbVip, false, 0⟩ [] ⟨by simp, rfl⟩ (by simp)
  rwa [nil_append] at h

theorem foldr_tier_mono {acls acls' : List (Acl η)} (h : ∀ a ∈ acls, a ∈ acls') :
    (acls.map Acl.tier).foldr max 0 ≤ (acls'.map Acl.tier).foldr max 0 := by
  induction acls with
  | nil => exact Nat.zero_le _
  | cons a acls ih =>
    exact max_le (tier_le_foldr (h a mem_cons_self)) (ih (forall_mem_cons.1 h).2)

/-- The record depends on which ACLs there are, not on their order or on whose they are. -/
theorem LogicalSwitch.statefulRecord_congr {ls ls' : LogicalSwitch η}
    (hacls : ∀ a, a ∈ ls.allAcls ↔ a ∈ ls'.allAcls) (hlb : ls.hasLbVip = ls'.hasLbVip) :
    ls.statefulRecord = ls'.statefulRecord := by
  obtain ⟨h1, h2, h3⟩ := ls.statefulRecord_spec
  obtain ⟨g1, g2, g3⟩ := ls'.statefulRecord_spec
  have hstateful : ls.statefulRecord.hasStatefulAcl = ls'.statefulRecord.hasStatefulAcl := by
    rw [Bool.eq_iff_iff, h1.stateful, g1.stateful]
    simp only [hacls]
  have hhas : ls.statefulRecord.hasAcls = ls'.statefulRecord.hasAcls := by
    simp [Bool.eq_iff_iff, h3, g3, eq_nil_iff_forall_not_mem, hacls]
  have htier : ls.statefulRecord.maxAclTier = ls'.statefulRecord.maxAclTier := by
    rw [h1.tier, g1.tier]
    exact le_antisymm (foldr_tier_mono fun a => (hacls a).1) (foldr_tier_mono fun a => (hacls a).2)
  rw [← hlb] at g2
  cases hr : ls.statefulRecord
  cases hr' : ls'.statefulRecord
  simp only [hr, hr'] at hstateful hhas htier h2 g2
  rw [hstateful, hhas, htier, h2, g2]

end Ovn.Northd

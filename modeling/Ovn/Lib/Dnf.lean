/-
  Disjunctive normal forms, as sets of paths.

  A path is a set of atoms that are to hold together, a form is the set of its
  paths.  `and`, `all` and `any` are the connectives on forms and `Holds` is
  truth under a valuation of the atoms (`holds_and`, `holds_all`, `holds_any`).

  `Refines sat key d' d` compares two forms over all the valuations `sat i` of a
  family: they are equally true, and moreover every path of `d'` entails a path
  of `d` that already mentions all of its keys.  A rewriting of forms that keeps
  `Refines` brings no two keys together that the original kept apart; the
  relation is transitive and a congruence for the connectives.
-/
import Mathlib.Data.Set.NAry
import Mathlib.Data.List.Perm.Basic

namespace Dnf

variable {α κ ι : Type*}

/-! ## Connectives -/

def and (d e : Set (Set α)) : Set (Set α) := Set.image2 (· ∪ ·) d e

def all (ds : List (Set (Set α))) : Set (Set α) := ds.foldr and {∅}

def any (ds : List (Set (Set α))) : Set (Set α) := {π | ∃ d ∈ ds, π ∈ d}

theorem and_comm (d e : Set (Set α)) : and d e = and e d :=
  Set.image2_comm fun _ _ => Set.union_comm _ _

theorem and_assoc (d e f : Set (Set α)) : and (and d e) f = and d (and e f) :=
  Set.image2_assoc fun _ _ _ => Set.union_assoc _ _ _

@[simp] theorem and_unit (d : Set (Set α)) : and d {∅} = d := by
  simp [and]

@[simp] theorem unit_and (d : Set (Set α)) : and {∅} d = d := by
  rw [and_comm, and_unit]

@[simp] theorem empty_and (d : Set (Set α)) : and ∅ d = ∅ := Set.image2_empty_left

instance : LeftCommutative (and (α := α)) :=
  ⟨fun d e f => by rw [← and_assoc, and_comm d e, and_assoc]⟩

@[simp] theorem all_nil : all ([] : List (Set (Set α))) = {∅} := rfl

@[simp] theorem all_cons (d : Set (Set α)) (ds : List (Set (Set α))) :
    all (d :: ds) = and d (all ds) := rfl

theorem all_append (ds es : List (Set (Set α))) : all (ds ++ es) = and (all ds) (all es) := by
  induction ds with
  | nil => simp
  | cons d ds ih => simp [ih, and_assoc]

theorem all_perm {ds es : List (Set (Set α))} (h : ds.Perm es) : all ds = all es := h.foldr_eq _

@[simp] theorem any_nil : any ([] : List (Set (Set α))) = ∅ := by simp [any]

@[simp] theorem any_cons (d : Set (Set α)) (ds : List (Set (Set α))) :
    any (d :: ds) = d ∪ any ds := by
  ext π; simp [any]

theorem any_append (ds es : List (Set (Set α))) : any (ds ++ es) = any ds ∪ any es := by
  induction ds with
  | nil => simp
  | cons d ds ih => simp [ih, Set.union_assoc]

theorem any_map_and (ds : List (Set (Set α))) (e : Set (Set α)) :
    any (ds.map fun d => and d e) = and (any ds) e := by
  induction ds with
  | nil => simp
  | cons d ds ih => rw [List.map_cons, any_cons, any_cons, ih]; exact Set.image2_union_left.symm

theorem exists_of_mem_all {ds : List (Set (Set α))} {π : Set α} (hπ : π ∈ all ds) {a : α}
    (ha : a ∈ π) : ∃ d ∈ ds, ∃ ρ ∈ d, a ∈ ρ := by
  induction ds generalizing π with
  | nil => rw [all_nil] at hπ; rw [hπ] at ha; exact absurd ha (by simp)
  | cons d ds ih =>
    obtain ⟨ρ, hρ, ρ', hρ', rfl⟩ := hπ
    rcases ha with ha | ha
    · exact ⟨d, List.mem_cons_self, ρ, hρ, ha⟩
    · obtain ⟨d', hd', h⟩ := ih hρ' ha; exact ⟨d', List.mem_cons_of_mem _ hd', h⟩

/-! ## Truth -/

/-- A form holds when all the atoms of one of its paths do. -/
def Holds (v : α → Prop) (d : Set (Set α)) : Prop := ∃ π ∈ d, ∀ a ∈ π, v a

section
variable {v : α → Prop}

@[simp] theorem holds_unit : Holds v {∅} := ⟨∅, rfl, by simp⟩

@[simp] theorem not_holds_empty : ¬Holds v ∅ := by simp [Holds]

@[simp] theorem holds_atom (a : α) : Holds v {{a}} ↔ v a := by simp [Holds]

theorem holds_union (d e : Set (Set α)) : Holds v (d ∪ e) ↔ Holds v d ∨ Holds v e := by
  simp only [Holds, Set.mem_union, or_and_right, exists_or]

theorem holds_and (d e : Set (Set α)) : Holds v (and d e) ↔ Holds v d ∧ Holds v e := by
  constructor
  · rintro ⟨_, ⟨π, hπ, ρ, hρ, rfl⟩, h⟩
    exact ⟨⟨π, hπ, fun a ha => h a (.inl ha)⟩, ⟨ρ, hρ, fun a ha => h a (.inr ha)⟩⟩
  · rintro ⟨⟨π, hπ, h⟩, ⟨ρ, hρ, h'⟩⟩
    exact ⟨π ∪ ρ, ⟨π, hπ, ρ, hρ, rfl⟩, fun a ha => ha.elim (h a) (h' a)⟩

theorem holds_all (ds : List (Set (Set α))) : Holds v (all ds) ↔ ∀ d ∈ ds, Holds v d := by
  induction ds with
  | nil => simp
  | cons d ds ih => simp [holds_and, ih]

theorem holds_any (ds : List (Set (Set α))) : Holds v (any ds) ↔ ∃ d ∈ ds, Holds v d := by
  constructor
  · rintro ⟨π, ⟨d, hd, hπ⟩, h⟩; exact ⟨d, hd, π, hπ, h⟩
  · rintro ⟨d, hd, π, hπ, h⟩; exact ⟨π, ⟨d, hd, hπ⟩, h⟩

end

/-! ## Refinement -/

section
variable (sat : ι → α → Prop) (key : α → κ)

/-- Path `π'` entails path `π` and mentions no key that `π` does not. -/
structure Below (π' π : Set α) : Prop where
  keys : ∀ a ∈ π', ∃ b ∈ π, key b = key a
  imp : ∀ i, (∀ a ∈ π', sat i a) → ∀ a ∈ π, sat i a

/-- `d'` is as true as `d`, and each of its paths is below one of `d`. -/
structure Refines (d' d : Set (Set α)) : Prop where
  below : ∀ π' ∈ d', ∃ π ∈ d, Below sat key π' π
  covers : ∀ i, Holds (sat i) d → Holds (sat i) d'

variable {sat key}

theorem Below.refl (π : Set α) : Below sat key π π := ⟨fun a h => ⟨a, h, rfl⟩, fun _ h => h⟩

theorem Below.trans {π π' π'' : Set α} (h : Below sat key π π') (h' : Below sat key π' π'') :
    Below sat key π π'' := by
  refine ⟨fun a ha => ?_, fun i hi => h'.imp i (h.imp i hi)⟩
  obtain ⟨b, hb, hab⟩ := h.keys a ha
  obtain ⟨c, hc, hbc⟩ := h'.keys b hb
  exact ⟨c, hc, hbc.trans hab⟩

theorem Below.union {π π' ρ ρ' : Set α} (h : Below sat key π π') (h' : Below sat key ρ ρ') :
    Below sat key (π ∪ ρ) (π' ∪ ρ') := by
  constructor
  · rintro a (ha | ha)
    · obtain ⟨b, hb, hab⟩ := h.keys a ha; exact ⟨b, .inl hb, hab⟩
    · obtain ⟨b, hb, hab⟩ := h'.keys a ha; exact ⟨b, .inr hb, hab⟩
  · rintro i hi a (ha | ha)
    · exact h.imp i (fun b hb => hi b (.inl hb)) a ha
    · exact h'.imp i (fun b hb => hi b (.inr hb)) a ha

theorem Refines.refl (d : Set (Set α)) : Refines sat key d d :=
  ⟨fun π h => ⟨π, h, .refl π⟩, fun _ h => h⟩

variable {d' d : Set (Set α)}

theorem Refines.of_eq (h : d' = d) : Refines sat key d' d := h ▸ .refl d'

theorem Refines.trans {d'' : Set (Set α)} (h : Refines sat key d d') (h' : Refines sat key d' d'') :
    Refines sat key d d'' := by
  refine ⟨fun π hπ => ?_, fun i hi => h.covers i (h'.covers i hi)⟩
  obtain ⟨π', hπ', hb⟩ := h.below π hπ
  obtain ⟨π'', hπ'', hb'⟩ := h'.below π' hπ'
  exact ⟨π'', hπ'', hb.trans hb'⟩

theorem Refines.holds_iff (h : Refines sat key d' d) (i : ι) :
    Holds (sat i) d' ↔ Holds (sat i) d := by
  refine ⟨?_, h.covers i⟩
  rintro ⟨π', hπ', hv⟩
  obtain ⟨π, hπ, hb⟩ := h.below π' hπ'
  exact ⟨π, hπ, hb.imp i hv⟩

theorem Refines.and {e e' : Set (Set α)} (h : Refines sat key d' d) (h' : Refines sat key e' e) :
    Refines sat key (and d' e') (and d e) := by
  constructor
  · rintro _ ⟨π, hπ, ρ, hρ, rfl⟩
    obtain ⟨π', hπ', hb⟩ := h.below π hπ
    obtain ⟨ρ', hρ', hb'⟩ := h'.below ρ hρ
    exact ⟨π' ∪ ρ', ⟨π', hπ', ρ', hρ', rfl⟩, hb.union hb'⟩
  · intro i hi
    rw [holds_and] at hi ⊢
    exact ⟨h.covers i hi.1, h'.covers i hi.2⟩

theorem Refines.all {ds' ds : List (Set (Set α))} (h : List.Forall₂ (Refines sat key) ds' ds) :
    Refines sat key (all ds') (all ds) := by
  induction h with
  | nil => exact .refl _
  | cons h _ ih => exact h.and ih

theorem Refines.union {e e' : Set (Set α)} (h : Refines sat key d' d) (h' : Refines sat key e' e) :
    Refines sat key (d' ∪ e') (d ∪ e) := by
  constructor
  · rintro π (hπ | hπ)
    · obtain ⟨π', hπ', hb⟩ := h.below π hπ; exact ⟨π', .inl hπ', hb⟩
    · obtain ⟨π', hπ', hb⟩ := h'.below π hπ; exact ⟨π', .inr hπ', hb⟩
  · intro i hi
    rw [holds_union] at hi ⊢
    exact hi.imp (h.covers i) (h'.covers i)

theorem Refines.any {ds' ds : List (Set (Set α))} (h : List.Forall₂ (Refines sat key) ds' ds) :
    Refines sat key (any ds') (any ds) := by
  induction h with
  | nil => exact .refl _
  | cons h _ ih => rw [any_cons, any_cons]; exact h.union ih

theorem Refines.comap {ι' : Type*} (h : Refines sat key d' d) (f : ι' → ι) :
    Refines (fun i => sat (f i)) key d' d := by
  refine ⟨fun π' hπ' => ?_, fun i => h.covers (f i)⟩
  obtain ⟨π, hπ, hb⟩ := h.below π' hπ'
  exact ⟨π, hπ, hb.keys, fun i => hb.imp (f i)⟩

theorem Refines.empty (h : ∀ i, ¬Holds (sat i) d) : Refines sat key ∅ d :=
  ⟨by simp, fun i hi => absurd hi (h i)⟩

end

end Dnf

/-
  HA chassis groups (`controller/ha-chassis.c`).

  A group names chassis with priorities.  Each chassis decides alone, from the tunnels it sees up,
  whether it is the active one.  When the tunnels that are up are those within the components of the
  network, the chassis of a component agree on the one of the highest priority.
-/
import Mathlib.Data.Prod.Lex
import Mathlib.Data.String.Basic
import Mathlib.Order.Partition.Finpartition

namespace Ovn.Ha

open List

/-! ## The code -/

abbrev Chassis := String

/-- A HA_Chassis.  The reference to the Chassis is weak, and the range of the priority is that of
    the schema. -/
structure HaChassis where
  chassis : Option Chassis
  priority : Fin 32768

structure Group where
  haChassis : List HaChassis
  refChassis : List Chassis

/-- An element of `struct ha_chassis_ordered`. -/
structure Ordered where
  chassis : Chassis
  priority : Fin 32768
  deriving DecidableEq

def strcmp (a b : String) : ℤ := if a < b then -1 else if a = b then 0 else 1

def compareChassisPrio (a b : Ordered) : ℤ :=
  let prioDiff : ℤ := (b.priority : ℤ) - a.priority
  if prioDiff = 0 then strcmp b.chassis a.chassis else prioDiff

/-- The loop of `get_ordered_ha_chassis_list` that fills `ha_ch_order`. -/
def haChOrder (grp : Group) (activeTunnels : Option (Finset Chassis))
    (localChassis : Option Chassis) :
    List Ordered :=
  grp.haChassis.filterMap fun ha =>
    match ha.chassis with
    | none => none
    | some c =>
      -- not active
      if some c ≠ localChassis ∧ activeTunnels.any (c ∉ ·) then none else some ⟨c, ha.priority⟩

def getOrderedHaChassisList (grp : Group) (activeTunnels : Option (Finset Chassis))
    (localChassis : Option Chassis) : Option (List Ordered) :=
  match haChOrder grp activeTunnels localChassis with
  | [] => none
  | [ch] =>
    match activeTunnels with
    | none => some [ch]
    | some tunnels => if grp.refChassis.any (· ∈ tunnels) then some [ch] else none
  | order => some (order.mergeSort fun a b => compareChassisPrio a b ≤ 0)

def isLocalChassisOnlyCandidate (grp : Group) (localChassis : Chassis) : Bool :=
  let active := grp.haChassis.filterMap (·.chassis)
  localChassis ∈ active && active.length = 1

/-- `ha_chassis_group_is_active`. -/
def groupIsActive (grp : Option Group) (activeTunnels : Finset Chassis) (localChassis : Chassis) :
    Bool :=
  match grp with
  | none => false
  | some grp =>
    match grp.haChassis with
    | [] => false
    | [ha] => ha.chassis = some localChassis
    | _ =>
      if isLocalChassisOnlyCandidate grp localChassis then true
      else if activeTunnels = ∅ then false
      else
        match getOrderedHaChassisList grp (some activeTunnels) (some localChassis) with
        | none => false
        | some ordered => ordered.head?.any (·.chassis = localChassis)

/-! ## The order -/

def Ordered.rank (ch : Ordered) : Fin 32768 ×ₗ Chassis := toLex (ch.priority, ch.chassis)

theorem compareChassisPrio_le_zero {a b : Ordered} :
    compareChassisPrio a b ≤ 0 ↔ b.rank ≤ a.rank := by
  unfold compareChassisPrio Ordered.rank
  rw [Prod.Lex.toLex_le_toLex]
  dsimp only
  split
  next hprio =>
    have heq : b.priority = a.priority := Fin.ext (by omega)
    rw [heq, strcmp]
    constructor
    · intro h
      refine .inr ⟨rfl, ?_⟩
      split at h
      · exact le_of_lt (by assumption)
      split at h
      · exact le_of_eq (by assumption)
      · omega
    · rintro (h | ⟨-, h⟩)
      · exact absurd h (lt_irrefl _)
      · rcases h.lt_or_eq with h | h
        · rw [if_pos h]
          decide
        · rw [if_neg (by rw [h]; exact lt_irrefl _), if_pos h]
  next hprio => omega

theorem Ordered.rank_injective : Function.Injective Ordered.rank := by
  rintro ⟨c, p⟩ ⟨d, q⟩ h
  cases toLex_inj.1 h
  rfl

theorem head_mergeSort {order : List Ordered} {ch : Ordered}
    (h : (order.mergeSort fun a b => compareChassisPrio a b ≤ 0).head? = some ch) :
    ch ∈ order ∧ ∀ x ∈ order, x.rank ≤ ch.rank := by
  have hle : ∀ a b : Ordered, decide (compareChassisPrio a b ≤ 0) = true ↔ b.rank ≤ a.rank := by
    intro a b
    rw [decide_eq_true_iff, compareChassisPrio_le_zero]
  have hsorted : (order.mergeSort fun a b => decide (compareChassisPrio a b ≤ 0)).Pairwise
      fun a b => decide (compareChassisPrio a b ≤ 0) = true := pairwise_mergeSort
    (fun a b c hab hbc => (hle a c).2 (((hle b c).1 hbc).trans ((hle a b).1 hab)))
    (fun a b => by
      rw [Bool.or_eq_true, hle, hle]
      exact le_total _ _) order
  have hmem : ∀ x, x ∈ order ↔ x ∈ order.mergeSort fun a b => decide (compareChassisPrio a b ≤ 0) :=
    fun x => mem_mergeSort.symm
  cases hs : order.mergeSort fun a b => decide (compareChassisPrio a b ≤ 0) with
  | nil =>
    rw [hs] at h
    cases h
  | cons y ys =>
    rw [hs] at h hsorted hmem
    cases h
    refine ⟨(hmem ch).2 mem_cons_self, fun x hx => ?_⟩
    rcases mem_cons.1 ((hmem x).1 hx) with rfl | hx
    · exact le_rfl
    · exact (hle ch x).1 ((pairwise_cons.1 hsorted).1 x hx)

/-! ## What a chassis decides -/

def Group.Member (grp : Group) (c : Chassis) : Prop := ∃ ha ∈ grp.haChassis, ha.chassis = some c

def Group.members (grp : Group) (K : Finset Chassis) : List Ordered :=
  grp.haChassis.filterMap fun ha =>
    ha.chassis.bind fun c => if c ∈ K then some ⟨c, ha.priority⟩ else none

/-- The chassis of a group that is the greatest of a component. -/
def Group.Greatest (grp : Group) (K : Finset Chassis) (c : Chassis) : Prop :=
  ∃ ch ∈ grp.members K, ch.chassis = c ∧ ∀ x ∈ grp.members K, x.rank ≤ ch.rank

variable {grp : Group} {K : Finset Chassis} {c d : Chassis}

theorem mem_members {ch : Ordered} :
    ch ∈ grp.members K ↔ ch.chassis ∈ K ∧ ⟨some ch.chassis, ch.priority⟩ ∈ grp.haChassis := by
  rw [Group.members, mem_filterMap]
  constructor
  · rintro ⟨⟨_ | c, p⟩, hha, h⟩
    · cases h
    · obtain ⟨hK, rfl⟩ : c ∈ K ∧ _ := by simpa using h
      exact ⟨hK, hha⟩
  · rintro ⟨hK, hha⟩
    exact ⟨_, hha, if_pos hK⟩

theorem exists_mem_members (hc : grp.Member c) (hK : c ∈ K) :
    ∃ ch ∈ grp.members K, ch.chassis = c := by
  obtain ⟨⟨_, p⟩, hha, rfl⟩ := hc
  exact ⟨⟨c, p⟩, mem_members.2 ⟨hK, hha⟩, rfl⟩

theorem Group.Greatest.unique (hc : grp.Greatest K c) (hd : grp.Greatest K d) : c = d := by
  obtain ⟨x, hx, rfl, hxmax⟩ := hc
  obtain ⟨y, hy, rfl, hymax⟩ := hd
  rw [Ordered.rank_injective (le_antisymm (hymax x hx) (hxmax y hy))]

theorem haChOrder_eq (hc : c ∈ K) : haChOrder grp (some (K.erase c)) (some c) = grp.members K := by
  refine filterMap_congr fun ha _ => ?_
  cases hch : ha.chassis with
  | none => rfl
  | some d =>
    dsimp only [Option.bind_some]
    by_cases hd : d = c
    · simp [*]
    · simp_all

theorem exists_greatest (h : grp.members K ≠ []) : ∃ c, grp.Greatest K c := by
  have hne : (grp.members K).mergeSort (fun a b => compareChassisPrio a b ≤ 0) ≠ [] := by
    intro hnil
    have : ((grp.members K).mergeSort fun a b => decide (compareChassisPrio a b ≤ 0)).length
        = (grp.members K).length := length_mergeSort _
    rw [hnil] at this
    exact h (length_eq_zero_iff.1 this.symm)
  obtain ⟨hmem, hmax⟩ := head_mergeSort (List.head?_eq_some_head hne)
  exact ⟨_, _, hmem, rfl, hmax⟩

theorem getOrderedHaChassisList_eq_some (hc : c ∈ K) {ordered : List Ordered}
    (h : getOrderedHaChassisList grp (some (K.erase c)) (some c) = some ordered) :
    ordered.head?.any (·.chassis = d) = true ↔ grp.Greatest K d := by
  have hhead : ∀ ch, ordered.head? = some ch → ch ∈ grp.members K ∧
      ∀ x ∈ grp.members K, x.rank ≤ ch.rank := by
    intro ch hch
    rw [getOrderedHaChassisList, haChOrder_eq hc] at h
    split at h
    · cases h
    next heq =>
      dsimp only at h
      split at h
      · cases h
        cases hch
        rw [heq]
        exact ⟨mem_singleton_self _, fun x hx => (mem_singleton.1 hx ▸ le_rfl)⟩
      · cases h
    · cases h
      exact head_mergeSort hch
  cases hord : ordered.head? with
  | none =>
    have hnil := List.head?_eq_none_iff.1 hord
    subst hnil
    rw [getOrderedHaChassisList] at h
    split at h
    · cases h
    · dsimp only at h
      split at h <;> cases h
    next hne _ _ =>
      have hlen := congrArg List.length (Option.some.inj h)
      rw [length_mergeSort] at hlen
      exact absurd (length_eq_zero_iff.1 hlen) (by assumption)
  | some ch =>
    obtain ⟨hmem, hmax⟩ := hhead ch hord
    rw [Option.any_some, decide_eq_true_iff]
    constructor
    · rintro rfl
      exact ⟨ch, hmem, rfl, hmax⟩
    · exact fun hd => Group.Greatest.unique ⟨ch, hmem, rfl, hmax⟩ hd

theorem isSome_getOrderedHaChassisList (hc : c ∈ K) :
    (getOrderedHaChassisList grp (some (K.erase c)) (some c)).isSome ↔
      2 ≤ (grp.members K).length ∨ grp.members K ≠ [] ∧ ∃ r ∈ grp.refChassis, r ∈ K.erase c := by
  rw [getOrderedHaChassisList, haChOrder_eq hc]
  cases hm : grp.members K with
  | nil => simp
  | cons x xs =>
    cases xs with
    | nil => simp
    | cons y ys => simp

theorem groupIsActive_iff (hc : c ∈ K) : groupIsActive (some grp) (K.erase c) c = true ↔
    isLocalChassisOnlyCandidate grp c = true ∨ K.erase c ≠ ∅ ∧ grp.Greatest K c ∧
      (2 ≤ (grp.members K).length ∨ ∃ r ∈ grp.refChassis, r ∈ K.erase c) := by
  obtain ⟨has, refs⟩ := grp
  match has with
  | [] | [⟨none, p⟩] =>
    refine iff_of_false (by nofun) ?_
    rintro (h | ⟨-, ⟨_, h, -⟩, -⟩)
    · cases h
    · cases h
  | [⟨some d, p⟩] =>
    have hone : isLocalChassisOnlyCandidate ⟨[⟨some d, p⟩], refs⟩ c = true ↔ d = c := by
      simp [isLocalChassisOnlyCandidate, eq_comm]
    rw [hone, groupIsActive, decide_eq_true_iff, Option.some_inj]
    refine ⟨.inl, ?_⟩
    rintro (h | ⟨-, ⟨ch, hch, rfl, -⟩, -⟩)
    · exact h
    · have := mem_singleton.1 (mem_members.1 hch).2
      cases this
      rfl
  | ha :: hb :: has =>
    have hsome :
      (getOrderedHaChassisList ⟨ha :: hb :: has, refs⟩ (some (K.erase c)) (some c)).isSome ↔ _ :=
      isSome_getOrderedHaChassisList hc
    rw [groupIsActive]
    dsimp only
    split
    next h => exact iff_of_true rfl (.inl h)
    next h =>
      rw [or_iff_right h]
      split
      next hempty => exact iff_of_false (by nofun) fun h => h.1 hempty
      next hne =>
        rw [and_iff_right hne]
        split
        next hnone =>
          rw [hnone] at hsome
          refine iff_of_false (by nofun) ?_
          rintro ⟨⟨ch, hch, -⟩, hrest⟩
          exact Bool.false_ne_true (hsome.2 (hrest.imp_right fun h => ⟨ne_nil_of_mem hch, h⟩))
        next ordered hord =>
          rw [getOrderedHaChassisList_eq_some hc hord]
          rw [hord] at hsome
          exact (and_iff_left ((hsome.1 rfl).imp_right And.right)).symm

theorem greatest_of_onlyCandidate (hc : c ∈ K) (h : isLocalChassisOnlyCandidate grp c = true) :
    grp.Greatest K c := by
  rw [isLocalChassisOnlyCandidate, Bool.and_eq_true, decide_eq_true_iff, decide_eq_true_iff] at h
  obtain ⟨hmem, hlen⟩ := h
  obtain ⟨x, hx⟩ := length_eq_one_iff.1 hlen
  have hall : ∀ d, grp.Member d → d = x := by
    rintro d ⟨ha, hha, hd⟩
    have : d ∈ grp.haChassis.filterMap (·.chassis) := mem_filterMap.2 ⟨ha, hha, hd⟩
    rwa [hx, mem_singleton] at this
  have hcmem : grp.Member c := mem_filterMap.1 hmem
  obtain ⟨ch, hch, -⟩ := exists_mem_members hcmem hc
  obtain ⟨g, hg⟩ := exists_greatest (ne_nil_of_mem hch)
  obtain ⟨y, hy, hyg, -⟩ := id hg
  have hgmem : grp.Member g := ⟨_, (mem_members.1 hy).2, congrArg some hyg⟩
  rwa [hall c hcmem, ← hall g hgmem]

/-! ## Agreement -/

/-- **HA chassis agree.** When the tunnels of a chassis are to the other chassis of its component,
    an active chassis is the greatest of the chassis of the group that are in its component, there
    is no other in the component, and there is one if the component has a chassis of the group and
    another chassis that is of the group or refers to it. -/
theorem ha_chassis_agreement {chassis : Finset Chassis} (P : Finpartition chassis)
    {tunnels : Chassis → Finset Chassis} (ht : ∀ K ∈ P.parts, ∀ c ∈ K, tunnels c = K.erase c)
    (grp : Group) {K : Finset Chassis} (hK : K ∈ P.parts) :
    (∀ c ∈ K, groupIsActive (some grp) (tunnels c) c = true → grp.Greatest K c) ∧
    (∀ c ∈ K, ∀ d ∈ K, groupIsActive (some grp) (tunnels c) c = true →
      groupIsActive (some grp) (tunnels d) d = true → c = d) ∧
    ((∃ c ∈ K, ∃ d ∈ K, c ≠ d ∧ grp.Member c ∧ (grp.Member d ∨ d ∈ grp.refChassis)) →
      ∃! c, c ∈ K ∧ groupIsActive (some grp) (tunnels c) c = true) := by
  have hgreatest : ∀ c ∈ K, groupIsActive (some grp) (tunnels c) c = true → grp.Greatest K c := by
    intro c hc h
    rw [ht K hK c hc, groupIsActive_iff hc] at h
    exact h.elim (greatest_of_onlyCandidate hc) fun h => h.2.1
  have hunique : ∀ c ∈ K, ∀ d ∈ K, groupIsActive (some grp) (tunnels c) c = true →
      groupIsActive (some grp) (tunnels d) d = true → c = d :=
    fun c hc d hd h h' => (hgreatest c hc h).unique (hgreatest d hd h')
  refine ⟨hgreatest, hunique, ?_⟩
  rintro ⟨c, hc, d, hd, hne, hcm, hdm⟩
  obtain ⟨x, hx, hxc⟩ := exists_mem_members hcm hc
  obtain ⟨g, hg⟩ := exists_greatest (ne_nil_of_mem hx)
  obtain ⟨y, hy, hyg, -⟩ := id hg
  have hgK : g ∈ K := hyg ▸ (mem_members.1 hy).1
  -- one of the two is not the greatest
  have hother : K.erase g ≠ ∅ := by
    rw [← Finset.nonempty_iff_ne_empty]
    by_cases hcg : c = g
    · exact ⟨d, Finset.mem_erase.2 ⟨fun h => hne (hcg.trans h.symm), hd⟩⟩
    · exact ⟨c, Finset.mem_erase.2 ⟨hcg, hc⟩⟩
  have hlen : ∀ z ∈ grp.members K, z.chassis ≠ y.chassis → 2 ≤ (grp.members K).length := by
    intro z hz hzy
    match hm : grp.members K with
    | [] => rw [hm] at hz; cases hz
    | [w] => simp_all
    | _ :: _ :: _ => simp
  have hactive : groupIsActive (some grp) (tunnels g) g = true := by
    rw [ht K hK g hgK, groupIsActive_iff hgK]
    refine .inr ⟨hother, hg, ?_⟩
    by_cases hcg : c = g
    · rcases hdm with hdm | hdm
      · obtain ⟨z, hz, rfl⟩ := exists_mem_members hdm hd
        exact .inl (hlen z hz fun h => hne (hcg.trans (hyg.symm.trans h.symm)))
      · exact .inr ⟨d, hdm, Finset.mem_erase.2 ⟨fun h => hne (hcg.trans h.symm), hd⟩⟩
    · exact .inl (hlen x hx fun h => hcg (hxc.symm.trans (h.trans hyg)))
  exact ⟨g, ⟨hgK, hactive⟩, fun e he => hunique e he.1 g hgK he.2 hactive⟩

/-! Three chassis, of which the greatest has lost the others. -/

private def cutOff : Finpartition ({"gw1", "gw2", "gw3", "hv1"} : Finset Chassis) where
  parts := {{"gw1", "gw2", "hv1"}, {"gw3"}}
  supIndep := by decide
  sup_parts := by decide
  bot_notMem := by decide

private def gateways : Group where
  haChassis := [⟨some "gw1", 10⟩, ⟨some "gw2", 20⟩, ⟨some "gw3", 30⟩]
  refChassis := ["hv1"]

theorem ha_chassis_agreement_cutOff : (∃! c, c ∈ ({"gw1", "gw2", "hv1"} : Finset Chassis) ∧
      groupIsActive (some gateways) ((cutOff.part c).erase c) c = true) ∧
    groupIsActive (some gateways) ((cutOff.part "gw3").erase "gw3") "gw3" = false := by
  refine ⟨?_, by rw [cutOff.part_eq_of_mem (t := {"gw3"}) (by decide) (by decide)]; decide⟩
  have htunnels : ∀ K ∈ cutOff.parts, ∀ c ∈ K, (fun c => (cutOff.part c).erase c) c =
    K.erase c := by
    intro K hK c hc
    dsimp only
    rw [cutOff.part_eq_of_mem hK hc]
  refine (ha_chassis_agreement cutOff htunnels gateways (by decide)).2.2 ?_
  · exact ⟨"gw1", by decide, "gw2", by decide, by decide,
      ⟨⟨some "gw1", 10⟩, by simp [gateways], rfl⟩,
      .inl ⟨⟨some "gw2", 20⟩, by simp [gateways], rfl⟩⟩

end Ovn.Ha

/-
  The datapath sets of the load balancers as a recompute builds them.

  * the sets of a state as facts, which the loops of northd add to one another,
  * the arrays of the groups, which the loops extend,
  * the facts and the arrays that a recompute leaves for a northbound content.
-/
import Ovn.Northd.LbDelta

namespace Ovn.Lb

open List

/-! ## Facts -/

/-- A load balancer is there; a datapath is in one of its sets. -/
inductive Fact
  | lb (L : ℕ)
  | od (k : OdKind) (L o : ℕ)

def Fact.lbOf : Fact → ℕ
  | .lb L => L
  | .od _ L _ => L

namespace LbDps

theorem ext_ods {d e : LbDps} (h : ∀ k o, o ∈ d.ods k ↔ o ∈ e.ods k) : d = e := by
  have hods : d.ods = e.ods := funext fun k => Finset.ext (h k)
  have hn : d.n = e.n := funext fun k => by rw [d.count, e.count, hods]
  cases d
  subst hods hn
  rfl

theorem mem_addOd {k k' : OdKind} {d : LbDps} {od o : ℕ} :
    o ∈ (d.addOd k od).ods k' ↔ o ∈ d.ods k' ∨ (k' = k ∧ o = od) := by
  unfold addOd
  split
  · grind
  · by_cases hk : k' = k <;> simp [hk, or_comm]

theorem mem_add {k k' : OdKind} {o : ℕ} : ∀ {ods : List ℕ} {d : LbDps},
    o ∈ (d.add k ods).ods k' ↔ o ∈ d.ods k' ∨ (k' = k ∧ o ∈ ods)
  | [], d => by simp [add]
  | od :: ods, d => by
    show o ∈ ((d.addOd k od).add k ods).ods k' ↔ _
    rw [mem_add, mem_addOd, mem_cons, or_assoc, ← and_or_left]

end LbDps

namespace Northd

variable {E : Fail → Prop}

def Says (s : Northd) : Fact → Prop
  | .lb L => ∃ d, s.lb L = some d
  | .od k L o => ∃ d, s.lb L = some d ∧ o ∈ d.ods k

def facts (s : Northd) : Set Fact := {f | s.Says f}

variable {s : Northd}

theorem lb_eq_of_facts {t : Northd} (h : s.facts = t.facts) : s.lb = t.lb := by
  have hiff : ∀ f, s.Says f ↔ t.Says f := fun f => Set.ext_iff.1 h f
  funext L
  cases hs : s.lb L with
  | none =>
    cases ht : t.lb L with
    | none => rfl
    | some e =>
      obtain ⟨d, hd⟩ := (hiff (.lb L)).2 ⟨e, ht⟩
      rw [hs] at hd
      cases hd
  | some d =>
    obtain ⟨e, he⟩ := (hiff (.lb L)).1 ⟨d, hs⟩
    rw [he]
    refine congrArg some (LbDps.ext_ods fun k o => ?_)
    have := hiff (.od k L o)
    simpa [Says, hs, he] using this

variable {L : ℕ}

theorem facts_update {d e : LbDps} {F : Set Fact} (hd : s.lb L = some d)
    (he : ∀ k o, o ∈ e.ods k ↔ o ∈ d.ods k ∨ .od k L o ∈ F)
    (hF : ∀ f ∈ F, f.lbOf = L ∧ ∀ M, f ≠ .lb M) :
    ({ s with lb := Function.update s.lb L (some e) } : Northd).facts = s.facts ∪ F := by
  ext f
  show Says _ f ↔ s.Says f ∨ f ∈ F
  cases f with
  | lb M =>
    have hno : Fact.lb M ∉ F := fun hin => (hF _ hin).2 M rfl
    simp only [hno, Says]
    by_cases hM : M = L <;> simp [hM, hd]
  | od k M o =>
    by_cases hM : M = L
    · subst hM
      simp [Says, hd, he]
    · have hno : Fact.od k M o ∉ F := fun hin => hM (hF _ hin).1
      simp [Says, hM, hno]

def odFacts (k : OdKind) (L : ℕ) (ods : List ℕ) : Set Fact := {f | ∃ o ∈ ods, f = .od k L o}

variable {k : OdKind} {ods : List ℕ}

@[simp] theorem mem_odFacts {k' : OdKind} {M o : ℕ} :
    .od k' M o ∈ odFacts k L ods ↔ k' = k ∧ M = L ∧ o ∈ ods := by
  simp [odFacts]
  tauto

@[simp] theorem lb_notMem_odFacts {M : ℕ} : .lb M ∉ odFacts k L ods := by
  rintro ⟨o, -, h⟩
  cases h

theorem odFacts_spec : ∀ f ∈ odFacts k L ods, f.lbOf = L ∧ ∀ M, f ≠ .lb M := by
  rintro f ⟨o, -, rfl⟩
  exact ⟨rfl, fun M h => by cases h⟩

theorem ends_addToLb (ods : List ℕ) (h : .lb L ∈ s.facts) :
    Ends E (fun s' => s'.facts = s.facts ∪ odFacts k L ods ∧ s'.grp = s.grp ∧
      s'.crupdated = s.crupdated ∧ s'.deleted = s.deleted ∧ ∀ M, M ≠ L → s'.lb M = s.lb M)
      (s.addToLb k ods L) := by
  obtain ⟨d, hd⟩ := h
  unfold addToLb
  simp only [hd]
  refine ⟨facts_update hd (fun k' o => ?_) odFacts_spec, rfl, rfl, rfl,
    fun M hM => Function.update_of_ne hM _ _⟩
  simp [LbDps.mem_add]

/-! ## The arrays of the groups -/

/-- Each array is extended by a list. -/
def Appends (a : ℕ → OdKind → List ℕ) (g g' : ℕ → Option (OdKind → List ℕ)) : Prop :=
  ∀ G, g' G = (g G).map fun arrays k => arrays k ++ a G k

theorem Appends.refl (g : ℕ → Option (OdKind → List ℕ)) : Appends (fun _ _ => []) g g := by
  intro G
  simp

variable {g g' : ℕ → Option (OdKind → List ℕ)}

theorem Appends.trans {a b : ℕ → OdKind → List ℕ} {g'' : ℕ → Option (OdKind → List ℕ)}
    (h : Appends a g g') (h' : Appends b g' g'') : Appends (fun G k => a G k ++ b G k) g g'' := by
  intro G
  rw [h' G, h G, Option.map_map]
  congr 1
  funext arrays k
  exact append_assoc ..

theorem Appends.congr {a b : ℕ → OdKind → List ℕ} (h : Appends a g g')
    (hab : ∀ G k, a G k = b G k) :
    Appends b g g' := by
  have : a = b := funext fun G => funext (hab G)
  rwa [← this]

theorem Appends.isSome {a : ℕ → OdKind → List ℕ} (h : Appends a g g') {G : ℕ} :
    (∃ x, g' G = some x) ↔ ∃ x, g G = some x := by
  rw [h G]
  cases g G <;> simp

theorem Appends.some {a : ℕ → OdKind → List ℕ} (h : Appends a g g') {G : ℕ} {x : OdKind → List ℕ}
    (hx : g' G = .some x) : ∃ y, g G = .some y ∧ ∀ k, x k = y k ++ a G k := by
  rw [h G] at hx
  obtain ⟨y, hy, rfl⟩ := Option.map_eq_some_iff.1 hx
  exact ⟨y, hy, fun _ => rfl⟩

variable {dp : Datapaths} {n G : ℕ}

/-- An array of a group has room for more entries, unless it may overflow. -/
def Room (E : Fail → Prop) (dp : Datapaths) (k : OdKind) (n G : ℕ) (s : Northd) : Prop :=
  ∀ g, s.grp G = some g → E .overflow ∨ (g k).length + n ≤ (dp.ods k).length

theorem Room.appends {a : ℕ → OdKind → List ℕ} {s' : Northd} (h : Room E dp k n G s)
    (happ : Appends a s.grp s'.grp) (hnil : a G k = []) : Room E dp k n G s' := by
  intro g hg
  obtain ⟨g', hg', heq⟩ := happ.some hg
  rw [heq, hnil, append_nil]
  exact h g' hg'

theorem ends_addToGrp (ods : List ℕ) (h : E .aborted ∨ ∃ g, s.grp G = some g)
    (hroom : Room E dp k ods.length G s) :
    Ends E (fun s' => s'.lb = s.lb ∧ s'.crupdated = s.crupdated ∧ s'.deleted = s.deleted ∧
      Appends (fun G' k' => if G' = G ∧ k' = k then ods else []) s.grp s'.grp)
      (s.addToGrp dp k ods G) := by
  unfold addToGrp
  cases hg : s.grp G with
  | none =>
    rcases h with h | ⟨g, hg'⟩
    · exact h
    · rw [hg] at hg'
      cases hg'
  | some g =>
    dsimp only
    by_cases hlen : (g k).length + ods.length ≤ (dp.ods k).length
    case neg =>
      rw [if_neg hlen]
      exact (hroom g hg).resolve_right hlen
    rw [if_pos hlen]
    refine ⟨rfl, rfl, rfl, fun G' => ?_⟩
    by_cases hG : G' = G
    · subst hG
      simp only [Function.update_self, hg, Option.map_some, Option.some.injEq]
      funext k'
      by_cases hk : k' = k <;> simp [hk]
    · simp [hG]

/-- A loop that extends arrays of several groups, each at most once. -/
theorem ends_addToGrps (dp : Datapaths) {P : List ℕ → Northd → Prop} {a : ℕ → List ℕ}
    {f : Northd → ℕ → Except Fail Northd} (l : List ℕ) (hnodup : l.Nodup)
    (hf : ∀ done s, ∀ G ∈ l, P done s → Room E dp k (a G).length G s →
      Ends E (fun s' => P (done ++ [G]) s' ∧
      Appends (fun G' k' => if G' = G ∧ k' = k then a G else []) s.grp s'.grp) (f s G))
    (hroom : ∀ G ∈ l, Room E dp k (a G).length G s) (done : List ℕ) (hs : P done s) :
    Ends E (fun s' => P (done ++ l) s' ∧
      Appends (fun G k' => if G ∈ l ∧ k' = k then a G else []) s.grp s'.grp) (l.foldlM f s) := by
  induction l generalizing done s with
  | nil =>
    rw [append_nil]
    exact ⟨hs, (Appends.refl s.grp).congr fun G k' => by simp⟩
  | cons G l ih =>
    obtain ⟨hG, hnodup⟩ := nodup_cons.1 hnodup
    rw [append_cons]
    refine Ends.bind (hf done s G mem_cons_self hs (hroom G mem_cons_self)) fun s₁ h1 => ?_
    have hroom₁ : ∀ M ∈ l, Room E dp k (a M).length M s₁ := fun M hM =>
      (hroom M (mem_cons_of_mem G hM)).appends h1.2
        (if_neg fun heq => ne_of_mem_of_not_mem hM hG heq.1)
    have ih := ih hnodup (fun done s M hM => hf done s M (mem_cons_of_mem G hM)) hroom₁ _ h1.1
    refine ih.mono fun s₂ h2 => ⟨h2.1, (h1.2.trans h2.2).congr fun G' k' => ?_⟩
    by_cases hk : k' = k
    · by_cases hGG : G' = G <;> simp [hGG, hG]
    · simp [hk]

end Northd

/-! ## What a recompute leaves -/

namespace Nb

/-- The load balancer is applied to the datapath, directly or through a group. -/
abbrev Assoc (nb : Nb) (k : OdKind) : ℕ → ℕ → Prop := Joined (nb.OdLb k) (nb.OdGrp k) nb.GrpLb

variable (dp : Datapaths) (nb : Nb)

/-- The facts of a content: with the option, a load balancer is also applied to the peers of its
    routers. -/
def Holds : Fact → Prop
  | .lb L => nb.HasLb L
  | .od .lr L r => r ∈ dp.ods .lr ∧ nb.Assoc .lr r L
  | .od .ls L o => (o ∈ dp.ods .ls ∧ nb.Assoc .ls o L) ∨
      (dp.installLsLbFromRouter = true ∧ ∃ r ∈ dp.ods .lr, nb.Assoc .lr r L ∧ o ∈ dp.lsPeers r)

def lbFacts : Set Fact := {f | ∃ L, nb.HasLb L ∧ f = .lb L}

def direct (k : OdKind) (G : ℕ) : List ℕ :=
  ((Northd.rows dp nb k).filter (G ∈ ·.lbgrps)).map (·.uuid)

end Nb

def Datapaths.peers (dp : Datapaths) (routers : List ℕ) : List ℕ :=
  if dp.installLsLbFromRouter then routers.flatMap dp.lsPeers else []

/-- The arrays of a group are those of the content. -/
def Nb.Arrays (nb : Nb) (dp : Datapaths) (G : ℕ) (a : OdKind → List ℕ) : Prop :=
  (a .lr).Perm (nb.direct dp .lr G) ∧
  (a .ls).Perm (nb.direct dp .ls G ++ dp.peers (nb.direct dp .lr G))

/-- The arrays of the groups have room: for the switches with a group and, with the option, the
    peers of the routers with it, again for each of these routers. -/
def Nb.Fits (nb : Nb) (dp : Datapaths) : Prop :=
  ∀ G, (nb.direct dp .ls G ++ dp.peers (nb.direct dp .lr G)).length ≤ (dp.ods .ls).length

/-- The datapath sets are those of the content; the arrays of a group may be in another order. -/
structure Exact (dp : Datapaths) (nb : Nb) (s : Northd) : Prop where
  facts : s.facts = {f | nb.Holds dp f}
  grps : ∀ G, (∃ g, s.grp G = some g) ↔ nb.HasGrp G
  arrays : ∀ G g, s.grp G = some g → nb.Arrays dp G g

section
variable {dp : Datapaths} {nb : Nb} {k : OdKind} {od o G L : ℕ}

theorem Nb.Assoc.hasLb (h : nb.Assoc k od L) : nb.HasLb L := by
  rcases h with h | ⟨G, -, h⟩
  · exact h.hasLb
  · exact h.hasLb

theorem mem_rows {row : OdRow} :
    row ∈ Northd.rows dp nb k ↔ row ∈ nb.ods k ∧ row.uuid ∈ dp.ods k := by
  rw [Northd.rows, mem_filter, decide_eq_true_iff]

theorem mem_direct : o ∈ nb.direct dp k G ↔ o ∈ dp.ods k ∧ nb.OdGrp k o G := by
  simp only [Nb.direct, Nb.odGrp_iff, mem_map, mem_filter, mem_rows, decide_eq_true_eq]
  grind

theorem nodup_direct : (nb.direct dp k G).Nodup :=
  (nb.odsNodup k).sublist (((filter_sublist.trans filter_sublist)).map _)

theorem length_rows_le : (Northd.rows dp nb k).length ≤ (dp.ods k).length := by
  have hnodup : ((Northd.rows dp nb k).map (·.uuid)).Nodup :=
    (nb.odsNodup k).sublist (filter_sublist.map _)
  rw [← length_map (f := fun row : OdRow => row.uuid)]
  refine (hnodup.subperm fun u hu => ?_).length_le
  obtain ⟨row, hrow, rfl⟩ := mem_map.1 hu
  exact (mem_rows.1 hrow).2

theorem Nb.Arrays.length_le {a : OdKind → List ℕ} (h : nb.Arrays dp G a) (hfits : nb.Fits dp) :
    ∀ k, (a k).length ≤ (dp.ods k).length
  | .ls => h.2.length_eq ▸ hfits G
  | .lr => by
    rw [h.1.length_eq, Nb.direct, length_map]
    exact (length_filter_le _ _).trans length_rows_le

theorem mem_peers {routers : List ℕ} : o ∈ dp.peers routers ↔
    dp.installLsLbFromRouter = true ∧ ∃ r ∈ routers, o ∈ dp.lsPeers r := by
  unfold Datapaths.peers
  split <;> simp [*]

/-! ### Building -/

namespace Northd

variable {E : Fail → Prop}

/-- The facts of a state that is being built, whose groups are all there. -/
def Built (nb : Nb) (X : Set Fact) (s : Northd) : Prop :=
  s.facts = X ∧ ∀ G, nb.HasGrp G → ∃ g, s.grp G = some g

variable {s : Northd}

theorem ends_addToLbs {ods : List ℕ} (lbs : List ℕ) (h : ∀ L ∈ lbs, .lb L ∈ s.facts) :
    Ends E (fun s' => s'.facts = s.facts ∪ {f | ∃ L ∈ lbs, f ∈ odFacts k L ods} ∧
      s'.grp = s.grp) (lbs.foldlM (addToLb k ods) s) := by
  refine Ends.foldlM_union (R := fun X (s' : Northd) => s'.facts = X ∧ s'.grp = s.grp)
    {f | ∃ L ∈ lbs, f = .lb L} lbs ?_ ?_ ⟨rfl, rfl⟩
  · rintro L hL X s' hX ⟨rfl, hgrp⟩
    refine (ends_addToLb ods (hX ⟨L, hL, rfl⟩)).mono fun s'' hs => ⟨hs.1, hs.2.1.trans hgrp⟩
  · rintro f ⟨L, hL, rfl⟩
    exact h L hL

def rowFacts (k : OdKind) (row : OdRow) : Set Fact :=
  {f | ∃ L ∈ row.lbs, f ∈ odFacts k L [row.uuid]}

/-- One datapath: its load balancers, and its groups. -/
def RowBuilt (nb : Nb) (k : OdKind) (row : OdRow) (X : Set Fact) (s s' : Northd) : Prop :=
  Built nb (X ∪ rowFacts k row) s' ∧
    Appends (fun G k' => if G ∈ row.lbgrps ∧ k' = k then [row.uuid] else []) s.grp s'.grp

variable {row : OdRow} {X : Set Fact}

theorem ends_addRowToGrps (hrow : row ∈ nb.ods k) (hroom : ∀ G, Room E dp k 1 G s)
    (hs : Built nb X s) :
    Ends E (fun s' => Built nb X s' ∧
      Appends (fun G k' => if G ∈ row.lbgrps ∧ k' = k then [row.uuid] else []) s.grp s'.grp)
      (row.lbgrps.foldlM (addToGrp dp k [row.uuid]) s) := by
  obtain ⟨hnodup, hrefs⟩ := nb.odLbgrpRefs k row hrow
  refine ends_addToGrps dp (P := fun _ => Built nb X) row.lbgrps hnodup
    (fun _ s G hG hs hroom => ?_)
    (fun G _ => hroom G) [] hs
  refine (ends_addToGrp [row.uuid] (.inr (hs.2 G (hrefs G hG))) hroom).mono fun s' hs' => ?_
  refine ⟨⟨?_, fun G' hG' => hs'.2.2.2.isSome.2 (hs.2 G' hG')⟩, hs'.2.2.2⟩
  rw [← hs.1]
  ext f
  cases f <;> simp [facts, Says, hs'.1]

theorem ends_addRowToLbs (hrow : row ∈ nb.ods k) (hX : nb.lbFacts ⊆ X) (hs : Built nb X s) :
    Ends E (fun s' => Built nb (X ∪ rowFacts k row) s' ∧ s'.grp = s.grp)
      (row.lbs.foldlM (addToLb k [row.uuid]) s) := by
  obtain ⟨rfl, hgrp⟩ := hs
  refine (ends_addToLbs row.lbs fun L hL => hX ⟨L, nb.odLbRefs k row hrow L hL, rfl⟩).mono
    fun s' hs' => ⟨⟨hs'.1, ?_⟩, hs'.2⟩
  rw [hs'.2]
  exact hgrp

theorem ends_buildLs (hrow : row ∈ nb.ods .ls) (hX : nb.lbFacts ⊆ X)
    (hroom : ∀ G, Room E dp .ls 1 G s)
    (hs : Built nb X s) : Ends E (RowBuilt nb .ls row X s) (s.buildLs dp row) := by
  refine Ends.bind (ends_addRowToLbs hrow hX hs) fun s₁ h1 => ?_
  have hroom₁ : ∀ G, Room E dp .ls 1 G s₁ := fun G g hg => hroom G g (h1.2 ▸ hg)
  refine (ends_addRowToGrps hrow hroom₁ h1.1).mono fun s₂ h2 => ⟨h2.1, ?_⟩
  rw [← h1.2]
  exact h2.2

theorem ends_buildLr (hrow : row ∈ nb.ods .lr) (hX : nb.lbFacts ⊆ X)
    (hroom : ∀ G, Room E dp .lr 1 G s)
    (hs : Built nb X s) : Ends E (RowBuilt nb .lr row X s) (s.buildLr dp row) := by
  refine Ends.bind (ends_addRowToGrps hrow hroom hs) fun s₁ h1 => ?_
  refine (ends_addRowToLbs hrow hX h1.1).mono fun s₂ h2 => ⟨h2.1, ?_⟩
  rw [h2.2]
  exact h1.2

/-- A loop over the rows of one kind, whose arrays were empty: each row takes one entry at most. -/
theorem ends_buildRows {f : Northd → OdRow → Except Fail Northd}
    (hf : ∀ row ∈ nb.ods k, ∀ X, nb.lbFacts ⊆ X → ∀ s, (∀ G, Room E dp k 1 G s) → Built nb X s →
      Ends E (RowBuilt nb k row X s) (f s row)) (hX : nb.lbFacts ⊆ X)
    (hnil : ∀ G g, s.grp G = some g → g k = []) (hs : Built nb X s) :
    Ends E (fun s' => Built nb (X ∪ {f | ∃ row ∈ rows dp nb k, f ∈ rowFacts k row}) s' ∧
      Appends (fun G k' => if k' = k then nb.direct dp k G else []) s.grp s'.grp)
      ((rows dp nb k).foldlM f s) := by
  refine Ends.foldlM_done
    (R := fun done s' => Built nb (X ∪ {f | ∃ row ∈ done, f ∈ rowFacts k row}) s'
    ∧ Appends (fun G k' => if k' = k then (done.filter (G ∈ ·.lbgrps)).map (·.uuid) else [])
      s.grp s'.grp) ?_ ?_
  · intro done row s' hpre hs'
    have hroom : ∀ G, Room E dp k 1 G s' := by
      intro G g hg
      obtain ⟨g₀, hg0, heq⟩ := hs'.2.some hg
      have hlen := hpre.length_le.trans length_rows_le
      have hfilter := length_filter_le (fun row : OdRow => decide (G ∈ row.lbgrps)) done
      rw [length_append, length_singleton] at hlen
      refine .inr ?_
      rw [heq, hnil G g₀ hg0, nil_append, if_pos rfl, length_map]
      omega
    have hrow := (mem_rows.1 (hpre.subset mem_concat_self)).1
    refine (hf row hrow _ (hX.trans Set.subset_union_left) s' hroom hs'.1).mono
      fun s'' hs'' => ⟨?_, (hs'.2.trans hs''.2).congr fun G k' => ?_⟩
    · have hU : X ∪ {f | ∃ r ∈ done ++ [row], f ∈ rowFacts k r} =
          X ∪ {f | ∃ r ∈ done, f ∈ rowFacts k r} ∪ rowFacts k row := by
        ext p
        simp [or_assoc]
      rw [hU]
      exact hs''.1
    · by_cases hk : k' = k
      · by_cases hG : G ∈ row.lbgrps <;> simp [hk, hG]
      · simp [hk]
  · refine ⟨?_, (Appends.refl s.grp).congr fun G k' => by simp⟩
    have hnil : X ∪ {f | ∃ row ∈ ([] : List OdRow), f ∈ rowFacts k row} = X := by
      simp
    rwa [hnil]

def grpFacts (nb : Nb) (g : ℕ → Option (OdKind → List ℕ)) (G : ℕ) : Set Fact :=
  {f | ∃ k L o arrays, nb.GrpLb G L ∧ g G = some arrays ∧ o ∈ arrays k ∧ f = .od k L o}

variable {d : LbData}

theorem lbgrps_of_hasGrp (hd : d.Of nb) (hG : nb.HasGrp G) :
    ∃ grp, d.lbgrps G = some grp ∧ ∀ L, L ∈ grp.lbs ↔ nb.GrpLb G L := by
  have hmap := hd.lbgrps G
  cases hg : d.lbgrps G with
  | none =>
    rw [hg] at hmap
    exact absurd hG (Nb.grpLbs_eq_none.1 hmap.symm)
  | some grp => simp [Nb.GrpLb, ← hmap, hg]

theorem ends_buildGrp (hd : d.Of nb) (hG : nb.HasGrp G) (hX : nb.lbFacts ⊆ X) (hs : Built nb X s) :
    Ends E (fun s' => s'.facts = X ∪ grpFacts nb s.grp G ∧ s'.grp = s.grp) (s.buildGrp d G) := by
  obtain ⟨rfl, hgrp⟩ := hs
  obtain ⟨g, hg⟩ := hgrp G hG
  obtain ⟨grp, hgrp, hlbs⟩ := lbgrps_of_hasGrp hd hG
  unfold buildGrp
  simp only [hg, hgrp]
  have hloop := Ends.foldlM_union (E := E) (f := fun s L => do
      let s ← s.addToLb .ls (g .ls) L
      s.addToLb .lr (g .lr) L) (F := fun L => odFacts .ls L (g .ls) ∪ odFacts .lr L (g .lr))
    (R := fun X (s' : Northd) => s'.facts = X ∧ s'.grp = s.grp) nb.lbFacts
    grp.lbs ?_ hX ⟨rfl, rfl⟩
  · refine hloop.mono fun s' hs' => ⟨?_, hs'.2⟩
    rw [hs'.1]
    congr 1
    ext f
    constructor
    · rintro ⟨L, hL, ⟨o, ho, rfl⟩ | ⟨o, ho, rfl⟩⟩
      · exact ⟨.ls, L, o, g, (hlbs L).1 hL, hg, ho, rfl⟩
      · exact ⟨.lr, L, o, g, (hlbs L).1 hL, hg, ho, rfl⟩
    · rintro ⟨k, L, o, arrays, hL, ha, ho, rfl⟩
      obtain rfl : g = arrays := Option.some.inj (hg.symm.trans ha)
      refine ⟨L, (hlbs L).2 hL, ?_⟩
      cases k
      · exact .inl ⟨o, ho, rfl⟩
      · exact .inr ⟨o, ho, rfl⟩
  · rintro L hL X s' hX ⟨rfl, hgrp'⟩
    have hlb : .lb L ∈ s'.facts := hX ⟨L, ((hlbs L).1 hL).hasLb, rfl⟩
    refine Ends.bind (ends_addToLb (g .ls) hlb) fun s₁ h1 => ?_
    have hlb' : .lb L ∈ s₁.facts := by
      rw [h1.1]
      exact .inl hlb
    refine (ends_addToLb (g .lr) hlb').mono fun s₂ h2 => ⟨?_, h2.2.1.trans (h1.2.1.trans hgrp')⟩
    rw [h2.1, h1.1, Set.union_assoc]

variable {g : ℕ → Option (OdKind → List ℕ)}

theorem mem_grpFacts :
    .od k L o ∈ grpFacts nb g G ↔ ∃ arrays, nb.GrpLb G L ∧ g G = some arrays ∧ o ∈ arrays k := by
  simp [grpFacts]

theorem lb_notMem_grpFacts : .lb L ∉ grpFacts nb g G := by
  rintro ⟨k, M, o, arrays, -, -, -, h⟩
  cases h

theorem mem_rowFacts {k' : OdKind} : (∃ row ∈ rows dp nb k', .od k L o ∈ rowFacts k' row) ↔
    k = k' ∧ o ∈ dp.ods k' ∧ nb.OdLb k' o L := by
  simp only [rowFacts, mem_rows, Nb.odLb_iff, Set.mem_ofPred_eq, mem_odFacts, mem_singleton]
  grind

theorem lb_notMem_rowFacts : .lb L ∉ rowFacts k row := by
  rintro ⟨M, -, h⟩
  exact lb_notMem_odFacts h

def base (dp : Datapaths) (nb : Nb) : Fact → Prop
  | .lb L => nb.HasLb L
  | .od k L o => o ∈ dp.ods k ∧ nb.Assoc k o L

theorem base_eq (hg : ∀ G, g G = if nb.HasGrp G then some fun k => nb.direct dp k G else none) :
    nb.lbFacts ∪ {f | ∃ row ∈ rows dp nb .ls, f ∈ rowFacts .ls row} ∪
      {f | ∃ row ∈ rows dp nb .lr, f ∈ rowFacts .lr row} ∪
      {f | ∃ G ∈ nb.lbgrps.map (·.uuid), f ∈ grpFacts nb g G} = {f | base dp nb f} := by
  ext f
  cases f with
  | lb L =>
    simp [lb_notMem_rowFacts, lb_notMem_grpFacts, Nb.lbFacts, base]
  | od k L o =>
    have hrows : (∃ row ∈ rows dp nb .ls, .od k L o ∈ rowFacts .ls row) ∨
        (∃ row ∈ rows dp nb .lr, .od k L o ∈ rowFacts .lr row) ↔ o ∈ dp.ods k ∧ nb.OdLb k o L := by
      rw [mem_rowFacts, mem_rowFacts]
      cases k <;> simp
    have hgrps : (∃ G ∈ nb.lbgrps.map (·.uuid), .od k L o ∈ grpFacts nb g G) ↔
        o ∈ dp.ods k ∧ ∃ G, nb.OdGrp k o G ∧ nb.GrpLb G L := by
      constructor
      · rintro ⟨G, -, h⟩
        obtain ⟨arrays, hL, harr, ho⟩ := mem_grpFacts.1 h
        rw [hg G, if_pos hL.hasGrp] at harr
        cases harr
        obtain ⟨hod, hgrp⟩ := mem_direct.1 ho
        exact ⟨hod, G, hgrp, hL⟩
      · rintro ⟨hod, G, hgrp, hL⟩
        refine ⟨G, hL.hasGrp, mem_grpFacts.2 ⟨fun k => nb.direct dp k G, hL, ?_,
          mem_direct.2 ⟨hod, hgrp⟩⟩⟩
        rw [hg G, if_pos hL.hasGrp]
    show ((_ ∨ _) ∨ _) ∨ _ ↔ o ∈ dp.ods k ∧ (nb.OdLb k o L ∨ ∃ G, nb.OdGrp k o G ∧ nb.GrpLb G L)
    rw [and_or_left, ← hrows, ← hgrps]
    have hno : .od k L o ∉ nb.lbFacts := by
      rintro ⟨M, -, h⟩
      cases h
    rw [or_iff_right hno]
    rfl

theorem ends_buildLbDatapaths (hd : d.Of nb) : Ends E (fun s => s.facts = {f | base dp nb f} ∧
      ∀ G, s.grp G = if nb.HasGrp G then some fun k => nb.direct dp k G else none)
      (buildLbDatapaths dp d nb) := by
  set s₀ : Northd :=
    { lb := fun L => if L ∈ nb.lbs.map (·.uuid) then some .create else none
      grp := fun G => if G ∈ nb.lbgrps.map (·.uuid) then some fun _ => [] else none } with hs0
  have hstart : Built nb nb.lbFacts s₀ := by
    refine ⟨?_, fun G hG => ⟨_, if_pos hG⟩⟩
    ext f
    cases f with
    | lb L => simp [facts, Says, hs0, Nb.lbFacts, Nb.HasLb, eq_comm]
    | od k L o => simp [facts, Says, hs0, Nb.lbFacts, LbDps.create]
  have hnil : ∀ G g, s₀.grp G = some g → g = fun _ => [] := fun G g hg => by
    change (if G ∈ nb.lbgrps.map (·.uuid) then some fun _ => [] else none) = some g at hg
    split at hg <;> cases hg
    rfl
  refine Ends.bind (ends_buildRows (fun row hrow X hX s hroom hs => ends_buildLs hrow hX hroom hs)
    subset_rfl (fun G g hg => by rw [hnil G g hg]) hstart) fun s₁ h1 => ?_
  refine Ends.bind (ends_buildRows (fun row hrow X hX s hroom hs => ends_buildLr hrow hX hroom hs)
    Set.subset_union_left (fun G g hg => ?_) h1.1) fun s₂ h2 => ?_
  · obtain ⟨g₀, hg0, heq⟩ := h1.2.some hg
    rw [heq, hnil G g₀ hg0]
    rfl
  have hgrp : ∀ G, s₂.grp G = if nb.HasGrp G then some fun k => nb.direct dp k G else none := by
    intro G
    rw [h2.2 G, h1.2 G, Option.map_map]
    show Option.map _ (if nb.HasGrp G then _ else _) = _
    split
    · simp only [Option.map_some, Option.some.injEq]
      funext k
      cases k <;> simp
    · rfl
  have hloop := Ends.foldlM_union (E := E) (f := buildGrp d) (F := grpFacts nb s₂.grp)
    (R := fun X (s' : Northd) => s'.facts = X ∧ s'.grp = s₂.grp) nb.lbFacts
    (nb.lbgrps.map (·.uuid)) ?_ ?_ ⟨rfl, rfl⟩
  · refine hloop.mono fun s' hs' => ⟨?_, fun G => by rw [hs'.2, hgrp G]⟩
    rw [hs'.1, h2.1.1]
    exact base_eq hgrp
  · rintro G hG X s' hX ⟨rfl, hgrp'⟩
    have hs' : Built nb s'.facts s' :=
      ⟨rfl, fun G hG => by rw [hgrp', hgrp G, if_pos hG]; exact ⟨_, rfl⟩⟩
    have := ends_buildGrp (E := E) hd hG hX hs'
    rwa [hgrp'] at this
  · simp [h2.1.1, Set.union_assoc]

/-! ### Peers -/

theorem mem_foldl_add {k' : OdKind} {f : ℕ → List ℕ} : ∀ {routers : List ℕ} {d : LbDps},
    o ∈ (routers.foldl (fun d r => d.add k (f r)) d).ods k' ↔
      o ∈ d.ods k' ∨ (k' = k ∧ ∃ r ∈ routers, o ∈ f r)
  | [], d => by simp
  | r :: routers, d => by
    rw [foldl_cons, mem_foldl_add, LbDps.mem_add, or_assoc, ← and_or_left]
    simp

def peerFacts (dp : Datapaths) (Y : Set Fact) (L : ℕ) : Set Fact :=
  {f | ∃ r o, r ∈ dp.ods .lr ∧ .od .lr L r ∈ Y ∧ o ∈ dp.lsPeers r ∧ f = .od .ls L o}

theorem ends_addPeersToLb {Y : Set Fact} (hL : .lb L ∈ s.facts)
    (hY : ∀ r, .od .lr L r ∈ s.facts ↔ .od .lr L r ∈ Y) :
    Ends E (fun s' => s'.facts = s.facts ∪ peerFacts dp Y L ∧ s'.grp = s.grp)
      (s.addPeersToLb dp L) := by
  obtain ⟨d, hd⟩ := hL
  have hlr : ∀ r, r ∈ d.ods .lr ↔ .od .lr L r ∈ Y := by
    intro r
    rw [← hY]
    exact ⟨fun hr => ⟨d, hd, hr⟩, fun ⟨e, he, hr⟩ => by
      obtain rfl : d = e := Option.some.inj (hd.symm.trans he)
      exact hr⟩
  unfold addPeersToLb
  simp only [hd]
  refine ⟨facts_update hd (fun k o => ?_) ?_, rfl⟩
  · rw [mem_foldl_add]
    refine or_congr_right ?_
    constructor
    · rintro ⟨rfl, r, hr, ho⟩
      obtain ⟨hdp, hr⟩ := mem_filter.1 hr
      exact ⟨r, o, hdp, (hlr r).1 (by simpa using hr), ho, rfl⟩
    · rintro ⟨r, o', hdp, hr, ho, h⟩
      cases h
      exact ⟨rfl, r, mem_filter.2 ⟨hdp, by simpa using (hlr r).2 hr⟩, ho⟩
  · rintro f ⟨r, o, -, -, -, rfl⟩
    exact ⟨rfl, fun M h => by cases h⟩

/-- One group: the peers of its routers are given to it and to its load balancers. -/
theorem ends_addPeersToGrp (hd : d.Of nb) (hG : nb.HasGrp G) (hX : nb.lbFacts ⊆ s.facts)
    {g : OdKind → List ℕ} (hg : s.grp G = some g)
    (hroom : Room E dp .ls ((g .lr).flatMap dp.lsPeers).length G s) :
    Ends E (fun s' => s'.facts = s.facts ∪
        {f | ∃ L r o, nb.GrpLb G L ∧ r ∈ g .lr ∧ o ∈ dp.lsPeers r ∧ f = .od .ls L o} ∧
      Appends (fun G' k' => if G' = G ∧ k' = .ls then (g .lr).flatMap dp.lsPeers else [])
        s.grp s'.grp) (s.addPeersToGrp dp d G) := by
  obtain ⟨grp, hgrp, hlbs⟩ := lbgrps_of_hasGrp hd hG
  unfold addPeersToGrp
  simp only [hg, hgrp]
  refine (Ends.foldlM_done (R := fun done (s' : Northd) => s'.facts = s.facts ∪
      {f | ∃ L r o, nb.GrpLb G L ∧ r ∈ done ∧ o ∈ dp.lsPeers r ∧ f = .od .ls L o} ∧
    Appends (fun G' k' => if G' = G ∧ k' = .ls then done.flatMap dp.lsPeers else []) s.grp s'.grp)
    ?_ ?_)
  · rintro done r s' ⟨rest, hpre⟩ ⟨hfacts, happ⟩
    have hin : ∃ g, s'.grp G = some g := happ.isSome.2 ⟨g, hg⟩
    have hroom' : Room E dp .ls (dp.lsPeers r).length G s' := by
      intro g' hg'
      obtain ⟨g₀, hg0, heq⟩ := happ.some hg'
      cases hg.symm.trans hg0
      refine (hroom g hg).imp_right fun hlen => ?_
      rw [← hpre] at hlen
      simp only [flatMap_append, flatMap_singleton, length_append] at hlen
      rw [heq, if_pos ⟨rfl, rfl⟩, length_append]
      omega
    refine Ends.bind (ends_addToGrp (dp.lsPeers r) (.inr hin) hroom') fun s₁ h₁ => ?_
    have hfacts1 : s₁.facts = s'.facts := by simp [facts, Says, h₁.1]
    refine (ends_addToLbs grp.lbs fun L hL => ?_).mono fun s₂ h₂ => ⟨?_, ?_⟩
    · rw [hfacts1, hfacts]
      exact .inl (hX ⟨L, ((hlbs L).1 hL).hasLb, rfl⟩)
    · rw [h₂.1, hfacts1, hfacts, Set.union_assoc]
      congr 1
      ext f
      constructor
      · rintro (⟨L, r', o, h1, h2, h3, rfl⟩ | ⟨L, hL, o, ho, rfl⟩)
        · exact ⟨L, r', o, h1, mem_append_left _ h2, h3, rfl⟩
        · exact ⟨L, r, o, (hlbs L).1 hL, mem_append_right _ (mem_singleton_self r), ho, rfl⟩
      · rintro ⟨L, r', o, h1, h2, h3, rfl⟩
        rcases mem_append.1 h2 with h2 | h2
        · exact .inl ⟨L, r', o, h1, h2, h3, rfl⟩
        · simp_all
    · rw [h₂.2]
      refine (happ.trans h₁.2.2.2).congr fun G' k' => ?_
      by_cases h : G' = G ∧ k' = .ls <;> simp [h]
  · refine ⟨?_, (Appends.refl s.grp).congr fun G' k' => by simp⟩
    have hnil : {f | ∃ L r o, nb.GrpLb G L ∧ r ∈ ([] : List ℕ) ∧ o ∈ dp.lsPeers r ∧
        f = Fact.od .ls L o} = ∅ := by
      simp
    rw [hnil, Set.union_empty]

def grpPeerFacts (dp : Datapaths) (nb : Nb) (G : ℕ) : Set Fact :=
  {f | ∃ L r o, nb.GrpLb G L ∧ r ∈ nb.direct dp .lr G ∧ o ∈ dp.lsPeers r ∧ f = .od .ls L o}

theorem holds_eq (hi : dp.installLsLbFromRouter = true) :
    {f | base dp nb f} ∪ {f | ∃ L ∈ nb.lbs.map (·.uuid), f ∈ peerFacts dp {f | base dp nb f} L} ∪
      {f | ∃ G ∈ nb.lbgrps.map (·.uuid), f ∈ grpPeerFacts dp nb G} = {f | nb.Holds dp f} := by
  ext f
  constructor
  · rintro ((h | ⟨L, -, r, o, hdp, hr, ho, rfl⟩) | ⟨G, -, L, r, o, hL, hr, ho, rfl⟩)
    · rcases f with L | ⟨_ | _, L, o⟩
      · exact h
      · exact .inl h
      · exact h
    · exact .inr ⟨hi, r, hdp, hr.2, ho⟩
    · obtain ⟨hdp, hgrp⟩ := mem_direct.1 hr
      exact .inr ⟨hi, r, hdp, .inr ⟨G, hgrp, hL⟩, ho⟩
  · intro h
    rcases f with L | ⟨_ | _, L, o⟩
    · exact .inl (.inl h)
    · rcases h with h | ⟨-, r, hdp, hr, ho⟩
      · exact .inl (.inl h)
      · exact .inl (.inr ⟨L, hr.hasLb, r, o, hdp, ⟨hdp, hr⟩, ho, rfl⟩)
    · exact .inl (.inl h)

theorem ends_buildLswitchLbsFromLrouter (hd : d.Of nb) (hfits : E .overflow ∨ nb.Fits dp)
    (hfacts : s.facts = {f | base dp nb f})
    (hgrp : ∀ G, s.grp G = if nb.HasGrp G then some fun k => nb.direct dp k G else none) :
    Ends E (Exact dp nb) (s.buildLswitchLbsFromLrouter dp d nb) := by
  have hgrps : ∀ G, (∃ g, s.grp G = some g) ↔ nb.HasGrp G := by
    intro G
    rw [hgrp G]
    split <;> simp [*]
  unfold buildLswitchLbsFromLrouter
  cases hi : dp.installLsLbFromRouter
  · refine ⟨?_, hgrps, fun G g hg => ?_⟩
    · rw [hfacts]
      ext f
      rcases f with L | ⟨_ | _, L, o⟩ <;> simp [base, Nb.Holds, hi]
    · rw [hgrp G] at hg
      split at hg
      · cases hg
        simp [Nb.Arrays, Datapaths.peers, hi]
      · cases hg
  · have hlbs : nb.lbFacts ⊆ s.facts := by
      rintro _ ⟨L, hL, rfl⟩
      rw [hfacts]
      exact hL
    refine Ends.bind (Ends.foldlM_union (F := peerFacts dp s.facts)
      (R := fun X (s' : Northd) => s'.facts = X ∧ s'.grp = s.grp ∧
        ∀ L r, .od .lr L r ∈ X ↔ .od .lr L r ∈ s.facts) s.facts (nb.lbs.map (·.uuid)) ?_ subset_rfl
      ⟨rfl, rfl, fun _ _ => .rfl⟩) ?_
    · rintro L hL X s' hX ⟨rfl, hg, hlr⟩
      refine (ends_addPeersToLb (hX (hlbs ⟨L, hL, rfl⟩)) (hlr L)).mono fun s₁ h1 =>
        ⟨h1.1, h1.2.trans hg, fun M r => ?_⟩
      rw [← hlr M r]
      refine or_iff_left ?_
      rintro ⟨r, o, -, -, -, h⟩
      cases h
    · rintro s₁ ⟨hfacts1, hg1, -⟩
      refine (ends_addToGrps dp (k := .ls) (a := fun G => (nb.direct dp .lr G).flatMap dp.lsPeers)
        (P :=
          fun done s' => (∀ G, nb.HasGrp G → ∃ g, s'.grp G = some g ∧ g .lr = nb.direct dp .lr G) ∧
          s'.facts = s₁.facts ∪ {f | ∃ G ∈ done, f ∈ grpPeerFacts dp nb G})
        (nb.lbgrps.map (·.uuid)) nb.lbgrpsNodup ?_
          (fun G hG g hg => hfits.imp_right fun hfits => ?_) [] ?_).mono ?_
      · rintro done s' G hG ⟨hin, hfacts'⟩ hroom
        obtain ⟨g, hg, hlr⟩ := hin G hG
        have hlb : nb.lbFacts ⊆ s'.facts := by
          rw [hfacts', hfacts1]
          exact fun f hf => .inl (.inl (hlbs hf))
        refine (ends_addPeersToGrp hd hG hlb hg (hlr ▸ hroom)).mono fun s₂ h2 => ?_
        rw [hlr] at h2
        refine ⟨⟨fun G' hG' => ?_, ?_⟩, h2.2⟩
        · obtain ⟨g', hg', hlr'⟩ := hin G' hG'
          rw [h2.2 G', hg']
          exact ⟨_, rfl, by simp [hlr']⟩
        · rw [h2.1, hfacts', Set.union_assoc]
          ext f
          simp [grpPeerFacts]
      · have hlen := hfits G
        rw [hg1, hgrp G, if_pos (show nb.HasGrp G from hG)] at hg
        cases hg
        rwa [length_append, Datapaths.peers, if_pos hi] at hlen
      · simp_all
      · rintro s₂ ⟨⟨-, hfacts2⟩, happ⟩
        refine ⟨?_, fun G => ?_, fun G g hg => ?_⟩
        · rw [hfacts2, hfacts1, hfacts]
          exact holds_eq hi
        · rw [happ.isSome, hg1, hgrps]
        · rw [happ G, hg1, hgrp G] at hg
          by_cases hG : nb.HasGrp G
          · have hin : G ∈ nb.lbgrps.map (·.uuid) := hG
            rw [if_pos hG] at hg
            cases hg
            simp [Nb.Arrays, Datapaths.peers, hi, hin]
          · rw [if_neg hG] at hg
            cases hg

/-- **What a recompute leaves.** No assertion fails, no array overflows if it has room, and the
    datapath sets are those of the content. -/
theorem ends_recompute (hfits : E .overflow ∨ nb.Fits dp) :
    Ends E (Exact dp nb) (recompute dp nb) := by
  have hd := LbData.of_run nb
  refine Ends.bind (ends_buildLbDatapaths hd) fun s₁ h1 => ?_
  refine Ends.bind (ends_buildLswitchLbsFromLrouter hd hfits h1.1 h1.2) fun s₂ h2 => ?_
  refine ⟨?_, h2.grps, h2.arrays⟩
  rw [← h2.facts]
  ext f
  cases f <;> simp [facts, Says, buildLbCountDps]

end Northd

end

end Ovn.Lb

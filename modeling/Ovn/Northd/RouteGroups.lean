/-
  How the routes of a router are numbered and grouped.

  While there are few enough of them, a route table has one id, and the groups are the parsed routes
  by what they are written with: each key that occurs has one entry, with the routes in order.
-/
import Ovn.Northd.Routes
import Mathlib.Data.List.Nodup
import Mathlib.Data.List.Perm.Subperm

namespace Ovn.Routes

open List

/-! ## Route tables -/

/-- `id` stands for the route table of a name. -/
def Known (tables : List String) (name : String) (id : ℕ) : Prop :=
  name = "" ∧ id = 0 ∨ name ≠ "" ∧ name ∈ tables ∧ id = tables.idxOf name + 1

variable {t : List String}

theorem Known.mono {t' : List String} {name : String} {id : ℕ} (h : Known t name id)
    (hle : t <+: t') :
    Known t' name id := by
  obtain h | ⟨hne, hmem, rfl⟩ := h
  · exact .inl h
  · obtain ⟨rest, rfl⟩ := hle
    exact .inr ⟨hne, mem_append_left _ hmem, by rw [idxOf_append_of_mem hmem]⟩

theorem Known.eq_iff {a b : String} {i j : ℕ} (ha : Known t a i) (hb : Known t b j) :
    i = j ↔ a = b := by
  obtain ⟨rfl, rfl⟩ | ⟨hane, hamem, rfl⟩ := ha <;> obtain ⟨rfl, rfl⟩ | ⟨hbne, hbmem, rfl⟩ := hb
  · simp
  · exact ⟨nofun, fun h => absurd h.symm hbne⟩
  · exact ⟨nofun, fun h => absurd h hane⟩
  · rw [Nat.add_right_cancel_iff]
    exact idxOf_inj hamem

theorem Known.eq_zero_iff {name : String} {id : ℕ} (h : Known t name id) : id = 0 ↔ name = "" :=
  h.eq_iff (.inl ⟨rfl, rfl⟩)

theorem getRouteTableId_spec {tables : List String} (hfew : tables.length + 1 < uint16Max)
    (name : String) : Known (getRouteTableId tables name).1 name (getRouteTableId tables name).2 ∧
      tables <+: (getRouteTableId tables name).1 ∧
      (getRouteTableId tables name).1.length ≤ tables.length + 1 := by
  unfold getRouteTableId
  by_cases hempty : name = ""
  · rw [if_pos hempty]
    exact ⟨.inl ⟨hempty, rfl⟩, prefix_refl _, Nat.le_succ _⟩
  rw [if_neg hempty]
  unfold simapGet
  by_cases hmem : name ∈ tables
  · rw [if_pos hmem]
    exact ⟨.inr ⟨hempty, hmem, rfl⟩, prefix_refl _, Nat.le_succ _⟩
  rw [if_neg hmem]
  unfold routeTableAdd
  rw [if_neg (Nat.ne_of_lt hfew)]
  refine ⟨.inr ⟨hempty, mem_append_right _ mem_cons_self, ?_⟩, prefix_append _ _, ?_⟩
  · simp [idxOf_append_of_notMem hmem]
  · simp

theorem buildRouteTableLflows_spec (tables : List String) (ports : List Port)
    (hfew : tables.length + ports.length < uint16Max) (hnodup : (ports.map Port.name).Nodup) :
    tables <+: (buildRouteTableLflows tables ports).1 ∧
      (buildRouteTableLflows tables ports).1.length ≤ tables.length + ports.length ∧
      (∀ b ∈ (buildRouteTableLflows tables ports).2, b.1 ∈ ports.map Port.name) ∧
      ∀ op ∈ ports, Known (buildRouteTableLflows tables ports).1 op.routeTable
        (((buildRouteTableLflows tables ports).2.lookup op.name).getD 0) := by
  induction ports generalizing tables with
  | nil => exact ⟨prefix_refl _, Nat.le_refl _, forall_mem_nil _, forall_mem_nil _⟩
  | cons op ports ih =>
    rw [length_cons] at hfew
    rw [map_cons, nodup_cons] at hnodup
    obtain ⟨hknown, hle, hlen⟩ := getRouteTableId_spec (by omega : tables.length + 1 < uint16Max)
      op.routeTable
    unfold buildRouteTableLflows
    generalize getRouteTableId tables op.routeTable = r at hknown hle hlen
    obtain ⟨hle', hlen', hnames, hports⟩ := ih r.1 (by omega) hnodup.2
    dsimp only
    generalize buildRouteTableLflows r.1 ports = q at hle' hlen' hnames hports
    have hfresh : q.2.lookup op.name = none := by
      rw [lookup_eq_none_iff]
      intro b hb
      rw [bne_iff_ne]
      rintro heq
      exact hnodup.1 (heq ▸ hnames b hb)
    refine ⟨hle.trans hle', ?_, ?_, ?_⟩
    · rw [length_cons]
      omega
    · intro b hb
      rw [map_cons, mem_cons]
      split at hb
      · exact .inr (hnames b hb)
      · obtain rfl | hb := mem_cons.1 hb
        · exact .inl rfl
        · exact .inr (hnames b hb)
    · intro op' hop'
      obtain rfl | hop' := mem_cons.1 hop'
      · have h := hknown.mono hle'
        split
        next hid => rwa [hfresh, ← hid]
        · simpa using h
      · have hne : op'.name ≠ op.name := fun heq => hnodup.1 (heq ▸ mem_map_of_mem hop')
        split
        · exact hports op' hop'
        · rw [lookup_cons, beq_false_of_ne hne]
          exact hports op' hop'

/-! ## Groups -/

def EcmpGroup.routes (eg : EcmpGroup) : List ParsedRoute :=
  eg.routeList.map Prod.snd

def keyed (prs : List ParsedRoute) (k : Cidr × Bool × ℕ) : List ParsedRoute :=
  prs.filter fun pr => pr.key = k

def Groups.keys (s : Groups) : List (Cidr × Bool × ℕ) :=
  s.ecmpGroups.map EcmpGroup.key ++ s.uniqueRoutes.map ParsedRoute.key

/-- The groups are the routes `prs` by their keys; the origin of a group is that of its first
    route. -/
structure Groups.Of (s : Groups) (prs : List ParsedRoute) : Prop where
  nodup : s.keys.Nodup
  ecmp : ∀ eg ∈ s.ecmpGroups, eg.routes = keyed prs eg.key ∧
    eg.routes.head?.map (fun pr => pr.route.originConnected) = some eg.originConnected
  unique : ∀ ur ∈ s.uniqueRoutes, [ur] = keyed prs ur.key
  covered : ∀ pr ∈ prs, pr.key ∈ s.keys

section keyed

variable {prs : List ParsedRoute} {pr : ParsedRoute} {k : Cidr × Bool × ℕ}

theorem keyed_append_of_ne (h : pr.key ≠ k) : keyed (prs ++ [pr]) k = keyed prs k := by
  simp [keyed, h]

theorem keyed_append_self : keyed (prs ++ [pr]) pr.key = keyed prs pr.key ++ [pr] := by
  simp [keyed]

theorem mem_keyed : pr ∈ keyed prs k ↔ pr ∈ prs ∧ pr.key = k := by
  simp [keyed]

theorem keyed_eq_nil {s : Groups} (h : s.Of prs) (hk : k ∉ s.keys) : keyed prs k = [] := by
  rw [eq_nil_iff_forall_not_mem]
  intro pr hpr
  obtain ⟨hmem, hkey⟩ := mem_keyed.1 hpr
  exact hk (hkey ▸ h.covered pr hmem)

end keyed

theorem EcmpGroup.addRoute_key (eg : EcmpGroup) (pr : ParsedRoute) :
    (eg.addRoute pr).key = eg.key := by
  unfold EcmpGroup.addRoute
  split <;> rfl

theorem EcmpGroup.addRoute_originConnected (eg : EcmpGroup) (pr : ParsedRoute) :
    (eg.addRoute pr).originConnected = eg.originConnected := by
  unfold EcmpGroup.addRoute
  split <;> rfl

theorem EcmpGroup.addRoute_routes {eg : EcmpGroup} (h : eg.routes.length < uint16Max)
    (pr : ParsedRoute) : (eg.addRoute pr).routes = eg.routes ++ [pr] := by
  unfold EcmpGroup.addRoute
  rw [if_neg (by simpa [routes] using Nat.ne_of_lt h)]
  simp [routes]

namespace Groups

variable {s : Groups} {prs : List ParsedRoute} {pr : ParsedRoute}

theorem Of.length_routes_le (h : s.Of prs) {eg : EcmpGroup} (heg : eg ∈ s.ecmpGroups) :
    eg.routes.length ≤ prs.length := by
  rw [(h.ecmp eg heg).1]
  exact length_filter_le _ _

theorem Of.length_ecmpGroups_le (h : s.Of prs) : s.ecmpGroups.length ≤ prs.length := by
  have hsub : s.ecmpGroups.map EcmpGroup.key ⊆ prs.map ParsedRoute.key := by
    intro k hk
    obtain ⟨eg, heg, rfl⟩ := mem_map.1 hk
    obtain ⟨hroutes, hhead⟩ := h.ecmp eg heg
    obtain ⟨pr, hpr, -⟩ := Option.map_eq_some_iff.1 hhead
    have hmem := mem_of_mem_head? hpr
    rw [hroutes] at hmem
    obtain ⟨hmem, hkey⟩ := mem_keyed.1 hmem
    exact hkey ▸ mem_map_of_mem hmem
  have hnodup : (s.ecmpGroups.map EcmpGroup.key).Nodup := (nodup_append.1 h.nodup).1
  simpa using (subperm_of_subset hnodup hsub).length_le

theorem Of.add {s' : Groups} (h : s.Of prs) (hnodup : s'.keys.Nodup)
    (hkeys : ∀ k, k ∈ s'.keys ↔ k ∈ s.keys ∨ k = pr.key)
    (hecmp : ∀ eg ∈ s'.ecmpGroups, eg ∈ s.ecmpGroups ∧ eg.key ≠ pr.key ∨
      eg.routes = keyed (prs ++ [pr]) eg.key ∧
        eg.routes.head?.map (fun pr => pr.route.originConnected) = some eg.originConnected)
    (hunique : ∀ ur ∈ s'.uniqueRoutes, ur ∈ s.uniqueRoutes ∧ ur.key ≠ pr.key ∨
      [ur] = keyed (prs ++ [pr]) ur.key) : s'.Of (prs ++ [pr]) := by
  refine ⟨hnodup, fun eg heg => ?_, fun ur hur => ?_, fun pr' hpr' => ?_⟩
  · obtain ⟨hold, hne⟩ | hnew := hecmp eg heg
    · rw [keyed_append_of_ne (Ne.symm hne)]
      exact h.ecmp eg hold
    · exact hnew
  · obtain ⟨hold, hne⟩ | hnew := hunique ur hur
    · rw [keyed_append_of_ne (Ne.symm hne)]
      exact h.unique ur hold
    · exact hnew
  · rw [hkeys]
    obtain hpr' | hpr' := mem_append.1 hpr'
    · exact .inl (h.covered pr' hpr')
    · exact .inr (congrArg ParsedRoute.key (mem_singleton.1 hpr'))

theorem Of.place_ecmp (h : s.Of prs) (hfew : prs.length < uint16Max)
    (hin : ∃ eg ∈ s.ecmpGroups, eg.key = pr.key) : (s.place pr).Of (prs ++ [pr]) := by
  have hany : (s.ecmpGroups.any fun eg => eg.key = pr.key) = true := by simpa using hin
  obtain ⟨eg₀, heg0, hkey0⟩ := hin
  have hkeys : (s.ecmpGroups.map fun eg => if eg.key = pr.key then eg.addRoute pr else eg).map
      EcmpGroup.key = s.ecmpGroups.map EcmpGroup.key := by
    rw [map_map]
    refine map_congr_left fun eg _ => ?_
    rw [Function.comp_apply]
    split
    · exact eg.addRoute_key pr
    · rfl
  unfold place
  rw [if_pos hany]
  refine h.add ?_ (fun k => ?_) (fun eg' heg' => ?_) fun ur hur => .inl ⟨hur, fun heq => ?_⟩
  · rw [keys, hkeys]
    exact h.nodup
  · rw [keys, hkeys]
    refine (or_iff_left_of_imp ?_).symm
    rintro rfl
    exact mem_append_left _ (hkey0 ▸ mem_map_of_mem heg0)
  · obtain ⟨eg, heg, rfl⟩ := mem_map.1 heg'
    split
    next hkey =>
      obtain ⟨hroutes, hhead⟩ := h.ecmp eg heg
      obtain ⟨a, ha, horigin⟩ := Option.map_eq_some_iff.1 hhead
      rw [eg.addRoute_key, eg.addRoute_originConnected,
        EcmpGroup.addRoute_routes (Nat.lt_of_le_of_lt (h.length_routes_le heg) hfew), hkey,
        keyed_append_self, ← hkey, ← hroutes, head?_append, ha]
      exact .inr ⟨rfl, congrArg some horigin⟩
    next hkey => exact .inl ⟨heg, hkey⟩
  · exact (nodup_append.1 h.nodup).2.2 _ (mem_map_of_mem heg0) _ (mem_map_of_mem hur)
      (hkey0.trans heq.symm)

theorem ecmpGroupsAdd_spec (hfew : s.ecmpGroups.length < uint16Max) (pr : ParsedRoute) :
    ∃ eg, s.ecmpGroupsAdd pr = some eg ∧ eg.key = pr.key ∧ eg.routes = [pr] ∧
      eg.originConnected = pr.route.originConnected := by
  unfold ecmpGroupsAdd
  rw [if_neg (Nat.ne_of_lt hfew)]
  refine ⟨_, rfl, EcmpGroup.addRoute_key _ _, EcmpGroup.addRoute_routes ?_ _,
    EcmpGroup.addRoute_originConnected _ _⟩
  exact (by decide : 0 < uint16Max)

theorem Of.place_new (h : s.Of prs) (hfew : prs.length < uint16Max) (hnew : pr.key ∉ s.keys) :
    (s.place pr).Of (prs ++ [pr]) := by
  have hnot : ¬ ∃ eg ∈ s.ecmpGroups, eg.key = pr.key := by
    rintro ⟨eg, heg, hkey⟩
    exact hnew (mem_append_left _ (hkey ▸ mem_map_of_mem heg))
  have hnone : ∀ ur ∈ s.uniqueRoutes, ur.key ≠ pr.key := fun ur hur hkey =>
    hnew (mem_append_right _ (hkey ▸ mem_map_of_mem hur))
  have halone : keyed (prs ++ [pr]) pr.key = [pr] := by
    rw [keyed_append_self, keyed_eq_nil h hnew, nil_append]
  unfold place
  rw [if_neg (by simpa using hnot), find?_eq_none.2 (by simpa using hnone)]
  dsimp only
  split
  · obtain ⟨eg, heg, hkey, hroutes, horigin⟩ :=
      ecmpGroupsAdd_spec (Nat.lt_of_le_of_lt h.length_ecmpGroups_le hfew) pr
    rw [heg, Option.toList_some]
    have hperm : keys { s with ecmpGroups := s.ecmpGroups ++ [eg] } |>.Perm (pr.key :: s.keys) := by
      simp [hkey, keys]
    refine h.add (hperm.nodup_iff.2 (nodup_cons.2 ⟨hnew, h.nodup⟩))
      (fun k => by rw [hperm.mem_iff, mem_cons, or_comm]) (fun eg' heg' => ?_)
      fun ur hur => .inl ⟨hur, hnone ur hur⟩
    obtain heg' | heg' := mem_append.1 heg'
    · exact .inl ⟨heg', fun heq => hnot ⟨eg', heg', heq⟩⟩
    · simp_all
  · have hperm : keys { s with uniqueRoutes := s.uniqueRoutes ++ [pr] } |>.Perm
        (pr.key :: s.keys) := by simp [← append_assoc, keys]
    refine h.add (hperm.nodup_iff.2 (nodup_cons.2 ⟨hnew, h.nodup⟩))
      (fun k => by rw [hperm.mem_iff, mem_cons, or_comm])
      (fun eg heg => .inl ⟨heg, fun heq => hnot ⟨eg, heg, heq⟩⟩) fun ur hur => ?_
    obtain hur | hur := mem_append.1 hur
    · exact .inl ⟨hur, hnone ur hur⟩
    · simp_all

theorem Of.place_second (h : s.Of prs) (hfew : prs.length + 1 < uint16Max) {existed : ParsedRoute}
    (hin : existed ∈ s.uniqueRoutes) (hkey : existed.key = pr.key) :
    (s.place pr).Of (prs ++ [pr]) := by
  obtain ⟨hecmps, huniques, hdisjoint⟩ := nodup_append.1 h.nodup
  have hnot : ∀ eg ∈ s.ecmpGroups, eg.key ≠ pr.key := fun eg heg heq =>
    hdisjoint eg.key (mem_map_of_mem heg) existed.key (mem_map_of_mem hin) (heq.trans hkey.symm)
  have hsame : ∀ ur ∈ s.uniqueRoutes, ur.key = pr.key → ur = existed := fun ur hur heq =>
    inj_on_of_nodup_map huniques hur hin (heq.trans hkey.symm)
  have hfind : s.uniqueRoutes.find? (fun ur => ur.key = pr.key) = some existed := by
    have hsome : (s.uniqueRoutes.find? fun ur => ur.key = pr.key).isSome :=
      find?_isSome.2 ⟨existed, hin, decide_eq_true hkey⟩
    obtain ⟨ur, hur⟩ := Option.isSome_iff_exists.1 hsome
    rw [hur, hsame ur (mem_of_find?_eq_some hur) (by simpa using find?_some hur)]
  obtain ⟨eg, heg, hegkey, hroutes, horigin⟩ :=
    ecmpGroupsAdd_spec (Nat.lt_of_le_of_lt h.length_ecmpGroups_le (Nat.lt_of_succ_lt hfew)) existed
  have hboth : (eg.addRoute pr).routes = [existed, pr] := by
    rw [EcmpGroup.addRoute_routes (by rw [hroutes]; exact (by decide : 1 < uint16Max)), hroutes]
    rfl
  unfold place
  rw [if_neg (by simpa using hnot), hfind]
  dsimp only
  rw [heg]
  have hperm : keys ⟨s.tables, s.ecmpGroups ++ [eg.addRoute pr],
    s.uniqueRoutes.erase existed⟩ |>.Perm
      s.keys := by
    unfold keys
    rw [map_append, map_singleton, eg.addRoute_key, hegkey, append_assoc]
    exact (((perm_cons_erase hin).map ParsedRoute.key).symm).append_left _
  refine h.add (hperm.nodup_iff.2 h.nodup) (fun k => ?_) (fun eg' heg' => ?_) fun ur hur => ?_
  · rw [hperm.mem_iff]
    refine (or_iff_left_of_imp ?_).symm
    rintro rfl
    exact mem_append_right _ (hkey ▸ mem_map_of_mem hin)
  · obtain heg' | heg' := mem_append.1 heg'
    · exact .inl ⟨heg', hnot eg' heg'⟩
    · obtain rfl := mem_singleton.1 heg'
      refine .inr ⟨?_, ?_⟩
      · rw [hboth, eg.addRoute_key, hegkey, hkey, keyed_append_self, ← hkey, ← h.unique _ hin]
        rfl
      · rw [hboth, eg.addRoute_originConnected, horigin]
        rfl
  · refine .inl ⟨mem_of_mem_erase hur, fun heq => ?_⟩
    obtain rfl := hsame ur (mem_of_mem_erase hur) heq
    exact (Nodup.of_map _ huniques).not_mem_erase hur

theorem Of.place (h : s.Of prs) (hfew : prs.length + 1 < uint16Max) (pr : ParsedRoute) :
    (s.place pr).Of (prs ++ [pr]) := by
  by_cases hin : pr.key ∈ s.keys
  · obtain hin | hin := mem_append.1 hin
    · exact h.place_ecmp (Nat.lt_of_succ_lt hfew) (mem_map.1 hin)
    · obtain ⟨existed, hin, hkey⟩ := mem_map.1 hin
      exact h.place_second hfew hin hkey
  · exact h.place_new (Nat.lt_of_succ_lt hfew) hin

@[simp] theorem place_tables (s : Groups) (pr : ParsedRoute) : (s.place pr).tables = s.tables := by
  unfold place
  split
  · rfl
  · split
    · rfl
    · split <;> rfl

end Groups

/-! ## The loop over the routes -/

def Router.accepted (R : Router) (routes : List StaticRoute) : List (Cidr × StaticRoute) :=
  routes.filterMap fun r => (checkRoute R r).map fun c => (c, r)

/-- `s` comes from the accepted ones of `routes`. -/
structure Groups.Parsed (R : Router) (s : Groups) (routes : List StaticRoute)
    (prs : List ParsedRoute) : Prop where
  groups : s.Of prs
  accepted : prs.map (fun pr => (pr.cidr, pr.route)) = R.accepted routes
  known : ∀ pr ∈ prs, Known s.tables pr.route.routeTable pr.routeTableId
  tables : (buildRouteTableLflows [] R.ports).1 <+: s.tables
  length_le : s.tables.length ≤ R.ports.length + routes.length

variable {R : Router} {s : Groups}

theorem Groups.addStaticRoute_none {r : StaticRoute} (h : checkRoute R r = none) :
    s.addStaticRoute R r = s := by
  simp [addStaticRoute, parsedRoutesAdd, h]

theorem Groups.addStaticRoute_some {r : StaticRoute} {c : Cidr} (h : checkRoute R r = some c) :
    s.addStaticRoute R r = { s with tables := (getRouteTableId s.tables r.routeTable).1 }.place
      ⟨c, (getRouteTableId s.tables r.routeTable).2, r⟩ := by
  simp [addStaticRoute, parsedRoutesAdd, h]

theorem Groups.Parsed.addStaticRoute {routes : List StaticRoute} {prs : List ParsedRoute}
    (h : s.Parsed R routes prs) (hfew : R.ports.length + routes.length + 1 < uint16Max)
    (r : StaticRoute) :
    ∃ prs', (s.addStaticRoute R r).Parsed R (routes ++ [r]) prs' := by
  have hroutes : R.accepted (routes ++ [r])
      = R.accepted routes ++ ((checkRoute R r).map fun c => (c, r)).toList := by
    unfold Router.accepted
    cases hcheck : checkRoute R r <;> simp [hcheck]
  cases hcheck : checkRoute R r with
  | none =>
    rw [Groups.addStaticRoute_none hcheck]
    refine ⟨prs, h.groups, ?_, h.known, h.tables, Nat.le_trans h.length_le ?_⟩
    · rw [hroutes, hcheck, h.accepted, Option.map_none, Option.toList_none, append_nil]
    · simp
  | some c =>
    have hlen := h.length_le
    obtain ⟨hknown, hle, hlen'⟩ := getRouteTableId_spec
      (by omega : s.tables.length + 1 < uint16Max) r.routeTable
    have hprs : prs.length ≤ routes.length := by
      have heq := congrArg length h.accepted
      rw [length_map] at heq
      exact heq ▸ length_filterMap_le _ _
    rw [Groups.addStaticRoute_some hcheck]
    generalize getRouteTableId s.tables r.routeTable = q at hknown hle hlen'
    refine ⟨prs ++ [⟨c, q.2, r⟩], ?_, ?_, ?_, ?_, ?_⟩
    · refine Groups.Of.place ?_ (by omega) _
      exact ⟨h.groups.nodup, h.groups.ecmp, h.groups.unique, h.groups.covered⟩
    · rw [hroutes, hcheck, map_append, h.accepted]
      rfl
    · intro pr hpr
      rw [Groups.place_tables]
      obtain hpr | hpr := mem_append.1 hpr
      · exact (h.known pr hpr).mono hle
      · rw [mem_singleton.1 hpr]
        exact hknown
    · rw [Groups.place_tables]
      exact h.tables.trans hle
    · rw [Groups.place_tables, length_append, length_singleton]
      dsimp only
      omega

theorem Groups.Parsed.foldl {routes : List StaticRoute} {prs : List ParsedRoute}
    (h : s.Parsed R routes prs) (rest : List StaticRoute)
    (hfew : R.ports.length + (routes.length + rest.length) < uint16Max) :
    ∃ prs', (rest.foldl (Groups.addStaticRoute R) s).Parsed R (routes ++ rest) prs' := by
  induction rest generalizing s routes prs with
  | nil => exact ⟨prs, by rwa [append_nil]⟩
  | cons r rest ih =>
    rw [length_cons] at hfew
    obtain ⟨prs', h'⟩ := h.addStaticRoute (by omega) r
    rw [append_cons]
    refine ih h' ?_
    rw [length_append, length_singleton]
    omega

/-- With few ports and routes, the groups are the accepted routes by their keys. -/
theorem Router.groups_parsed (R : Router) (hfew : R.ports.length + R.routes.length < uint16Max) :
    ∃ prs, R.groups.Parsed R R.routes prs := by
  have hnames : (R.ports.map Port.name).Nodup := by
    have h := R.names
    rw [map_append] at h
    exact (nodup_append.1 h).1
  have hlen := (buildRouteTableLflows_spec [] R.ports (by rw [length_nil]; omega) hnames).2.1
  have h : Groups.Parsed R ⟨(buildRouteTableLflows [] R.ports).1, [], []⟩ [] [] :=
    { groups := ⟨nodup_nil, forall_mem_nil _, forall_mem_nil _, forall_mem_nil _⟩
      accepted := rfl
      known := forall_mem_nil _
      tables := prefix_refl _
      length_le := by simpa using hlen }
  exact h.foldl R.routes (by rwa [length_nil, Nat.zero_add])

end Ovn.Routes

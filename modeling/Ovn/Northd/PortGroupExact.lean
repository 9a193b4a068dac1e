/-
  The records and the southbound port groups are those of a rebuild.

  The southbound rows of the switches that were updated are brought up to date by name.  They are
  exact afterwards as long as no group changes its name, the ports of other groups stay where they
  are, and switches keep their tunnel keys (`Input.Steady`).
-/
import Ovn.Northd.PortGroupRecords

namespace Ovn.PortGroups

open List

/-! ## Southbound rows -/

theorem append_cons_inj_of_notMem {α : Type*} {c : α} {m m' : List α} :
    ∀ {l l' : List α}, c ∉ l → c ∉ l' →
    l ++ c :: m = l' ++ c :: m' → l = l' ∧ m = m'
  | [], [], _, _, h => ⟨rfl, (cons.inj h).2⟩
  | [], _ :: _, _, hl', h => absurd ((cons.inj h).1 ▸ mem_cons_self) hl'
  | _ :: _, [], hl, _, h => absurd ((cons.inj h).1 ▸ mem_cons_self) hl
  | a :: l, b :: l', hl, hl', h => by
    obtain ⟨rfl, htail⟩ := cons.inj h
    obtain ⟨rfl, hm⟩ := append_cons_inj_of_notMem (fun hc => hl (mem_cons_of_mem a hc))
      (fun hc => hl' (mem_cons_of_mem a hc)) htail
    exact ⟨rfl, hm⟩

/-- The key ends where the name starts: a number has no underscore. -/
theorem sbPortGroupName_inj {n n' : String} {k k' : ℕ} :
    sbPortGroupName n k = sbPortGroupName n' k' ↔ n = n' ∧ k = k' := by
  constructor
  · intro h
    have hlist : Nat.toDigits 10 k ++ '_' :: n.toList = Nat.toDigits 10 k' ++ '_' :: n'.toList := by
      have := congrArg String.toList h
      simpa [sbPortGroupName] using this
    obtain ⟨hk, hn⟩ := append_cons_inj_of_notMem Nat.underscore_not_in_toDigits
      Nat.underscore_not_in_toDigits hlist
    have hdigits := congrArg (Nat.ofDigitChars 10 · 0) hk
    simp only [Nat.ofDigitChars_ten_toDigits] at hdigits
    exact ⟨String.toList_inj.1 hn, hdigits⟩
  · rintro ⟨rfl, rfl⟩
    rfl

def IsRow (nb : Nb) (t : LsPortGroupTable) (u : ℕ) (r : SbPortGroup) : Prop :=
  ∃ pg k, record t u pg = some r.values ∧ keyOf t u = some k ∧
    r.name = sbPortGroupName (nb.nameOf pg) k

section
variable {nb : Nb} {lsPorts : LsPorts} {t : LsPortGroupTable} {d : Data} {u v : ℕ}
    {r r' : SbPortGroup}
  {sb : List SbPortGroup} {updated : List ℕ}

theorem mem_rows {lsPg : LsPortGroup} (h : t.lookup u = some lsPg) :
    r ∈ lsPg.rows nb ↔ IsRow nb t u r := by
  simp only [IsRow, record, keyOf, h]
  constructor
  · intro hr
    obtain ⟨e, he, rfl⟩ := mem_map.1 hr
    exact ⟨e.1, lsPg.sbDatapathKey, mem_entries_iff.1 he, rfl, rfl⟩
  · rintro ⟨pg, k, hpg, hk, hname⟩
    obtain rfl := Option.some.inj hk
    refine mem_map.2 ⟨⟨pg, r.values⟩, mem_entries_iff.2 hpg, ?_⟩
    rw [← hname]

def rowsOf (nb : Nb) (t : LsPortGroupTable) : List SbPortGroup :=
  t.entries.flatMap fun e => e.2.rows nb

theorem mem_rowsOf : r ∈ rowsOf nb t ↔ ∃ u, IsRow nb t u r := by
  rw [rowsOf, mem_flatMap]
  constructor
  · rintro ⟨e, he, hr⟩
    exact ⟨e.1, (mem_rows (mem_entries_iff.1 he)).1 hr⟩
  · rintro ⟨u, hr⟩
    obtain ⟨pg, k, -, hk, -⟩ := id hr
    obtain ⟨lsPg, hl⟩ := keyOf_ne_none.1 (hk.trans_ne nofun)
    exact ⟨⟨u, lsPg⟩, mem_entries_iff.2 hl, (mem_rows hl).2 hr⟩

/-- **A sync leaves the rows of all switches**, and no others. -/
theorem lsPortGroupTableSync_eq (nb : Nb) (t : LsPortGroupTable) (sb : List SbPortGroup) :
    lsPortGroupTableSync nb t sb = rowsOf nb t := by
  have hcreate : ∀ r ∈ rowsOf nb t, (createSbPortGroup r.name).update r.values.sort = id r :=
    fun r _ => NamedSet.update_sort r.values _
  have hupdate : ∀ r ∈ rowsOf nb t, ∀ r' : SbPortGroup, r'.name = r.name →
      r'.update r.values.sort = id r := by
    intro r _ r' hr
    rw [NamedSet.update_sort, hr]
    rfl
  exact (Claims.rows_foldl NamedSet.name (rowsOf nb t) _ hcreate hupdate).trans
    ((nil_append _).trans (map_id _))

theorem rowOf_foldl_upsertRow {n : String} : ∀ (rs sb : List SbPortGroup),
    rowOf NamedSet.name
      (rs.foldl (fun sb r => upsertRow NamedSet.name r.name (createSbPortGroup r.name)
      (·.update r.values.sort) sb) sb) n = (rowOf NamedSet.name rs.reverse n).or
        (rowOf NamedSet.name sb n)
  | [], sb => rfl
  | r :: rs, sb => by
    have hset : ∀ r' : SbPortGroup, r'.name = r.name → r'.update r.values.sort = r :=
      fun r' hr' => by
      rw [NamedSet.update_sort, hr']
    have hself : ((rowOf NamedSet.name sb r.name).getD (createSbPortGroup r.name)).update
      r.values.sort = r := by
      refine hset _ ?_
      cases hr : rowOf NamedSet.name sb r.name with
      | none => rfl
      | some r' => exact (mem_of_rowOf hr).2
    have hup : rowOf NamedSet.name (upsertRow NamedSet.name r.name (createSbPortGroup r.name)
        (·.update r.values.sort) sb) n = _ := rowOf_upsertRow rfl fun _ => rfl
    rw [foldl_cons, rowOf_foldl_upsertRow rs, reverse_cons, rowOf_append, rowOf_singleton, hup,
      hself, Option.or_assoc]
    by_cases hn : n = r.name
    · rw [if_pos hn, if_pos hn.symm]
      rfl
    · rw [if_neg hn, if_neg (Ne.symm hn)]
      rfl

theorem nodup_updateSb (nb : Nb) (t : LsPortGroupTable) (updated : List ℕ)
    (h : (sb.map NamedSet.name).Nodup) : ((updateSb nb t updated sb).map NamedSet.name).Nodup := by
  refine foldlRecOn (motive := fun sb : List SbPortGroup => (sb.map NamedSet.name).Nodup) _ _ h
    fun sb hsb r _ => ?_
  exact nodup_upsertRow rfl (fun _ => rfl) hsb

theorem mem_names_updateSb {nb : Nb} {t : LsPortGroupTable} {n : String}
    (h : n ∈ sb.map NamedSet.name) :
    n ∈ (updateSb nb t updated sb).map NamedSet.name := by
  rw [← isSome_rowOf, updateSb, rowOf_foldl_upsertRow, Option.isSome_or, isSome_rowOf.2 h,
    Bool.or_true]

section
variable (h : Exact nb lsPorts nb.portGroups d)
include h

/-- What the name of a southbound row stands for, where the records are exact. -/
theorem Exact.name_inj {pg pg' k k' : ℕ} (hpg : record d.lsPortGroups u pg ≠ none)
    (hpg' : record d.lsPortGroups v pg' ≠ none) (hk : keyOf d.lsPortGroups u = some k)
    (hk' : keyOf d.lsPortGroups v = some k')
    (hname : sbPortGroupName (nb.nameOf pg) k = sbPortGroupName (nb.nameOf pg') k') :
    u = v ∧ pg = pg' := by
  obtain ⟨hpgs, rfl⟩ := sbPortGroupName_inj.1 hname
  refine ⟨(h.key u k hk).switch_unique (h.key v k hk'), ?_⟩
  have hrow : ∀ u pg, record d.lsPortGroups u pg ≠ none →
    ∃ g, rowOf PortGroup.uuid nb.portGroups pg = some g := by
    intro u pg hne
    rw [h.records] at hne
    refine Option.ne_none_iff_exists'.1 fun hn => hne ?_
    rw [hn]
    rfl
  obtain ⟨g, hg⟩ := hrow u pg hpg
  obtain ⟨g', hg'⟩ := hrow v pg' hpg'
  have hsame : g = g' := by
    refine inj_on_of_nodup_map nb.nodup_name (mem_of_rowOf hg).1 (mem_of_rowOf hg').1 ?_
    rwa [Nb.nameOf, hg, Nb.nameOf, hg'] at hpgs
  rw [← (mem_of_rowOf hg).2, ← (mem_of_rowOf hg').2, hsame]

theorem Exact.row_inj (hr : IsRow nb d.lsPortGroups u r) (hr' : IsRow nb d.lsPortGroups v r')
    (hname : r.name = r'.name) : u = v ∧ r = r' := by
  obtain ⟨pg, k, hpg, hk, hn⟩ := hr
  obtain ⟨pg', k', hpg', hk', hn'⟩ := hr'
  obtain ⟨rfl, rfl⟩ := h.name_inj (hpg.trans_ne nofun)
    (hpg'.trans_ne nofun) hk hk' (by rw [← hn, ← hn', hname])
  rcases r with ⟨n, ports⟩
  dsimp only at hname hpg hpg'
  rw [hname, Option.some.inj (hpg.symm.trans hpg')]
  exact ⟨rfl, rfl⟩

theorem Exact.nodup_rowsOf : ((rowsOf nb d.lsPortGroups).map NamedSet.name).Nodup := by
  rw [rowsOf, map_flatMap, nodup_flatMap]
  refine ⟨fun e he => ?_, Nodup.pairwise_of_forall_ne d.lsPortGroups.nodupKeys.nodup
    fun e he e' he' hne => ?_⟩
  · have hl := mem_entries_iff.1 he
    have hk : keyOf d.lsPortGroups e.1 = some e.2.sbDatapathKey := by
      rw [keyOf, hl]
      rfl
    have hrec : ∀ x ∈ e.2.nbPgs.entries, record d.lsPortGroups e.1 x.1 = some x.2 := fun x hx => by
      rw [record, hl]
      exact mem_entries_iff.1 hx
    rw [LsPortGroup.rows, map_map]
    refine Nodup.map_on (fun x hx y hy hxy => ?_) e.2.nbPgs.nodupKeys.nodup
    have hkey := (h.name_inj ((hrec x hx).trans_ne (Option.some_ne_none _))
      ((hrec y hy).trans_ne (Option.some_ne_none _)) hk hk hxy).2
    exact e.2.nbPgs.nodupKeys.eq_of_fst_eq hx hy hkey
  · intro n hn hn'
    obtain ⟨r, hr, rfl⟩ := mem_map.1 hn
    obtain ⟨r', hr', hname⟩ := mem_map.1 hn'
    have hu :=
      (h.row_inj ((mem_rows (mem_entries_iff.1 he)).1 hr) ((mem_rows (mem_entries_iff.1 he')).1 hr')
      hname.symm).1
    exact hne (d.lsPortGroups.nodupKeys.eq_of_fst_eq he he' hu)

end

end

/-! ## Runs -/

structure State.SbExact (s : State) : Prop where
  nodup : (s.sb.map NamedSet.name).Nodup
  mem : ∀ r, r ∈ s.sb ↔ ∃ u, IsRow s.nb s.data.lsPortGroups u r

/-- All is as a rebuild has it. -/
structure State.Exact (s : State) : Prop where
  data : PortGroups.Exact s.nb s.lsPorts s.nb.portGroups s.data
  sb : s.SbExact

/-- **A recompute makes all exact**, and no assertion fails. -/
theorem exact_enPortGroupRun (nb : Nb) (lsPorts : LsPorts) (sb : List SbPortGroup) :
    Ends (fun _ => False) State.Exact (enPortGroupRun nb lsPorts sb) := by
  refine Ends.bind (exact_lsPortGroupTableBuild nb lsPorts) fun d hd => ⟨hd, ?_, fun r => ?_⟩
  · rw [lsPortGroupTableSync_eq]
    exact hd.nodup_rowsOf
  · rw [lsPortGroupTableSync_eq, mem_rowsOf]

/-- What is tracked is how the port groups changed. -/
def Input.Valid (s : State) (inp : Input) : Prop :=
  Tracks PortGroup.uuid s.nb.portGroups inp.nb.portGroups inp.tracked

/-- A change that keeps the names of the port groups with ports on a switch, the ports on switches
    of the groups that are not tracked, and the tunnel keys of switches. -/
structure Input.Steady (s : State) (inp : Input) : Prop where
  names : ∀ g ∈ s.nb.portGroups, ∀ g' ∈ inp.nb.portGroups, g'.uuid = g.uuid →
    (∃ u, (portsAt s.nb s.lsPorts g u).Nonempty) → g'.name = g.name
  ports : ∀ g ∈ s.nb.portGroups, g.uuid ∉ inp.tracked.map (·.row.uuid) → ∀ u,
    portsAt inp.nb inp.lsPorts g u = portsAt s.nb s.lsPorts g u
  keys : ∀ u k k', s.lsPorts.HasKey u k → inp.lsPorts.HasKey u k' → k' = k

section
variable {s : State} {inp : Input} {d : Data} {updated : List ℕ}

theorem Input.Valid.row_mem (hv : inp.Valid s) (hchanged : ∀ t ∈ inp.tracked, t.isDeleted = false)
    {g : PortGroup} (hg : g ∈ inp.tracked.map (·.row)) :
    rowOf PortGroup.uuid inp.nb.portGroups g.uuid = some g := by
  obtain ⟨t, ht, rfl⟩ := mem_map.1 hg
  exact rowOf_of_mem inp.nb.nodup_uuid ((hv.each t ht).row (hchanged t ht))

theorem Input.Steady.untracked (hs : inp.Steady s) (hv : inp.Valid s) {pg : ℕ}
    (hpg : pg ∉ (inp.tracked.map (·.row)).map (·.uuid)) (u : ℕ) :
    ((rowOf PortGroup.uuid inp.nb.portGroups pg).bind
      fun g => shown (portsAt inp.nb inp.lsPorts g u))
      = (rowOf PortGroup.uuid s.nb.portGroups pg).bind
        fun g => shown (portsAt s.nb s.lsPorts g u) := by
  rw [map_map] at hpg
  rw [hv.rowOf_eq s.nb.nodup_uuid hpg]
  cases hr : rowOf PortGroup.uuid s.nb.portGroups pg with
  | none => rfl
  | some g =>
    obtain ⟨hg, rfl⟩ := mem_of_rowOf hr
    dsimp only [Option.bind_some]
    rw [hs.ports g hg hpg u]

/-- The records that are there before and after belong to groups of the same name. -/
theorem Input.Steady.nameOf_eq (hs : inp.Steady s) (h : s.Exact) {u pg : ℕ}
    (hold : record s.data.lsPortGroups u pg ≠ none)
    (hnew : (rowOf PortGroup.uuid inp.nb.portGroups pg).isSome) :
    inp.nb.nameOf pg = s.nb.nameOf pg := by
  rw [h.data.records] at hold
  obtain ⟨ports, hports⟩ := Option.ne_none_iff_exists'.1 hold
  obtain ⟨g, hg, hshown⟩ := Option.bind_eq_some_iff.1 hports
  obtain ⟨g', hg'⟩ := Option.isSome_iff_exists.1 hnew
  have hname := hs.names g (mem_of_rowOf hg).1 g' (mem_of_rowOf hg').1
    ((mem_of_rowOf hg').2.trans (mem_of_rowOf hg).2.symm)
    ⟨u, nonempty_of_shown hshown⟩
  rw [Nb.nameOf, Nb.nameOf, hg, hg']
  exact hname

/-- What the update of the southbound rows rests on: the same records are there before and after,
    under the same names, and those of switches that were not updated have the same ports. -/
structure Renewed (nb nb' : Nb) (t t' : LsPortGroupTable) (updated : List ℕ) : Prop where
  same : ∀ u pg, record t' u pg ≠ none ↔ record t u pg ≠ none
  name : ∀ u pg, record t' u pg ≠ none → nb'.nameOf pg = nb.nameOf pg
  key : ∀ u, keyOf t' u = keyOf t u
  kept : ∀ u, u ∉ updated → ∀ pg, record t' u pg = record t u pg

section
variable (h : s.Exact) (hv : inp.Valid s) (hs : inp.Steady s)
  (hchanged : OnlyUpdates inp.tracked)
  (hr : Refilled inp.nb inp.lsPorts (inp.tracked.map (·.row)) s.data d [] updated)
include h hv hs hchanged hr

/-- **The records are exact after the tracked groups are refilled.** -/
theorem State.Exact.data_refilled :
    PortGroups.Exact inp.nb inp.lsPorts inp.nb.portGroups d := by
  have hrow := fun g hg => hv.row_mem (fun t ht => (hchanged t ht).2) (g := g) hg
  have hrecords : ∀ u pg,
    record d.lsPortGroups u pg = (rowOf PortGroup.uuid inp.nb.portGroups pg).bind
      fun g => shown (portsAt inp.nb inp.lsPorts g u) := by
    intro u pg
    by_cases hpg : pg ∈ (inp.tracked.map (·.row)).map (·.uuid)
    · obtain ⟨g, hg, rfl⟩ := mem_map.1 hpg
      rw [hr.self g hg u, hrow g hg]
      rfl
    · rw [hr.other pg hpg u, h.data.records, hs.untracked hv hpg]
  refine ⟨hrecords, hr.linked.inhabited, fun u k hk => ?_, fun pg => ?_,
    fun u pg => (hr.linked.linked u pg).symm⟩
  · -- a switch has a record, and with it a port that knows the key
    obtain ⟨pg, hpg⟩ := hr.linked.inhabited u (hk.trans_ne nofun)
    rw [hrecords] at hpg
    obtain ⟨ports, hports⟩ := Option.ne_none_iff_exists'.1 hpg
    obtain ⟨g, -, hshown⟩ := Option.bind_eq_some_iff.1 hports
    obtain ⟨k', hk'⟩ := exists_hasKey (nonempty_of_shown hshown)
    rw [hr.key] at hk
    rwa [hs.keys u k k' (h.data.key u k hk) hk'] at hk'
  · by_cases hpg : pg ∈ (inp.tracked.map (·.row)).map (·.uuid)
    · obtain ⟨g, hg, rfl⟩ := mem_map.1 hpg
      rw [hrow g hg]
      exact iff_of_true (Option.isSome_iff_ne_none.2 (hr.lsesSelf g hg)) rfl
    · rw [hr.lses pg hpg, h.data.lses]
      rw [map_map] at hpg
      rw [hv.rowOf_eq s.nb.nodup_uuid hpg]

theorem State.Exact.renewed :
    Renewed s.nb inp.nb s.data.lsPortGroups d.lsPortGroups updated := by
  have hsame : ∀ u pg, record d.lsPortGroups u pg ≠ none ↔
    record s.data.lsPortGroups u pg ≠ none := by
    intro u pg
    by_cases hpg : pg ∈ (inp.tracked.map (·.row)).map (·.uuid)
    · obtain ⟨g, hg, rfl⟩ := mem_map.1 hpg
      rw [hr.self g hg u, shown_ne_none, hr.same g hg u]
    · rw [hr.other pg hpg u]
  refine ⟨hsame, fun u pg hpg => hs.nameOf_eq h ((hsame u pg).1 hpg) ?_, hr.key, fun u hu pg => ?_⟩
  · rw [(h.data_refilled hv hs hchanged hr).records] at hpg
    exact Option.isSome_iff_ne_none.2 fun hn => hpg (by rw [hn]; rfl)
  · by_cases hpg : pg ∈ (inp.tracked.map (·.row)).map (·.uuid)
    · obtain ⟨g, hg, rfl⟩ := mem_map.1 hpg
      have hno : ¬ (portsAt inp.nb inp.lsPorts g u).Nonempty := fun hn =>
        hu ((hr.updated u).2 (.inr ⟨g, hg, hn⟩))
      rw [hr.self g hg u, shown, if_neg hno]
      exact (not_not.1 fun hc => hno ((hr.same g hg u).1 hc)).symm
    · exact hr.other pg hpg u

end

end

namespace Renewed

variable {nb nb' : Nb} {t t' : LsPortGroupTable} {updated : List ℕ} {u : ℕ} {r : SbPortGroup}

theorem isRow_iff (h : Renewed nb nb' t t' updated) (hu : u ∉ updated) :
    IsRow nb' t' u r ↔ IsRow nb t u r := by
  refine exists_congr fun pg => exists_congr fun k => ?_
  rw [h.kept u hu, h.key]
  refine and_congr_right fun hrec => and_congr_right fun _ => ?_
  rw [h.name u pg (by rw [h.kept u hu, hrec]; exact Option.some_ne_none _)]

theorem exists_isRow (h : Renewed nb nb' t t' updated) (hr : IsRow nb t u r) :
    ∃ r', IsRow nb' t' u r' ∧ r'.name = r.name := by
  obtain ⟨pg, k, hpg, hk, hname⟩ := hr
  have hne := (h.same u pg).2 (hpg.trans_ne nofun)
  obtain ⟨ports, hports⟩ := Option.ne_none_iff_exists'.1 hne
  refine ⟨⟨r.name, ports⟩, ⟨pg, k, hports, (h.key u).trans hk, ?_⟩, rfl⟩
  rw [h.name u pg hne]
  exact hname

end Renewed

section
variable {s : State} {inp : Input} {d : Data} {updated : List ℕ}

theorem mem_updatedRows {nb : Nb} {t : LsPortGroupTable} {r : SbPortGroup} :
    r ∈ (updated.flatMap fun nbs => ((t.lookup nbs).map (·.rows nb)).getD []).reverse ↔
      ∃ u ∈ updated, IsRow nb t u r := by
  rw [mem_reverse, mem_flatMap]
  refine exists_congr fun u => and_congr_right fun _ => ?_
  cases hl : t.lookup u with
  | none =>
    refine iff_of_false not_mem_nil ?_
    rintro ⟨pg, k, -, hk, -⟩
    rw [keyOf, hl] at hk
    cases hk
  | some lsPg => exact mem_rows hl

/-- **The southbound rows are exact after the update.** -/
theorem State.SbExact.updateSb (h : s.SbExact)
    (hdata : PortGroups.Exact inp.nb inp.lsPorts inp.nb.portGroups d)
    (hr : Renewed s.nb inp.nb s.data.lsPortGroups d.lsPortGroups updated) :
    State.SbExact ⟨inp.nb, inp.lsPorts, d, PortGroups.updateSb inp.nb d.lsPortGroups updated
      s.sb⟩ := by
  have hnodup := nodup_updateSb inp.nb d.lsPortGroups updated h.nodup
  refine ⟨hnodup, fun r => ?_⟩
  rw [← rowOf_self_iff hnodup, PortGroups.updateSb, rowOf_foldl_upsertRow]
  cases hrow : rowOf NamedSet.name (updated.flatMap fun nbs =>
      ((d.lsPortGroups.lookup nbs).map (·.rows inp.nb)).getD []).reverse r.name with
  | some r₁ =>
    -- the name was updated, and stands for one record
    obtain ⟨hin, hname⟩ := mem_of_rowOf hrow
    obtain ⟨v, -, hv⟩ := mem_updatedRows.1 hin
    constructor
    · intro heq
      obtain rfl := Option.some.inj heq
      exact ⟨v, hv⟩
    · rintro ⟨u, hu⟩
      exact congrArg some (hdata.row_inj hv hu hname).2
  | none =>
    have hno : ∀ u ∈ updated, ∀ r', IsRow inp.nb d.lsPortGroups u r' → r'.name ≠ r.name :=
      fun u hu r' hr' hname => rowOf_eq_none.1 hrow
        (hname ▸ mem_map_of_mem (mem_updatedRows.2 ⟨u, hu, hr'⟩))
    rw [Option.none_or, rowOf_self_iff h.nodup, h.mem]
    constructor
    · rintro ⟨u, hu⟩
      have hnot : u ∉ updated := fun hin => by
        obtain ⟨r', hr', hname⟩ := hr.exists_isRow hu
        exact hno u hin r' hr' hname
      exact ⟨u, (hr.isRow_iff hnot).2 hu⟩
    · rintro ⟨u, hu⟩
      have hnot : u ∉ updated := fun hin => hno u hin r hu rfl
      exact ⟨u, (hr.isRow_iff hnot).1 hu⟩

/-- **The handler keeps all exact**, if the change is steady; no assertion fails. -/
theorem exact_nbPortGroupHandler (h : s.data.Linked) (hv : inp.Valid s) : Ends (fun _ => False)
    (fun r => ∀ s', r = some s' → s'.data.Linked ∧ (s.Exact → inp.Steady s → s'.Exact))
    (nbPortGroupHandler inp s) := by
  unfold nbPortGroupHandler
  split
  · exact fun _ hc => absurd hc nofun
  next hany =>
    have hchanged := onlyUpdates_of_not_any hany
    refine Ends.bind (refilled_processTracked _ s.data [] h ?_) fun r hr => ?_
    · rw [map_map]
      exact hv.nodup
    obtain ⟨d, success, updated⟩ := r
    cases success with
    | false => exact fun _ hc => absurd hc nofun
    | true =>
      have hr := hr rfl
      rintro s' hs'
      obtain rfl := Option.some.inj hs'
      refine ⟨hr.linked, fun hexact hsteady => ?_⟩
      have hdata := hexact.data_refilled hv hsteady hchanged hr
      exact ⟨hdata, hexact.sb.updateSb hdata (hexact.renewed hv hsteady hchanged hr)⟩

end

/-- What the engine gives: what is tracked is what changed. -/
def Action.Valid (s : State) : Action → Prop
  | .recompute .. => True
  | .change inp => inp.Valid s

def Action.Steady (s : State) : Action → Prop
  | .recompute .. => True
  | .change inp => inp.Steady s

theorem ends_step {s : State} (h : s.data.Linked) {a : Action} (ha : a.Valid s) :
    Ends (fun _ => False)
    (fun s' => s'.data.Linked ∧ (s.Exact → a.Steady s → s'.Exact)) (step s a) := by
  have hrun : ∀ nb lsPorts sb, Ends (fun _ => False)
      (fun s' => s'.data.Linked ∧ (s.Exact → a.Steady s → s'.Exact))
      (enPortGroupRun nb lsPorts sb) :=
    fun nb lsPorts sb => (exact_enPortGroupRun nb lsPorts sb).mono fun s' hs' =>
      ⟨hs'.data.linked, fun _ _ => hs'⟩
  cases a with
  | recompute nb lsPorts sb => exact hrun nb lsPorts sb
  | change inp =>
    refine Ends.bind (exact_nbPortGroupHandler h ha) fun r hr => ?_
    cases r with
    | none => exact hrun _ _ _
    | some s' => exact hr s' rfl

theorem linked_of_reached {s : State} (h : portGroups.Reached Action.Valid s) : s.data.Linked := by
  refine h.invariant (I := fun s => s.data.Linked) (Exact.empty .empty .empty).linked ?_
  intro s a s' hs ha hnext
  exact ((ends_step hs ha).of_toOption hnext).1

theorem exact_of_reached {s : State}
    (h : portGroups.Reached (fun s a => a.Valid s ∧ a.Steady s) s) :
    s.Exact := by
  have hinit : portGroups.init.Exact := by
    refine ⟨Exact.empty .empty .empty, nodup_nil, fun r => iff_of_false not_mem_nil ?_⟩
    rintro ⟨u, pg, k, -, hk, -⟩
    cases hk
  refine h.invariant hinit ?_
  · rintro s a s' hs ⟨hv, hsteady⟩ hnext
    exact ((ends_step hs.data.linked hv).of_toOption hnext).2 hs hsteady

/-- **Port groups.** No assertion fails, whatever changes; and while changes are steady, the records
    and the southbound rows are those of a rebuild from the current port groups. -/
theorem port_groups_exact {s : State} :
    (portGroups.Reached Action.Valid s → ∀ a : Action, a.Valid s → (portGroups.next s a).isSome) ∧
    (portGroups.Reached (fun s a => a.Valid s ∧ a.Steady s) s → ∃ d,
      lsPortGroupTableBuild s.nb s.lsPorts = .ok d ∧ s.data.Same d ∧
        s.sb.Perm (lsPortGroupTableSync s.nb d.lsPortGroups s.sb)) := by
  refine ⟨fun h a ha => ?_, fun h => ?_⟩
  · obtain ⟨s', hs', -⟩ := (ends_step (linked_of_reached h) ha).exists_ok
    show ((step s a).toOption).isSome
    rw [hs']
    rfl
  · have hexact := exact_of_reached h
    obtain ⟨d, hd, hbuild⟩ := (exact_lsPortGroupTableBuild s.nb s.lsPorts).exists_ok
    have hsame := hexact.data.same hbuild
    refine ⟨d, hd, hsame, ?_⟩
    rw [lsPortGroupTableSync_eq, perm_ext_iff_of_nodup (Nodup.of_map _ hexact.sb.nodup)
      (Nodup.of_map _ hbuild.nodup_rowsOf)]
    intro r
    rw [hexact.sb.mem, mem_rowsOf]
    have hrec : ∀ u pg, record s.data.lsPortGroups u pg = record d.lsPortGroups u pg := fun u pg =>
      (hexact.data.records u pg).trans (hbuild.records u pg).symm
    refine exists_congr fun u => exists_congr fun pg => exists_congr fun k => ?_
    have hkey : keyOf s.data.lsPortGroups u = keyOf d.lsPortGroups u := by
      have := congrArg (Option.map Prod.fst) (hsame.lsPortGroups u)
      rwa [Option.map_map, Option.map_map] at this
    rw [hrec, hkey]

/-! A group with ports that are all on one switch. -/

private def oneGroup (name : String) (ports : List ℕ) : Nb where
  portGroups := [⟨1, name, ports⟩]
  lspName i := toString i
  nodup_uuid := nodup_singleton _
  nodup_name := nodup_singleton _

private def oneSwitch : LsPorts where
  find _ := some ⟨some 5, 1⟩
  key_unique := by
    rintro p q d e u v hd he hu hv
    obtain rfl := Option.some.inj hd
    obtain rfl := Option.some.inj he
    exact iff_of_true rfl (Option.some.inj (hu.symm.trans hv))

private def change (name : String) (ports : List ℕ) : Input where
  nb := oneGroup name ports
  lsPorts := oneSwitch
  tracked := [⟨⟨1, name, ports⟩, false, false⟩]

private theorem change_valid (s : State) {name name' : String} {ports ports' : List ℕ}
    (h : s.nb = oneGroup name ports) : (change name' ports').Valid s := by
  rw [Input.Valid, h]
  exact Tracks.replaced rfl

private theorem change_steady (s : State) {name : String} {ports ports' : List ℕ}
    (h : s.nb = oneGroup name ports) (hs : s.lsPorts = oneSwitch) :
    (change name ports').Steady s where
  names g hg g' hg' _ _ := by
    rw [h] at hg
    rw [mem_singleton.1 hg, mem_singleton.1 hg']
  ports g hg hno := by
    rw [h] at hg
    exact absurd (mem_singleton.2 (congrArg PortGroup.uuid (mem_singleton.1 hg))) hno
  keys u k k' hk hk' := by
    rw [hs] at hk
    exact hk'.unique hk

theorem port_groups_exact_two : ∃ s : State, s.nb.portGroups = [⟨1, "web", [10, 11]⟩] ∧
    (∀ a : Action, a.Valid s → (portGroups.next s a).isSome) ∧ ∃ d,
      lsPortGroupTableBuild s.nb s.lsPorts = .ok d ∧ s.data.Same d ∧
        s.sb.Perm (lsPortGroupTableSync s.nb d.lsPortGroups s.sb) := by
  have hrun : ∀ {P : State → Action → Prop}, (∀ nb lsPorts sb s, P s (.recompute nb lsPorts sb)) →
      (∀ s, s.nb = oneGroup "web" [10] → s.lsPorts = oneSwitch →
        P s (.change (change "web" [10, 11]))) →
      portGroups.Reached P _ := fun h1 h2 =>
    (System.Reached.init.step (a := Action.recompute (oneGroup "web" [10]) oneSwitch []) (h1 ..)
      rfl).step
      (h2 _ rfl rfl) rfl
  refine ⟨_, rfl, port_groups_exact.1 (hrun (fun _ _ _ _ => trivial) fun s h _ => change_valid s h),
    port_groups_exact.2 (hrun (fun _ _ _ _ => ⟨trivial, trivial⟩) fun s h hs =>
      ⟨change_valid s h, change_steady s h hs⟩)⟩

/-- A group is renamed: the southbound port group of the old name stays. -/
theorem not_port_groups_exact : ∃ s : State, portGroups.Reached Action.Valid s ∧ ¬ ∃ d,
    lsPortGroupTableBuild s.nb s.lsPorts = .ok d ∧ s.data.Same d ∧
      s.sb.Perm (lsPortGroupTableSync s.nb d.lsPortGroups s.sb) := by
  have hrun := (System.Reached.init.step (S := portGroups) (P := Action.Valid)
    (a := Action.recompute (oneGroup "web" [10]) oneSwitch []) trivial rfl).step
      (a := Action.change (change "www" [10])) (change_valid _ rfl) rfl
  refine ⟨_, hrun, ?_⟩
  rintro ⟨d, -, -, hperm⟩
  have hold := (hperm.map NamedSet.name).mem_iff.1 (mem_names_updateSb (by
    exact mem_cons_self))
  obtain ⟨r, hr, hname⟩ := mem_map.1 hold
  rw [lsPortGroupTableSync_eq] at hr
  obtain ⟨u, pg, k, -, -, hn⟩ := mem_rowsOf.1 hr
  have hweb := (sbPortGroupName_inj.1 (hname.symm.trans hn)).1
  change "web" = ((rowOf PortGroup.uuid [⟨1, "www", [10]⟩] pg).map (·.name)).getD "" at hweb
  rw [rowOf_singleton] at hweb
  split at hweb <;> exact absurd hweb (by decide)

end Ovn.PortGroups

/-
  The records of port groups are those of a rebuild.

  What the tables say is `record`, the ports of a group on a switch.  The loop over the ports of a
  group adds them to its records (`Added`), and a group that is processed without creating or
  destroying a record has its records refilled and everything else left alone (`Refilled`).
-/
import Ovn.Northd.PortGroup

namespace Ovn.PortGroups

open Option (some_ne_none)
open List

/-! ## What the tables say -/

/-- The ports of a group on a switch, if there is a record. -/
def record (t : LsPortGroupTable) (u pg : ℕ) : Option (Finset String) :=
  (t.lookup u).bind (·.nbPgs.lookup pg)

def keyOf (t : LsPortGroupTable) (u : ℕ) : Option ℕ := (t.lookup u).map (·.sbDatapathKey)

def Data.switchesOf (d : Data) (pg : ℕ) : List ℕ := (d.portGroupsLses.lookup pg).getD []

def setRecord (t : LsPortGroupTable) (u key pg : ℕ) (ports : Finset String) : LsPortGroupTable :=
  t.insert u { (t.lookup u).getD ⟨key, ∅⟩ with
    nbPgs := ((t.lookup u).getD ⟨key, ∅⟩).nbPgs.insert pg ports }

section
variable {t : LsPortGroupTable} {u v key pg h : ℕ} {ports : Finset String}

theorem lookup_nbPgs_getD : ((t.lookup u).getD ⟨key, ∅⟩).nbPgs.lookup h = record t u h := by
  unfold record
  cases t.lookup u with
  | none => exact AList.lookup_empty h
  | some lsPg => rfl

theorem record_setRecord : record (setRecord t u key pg ports) v h =
    if v = u ∧ h = pg then some ports else record t v h := by
  rw [record, setRecord, lookup_insert_eq]
  by_cases hv : v = u
  · subst hv
    rw [if_pos rfl]
    dsimp only [Option.bind_some]
    rw [lookup_insert_eq, lookup_nbPgs_getD]
    simp
  · rw [if_neg hv, if_neg fun hc => hv hc.1]
    rfl

theorem keyOf_setRecord : keyOf (setRecord t u key pg ports) v =
    if v = u then some ((keyOf t u).getD key) else keyOf t v := by
  rw [keyOf, setRecord, lookup_insert_eq]
  by_cases hv : v = u
  · rw [if_pos hv, if_pos hv, keyOf]
    cases t.lookup u <;> rfl
  · rw [if_neg hv, if_neg hv]
    rfl

theorem keyOf_ne_none : keyOf t u ≠ none ↔ ∃ lsPg, t.lookup u = some lsPg := by
  rw [keyOf, ne_eq, Option.map_eq_none_iff]
  exact Option.ne_none_iff_exists'

theorem keyOf_of_record (hr : record t u pg ≠ none) : keyOf t u ≠ none := by
  rw [keyOf_ne_none, ← Option.ne_none_iff_exists']
  intro hn
  exact hr (by rw [record, hn]; rfl)

end

/-! ## Ports of a switch -/

def LsPorts.switchOf (lsPorts : LsPorts) (port : String) : Option ℕ :=
  (lsPorts.find port).bind (·.nbs)

def LsPorts.HasKey (lsPorts : LsPorts) (u k : ℕ) : Prop :=
  ∃ port od, lsPorts.find port = some od ∧ od.nbs = some u ∧ od.tunnelKey = k

def LsPorts.portsOn (lsPorts : LsPorts) (ports : List String) (u : ℕ) : Finset String :=
  (ports.filter fun p => lsPorts.switchOf p = some u).toFinset

section
variable {lsPorts : LsPorts} {ports : List String} {port : String} {u v k k' : ℕ}

theorem mem_portsOn : port ∈ lsPorts.portsOn ports u ↔ port ∈ ports ∧
    lsPorts.switchOf port = some u := by
  rw [LsPorts.portsOn, mem_toFinset, mem_filter, decide_eq_true_iff]

theorem portsOn_snoc : lsPorts.portsOn (ports ++ [port]) u =
    if lsPorts.switchOf port = some u then insert port (lsPorts.portsOn ports u)
    else lsPorts.portsOn ports u := by
  ext q
  rw [mem_portsOn, mem_append, mem_singleton]
  split
  next hu =>
    rw [Finset.mem_insert, mem_portsOn]
    by_cases hq : q = port <;> simp [hq, hu]
  next hu =>
    rw [mem_portsOn]
    by_cases hq : q = port <;> simp [hq, hu]

theorem LsPorts.HasKey.unique (h : lsPorts.HasKey u k) (h' : lsPorts.HasKey u k') : k = k' := by
  obtain ⟨p, d, hp, hd, rfl⟩ := h
  obtain ⟨q, e, hq, he, rfl⟩ := h'
  exact (lsPorts.key_unique p q d e u u hp hq hd he).2 rfl

theorem LsPorts.HasKey.switch_unique (h : lsPorts.HasKey u k) (h' : lsPorts.HasKey v k) :
    u = v := by
  obtain ⟨p, d, hp, hd, rfl⟩ := h
  obtain ⟨q, e, hq, he, hk⟩ := h'
  exact (lsPorts.key_unique p q d e u v hp hq hd he).1 hk.symm

theorem exists_hasKey (h : (lsPorts.portsOn ports u).Nonempty) : ∃ k, lsPorts.HasKey u k := by
  obtain ⟨p, hp⟩ := h
  obtain ⟨od, hod, hu⟩ := Option.bind_eq_some_iff.1 (mem_portsOn.1 hp).2
  exact ⟨od.tunnelKey, p, od, hod, hu, rfl⟩

end

/-! ## Adding the ports of a group -/

/-- The loop of `ls_port_group_process` has added the ports that are done. -/
structure Added (lsPorts : LsPorts) (pg : ℕ) (st₀ : Processing) (done : List String)
    (st : Processing) :
    Prop where
  records : ∀ u h, record st.table u h = if h = pg ∧ (lsPorts.portsOn done u).Nonempty then
    some ((record st₀.table u pg).getD ∅ ∪ lsPorts.portsOn done u) else record st₀.table u h
  key : ∀ u, keyOf st.table u = keyOf st₀.table u ∨
    keyOf st₀.table u = none ∧ ∃ k, keyOf st.table u = some k ∧ lsPorts.HasKey u k
  inhabited : ∀ u, keyOf st.table u ≠ none → keyOf st₀.table u ≠ none ∨
    (lsPorts.portsOn done u).Nonempty
  switches : ∀ u, u ∈ st.switches ↔ u ∈ st₀.switches ∨ (lsPorts.portsOn done u).Nonempty
  created : st.created = true ↔ st₀.created = true ∨
    ∃ u, (lsPorts.portsOn done u).Nonempty ∧ record st₀.table u pg = none
  updated : ∀ u, u ∈ st.updated ↔ u ∈ st₀.updated ∨ (lsPorts.portsOn done u).Nonempty

section
variable {lsPorts : LsPorts} {pg : ℕ} {st₀ st : Processing} {done : List String} {port : String}

theorem Added.start (lsPorts : LsPorts) (pg : ℕ) (st₀ : Processing) :
    Added lsPorts pg st₀ [] st₀ := by
  have hnone : ∀ u, ¬ (lsPorts.portsOn [] u).Nonempty := fun u => by
    exact Finset.not_nonempty_empty
  refine ⟨fun u h => ?_, fun u => .inl rfl, fun u hu => .inl hu, fun u => ?_, ?_, fun u => ?_⟩
  · rw [if_neg fun hc => hnone u hc.2]
  · simp only [hnone, or_false]
  · simp only [hnone, false_and, exists_false, or_false]
  · simp only [hnone, or_false]

theorem addPort_of_switchOf_none (h : lsPorts.switchOf port = none) :
    st.addPort lsPorts pg port = st := by
  unfold Processing.addPort
  rw [LsPorts.switchOf] at h
  cases hf : lsPorts.find port with
  | none => rfl
  | some od => simp_all

theorem addPort_of_switchOf (st : Processing) (pg : ℕ) {nbs : ℕ}
    (h : lsPorts.switchOf port = some nbs) : ∃ key,
    lsPorts.HasKey nbs key ∧ st.addPort lsPorts pg port =
      { table := setRecord st.table nbs key pg (insert port ((record st.table nbs pg).getD ∅))
        switches := st.switches.insert nbs
        created := st.created || (record st.table nbs pg).isNone
        updated := st.updated.insert nbs } := by
  obtain ⟨od, hod, hnbs⟩ := Option.bind_eq_some_iff.1 h
  refine ⟨od.tunnelKey, ⟨port, od, hod, hnbs, rfl⟩, ?_⟩
  unfold Processing.addPort
  rw [hod]
  dsimp only
  rw [hnbs]
  dsimp only
  rw [lookup_nbPgs_getD]
  rfl

theorem Added.addPort (h : Added lsPorts pg st₀ done st) :
    Added lsPorts pg st₀ (done ++ [port]) (st.addPort lsPorts pg port) := by
  cases hs : lsPorts.switchOf port with
  | none =>
    have hsame : lsPorts.portsOn (done ++ [port]) = lsPorts.portsOn done := funext fun u => by
      rw [portsOn_snoc, if_neg (by rw [hs]; exact nofun)]
    rw [addPort_of_switchOf_none hs]
    obtain ⟨hr, hk, hi, hsw, hc, hu⟩ := h
    rw [← hsame] at hr hi hsw hc hu
    exact ⟨hr, hk, hi, hsw, hc, hu⟩
  | some nbs =>
    obtain ⟨key, hkey, hadd⟩ := addPort_of_switchOf st pg hs
    rw [hadd]
    have hself : lsPorts.portsOn (done ++ [port]) nbs = insert port (lsPorts.portsOn done nbs) := by
      rw [portsOn_snoc, if_pos hs]
    have hother : ∀ u, u ≠ nbs → lsPorts.portsOn (done ++ [port]) u = lsPorts.portsOn done u := by
      intro u hu
      rw [portsOn_snoc, if_neg (by rw [hs]; exact fun hc => hu (Option.some.inj hc).symm)]
    have hnonempty : ∀ u, (lsPorts.portsOn (done ++ [port]) u).Nonempty ↔
        u = nbs ∨ (lsPorts.portsOn done u).Nonempty := by
      intro u
      by_cases hu : u = nbs
      · simp_all
      · rw [hother u hu, or_iff_right hu]
    have hrec := h.records nbs pg
    refine ⟨fun u k => ?_, fun u => ?_, fun u => ?_, fun u => ?_, ?_, fun u => ?_⟩
    · rw [record_setRecord]
      by_cases hu : u = nbs
      · subst hu
        by_cases hk : k = pg
        · subst hk
          rw [if_pos ⟨rfl, rfl⟩, if_pos ⟨rfl, (hnonempty u).2 (.inl rfl)⟩, hself, hrec,
            Finset.union_insert]
          split
          · rfl
          next hempty => simp_all
        · rw [if_neg fun hc => hk hc.2, if_neg fun hc => hk hc.1, h.records, if_neg
            fun hc => hk hc.1]
      · rw [if_neg fun hc => hu hc.1, hother u hu, h.records]
    · rw [keyOf_setRecord]
      split
      next hu =>
        subst hu
        rcases h.key u with hk | ⟨hn, k, hk, hhas⟩
        · rw [hk]
          cases h0 : keyOf st₀.table u with
          | none => exact .inr ⟨rfl, key, rfl, hkey⟩
          | some k => exact .inl rfl
        · rw [hk]
          exact .inr ⟨hn, k, rfl, hhas⟩
      next hu => exact h.key u
    · rw [keyOf_setRecord, hnonempty]
      intro hk
      by_cases hu : u = nbs
      · exact .inr (.inl hu)
      · rw [if_neg hu] at hk
        exact (h.inhabited u hk).imp_right .inr
    · rw [mem_insert_iff, h.switches, hnonempty]
      tauto
    · simp only [hnonempty, Bool.or_eq_true, h.created, Option.isNone_iff_eq_none]
      constructor
      · rintro ((hc | ⟨u, hu, hn⟩) | hn)
        · exact .inl hc
        · exact .inr ⟨u, .inr hu, hn⟩
        · refine .inr ⟨nbs, .inl rfl, ?_⟩
          rw [hrec] at hn
          split at hn
          · cases hn
          · exact hn
      · rintro (hc | ⟨u, rfl | hu, hn⟩)
        · exact .inl (.inl hc)
        · by_cases hd : (lsPorts.portsOn done u).Nonempty
          · exact .inl (.inr ⟨u, hd, hn⟩)
          · exact .inr (by rw [hrec, if_neg fun hc => hd hc.2, hn])
        · exact .inl (.inr ⟨u, hu, hn⟩)
    · rw [mem_insert_iff, h.updated, hnonempty]
      tauto

theorem added (lsPorts : LsPorts) (pg : ℕ) (st₀ : Processing) (ports : List String) :
    Added lsPorts pg st₀ ports (ports.foldl (Processing.addPort lsPorts pg) st₀) :=
  foldl_split (fun _ _ _ _ _ h => h.addPort) (.start lsPorts pg st₀)

end

/-! ## Clearing and pruning -/

/-- The records of the group on the switches that are done are empty. -/
structure Cleared (pg : ℕ) (t : LsPortGroupTable) (done : List ℕ) (t' : LsPortGroupTable) :
    Prop where
  records : ∀ v k, record t' v k = if k = pg ∧ v ∈ done then some ∅ else record t v k
  key : ∀ v, keyOf t' v = keyOf t v

section
variable {t : LsPortGroupTable} {pg : ℕ} {l : List ℕ}

theorem ends_recordClear (h : ∀ v ∈ l, record t v pg ≠ none) :
    Ends (fun _ => False) (Cleared pg t l) (recordClear pg l t) := by
  refine Ends.foldlM_done (R := Cleared pg t) ?_ ?_
  · rintro done u t' hpre ⟨hrec, hkey⟩
    have hsome : record t' u pg ≠ none := by
      rw [hrec]
      split
      · exact some_ne_none _
      · exact h u (hpre.subset mem_concat_self)
    obtain ⟨lsPg, hlookup⟩ := keyOf_ne_none.1 (keyOf_of_record hsome)
    have hset :
      setRecord t' u 0 pg ∅ = t'.insert u { lsPg with nbPgs := lsPg.nbPgs.insert pg ∅ } := by
      rw [setRecord, hlookup]
      rfl
    rw [hlookup]
    dsimp only
    cases hr : lsPg.nbPgs.lookup pg with
    | none => exact absurd (by rw [record, hlookup]; exact hr) hsome
    | some ports =>
      rw [← hset]
      refine ⟨fun v k => ?_, fun v => ?_⟩
      · simp only [record_setRecord, hrec, mem_append, mem_singleton]
        split_ifs <;> tauto
      · rw [keyOf_setRecord]
        split
        next hv =>
          rw [hv, ← hkey, keyOf, hlookup]
          rfl
        next => exact hkey v
  · exact ⟨fun v k => by rw [if_neg fun hc => absurd hc.2 not_mem_nil], fun v => rfl⟩

theorem recordPrune_true (s : LsPortGroupTable × Bool) (u : ℕ) (h : (recordPrune s u).2 = false) :
    s.2 = false := by
  unfold recordPrune at h
  split at h
  · exact h
  · dsimp only at h
    split at h <;> exact (Bool.or_eq_false_iff.1 h).1

theorem foldl_recordPrune_true : ∀ (l : List ℕ) (s : LsPortGroupTable × Bool),
    (l.foldl recordPrune s).2 = false → s.2 = false
  | [], _, h => h
  | u :: l, s, h => recordPrune_true s u (foldl_recordPrune_true l _ h)

/-- Where nothing is destroyed no record was empty, and the table is as before. -/
theorem recordPrune_kept {u : ℕ} (hin : ∀ v, keyOf t v ≠ none → ∃ k, record t v k ≠ none)
    (h : (recordPrune (t, false) u).2 = false) :
    (∀ v, (recordPrune (t, false) u).1.lookup v = t.lookup v) ∧ ∀ k, record t u k ≠ some ∅ := by
  unfold recordPrune at h ⊢
  cases hl : t.lookup u with
  | none => simp [record, hl]
  | some lsPg =>
    rw [hl] at h
    dsimp only at h ⊢
    have hany : ∀ r ∈ lsPg.nbPgs.entries, r.2 ≠ ∅ := by
      intro r hr he
      have : (false || lsPg.nbPgs.entries.any fun r => decide (r.2 = ∅)) = true := by
        rw [Bool.false_or, any_eq_true]
        exact ⟨r, hr, by rw [he]; rfl⟩
      split at h <;> exact absurd (this.symm.trans h) (by decide)
    have hkept : filterValues (fun ports => decide (ports ≠ ∅)) lsPg.nbPgs = lsPg.nbPgs :=
      filterValues_eq_self fun r hr => decide_eq_true (hany r hr)
    have hne : lsPg.nbPgs.entries ≠ [] := by
      intro hnil
      obtain ⟨k, hk⟩ := hin u (keyOf_ne_none.2 ⟨lsPg, hl⟩)
      obtain ⟨ports, hports⟩ := Option.ne_none_iff_exists'.1 hk
      rw [record, hl] at hports
      have := mem_entries_iff.2 (show lsPg.nbPgs.lookup k = some ports from hports)
      rw [hnil] at this
      cases this
    rw [hkept, if_neg hne]
    refine ⟨fun v => ?_, fun k hk => ?_⟩
    · rw [lookup_insert_eq]
      split
      next hv => rw [hv, hl]
      next => rfl
    · rw [record, hl] at hk
      exact hany _ (mem_entries_iff.2 (show lsPg.nbPgs.lookup k = some ∅ from hk)) rfl

theorem foldl_recordPrune_kept : ∀ (l : List ℕ) (t : LsPortGroupTable),
    (∀ v, keyOf t v ≠ none → ∃ k, record t v k ≠ none) →
    (l.foldl recordPrune (t, false)).2 = false →
    (∀ v, (l.foldl recordPrune (t, false)).1.lookup v = t.lookup v) ∧ ∀ u ∈ l, ∀ k,
      record t u k ≠ some ∅
  | [], t, _, _ => ⟨fun _ => rfl, nofun⟩
  | u :: l, t, hin, h => by
    have h1 : (recordPrune (t, false) u).2 = false := foldl_recordPrune_true l _ h
    obtain ⟨hsame, hne⟩ := recordPrune_kept hin h1
    have hpair : recordPrune (t, false) u = ((recordPrune (t, false) u).1, false) := Prod.ext rfl h1
    have hrec : ∀ v k, record (recordPrune (t, false) u).1 v k = record t v k := fun v k => by
      rw [record, hsame]
      rfl
    have hkey : ∀ v, keyOf (recordPrune (t, false) u).1 v = keyOf t v := fun v => by
      rw [keyOf, hsame]
      rfl
    rw [foldl_cons, hpair] at h ⊢
    obtain ⟨hl, hall⟩ := foldl_recordPrune_kept l _ (fun v hv => by
      simp only [hrec]
      exact hin v (by rwa [hkey] at hv)) h
    refine ⟨fun v => (hl v).trans (hsame v), fun w hw k => ?_⟩
    rcases mem_cons.1 hw with rfl | hw
    · exact hne k
    · rw [← hrec]
      exact hall w hw k

end

/-! ## Processing a group -/

/-- A set that a record holds: there is none for the empty set. -/
def shown (ports : Finset String) : Option (Finset String) :=
  if ports.Nonempty then some ports else none

theorem shown_ne_none {ports : Finset String} : shown ports ≠ none ↔ ports.Nonempty := by
  rw [shown]
  split
  next h => exact iff_of_true (some_ne_none _) h
  next h => exact iff_of_false (fun hc => hc rfl) h

theorem nonempty_of_shown {ports ports' : Finset String} (h : shown ports = some ports') :
    ports.Nonempty :=
  shown_ne_none.1 (h.trans_ne nofun)

theorem shown_ne_empty (ports : Finset String) : shown ports ≠ some ∅ := by
  rw [shown]
  split
  next h => exact fun hc => h.ne_empty (Option.some.inj hc)
  next => exact nofun

def portsAt (nb : Nb) (lsPorts : LsPorts) (g : PortGroup) (u : ℕ) : Finset String :=
  lsPorts.portsOn (nb.portNames g) u

/-- The two tables have the same pairs, and neither empty records nor switches without records. -/
structure Data.Linked (d : Data) : Prop where
  linked : ∀ u pg, record d.lsPortGroups u pg ≠ none ↔ u ∈ d.switchesOf pg
  nonempty : ∀ u pg, record d.lsPortGroups u pg ≠ some ∅
  inhabited : ∀ u, keyOf d.lsPortGroups u ≠ none → ∃ pg, record d.lsPortGroups u pg ≠ none

section
variable {nb : Nb} {lsPorts : LsPorts} {d : Data} {g : PortGroup} {updated : List ℕ}

/-- How `ls_port_group_process` goes: the records are cleared, the ports are added, and what is
    still empty goes. -/
theorem lsPortGroupProcess_ok (nb : Nb) (lsPorts : LsPorts) (h : d.Linked) (g : PortGroup)
    (updated : List ℕ) : ∃ t st, Cleared g.uuid d.lsPortGroups (d.switchesOf g.uuid) t ∧
      Added lsPorts g.uuid ⟨t, d.switchesOf g.uuid, false, updated⟩ (nb.portNames g) st ∧
      lsPortGroupProcess nb lsPorts d g updated =
        .ok (⟨((d.switchesOf g.uuid).foldl recordPrune (st.table, false)).1,
            d.portGroupsLses.insert g.uuid st.switches⟩,
          st.created || ((d.switchesOf g.uuid).foldl recordPrune (st.table, false)).2,
            st.updated) := by
  obtain ⟨t, hc, hclear⟩ := (ends_recordClear fun v hv => (h.linked v g.uuid).2 hv).exists_ok
  refine ⟨t, _, hclear, added lsPorts g.uuid _ _, ?_⟩
  unfold lsPortGroupProcess
  dsimp only
  rw [← Data.switchesOf, hc]
  rfl

theorem switchesOf_insert {t : LsPortGroupTable} {pg k : ℕ} {l : List ℕ} :
    (⟨t, d.portGroupsLses.insert pg l⟩ : Data).switchesOf k = if k = pg then l
      else d.switchesOf k := by
  unfold Data.switchesOf
  rw [lookup_insert_eq]
  split <;> rfl

/-- Groups are processed, and their records refilled: no record comes or goes, and those of other
    groups are left alone. -/
structure Refilled (nb : Nb) (lsPorts : LsPorts) (gs : List PortGroup) (d d' : Data)
    (updated updated' : List ℕ) : Prop where
  linked : d'.Linked
  self : ∀ g ∈ gs, ∀ u, record d'.lsPortGroups u g.uuid = shown (portsAt nb lsPorts g u)
  same : ∀ g ∈ gs, ∀ u, record d.lsPortGroups u g.uuid ≠ none ↔ (portsAt nb lsPorts g u).Nonempty
  other : ∀ pg ∉ gs.map (·.uuid), ∀ u, record d'.lsPortGroups u pg = record d.lsPortGroups u pg
  key : ∀ u, keyOf d'.lsPortGroups u = keyOf d.lsPortGroups u
  lses : ∀ pg ∉ gs.map (·.uuid), d'.portGroupsLses.lookup pg = d.portGroupsLses.lookup pg
  lsesSelf : ∀ g ∈ gs, d'.portGroupsLses.lookup g.uuid ≠ none
  updated : ∀ u, u ∈ updated' ↔ u ∈ updated ∨ ∃ g ∈ gs, (portsAt nb lsPorts g u).Nonempty

/-- What became of the table of a group that is processed without creating or destroying a record:
    its ports are where its records were. -/
theorem Added.unchanged {t : LsPortGroupTable} {st : Processing} (h : d.Linked)
    (hclear : Cleared g.uuid d.lsPortGroups (d.switchesOf g.uuid) t)
    (hadded : Added lsPorts g.uuid ⟨t, d.switchesOf g.uuid, false, updated⟩ (nb.portNames g) st)
    (hcreated : st.created = false)
    (hdestroyed : ((d.switchesOf g.uuid).foldl recordPrune (st.table, false)).2 = false) :
    (∀ u, u ∈ d.switchesOf g.uuid ↔ (portsAt nb lsPorts g u).Nonempty) ∧
    (∀ u, keyOf st.table u = keyOf d.lsPortGroups u) ∧ (∀ u k, record st.table u k =
      if k = g.uuid then shown (portsAt nb lsPorts g u) else record d.lsPortGroups u k) ∧
    ∀ u, ((d.switchesOf g.uuid).foldl recordPrune (st.table, false)).1.lookup
      u = st.table.lookup u := by
  have hempty : ∀ v, v ∈ d.switchesOf g.uuid → record t v g.uuid = some ∅ := fun v hv => by
    rw [hclear.records, if_pos ⟨rfl, hv⟩]
  have hnone : ∀ v, v ∉ d.switchesOf g.uuid → record t v g.uuid = none := fun v hv => by
    rw [hclear.records, if_neg fun hc => hv hc.2]
    exact not_not.1 fun hc => hv ((h.linked v g.uuid).1 hc)
  -- no record was created: the ports are on switches that were known
  have hknown : ∀ u, (portsAt nb lsPorts g u).Nonempty → u ∈ d.switchesOf g.uuid := by
    intro u hu
    by_contra hno
    have := hadded.created.2 (.inr ⟨u, hu, hnone u hno⟩)
    rw [hcreated] at this
    cases this
  have hother : ∀ u k, k ≠ g.uuid → record st.table u k = record d.lsPortGroups u k :=
    fun u k hk => by
    rw [hadded.records, if_neg fun hc => hk hc.1, hclear.records, if_neg fun hc => hk hc.1]
  have hself : ∀ u, u ∈ d.switchesOf g.uuid →
    record st.table u g.uuid = some (portsAt nb lsPorts g u) := by
    intro u hu
    rw [hadded.records]
    split
    · rw [hempty u hu]
      exact congrArg some (Finset.empty_union _)
    next hc =>
      rw [show portsAt nb lsPorts g u = ∅ from
        Finset.not_nonempty_iff_eq_empty.1 fun hn => hc ⟨rfl, hn⟩]
      exact hempty u hu
  have hkey : ∀ u, keyOf st.table u = keyOf d.lsPortGroups u := by
    intro u
    rcases hadded.key u with hk | ⟨hn, k, hk, -⟩
    · exact hk.trans (hclear.key u)
    rcases hadded.inhabited u (hk.trans_ne nofun) with hc | hc
    · exact absurd hn hc
    · have hrec : record t u g.uuid ≠ none := by simp [hempty u (hknown u hc)]
      exact absurd hn (keyOf_of_record hrec)
  have hin : ∀ v, keyOf st.table v ≠ none → ∃ k, record st.table v k ≠ none := by
    intro v hv
    obtain ⟨k, hk⟩ := h.inhabited v (by rwa [hkey] at hv)
    by_cases hkg : k = g.uuid
    · subst hkg
      exact ⟨g.uuid, by rw [hself v ((h.linked v _).1 hk)]; exact some_ne_none _⟩
    · exact ⟨k, by rwa [hother v k hkg]⟩
  obtain ⟨hsame, hne⟩ := foldl_recordPrune_kept _ _ hin hdestroyed
  -- no record was destroyed: there are ports on all of them
  have hported : ∀ u, u ∈ d.switchesOf g.uuid ↔ (portsAt nb lsPorts g u).Nonempty := by
    refine fun u => ⟨fun hu => ?_, hknown u⟩
    have := hne u hu g.uuid
    rw [hself u hu] at this
    exact Finset.nonempty_iff_ne_empty.2 fun hc => this (congrArg some hc)
  refine ⟨hported, hkey, fun u k => ?_, hsame⟩
  split
  next hk =>
    rw [hk, shown]
    split
    next hu => exact hself u ((hported u).2 hu)
    next hu =>
      rw [hadded.records, if_neg fun hc => hu hc.2]
      exact hnone u fun hc => hu ((hported u).1 hc)
  next hk => exact hother u k hk

theorem refilled_lsPortGroupProcess (h : d.Linked) : Ends (fun _ => False) (fun r =>
    r.2.1 = false → Refilled nb lsPorts [g] d r.1 updated r.2.2)
    (lsPortGroupProcess nb lsPorts d g updated) := by
  obtain ⟨t, st, hclear, hadded, hok⟩ := lsPortGroupProcess_ok nb lsPorts h g updated
  rw [hok]
  intro hchanged
  obtain ⟨hcreated, hdestroyed⟩ := Bool.or_eq_false_iff.1 hchanged
  obtain ⟨hported, hkey, hrecord, hlookup⟩ := hadded.unchanged h hclear hcreated hdestroyed
  have hrec : ∀ u k, record ((d.switchesOf g.uuid).foldl recordPrune (st.table, false)).1 u k =
      if k = g.uuid then shown (portsAt nb lsPorts g u) else record d.lsPortGroups u k :=
        fun u k => by
    rw [← hrecord, record, hlookup]
    rfl
  have hkeys : ∀ u, keyOf ((d.switchesOf g.uuid).foldl recordPrune (st.table, false)).1 u
      = keyOf d.lsPortGroups u := fun u => by
    rw [← hkey, keyOf, hlookup]
    rfl
  have hsame : ∀ u k, (if k = g.uuid then shown (portsAt nb lsPorts g u)
      else record d.lsPortGroups u k) ≠ none ↔ record d.lsPortGroups u k ≠ none := by
    intro u k
    split
    next hk => rw [shown_ne_none, ← hported, hk, h.linked]
    next => exact .rfl
  refine ⟨⟨fun u k => ?_, fun u k => ?_, fun u hu => ?_⟩, fun g' hg' u => ?_, fun g' hg' u => ?_,
    fun k hk u => ?_, hkeys, fun k hk => ?_, fun g' hg' => ?_, fun u => ?_⟩
  · rw [hrec, hsame, switchesOf_insert]
    split
    next hk =>
      rw [hk, h.linked, hadded.switches]
      exact ⟨.inl, fun hc => hc.elim id (hported u).2⟩
    next => exact h.linked u k
  · rw [hrec]
    split
    · exact shown_ne_empty _
    · exact h.nonempty u k
  · simp only [hrec, hsame]
    exact h.inhabited u (by rwa [hkeys] at hu)
  · simp_all
  · rw [mem_singleton.1 hg', h.linked]
    exact hported u
  · exact (hrec u k).trans (if_neg fun hc => hk (mem_singleton.2 hc))
  · exact AList.lookup_insert_ne fun hc => hk (mem_singleton.2 hc)
  · simp_all
  · rw [hadded.updated]
    simp only [mem_singleton, exists_eq_left]
    rfl

end

/-! ## Building -/

/-- The records are those of the groups. -/
structure Exact (nb : Nb) (lsPorts : LsPorts) (gs : List PortGroup) (d : Data) : Prop where
  records : ∀ u pg, record d.lsPortGroups u pg =
    (rowOf PortGroup.uuid gs pg).bind fun g => shown (portsAt nb lsPorts g u)
  inhabited : ∀ u, keyOf d.lsPortGroups u ≠ none → ∃ pg, record d.lsPortGroups u pg ≠ none
  key : ∀ u k, keyOf d.lsPortGroups u = some k → lsPorts.HasKey u k
  lses : ∀ pg, (d.portGroupsLses.lookup pg).isSome ↔ (rowOf PortGroup.uuid gs pg).isSome
  switches : ∀ u pg, u ∈ d.switchesOf pg ↔ record d.lsPortGroups u pg ≠ none

section
variable {nb : Nb} {lsPorts : LsPorts} {gs : List PortGroup} {d d' : Data} {g : PortGroup}

theorem Exact.linked (h : Exact nb lsPorts gs d) : d.Linked where
  linked u pg := (h.switches u pg).symm
  nonempty u pg := by
    rw [h.records]
    cases rowOf PortGroup.uuid gs pg with
    | none => exact nofun
    | some g => exact shown_ne_empty _
  inhabited := h.inhabited

theorem Exact.empty (nb : Nb) (lsPorts : LsPorts) : Exact nb lsPorts [] .empty where
  records _ _ := rfl
  inhabited _ h := absurd rfl h
  key _ _ h := nomatch h
  lses _ := .rfl
  switches _ _ := iff_of_false not_mem_nil fun h => h rfl

theorem Exact.process (h : Exact nb lsPorts gs d) (hg : g.uuid ∉ gs.map (·.uuid)) :
    Ends (fun _ => False) (fun r => Exact nb lsPorts (gs ++ [g]) r.1)
      (lsPortGroupProcess nb lsPorts d g []) := by
  obtain ⟨t, st, hclear, hadded, hok⟩ := lsPortGroupProcess_ok nb lsPorts h.linked g []
  rw [hok]
  have hrow : ∀ pg, rowOf PortGroup.uuid (gs ++ [g]) pg =
      if pg = g.uuid then some g else rowOf PortGroup.uuid gs pg := by
    intro pg
    rw [rowOf_append, rowOf_singleton]
    by_cases hp : pg = g.uuid
    · rw [hp, rowOf_eq_none.2 hg]
      simp
    · rw [if_neg hp, if_neg (Ne.symm hp), Option.or_none]
  have hnone : ∀ u, record d.lsPortGroups u g.uuid = none := fun u => by
    rw [h.records, rowOf_eq_none.2 hg]
    rfl
  -- nothing was known of the group
  have hnil : d.switchesOf g.uuid = [] :=
    eq_nil_iff_forall_not_mem.2 fun u hu => (h.switches u g.uuid).1 hu (hnone u)
  rw [hnil] at hclear hadded ⊢
  have ht : ∀ v k, record t v k = record d.lsPortGroups v k := fun v k => by
    rw [hclear.records, if_neg fun hc => absurd hc.2 not_mem_nil]
  have hrec : ∀ u k, record st.table u k =
      if k = g.uuid then shown (portsAt nb lsPorts g u) else record d.lsPortGroups u k := by
    intro u k
    rw [hadded.records]
    rw [ht, ht]
    by_cases hk : k = g.uuid
    · subst hk
      rw [if_pos rfl, hnone, shown]
      by_cases hn : (portsAt nb lsPorts g u).Nonempty
      · rw [if_pos ⟨rfl, hn⟩, if_pos hn]
        exact congrArg some (Finset.empty_union _)
      · rw [if_neg fun hc => hn hc.2, if_neg hn]
    · rw [if_neg hk, if_neg fun hc => hk hc.1]
  show Exact nb lsPorts (gs ++ [g]) ⟨st.table, d.portGroupsLses.insert g.uuid st.switches⟩
  refine ⟨fun u k => ?_, fun u hu => ?_, fun u k hk => ?_, fun k => ?_, fun u k => ?_⟩
  · rw [hrec, hrow]
    split
    · rfl
    · exact h.records u k
  · rcases hadded.inhabited u hu with hc | hc
    · obtain ⟨k, hk⟩ := h.inhabited u (by rwa [← hclear.key])
      have hne : k ≠ g.uuid := by
        rintro rfl
        exact hk (hnone u)
      exact ⟨k, by rwa [hrec, if_neg hne]⟩
    · exact ⟨g.uuid, by rwa [hrec, if_pos rfl, shown_ne_none]⟩
  · rcases hadded.key u with hc | ⟨-, k', hk', hhas⟩
    · exact h.key u k (by rw [← hclear.key u, ← hc, ← hk])
    · simp_all
  · rw [lookup_insert_eq, hrow]
    split
    · exact .rfl
    · exact h.lses k
  · rw [switchesOf_insert]
    rw [hrec]
    split
    · rw [hadded.switches, shown_ne_none]
      exact or_iff_right not_mem_nil
    · exact h.switches u k

/-- **What is built from the groups is exact**, and no assertion fails. -/
theorem exact_lsPortGroupTableBuild (nb : Nb) (lsPorts : LsPorts) : Ends (fun _ => False)
    (Exact nb lsPorts nb.portGroups) (lsPortGroupTableBuild nb lsPorts) := by
  refine (Ends.foldlM
    (I := fun rest d => ∃ done, nb.portGroups = done ++ rest ∧ Exact nb lsPorts done d)
    ?_ _ _ ⟨[], rfl, .empty nb lsPorts⟩).mono ?_
  · rintro g rest d ⟨done, hd, h⟩
    have hg : g.uuid ∉ done.map (·.uuid) := by
      have := nb.nodup_uuid
      rw [hd, map_append] at this
      exact fun hc => (nodup_append.1 this).2.2 _ hc _ mem_cons_self rfl
    exact Ends.bind (h.process hg) fun r hr => ⟨done ++ [g], hd.trans (append_cons ..), hr⟩
  · simp

/-- The tables say the same: they have the same switches, with the same key and records, and the
    same groups, with the same switches. -/
structure Data.Same (d d' : Data) : Prop where
  lsPortGroups :
    ∀ u, (d.lsPortGroups.lookup u).map (fun lsPg => (lsPg.sbDatapathKey, lsPg.nbPgs.lookup))
    = (d'.lsPortGroups.lookup u).map fun lsPg => (lsPg.sbDatapathKey, lsPg.nbPgs.lookup)
  portGroupsLses : ∀ pg, (d.portGroupsLses.lookup pg).map (fun l => {u | u ∈ l})
    = (d'.portGroupsLses.lookup pg).map fun l => {u | u ∈ l}

theorem map_eq_map {α β : Type*} {o o' : Option α} {f : α → β}
    (h : (∃ a, o = some a) ↔ ∃ b, o' = some b)
    (hf : ∀ a b, o = some a → o' = some b → f a = f b) : o.map f = o'.map f := by
  cases o <;> cases o' <;> simp_all

/-- **There is one exact content.** -/
theorem Exact.same (h : Exact nb lsPorts gs d) (h' : Exact nb lsPorts gs d') : d.Same d' := by
  have hrec : ∀ u pg, record d.lsPortGroups u pg = record d'.lsPortGroups u pg :=
    fun u pg => (h.records u pg).trans (h'.records u pg).symm
  refine ⟨fun u => ?_, fun pg => ?_⟩
  · refine map_eq_map ?_ fun lsPg lsPg' hl hl' => ?_
    · rw [← keyOf_ne_none, ← keyOf_ne_none]
      constructor
      · intro hk
        obtain ⟨pg, hpg⟩ := h.inhabited u hk
        exact keyOf_of_record (hrec u pg ▸ hpg)
      · intro hk
        obtain ⟨pg, hpg⟩ := h'.inhabited u hk
        exact keyOf_of_record ((hrec u pg).symm ▸ hpg)
    · have hk := h.key u
      have hk' := h'.key u
      have hru := hrec u
      unfold record keyOf at *
      rw [hl] at hk hru
      rw [hl'] at hk' hru
      exact Prod.ext ((hk _ rfl).unique (hk' _ rfl)) (funext hru)
  · have hsw : ∀ u, u ∈ d.switchesOf pg ↔ u ∈ d'.switchesOf pg := fun u => by
      rw [h.switches, h'.switches, hrec]
    refine map_eq_map ?_ fun l l' hl hl' => ?_
    · rw [← Option.isSome_iff_exists, ← Option.isSome_iff_exists]
      exact (h.lses pg).trans (h'.lses pg).symm
    · unfold Data.switchesOf at hsw
      rw [hl, hl'] at hsw
      exact Set.ext hsw

end

/-! ## Tracked groups -/

section
variable {nb : Nb} {lsPorts : LsPorts} {gs : List PortGroup} {d d' d'' : Data} {g : PortGroup}
  {updated updated' updated'' : List ℕ}

theorem Refilled.nil (h : d.Linked) : Refilled nb lsPorts [] d d updated updated where
  linked := h
  self := nofun
  same := nofun
  other _ _ _ := rfl
  key _ := rfl
  lses _ _ := rfl
  lsesSelf := nofun
  updated u := by simp

theorem Refilled.cons (h : Refilled nb lsPorts [g] d d' updated updated')
    (h' : Refilled nb lsPorts gs d' d'' updated' updated'') (hg : g.uuid ∉ gs.map (·.uuid)) :
    Refilled nb lsPorts (g :: gs) d d'' updated updated'' where
  linked := h'.linked
  self := by
    intro g' hg' u
    rcases mem_cons.1 hg' with rfl | hg'
    · rw [h'.other _ hg, h.self _ (mem_singleton_self _)]
    · exact h'.self g' hg' u
  same := by
    intro g' hg' u
    rcases mem_cons.1 hg' with rfl | hg'
    · exact h.same _ (mem_singleton_self _) u
    · rw [← h'.same g' hg' u, h.other]
      intro hc
      have hin := mem_map_of_mem (f := (·.uuid)) hg'
      rw [mem_singleton.1 hc] at hin
      exact hg hin
  other := by
    intro pg hpg u
    rw [map_cons, mem_cons, not_or] at hpg
    rw [h'.other pg hpg.2, h.other pg fun hc => hpg.1 (mem_singleton.1 hc)]
  key u := (h'.key u).trans (h.key u)
  lses := by
    intro pg hpg
    rw [map_cons, mem_cons, not_or] at hpg
    rw [h'.lses pg hpg.2, h.lses pg fun hc => hpg.1 (mem_singleton.1 hc)]
  lsesSelf := by
    intro g' hg'
    rcases mem_cons.1 hg' with rfl | hg'
    · rw [h'.lses _ hg]
      exact h.lsesSelf _ (mem_singleton_self _)
    · exact h'.lsesSelf g' hg'
  updated := by
    simp [h'.updated, h.updated, or_assoc]

/-- **The tracked groups are refilled**, if the loop gets to its end; no assertion fails. -/
theorem refilled_processTracked : ∀ (gs : List PortGroup) (d : Data) (updated : List ℕ), d.Linked →
    (gs.map (·.uuid)).Nodup → Ends (fun _ => False)
      (fun r => r.2.1 = true → Refilled nb lsPorts gs d r.1 updated r.2.2)
      (processTracked nb lsPorts gs d updated)
  | [], d, updated, h, _ => fun _ => .nil h
  | g :: gs, d, updated, h, hnodup => by
    obtain ⟨hg, hnodup⟩ := nodup_cons.1 hnodup
    refine Ends.bind (refilled_lsPortGroupProcess h) fun r hr => ?_
    obtain ⟨d', changed, updated'⟩ := r
    cases changed with
    | true => exact fun hc => absurd hc Bool.false_ne_true
    | false =>
      have hr := hr rfl
      refine (refilled_processTracked gs d' updated' hr.linked hnodup).mono fun r' hr' hok => ?_
      exact hr.cons (hr' hok) hg

end

end Ovn.PortGroups

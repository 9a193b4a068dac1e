/-
  The tracked logical switch ports are alive.

  * what the database and its client library guarantee of the input of an iteration,
  * an invariant of the ports and their rows, kept by each loop of the two handlers,
  * from it, by induction on the iterations: the tracked sets are disjoint, name no freed port
    and no deleted row, and no handler writes a row that is not there.
-/
import Ovn.Northd.LspTracking

namespace Ovn.LspTracking

open Finset (notMem_empty)
open Function (update_of_ne update_self)
open List

namespace Northd

/-! ## Inputs -/

/-- What holds of the input of an iteration: the rows have unique names after a commit, the
    tracked flags say what changed, each row that went away or that northd had inserted is
    tracked, and the rows of a column are a set. -/
structure Valid (s : Northd) (inp : Input) : Prop where
  index : ∀ r r', s.Live r → s.Live r' → s.logicalPort r = s.logicalPort r' → r = r'
  isNew : ∀ pb ∈ inp.portBindings, pb.isNew = true ↔ pb.row ∉ s.sbRows
  isDeleted : ∀ pb ∈ inp.portBindings, pb.isDeleted = true ↔ pb.row ∉ inp.sbRows
  tracked : ∀ r, s.Live r → r ∉ inp.sbRows ∨ r ∈ s.inserted → ∃ pb ∈ inp.portBindings, pb.row = r
  switches : (inp.switches.map (·.row)).Nodup
  ports : ∀ ls ∈ inp.switches, (ls.ports.map (·.row)).Nodup

/-- No row of Port_Binding was inserted and deleted again, none has another name now, and no
    logical switch port has the name of a logical router port. -/
structure Regular (s : Northd) (inp : Input) : Prop where
  notBoth : ∀ pb ∈ inp.portBindings, ¬ (pb.isNew = true ∧ pb.isDeleted = true)
  logicalPort : ∀ r, r ∈ s.sbRows ∨ r ∈ s.inserted → inp.logicalPort r = s.logicalPort r
  names : ∀ ls ∈ inp.switches, ∀ p ∈ ls.ports, ∀ b ∈ s.lrPorts, p.name ≠ (s.port b).key

/-! ## The invariant -/

/-- A port of `ls_ports`; `names` are those of the router ports. -/
structure LspOk (names : List String) (s : Northd) (a : ℕ) : Prop where
  bound : a < s.nextPort
  name : (s.port a).key ∉ names
  lsp : (s.port a).nbsp.isSome
  row : (s.port a).sb < s.nextRow
  named : s.logicalPort (s.port a).sb = (s.port a).key

/-- The ports and the tracked sets, but for the rows being alive. -/
structure Ports (names : List String) (s : Northd) : Prop where
  ls : ∀ a ∈ s.lsPorts, LspOk names s a
  lr : ∀ b ∈ s.lrPorts, b < s.nextPort ∧ b ∉ s.lsPorts ∧ (s.port b).key ∈ names
  inj : ∀ a ∈ s.lsPorts, ∀ b ∈ s.lsPorts, (s.port a).sb = (s.port b).sb → a = b
  od : ∀ ls, ∀ a ∈ s.odPorts ls, a ∈ s.lsPorts ∧ (s.port a).od = ls
  odNodup : ∀ ls, (s.odPorts ls).Nodup
  router : ∀ ls, ∀ a ∈ s.routerPorts ls, a ∈ s.lsPorts ∧ (s.port a).lspCanBeIncProcessed = false
  freed : ∀ a ∈ s.freed, a < s.nextPort ∧ a ∉ s.lsPorts
  removed : ∀ r ∈ s.removed, r < s.nextRow
  created : ∀ a ∈ s.created, a ∈ s.lsPorts ∧ (s.port a).lspCanBeIncProcessed = true
  updated : ∀ a ∈ s.updated, a ∈ s.lsPorts ∧ a ∉ s.created
  deleted : ∀ a ∈ s.deleted, a < s.nextPort ∧ a ∉ s.lsPorts ∧ a ∉ s.lrPorts ∧ a ∉ s.freed ∧
    (s.port a).nbsp.isSome

def AllLive (s : Northd) : Prop := ∀ a ∈ s.lsPorts, s.Live (s.port a).sb

/-- What a recompute leaves, and every iteration of the two handlers. -/
def Consistent (s : Northd) : Prop := Ports (s.lrPorts.map fun b => (s.port b).key) s ∧ s.AllLive

/-- A handler that fails has everything computed anew; it does not abort. -/
abbrev Falls : Fail → Prop := (· = .recompute)

/-! ## The rows of Port_Binding -/

section
variable {names : List String} {s : Northd}

def KeyUnique (s : Northd) : Prop :=
  ∀ a ∈ s.lsPorts, ∀ b ∈ s.lsPorts, (s.port a).key = (s.port b).key → a = b

variable {a : ℕ}

theorem mem_of_find {ports : List ℕ} {name : String} (h : s.find ports name = some a) :
    a ∈ ports ∧ (s.port a).key = name := by
  refine ⟨mem_of_find?_eq_some h, ?_⟩
  have := List.find?_some h
  simpa using this

theorem key_ne_of_find {ports : List ℕ} {name : String} (h : s.find ports name = none) :
    ∀ a ∈ ports, (s.port a).key ≠ name := by
  intro a ha
  have := List.find?_eq_none.1 h a ha
  simpa using this

theorem findPb_cases (s : Northd) (pb : TrackedPb) :
    (∃ b ∈ s.lrPorts, (s.port b).key = s.logicalPort pb.row ∧ s.findPb pb = (some b, true)) ∨
      (∃ a ∈ s.lsPorts, (s.port a).key = s.logicalPort pb.row ∧ s.findPb pb = (some a, false)) ∨
      ((∀ a ∈ s.lsPorts, (s.port a).key ≠ s.logicalPort pb.row) ∧ (s.findPb pb).1 = none) := by
  match hlr : (if pb.isRouterType then s.find s.lrPorts (s.logicalPort pb.row) else none) with
  | some b =>
    left
    by_cases ht : pb.isRouterType
    · rw [if_pos ht] at hlr
      exact ⟨b, (mem_of_find hlr).1, (mem_of_find hlr).2, by simp [findPb, ht, hlr]⟩
    · rw [if_neg ht] at hlr
      cases hlr
  | none =>
    right
    match hls : s.find s.lsPorts (s.logicalPort pb.row) with
    | some a => exact .inl ⟨a, (mem_of_find hls).1, (mem_of_find hls).2, by simp [findPb, hlr, hls]⟩
    | none => exact .inr ⟨key_ne_of_find hls, by simp [findPb, hlr, hls]⟩

theorem setSb_port (s : Northd) (a r b : ℕ) : ((s.setSb a r).port b).key = (s.port b).key ∧
      ((s.setSb a r).port b).nbsp = (s.port b).nbsp ∧ ((s.setSb a r).port b).od = (s.port b).od ∧
      ((s.setSb a r).port b).lspCanBeIncProcessed = (s.port b).lspCanBeIncProcessed ∧
      ((s.setSb a r).port b).sb = if b = a then r else (s.port b).sb := by
  by_cases hb : b = a <;> simp [Northd.setSb, hb]

theorem Ports.withPort {f : ℕ → Port} (h : Ports names s) (hkey : ∀ b, (f b).key = (s.port b).key)
    (hsp : ∀ b, (s.port b).nbsp.isSome → (f b).nbsp.isSome)
    (hrow : ∀ b ∈ s.lsPorts, (f b).sb < s.nextRow ∧ s.logicalPort (f b).sb = (s.port b).key)
    (hinj : ∀ b ∈ s.lsPorts, ∀ c ∈ s.lsPorts, (f b).sb = (f c).sb → b = c)
    (hod : ∀ b ∈ s.lsPorts, (f b).od = (s.port b).od)
    (hinc : ∀ b, b ∈ s.created ∨ (∃ ls, b ∈ s.routerPorts ls) →
      (f b).lspCanBeIncProcessed = (s.port b).lspCanBeIncProcessed) :
    Ports names { s with port := f } := by
  refine { h with
    ls := fun b hb => ?_
    lr := fun b hb => ?_
    inj := hinj
    od := fun ls b hb => ?_
    router := fun ls b hb => ?_
    created := fun b hb => ?_
    deleted := fun b hb => ?_ }
  · have hb' := h.ls b hb
    exact ⟨hb'.bound, (hkey b).symm ▸ hb'.name, hsp b hb'.lsp, (hrow b hb).1,
      (hrow b hb).2.trans (hkey b).symm⟩
  · rw [hkey b]
    exact h.lr b hb
  · obtain ⟨hin, hls⟩ := h.od ls b hb
    exact ⟨hin, (hod b hin).trans hls⟩
  · obtain ⟨hin, hnot⟩ := h.router ls b hb
    exact ⟨hin, (hinc b (.inr ⟨ls, hb⟩)).trans hnot⟩
  · obtain ⟨hin, hcan⟩ := h.created b hb
    exact ⟨hin, (hinc b (.inl hb)).trans hcan⟩
  · obtain ⟨hlt, hls, hlr, hfr, hnb⟩ := h.deleted b hb
    exact ⟨hlt, hls, hlr, hfr, hsp b hnb⟩

theorem Ports.setSb (h : Ports names s) (hkey : s.KeyUnique) {r : ℕ}
    (hname : (s.port a).key = s.logicalPort r) (hr : r < s.nextRow) :
    Ports names (s.setSb a r) := by
  have hport := s.setSb_port a r
  have hrow : ∀ b ∈ s.lsPorts, ((s.setSb a r).port b).sb < s.nextRow ∧
      s.logicalPort ((s.setSb a r).port b).sb = (s.port b).key := by
    intro b hb
    rw [(hport b).2.2.2.2]
    split
    next hba => exact ⟨hr, by rw [hba, hname]⟩
    · exact ⟨(h.ls b hb).row, (h.ls b hb).named⟩
  refine h.withPort (fun b => (hport b).1) (fun b hb => (hport b).2.1.symm ▸ hb) hrow
    (fun b hb c hc hbc => hkey b hb c hc ?_) (fun b _ => (hport b).2.2.1)
      fun b _ => (hport b).2.2.2.1
  -- the rows have the names of their ports
  rw [← (hrow b hb).2, ← (hrow c hc).2]
  exact congrArg s.logicalPort hbc

theorem Ports.update (h : Ports names s) (ha : a ∈ s.lsPorts) (hc : a ∉ s.created) :
    Ports names { s with updated := insert a s.updated } :=
  { h with
    ls := fun b hb => { h.ls b hb with }
    updated := fun b hb => by
      rcases Finset.mem_insert.1 hb with rfl | hb
      · exact ⟨ha, hc⟩
      · exact h.updated b hb }

/-- While the rows are handled: a port whose row is gone has it still ahead. -/
structure RowLoop (names : List String) (inp : Input) (pbs : List TrackedPb)
    (s : Northd) : Prop where
  ports : Ports names s
  keys : s.KeyUnique
  sbRows : s.sbRows = inp.sbRows
  removed : s.removed = ∅
  created : s.created = ∅
  ahead : ∀ a ∈ s.lsPorts, (s.port a).sb ∈ inp.sbRows ∨ ∃ pb ∈ pbs, pb.row = (s.port a).sb
  rows : ∀ r ∈ inp.sbRows, r < s.nextRow
  flags : ∀ pb ∈ pbs, (pb.isDeleted = true ↔ pb.row ∉ inp.sbRows) ∧
    ¬ (pb.isNew = true ∧ pb.isDeleted = true)

variable {inp : Input} {pb : TrackedPb} {pbs : List TrackedPb}

theorem RowLoop.tail (h : RowLoop names inp (pb :: pbs) s)
    (hgone : ∀ a ∈ s.lsPorts, (s.port a).sb = pb.row → pb.row ∈ inp.sbRows) :
    RowLoop names inp pbs s :=
  { h with
    ahead := fun a ha => by
      rcases h.ahead a ha with hin | ⟨pb', hpb', hrow⟩
      · exact .inl hin
      · rcases mem_cons.1 hpb' with rfl | hpb'
        · exact .inl (hrow ▸ hgone a ha hrow.symm)
        · exact .inr ⟨pb', hpb', hrow⟩
    flags pb' hpb' := h.flags pb' (mem_cons_of_mem pb hpb') }

theorem RowLoop.setSb (h : RowLoop names inp (pb :: pbs) s) (hrow : pb.row ∈ inp.sbRows)
    (hname : (s.port a).key = s.logicalPort pb.row) : RowLoop names inp pbs (s.setSb a pb.row) :=
  { h with
    ports := h.ports.setSb h.keys hname (h.rows _ hrow)
    keys := fun b hb c hc hbc => by
      rw [(s.setSb_port a pb.row b).1, (s.setSb_port a pb.row c).1] at hbc
      exact h.keys b hb c hc hbc
    ahead := fun b hb => by
      by_cases hba : b = a
      · subst hba
        exact .inl (by simpa [Northd.setSb] using hrow)
      · have := (h.tail fun _ _ _ => hrow).ahead b hb
        simpa [Northd.setSb, update_of_ne hba] using this
    flags pb' hpb' := h.flags pb' (mem_cons_of_mem pb hpb') }

theorem RowLoop.handlePb (h : RowLoop names inp (pb :: pbs) s) :
    Ends Falls (RowLoop names inp pbs) (s.handlePb pb) := by
  obtain ⟨hdel, hboth⟩ := h.flags pb mem_cons_self
  unfold Northd.handlePb
  by_cases hnew : pb.isNew
  · -- a new row is there
    have hrow : pb.row ∈ inp.sbRows := by simp_all
    rcases s.findPb_cases pb with ⟨b, -, hk, hf⟩ | ⟨a, -, hk, hf⟩ | ⟨-, hf⟩
    · simp only [hf, if_pos hnew]
      exact h.setSb hrow hk
    · simp only [hf, if_pos hnew]
      exact h.setSb hrow hk
    · simp only [hf, if_pos hnew]
      rfl
  · by_cases hd : pb.isDeleted
    · -- the row of a port is not overlooked: the port is found by its name
      have hn : ∀ a ∈ s.lsPorts, (s.port a).sb = pb.row → s.logicalPort pb.row = (s.port a).key :=
        fun a ha hsb => hsb ▸ (h.ports.ls a ha).named
      rcases s.findPb_cases pb with ⟨b, hb, hk, hf⟩ | ⟨a, ha, hk, hf⟩ | ⟨hk, hf⟩
      · simp only [hf, if_neg hnew, if_pos hd]
        split
        · rfl
        · refine h.tail fun a ha hsb => absurd ?_ (h.ports.ls a ha).name
          rw [← hn a ha hsb, ← hk]
          exact (h.ports.lr b hb).2.2
      · simp only [hf, if_neg hnew, if_pos hd]
        split
        · rfl
        next hne =>
          refine h.tail fun a' ha' hsb => ?_
          obtain rfl := h.keys a ha a' ha' (hk.trans (hn a' ha' hsb))
          exact absurd hsb hne
      · simp only [hf, if_neg hnew, if_pos hd]
        exact h.tail fun a ha hsb => absurd (hn a ha hsb).symm (hk a ha)
    · have hrow : pb.row ∈ inp.sbRows := by
        by_contra hno
        exact hd (hdel.2 hno)
      have ht := h.tail fun _ _ _ => hrow
      rcases s.findPb_cases pb with ⟨b, -, -, hf⟩ | ⟨a, ha, -, hf⟩ | ⟨-, hf⟩
      · simp only [hf, if_neg hnew, if_neg hd]
        split
        · rfl
        · exact ht
      · simp only [hf, if_neg hnew, if_neg hd]
        split
        · rfl
        · split
          · -- only a logical switch port is tracked here
            exact { ht with ports := ht.ports.update ha (by simp [h.created]) }
          · exact ht
      · simp only [hf, if_neg hnew, if_neg hd]
        rfl

/-- The rows as they are received: a port whose row is gone has it ahead. -/
theorem Consistent.refresh (h : s.Consistent) (hv : s.Valid inp) (hr : s.Regular inp) :
    RowLoop (s.lrPorts.map fun b => (s.port b).key) inp inp.portBindings (s.refresh inp) := by
  obtain ⟨hp, hlive⟩ := h
  have hname : ∀ a ∈ s.lsPorts, inp.logicalPort (s.port a).sb = s.logicalPort (s.port a).sb :=
    fun a ha => hr.logicalPort _ (hlive a ha).1
  refine ⟨⟨fun a ha => ?_, hp.lr, hp.inj, hp.od, hp.odNodup, hp.router, fun a ha => ?_,
    fun r hr => by simp [Northd.refresh] at hr, fun a ha => by simp [Northd.refresh] at ha,
    fun a ha => by simp [Northd.refresh] at ha, fun a ha => by simp [Northd.refresh] at ha⟩,
    fun a ha b hb hab => ?_, rfl, rfl, rfl, fun a ha => ?_, fun r hr => ?_, fun pb hpb => ?_⟩
  · obtain ⟨h1, h2, h3, h4, h5⟩ := hp.ls a ha
    exact ⟨h1, h2, h3, lt_max_of_lt_left h4, (hname a ha).trans h5⟩
  · rcases Finset.mem_union.1 ha with ha | ha
    · exact hp.freed a ha
    · exact ⟨(hp.deleted a ha).1, (hp.deleted a ha).2.1⟩
  · -- keys are unique because the rows' names are
    have hab' : (s.port a).key = (s.port b).key := hab
    refine hp.inj a ha b hb (hv.index _ _ (hlive a ha) (hlive b hb) ?_)
    rw [(hp.ls a ha).named, (hp.ls b hb).named, hab']
  · by_cases hin : (s.port a).sb ∈ inp.sbRows
    · exact .inl hin
    · exact .inr (hv.tracked _ (hlive a ha) (.inl hin))
  · exact lt_max_of_lt_right (Finset.le_sup hr (f := (· + 1)))
  · exact ⟨hv.isDeleted pb hpb, hr.notBoth pb hpb⟩

/-- **The rows.** After `northd_handle_sb_port_binding_changes` every port's row is alive. -/
theorem Consistent.handlePbs (h : s.Consistent) (hv : s.Valid inp) (hr : s.Regular inp) :
    Ends Falls (fun s' => Ports (s.lrPorts.map fun b => (s.port b).key) s' ∧ s'.AllLive ∧
      s'.created = ∅) (inp.portBindings.foldlM Northd.handlePb (s.refresh inp)) := by
  have hloop := Ends.foldlM (I := RowLoop (s.lrPorts.map fun b => (s.port b).key) inp)
    (fun _ _ _ hs => hs.handlePb) inp.portBindings (s.refresh inp) (h.refresh hv hr)
  refine Ends.mono hloop fun s' hs' => ⟨hs'.ports, fun a ha => ⟨.inl ?_, ?_⟩, hs'.created⟩
  · rw [hs'.sbRows]
    refine (hs'.ahead a ha).resolve_right ?_
    rintro ⟨pb, hpb, -⟩
    cases hpb
  · rw [hs'.removed]
    exact notMem_empty _

/-! ## The ports of a switch -/

variable {od : ℕ} {p : NbPort}

theorem lsPortCreate_port_of_lt (ha : a < s.nextPort) : (s.lsPortCreate od p).port a = s.port a :=
  update_of_ne ha.ne _ _

theorem lsPortCreate_port_self (s : Northd) (od : ℕ) (p : NbPort) :
    (s.lsPortCreate od p).port s.nextPort =
      ⟨p.name, some p.row, od, s.nextRow, p.canBeIncProcessed⟩ := update_self ..

theorem mem_lsPortCreate_odPorts (s : Northd) (od : ℕ) (p : NbPort) {ls : ℕ} :
    a ∈ (s.lsPortCreate od p).odPorts ls ↔ (ls = od ∧ a = s.nextPort) ∨ a ∈ s.odPorts ls := by
  unfold lsPortCreate
  by_cases hls : ls = od <;> simp [hls]

theorem Ports.create (h : Ports names s) (hname : p.name ∉ names)
    (hinc : p.canBeIncProcessed = true) :
    Ports names { s.lsPortCreate od p with created := insert s.nextPort s.created } := by
  have hold : ∀ {a}, a ∈ s.lsPorts → (s.lsPortCreate od p).port a = s.port a :=
    fun ha => lsPortCreate_port_of_lt (h.ls _ ha).bound
  have hself := s.lsPortCreate_port_self od p
  have hnew : ∀ a < s.nextPort, a ∉ s.lsPorts → a ∉ (s.lsPortCreate od p).lsPorts := by
    rintro a hlt hnot (_ | ⟨_, ha⟩)
    · exact Nat.lt_irrefl _ hlt
    · exact hnot ha
  constructor
  case ls =>
    rintro a (_ | ⟨_, ha⟩)
    · refine ⟨Nat.lt_succ_self _, ?_, ?_, ?_, ?_⟩ <;> simp only [hself]
      · exact hname
      · rfl
      · exact Nat.lt_succ_self _
      · exact update_self ..
    · obtain ⟨h1, h2, h3, h4, h5⟩ := h.ls a ha
      refine ⟨Nat.lt_succ_of_lt h1, ?_, ?_, ?_, ?_⟩ <;> simp only [hold ha]
      · exact h2
      · exact h3
      · exact Nat.lt_succ_of_lt h4
      · exact (update_of_ne h4.ne _ _).trans h5
  case lr =>
    intro b hb
    obtain ⟨hlt, hls, hk⟩ := h.lr b hb
    refine ⟨Nat.lt_succ_of_lt hlt, hnew b hlt hls, ?_⟩
    simp only [lsPortCreate_port_of_lt hlt]
    exact hk
  case inj =>
    -- the new row is not that of a port that there was
    have hrow : ∀ a ∈ s.lsPorts, ((s.lsPortCreate od p).port a).sb ≠
        ((s.lsPortCreate od p).port s.nextPort).sb := by
      intro a ha
      rw [hold ha, hself]
      exact (h.ls a ha).row.ne
    rintro a (_ | ⟨_, ha⟩) b (_ | ⟨_, hb⟩) hab
    · rfl
    · exact absurd hab.symm (hrow b hb)
    · exact absurd hab (hrow a ha)
    · refine h.inj a ha b hb ?_
      rw [← hold ha, ← hold hb]
      exact hab
  case od =>
    intro ls a ha
    rcases (s.mem_lsPortCreate_odPorts od p).1 ha with ⟨rfl, rfl⟩ | ha
    · exact ⟨mem_cons_self, by simp only [hself]⟩
    · obtain ⟨hin, hod⟩ := h.od ls a ha
      refine ⟨mem_cons_of_mem _ hin, ?_⟩
      simp only [hold hin]
      exact hod
  case odNodup =>
    intro ls
    refine (Function.forall_update_iff s.odPorts fun _ l => l.Nodup).2
      ⟨nodup_cons.2 ⟨?_, ?_⟩, ?_⟩ ls
    · exact fun hin => absurd (h.ls _ (h.od od _ hin).1).bound (Nat.lt_irrefl _)
    · exact h.odNodup od
    · exact fun ls _ => h.odNodup ls
  case router =>
    intro ls a ha
    obtain ⟨hin, hinc⟩ := h.router ls a ha
    refine ⟨mem_cons_of_mem _ hin, ?_⟩
    simp only [hold hin]
    exact hinc
  case freed => exact fun a ha => ⟨Nat.lt_succ_of_lt (h.freed a ha).1, hnew a (h.freed a ha).1
    (h.freed a ha).2⟩
  case removed => exact fun r hr => Nat.lt_succ_of_lt (h.removed r hr)
  case created =>
    intro a ha
    rcases Finset.mem_insert.1 ha with rfl | ha
    · refine ⟨mem_cons_self, ?_⟩
      simp only [hself]
      exact hinc
    · obtain ⟨hin, hinc⟩ := h.created a ha
      refine ⟨mem_cons_of_mem _ hin, ?_⟩
      simp only [hold hin]
      exact hinc
  case updated =>
    intro a ha
    obtain ⟨hin, hnot⟩ := h.updated a ha
    refine ⟨mem_cons_of_mem _ hin, fun hc => ?_⟩
    rcases Finset.mem_insert.1 hc with rfl | hc
    · exact absurd (h.ls _ hin).bound (Nat.lt_irrefl _)
    · exact hnot hc
  case deleted =>
    intro a ha
    obtain ⟨hlt, hls, hlr, hfr, hnb⟩ := h.deleted a ha
    refine ⟨Nat.lt_succ_of_lt hlt, hnew a hlt hls, hlr, hfr, ?_⟩
    simp only [lsPortCreate_port_of_lt hlt]
    exact hnb

theorem AllLive.create (h : s.AllLive) (hp : Ports names s) (od : ℕ) (p : NbPort) :
    (s.lsPortCreate od p).AllLive := by
  rintro a (_ | ⟨_, ha⟩)
  · rw [lsPortCreate_port_self]
    exact ⟨.inr (Finset.mem_insert_self _ _), fun hr => Nat.lt_irrefl _ (hp.removed _ hr)⟩
  · rw [lsPortCreate_port_of_lt (hp.ls a ha).bound]
    exact ⟨(h a ha).1.imp_right Finset.mem_insert_of_mem, (h a ha).2⟩

theorem lsPortReinit_port (s : Northd) (od a : ℕ) (p : NbPort) (b : ℕ) :
    ((s.lsPortReinit od a p).port b).key = (s.port b).key ∧
      ((s.lsPortReinit od a p).port b).sb = (s.port b).sb ∧
      (b ≠ a → (s.lsPortReinit od a p).port b = s.port b) := by
  by_cases hb : b = a <;> simp [lsPortReinit, hb]

theorem Ports.reinit (h : Ports names s) (ha : a ∈ s.odPorts od) (hc : a ∉ s.created)
    (hinc : (s.port a).lspCanBeIncProcessed = true) : Ports names (s.lsPortReinit od a p) := by
  have hport := s.lsPortReinit_port od a p
  have hself : (s.lsPortReinit od a p).port a = { s.port a with
      nbsp := some p.row, od := od, lspCanBeIncProcessed := p.canBeIncProcessed } :=
    update_self ..
  refine h.withPort (f := (s.lsPortReinit od a p).port) (fun b => (hport b).1) (fun b hb => ?_)
    (fun b hb => ?_)
    (fun b hb c hc hbc => h.inj b hb c hc ?_) (fun b hb => ?_) fun b hb => ?_
  · by_cases hba : b = a
    · subst hba
      rw [hself]
      rfl
    · rwa [(hport b).2.2 hba]
  · rw [(hport b).2.1]
    exact ⟨(h.ls b hb).row, (h.ls b hb).named⟩
  · exact (hport b).2.1.symm.trans (hbc.trans (hport c).2.1)
  · by_cases hba : b = a
    · subst hba
      exact (congrArg Port.od hself).trans (h.od od b ha).2.symm
    · exact congrArg Port.od ((hport b).2.2 hba)
  · -- the port is not a router port, which could not be processed
    refine congrArg Port.lspCanBeIncProcessed ((hport b).2.2 ?_)
    rintro rfl
    rcases hb with hb | ⟨ls, hb⟩
    · exact hc hb
    · exact Bool.false_ne_true ((h.router ls b hb).2.symm.trans hinc)

theorem AllLive.reinit (h : s.AllLive) (od a : ℕ) (p : NbPort) :
    (s.lsPortReinit od a p).AllLive := by
  intro b hb
  rw [(s.lsPortReinit_port od a p b).2.1]
  exact h b hb

/-- While the ports of the switch `od` are handled: a port that was created for it was visited,
    and is none of those ahead; `later` are the switches that follow. -/
structure PortLoop (names : List String) (later : List ℕ) (od : ℕ) (ps : List NbPort)
    (st : Northd × Finset ℕ) : Prop where
  ports : Ports names st.1
  live : st.1.AllLive
  nodup : (ps.map (·.row)).Nodup
  names : ∀ p ∈ ps, p.name ∉ names
  seen : ∀ a ∈ st.1.created, a ∈ st.1.odPorts od →
    a ∈ st.2 ∧ ∀ p ∈ ps, (st.1.port a).nbsp ≠ some p.row
  later : ∀ a ∈ st.1.created, (st.1.port a).od ∉ later

theorem mem_of_findInDatapath (h : s.findInDatapath od p = some a) :
    a ∈ s.odPorts od ∧ (s.port a).key = p.name ∧ (s.port a).nbsp = some p.row := by
  refine ⟨mem_of_find?_eq_some h, ?_⟩
  have := List.find?_some h
  simpa using this

variable {later : List ℕ}

theorem PortLoop.visit {ps : List NbPort} {visited : Finset ℕ}
    (h : PortLoop names later od (p :: ps) (s, visited)) (a : ℕ) :
    PortLoop names later od ps (s, insert a visited) :=
  { h with
    nodup := (nodup_cons.1 h.nodup).2
    names := (forall_mem_cons.1 h.names).2
    seen := fun b hb hod => ⟨Finset.mem_insert_of_mem (h.seen b hb hod).1,
      fun q hq => (h.seen b hb hod).2 q (mem_cons_of_mem p hq)⟩ }

theorem PortLoop.handlePort (hod : od ∉ later) {ps : List NbPort} {st : Northd × Finset ℕ}
    (h : PortLoop names later od (p :: ps) st) :
    Ends Falls (PortLoop names later od ps) (Northd.handlePort inp od st p) := by
  obtain ⟨s, visited⟩ := st
  unfold Northd.handlePort
  match hfind : s.findInDatapath od p with
  | none =>
    simp only [hfind]
    by_cases hbad : (!p.canBeIncProcessed || !p.initOk) = true
    · rw [if_pos hbad]
      rfl
    rw [if_neg hbad]
    have hinc : p.canBeIncProcessed = true := by
      by_contra hno
      simp [hno] at hbad
    have hv := h.visit s.nextPort
    have hold : ∀ {a}, a ∈ s.created → (s.lsPortCreate od p).port a = s.port a :=
      fun ha => lsPortCreate_port_of_lt (h.ports.ls _ (h.ports.created _ ha).1).bound
    refine ⟨h.ports.create (h.names p mem_cons_self) hinc, h.live.create h.ports od p,
      hv.nodup, hv.names, ?_, ?_⟩
    · intro a ha haod
      rcases Finset.mem_insert.1 ha with rfl | ha
      · refine ⟨Finset.mem_insert_self _ _, fun q hq => ?_⟩
        simp only [lsPortCreate_port_self]
        intro hrow
        exact (nodup_cons.1 h.nodup).1 (mem_map.2 ⟨q, hq, (Option.some.inj hrow).symm⟩)
      · have haod' : a ∈ s.odPorts od := by
          rcases (s.mem_lsPortCreate_odPorts od p).1 haod with ⟨-, rfl⟩ | haod'
          · exact absurd (h.ports.ls _ (h.ports.created _ ha).1).bound (Nat.lt_irrefl _)
          · exact haod'
        simp only [hold ha]
        exact hv.seen a ha haod'
    · intro a ha
      rcases Finset.mem_insert.1 ha with rfl | ha
      · simp only [lsPortCreate_port_self]
        exact hod
      · simp only [hold ha]
        exact h.later a ha
  | some a =>
    obtain ⟨haod, -, hnb⟩ := mem_of_findInDatapath hfind
    have hals := (h.ports.od od a haod).1
    have hac : a ∉ s.created := fun hc => (h.seen a hc haod).2 p mem_cons_self hnb
    have hv := h.visit a
    simp only [hfind]
    split
    · split
      · rfl
      next hcond =>
        have hinc : (s.port a).lspCanBeIncProcessed = true := by
          by_contra hno
          simp [hno] at hcond
        split
        · rfl
        split
        · exact hv
        split
        · rfl
        split
        · exact absurd (h.live a hals) ‹_›
        have hne : ∀ b ∈ s.created, (s.lsPortReinit od a p).port b = s.port b := by
          intro b hb
          refine (s.lsPortReinit_port od a p b).2.2 ?_
          rintro rfl
          exact hac hb
        refine ⟨(h.ports.reinit haod hac hinc).update hals hac, h.live.reinit od a p,
          hv.nodup, hv.names, fun b hb hbod => ?_, fun b hb => ?_⟩
        · simp only [hne b hb]
          exact hv.seen b hb hbod
        · simp only [hne b hb]
          exact h.later b hb
    · exact hv

/-- While the ports are looked for that the switch had: those ahead are still there, and a port
    that was created was visited. -/
structure GoneLoop (names : List String) (later : List ℕ) (od : ℕ) (visited : Finset ℕ)
    (as : List ℕ) (s : Northd) : Prop where
  ports : Ports names s
  live : s.AllLive
  nodup : as.Nodup
  ahead : ∀ a ∈ as, a ∈ s.odPorts od
  seen : ∀ a ∈ s.created, a ∈ s.odPorts od → a ∈ visited
  later : ∀ a ∈ s.created, (s.port a).od ∉ later

theorem Ports.remove (h : Ports names s) (ha : a ∈ s.odPorts od) (hc : a ∉ s.created)
    (hinc : (s.port a).lspCanBeIncProcessed = true) : Ports names { s with
        deleted := insert a s.deleted
        updated := s.updated.erase a
        lsPorts := s.lsPorts.filter (· ≠ a)
        odPorts := Function.update s.odPorts od ((s.odPorts od).filter (· ≠ a))
        removed := insert (s.port a).sb s.removed } := by
  obtain ⟨hals, haod⟩ := h.od od a ha
  have hmem : ∀ {b}, b ∈ s.lsPorts.filter (· ≠ a) ↔ b ∈ s.lsPorts ∧ b ≠ a := by
    simp
  have hod : ∀ ls b, b ∈ Function.update s.odPorts od ((s.odPorts od).filter (· ≠ a)) ls →
      b ∈ s.odPorts ls ∧ b ≠ a := by
    intro ls b hb
    by_cases hls : ls = od
    · subst hls
      simpa using hb
    · rw [update_of_ne hls] at hb
      refine ⟨hb, ?_⟩
      rintro rfl
      exact hls ((h.od ls b hb).2.symm.trans haod)
  constructor
  case ls =>
    intro b hb
    exact { h.ls b (hmem.1 hb).1 with }
  case lr =>
    intro b hb
    obtain ⟨hlt, hls, hk⟩ := h.lr b hb
    exact ⟨hlt, fun hin => hls (hmem.1 hin).1, hk⟩
  case inj => exact fun b hb c hc hbc => h.inj b (hmem.1 hb).1 c (hmem.1 hc).1 hbc
  case od =>
    intro ls b hb
    obtain ⟨hb, hba⟩ := hod ls b hb
    exact ⟨hmem.2 ⟨(h.od ls b hb).1, hba⟩, (h.od ls b hb).2⟩
  case odNodup =>
    exact (Function.forall_update_iff s.odPorts fun _ l => l.Nodup).2
      ⟨(h.odNodup od).filter _, fun ls _ => h.odNodup ls⟩
  case router =>
    intro ls b hb
    obtain ⟨hbls, hbinc⟩ := h.router ls b hb
    refine ⟨hmem.2 ⟨hbls, ?_⟩, hbinc⟩
    rintro rfl
    rw [hinc] at hbinc
    cases hbinc
  case freed => exact fun b hb => ⟨(h.freed b hb).1, fun hin => (h.freed b hb).2 (hmem.1 hin).1⟩
  case removed =>
    intro r hr
    rcases Finset.mem_insert.1 hr with rfl | hr
    · exact (h.ls a hals).row
    · exact h.removed r hr
  case created =>
    intro b hb
    refine ⟨hmem.2 ⟨(h.created b hb).1, ?_⟩, (h.created b hb).2⟩
    rintro rfl
    exact hc hb
  case updated =>
    intro b hb
    obtain ⟨hba, hb⟩ := Finset.mem_erase.1 hb
    exact ⟨hmem.2 ⟨(h.updated b hb).1, hba⟩, (h.updated b hb).2⟩
  case deleted =>
    intro b hb
    rcases Finset.mem_insert.1 hb with rfl | hb
    · refine ⟨(h.ls b hals).bound, fun hin => (hmem.1 hin).2 rfl, fun hlr => (h.lr b hlr).2.1 hals,
        fun hfr => (h.freed b hfr).2 hals, (h.ls b hals).lsp⟩
    · obtain ⟨hlt, hls, hlr, hfr, hnb⟩ := h.deleted b hb
      exact ⟨hlt, fun hin => hls (hmem.1 hin).1, hlr, hfr, hnb⟩

theorem GoneLoop.handleGone {visited : Finset ℕ} {as : List ℕ}
    (h : GoneLoop names later od visited (a :: as) s) :
    Ends Falls (GoneLoop names later od visited as) (Northd.handleGone inp od visited s a) := by
  obtain ⟨hnot, hnodup⟩ := nodup_cons.1 h.nodup
  have hod := h.ahead a mem_cons_self
  have hals := (h.ports.od od a hod).1
  unfold Northd.handleGone
  split
  · exact { h with nodup := hnodup, ahead := (forall_mem_cons.1 h.ahead).2 }
  next hvisited =>
    have hc : a ∉ s.created := fun hc => hvisited (h.seen a hc hod)
    split
    · rfl
    rename_i hinc
    split
    · rfl
    split
    · exact absurd (h.live a hals) ‹_›
    have hin : ∀ {b}, b ∈ Function.update s.odPorts od ((s.odPorts od).filter (· ≠ a)) od ↔
        b ∈ s.odPorts od ∧ b ≠ a := by
      simp
    refine ⟨h.ports.remove hod hc (by simpa using hinc), fun b hb => ?_, hnodup, fun b hb => ?_,
      fun b hb hbod => h.seen b hb (hin.1 hbod).1, h.later⟩
    · -- another port has another row
      obtain ⟨hbls, hba⟩ : b ∈ s.lsPorts ∧ b ≠ a := by simpa using hb
      refine ⟨(h.live b hbls).1, fun hr => ?_⟩
      rcases Finset.mem_insert.1 hr with hr | hr
      · exact hba (h.ports.inj b hbls a hals hr)
      · exact (h.live b hbls).2 hr
    · refine hin.2 ⟨h.ahead b (mem_cons_of_mem a hb), ?_⟩
      rintro rfl
      exact hnot hb

/-! ## The switches -/

/-- While the switches are handled: what was created is of those that were handled. -/
structure SwitchLoop (names : List String) (lss : List TrackedLs) (s : Northd) : Prop where
  ports : Ports names s
  live : s.AllLive
  nodup : (lss.map (·.row)).Nodup
  lsps : ∀ ls ∈ lss, (ls.ports.map (·.row)).Nodup ∧ ∀ p ∈ ls.ports, p.name ∉ names
  later : ∀ a ∈ s.created, (s.port a).od ∉ lss.map (·.row)

theorem Ports.updateRouterPorts (h : Ports names s) (od : ℕ) :
    Ports names { s with updated := s.updated ∪ (s.routerPorts od).toFinset } :=
  { h with
    ls := fun b hb => { h.ls b hb with }
    updated := fun a ha => by
      rcases Finset.mem_union.1 ha with ha | ha
      · exact h.updated a ha
      · obtain ⟨hin, hinc⟩ := h.router od a (mem_toFinset.1 ha)
        refine ⟨hin, fun hc => ?_⟩
        rw [(h.created a hc).2] at hinc
        cases hinc }

theorem SwitchLoop.handleLspChanges {ls : TrackedLs} {lss : List TrackedLs}
    (h : SwitchLoop names (ls :: lss) s) :
    Ends Falls (SwitchLoop names lss) (s.handleLspChanges inp ls) := by
  obtain ⟨hnot, hnodup⟩ := nodup_cons.1 h.nodup
  obtain ⟨hports, hnames⟩ := h.lsps ls mem_cons_self
  have hrest := (forall_mem_cons.1 h.lsps).2
  unfold Northd.handleLspChanges
  split
  · exact ⟨h.ports, h.live, hnodup, hrest, fun a ha hin => h.later a ha (mem_cons_of_mem _ hin)⟩
  -- nothing is created yet for this switch
  have hstart : PortLoop names (lss.map (·.row)) ls.row ls.ports (s, ∅) := by
    refine ⟨h.ports, h.live, hports, hnames, fun a ha hod => ?_,
      fun a ha hin => h.later a ha (mem_cons_of_mem _ hin)⟩
    refine absurd ?_ (h.later a ha)
    rw [(h.ports.od ls.row a hod).2]
    exact mem_cons_self
  refine Ends.bind (Ends.foldlM (fun _ _ _ hs => hs.handlePort hnot) ls.ports (s, ∅) hstart) ?_
  rintro ⟨s₁, visited⟩ h1
  have hgone : GoneLoop names (lss.map (·.row)) ls.row visited (s₁.odPorts ls.row) s₁ :=
    ⟨h1.ports, h1.live, h1.ports.odNodup _, fun a ha => ha, fun a ha hod => (h1.seen a ha hod).1,
      h1.later⟩
  refine Ends.bind (Ends.foldlM (fun _ _ _ hs => hs.handleGone) _ s₁ hgone) ?_
  intro s₂ h2
  split
  · exact ⟨h2.ports.updateRouterPorts ls.row, h2.live, hnodup, hrest, h2.later⟩
  · exact ⟨h2.ports, h2.live, hnodup, hrest, h2.later⟩

theorem SwitchLoop.handleLs {ls : TrackedLs} {lss : List TrackedLs}
    (h : SwitchLoop names (ls :: lss) s)
    : Ends Falls (SwitchLoop names lss) (s.handleLs inp ls) := by
  unfold Northd.handleLs
  split
  · rfl
  · split
    · rfl
    · split
      · rfl
      · exact h.handleLspChanges

theorem Ports.consistent (h : Ports names s) (hlive : s.AllLive) : s.Consistent := by
  refine ⟨{ h with ls := fun a ha => ?_, lr := fun b hb => ?_ }, hlive⟩
  · obtain ⟨h1, h2, h3, h4, h5⟩ := h.ls a ha
    refine ⟨h1, fun hin => h2 ?_, h3, h4, h5⟩
    obtain ⟨b, hb, hk⟩ := mem_map.1 hin
    exact hk ▸ (h.lr b hb).2.2
  · obtain ⟨hlt, hls, -⟩ := h.lr b hb
    exact ⟨hlt, hls, mem_map_of_mem hb⟩

/-- **One iteration.** The two handlers keep the invariant or have everything computed anew. -/
theorem Consistent.iterate (h : s.Consistent) (hv : s.Valid inp) (hr : s.Regular inp) :
    Ends Falls Consistent (s.iterate inp) := by
  refine Ends.bind (h.handlePbs hv hr) ?_
  rintro s₁ ⟨hports, hlive, hcreated⟩
  have hstart : SwitchLoop (s.lrPorts.map fun b => (s.port b).key) inp.switches s₁ := by
    refine ⟨hports, hlive, hv.switches, fun ls hls => ⟨hv.ports ls hls, fun p hp hin => ?_⟩,
      fun a ha => by simp [hcreated] at ha⟩
    obtain ⟨b, hb, hk⟩ := mem_map.1 hin
    exact hr.names ls hls p hp b hb hk.symm
  have hloop := Ends.foldlM (f := Northd.handleLs inp)
    (I := SwitchLoop (s.lrPorts.map fun b => (s.port b).key)) (fun _ _ _ hs => hs.handleLs) _ s₁
    hstart
  exact Ends.mono hloop fun s' hs' => hs'.ports.consistent hs'.live

/-! ## The tracked ports -/

/-- What the nodes that northd leaves the tracked ports to rely on. -/
structure TrackedOk (s : Northd) : Prop where
  createdUpdated : Disjoint s.created s.updated
  createdDeleted : Disjoint s.created s.deleted
  updatedDeleted : Disjoint s.updated s.deleted
  alive : ∀ a ∈ s.created ∪ s.updated, a ∈ s.lsPorts ∧ s.Live (s.port a).sb
  gone : ∀ a ∈ s.deleted, a ∉ s.lsPorts ∧ a ∉ s.lrPorts ∧ (∀ od, a ∉ s.odPorts od) ∧
    (∀ od, a ∉ s.routerPorts od) ∧ a ∉ s.freed
  lflow : s.lflowHandleNorthdPortChanges = .ok ()
  sync : s.syncPbsForNorthdChangedOvnPorts = .ok ()

theorem Consistent.trackedOk (h : s.Consistent) : TrackedOk s := by
  obtain ⟨hp, hlive⟩ := h
  have hcreated : ∀ a ∈ s.created, a ∈ s.lsPorts := fun a ha => (hp.created a ha).1
  have hupdated : ∀ a ∈ s.updated, a ∈ s.lsPorts := fun a ha => (hp.updated a ha).1
  have hgone : ∀ a ∈ s.deleted, a ∉ s.lsPorts := fun a ha => (hp.deleted a ha).2.1
  have huse : ∀ a ∈ s.lsPorts, a ∉ s.freed ∧ (s.port a).nbsp.isSome ∧ s.Live (s.port a).sb :=
    fun a ha => ⟨fun hf => (hp.freed a hf).2 ha, (hp.ls a ha).lsp, hlive a ha⟩
  constructor
  case createdUpdated => exact Finset.disjoint_right.2 fun a ha => (hp.updated a ha).2
  case createdDeleted => exact Finset.disjoint_left.2 fun a ha hd => hgone a hd (hcreated a ha)
  case updatedDeleted => exact Finset.disjoint_left.2 fun a ha hd => hgone a hd (hupdated a ha)
  case alive =>
    intro a ha
    have hin : a ∈ s.lsPorts := (Finset.mem_union.1 ha).elim (hcreated a) (hupdated a)
    exact ⟨hin, hlive a hin⟩
  case sync =>
    exact if_pos fun a ha => huse a ((Finset.mem_union.1 ha).elim (hcreated a) (hupdated a))
  case gone =>
    intro a ha
    obtain ⟨-, hls, hlr, hfreed, -⟩ := hp.deleted a ha
    exact ⟨hls, hlr, fun od hin => hls (hp.od od a hin).1, fun od hin => hls (hp.router od a hin).1,
      hfreed⟩
  case lflow =>
    refine if_pos fun a ha => ?_
    simp only [Finset.mem_union] at ha
    obtain (hd | hu) | hc := ha
    · exact (hp.deleted a hd).2.2.2
    · exact (huse a (hupdated a hu)).imp_right And.left
    · exact (huse a (hcreated a hc)).imp_right And.left

end

/-- **The tracked ports are alive.** After every iteration in which both handlers return true,
    the tracked sets are disjoint and name no dead port, so that
    `lflow_handle_northd_port_changes` and `sync_pbs_for_northd_changed_ovn_ports` run through; and
    the handlers themselves never write a row that is not there. -/
theorem tracked_alive {s₀ : Northd} (h₀ : s₀.Consistent) {s : Northd}
    (h : (iterations s₀).Reached (fun s inp => s.Valid inp ∧ s.Regular inp) s) :
    TrackedOk s ∧ ∀ inp, s.Valid inp → s.Regular inp → s.iterate inp ≠ .error .aborted := by
  have hs : s.Consistent := by
    refine h.invariant h₀ fun s inp s' hs hin hn => ?_
    exact (hs.iterate hin.1 hin.2).of_toOption hn
  exact ⟨hs.trackedOk, fun inp hv hr => (hs.iterate hv hr).ne_error (by simp)⟩

/-- A switch whose only port is a router port, just after a recompute has inserted its row. -/
def routerSwitch : Northd where
  port _ := ⟨"rp", some 0, 0, 0, false⟩
  lsPorts := [0]
  lrPorts := []
  lsDatapaths := [0]
  odPorts od := if od = 0 then [0] else []
  routerPorts od := if od = 0 then [0] else []
  created := ∅
  updated := ∅
  deleted := ∅
  freed := ∅
  sbRows := ∅
  inserted := {0}
  removed := ∅
  logicalPort _ := "rp"
  nextPort := 1
  nextRow := 1

/-- The switch gains a port; the row of the other one was received with the flags `isNew` and
    `isDeleted`. -/
def gainsPort (isDeleted : Bool) : Input where
  sbRows := if isDeleted then ∅ else {0}
  logicalPort _ := "rp"
  portBindings := [⟨0, true, isDeleted, true, false⟩]
  switches := [⟨0, false, false, true, true,
    [⟨0, "rp", false, false, false, false, true⟩, ⟨1, "vm1", true, true, false, false, true⟩]⟩]
  checkLspIsUp := false
  svcMonitorLsps := []

theorem routerSwitch_consistent : routerSwitch.Consistent := by
  have hod : ∀ od, ∀ a ∈ (if od = 0 then [0] else []), a = 0 ∧ od = 0 := by simp
  refine ⟨⟨fun a ha => ?_, fun b hb => (nomatch hb), fun a ha b hb _ => ?_, fun ls a ha => ?_,
    fun ls => ?_, fun ls a ha => ?_, fun a ha => (nomatch notMem_empty a ha),
    fun a ha => (nomatch notMem_empty a ha), fun a ha => (nomatch notMem_empty a ha),
    fun a ha => (nomatch notMem_empty a ha), fun a ha => (nomatch notMem_empty a ha)⟩,
    fun a _ => ⟨.inr (mem_singleton_self 0), notMem_empty 0⟩⟩
  · obtain rfl := mem_singleton.1 ha
    exact ⟨by decide, not_mem_nil, rfl, by decide, rfl⟩
  · rw [mem_singleton.1 ha, mem_singleton.1 hb]
  · obtain ⟨rfl, rfl⟩ := hod ls a ha
    exact ⟨mem_singleton_self 0, rfl⟩
  · show (if ls = 0 then [0] else []).Nodup
    split <;> simp
  · obtain ⟨rfl, rfl⟩ := hod ls a ha
    exact ⟨mem_singleton_self 0, rfl⟩

theorem routerSwitch_valid (isDeleted : Bool) : routerSwitch.Valid (gainsPort isDeleted) := by
  have hrow : ∀ r, routerSwitch.Live r → r = 0 := by
    rintro r ⟨hr | hr, -⟩
    · exact absurd hr (notMem_empty r)
    · exact mem_singleton.1 hr
  refine ⟨fun r r' hr hr' _ => (hrow r hr).trans (hrow r' hr').symm, fun pb hpb => ?_,
    fun pb hpb => ?_, fun r hr _ => ⟨_, mem_singleton_self _, (hrow r hr).symm⟩, ?_,
    fun ls hls => ?_⟩
  · obtain rfl := mem_singleton.1 hpb
    exact ⟨fun _ => notMem_empty 0, fun _ => rfl⟩
  · obtain rfl := mem_singleton.1 hpb
    cases isDeleted <;> decide
  · exact nodup_singleton 0
  · obtain rfl := mem_singleton.1 hls
    decide

/-- A row that was inserted and deleted again before it was received is taken for a new one: the
    router port is tracked as updated, and `sync_pb_for_lsp` writes its row. -/
theorem tracked_dead : ∃ (s₀ : Northd) (inp : Input) (s : Northd), s₀.Consistent ∧ s₀.Valid inp ∧
    s₀.iterate inp = .ok s ∧ 0 ∈ s.updated ∧ ¬ s.Live (s.port 0).sb ∧
    s.syncPbsForNorthdChangedOvnPorts = .error .aborted := by
  refine ⟨routerSwitch, gainsPort true, _, routerSwitch_consistent, routerSwitch_valid true, rfl,
    ?_, ?_, ?_⟩
  · decide
  · decide
  · rfl

theorem tracked_alive_routerSwitch : ∃ s, routerSwitch.iterate (gainsPort false) = .ok s ∧
    s.updated = {0} ∧ TrackedOk s := by
  have hr : routerSwitch.Regular (gainsPort false) := by
    refine ⟨fun pb hpb => ?_, fun r hr => rfl, fun ls hls p hp b hb => (nomatch hb)⟩
    obtain rfl := mem_singleton.1 hpb
    decide
  refine ⟨_, rfl, ?_, (tracked_alive routerSwitch_consistent
    (System.Reached.step .init ⟨routerSwitch_valid false, hr⟩ rfl)).1⟩
  decide

end Northd

end Ovn.LspTracking

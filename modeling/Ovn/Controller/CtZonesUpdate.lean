/-
  What the loops over the conntrack zones do to the zones of the users and to the bitmap.
-/
import Ovn.Controller.CtZones
import Ovn.Lib.Ends
import Ovn.Lib.Maps

namespace Ovn.CtZone

open Function (update update_of_ne update_self)
open List

/-! ## What is kept of a zone -/

/-- The zone that is restored for a user: a pending one, or the one in the bridge. -/
def Zones.recorded (s : Zones) (bridge : Option Simap) (u : String) : Option ℕ :=
  match s.pending.lookup u with
  | some e => if e.add then some e.zone else none
  | none => bridge.bind (AList.lookup u)

/-- The bit of a zone is set if it is reserved or somebody has it. -/
def Zones.Marked (s : Zones) : Prop :=
  ∀ x, s.bitmap x = true ↔ x = 0 ∨ ∃ u, s.current.lookup u = some x

def Zones.Recorded (bridge : Option Simap) (s : Zones) : Prop :=
  ∀ u x, s.current.lookup u = some x → s.recorded bridge u = some x

def Zones.Ranged (s : Zones) : Prop :=
  ∀ u x, s.current.lookup u = some x → 1 ≤ x ∧ x ≤ maxCtZones

section
variable {s : Zones} {bridge : Option Simap}

theorem recorded_addPending (bridge : Option Simap) (state : PendingState) (zone : ℕ) (add : Bool)
    (name u : String) :
    (s.addPendingCtZoneEntry state zone add name).recorded bridge u =
      if u = name then (if add then some zone else none) else s.recorded bridge u := by
  unfold Zones.recorded Zones.addPendingCtZoneEntry
  rw [lookup_insert_eq]
  by_cases h : u = name
  · rw [if_pos h, if_pos h]
  · rw [if_neg h, if_neg h]

section
variable (h : s.Recorded bridge) (state : PendingState) (name : String) (zone : ℕ)
    (bitmap : ℕ → Bool)
include h

theorem Zones.Recorded.put :
    Zones.Recorded bridge ⟨bitmap, (s.addPendingCtZoneEntry state zone true name).pending,
      s.current.insert name zone⟩ := by
  intro u x hu
  refine (recorded_addPending bridge state zone true name u).trans ?_
  rcases lookup_insert_iff.1 hu with ⟨hn, rfl⟩ | ⟨hn, hu⟩
  · exact if_pos hn
  · exact (if_neg hn).trans (h u x hu)

theorem Zones.Recorded.drop :
    Zones.Recorded bridge ⟨bitmap, (s.addPendingCtZoneEntry state zone false name).pending,
      s.current.erase name⟩ := by
  intro u x hu
  obtain ⟨hn, hu⟩ := lookup_erase_iff.1 hu
  exact (recorded_addPending bridge state zone false name u).trans ((if_neg hn).trans (h u x hu))

end

/-! ## Taking a free zone -/

/-- **`alloc_id_to_ct_zone`** takes the first free zone from the start on, or there is none. -/
theorem allocIdToCtZone_cases (name : String) {start : ℕ} (hstart : start ≤ maxCtZones + 1) :
    (s.allocIdToCtZone name start = (s, start) ∧
      ∀ x, start ≤ x → x ≤ maxCtZones → s.bitmap x = true) ∨
    ∃ zone, start ≤ zone ∧ zone ≤ maxCtZones ∧ s.bitmap zone = false ∧
      (∀ x, start ≤ x → x < zone → s.bitmap x = true) ∧
      s.allocIdToCtZone name start = (⟨update s.bitmap zone true,
        (s.addPendingCtZoneEntry .ofQueued zone true name).pending, s.current.insert name zone⟩,
          zone + 1) := by
  have hle := Bits.le_scan (fun z => !s.bitmap z) (maxCtZones + 1 - start) start
  have hub := Bits.scan_le (fun z => !s.bitmap z) (maxCtZones + 1 - start) start
  have hmiss : ∀ x, start ≤ x →
    x < Bits.scan (fun z => !s.bitmap z) (maxCtZones + 1 - start) start →
      s.bitmap x = true := by
    intro x h1 h2
    have := Bits.scan_miss (fun z => !s.bitmap z) _ _ x h1 h2
    simpa using this
  by_cases hend : Bits.scan (fun z => !s.bitmap z) (maxCtZones + 1 - start) start = maxCtZones + 1
  · refine .inl ⟨if_pos hend, fun x h1 h2 => hmiss x h1 ?_⟩
    omega
  · refine .inr ⟨_, hle, by omega, ?_, hmiss, if_neg hend⟩
    have := Bits.scan_hit (fun z => !s.bitmap z) (maxCtZones + 1 - start) start (by omega)
    simpa using this

variable {name : String} {zone : ℕ} {bitmap : ℕ → Bool}
    {pending : AList fun _ : String => PendingEntry}

theorem Zones.Marked.put (h : s.Marked) (hnew : s.current.lookup name = none) :
    Zones.Marked ⟨update s.bitmap zone true, pending, s.current.insert name zone⟩ := by
  intro x
  rw [update_true_iff, h x, exists_lookup_insert hnew, or_left_comm]

def Zones.Solo (s : Zones) (u : String) : Prop :=
  ∀ x, s.current.lookup u = some x → ∀ v, s.current.lookup v = some x → v = u

theorem Zones.Marked.drop (h : s.Marked) (hr : s.Ranged) (hz : s.current.lookup name = some zone)
    (hsolo : s.Solo name) : Zones.Marked ⟨update s.bitmap zone false, pending,
      s.current.erase name⟩ := by
  intro x
  dsimp only
  rw [update_false_iff, h x]
  constructor
  · rintro ⟨hx, rfl | ⟨u, hu⟩⟩
    · exact .inl rfl
    · refine .inr ⟨u, lookup_erase_iff.2 ⟨?_, hu⟩⟩
      rintro rfl
      exact hx (Option.some_inj.1 (hu.symm.trans hz))
  · rintro (rfl | ⟨u, hu⟩)
    · have := (hr name zone hz).1
      exact ⟨by omega, .inl rfl⟩
    · obtain ⟨hne, hu⟩ := lookup_erase_iff.1 hu
      refine ⟨?_, .inr ⟨u, hu⟩⟩
      rintro rfl
      exact hne (hsolo x hz u hu)

theorem Zones.Ranged.put (h : s.Ranged) (hz : 1 ≤ zone ∧ zone ≤ maxCtZones) :
    Zones.Ranged ⟨bitmap, pending, s.current.insert name zone⟩ := by
  intro u x hu
  rcases lookup_insert_iff.1 hu with ⟨-, rfl⟩ | ⟨-, hu⟩
  · exact hz
  · exact h u x hu

theorem Zones.Ranged.drop (h : s.Ranged) : Zones.Ranged ⟨bitmap, pending, s.current.erase name⟩ :=
  fun u x hu => h u x (lookup_erase_iff.1 hu).2

end

/-! ## The loops of `update_ct_zones` -/

theorem mem_keys_cons (r : SimapNode) (left : List SimapNode) (u : String) :
    u ∈ (r :: left).keys ↔ u = r.1 ∨ u ∈ left.keys := by
  rw [keys_cons, mem_cons]

section
variable {s : Zones} {bridge : Option Simap} {users : List String} {req : Simap}

/-- The loop that deletes, with the entries that are left: what has no user is gone, with its
    bit, and what nobody requests is noted. -/
structure Deleting (bridge : Option Simap) (users : List String) (req : Simap) (s : Zones)
    (left : List SimapNode) (t : Update) : Prop where
  nodup : left.NodupKeys
  listed : ∀ r ∈ left, s.current.lookup r.1 = some r.2
  current : ∀ u, t.zones.current.lookup u =
    if u ∈ users ∨ u ∈ left.keys then s.current.lookup u else none
  bitmap : ∀ x, t.zones.bitmap x = true ↔ s.bitmap x = true ∧
    ∀ u, s.current.lookup u = some x → u ∈ users ∨ u ∈ left.keys
  unreq : ∀ u x, t.unreq.lookup u = some x ↔
    (u ∈ users ∧ u ∉ left.keys) ∧ s.current.lookup u = some x ∧ req.lookup u = none
  unreqMap : ∀ x, t.unreqMap x = true ↔ ∃ u, t.unreq.lookup u = some x
  recorded : t.zones.Recorded bridge

variable {t : Update}

theorem Deleting.step {r : SimapNode} {left : List SimapNode}
    (h : Deleting bridge users req s (r :: left) t) :
    Deleting bridge users req s left (deleteUnused users req t r) := by
  obtain ⟨hnot, hnodup⟩ := nodupKeys_cons.1 h.nodup
  have hr := h.listed r mem_cons_self
  have hlisted : ∀ r ∈ left, s.current.lookup r.1 = some r.2 := (forall_mem_cons.1 h.listed).2
  have hkeys := mem_keys_cons r left
  unfold deleteUnused
  split
  next hgone =>
    refine ⟨hnodup, hlisted, fun u => ?_, fun x => ?_, fun u x => ?_, h.unreqMap,
      h.recorded.drop .ofQueued r.1 r.2 _⟩
    · change (t.zones.current.erase r.1).lookup u = _
      rw [lookup_erase_eq, h.current]
      by_cases hu : u = r.1
      · simp_all
      · simp_all
    · change update t.zones.bitmap r.2 false x = true ↔ _
      by_cases hx : x = r.2
      · subst hx
        rw [update_self]
        exact iff_of_false (by decide) fun hall => (hall.2 r.1 hr).elim hgone hnot
      · rw [update_of_ne hx, h.bitmap]
        refine and_congr_right fun _ => forall_congr' fun u => imp_congr_right fun hu =>
          or_congr_right ?_
        have hne : u ≠ r.1 := by
          rintro rfl
          exact hx (Option.some_inj.1 (hu.symm.trans hr))
        rw [hkeys, or_iff_right hne]
    · rw [h.unreq, hkeys]
      refine and_congr_left fun _ => and_congr_right fun hu => not_congr ?_
      rw [or_iff_right]
      rintro rfl
      exact hgone hu
  next hin =>
    have hin := not_not.1 hin
    -- the entry stays, whether it is noted or not
    have hstays : ∀ u, u ∈ users ∨ u ∈ (r :: left).keys ↔ u ∈ users ∨ u ∈ left.keys := by
      intro u
      rw [hkeys]
      constructor
      · rintro (hu | rfl | hu)
        exacts [.inl hu, .inl hin, .inr hu]
      · exact Or.imp_right .inr
    have hcurrent : ∀ u, t.zones.current.lookup u =
        if u ∈ users ∨ u ∈ left.keys then s.current.lookup u else none := fun u =>
      (h.current u).trans (if_congr (hstays u) rfl rfl)
    have hbitmap : ∀ x, t.zones.bitmap x = true ↔ s.bitmap x = true ∧
        ∀ u, s.current.lookup u = some x → u ∈ users ∨ u ∈ left.keys := by
      intro x
      rw [h.bitmap]
      exact and_congr_right fun _ => forall_congr' fun u => imp_congr_right fun _ => hstays u
    split
    · rename_i hreq
      have hnone : req.lookup r.1 = none := Option.isNone_iff_eq_none.1 hreq
      have hfree : t.unreq.lookup r.1 = none := Option.eq_none_iff_forall_ne_some.2 fun x hx =>
        ((h.unreq r.1 x).1 hx).1.2 ((hkeys r.1).2 (.inl rfl))
      refine ⟨hnodup, hlisted, hcurrent, hbitmap, fun u x => ?_, fun x => ?_, h.recorded⟩
      · rw [lookup_insert_eq]
        by_cases hu : u = r.1
        · subst hu
          rw [if_pos rfl, hr]
          exact ⟨fun hx => ⟨⟨hin, hnot⟩, hx ▸ rfl, hnone⟩, fun hx => hx.2.1⟩
        · rw [if_neg hu, h.unreq, hkeys, or_iff_right hu]
      · rw [update_true_iff, h.unreqMap, exists_lookup_insert hfree]
    · rename_i hreq
      refine ⟨hnodup, hlisted, hcurrent, hbitmap, fun u x => ?_, h.unreqMap, h.recorded⟩
      rw [h.unreq, hkeys]
      constructor
      · simp_all
      · rintro ⟨⟨hu, hn⟩, hx, hq⟩
        refine ⟨⟨hu, ?_⟩, hx, hq⟩
        rintro (rfl | hl)
        · rw [hq] at hreq
          exact hreq rfl
        · exact hn hl

theorem deleting_end (h : s.Recorded bridge) : Deleting bridge users req s []
    (s.current.entries.foldl (deleteUnused users req) ⟨s, fun _ => false, ∅⟩) := by
  refine foldl_left (fun r l t => Deleting.step) _ _ ⟨s.current.nodupKeys, fun r hr =>
    mem_entries_iff.1 hr, fun u => ?_, fun x => ?_, fun u x => ?_, fun x => ?_, h⟩
  · split
    · rfl
    next hu => exact AList.lookup_eq_none.2 fun hin => hu (.inr (AList.mem_keys.1 hin))
  · refine ⟨fun hx => ⟨hx, fun u hu => .inr ?_⟩, fun hx => hx.1⟩
    exact AList.mem_keys.1 (AList.lookup_isSome.1 (hu ▸ rfl))
  · refine ⟨nofun, fun ⟨⟨_, hn⟩, hx, _⟩ => absurd ?_ hn⟩
    exact AList.mem_keys.1 (AList.lookup_isSome.1 (hx ▸ rfl))
  · simp

def Served (req : Simap) (left : List SimapNode) (x : ℕ) : Prop :=
  ∃ w, req.lookup w = some x ∧ w ∉ left.keys

/-- No user that gives up a zone for another one gives up what is requested. -/
def Calm (req : Simap) (s : Zones) : Prop :=
  ∀ u x y, s.current.lookup u = some x → req.lookup u = some y → y ≠ x → ∀ w, req.lookup w ≠ some x

/-- The loop over the requests, with those that are left. -/
structure Serving (bridge : Option Simap) (req : Simap) (s : Zones) (left : List SimapNode)
    (t : Update) : Prop where
  nodup : left.NodupKeys
  listed : ∀ r ∈ left, req.lookup r.1 = some r.2
  served : ∀ u y, req.lookup u = some y → u ∉ left.keys → t.zones.current.lookup u = some y
  waiting : ∀ u ∈ left.keys, t.zones.current.lookup u = s.current.lookup u
  other : ∀ u, req.lookup u = none → ∀ x, t.zones.current.lookup u = some x ↔
    s.current.lookup u = some x ∧ ¬ Served req left x
  unreq : ∀ u x, t.unreq.lookup u = some x ↔ req.lookup u = none ∧ t.zones.current.lookup u = some x
  unreqMap : ∀ x, t.unreqMap x = true ↔ ∃ u, t.unreq.lookup u = some x
  set : ∀ x, Served req left x → t.zones.bitmap x = true
  bitmap : ∀ x, ¬ Served req left x → (t.zones.bitmap x = true ↔ s.bitmap x = true ∧
    ∀ u y, s.current.lookup u = some x → req.lookup u = some y → u ∉ left.keys → y = x)
  recorded : t.zones.Recorded bridge

theorem giveUp_spec (hmap : ∀ x, t.unreqMap x = true ↔ ∃ u, t.unreq.lookup u = some x) (zone : ℕ) :
    (giveUp t zone).zones.bitmap = t.zones.bitmap ∧
    (giveUp t zone).zones.pending = t.zones.pending ∧
    (∀ u, (giveUp t zone).zones.current.lookup u =
      if t.unreq.lookup u = some zone then none else t.zones.current.lookup u) ∧
    (∀ u, (giveUp t zone).unreq.lookup u =
      if t.unreq.lookup u = some zone then none else t.unreq.lookup u) ∧
    ∀ x, (giveUp t zone).unreqMap x = true ↔ ∃ u, (giveUp t zone).unreq.lookup u = some x := by
  have hgone : ∀ u, u ∈ (t.unreq.entries.filter fun r => r.2 = zone).map Sigma.fst ↔
      t.unreq.lookup u = some zone := by
    intro u
    constructor
    · intro hu
      obtain ⟨r, hr, rfl⟩ := mem_map.1 hu
      obtain ⟨hr, hz⟩ := mem_filter.1 hr
      exact mem_entries_iff.1 (of_decide_eq_true hz ▸ hr)
    · intro hu
      exact mem_map.2 ⟨⟨u, zone⟩, mem_filter.2 ⟨mem_entries_iff.2 hu, by simp⟩, rfl⟩
  unfold giveUp
  split
  next hset =>
    have hunreq : ∀ u, ((t.unreq.entries.filter fun r => r.2 = zone).foldl (fun m r => m.erase r.1)
        t.unreq).lookup u = if t.unreq.lookup u = some zone then none else t.unreq.lookup u :=
          fun u =>
      (lookup_foldl_erase _ _ u).trans (if_congr (hgone u) rfl rfl)
    refine ⟨rfl, rfl, fun u => (lookup_foldl_erase _ _ u).trans (if_congr (hgone u) rfl rfl),
      hunreq,
      fun x => ?_⟩
    dsimp only
    by_cases hx : x = zone
    · simp_all
    · rw [update_of_ne hx, hmap]
      refine exists_congr fun u => ?_
      rw [hunreq]
      split
      · rename_i hu
        rw [hu]
        exact iff_of_false (fun he => hx (Option.some_inj.1 he).symm) nofun
      · exact .rfl
  next hset => simp_all

/-- The user of a request has its zone; the bit of the one it had before is cleared. -/
theorem serveRequest_spec (t : Update) (node : SimapNode)
    (hrec : (giveUp t node.2).zones.Recorded bridge) :
    ∃ pending bitmap, serveRequest t node = { giveUp t node.2 with
        zones := ⟨update bitmap node.2 true, pending,
          (giveUp t node.2).zones.current.insert node.1 node.2⟩ } ∧
      Zones.Recorded bridge ⟨update bitmap node.2 true, pending,
        (giveUp t node.2).zones.current.insert node.1 node.2⟩ ∧
      ∀ x, bitmap x = if (giveUp t node.2).zones.current.lookup node.1 = some x ∧
        x ≠ node.2 then false
        else (giveUp t node.2).zones.bitmap x := by
  have hput := fun bitmap => hrec.put .ofQueued node.1 node.2 bitmap
  unfold serveRequest
  dsimp only
  cases hcur : (giveUp t node.2).zones.current.lookup node.1 with
  | none =>
    refine ⟨_, (giveUp t node.2).zones.bitmap, rfl, hput _, fun x => ?_⟩
    rw [if_neg]
    rintro ⟨he, -⟩
    cases he
  | some data =>
    by_cases hd : data = node.2
    · refine ⟨(giveUp t node.2).zones.pending, (giveUp t node.2).zones.bitmap, ?_, ?_, fun x => ?_⟩
      · dsimp only
        rw [if_neg (not_not.2 hd)]
        rfl
      · intro u x hu
        rcases lookup_insert_iff.1 hu with ⟨rfl, rfl⟩ | ⟨-, hu⟩
        · exact hrec _ _ (hd ▸ hcur)
        · exact hrec u x hu
      · simp_all [if_neg]
    · refine ⟨_, update (giveUp t node.2).zones.bitmap data false, ?_, hput _, fun x => ?_⟩
      · dsimp only
        rw [if_pos hd]
        rfl
      · by_cases hx : x = data
        · simp [*]
        · rw [update_of_ne hx, if_neg fun he => hx (Option.some_inj.1 he.1).symm]

/-- What a request does: its user has the zone, and the bit of the one it had before is cleared;
    those that have the zone without a request lose it. -/
structure Serves (t : Update) (node : SimapNode) (t' : Update) : Prop where
  current : ∀ u, t'.zones.current.lookup u = if u = node.1 then some node.2 else
    if t.unreq.lookup u = some node.2 then none else t.zones.current.lookup u
  unreq : ∀ u, t'.unreq.lookup u = if t.unreq.lookup u = some node.2 then none else t.unreq.lookup u
  unreqMap : ∀ x, t'.unreqMap x = true ↔ ∃ u, t'.unreq.lookup u = some x
  bitmap : ∀ x, t'.zones.bitmap x = if x = node.2 then true else
    if t.zones.current.lookup node.1 = some x then false else t.zones.bitmap x

theorem serves_serveRequest {node : SimapNode}
    (hmap : ∀ x, t.unreqMap x = true ↔ ∃ u, t.unreq.lookup u = some x)
    (hrec : t.zones.Recorded bridge)
    (hnode : t.unreq.lookup node.1 = none) :
    Serves t node (serveRequest t node) ∧ (serveRequest t node).zones.Recorded bridge := by
  obtain ⟨hbit, hpend, hcur, hunreq, hmap'⟩ := giveUp_spec hmap node.2
  have hrec' : (giveUp t node.2).zones.Recorded bridge := by
    intro u x hu
    rw [hcur] at hu
    split at hu
    · cases hu
    · unfold Zones.recorded
      rw [hpend]
      exact hrec u x hu
  have hold : (giveUp t node.2).zones.current.lookup node.1 = t.zones.current.lookup node.1 := by
    rw [hcur, hnode]
    exact if_neg nofun
  obtain ⟨pending, bitmap, heq, hput, hbits⟩ := serveRequest_spec t node hrec'
  rw [heq]
  refine ⟨⟨fun u => ?_, hunreq, hmap', fun x => ?_⟩, hput⟩
  · rw [← hcur]
    exact lookup_insert_eq _ u node.1 node.2
  · dsimp only
    by_cases hx : x = node.2
    · rw [hx, update_self, if_pos rfl]
    · rw [update_of_ne hx, if_neg hx, hbits, hold, hbit]
      exact if_congr (and_iff_left hx) rfl rfl

section
variable {r : SimapNode} {left : List SimapNode} {t' : Update}

theorem served_iff (hr : req.lookup r.1 = some r.2) (hnot : r.1 ∉ left.keys) (x : ℕ) :
    Served req left x ↔ x = r.2 ∨ Served req (r :: left) x := by
  constructor
  · rintro ⟨w, hw, hl⟩
    by_cases hwr : w = r.1
    · rw [hwr, hr] at hw
      exact .inl (Option.some_inj.1 hw).symm
    · exact .inr ⟨w, hw, fun hin => ((mem_keys_cons r left w).1 hin).elim hwr hl⟩
  · rintro (rfl | ⟨w, hw, hl⟩)
    · exact ⟨r.1, hr, hnot⟩
    · exact ⟨w, hw, fun hin => hl ((mem_keys_cons r left w).2 (.inr hin))⟩

variable (h : Serving bridge req s (r :: left) t) (hs : Serves t r t')
include h hs

theorem Serving.current_of_requested {u : String} {y : ℕ} (hu : req.lookup u = some y) :
    t'.zones.current.lookup u = if u = r.1 then some r.2 else t.zones.current.lookup u := by
  rw [hs.current]
  refine if_congr .rfl rfl (if_neg fun hq => ?_)
  rw [((h.unreq u r.2).1 hq).1] at hu
  cases hu

theorem Serving.current_of_unrequested {u : String} (hu : req.lookup u = none) :
    t'.zones.current.lookup u = if t.unreq.lookup u = some r.2 then none
      else t.zones.current.lookup u := by
  rw [hs.current]
  refine if_neg ?_
  rintro rfl
  rw [h.listed r mem_cons_self] at hu
  cases hu

theorem Serving.other_serves {u : String} (hu : req.lookup u = none) (x : ℕ) :
    t'.zones.current.lookup u = some x ↔ s.current.lookup u = some x ∧ ¬ Served req left x := by
  rw [h.current_of_unrequested hs hu, served_iff (h.listed r mem_cons_self)
    (nodupKeys_cons.1 h.nodup).1]
  split
  next hq =>
    refine iff_of_false nofun ?_
    rintro ⟨hsx, hn⟩
    have hsr := ((h.other u hu r.2).1 ((h.unreq u r.2).1 hq).2).1
    exact hn (.inl (Option.some_inj.1 (hsx.symm.trans hsr)))
  next hq =>
    rw [h.other u hu]
    constructor
    · rintro ⟨hsx, hn⟩
      refine ⟨hsx, ?_⟩
      rintro (rfl | hx)
      · exact hq ((h.unreq u r.2).2 ⟨hu, (h.other u hu r.2).2 ⟨hsx, hn⟩⟩)
      · exact hn hx
    · exact fun hx => ⟨hx.1, fun hn => hx.2 (.inr hn)⟩

theorem Serving.unreq_serves (u : String) (x : ℕ) :
    t'.unreq.lookup u = some x ↔ req.lookup u = none ∧ t'.zones.current.lookup u = some x := by
  have hnone : t'.unreq.lookup u = some x → req.lookup u = none := by
    intro hu
    rw [hs.unreq] at hu
    split at hu
    · cases hu
    · exact ((h.unreq u x).1 hu).1
  rw [← and_iff_right_of_imp hnone]
  refine and_congr_right fun hu => ?_
  rw [hs.unreq, h.current_of_unrequested hs hu]
  split
  · exact .rfl
  · exact (h.unreq u x).trans (and_iff_right hu)

/-- What the user of the request had before is what it had at the start. -/
theorem Serving.bitmap_serves {x : ℕ} (hx : x ≠ r.2) : t'.zones.bitmap x =
    if s.current.lookup r.1 = some x then false else t.zones.bitmap x := by
  rw [hs.bitmap, if_neg hx, h.waiting r.1 ((mem_keys_cons r left r.1).2 (.inl rfl))]

theorem Serving.clear_serves {x : ℕ} (hx : ¬ Served req left x) :
    t'.zones.bitmap x = true ↔ s.bitmap x = true ∧
      ∀ u y, s.current.lookup u = some x → req.lookup u = some y → u ∉ left.keys → y = x := by
  have hr := h.listed r mem_cons_self
  have hnot := (nodupKeys_cons.1 h.nodup).1
  rw [served_iff hr hnot, not_or] at hx
  rw [h.bitmap_serves hs hx.1]
  split
  next hu =>
    refine iff_of_false (by decide) fun hall => ?_
    exact hx.1 (hall.2 r.1 r.2 hu hr hnot).symm
  next hu =>
    rw [h.bitmap x hx.2]
    refine and_congr_right fun _ => forall₂_congr fun u y => imp_congr_right fun hsu =>
      imp_congr_right fun _ => ?_
    rw [mem_keys_cons, or_iff_right]
    rintro rfl
    exact hu hsu

end

theorem Serving.step {r : SimapNode} {left : List SimapNode} (hcalm : Calm req s)
    (h : Serving bridge req s (r :: left) t) : Serving bridge req s left (serveRequest t r) := by
  obtain ⟨hnot, hnodup⟩ := nodupKeys_cons.1 h.nodup
  have hr := h.listed r mem_cons_self
  have hkeys := mem_keys_cons r left
  have hnode : t.unreq.lookup r.1 = none := by
    refine Option.eq_none_iff_forall_ne_some.2 fun x hx => ?_
    rw [((h.unreq r.1 x).1 hx).1] at hr
    cases hr
  obtain ⟨hs, hrec⟩ := serves_serveRequest h.unreqMap h.recorded hnode
  refine ⟨hnodup, (forall_mem_cons.1 h.listed).2, fun u y hu hl => ?_, fun u hu => ?_,
    fun u hu => h.other_serves hs hu, h.unreq_serves hs, hs.unreqMap, fun x hx => ?_,
    fun x => h.clear_serves hs, hrec⟩
  · rw [h.current_of_requested hs hu]
    split
    next hur => rw [← hr, ← hur, hu]
    next hur => exact h.served u y hu fun hin => ((hkeys u).1 hin).elim hur hl
  · obtain ⟨r', hr', rfl⟩ := mem_map.1 hu
    rw [h.current_of_requested hs (h.listed r' (mem_cons_of_mem r hr')),
      if_neg (ne_of_mem_of_not_mem hu hnot)]
    exact h.waiting _ ((hkeys _).2 (.inr hu))
  · by_cases hxr : x = r.2
    · rw [hs.bitmap, if_pos hxr]
    rw [h.bitmap_serves hs hxr, if_neg]
    · exact h.set x (((served_iff hr hnot x).1 hx).resolve_left hxr)
    · -- what the user had before is not requested by anybody
      intro hu
      obtain ⟨w, hw, -⟩ := hx
      exact hcalm r.1 x r.2 hu hr (Ne.symm hxr) w hw

theorem shared_put (hm : s.Marked) {name : String} {zone : ℕ} (hfree : s.bitmap zone = false)
    {u v : String} {x : ℕ} (huv : u ≠ v) (hu : (s.current.insert name zone).lookup u = some x)
    (hv : (s.current.insert name zone).lookup v = some x) :
    s.current.lookup u = some x ∧ s.current.lookup v = some x := by
  have hnone : ∀ w, s.current.lookup w ≠ some zone := by
    intro w hw
    have := (hm zone).2 (.inr ⟨w, hw⟩)
    rw [hfree] at this
    cases this
  rcases lookup_insert_iff.1 hu with ⟨rfl, rfl⟩ | ⟨-, hu'⟩ <;>
    rcases lookup_insert_iff.1 hv with ⟨rfl, h⟩ | ⟨-, hv'⟩
  · exact absurd rfl huv
  · exact absurd hv' (hnone v)
  · exact absurd (h ▸ hu') (hnone u)
  · exact ⟨hu', hv'⟩

/-- The loop that gives every user a zone, with the users that are left. -/
structure Assigning (bridge : Option Simap) (users : List String) (s : Zones) (left : List String)
    (p : Zones × ℕ) : Prop where
  subset : ∀ u ∈ left, u ∈ users
  kept : ∀ u x, s.current.lookup u = some x → p.1.current.lookup u = some x
  fresh : ∀ u v x, u ≠ v → p.1.current.lookup u = some x → p.1.current.lookup v = some x →
    s.current.lookup u = some x ∧ s.current.lookup v = some x
  marked : p.1.Marked
  ranged : p.1.Ranged
  recorded : p.1.Recorded bridge
  held : ∀ u x, p.1.current.lookup u = some x → u ∈ users
  start : 1 ≤ p.2 ∧ p.2 ≤ maxCtZones + 1
  below : ∀ x, 1 ≤ x → x < p.2 → p.1.bitmap x = true
  assigned : ∀ u ∈ users, u ∈ left ∨ (p.1.current.lookup u).isSome ∨
    ∀ x, 1 ≤ x → x ≤ maxCtZones → p.1.bitmap x = true

theorem Assigning.step {user : String} {left : List String} {p : Zones × ℕ}
    (h : Assigning bridge users s (user :: left) p) :
    Assigning bridge users s left (assignZone p user) := by
  have hsubset : ∀ u ∈ left, u ∈ users := (forall_mem_cons.1 h.subset).2
  unfold assignZone
  split
  next hsome =>
    refine { h with subset := hsubset, assigned := fun u hu => ?_ }
    rcases h.assigned u hu with hin | hdone
    · rcases mem_cons.1 hin with rfl | hin
      · exact .inr (.inl hsome)
      · exact .inl hin
    · exact .inr hdone
  next hnone =>
    have hnone : p.1.current.lookup user = none := Option.not_isSome_iff_eq_none.1 hnone
    rcases allocIdToCtZone_cases user h.start.2 with ⟨heq, hfull⟩ |
      ⟨zone, hle, hmax, hfree, hmiss, heq⟩
    · rw [heq]
      have hall : ∀ x, 1 ≤ x → x ≤ maxCtZones → p.1.bitmap x = true := fun x h1 h2 =>
        (Nat.lt_or_ge x p.2).elim (h.below x h1) fun hx => hfull x hx h2
      exact { h with subset := hsubset, assigned := fun u _ => .inr (.inr hall) }
    · rw [heq]
      have hbit : ∀ x, p.1.bitmap x = true → update p.1.bitmap zone true x = true := fun x hx =>
        update_true_iff.2 (.inr hx)
      have hlookup : ∀ u x, p.1.current.lookup u = some x →
          (p.1.current.insert user zone).lookup u = some x := by
        refine fun u x hu => lookup_insert_iff.2 (.inr ⟨?_, hu⟩)
        rintro rfl
        cases hnone.symm.trans hu
      refine
        { subset := hsubset
          kept := fun u x hu => hlookup u x (h.kept u x hu)
          fresh := fun u v x huv hu hv => ?_
          marked := h.marked.put hnone
          ranged := h.ranged.put ⟨Nat.le_trans h.start.1 hle, hmax⟩
          recorded := h.recorded.put _ _ _ _
          held := fun u x hu => ?_
          start := ⟨Nat.le_add_left 1 zone, Nat.succ_le_succ hmax⟩
          below := fun x h1 h2 => ?_
          assigned := fun u hu => ?_ }
      · obtain ⟨hu, hv⟩ := shared_put h.marked hfree huv hu hv
        exact h.fresh u v x huv hu hv
      · rcases lookup_insert_iff.1 hu with ⟨rfl, -⟩ | ⟨-, hu⟩
        · exact h.subset u mem_cons_self
        · exact h.held u x hu
      · dsimp only at h2 ⊢
        by_cases hxz : x = zone
        · rw [hxz, update_self]
        · refine hbit x ((Nat.lt_or_ge x p.2).elim (h.below x h1) fun hx => hmiss x hx ?_)
          omega
      · rcases h.assigned u hu with hin | hsome | hall
        · rcases mem_cons.1 hin with rfl | hin
          · simp
          · exact .inl hin
        · obtain ⟨x, hx⟩ := Option.isSome_iff_exists.1 hsome
          exact .inr (.inl (by rw [hlookup u x hx]; rfl))
        · exact .inr (.inr fun x h1 h2 => hbit x (hall x h1 h2))

theorem serving_end (hcalm : Calm req t.zones) (hdel : Deleting bridge users req s [] t)
    {l : List SimapNode} (hl : l.Perm req.entries) :
    Serving bridge req t.zones [] (l.foldl serveRequest t) := by
  have hkeys : ∀ u, u ∈ l.keys ↔ u ∈ req := fun u => (hl.map Sigma.fst).mem_iff
  have hmem : ∀ u y, req.lookup u = some y → u ∈ l.keys := fun u y hu =>
    (hkeys u).2 (AList.lookup_isSome.1 (hu ▸ rfl))
  have hserved : ∀ x, ¬ Served req l x := fun x ⟨w, hw, hn⟩ => hn (hmem w x hw)
  refine foldl_left (fun r l t => Serving.step hcalm) _ _
    { nodup := (perm_nodupKeys hl).2 req.nodupKeys
      listed := fun r hr => mem_entries_iff.1 (hl.mem_iff.1 hr)
      served := fun u y hu hn => absurd (hmem u y hu) hn
      waiting := fun _ _ => rfl
      other := fun u _ x => (and_iff_left (hserved x)).symm
      unreq := fun u x => ?_
      unreqMap := hdel.unreqMap
      set := fun x hx => absurd hx (hserved x)
      bitmap := fun x _ => ⟨fun hx => ⟨hx, fun u y _ hu hn => absurd (hmem u y hu) hn⟩,
        fun hx => hx.1⟩
      recorded := hdel.recorded }
  rw [hdel.unreq, hdel.current]
  by_cases hu : u ∈ users
  · simp [hu, and_comm]
  · simp [hu]

/-- What `update_ct_zones` needs of the zones that are restored and requested. -/
structure Compatible (users : List String) (req : Simap) (s : Zones) : Prop where
  requesters : ∀ u y, req.lookup u = some y → u ∈ users
  ranged : ∀ u y, req.lookup u = some y → 1 ≤ y ∧ y ≤ maxCtZones
  /-- The zone of a user that is gone is not kept by another one. -/
  gone : ∀ u v x, s.current.lookup u = some x → u ∉ users → s.current.lookup v = some x →
    v ∈ users → req.lookup v = none → ∃ w, req.lookup w = some x
  /-- The zone of a user that requests another one is neither requested nor kept. -/
  moved : ∀ u x y, s.current.lookup u = some x → u ∈ users → req.lookup u = some y → y ≠ x →
    (∀ w, req.lookup w ≠ some x) ∧
    ∀ v, s.current.lookup v = some x → v ∈ users → req.lookup v ≠ none

structure Updated (bridge : Option Simap) (users : List String) (req : Simap) (s s' : Zones) :
    Prop where
  marked : s'.Marked
  ranged : s'.Ranged
  recorded : s'.Recorded bridge
  held : ∀ u x, s'.current.lookup u = some x → u ∈ users
  assigned : ∀ u ∈ users, (s'.current.lookup u).isSome ∨
    ∀ x, 1 ≤ x → x ≤ maxCtZones → s'.bitmap x = true
  honoured : ∀ u y, req.lookup u = some y → s'.current.lookup u = some y
  shared : ∀ u v x, u ≠ v → s'.current.lookup u = some x → s'.current.lookup v = some x →
    (req.lookup u = some x ∧ req.lookup v = some x) ∨
    ((s.current.lookup u = some x ∧ s.current.lookup v = some x) ∧ (u ∈ users ∧ v ∈ users) ∧
      (req.lookup u = none ∧ req.lookup v = none) ∧ ∀ w, req.lookup w ≠ some x)

/-- After the requests: a user has the zone that it requests, or keeps one that nobody requests. -/
def Kept (users : List String) (req : Simap) (s s' : Zones) : Prop :=
  ∀ u x, s'.current.lookup u = some x ↔ req.lookup u = some x ∨
    (req.lookup u = none ∧ u ∈ users ∧ s.current.lookup u = some x ∧ ∀ w, req.lookup w ≠ some x)

theorem served_end {t' : Update} (hm : s.Marked) (hr : s.Ranged) (hc : Compatible users req s)
    (hdel : Deleting bridge users req s [] t) (hserv : Serving bridge req t.zones [] t') :
    t'.zones.Marked ∧ t'.zones.Ranged ∧ Kept users req s t'.zones := by
  have hold : ∀ u x, t.zones.current.lookup u = some x ↔ u ∈ users ∧
    s.current.lookup u = some x := by
    simp [hdel.current]
  have hserved : ∀ x, Served req [] x ↔ ∃ w, req.lookup w = some x := fun x =>
    exists_congr fun w => and_iff_left not_mem_nil
  have hcur : Kept users req s t'.zones := by
    intro u x
    cases hu : req.lookup u with
    | some y => simp [hserv.served u y hu not_mem_nil]
    | none =>
      rw [hserv.other u hu, hold, hserved]
      simp [and_assoc]
  refine ⟨fun x => ?_, fun u x hu => ?_, hcur⟩
  · by_cases hx : ∃ w, req.lookup w = some x
    · obtain ⟨w, hw⟩ := hx
      exact iff_of_true (hserv.set x ((hserved x).2 ⟨w, hw⟩)) (.inr ⟨w, (hcur w x).2 (.inl hw)⟩)
    · rw [hserv.bitmap x (fun h => hx ((hserved x).1 h)), hdel.bitmap, hm x]
      have hno : ∀ w, req.lookup w ≠ some x := fun w hw => hx ⟨w, hw⟩
      constructor
      · rintro ⟨⟨h0 | ⟨u, hu⟩, hall⟩, hmov⟩
        · exact .inl h0
        · have hin := (hall u hu).resolve_right not_mem_nil
          refine .inr ⟨u, (hcur u x).2 (.inr ⟨?_, hin, hu, hno⟩)⟩
          cases hq : req.lookup u with
          | none => rfl
          | some y =>
            have := hmov u y ((hold u x).2 ⟨hin, hu⟩) hq not_mem_nil
            exact absurd (this ▸ hq) (hno u)
      · rintro (rfl | ⟨v, hv⟩)
        · exact ⟨⟨.inl rfl, fun u hu => absurd (hr u 0 hu).1 (by decide)⟩, fun u y hu =>
            absurd (hr u 0 ((hold u 0).1 hu).2).1 (by decide)⟩
        · rcases (hcur v x).1 hv with hq | ⟨hq, hin, hs, -⟩
          · exact absurd hq (hno v)
          · refine ⟨⟨.inr ⟨v, hs⟩, fun u hu => .inl ?_⟩, fun u y hu hy _ => ?_⟩
            · by_contra hgone
              exact hx (hc.gone u v x hu hgone hs hin hq)
            · by_contra hne
              obtain ⟨hinu, hsu⟩ := (hold u x).1 hu
              exact (hc.moved u x y hsu hinu hy hne).2 v hs hin hq
  · rcases (hcur u x).1 hu with hq | ⟨-, -, hs, -⟩
    · exact hc.ranged u x hq
    · exact hr u x hs

end

theorem updateCtZones_spec {s : Zones} {bridge : Option Simap} (o : Orders) (rt : Runtime)
    (hm : s.Marked) (hr : s.Ranged) (hrec : s.Recorded bridge)
    (hc : Compatible rt.allUsers rt.reqSnatZones s) :
    Updated bridge rt.allUsers rt.reqSnatZones s (updateCtZones o rt s) := by
  have hdel : Deleting bridge rt.allUsers rt.reqSnatZones s [] _ := deleting_end hrec
  have hcalm : Calm rt.reqSnatZones (s.current.entries.foldl
      (deleteUnused rt.allUsers rt.reqSnatZones) ⟨s, fun _ => false, ∅⟩).zones := by
    intro u x y hu hy hne
    rw [hdel.current] at hu
    split at hu
    next hin => exact (hc.moved u x y hu (hin.resolve_right not_mem_nil) hy hne).1
    · cases hu
  have hserv := serving_end hcalm hdel (o.reqSnatZones.perm rt.reqSnatZones.entries)
  obtain ⟨hm', hr', hcur⟩ := served_end hm hr hc hdel hserv
  have hassign := foldl_left (fun _ _ _ => Assigning.step) (o.allUsers.order rt.allUsers) (_, 1)
    { subset := fun u hu => (o.allUsers.perm rt.allUsers).mem_iff.1 hu
      kept := fun _ _ hu => hu
      fresh := fun _ _ _ _ hu hv => ⟨hu, hv⟩
      marked := hm'
      ranged := hr'
      recorded := hserv.recorded
      held := fun u x hu => ((hcur u x).1 hu).elim (hc.requesters u x) fun h => h.2.1
      start := ⟨Nat.le_refl 1, Nat.le_add_left 1 maxCtZones⟩
      below := fun x h1 h2 => absurd h1 (Nat.not_le.2 h2)
      assigned := fun u hu => .inl ((o.allUsers.perm rt.allUsers).mem_iff.2 hu) }
  refine ⟨hassign.marked, hassign.ranged, hassign.recorded, hassign.held, fun u hu =>
    (hassign.assigned u hu).resolve_left not_mem_nil, fun u y hy =>
    hassign.kept u y ((hcur u y).2 (.inl hy)), fun u v x huv hu hv => ?_⟩
  obtain ⟨hu, hv⟩ := hassign.fresh u v x huv hu hv
  -- whoever has a requested zone has requested it
  rcases (hcur u x).1 hu with hu | ⟨hqu, hinu, hsu, hno⟩
  · rcases (hcur v x).1 hv with hv | ⟨-, -, -, hno⟩
    · exact .inl ⟨hu, hv⟩
    · exact absurd hu (hno u)
  · rcases (hcur v x).1 hv with hv | ⟨hqv, hinv, hsv, -⟩
    · exact absurd hv (hno v)
    · exact .inr ⟨⟨hsu, hsv⟩, ⟨hinu, hinv⟩, ⟨hqu, hqv⟩, hno⟩

end Ovn.CtZone

/-
  Longest-prefix match.

  The priorities put the flows in the order of the routes: the longer prefix first, and among equal
  ones connected routes, static ones and source routes.  What is selected for a packet is the best
  of the routes whose flows reach it, which need not be those that apply to it: a source route of
  the main table reaches the packets of every route table.
-/
import Ovn.Northd.RouteGroups
import Mathlib.Data.Set.Finite.Lemmas
import Mathlib.Data.Set.Finite.List

namespace Ovn.Routes

open List

/-! ## What is asked -/

/-- What a packet may be routed by: a network of a port, or an accepted route with its prefix. -/
inductive Candidate
  | network (op : Port) (n : Cidr)
  | route (c : Cidr) (r : StaticRoute)
  deriving DecidableEq, Repr

namespace Candidate

def cidr : Candidate → Cidr
  | .network _ n => n
  | .route c _ => c

def isSrcRoute : Candidate → Bool
  | .network _ _ => false
  | .route _ r => r.srcPolicy

def connected : Candidate → Bool
  | .network _ _ => true
  | .route _ r => r.originConnected && !r.srcPolicy

def table : Candidate → String
  | .network _ _ => ""
  | .route _ r => r.routeTable

/-- Source routes come last and connected ones first. -/
def kind (c : Candidate) : ℕ :=
  if c.isSrcRoute then 0 else if c.connected then 2 else 1

def le (c c' : Candidate) : Prop :=
  c.cidr.plen < c'.cidr.plen ∨ c.cidr.plen = c'.cidr.plen ∧ c.kind ≤ c'.kind

/-- Connected networks are there for every packet, a link-local one for those that enter by its
    port; other routes are those of the table of the ingress port. -/
def Applies {R : Router} (p : Packet R) (c : Candidate) : Prop :=
  c.cidr.contains p.family (p.addr c.isSrcRoute) ∧
    (c.connected = true ∨ c.table = p.inport.routeTable) ∧
    ∀ op n, c = .network op n → n.isLla → op = p.inport

/-- A source route of the main table that is looked at for a packet of another table. -/
def Strays {R : Router} (p : Packet R) (c : Candidate) : Prop :=
  c.isSrcRoute = true ∧ c.table = "" ∧ p.inport.routeTable ≠ "" ∧
    c.cidr.contains p.family (p.addr c.isSrcRoute)

theorem connected_of_isSrcRoute {c : Candidate} (h : c.isSrcRoute = true) :
    c.connected = false := by
  cases c with
  | network op n => cases h
  | route cidr r =>
    have hr : r.srcPolicy = true := h
    rw [connected, hr, Bool.not_true, Bool.and_false]

end Candidate

def Router.candidates (R : Router) : List Candidate :=
  (R.ports.flatMap fun op => op.networks.map (.network op)) ++
    (R.accepted R.routes).map fun cr => .route cr.1 cr.2

def Best (R : Router) (p : Packet R) (c : Candidate) : Prop :=
  c ∈ R.candidates ∧ c.Applies p ∧ ∀ c' ∈ R.candidates, c'.Applies p → c'.le c

def Cidr.Same (c c' : Cidr) : Prop :=
  c.family = c'.family ∧ c.plen = c'.plen ∧ c.networkAddr = c'.networkAddr

variable {c : Cidr}

theorem Cidr.Same.symm {c' : Cidr} (h : c.Same c') : c'.Same c := ⟨h.1.symm, h.2.1.symm, h.2.2.symm⟩

namespace Entry

def members : Entry → List Candidate
  | .network op n => [.network op n]
  | .unique pr => [.route pr.cidr pr.route]
  | .ecmp eg => eg.routes.map fun pr => .route pr.cidr pr.route

end Entry

/-- The flow is one of those with the highest priority that match the packet. -/
def Top (R : Router) (p : Packet R) (ef : Entry × Flow) : Prop :=
  ef ∈ R.flows ∧ ef.2.routeMatch.matches p ∧
    ∀ ef' ∈ R.flows, ef'.2.routeMatch.matches p → ef'.2.priority ≤ ef.2.priority

structure Lpm (R : Router) (p : Packet R) : Prop where
  routed : ∀ c ∈ R.candidates, c.Applies p → ∃ ef ∈ R.flows, ef.2.routeMatch.matches p
  longest : ∀ ef, Top R p ef → ∃ c ∈ ef.1.members, Best R p c
  together : ∀ ef ef', Top R p ef → Top R p ef' → ∀ c ∈ ef.1.members, ∀ c' ∈ ef'.1.members,
    c.cidr.Same c'.cidr ∧ c.table = c'.table
  agree : ∀ ef ∈ R.flows, ∀ ef' ∈ R.flows, ef.2.routeMatch.matches p → ef'.2.routeMatch.matches p →
    ef.2.priority = ef'.2.priority → ef.2.actions = ef'.2.actions

/-! ## Which flows reach a packet -/

namespace Entry

def cidr : Entry → Cidr
  | .network _ n => n
  | .unique pr => pr.cidr
  | .ecmp eg => eg.cidr

def isSrcRoute : Entry → Bool
  | .network _ _ => false
  | .unique pr => pr.isSrcRoute
  | .ecmp eg => eg.isSrcRoute

def originConnected : Entry → Bool
  | .network _ _ => true
  | .unique pr => pr.route.originConnected
  | .ecmp eg => eg.originConnected

def routeTableId : Entry → ℕ
  | .network _ _ => 0
  | .unique pr => pr.routeTableId
  | .ecmp eg => eg.routeTableId

def kind (e : Entry) : ℕ :=
  if e.isSrcRoute then 0 else prioOffset e.originConnected

def lt (e e' : Entry) : Prop :=
  e.cidr.plen < e'.cidr.plen ∨ e.cidr.plen = e'.cidr.plen ∧ e.kind < e'.kind

/-- The flow is in the datapath of the router and not scoped to another port. -/
def Local {R : Router} (p : Packet R) : Entry → Prop
  | .network op n => n.isLla → op.name = p.inport.name
  | .unique pr => pr.isDiscardRoute ∨
      ∃ out, findStaticRouteOutport R pr.route pr.cidr.family = some out ∧ out.2.od = R.od ∧
        (pr.cidr.isLla → out.2.name = p.inport.name)
  | .ecmp _ => True

/-- An IPv6 network that is printed with dots is taken for an IPv4 one, but not in a group. -/
def Readable : Entry → Prop
  | .network _ n => n.dotted → n.family = .ipv4
  | .unique pr => pr.cidr.dotted → pr.cidr.family = .ipv4
  | .ecmp _ => True

/-- The flow reaches the packet.  Without a match on the table, it does so from every table. -/
def Reaches {R : Router} (p : Packet R) (e : Entry) : Prop :=
  e.Local p ∧ e.Readable ∧ e.cidr.contains p.family (p.addr e.isSrcRoute) ∧
    (e.routeTableId = p.routeTableId ∨
      e.routeTableId = 0 ∧ (e.isSrcRoute = true ∨ e.originConnected = true))

end Entry

theorem Cidr.size_pos (c : Cidr) : 0 < c.size := Nat.two_pow_pos _

theorem Cidr.contains_iff {family : Family} {a : ℕ} :
    c.contains family a ↔ c.family = family ∧ a / c.size * c.size = c.networkAddr := by
  simp [contains, networkAddr, Nat.mul_left_inj (Nat.ne_of_gt c.size_pos)]

theorem Cidr.Same.of_contains {c' : Cidr} {family : Family} {a : ℕ} (hc : c.contains family a)
    (hc' : c'.contains family a) (hplen : c.plen = c'.plen) : c.Same c' := by
  rw [contains_iff] at hc hc'
  have hfamily := hc.1.trans hc'.1.symm
  have hsize : c.size = c'.size := by
    unfold size
    rw [hfamily, hplen]
  exact ⟨hfamily, hplen, by rw [← hc.2, ← hc'.2, hsize]⟩

theorem Cidr.dotted_of_ipv4 (h : c.family = .ipv4) : c.dotted = true := decide_eq_true (.inl h)

/-- A link-local network is printed without dots. -/
theorem Cidr.not_dotted_of_isLla (h : c.isLla = true) : c.dotted = false := by
  obtain ⟨hfamily, hnet⟩ := of_decide_eq_true h
  unfold dotted
  rw [decide_eq_false_iff_not, hfamily]
  rintro (h4 | ⟨-, hlt⟩)
  · cases h4
  · omega

variable {R : Router}

theorem buildRouteMatch_matches (p : Packet R) (inport : Option String) (rtbId : ℕ) (c : Cidr)
    (isSrcRoute isIpv4 : Bool) (ofs : ℕ) :
    (buildRouteMatch inport rtbId c isSrcRoute isIpv4 ofs).1.matches p ↔
      (∀ name ∈ inport, name = p.inport.name) ∧ (isIpv4 = true ↔ c.family = .ipv4) ∧
        c.contains p.family (p.addr isSrcRoute) ∧
        (rtbId = p.routeTableId ∨ rtbId = 0 ∧ (if isSrcRoute then 0 else ofs) ≠ 1) := by
  have hinport : (inport.all fun name => name = p.inport.name) = true ↔
      ∀ name ∈ inport, name = p.inport.name := by
    cases inport <;> simp
  have htable : ((if rtbId ≠ 0 ∨ (if isSrcRoute then 0 else ofs) = 1 then some rtbId else none).all
      fun id => id = p.routeTableId) = true ↔
        rtbId = p.routeTableId ∨ rtbId = 0 ∧ (if isSrcRoute then 0 else ofs) ≠ 1 := by
    generalize (if isSrcRoute then 0 else ofs) = o
    by_cases h : rtbId ≠ 0 ∨ o = 1
    · rw [if_pos h, Option.all_some, decide_eq_true_iff]
      refine (or_iff_left_of_imp fun h' => ?_).symm
      exact absurd h (by rw [not_or, not_not]; exact h')
    · simp_all
  unfold RouteMatch.matches
  rw [decide_eq_true_iff, Cidr.contains_iff]
  tauto

theorem prioOffset_ne_one {connected : Bool} : prioOffset connected ≠ 1 ↔ connected = true := by
  cases connected <;> simp [prioOffset]

/-- The table of a flow is left out for source routes and connected ones. -/
theorem ofs_ne_one {isSrcRoute connected : Bool} :
    (if isSrcRoute then 0 else prioOffset connected) ≠ 1 ↔ isSrcRoute = true ∨
    connected = true := by
  cases isSrcRoute
  · simpa using prioOffset_ne_one
  · simp

theorem addRoute_matches (p : Packet R) (od : ℕ) (out : Option (ℕ × Port)) (c : Cidr)
    (gateway : Option ℕ) (isSrcRoute : Bool) (rtbId : ℕ) (connected : Bool) :
    (addRoute od out c gateway isSrcRoute rtbId (prioOffset connected)).routeMatch.matches p ↔
      (∀ o ∈ out, c.isLla → o.2.name = p.inport.name) ∧ (c.dotted → c.family = .ipv4) ∧
        c.contains p.family (p.addr isSrcRoute) ∧
        (rtbId = p.routeTableId ∨ rtbId = 0 ∧ (isSrcRoute = true ∨ connected = true)) := by
  have hscope : (∀ name ∈ (if !c.dotted && c.isLla then out.map fun o => o.2.name else none),
      name = p.inport.name) ↔ ∀ o ∈ out, c.isLla → o.2.name = p.inport.name := by
    cases hlla : c.isLla
    · simp
    · rw [Cidr.not_dotted_of_isLla hlla]
      cases out <;> simp
  refine (buildRouteMatch_matches p _ _ _ _ _ _).trans ?_
  rw [hscope, ofs_ne_one]
  refine and_congr_right fun _ => and_congr_left fun _ => ?_
  exact ⟨fun h => h.1, fun h => ⟨h, Cidr.dotted_of_ipv4⟩⟩

namespace Entry

variable {R : Router} {e : Entry}

theorem priority_eq {f : Flow} (h : e.flow R = some f) : f.priority = e.cidr.plen * 3 + e.kind := by
  cases e with
  | network op n =>
    cases h
    rfl
  | unique pr =>
    unfold flow buildStaticRouteFlow at h
    dsimp only at h
    split at h
    · cases h
      rfl
    · obtain ⟨out, -, rfl⟩ := Option.map_eq_some_iff.1 h
      rfl
  | ecmp eg =>
    cases h
    rfl

theorem kind_le (e : Entry) : e.kind ≤ 2 := by
  unfold kind prioOffset
  split
  · exact Nat.zero_le _
  · split <;> omega

/-- The flows that match a packet are those of the entries that reach it. -/
theorem reaches_iff (own : ∀ op n, e = .network op n → op.od = R.od) (p : Packet R) :
    e.Reaches p ↔ ∃ f, e.flow R = some f ∧ f.od = R.od ∧ f.routeMatch.matches p := by
  cases e with
  | network op n =>
    have hmatch := addRoute_matches p op.od (some (n.addr, op)) n none false 0 true
    simp only [flow, Option.some.injEq, exists_eq_left']
    refine Iff.trans ?_ (and_iff_right (own op n rfl)).symm
    refine Iff.trans ?_ hmatch.symm
    refine and_congr_left fun _ => ⟨fun h => ?_, fun h => h _ rfl⟩
    rintro _ ⟨⟩
    exact h
  | unique pr =>
    unfold flow buildStaticRouteFlow
    by_cases hdiscard : pr.isDiscardRoute = true
    · have hmatch := addRoute_matches p R.od none pr.cidr none pr.isSrcRoute pr.routeTableId
        pr.route.originConnected
      simp only [if_pos hdiscard, Option.some.injEq, exists_eq_left']
      refine Iff.trans ?_ (and_iff_right rfl).symm
      refine Iff.trans ?_ hmatch.symm
      exact and_congr_left fun _ => iff_of_true (.inl hdiscard) nofun
    · simp only [if_neg hdiscard, Option.map_eq_some_iff]
      constructor
      · rintro ⟨hlocal, hrest⟩
        obtain ⟨out, hout, hod, hlla⟩ := hlocal.resolve_left hdiscard
        refine ⟨_, ⟨out, hout, rfl⟩, hod, (addRoute_matches p _ _ _ _ _ _ _).2 ⟨?_, hrest⟩⟩
        rintro _ ⟨⟩
        exact hlla
      · rintro ⟨_, ⟨out, hout, rfl⟩, hod, hmatch⟩
        obtain ⟨hlla, hrest⟩ := (addRoute_matches p _ _ _ _ _ _ _).1 hmatch
        exact ⟨.inr ⟨out, hout, hod, hlla out rfl⟩, hrest⟩
  | ecmp eg =>
    simp only [flow, Option.some.injEq, exists_eq_left']
    have hmatch := buildRouteMatch_matches p none eg.routeTableId eg.cidr eg.isSrcRoute
      (eg.cidr.family = .ipv4) (prioOffset eg.originConnected)
    rw [ofs_ne_one] at hmatch
    refine Iff.trans ?_ (and_iff_right rfl).symm
    refine Iff.trans ?_ hmatch.symm
    simp [Reaches, Local, Readable, cidr, isSrcRoute, routeTableId, originConnected]

end Entry

variable {e : Entry}

theorem Router.mem_flows {f : Flow} :
    (e, f) ∈ R.flows ↔ e ∈ R.entries ∧ e.flow R = some f ∧ f.od = R.od := by
  simp [Router.flows, Option.bind_eq_some_iff]

theorem Router.mem_entries : e ∈ R.entries ↔ match e with
      | .network op n => op ∈ R.ports ∧ n ∈ op.networks
      | .ecmp eg => eg ∈ R.groups.ecmpGroups
      | .unique pr => pr ∈ R.groups.uniqueRoutes := by
  cases e <;> simp [Router.entries]

theorem Router.reaches_iff (he : e ∈ R.entries) (p : Packet R) :
    e.Reaches p ↔ ∃ f, (e, f) ∈ R.flows ∧ f.routeMatch.matches p := by
  have hown : ∀ op n, e = .network op n → op.od = R.od := by
    rintro op n rfl
    exact R.own op (R.mem_entries.1 he).1
  rw [Entry.reaches_iff hown p]
  refine exists_congr fun f => ?_
  rw [R.mem_flows, and_iff_right he, and_assoc]

/-! ## When the longest match is selected -/

/-- The entry reaches the packet and none that does is better. -/
def Entry.IsTop (R : Router) (p : Packet R) (e : Entry) : Prop :=
  e ∈ R.entries ∧ e.Reaches p ∧ ∀ e' ∈ R.entries, e'.Reaches p → ¬ e.lt e'

namespace Entry

variable {R : Router} {p : Packet R} {e e' : Entry}

theorem lt_iff_priority {f f' : Flow} (h : e.flow R = some f) (h' : e'.flow R = some f') :
    e.lt e' ↔ f.priority < f'.priority := by
  rw [priority_eq h, priority_eq h', lt]
  have := e.kind_le
  have := e'.kind_le
  omega

theorem eq_of_priority_eq {f f' : Flow} (h : e.flow R = some f) (h' : e'.flow R = some f')
    (hprio : f.priority = f'.priority) : e.cidr.plen = e'.cidr.plen ∧ e.kind = e'.kind := by
  rw [priority_eq h, priority_eq h'] at hprio
  have := e.kind_le
  have := e'.kind_le
  omega

theorem isSrcRoute_of_kind_eq (h : e.kind = e'.kind) : e.isSrcRoute = e'.isSrcRoute := by
  have hne : ∀ b, prioOffset b ≠ 0 := fun b => by cases b <;> decide
  unfold kind at h
  cases he : e.isSrcRoute <;> cases he' : e'.isSrcRoute
  · rfl
  · rw [he, he'] at h
    exact absurd h (hne _)
  · rw [he, he'] at h
    exact absurd h.symm (hne _)
  · rfl

theorem originConnected_of_kind_eq (h : e.kind = e'.kind) (hsrc : e.isSrcRoute = false) :
    e.originConnected = e'.originConnected := by
  have hsrc' := (isSrcRoute_of_kind_eq h).symm.trans hsrc
  unfold kind prioOffset at h
  rw [hsrc, hsrc'] at h
  revert h
  cases e.originConnected <;> cases e'.originConnected <;> decide

theorem same_of_reaches (h : e.Reaches p) (h' : e'.Reaches p) (hplen : e.cidr.plen = e'.cidr.plen)
    (hkind : e.kind = e'.kind) : e.cidr.Same e'.cidr := by
  refine Cidr.Same.of_contains h.2.2.1 ?_ hplen
  rw [isSrcRoute_of_kind_eq hkind]
  exact h'.2.2.1

theorem isTop_iff {f : Flow} (hf : (e, f) ∈ R.flows) (hmatch : f.routeMatch.matches p) :
    e.IsTop R p ↔ Top R p (e, f) := by
  obtain ⟨he, hflow, -⟩ := R.mem_flows.1 hf
  constructor
  · rintro ⟨-, -, htop⟩
    refine ⟨hf, hmatch, ?_⟩
    rintro ⟨e', f'⟩ hf' hmatch'
    obtain ⟨he', hflow', -⟩ := R.mem_flows.1 hf'
    have hnot := htop e' he' ((R.reaches_iff he' p).2 ⟨f', hf', hmatch'⟩)
    rw [lt_iff_priority hflow hflow'] at hnot
    exact Nat.le_of_not_lt hnot
  · rintro ⟨-, -, htop⟩
    refine ⟨he, (R.reaches_iff he p).2 ⟨f, hf, hmatch⟩, fun e' he' hreach hlt => ?_⟩
    obtain ⟨f', hf', hmatch'⟩ := (R.reaches_iff he' p).1 hreach
    rw [lt_iff_priority hflow (R.mem_flows.1 hf').2.1] at hlt
    exact Nat.not_lt_of_le (htop _ hf' hmatch') hlt

/-- Of the entries that reach a packet, one is at the top, and the others are not better. -/
theorem exists_isTop (he : e ∈ R.entries) (hreach : e.Reaches p) :
    ∃ e', e'.IsTop R p ∧ (e.IsTop R p ∨ e.lt e') := by
  have hfin : {e : Entry | e ∈ R.entries ∧ e.Reaches p}.Finite :=
    (finite_toSet R.entries).subset fun _ h => h.1
  obtain ⟨e', ⟨he', hreach'⟩, hmax⟩ := Set.exists_max_image _
    (fun e : Entry => e.cidr.plen * 3 + e.kind) hfin ⟨e, he, hreach⟩
  have hle : ∀ e₁ e₂ : Entry, e₁.cidr.plen * 3 + e₁.kind ≤ e₂.cidr.plen * 3 + e₂.kind ↔
    ¬ e₂.lt e₁ := by
    intro e₁ e₂
    have := e₁.kind_le
    have := e₂.kind_le
    unfold lt
    omega
  have htop' : e'.IsTop R p :=
    ⟨he', hreach', fun e₂ he2 hreach2 => (hle _ _).1 (hmax e₂ ⟨he2, hreach2⟩)⟩
  refine ⟨e', htop', ?_⟩
  by_cases hlt : e.lt e'
  · exact .inr hlt
  · refine .inl ⟨he, hreach, fun e₂ he2 hreach2 => (hle _ _).1 ?_⟩
    exact Nat.le_trans (hmax e₂ ⟨he2, hreach2⟩) ((hle _ _).2 hlt)

end Entry

/-! ## Routers without surprises -/

/-- A configuration that steers clear of what the flows do not tell apart.  Where two routes have
    the same policy, table and network, they are written alike. -/
structure Plain (R : Router) : Prop where
  few : R.ports.length + R.routes.length < uint16Max
  networks : ∀ op ∈ R.ports, ∀ n ∈ op.networks, ∀ n' ∈ op.networks, n.Same n' → n = n'
  readable : ∀ c ∈ R.candidates, c.cidr.dotted → c.cidr.family = .ipv4
  outputPort : ∀ r ∈ R.routes, ∀ name ∈ r.outputPort, ∃ op ∈ R.ports, op.name = name
  lla : ∀ c r, (c, r) ∈ R.accepted R.routes → c.isLla = false
  /-- What the main table has a source route for, no other table has one for. -/
  source : ∀ c r c' r', (c, r) ∈ R.accepted R.routes → (c', r') ∈ R.accepted R.routes →
    r.srcPolicy → r'.srcPolicy → r.routeTable = "" → c.Same c' → r'.routeTable = ""
  /-- Connected routes are in the main table, and not to a network of a port. -/
  connected : ∀ c r, (c, r) ∈ R.accepted R.routes → r.originConnected → r.srcPolicy = false →
    r.routeTable = "" ∧ ∀ op ∈ R.ports, ∀ n ∈ op.networks, ¬ n.Same c
  written : ∀ c r c' r', (c, r) ∈ R.accepted R.routes → (c', r') ∈ R.accepted R.routes →
    r.srcPolicy = r'.srcPolicy → r.routeTable = r'.routeTable → c.Same c' →
    c = c' ∧ r.originConnected = r'.originConnected

/-- Whatever strays to the packet is outranked by something that applies to it. -/
def Outranked (R : Router) (p : Packet R) : Prop :=
  ∀ c ∈ R.candidates, c.Strays p → ∃ c' ∈ R.candidates, c'.Applies p ∧ ¬ c'.le c

section Plain

variable {R : Router}

theorem Router.mem_candidates {c : Candidate} : c ∈ R.candidates ↔ match c with
      | .network op n => op ∈ R.ports ∧ n ∈ op.networks
      | .route cidr r => (cidr, r) ∈ R.accepted R.routes := by
  cases c <;> simp [Router.candidates]

def Entry.key : Entry → Option (Cidr × Bool × ℕ)
  | .network _ _ => none
  | .unique pr => some pr.key
  | .ecmp eg => some eg.key

def Entry.routes : Entry → List ParsedRoute
  | .network _ _ => []
  | .unique pr => [pr]
  | .ecmp eg => eg.routes

variable {e : Entry}

theorem Router.network_of_key (he : e ∈ R.entries) (hk : e.key = none) :
    ∃ op ∈ R.ports, ∃ n ∈ op.networks, e = .network op n := by
  cases e with
  | network op n => exact ⟨op, (R.mem_entries.1 he).1, n, (R.mem_entries.1 he).2, rfl⟩
  | unique pr => cases hk
  | ecmp eg => cases hk

variable {prs : List ParsedRoute} {k : Cidr × Bool × ℕ}

theorem Entry.routes_eq (h : R.groups.Of prs) (he : e ∈ R.entries) (hk : e.key = some k) :
    e.routes = keyed prs k ∧ e.routes.head?.map (fun pr => pr.route.originConnected)
      = some e.originConnected := by
  cases e with
  | network op n => cases hk
  | ecmp eg =>
    cases hk
    exact h.ecmp eg (R.mem_entries.1 he)
  | unique pr =>
    cases hk
    exact ⟨h.unique pr (R.mem_entries.1 he), rfl⟩

theorem Entry.exists_route (h : R.groups.Of prs) (he : e ∈ R.entries) (hk : e.key = some k) :
    ∃ pr, pr ∈ e.routes := by
  obtain ⟨pr, hpr, -⟩ := Option.map_eq_some_iff.1 (routes_eq h he hk).2
  exact ⟨pr, mem_of_mem_head? hpr⟩

theorem Entry.eq_of_key (h : R.groups.Of prs) {e' : Entry} (he : e ∈ R.entries)
    (he' : e' ∈ R.entries)
    (hk : e.key = some k) (hk' : e'.key = some k) : e = e' := by
  obtain ⟨hecmps, huniques, hdisjoint⟩ := nodup_append.1 h.nodup
  have heq := hk.trans hk'.symm
  have he := R.mem_entries.1 he
  have he' := R.mem_entries.1 he'
  match e, e', he, he', heq with
  | .network _ _, _, _, _, _ => cases hk
  | _, .network _ _, _, _, _ => cases hk'
  | .ecmp _, .ecmp _, he, he', heq =>
    rw [inj_on_of_nodup_map hecmps he he' (Option.some.inj heq)]
  | .ecmp _, .unique _, he, he', heq =>
    exact absurd (Option.some.inj heq) (hdisjoint _ (mem_map_of_mem he) _ (mem_map_of_mem he'))
  | .unique _, .ecmp _, he, he', heq =>
    exact absurd (Option.some.inj heq.symm) (hdisjoint _ (mem_map_of_mem he') _ (mem_map_of_mem he))
  | .unique _, .unique _, he, he', heq =>
    rw [inj_on_of_nodup_map huniques he he' (Option.some.inj heq)]

theorem Entry.exists_key (h : R.groups.Of prs) {pr : ParsedRoute} (hpr : pr ∈ prs) :
    ∃ e ∈ R.entries, e.key = some pr.key := by
  obtain hk | hk := mem_append.1 (h.covered pr hpr)
  · obtain ⟨eg, heg, hkey⟩ := mem_map.1 hk
    exact ⟨.ecmp eg, R.mem_entries.2 heg, congrArg some hkey⟩
  · obtain ⟨ur, hur, hkey⟩ := mem_map.1 hk
    exact ⟨.unique ur, R.mem_entries.2 hur, congrArg some hkey⟩

theorem Entry.members_eq (hk : e.key = some k) :
    e.members = e.routes.map fun pr => .route pr.cidr pr.route := by
  cases e with
  | network op n => cases hk
  | unique pr => rfl
  | ecmp eg => rfl

theorem Entry.key_eq (hk : e.key = some k) : k = (e.cidr, e.isSrcRoute, e.routeTableId) := by
  cases e <;> cases hk <;> rfl

variable {r : StaticRoute}

theorem mem_accepted {routes : List StaticRoute} {c : Cidr} :
    (c, r) ∈ R.accepted routes ↔ r ∈ routes ∧ checkRoute R r = some c := by
  simp [Router.accepted]

theorem outport_of_checkRoute {c : Cidr} (h : checkRoute R r = some c)
    (hdiscard : r.nexthop ≠ .discard)
    : ∃ out, findStaticRouteOutport R r c.family = some out := by
  unfold checkRoute at h
  split at h
  · cases h
  split at h
  · cases h
  split at h
  · cases h
  split at h
  · cases h
  next hout =>
    split at h
    · cases h
    · cases h
      exact Option.ne_none_iff_exists'.1 fun hnone => hout ⟨hdiscard, hnone⟩

theorem own_of_findStaticRouteOutport {family : Family} {out : ℕ × Port}
    (hown : ∀ name ∈ r.outputPort, ∃ op ∈ R.ports, op.name = name)
    (h : findStaticRouteOutport R r family = some out) : out.2.od = R.od := by
  unfold findStaticRouteOutport at h
  split at h
  next name hname =>
    simp only [Option.bind_eq_bind, Option.bind_eq_some_iff, Option.some.injEq] at h
    obtain ⟨op, hop, a, -, rfl⟩ := h
    obtain ⟨op', hop', hname'⟩ := hown name hname
    have heq : op.name = name := by simpa using List.find?_some hop
    obtain rfl : op = op' := inj_on_of_nodup_map R.names (mem_of_find?_eq_some hop)
      (mem_append_left _ hop') (heq.trans hname'.symm)
    exact R.own op hop'
  · obtain ⟨op, hop, h⟩ := exists_of_findSome?_eq_some h
    obtain ⟨a, -, rfl⟩ := Option.map_eq_some_iff.1 h
    exact R.own op hop

theorem Groups.Parsed.mem_accepted (h : R.groups.Parsed R R.routes prs) {pr : ParsedRoute}
    (hpr : pr ∈ prs) : (pr.cidr, pr.route) ∈ R.accepted R.routes :=
  h.accepted ▸ mem_map_of_mem hpr

theorem Groups.Parsed.known_packet (h : R.groups.Parsed R R.routes prs) (plain : Plain R)
    (p : Packet R) :
    Known R.groups.tables p.inport.routeTable p.routeTableId := by
  have hnames := R.names
  rw [map_append] at hnames
  have hfew := plain.few
  have hspec := buildRouteTableLflows_spec [] R.ports (by rw [length_nil]; omega)
    (nodup_append.1 hnames).1
  exact (hspec.2.2.2 p.inport p.inport_mem).mono h.tables

namespace Plain

variable {prs : List ParsedRoute} {e : Entry} {pr : ParsedRoute} {k : Cidr × Bool × ℕ}

section
variable (plain : Plain R) (h : R.groups.Parsed R R.routes prs) (he : e ∈ R.entries)
  (hk : e.key = some k)
include plain h he hk

/-- In an entry for static routes, each route has the prefix, the policy, the table and the origin
    of the entry. -/
theorem entry_eq (hpr : pr ∈ e.routes) :
    pr ∈ prs ∧ e.cidr = pr.cidr ∧ e.isSrcRoute = pr.isSrcRoute ∧ e.routeTableId = pr.routeTableId ∧
      e.originConnected = pr.route.originConnected := by
  obtain ⟨hroutes, hhead⟩ := Entry.routes_eq h.groups he hk
  have hkey := Entry.key_eq hk
  rw [hroutes] at hpr hhead
  obtain ⟨hpr, hprk⟩ := mem_keyed.1 hpr
  obtain ⟨first, hfirst, horigin⟩ := Option.map_eq_some_iff.1 hhead
  obtain ⟨hfirst, hfirstk⟩ := mem_keyed.1 (mem_of_mem_head? hfirst)
  have heq : pr.key = (e.cidr, e.isSrcRoute, e.routeTableId) := hprk.trans hkey
  have heq' : first.key = pr.key := hfirstk.trans hprk.symm
  refine ⟨hpr, (congrArg Prod.fst heq).symm, (congrArg (fun k => k.2.1) heq).symm,
    (congrArg (fun k => k.2.2) heq).symm, horigin.symm.trans ?_⟩
  have hcidr : first.cidr = pr.cidr := congrArg Prod.fst heq'
  have htable := ((h.known first hfirst).eq_iff (h.known pr hpr)).1 (congrArg (fun k => k.2.2) heq')
  exact (plain.written _ _ _ _ (h.mem_accepted hfirst) (h.mem_accepted hpr)
    (congrArg (fun k => k.2.1) heq') htable ⟨hcidr ▸ rfl, hcidr ▸ rfl, hcidr ▸ rfl⟩).2

/-- The flow of an accepted route is not scoped to a port, and is in this router. -/
theorem local_of_key (p : Packet R) : e.Local p := by
  cases e with
  | network op n => cases hk
  | ecmp eg => trivial
  | unique pr =>
    have hmem := h.mem_accepted (plain.entry_eq h he hk mem_cons_self).1
    obtain ⟨hr, hcheck⟩ := Routes.mem_accepted.1 hmem
    by_cases hdiscard : pr.route.nexthop = .discard
    · exact .inl (decide_eq_true hdiscard)
    · obtain ⟨out, hout⟩ := outport_of_checkRoute hcheck hdiscard
      refine .inr ⟨out, hout, own_of_findStaticRouteOutport (plain.outputPort _ hr) hout, ?_⟩
      rw [plain.lla _ _ hmem]
      nofun

theorem reaches_route (hpr : pr ∈ e.routes) (p : Packet R) : e.Reaches p ↔
    (Candidate.route pr.cidr pr.route).Applies p ∨ (Candidate.route pr.cidr pr.route).Strays p := by
  obtain ⟨hprs, hcidr, hsrc, htable, horigin⟩ := plain.entry_eq h he hk hpr
  have hmem := h.mem_accepted hprs
  have hread : e.Readable := by
    cases e with
    | network op n => cases hk
    | ecmp eg => trivial
    | unique pr' =>
      rw [show pr' = pr from (mem_singleton.1 hpr).symm]
      exact plain.readable (.route pr.cidr pr.route) (R.mem_candidates.2 hmem)
  have hid := (h.known pr hprs).eq_iff (h.known_packet plain p)
  have hzero := (h.known pr hprs).eq_zero_iff
  unfold Entry.Reaches
  rw [hcidr, hsrc, htable, horigin, and_iff_right (plain.local_of_key h he hk p),
    and_iff_right hread]
  constructor
  · rintro ⟨hcontains, heq | ⟨hz, hkind⟩⟩
    · exact .inl ⟨hcontains, .inr (hid.1 heq), nofun⟩
    · have hmain := hzero.1 hz
      by_cases hsrc' : pr.route.srcPolicy = true
      · by_cases htab : p.inport.routeTable = ""
        · exact .inl ⟨hcontains, .inr (hmain.trans htab.symm), nofun⟩
        · exact .inr ⟨hsrc', hmain, htab, hcontains⟩
      · refine .inl ⟨hcontains, .inl ?_, nofun⟩
        simpa [Candidate.connected, hsrc'] using hkind.resolve_left hsrc'
  · rintro (⟨hcontains, hconnected | heq, -⟩ | ⟨hsrc', hmain, -, hcontains⟩)
    · simp only [Candidate.connected, Bool.and_eq_true, Bool.not_eq_true'] at hconnected
      exact ⟨hcontains, .inr ⟨hzero.2 (plain.connected _ _ hmem hconnected.1 hconnected.2).1,
        .inr hconnected.1⟩⟩
    · exact ⟨hcontains, .inl (hid.2 heq)⟩
    · exact ⟨hcontains, .inr ⟨hzero.2 hmain, .inl hsrc'⟩⟩

/-- A static route with the rank of a network of a port is for another network. -/
theorem network_ne {op : Port} {n : Cidr} (hop : op ∈ R.ports) (hn : n ∈ op.networks)
    (hkind : e.kind = (Entry.network op n).kind) : ¬ n.Same e.cidr := by
  obtain ⟨pr, hpr⟩ := Entry.exists_route h.groups he hk
  obtain ⟨hprs, hcidr, hsrc, -, horigin⟩ := plain.entry_eq h he hk hpr
  have hsrc' : e.isSrcRoute = false := Entry.isSrcRoute_of_kind_eq hkind
  have horigin' : e.originConnected = true := Entry.originConnected_of_kind_eq hkind hsrc'
  rw [hcidr]
  exact (plain.connected _ _ (h.mem_accepted hprs) (horigin.symm.trans horigin')
    (hsrc.symm.trans hsrc')).2 op hop n hn

end

variable {op op' : Port}

theorem port_eq_of_name (hop : op ∈ R.ports) (hop' : op' ∈ R.ports) (h : op.name = op'.name) :
    op = op' :=
  inj_on_of_nodup_map R.names (mem_append_left _ hop) (mem_append_left _ hop') h

variable (plain : Plain R)
include plain

theorem reaches_network (hop : op ∈ R.ports) {n : Cidr} (hn : n ∈ op.networks)
    (p : Packet R) : (Entry.network op n).Reaches p ↔ (Candidate.network op n).Applies p := by
  have hread := plain.readable (.network op n) (R.mem_candidates.2 ⟨hop, hn⟩)
  constructor
  · rintro ⟨hlocal, -, hcontains, -⟩
    refine ⟨hcontains, .inl rfl, ?_⟩
    rintro _ _ ⟨⟩ hlla
    exact port_eq_of_name hop p.inport_mem (hlocal hlla)
  · rintro ⟨hcontains, -, hscope⟩
    exact ⟨fun hlla => congrArg Port.name (hscope op n rfl hlla), hread, hcontains,
      .inr ⟨rfl, .inr rfl⟩⟩

variable {c : Candidate}

/-- The routes of an entry have its prefix, policy and rank. -/
theorem members_spec (he : e ∈ R.entries) (hc : c ∈ e.members) :
    c ∈ R.candidates ∧ c.cidr = e.cidr ∧ c.isSrcRoute = e.isSrcRoute ∧ c.kind = e.kind := by
  obtain ⟨prs, h⟩ := R.groups_parsed plain.few
  cases hk : e.key with
  | none =>
    obtain ⟨op, hop, n, hn, rfl⟩ := R.network_of_key he hk
    obtain rfl := mem_singleton.1 hc
    exact ⟨R.mem_candidates.2 ⟨hop, hn⟩, rfl, rfl, rfl⟩
  | some k =>
    rw [Entry.members_eq hk] at hc
    obtain ⟨pr, hpr, rfl⟩ := mem_map.1 hc
    obtain ⟨hprs, hcidr, hsrc, -, horigin⟩ := plain.entry_eq h he hk hpr
    refine ⟨R.mem_candidates.2 (h.mem_accepted hprs), hcidr.symm, hsrc.symm, ?_⟩
    unfold Entry.kind
    rw [hsrc, horigin]
    cases hsrc' : pr.route.srcPolicy <;>
      simp [Candidate.kind, Candidate.isSrcRoute, Candidate.connected, ParsedRoute.isSrcRoute,
        hsrc',
        prioOffset]

/-- Each flow reaches the packets its routes apply or stray to. -/
theorem reaches_iff (he : e ∈ R.entries) (hc : c ∈ e.members) (p : Packet R) :
    e.Reaches p ↔ c.Applies p ∨ c.Strays p := by
  obtain ⟨prs, h⟩ := R.groups_parsed plain.few
  cases hk : e.key with
  | none =>
    obtain ⟨op, hop, n, hn, rfl⟩ := R.network_of_key he hk
    obtain rfl := mem_singleton.1 hc
    refine (plain.reaches_network hop hn p).trans (or_iff_left fun hstrays => ?_).symm
    exact Bool.false_ne_true hstrays.1
  | some k =>
    rw [Entry.members_eq hk] at hc
    obtain ⟨pr, hpr, rfl⟩ := mem_map.1 hc
    exact plain.reaches_route h he hk hpr p

theorem exists_entry (hc : c ∈ R.candidates) : ∃ e ∈ R.entries, c ∈ e.members := by
  have hmem := R.mem_candidates.1 hc
  cases c with
  | network op n => exact ⟨.network op n, R.mem_entries.2 hmem, mem_cons_self⟩
  | route cidr r =>
    obtain ⟨prs, h⟩ := R.groups_parsed plain.few
    rw [← h.accepted] at hmem
    obtain ⟨pr, hpr, heq⟩ := mem_map.1 hmem
    cases heq
    obtain ⟨e, he, hk⟩ := Entry.exists_key h.groups hpr
    refine ⟨e, he, ?_⟩
    rw [Entry.members_eq hk, (Entry.routes_eq h.groups he hk).1]
    exact mem_map_of_mem (mem_keyed.2 ⟨hpr, rfl⟩)

theorem exists_member (he : e ∈ R.entries) : ∃ c, c ∈ e.members := by
  obtain ⟨prs, h⟩ := R.groups_parsed plain.few
  cases hk : e.key with
  | none =>
    obtain ⟨op, _, n, _, rfl⟩ := R.network_of_key he hk
    exact ⟨_, mem_cons_self⟩
  | some k =>
    obtain ⟨pr, hpr⟩ := Entry.exists_route h.groups he hk
    rw [Entry.members_eq hk]
    exact ⟨_, mem_map_of_mem hpr⟩

omit plain in
theorem isLla_of_same (hop : op ∈ R.ports) (hop' : op' ∈ R.ports) (hne : op ≠ op') {n n' : Cidr}
    (hn : n ∈ op.networks) (hn' : n' ∈ op'.networks) (hsame : n.Same n') :
    n.isLla = true ∧ n'.isLla = true := by
  have hlla : ∀ {n n' : Cidr}, n.Same n' → n.isLla = n'.isLla := by
    intro n n' hsame
    unfold Cidr.isLla
    rw [hsame.1, hsame.2.2]
  have : Std.Symm fun op op' : Port => ∀ n ∈ op.networks, ∀ n' ∈ op'.networks, n.Same n' →
      n.isLla = true := by
    refine ⟨fun op op' h n hn n' hn' hsame => ?_⟩
    exact (hlla hsame).trans (h n' hn' n hn hsame.symm)
  have hpair := R.networks.imp
    (S := fun op op' => ∀ n ∈ op.networks, ∀ n' ∈ op'.networks, n.Same n' → n.isLla = true)
    fun h n hn n' hn' hsame => h n hn n' hn' hsame.1 hsame.2.1 hsame.2.2
  have h := hpair.forall hop hop' hne n hn n' hn' hsame
  exact ⟨h, hlla hsame ▸ h⟩

variable {p : Packet R}

theorem eq_of_networks {n n' : Cidr} (hop : op ∈ R.ports) (hn : n ∈ op.networks)
    (hop' : op' ∈ R.ports) (hn' : n' ∈ op'.networks) (hreach : (Entry.network op n).Reaches p)
    (hreach' : (Entry.network op' n').Reaches p) (hsame : n.Same n') : op = op' ∧ n = n' := by
  have heq : op = op' := by
    by_contra hne
    -- link-local networks reach the packets of their own port only
    obtain ⟨hlla, hlla'⟩ := isLla_of_same hop hop' hne hn hn' hsame
    exact hne (port_eq_of_name hop hop' ((hreach.1 hlla).trans (hreach'.1 hlla').symm))
  subst heq
  exact ⟨rfl, plain.networks op hop n hn n' hn' hsame⟩

theorem table_eq_of_applies {c c' : Cidr} {r r' : StaticRoute}
    (hmem : (c, r) ∈ R.accepted R.routes) (hmem' : (c', r') ∈ R.accepted R.routes)
    (happ : (Candidate.route c r).Applies p) (happ' : (Candidate.route c' r').Applies p)
    (hsrc : r.srcPolicy = r'.srcPolicy)
    (horigin : r.srcPolicy = false → r.originConnected = r'.originConnected) :
    r.routeTable = r'.routeTable := by
  have hmain : ∀ {c r}, (c, r) ∈ R.accepted R.routes → r.originConnected = true →
      r.srcPolicy = false → r.routeTable = "" :=
        fun hmem h1 h2 => (plain.connected _ _ hmem h1 h2).1
  by_cases hconn : (Candidate.route c r).connected = true
  · simp only [Candidate.connected, Bool.and_eq_true, Bool.not_eq_true'] at hconn
    have hconn' := (horigin hconn.2).symm.trans hconn.1
    rw [hmain hmem hconn.1 hconn.2, hmain hmem' hconn' (hsrc.symm.trans hconn.2)]
  · have hconn' : ¬ (Candidate.route c' r').connected = true := by
      intro h
      simp only [Candidate.connected, Bool.and_eq_true, Bool.not_eq_true'] at h hconn
      have hr := hsrc.trans h.2
      exact hconn ⟨(horigin hr).trans h.1, hr⟩
    exact (happ.2.1.resolve_left hconn).trans (happ'.2.1.resolve_left hconn').symm

theorem table_eq_of_reaches {c c' : Cidr} {r r' : StaticRoute}
    (hmem : (c, r) ∈ R.accepted R.routes) (hmem' : (c', r') ∈ R.accepted R.routes)
    (happ : (Candidate.route c r).Applies p ∨ (Candidate.route c r).Strays p)
    (happ' : (Candidate.route c' r').Applies p ∨ (Candidate.route c' r').Strays p)
    (hsrc : r.srcPolicy = r'.srcPolicy) (hsame : c.Same c')
    (horigin : r.srcPolicy = false → r.originConnected = r'.originConnected) :
    r.routeTable = r'.routeTable := by
  rcases happ with happ | ⟨hpolicy, hmain, -⟩
  · rcases happ' with happ' | ⟨hpolicy', hmain', -⟩
    · exact plain.table_eq_of_applies hmem hmem' happ happ' hsrc horigin
    · have hpolicy : r'.srcPolicy = true := hpolicy'
      exact (plain.source _ _ _ _ hmem' hmem hpolicy (hsrc.trans hpolicy) hmain' hsame.symm).trans
        hmain'.symm
  · have hpolicy : r.srcPolicy = true := hpolicy
    exact hmain.trans (plain.source _ _ _ _ hmem hmem' hpolicy (hsrc ▸ hpolicy) hmain hsame).symm

theorem eq_of_reaches {e e' : Entry} (he : e ∈ R.entries) (he' : e' ∈ R.entries)
    (hreach : e.Reaches p) (hreach' : e'.Reaches p) (hsame : e.cidr.Same e'.cidr)
    (hkind : e.kind = e'.kind) : e = e' := by
  obtain ⟨prs, h⟩ := R.groups_parsed plain.few
  cases hk : e.key with
  | none =>
    obtain ⟨op, hop, n, hn, rfl⟩ := R.network_of_key he hk
    cases hk' : e'.key with
    | none =>
      obtain ⟨op', hop', n', hn', rfl⟩ := R.network_of_key he' hk'
      obtain ⟨rfl, rfl⟩ := plain.eq_of_networks hop hn hop' hn' hreach hreach' hsame
      rfl
    | some k' => exact absurd hsame (plain.network_ne h he' hk' hop hn hkind.symm)
  | some k =>
    cases hk' : e'.key with
    | none =>
      obtain ⟨op', hop', n', hn', rfl⟩ := R.network_of_key he' hk'
      exact absurd hsame.symm (plain.network_ne h he hk hop' hn' hkind)
    | some k' =>
      obtain ⟨pr, hpr⟩ := Entry.exists_route h.groups he hk
      obtain ⟨pr', hpr'⟩ := Entry.exists_route h.groups he' hk'
      obtain ⟨hprs, hcidr, hsrc, htable, horigin⟩ := plain.entry_eq h he hk hpr
      obtain ⟨hprs', hcidr', hsrc', htable', horigin'⟩ := plain.entry_eq h he' hk' hpr'
      have hesrc := Entry.isSrcRoute_of_kind_eq hkind
      have hpolicy : pr.route.srcPolicy = pr'.route.srcPolicy := hsrc.symm.trans (hesrc.trans hsrc')
      rw [hcidr, hcidr'] at hsame
      have hname := plain.table_eq_of_reaches (h.mem_accepted hprs) (h.mem_accepted hprs')
        ((plain.reaches_route h he hk hpr p).1 hreach)
        ((plain.reaches_route h he' hk' hpr' p).1 hreach') hpolicy hsame fun hfalse =>
          horigin.symm.trans
            ((Entry.originConnected_of_kind_eq hkind (hsrc.trans hfalse)).trans horigin')
      have hwritten :=
        (plain.written _ _ _ _ (h.mem_accepted hprs) (h.mem_accepted hprs') hpolicy hname
        hsame).1
      have hid := ((h.known pr hprs).eq_iff (h.known pr' hprs')).2 hname
      refine Entry.eq_of_key h.groups he he' hk (hk'.trans (congrArg some ?_))
      rw [Entry.key_eq hk, Entry.key_eq hk', hcidr, hcidr', hesrc, htable, htable', hwritten, hid]

theorem table_of_members (he : e ∈ R.entries) {c' : Candidate} (hc : c ∈ e.members)
    (hc' : c' ∈ e.members) : c.table = c'.table := by
  obtain ⟨prs, h⟩ := R.groups_parsed plain.few
  cases hk : e.key with
  | none =>
    obtain ⟨op, _, n, _, rfl⟩ := R.network_of_key he hk
    rw [mem_singleton.1 hc, mem_singleton.1 hc']
  | some k =>
    rw [Entry.members_eq hk] at hc hc'
    obtain ⟨pr, hpr, rfl⟩ := mem_map.1 hc
    obtain ⟨pr', hpr', rfl⟩ := mem_map.1 hc'
    obtain ⟨hprs, -, -, htable, -⟩ := plain.entry_eq h he hk hpr
    obtain ⟨hprs', -, -, htable', -⟩ := plain.entry_eq h he hk hpr'
    exact ((h.known pr hprs).eq_iff (h.known pr' hprs')).1 (htable.symm.trans htable')

theorem le_iff {e' : Entry} {c' : Candidate} (he : e ∈ R.entries) (he' : e' ∈ R.entries)
    (hc : c ∈ e.members)
    (hc' : c' ∈ e'.members) : c'.le c ↔ ¬ e.lt e' := by
  obtain ⟨-, hcidr, -, hkind⟩ := plain.members_spec he hc
  obtain ⟨-, hcidr', -, hkind'⟩ := plain.members_spec he' hc'
  unfold Candidate.le Entry.lt
  rw [hcidr, hcidr', hkind, hkind']
  omega

theorem exists_best (hout : Outranked R p) (htop : e.IsTop R p) : ∃ c ∈ e.members, Best R p c := by
  obtain ⟨he, hreach, hnot⟩ := htop
  obtain ⟨c, hc⟩ := plain.exists_member he
  have hmem := (plain.members_spec he hc).1
  have hle : ∀ c' ∈ R.candidates, c'.Applies p → c'.le c := by
    intro c' hc' happ'
    obtain ⟨e', he', hc'⟩ := plain.exists_entry hc'
    exact (plain.le_iff he he' hc hc').2
      (hnot e' he' ((plain.reaches_iff he' hc' p).2 (.inl happ')))
  refine ⟨c, hc, hmem, ((plain.reaches_iff he hc p).1 hreach).resolve_right fun hstrays => ?_, hle⟩
  obtain ⟨c', hc', happ', hgt⟩ := hout c hmem hstrays
  exact hgt (hle c' hc' happ')

theorem lpm_of_outranked (hout : Outranked R p) : Lpm R p := by
  have heq : ∀ {ef ef' : Entry × Flow}, ef ∈ R.flows → ef' ∈ R.flows → ef.2.routeMatch.matches p →
      ef'.2.routeMatch.matches p → ef.2.priority = ef'.2.priority → ef.1 = ef'.1 := by
    rintro ⟨e, f⟩ ⟨e', f'⟩ hf hf' hmatch hmatch' hprio
    obtain ⟨he, hflow, -⟩ := R.mem_flows.1 hf
    obtain ⟨he', hflow', -⟩ := R.mem_flows.1 hf'
    have hreach := (R.reaches_iff he p).2 ⟨f, hf, hmatch⟩
    have hreach' := (R.reaches_iff he' p).2 ⟨f', hf', hmatch'⟩
    obtain ⟨hplen, hkind⟩ := Entry.eq_of_priority_eq hflow hflow' hprio
    exact plain.eq_of_reaches he he' hreach hreach'
      (Entry.same_of_reaches hreach hreach' hplen hkind) hkind
  refine ⟨fun c hc happ => ?_, ?_, ?_, ?_⟩
  · obtain ⟨e, he, hc⟩ := plain.exists_entry hc
    obtain ⟨f, hf, hmatch⟩ := (R.reaches_iff he p).1 ((plain.reaches_iff he hc p).2 (.inl happ))
    exact ⟨(e, f), hf, hmatch⟩
  · rintro ⟨e, f⟩ htop
    exact plain.exists_best hout ((Entry.isTop_iff htop.1 htop.2.1).2 htop)
  · rintro ⟨e, f⟩ ⟨e', f'⟩ htop htop' c hc c' hc'
    have hprio := Nat.le_antisymm (htop'.2.2 _ htop.1 htop.2.1) (htop.2.2 _ htop'.1 htop'.2.1)
    obtain rfl : e = e' := heq htop.1 htop'.1 htop.2.1 htop'.2.1 hprio
    have he := (R.mem_flows.1 htop.1).1
    rw [(plain.members_spec he hc).2.1, (plain.members_spec he hc').2.1]
    exact ⟨⟨rfl, rfl, rfl⟩, plain.table_of_members he hc hc'⟩
  · rintro ⟨e, f⟩ hf ⟨e', f'⟩ hf' hmatch hmatch' hprio
    obtain rfl : e = e' := heq hf hf' hmatch hmatch' hprio
    have hflow := (R.mem_flows.1 hf).2.1
    rw [(R.mem_flows.1 hf').2.1] at hflow
    cases hflow
    rfl

theorem outranked_of_lpm (h : Lpm R p) : Outranked R p := by
  have hlongest : ∀ {e : Entry}, e.IsTop R p → ∃ c ∈ e.members, Best R p c := by
    intro e htop
    obtain ⟨f, hf, hmatch⟩ := (R.reaches_iff htop.1 p).1 htop.2.1
    exact h.longest _ ((Entry.isTop_iff hf hmatch).1 htop)
  intro c hc hstrays
  obtain ⟨e, he, hc⟩ := plain.exists_entry hc
  obtain ⟨e', htop', htop | hlt⟩ := Entry.exists_isTop he
    ((plain.reaches_iff he hc p).2 (.inr hstrays))
  · -- a longest match among the routes of the entry is of the main table as well
    obtain ⟨c', hc', -, happ', -⟩ := hlongest htop
    have hsrc : c'.isSrcRoute = true :=
      (plain.members_spec he hc').2.2.1.trans
        ((plain.members_spec he hc).2.2.1.symm.trans hstrays.1)
    have htable := happ'.2.1.resolve_left
      (by rw [Candidate.connected_of_isSrcRoute hsrc]; exact nofun)
    rw [plain.table_of_members he hc' hc, hstrays.2.1] at htable
    exact absurd htable.symm hstrays.2.2.1
  · obtain ⟨c', hc', hmem', happ', -⟩ := hlongest htop'
    exact ⟨c', hmem', happ', fun hle => (plain.le_iff he htop'.1 hc hc').1 hle hlt⟩

end Plain

end Plain

def lan : Port :=
  ⟨"lan", 1, "blue", "00:00:00:00:00:01", [⟨.ipv4, 0x0a000001, 24, by decide, by decide, nofun⟩]⟩

def wan : Port :=
  ⟨"wan", 1, "", "00:00:00:00:00:02", [⟨.ipv4, 0xc0a80001, 24, by decide, by decide, nofun⟩]⟩

def viaWan : Nexthop := .addr (some ⟨.ipv4, 0xc0a800fe, 32, by decide, by decide, nofun⟩) true

def defaultCidr : Cidr := ⟨.ipv4, 0, 0, by decide, by decide, nofun⟩

def srcCidr : Cidr := ⟨.ipv4, 0x0a000000, 24, by decide, by decide, nofun⟩

/-- The default route of the table `blue`. -/
def defaultRoute : StaticRoute := ⟨some defaultCidr, viaWan, false, none, "blue", none,
      false, false⟩

/-- A source route of the main table. -/
def srcRoute : StaticRoute := ⟨some srcCidr, viaWan, true, none, "", none, false, false⟩

def blueRouter : Router where
  od := 1
  ports := [lan, wan]
  others := []
  routes := [defaultRoute, srcRoute]
  own := by decide
  foreign := by decide
  names := by decide
  networks := by decide

def bluePacket (dst : ℕ) : Packet blueRouter := ⟨lan, by decide, .ipv4, 0x0a000005, dst⟩

theorem blueRouter_accepted {r : StaticRoute} (h : (c, r) ∈ blueRouter.accepted blueRouter.routes) :
    c = defaultCidr ∧ r = defaultRoute ∨ c = srcCidr ∧ r = srcRoute := by
  have haccepted : blueRouter.accepted blueRouter.routes = [(defaultCidr, defaultRoute),
    (srcCidr, srcRoute)] := by
    decide
  simpa [haccepted] using h

theorem plain_blueRouter : Plain blueRouter where
  few := by decide
  networks := by
    unfold Cidr.Same
    decide
  readable := by decide
  outputPort := by decide
  lla c r h := by
    rcases blueRouter_accepted h with ⟨rfl, -⟩ | ⟨rfl, -⟩ <;> decide
  source c r c' r' _ h' _ hsrc _ _ := by
    rcases blueRouter_accepted h' with ⟨-, rfl⟩ | ⟨-, rfl⟩
    · cases hsrc
    · rfl
  connected c r h hconnected := by
    rcases blueRouter_accepted h with ⟨-, rfl⟩ | ⟨-, rfl⟩ <;> cases hconnected
  written c r c' r' h h' hsrc _ _ := by
    rcases blueRouter_accepted h with ⟨rfl, rfl⟩ | ⟨rfl, rfl⟩ <;>
      rcases blueRouter_accepted h' with ⟨rfl, rfl⟩ | ⟨rfl, rfl⟩
    · exact ⟨rfl, rfl⟩
    · cases hsrc
    · cases hsrc
    · exact ⟨rfl, rfl⟩

def srcEntry : Entry := .unique ⟨srcCidr, 0, srcRoute⟩

/-- Nothing strays to the packet that is not outranked, and still it is not routed by the longest
    match. -/
def Misrouted {R : Router} (p : Packet R) : Prop := Outranked R p ∧ ¬ Lpm R p

section
variable {R : Router} {p : Packet R}

theorem outranked_of_noSource (hsrc : ∀ c ∈ R.candidates, c.isSrcRoute = false) : Outranked R p :=
  fun c hc hs => by cases (hsrc c hc).symm.trans hs.1

theorem misrouted_of_unmatched {c : Cidr} {r : StaticRoute} (hr : (c, r) ∈ R.accepted R.routes)
    (hsrc : ∀ c ∈ R.candidates, c.isSrcRoute = false)
    (hin : c.contains p.family (p.addr r.srcPolicy))
    (htable : (Candidate.route c r).connected = true ∨ r.routeTable = p.inport.routeTable)
    (hno : ∀ ef ∈ R.flows, ef.2.routeMatch.matches p = false) : Misrouted p := by
  refine ⟨outranked_of_noSource hsrc, fun h => ?_⟩
  obtain ⟨ef, hef, hm⟩ := h.routed (.route c r) (Router.mem_candidates.2 hr) ⟨hin, htable, nofun⟩
  cases (hno ef hef).symm.trans hm

theorem misrouted_of_disagree (hout : Outranked R p)
    (h : ∃ ef ∈ R.flows, ∃ ef' ∈ R.flows, ef.2.routeMatch.matches p ∧ ef'.2.routeMatch.matches p ∧
      ef.2.priority = ef'.2.priority ∧ ef.2.actions ≠ ef'.2.actions) : Misrouted p := by
  obtain ⟨ef, hef, ef', hef', hm, hm', hprio, hne⟩ := h
  exact ⟨hout, fun h => hne (h.agree ef hef ef' hef' hm hm' hprio)⟩

end

def edge : Port := ⟨"edge", 1, "", "00:00:00:00:00:03",
  [⟨.ipv4, 0x0a010001, 24, by decide, by decide, nofun⟩,
    ⟨.ipv4, 0x0a010002, 24, by decide, by decide, nofun⟩,
    ⟨.ipv6, 0xfd00 <<< 112 + 1, 64, by decide, by decide, by decide⟩]⟩

/-- `edge` has two addresses of a network, as has a port of another router. -/
def edgeRouter (routes : List StaticRoute) : Router where
  od := 1
  ports := [lan, edge]
  others := [{ edge with name := "far", od := 2 }]
  routes := routes
  own := by decide
  foreign := by decide
  names := by decide
  networks := by decide

def viaLan (family : Family) (dst : ℕ) (routes : List StaticRoute) : Packet (edgeRouter routes) :=
  ⟨lan, mem_cons_self, family, 0x0a000005, dst⟩

def viaEdge (family : Family) (dst : ℕ) (routes : List StaticRoute) : Packet (edgeRouter routes) :=
  ⟨edge, mem_cons_of_mem _ mem_cons_self, family, 0x0a000005, dst⟩

/-- A discard route, or one with an output port. -/
def routeTo (c : Cidr) (outputPort : Option String) (table : String) (src connected : Bool) :
    StaticRoute :=
  ⟨some c, if outputPort.isNone then .discard else .empty, src, outputPort, table, none, connected,
    false⟩

/-- 10.2.0.0/16, 10.2.0.5/16, fe80::/64 and ::10.0.0.0/104. -/
def cidr2 : Cidr := ⟨.ipv4, 0x0a020000, 16, by decide, by decide, nofun⟩

def hostCidr2 : Cidr := ⟨.ipv4, 0x0a020005, 16, by decide, by decide, nofun⟩

def llaCidr : Cidr := ⟨.ipv6, 0xfe80 <<< 112, 64, by decide, by decide, by decide⟩

def dottedCidr : Cidr := ⟨.ipv6, 0x0a000000, 104, by decide, by decide, by decide⟩

/-- **No clause of `Plain` can be left out**, the bound apart.  In turn: two addresses of a port in
    one network; a network that is printed with dots; the port of another router; a link-local
    prefix; source routes of two tables; a connected route of a table, and one to the network of a
    port; and routes to one network that are written in two ways, or of which one is connected. -/
theorem plain_needed :
    Misrouted (viaEdge .ipv4 0x0a010009 []) ∧
    Misrouted (viaEdge .ipv6 0x0a000001 [routeTo dottedCidr none "" false false]) ∧
    Misrouted (viaEdge .ipv4 0x0a020009 [routeTo cidr2 (some "far") "" false false]) ∧
    Misrouted (viaLan .ipv6 (0xfe80 <<< 112 + 1)
      [routeTo llaCidr (some "edge") "blue" false false]) ∧
    Misrouted (viaLan .ipv4 0x0a000009 [routeTo defaultCidr none "" true false,
      routeTo defaultCidr (some "edge") "blue" true false]) ∧
    Misrouted (viaEdge .ipv4 0x0a020009 [routeTo cidr2 none "blue" false true]) ∧
    Misrouted (viaEdge .ipv4 0x0a000009 [routeTo srcCidr none "" false true]) ∧
    Misrouted (viaEdge .ipv4 0x0a020009
      [routeTo cidr2 none "" false false, routeTo hostCidr2 (some "edge") "" false false]) ∧
    Misrouted (viaLan .ipv4 0x0a020009
      [routeTo cidr2 (some "edge") "" false false, routeTo cidr2 (some "edge") "" false true]) := by
  refine ⟨misrouted_of_disagree (outranked_of_noSource (by decide)) (by decide),
    misrouted_of_unmatched mem_cons_self (by decide) (by decide) (by decide) (by decide),
    misrouted_of_unmatched mem_cons_self (by decide) (by decide) (by decide) (by decide),
    misrouted_of_unmatched mem_cons_self (by decide) (by decide) (by decide) (by decide),
    misrouted_of_disagree (fun c hc hs => ?_) (by decide),
    misrouted_of_unmatched mem_cons_self (by decide) (by decide) (by decide) (by decide),
    misrouted_of_disagree (outranked_of_noSource (by decide)) (by decide),
    misrouted_of_disagree (outranked_of_noSource (by decide)) (by decide),
    misrouted_of_unmatched (mem_cons_of_mem _ mem_cons_self) (by decide) (by decide) (by decide)
      (by decide)⟩
  have hplen : ∀ c ∈ (edgeRouter [routeTo defaultCidr none "" true false,
      routeTo defaultCidr (some "edge") "blue" true false]).candidates,
      c.isSrcRoute = true → c.cidr.plen = 0 := by decide
  refine ⟨.network lan ⟨.ipv4, 0x0a000001, 24, by decide, by decide, nofun⟩, by decide,
    ⟨by decide, .inl rfl, ?_⟩, ?_⟩
  · rintro _ _ ⟨⟩ hlla
    exact absurd hlla (by decide)
  · rintro (hlt | ⟨heq, -⟩)
    · exact absurd (hplen c hc hs.1 ▸ hlt) (by decide)
    · exact absurd (heq.trans (hplen c hc hs.1)) (by decide)

end Ovn.Routes

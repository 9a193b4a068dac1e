/-
  Routes of a logical router: the flows of `S_ROUTER_IN_IP_ROUTING`.

  Static routes are parsed in the order they are configured.  Those with one written prefix, policy
  and route table become an ECMP group with a single flow, the others get a flow each, and so does
  every network of a port.  The priority of a flow is meant to implement longest-prefix match.
-/
import Mathlib.Tactic.Ring
import Mathlib.Data.List.Lookmap

namespace Ovn.Routes

/-! ## Addresses -/

inductive Family
  | ipv4
  | ipv6
  deriving DecidableEq, Repr

def Family.width : Family → ℕ
  | .ipv4 => 32
  | .ipv6 => 128

/-- An address with the length of a network prefix, as `ip46_parse_cidr` reads it: the host bits
    stay.  An IPv6 address that maps an IPv4 one is an IPv4 address everywhere in the code. -/
structure Cidr where
  family : Family
  addr : ℕ
  plen : ℕ
  addr_lt : addr < 2 ^ family.width
  plen_le : plen ≤ family.width
  unmapped : family = .ipv6 → addr / 2 ^ 32 ≠ 0xffff
  deriving DecidableEq, Repr

namespace Cidr

def size (c : Cidr) : ℕ :=
  2 ^ (c.family.width - c.plen)

def networkAddr (c : Cidr) : ℕ :=
  c.addr / c.size * c.size

def contains (c : Cidr) (family : Family) (a : ℕ) : Bool :=
  c.family = family ∧ a / c.size = c.addr / c.size

/-- `in6_is_lla` of the network: `fe80::/64`. -/
def isLla (c : Cidr) : Bool :=
  c.family = .ipv6 ∧ c.networkAddr / 2 ^ 64 = 0xfe80000000000000

/-- `strchr(network_s, '.')`.  An IPv6 address with only its last 32 bits set, and not only the last
    16, is printed with dots as well. -/
def dotted (c : Cidr) : Bool :=
  c.family = .ipv4 ∨ 2 ^ 16 ≤ c.networkAddr ∧ c.networkAddr < 2 ^ 32

end Cidr

/-! ## Configuration -/

/-- A router port with its router, its option `route_table` (empty without one), its Ethernet
    address and `lrp_networks`: the networks with the address the port has there. -/
structure Port where
  name : String
  od : ℕ
  routeTable : String
  ea : String
  networks : List Cidr
  deriving DecidableEq, Repr

/-- `nexthop` of a static route: empty, `"discard"`, or read by `ip46_parse_cidr`.  That reads more
    than the lookup of an address does: a text with a mask, or an IPv6 address with dots, is not
    `plain`. -/
inductive Nexthop
  | empty
  | discard
  | addr (parsed : Option Cidr) (plain : Bool)
  deriving DecidableEq, Repr

inductive BfdStatus
  | adminDown
  | down
  | init
  | up
  deriving DecidableEq, Repr

/-- A row of `Logical_Router_Static_Route`.  `bfd` is the status of a BFD session to the next hop,
    and the options are `origin` with value `connected` and `ecmp_symmetric_reply`. -/
structure StaticRoute where
  ipCidr : Option Cidr
  nexthop : Nexthop
  srcPolicy : Bool
  outputPort : Option String
  routeTable : String
  bfd : Option BfdStatus
  originConnected : Bool
  ecmpSymmetricReply : Bool
  deriving DecidableEq, Repr

/-- A logical router with its ports and static routes, and the ports of the other routers.  Ports
    are known by their names; a network is on one port only, the link-local one apart. -/
structure Router where
  od : ℕ
  ports : List Port
  others : List Port
  routes : List StaticRoute
  own : ∀ op ∈ ports, op.od = od
  foreign : ∀ op ∈ others, op.od ≠ od
  names : ((ports ++ others).map Port.name).Nodup
  networks : ports.Pairwise fun op op' => ∀ n ∈ op.networks, ∀ n' ∈ op'.networks,
    n.family = n'.family → n.plen = n'.plen → n.networkAddr = n'.networkAddr → n.isLla

/-! ## Route tables -/

def uint16Max : ℕ := 65535

/-- `simap_get`: the ids are given in the order of the names, from 1 on. -/
def simapGet (tables : List String) (name : String) : ℕ :=
  if name ∈ tables then tables.idxOf name + 1 else 0

def routeTableAdd (tables : List String) (name : String) : List String × ℕ :=
  if tables.length + 1 = uint16Max then (tables, 0) else (tables ++ [name], tables.length + 1)

def getRouteTableId (tables : List String) (name : String) : List String × ℕ :=
  if name = "" then (tables, 0)
  else if simapGet tables name = 0 then routeTableAdd tables name
  else (tables, simapGet tables name)

/-- `build_route_table_lflow` for each port: the table each ingress port selects. -/
def buildRouteTableLflows (tables : List String) : List Port → List String × List (String × ℕ)
  | [] => (tables, [])
  | op :: ports =>
    let (tables, id) := getRouteTableId tables op.routeTable
    let (tables, flows) := buildRouteTableLflows tables ports
    (tables, if id = 0 then flows else (op.name, id) :: flows)

/-! ## Parsing of routes -/

/-- `struct parsed_route`; what it copies from the route is read there. -/
structure ParsedRoute where
  cidr : Cidr
  routeTableId : ℕ
  route : StaticRoute
  deriving DecidableEq, Repr

namespace ParsedRoute

def isSrcRoute (pr : ParsedRoute) : Bool :=
  pr.route.srcPolicy

def isDiscardRoute (pr : ParsedRoute) : Bool :=
  pr.route.nexthop = .discard

/-- What routes must share to be in one ECMP group: the prefix as it is written, the policy and the
    table. -/
def key (pr : ParsedRoute) : Cidr × Bool × ℕ :=
  (pr.cidr, pr.isSrcRoute, pr.routeTableId)

end ParsedRoute

/-- `find_lrp_member_ip`: the address of a port in the network of the next hop. -/
def findLrpMemberIp (op : Port) : Nexthop → Option ℕ
  | .addr (some c) true => (op.networks.find? fun n => n.contains c.family c.addr).map Cidr.addr
  | _ => none

def firstAddr (op : Port) (family : Family) : Option ℕ :=
  (op.networks.find? fun n => n.family = family).map Cidr.addr

variable (R : Router)

/-- `find_static_route_outport`: the address and the port a route leaves by. -/
def findStaticRouteOutport (route : StaticRoute) (family : Family) : Option (ℕ × Port) :=
  match route.outputPort with
  | some name => do
    let op ← (R.ports ++ R.others).find? fun op => op.name = name
    let a ← (findLrpMemberIp op route.nexthop).orElse fun _ => firstAddr op family
    some (a, op)
  | none => R.ports.findSome? fun op => (findLrpMemberIp op route.nexthop).map fun a => (a, op)

def Nexthop.valid : Nexthop → Bool
  | .addr none _ => false
  | .addr (some c) _ => c.plen = c.family.width
  | _ => true

def Nexthop.hasFamily (family : Family) : Nexthop → Bool
  | .addr (some c) _ => family = c.family
  | _ => true

/-- The checks of `parsed_routes_add`; the result is the prefix of the route. -/
def checkRoute (route : StaticRoute) : Option Cidr :=
  if !route.nexthop.valid then none
  else
    match route.ipCidr with
    | none => none
    | some c =>
      if !route.nexthop.hasFamily c.family then none
      else if route.nexthop ≠ .discard ∧ findStaticRouteOutport R route c.family = none then none
      else if route.bfd = some .adminDown ∨ route.bfd = some .down then none
      else some c

def parsedRoutesAdd (tables : List String) (route : StaticRoute) :
    Option (List String × ParsedRoute) := do
  let c ← checkRoute R route
  let (tables, id) := getRouteTableId tables route.routeTable
  pure (tables, ⟨c, id, route⟩)

/-! ## Groups of routes -/

/-- `struct ecmp_groups_node`, with the members and their ids. -/
structure EcmpGroup where
  id : ℕ
  cidr : Cidr
  isSrcRoute : Bool
  originConnected : Bool
  routeTableId : ℕ
  routeList : List (ℕ × ParsedRoute)
  deriving DecidableEq, Repr

namespace EcmpGroup

def key (eg : EcmpGroup) : Cidr × Bool × ℕ :=
  (eg.cidr, eg.isSrcRoute, eg.routeTableId)

/-- `ecmp_groups_add_route`. -/
def addRoute (eg : EcmpGroup) (pr : ParsedRoute) : EcmpGroup :=
  if eg.routeList.length = uint16Max then eg
  else { eg with routeList := eg.routeList ++ [(eg.routeList.length + 1, pr)] }

end EcmpGroup

/-- The route tables, the ECMP groups and the routes that are alone. -/
structure Groups where
  tables : List String
  ecmpGroups : List EcmpGroup
  uniqueRoutes : List ParsedRoute
  deriving DecidableEq, Repr

namespace Groups

/-- `ecmp_groups_add`; nothing is added when there are too many. -/
def ecmpGroupsAdd (s : Groups) (pr : ParsedRoute) : Option EcmpGroup :=
  if s.ecmpGroups.length = uint16Max then none
  else some (EcmpGroup.addRoute
    ⟨s.ecmpGroups.length + 1, pr.cidr, pr.isSrcRoute, pr.route.originConnected,
      pr.routeTableId, []⟩ pr)

/-- What is done with a parsed route: `ecmp_groups_find`, `unique_routes_remove` and what
    follows. -/
def place (s : Groups) (pr : ParsedRoute) : Groups :=
  if s.ecmpGroups.any fun eg => eg.key = pr.key then
    { s with
      ecmpGroups := s.ecmpGroups.map fun eg => if eg.key = pr.key then eg.addRoute pr else eg }
  else
    match s.uniqueRoutes.find? fun ur => ur.key = pr.key with
    | some existed =>
      { s with
        uniqueRoutes := s.uniqueRoutes.erase existed
        ecmpGroups := match s.ecmpGroupsAdd existed with
          | some eg => s.ecmpGroups ++ [eg.addRoute pr]
          | none => s.ecmpGroups }
    | none =>
      if pr.route.ecmpSymmetricReply then
        { s with ecmpGroups := s.ecmpGroups ++ (s.ecmpGroupsAdd pr).toList }
      else
        { s with uniqueRoutes := s.uniqueRoutes ++ [pr] }

/-- One round of the loop over the static routes. -/
def addStaticRoute (s : Groups) (route : StaticRoute) : Groups :=
  match parsedRoutesAdd R s.tables route with
  | none => s
  | some (tables, pr) => { s with tables := tables }.place pr

end Groups

def Router.groups : Groups :=
  R.routes.foldl (Groups.addStaticRoute R) ⟨(buildRouteTableLflows [] R.ports).1, [], []⟩

/-! ## Flows -/

/-- `REG_ECMP_GROUP_ID` is set to zero by `forward`, and to the group by `ecmp`. -/
inductive Actions
  | drop
  | forward (isIpv4 : Bool) (gateway : Option ℕ) (lrpAddr : ℕ) (ea outport : String)
  | ecmp (groupId : ℕ) (memberIds : List ℕ)
  deriving DecidableEq, Repr

/-- `inport == "…" && reg7 == … && ip4.dst == network/plen`, with the first two where they are. -/
structure RouteMatch where
  inport : Option String
  routeTableId : Option ℕ
  isIpv4 : Bool
  isSrcRoute : Bool
  family : Family
  network : ℕ
  plen : ℕ
  deriving DecidableEq, Repr

structure Flow where
  od : ℕ
  priority : ℕ
  routeMatch : RouteMatch
  actions : Actions
  deriving DecidableEq, Repr

/-- `ROUTE_PRIO_OFFSET_STATIC` and `ROUTE_PRIO_OFFSET_CONNECTED`. -/
def prioOffset (connected : Bool) : ℕ :=
  if connected then 2 else 1

/-- `build_route_match`; a source route has offset 0 from here on, also where the offset decides
    whether the table is matched. -/
def buildRouteMatch (inport : Option String) (rtbId : ℕ) (c : Cidr) (isSrcRoute isIpv4 : Bool)
    (ofs : ℕ) : RouteMatch × ℕ :=
  let ofs := if isSrcRoute then 0 else ofs
  ({ inport := inport
     routeTableId := if rtbId ≠ 0 ∨ ofs = 1 then some rtbId else none
     isIpv4 := isIpv4
     isSrcRoute := isSrcRoute
     family := c.family
     network := c.networkAddr
     plen := c.plen }, c.plen * 3 + ofs)

/-- `add_route`; a route without a way out is a discard route. -/
def addRoute (od : ℕ) (out : Option (ℕ × Port)) (c : Cidr) (gateway : Option ℕ)
    (isSrcRoute : Bool) (rtbId ofs : ℕ) : Flow :=
  let inport := if !c.dotted && c.isLla then out.map fun o => o.2.name else none
  let (m, priority) := buildRouteMatch inport rtbId c isSrcRoute c.dotted ofs
  { od := od
    priority := priority
    routeMatch := m
    actions := match out with
      | none => .drop
      | some (a, op) => .forward c.dotted gateway a op.ea op.name }

/-- What a flow is made of: a network of a port, a route that is alone, or an ECMP group. -/
inductive Entry
  | network (op : Port) (n : Cidr)
  | unique (pr : ParsedRoute)
  | ecmp (eg : EcmpGroup)
  deriving DecidableEq, Repr

/-- `build_ip_routing_flows_for_lrp` for each port, then `build_ecmp_route_flow` and
    `build_static_route_flow`. -/
def Router.entries : List Entry :=
  (R.ports.flatMap fun op => op.networks.map (.network op)) ++
    R.groups.ecmpGroups.map .ecmp ++ R.groups.uniqueRoutes.map .unique

def Nexthop.gateway : Nexthop → Option ℕ
  | .addr (some c) _ => some c.addr
  | _ => none

/-- `build_static_route_flow`; the flow is added to the router of the port. -/
def buildStaticRouteFlow (pr : ParsedRoute) : Option Flow :=
  let ofs := prioOffset pr.route.originConnected
  if pr.isDiscardRoute then
    some (addRoute R.od none pr.cidr none pr.isSrcRoute pr.routeTableId ofs)
  else
    (findStaticRouteOutport R pr.route pr.cidr.family).map fun out =>
      addRoute out.2.od (some out) pr.cidr pr.route.nexthop.gateway pr.isSrcRoute
        pr.routeTableId ofs

/-- The flow in the routing stage that `build_ecmp_route_flow` adds. -/
def buildEcmpRouteFlow (eg : EcmpGroup) : Flow :=
  let (m, priority) := buildRouteMatch none eg.routeTableId eg.cidr eg.isSrcRoute
    (eg.cidr.family = .ipv4) (prioOffset eg.originConnected)
  ⟨R.od, priority, m, .ecmp eg.id (eg.routeList.map Prod.fst)⟩

def Entry.flow : Entry → Option Flow
  | .network op n => some (addRoute op.od (some (n.addr, op)) n none false 0 (prioOffset true))
  | .unique pr => buildStaticRouteFlow R pr
  | .ecmp eg => some (buildEcmpRouteFlow R eg)

/-- The routing flows of the router itself, each with what it is made of. -/
def Router.flows : List (Entry × Flow) :=
  R.entries.filterMap fun e => (e.flow R).bind fun f => if f.od = R.od then some (e, f) else none

/-! ## Packets -/

structure Packet (R : Router) where
  inport : Port
  inport_mem : inport ∈ R.ports
  family : Family
  src : ℕ
  dst : ℕ

namespace Packet

variable {R : Router}

def addr (p : Packet R) (isSrcRoute : Bool) : ℕ :=
  if isSrcRoute then p.src else p.dst

/-- `REG_ROUTE_TABLE_ID` behind `S_ROUTER_IN_IP_ROUTING_PRE`, where it is 0 by default. -/
def routeTableId (p : Packet R) : ℕ :=
  ((buildRouteTableLflows [] R.ports).2.lookup p.inport.name).getD 0

end Packet

/-- A match on an IPv4 field with an IPv6 network is refused, and matches no packet. -/
def RouteMatch.matches {R : Router} (m : RouteMatch) (p : Packet R) : Bool :=
  (m.inport.all fun name => name = p.inport.name) ∧
    (m.routeTableId.all fun id => id = p.routeTableId) ∧
    (m.isIpv4 = true ↔ m.family = .ipv4) ∧ m.family = p.family ∧
    let size := 2 ^ (m.family.width - m.plen)
    p.addr m.isSrcRoute / size * size = m.network

end Ovn.Routes

/-
  Southbound address sets (`northd/en-sync-sb.c`).

  The southbound address sets are the northbound ones, two that are generated for each port group,
  up to two for each router with load balancers, and one for the MAC of the service monitors.  A
  full sync claims the southbound rows by name, set by set; changes of address sets and of port
  groups are also handled on their own, as long as the southbound rows of their names are there.
-/
import Ovn.Northd.PortGroup

namespace Ovn.AddrSets

open PortGroups (PortGroup)

/-! ## Northbound content -/

structure AddressSet where
  uuid : ℕ
  name : String
  addresses : Finset String
  deriving DecidableEq

/-- What is read of a `Logical_Switch_Port`. -/
structure Lsp where
  addresses : List String
  dynamicAddresses : Option String

/-- What is read of a `struct lr_stateful_record`, with the tunnel key of its router. -/
structure LrStateful where
  tunnelKey : ℕ
  ipsV4Reachable : Finset String
  ipsV6Reachable : Finset String

/-- How addresses of ports are read: `is_dynamic_lsp_address`, and the IPv4 and IPv6 addresses that
    `split_addresses` finds. -/
structure Parser where
  isDynamicLspAddress : String → Bool
  splitAddresses : String → List String × List String

structure Content where
  addressSets : List AddressSet
  portGroups : List PortGroup
  lsp : ℕ → Lsp
  lrStatefuls : List LrStateful
  svcMonitorMac : String
  nodup_addressSets : (addressSets.map (·.uuid)).Nodup
  nodup_portGroups : (portGroups.map (·.uuid)).Nodup

/-- A southbound `Address_Set`. -/
abbrev SbAddressSet := NamedSet String String

/-! ## Sets -/

/-- A set to be synced: its name, and its addresses as a sorted array. -/
structure AddrSet where
  name : String
  addresses : List String

def sortedFromSvec (v : List String) : List String := v.mergeSort fun a b => a ≤ b

variable (pr : Parser)

def buildPortGroupAddressSet (lsp : ℕ → Lsp) (g : PortGroup) : List String × List String :=
  g.ports.foldl (fun acc port =>
    let add := fun (acc : List String × List String) addrs =>
      (acc.1 ++ (pr.splitAddresses addrs).1, acc.2 ++ (pr.splitAddresses addrs).2)
    let acc := (lsp port).addresses.foldl (fun acc addrs =>
      if pr.isDynamicLspAddress addrs then acc else add acc addrs) acc
    ((lsp port).dynamicAddresses.map (add acc)).getD acc) ([], [])

def portGroupSets (lsp : ℕ → Lsp) (g : PortGroup) : List AddrSet :=
  let (ipv4Addrs, ipv6Addrs) := buildPortGroupAddressSet pr lsp g
  [⟨g.name ++ "_ip4", sortedFromSvec ipv4Addrs⟩, ⟨g.name ++ "_ip6", sortedFromSvec ipv6Addrs⟩]

inductive Family
  | inet
  | inet6

def lrLbAddressSetName (lrTunnelKey : ℕ) (family : Family) : String :=
  "_rtr_lb_" ++ toString lrTunnelKey ++ "_ip" ++ match family with
    | .inet => "4"
    | .inet6 => "6"

/-- The sets of a router: there are none for no addresses. -/
def lrSets (r : LrStateful) : List AddrSet :=
  (if r.ipsV4Reachable = ∅ then []
    else [⟨lrLbAddressSetName r.tunnelKey .inet, r.ipsV4Reachable.sort⟩]) ++
    if r.ipsV6Reachable = ∅ then []
    else [⟨lrLbAddressSetName r.tunnelKey .inet6, r.ipsV6Reachable.sort⟩]

def userSet (a : AddressSet) : AddrSet := ⟨a.name, a.addresses.sort⟩

def generatedSets (c : Content) : List AddrSet :=
  ⟨"svc_monitor_mac", [c.svcMonitorMac]⟩ :: (c.portGroups.flatMap (portGroupSets pr c.lsp) ++
    c.lrStatefuls.flatMap lrSets)

/-- All sets, in the order of `sync_addr_sets`. -/
def addrSets (c : Content) : List AddrSet := generatedSets pr c ++ c.addressSets.map userSet

/-! ## The full sync -/

def syncAddrSet (claims : Claims SbAddressSet) (a : AddrSet) : Claims SbAddressSet :=
  claims.claim NamedSet.name a.name ⟨a.name, a.addresses.toFinset⟩ (·.update a.addresses)

def syncAddrSets (c : Content) (sb : List SbAddressSet) : List SbAddressSet :=
  ((addrSets pr c).foldl syncAddrSet ⟨sb, []⟩).rows

/-! ## Changes -/

def updateSbAddrSet (a : AddrSet) (sb : List SbAddressSet) : List SbAddressSet :=
  modifyRow NamedSet.name a.name (·.update a.addresses) sb

structure Input where
  content : Content
  trackedSets : List (TrackedRow AddressSet)
  trackedGroups : List (TrackedRow PortGroup)

/-- `sync_to_sb_addr_set_nb_address_set_handler`: `none` if it returns false. -/
def nbAddressSetHandler (tracked : List (TrackedRow AddressSet)) (sb : List SbAddressSet) :
    Option (List SbAddressSet) :=
  if tracked.any fun t => t.isNew || t.isDeleted then none
  else tracked.foldlM (fun sb t =>
    if t.row.name ∈ sb.map NamedSet.name then some (updateSbAddrSet (userSet t.row) sb)
    else none) sb

/-- `sync_to_sb_addr_set_nb_port_group_handler`. -/
def nbPortGroupHandler (lsp : ℕ → Lsp) (tracked : List (TrackedRow PortGroup))
    (sb : List SbAddressSet) : Option (List SbAddressSet) :=
  if tracked.any fun t => t.isNew || t.isDeleted then none
  else tracked.foldlM (fun sb t =>
    if (portGroupSets pr lsp t.row).all fun a => a.name ∈ sb.map NamedSet.name then
      some ((portGroupSets pr lsp t.row).foldl (fun sb a => updateSbAddrSet a sb) sb)
    else none) sb

/-- The handlers of a run of the engine, one after the other. -/
def handlers (inp : Input) (sb : List SbAddressSet) : Option (List SbAddressSet) := do
  let sb ← nbAddressSetHandler inp.trackedSets sb
  nbPortGroupHandler pr inp.content.lsp inp.trackedGroups sb

structure State where
  content : Content
  sb : List SbAddressSet

inductive Action
  | recompute (content : Content) (sb : List SbAddressSet)
  /-- Address sets and port groups changed: they are handled, or else all is synced. -/
  | change (inp : Input)

def step (s : State) : Action → State
  | .recompute content sb => ⟨content, syncAddrSets pr content sb⟩
  | .change inp => ⟨inp.content, (handlers pr inp s.sb).getD (syncAddrSets pr inp.content s.sb)⟩

/-- The southbound address sets of northd, from some content. -/
def addrSetSync (content : Content) (sb : List SbAddressSet) : System State Action :=
  ⟨⟨content, syncAddrSets pr content sb⟩, fun s a => some (step pr s a)⟩

end Ovn.AddrSets

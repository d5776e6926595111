import Mathlib.Algebra.Group.Int.Defs
import Mathlib.Algebra.GroupWithZero.Nat
import Mathlib.Data.List.Forall2
import WslPlus.Network.HostListeners
import WslPlus.Network.Mirrored

/-!
# The routes that are mirrored

`ProcessRouteChange` replaces the routes of every endpoint by those the host has for its interface. Linux
needs an on-link route to every next hop; where the host has none, one is added.

Texts of addresses and prefixes are only compared for equality here, and so are the addresses in their place.
-/

namespace WslPlus.Network.Mirrored

open Bool List Option

/-- `NL_ADDRESS_TYPE` -/
inductive NlAddressType where
  | unspecified
  | unicast
  | anycast
  | multicast
  | broadcast
  | invalid
  deriving DecidableEq

/-- Functions of the system. -/
structure AddressTypes where
  ipv4AddressType : Nat → NlAddressType
  ipv6AddressType : Int → Int → NlAddressType

def NlAddressType.isMirrored (t : NlAddressType) : Bool := t = .unspecified || t = .unicast

/-- `MIB_IPFORWARD_ROW2` -/
structure ForwardRow where
  interfaceIndex : Nat
  destinationPrefix : SockAddrInet
  destinationPrefixLength : Nat
  nextHop : SockAddrInet
  sitePrefixLength : Nat := 0
  metric : UInt32
  isIp : nextHop.family ≠ .unspec

/-- `MIB_UNICASTIPADDRESS_ROW` -/
structure UnicastRow where
  interfaceIndex : Nat
  address : SockAddrInet
  /-- The state of the address is `IpDadStatePreferred`. -/
  isPreferred : Bool

/-- The settings of an endpoint that decide about its routes. -/
structure RouteSettings where
  interfaceIndex : Nat
  isConnected : Bool
  ipAddresses : List HostIpAddress
  routes : List HostRoute
  ipv4InterfaceMetric : Option UInt32
  ipv6InterfaceMetric : Option UInt32
  disableIpv4DefaultRoutes : Bool
  disableIpv6DefaultRoutes : Bool

def HostRoute.getMaxPrefixLength (r : HostRoute) : Nat := if r.family = .inet then 32 else 128

def HostRoute.isDefault (r : HostRoute) : Bool :=
  r.destinationPrefixLength = 0 &&
    ((r.family = .inet && r.destinationPrefix = .inet 0) || (r.family = .inet6 && r.destinationPrefix = .inet6 0 0))

def HostRoute.isUnicastAddressRoute (r : HostRoute) : Bool :=
  (r.family = .inet && r.destinationPrefixLength = 32) || (r.family = .inet6 && r.destinationPrefixLength = 128)

def wordBytes (count : Nat) (x : Nat) : List Nat := (List.range count).map fun i => x / 256 ^ i % 256

def addressBytes : SockAddrInet → List Nat
  | .unspec => []
  | .inet a => wordBytes 4 a
  | .inet6 a b => wordBytes 8 (a % 2 ^ 64).toNat ++ wordBytes 8 (b % 2 ^ 64).toNat

def maskBytes : Nat → List Nat → List Nat
  | _, [] => []
  | length, b :: bs =>
    (if length < 8 then b &&& ((0xFF >>> (8 - length)) <<< (8 - length)) else b) :: maskBytes (length - 8) bs

/-- The text of `GetPrefix` is the text of `GetFullDestinationPrefix`. -/
def hasPrefixOf (a : HostIpAddress) (r : HostRoute) : Bool :=
  a.address.family ≠ .unspec && a.address.family = r.destinationPrefix.family &&
    a.prefixLength = r.destinationPrefixLength &&
    maskBytes a.prefixLength (addressBytes a.address) = addressBytes r.destinationPrefix

/-- `GetIpv4BroadcastMask`, where a shift by 32 bits is one by none. -/
def getIpv4BroadcastMask (a : HostIpAddress) : Option SockAddrInet :=
  match a.address with
  | .inet sAddr =>
    let prefixMask : UInt32 := (0xFFFFFFFF <<< UInt32.ofNat a.prefixLength) >>> UInt32.ofNat a.prefixLength
    some (.inet (HostListeners.ntohl (HostListeners.ntohl (UInt32.ofNat sAddr) ||| prefixMask)).toNat)
  | _ => none

namespace RouteSettings

variable (n : RouteSettings)

def endpointRoute (row : ForwardRow) : HostRoute :=
  let route : HostRoute :=
    { family := row.nextHop.family
      destinationPrefix := row.destinationPrefix
      destinationPrefixLength := row.destinationPrefixLength
      nextHop := row.nextHop
      sitePrefixLength := row.sitePrefixLength
      metric := row.metric.toNat }
  { route with isAutoGeneratedPrefixRoute := route.isNextHopOnlink && n.ipAddresses.any fun a => hasPrefixOf a route }

def isDeprecated (table : List UnicastRow) (row : ForwardRow) : Bool :=
  table.any fun a => a.interfaceIndex = n.interfaceIndex && a.address = row.destinationPrefix && !a.isPreferred

def ignoresDestination (types : AddressTypes) (row : ForwardRow) : Bool :=
  match row.destinationPrefix with
  | .inet a =>
    (n.disableIpv4DefaultRoutes && (n.endpointRoute row).isDefault) || !(types.ipv4AddressType a).isMirrored ||
      n.ipAddresses.any fun address => getIpv4BroadcastMask address = some row.destinationPrefix
  | .inet6 a b =>
    (n.disableIpv6DefaultRoutes && (n.endpointRoute row).isDefault) || !(types.ipv6AddressType a b).isMirrored
  | .unspec => false

/-- Whether a row is left out; `none` if that takes the table of addresses and it cannot be read. -/
def ignores (types : AddressTypes) (addressTable : Option (List UnicastRow)) (row : ForwardRow) : Option Bool :=
  if row.interfaceIndex ≠ n.interfaceIndex || n.ipAddresses.any (fun a => a.address = row.destinationPrefix) then
    some true
  else if (n.endpointRoute row).isUnicastAddressRoute then
    addressTable.map fun table => n.isDeprecated table row || n.ignoresDestination types row
  else some (n.ignoresDestination types row)

def interfaceMetric (row : ForwardRow) : UInt32 :=
  if row.nextHop.family = .inet then n.ipv4InterfaceMetric.getD 0 else n.ipv6InterfaceMetric.getD 0

def linuxMetric (row : ForwardRow) : UInt32 :=
  let sum := row.metric + n.interfaceMetric row
  let limited := if 65535 < sum then 65535 else sum
  if limited = 0 then 1 else limited

def mirroredRoute (row : ForwardRow) : HostRoute :=
  { n.endpointRoute row with metric := (n.linuxMetric row).toNat }

end RouteSettings

/-- `insert` into the ordered set of routes. -/
def insertRoute (r : HostRoute) : List HostRoute → List HostRoute
  | [] => [r]
  | t :: ts =>
    if r.less t then r :: t :: ts
    else if t.less r then t :: insertRoute r ts
    else t :: ts

def insertRoutes (new routes : List HostRoute) : List HostRoute :=
  new.foldl (fun routes r => insertRoute r routes) routes

def zeroAddress : SockAddrInet → SockAddrInet
  | .inet _ => .inet 0
  | .inet6 _ _ => .inet6 0 0
  | .unspec => .unspec

def HostRoute.nextHopRoute (r : HostRoute) : HostRoute :=
  { family := r.family
    destinationPrefix := r.nextHop
    destinationPrefixLength := r.getMaxPrefixLength
    nextHop := zeroAddress r.nextHop
    sitePrefixLength := r.getMaxPrefixLength
    metric := r.metric }

def addNextHopRoutes (routes : List HostRoute) : List HostRoute :=
  insertRoutes ((routes.filter fun r => !r.isNextHopOnlink).map HostRoute.nextHopRoute) routes

namespace RouteSettings

def mirrorRows (n : RouteSettings) (types : AddressTypes) (addressTable : Option (List UnicastRow)) :
    List ForwardRow → List HostRoute → Bool × List HostRoute
  | [], routes => (true, routes)
  | row :: rows, routes =>
    match n.ignores types addressTable row with
    | none => (false, routes)
    | some true => n.mirrorRows types addressTable rows routes
    | some false => n.mirrorRows types addressTable rows (insertRoute (n.mirroredRoute row) routes)

def processRoutes (n : RouteSettings) (types : AddressTypes) (rows : List ForwardRow)
    (addressTable : Option (List UnicastRow)) : Bool × RouteSettings :=
  if n.isConnected then
    match n.mirrorRows types addressTable rows [] with
    | (true, routes) => (true, { n with routes := addNextHopRoutes routes })
    | (false, routes) => (false, { n with routes := routes })
  else (true, { n with routes := [] })

def processAll (types : AddressTypes) (rows : List ForwardRow) (addressTable : Option (List UnicastRow)) :
    List RouteSettings → Bool × List RouteSettings
  | [] => (true, [])
  | n :: ns =>
    match n.processRoutes types rows addressTable with
    | (false, n') => (false, n' :: ns)
    | (true, n') =>
      let rest := processAll types rows addressTable ns
      (rest.1, n' :: rest.2)

end RouteSettings

def processRouteChange (types : AddressTypes) (routeTable : Option (List ForwardRow))
    (addressTable : Option (List UnicastRow)) (ns : List RouteSettings) : Bool × List RouteSettings :=
  match routeTable with
  | none => (false, ns)
  | some rows => RouteSettings.processAll types rows addressTable ns

section Insert

variable {r t : HostRoute} {routes new : List HostRoute}

theorem mem_insertRoute (h : t ∈ insertRoute r routes) : t = r ∨ t ∈ routes := by
  induction routes with
  | nil => exact Or.inl (mem_singleton.mp h)
  | cons u us ih =>
    rw [insertRoute] at h
    split at h
    · exact mem_cons.mp h
    · split at h
      · rcases mem_cons.mp h with rfl | h
        · exact Or.inr (mem_cons_self ..)
        · exact (ih h).imp_right (mem_cons_of_mem u)
      · exact Or.inr h

theorem mem_insertRoute_of_mem (h : t ∈ routes) : t ∈ insertRoute r routes := by
  induction routes with
  | nil => cases h
  | cons u us ih =>
    rw [insertRoute]
    split
    · exact mem_cons_of_mem r h
    · split
      · rcases mem_cons.mp h with rfl | h
        · exact mem_cons_self ..
        · exact mem_cons_of_mem u (ih h)
      · exact h

theorem exists_insertRoute (r : HostRoute) (routes : List HostRoute) :
    ∃ t ∈ insertRoute r routes, t.toEndpointRoute = r.toEndpointRoute := by
  induction routes with
  | nil => exact ⟨r, mem_singleton_self r, rfl⟩
  | cons u us ih =>
    rw [insertRoute]
    split
    · exact ⟨r, mem_cons_self .., rfl⟩
    · rename_i hru
      split
      · obtain ⟨t, ht, hsame⟩ := ih
        exact ⟨t, mem_cons_of_mem u ht, hsame⟩
      · rename_i hur
        rw [not_eq_true] at hru hur
        exact ⟨u, mem_cons_self .., EndpointRoute.eq_of_not_less hur hru⟩

theorem mem_insertRoutes_of_mem (h : t ∈ routes) : t ∈ insertRoutes new routes := by
  induction new generalizing routes with
  | nil => exact h
  | cons r new ih => exact ih (mem_insertRoute_of_mem h)

theorem mem_insertRoutes (h : t ∈ insertRoutes new routes) : t ∈ new ∨ t ∈ routes := by
  induction new generalizing routes with
  | nil => exact Or.inr h
  | cons r new ih =>
    rcases ih h with h | h
    · exact Or.inl (mem_cons_of_mem r h)
    · rcases mem_insertRoute h with rfl | h
      · exact Or.inl (mem_cons_self ..)
      · exact Or.inr h

theorem exists_insertRoutes (h : r ∈ new) :
    ∃ t ∈ insertRoutes new routes, t.toEndpointRoute = r.toEndpointRoute := by
  induction new generalizing routes with
  | nil => cases h
  | cons u new ih =>
    rcases mem_cons.mp h with rfl | h
    · obtain ⟨t, ht, hsame⟩ := exists_insertRoute r routes
      have hmem : t ∈ insertRoutes new (insertRoute r routes) := mem_insertRoutes_of_mem ht
      exact ⟨t, hmem, hsame⟩
    · exact ih h

end Insert

def HostRoute.IsIp (r : HostRoute) : Prop := r.family = r.nextHop.family ∧ r.family ≠ .unspec

theorem HostRoute.isNextHopOnlink_nextHopRoute {r : HostRoute} (h : r.IsIp) :
    r.nextHopRoute.isNextHopOnlink = true := by
  obtain ⟨⟨family, _, _, nextHop, _, _⟩, _⟩ := r
  obtain ⟨hfam, hip⟩ := h
  cases nextHop with
  | unspec => exact absurd hfam hip
  | inet a =>
    obtain rfl : family = .inet := hfam
    rfl
  | inet6 a b =>
    obtain rfl : family = .inet6 := hfam
    rfl

/-- What a route needs in Linux: an on-link route to its next hop. -/
structure HostRoute.ReachedBy (r t : HostRoute) : Prop where
  onlink : t.isNextHopOnlink = true
  family : t.family = r.family
  destinationPrefix : t.destinationPrefix = r.nextHop
  destinationPrefixLength : t.destinationPrefixLength = r.getMaxPrefixLength
  metric : t.metric = r.metric

theorem HostRoute.reachedBy_of_same {r t : HostRoute} (hr : r.IsIp)
    (h : t.toEndpointRoute = r.nextHopRoute.toEndpointRoute) : r.ReachedBy t := by
  have honlink : t.isNextHopOnlink = r.nextHopRoute.isNextHopOnlink := by
    simp only [isNextHopOnlink, h]
  refine ⟨honlink.trans (isNextHopOnlink_nextHopRoute hr), ?_, ?_, ?_, ?_⟩
  · rw [h]
    rfl
  · rw [h]
    rfl
  · rw [h]
    rfl
  · rw [h]
    rfl

theorem addNextHopRoutes_onlink {routes : List HostRoute} (hip : ∀ r ∈ routes, r.IsIp) :
    ∀ r ∈ addNextHopRoutes routes, r.isNextHopOnlink = false →
    ∃ t ∈ addNextHopRoutes routes, r.ReachedBy t := by
  intro r hr hnot
  rcases mem_insertRoutes hr with hnew | hold
  · -- an added route is on-link itself
    obtain ⟨u, hu, rfl⟩ := mem_map.mp hnew
    rw [HostRoute.isNextHopOnlink_nextHopRoute (hip u (mem_filter.mp hu).1)] at hnot
    cases hnot
  · have hmem : r ∈ routes.filter fun r => !r.isNextHopOnlink := by
      rw [mem_filter, hnot]
      exact ⟨hold, rfl⟩
    obtain ⟨t, ht, hsame⟩ := exists_insertRoutes (mem_map_of_mem hmem)
    exact ⟨t, ht, HostRoute.reachedBy_of_same (hip r hold) hsame⟩

namespace RouteSettings

variable {n : RouteSettings} {types : AddressTypes} {rows : List ForwardRow} {table : List UnicastRow}

def mirrors (n : RouteSettings) (types : AddressTypes) (table : List UnicastRow) (row : ForwardRow) : Bool :=
  n.ignores types (some table) row = some false

theorem isIp_mirroredRoute (row : ForwardRow) : (n.mirroredRoute row).IsIp := ⟨rfl, row.isIp⟩

theorem mirrorRows_some (rows : List ForwardRow) (routes : List HostRoute) :
    n.mirrorRows types (some table) rows routes =
      (true, insertRoutes ((rows.filter (n.mirrors types table)).map n.mirroredRoute) routes) := by
  have hdecided : ∀ row, n.ignores types (some table) row ≠ none := by
    intro row
    unfold ignores
    split
    · exact some_ne_none _
    · split
      · exact some_ne_none _
      · exact some_ne_none _
  induction rows generalizing routes with
  | nil => rfl
  | cons row rows ih =>
    rw [mirrorRows]
    split
    · rename_i hnone
      exact absurd hnone (hdecided row)
    · rename_i hignored
      rw [ih, filter_cons_of_neg (by simp [mirrors, hignored])]
    · rename_i hmirrored
      rw [ih, filter_cons_of_pos (by simp [mirrors, hmirrored])]
      rfl

def connectedRoutes (n : RouteSettings) (types : AddressTypes) (rows : List ForwardRow)
    (table : List UnicastRow) :
    List HostRoute :=
  addNextHopRoutes (insertRoutes ((rows.filter (n.mirrors types table)).map n.mirroredRoute) [])

def processed (n : RouteSettings) (types : AddressTypes) (rows : List ForwardRow) (table : List UnicastRow) :
    RouteSettings :=
  { n with routes := if n.isConnected then n.connectedRoutes types rows table else [] }

theorem processRoutes_some : n.processRoutes types rows (some table) =
    (true, n.processed types rows table) := by
  unfold processRoutes processed
  cases hconnected : n.isConnected with
  | true => simp [mirrorRows_some, connectedRoutes]
  | false => simp

theorem processAll_some (ns : List RouteSettings) :
    processAll types rows (some table) ns = (true, ns.map fun n => n.processed types rows table) := by
  induction ns with
  | nil => rfl
  | cons n ns ih => simp only [processAll, processRoutes_some, ih, map_cons]

theorem mem_mirrored {r : HostRoute}
    (h : r ∈ insertRoutes ((rows.filter (n.mirrors types table)).map n.mirroredRoute) []) :
    ∃ row ∈ rows, n.mirrors types table row = true ∧ r = n.mirroredRoute row := by
  rcases mem_insertRoutes h with h | h
  · obtain ⟨row, hrow, rfl⟩ := mem_map.mp h
    obtain ⟨hmem, hmirrors⟩ := mem_filter.mp hrow
    exact ⟨row, hmem, hmirrors, rfl⟩
  · cases h

theorem mem_connectedRoutes {r : HostRoute} (h : r ∈ n.connectedRoutes types rows table) :
    ∃ row ∈ rows, n.mirrors types table row = true ∧
      (r = n.mirroredRoute row ∨ r = (n.mirroredRoute row).nextHopRoute) := by
  rcases mem_insertRoutes h with h | h
  · obtain ⟨u, hu, rfl⟩ := mem_map.mp h
    obtain ⟨row, hrow, hmirrors, rfl⟩ := mem_mirrored (mem_filter.mp hu).1
    exact ⟨row, hrow, hmirrors, Or.inr rfl⟩
  · obtain ⟨row, hrow, hmirrors, rfl⟩ := mem_mirrored h
    exact ⟨row, hrow, hmirrors, Or.inl rfl⟩

theorem connectedRoutes_onlink :
    ∀ r ∈ n.connectedRoutes types rows table, r.isNextHopOnlink = false →
      ∃ t ∈ n.connectedRoutes types rows table, r.ReachedBy t := by
  apply addNextHopRoutes_onlink
  intro r hr
  obtain ⟨row, _, _, rfl⟩ := mem_mirrored hr
  exact isIp_mirroredRoute row

theorem exists_connectedRoutes {row : ForwardRow} (hrow : row ∈ rows)
    (hmirrors : n.mirrors types table row = true) :
    ∃ r ∈ n.connectedRoutes types rows table, r.toEndpointRoute = (n.mirroredRoute row).toEndpointRoute := by
  have hmem := mem_map_of_mem (f := n.mirroredRoute) (mem_filter.mpr ⟨hrow, hmirrors⟩)
  have hinserted : ∃ r ∈ insertRoutes ((rows.filter (n.mirrors types table)).map n.mirroredRoute) [],
      r.toEndpointRoute = (n.mirroredRoute row).toEndpointRoute := exists_insertRoutes hmem
  obtain ⟨r, hr, hsame⟩ := hinserted
  exact ⟨r, mem_insertRoutes_of_mem hr, hsame⟩

def disablesDefaultRoutes (n : RouteSettings) : AddressFamily → Bool
  | .inet => n.disableIpv4DefaultRoutes
  | .inet6 => n.disableIpv6DefaultRoutes
  | .unspec => false

theorem isDefault_nextHopRoute (r : HostRoute) : r.nextHopRoute.isDefault = false := by
  have hlen : r.getMaxPrefixLength ≠ 0 := by
    unfold HostRoute.getMaxPrefixLength
    split
    · decide
    · decide
  simp [HostRoute.isDefault, HostRoute.nextHopRoute, hlen]

theorem isDefault_mirroredRoute {row : ForwardRow} (hmirrors : n.mirrors types table row = true)
    (hdef : (n.mirroredRoute row).isDefault = true) :
    n.disablesDefaultRoutes (n.mirroredRoute row).family = false := by
  have hdef : (n.endpointRoute row).isDefault = true := by
    unfold HostRoute.isDefault at hdef ⊢
    exact hdef
  have hkept : n.ignoresDestination types row = false := by
    rw [mirrors, decide_eq_true_eq, ignores] at hmirrors
    split at hmirrors
    · cases hmirrors
    · split at hmirrors
      · rw [map_some, some_inj, or_eq_false_iff] at hmirrors
        exact hmirrors.2
      · exact some_inj.mp hmirrors
  show n.disablesDefaultRoutes row.nextHop.family = false
  have hfamilies : (row.nextHop.family = .inet ∧ row.destinationPrefix = .inet 0) ∨
      (row.nextHop.family = .inet6 ∧ row.destinationPrefix = .inet6 0 0) := by
    have hboth := (and_eq_true_iff.mp hdef).2
    rcases or_eq_true_iff.mp hboth with h | h
    · exact Or.inl ((and_eq_true_iff.mp h).imp of_decide_eq_true of_decide_eq_true)
    · exact Or.inr ((and_eq_true_iff.mp h).imp of_decide_eq_true of_decide_eq_true)
  unfold ignoresDestination at hkept
  rcases hfamilies with ⟨hfam, hlen⟩ | ⟨hfam, hlen⟩
  · rw [hfam]
    rw [hlen] at hkept
    simp only [hdef, Bool.and_true, or_eq_false_iff] at hkept
    exact hkept.1.1
  · rw [hfam]
    rw [hlen] at hkept
    simp only [hdef, Bool.and_true, or_eq_false_iff] at hkept
    exact hkept.1

def limitMetric (sum : Nat) : Nat := max 1 (min sum 65535)

def MetricFits (n : RouteSettings) (row : ForwardRow) : Prop :=
  row.metric.toNat + (n.interfaceMetric row).toNat < 2 ^ 32 ∨
    2 ^ 32 + 65535 ≤ row.metric.toNat + (n.interfaceMetric row).toNat

theorem linuxMetric_eq (row : ForwardRow) : (n.linuxMetric row).toNat =
    limitMetric ((row.metric.toNat + (n.interfaceMetric row).toNat) % 2 ^ 32) := by
  rw [← UInt32.toNat_add]
  unfold linuxMetric limitMetric
  generalize row.metric + n.interfaceMetric row = sum
  dsimp only
  have hlt : (65535 < sum) ↔ 65535 < sum.toNat := UInt32.lt_iff_toNat_lt
  have hzero : (sum = 0) ↔ sum.toNat = 0 := UInt32.toNat_inj.symm
  by_cases hlarge : 65535 < sum
  · have hnat := hlt.mp hlarge
    rw [if_pos hlarge, if_neg (by decide)]
    show 65535 = _
    omega
  · rw [if_neg hlarge]
    rw [hlt] at hlarge
    by_cases hnone : sum = 0
    · rw [if_pos hnone, hnone]
      rfl
    · rw [if_neg hnone]
      rw [hzero] at hnone
      omega

theorem metricFits_iff (row : ForwardRow) :
    (n.mirroredRoute row).metric = limitMetric (row.metric.toNat + (n.interfaceMetric row).toNat) ↔
      n.MetricFits row := by
  have hmetric : (n.mirroredRoute row).metric = _ := linuxMetric_eq row
  have hrow := row.metric.toNat_lt
  have hinterface := (n.interfaceMetric row).toNat_lt
  rw [hmetric, MetricFits, limitMetric, limitMetric]
  omega

/-- The routes of an endpoint with these settings are fit for Linux. -/
structure Usable (types : AddressTypes) (rows : List ForwardRow) (table : List UnicastRow) (n : RouteSettings)
    (routes : List HostRoute) : Prop where
  onlink : ∀ r ∈ routes, r.isNextHopOnlink = false → ∃ t ∈ routes, r.ReachedBy t
  /-- The route of every row that is mirrored is there, with the sum of the metrics. -/
  metric : n.isConnected = true → ∀ row ∈ rows, n.mirrors types table row = true →
    (∃ r ∈ routes, r.toEndpointRoute = (n.mirroredRoute row).toEndpointRoute) ∧
      (n.mirroredRoute row).metric = limitMetric (row.metric.toNat + (n.interfaceMetric row).toNat)
  sources : ∀ r ∈ routes, ∃ row ∈ rows, n.mirrors types table row = true ∧
    (r = n.mirroredRoute row ∨ r = (n.mirroredRoute row).nextHopRoute)
  defaults : ∀ r ∈ routes, r.isDefault = true → n.disablesDefaultRoutes r.family = false
  disconnected : n.isConnected = false → routes = []

theorem usable_iff : n.Usable types rows table (n.processed types rows table).routes ↔
    (n.isConnected = true → ∀ row ∈ rows, n.mirrors types table row = true → n.MetricFits row) := by
  constructor
  · intro h hconnected row hrow hmirrors
    exact (metricFits_iff row).mp (h.metric hconnected row hrow hmirrors).2
  · intro hfits
    unfold processed
    by_cases hconnected : n.isConnected = true
    · rw [if_pos hconnected]
      refine ⟨connectedRoutes_onlink, ?_, fun r hr => mem_connectedRoutes hr, ?_, ?_⟩
      · intro _ row hrow hmirrors
        exact ⟨exists_connectedRoutes hrow hmirrors, (metricFits_iff row).mpr (hfits hconnected row hrow hmirrors)⟩
      · intro r hr hdef
        obtain ⟨row, _, hmirrors, rfl | rfl⟩ := mem_connectedRoutes hr
        · exact isDefault_mirroredRoute hmirrors hdef
        · rw [isDefault_nextHopRoute] at hdef
          cases hdef
      · intro hfalse
        rw [hconnected] at hfalse
        cases hfalse
    · rw [if_neg hconnected]
      refine ⟨?_, fun htrue => absurd htrue hconnected, ?_, ?_, fun _ => rfl⟩
      · intro r hr
        cases hr
      · intro r hr
        cases hr
      · intro r hr
        cases hr

end RouteSettings

/-- The routes of all endpoints are fit for Linux if and only if, for each row that is mirrored for a connected
endpoint, the sum of the metrics fits into 32 bits or wraps to one that is limited. -/
theorem routes_usable_iff (types : AddressTypes) (rows : List ForwardRow) (table : List UnicastRow)
    (ns : List RouteSettings) :
    (processRouteChange types (some rows) (some table) ns).1 = true ∧
      (List.Forall₂ (fun n n' => n.Usable types rows table n'.routes) ns
          (processRouteChange types (some rows) (some table) ns).2 ↔
        ∀ n ∈ ns, n.isConnected = true →
          ∀ row ∈ rows, n.mirrors types table row = true → n.MetricFits row) := by
  have hprocessed : processRouteChange types (some rows) (some table) ns =
      (true, ns.map fun n => n.processed types rows table) := RouteSettings.processAll_some ns
  rw [hprocessed]
  refine ⟨rfl, ?_⟩
  rw [forall₂_map_right_iff, forall₂_same]
  constructor
  · intro h n hn
    exact RouteSettings.usable_iff.mp (h n hn)
  · intro h n hn
    exact RouteSettings.usable_iff.mpr (h n hn)

def privateAddressTypes : AddressTypes where
  ipv4AddressType a := if a = 0 then .unspecified else .unicast
  ipv6AddressType a b := if a = 0 ∧ b = 0 then .unspecified else .unicast

def lastResortRow : ForwardRow where
  interfaceIndex := 7
  destinationPrefix := .inet 10
  destinationPrefixLength := 8
  nextHop := .inet 0
  metric := 0xFFFFFFFF
  isIp := by decide

def vpnSettings : RouteSettings where
  interfaceIndex := 7
  isConnected := true
  ipAddresses := []
  routes := []
  ipv4InterfaceMetric := some 1
  ipv6InterfaceMetric := none
  disableIpv4DefaultRoutes := false
  disableIpv6DefaultRoutes := false

/-- On an interface of metric 1 the route of the largest metric becomes one of the smallest. -/
theorem route_metric_wraps :
    ¬ List.Forall₂ (fun n n' => RouteSettings.Usable privateAddressTypes [lastResortRow] [] n n'.routes) [vpnSettings]
      (processRouteChange privateAddressTypes (some [lastResortRow]) (some []) [vpnSettings]).2 := by
  intro h
  cases h with
  | cons husable _ =>
    have hmetric := (husable.metric rfl lastResortRow (mem_singleton_self _) (by decide)).2
    exact absurd hmetric (by decide)

end WslPlus.Network.Mirrored

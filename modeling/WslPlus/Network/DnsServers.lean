import WslPlus.Network.DnsAdapters

/-!
# The DNS servers for the guest

`GetInterfaceDnsServers` collects the servers of the adapters, three at most. From an adapter of
a VPN only the primary server is meant to be taken, but the limit is used for the IPv4 servers
only.
-/

namespace WslPlus.Network.DnsAdapters

open List

/-- An `IP_ADAPTER_DNS_SERVER_ADDRESS`: the family, and the address as `InetNtopA` writes it. Its
buffer holds every address, so that the call does not fail. -/
structure DnsServer where
  family : UInt16
  text : List Char

structure DnsAdapter where
  ifType : UInt32
  dnsServers : List DnsServer

def afInet6 : UInt16 := 23

/-- The loop of `GetDnsServerStrings`, with the strings so far. -/
def getDnsServerStrings (filter : UInt16) (maxValues : Nat) :
    List DnsServer → List (List Char) → List (List Char)
  | [], strings => strings
  | server :: next, strings =>
    if strings.length < maxValues then
      if server.family ≠ filter then getDnsServerStrings filter maxValues next strings
      else getDnsServerStrings filter maxValues next (strings ++ [server.text])
    else strings

def maxResolvConfDnsServers : Nat := 3

/-- What one turn of the loop over the adapters appends to `size` servers. -/
def appended (includeIpv6 : Bool) (adapter : DnsAdapter) (size : Nat) : List (List Char) :=
  let room := maxResolvConfDnsServers - size
  let maxDnsServers := if room > 1 ∧ isInterfaceTypeVpn adapter.ifType then 1 else room
  let ipv4Servers := getDnsServerStrings afInet maxDnsServers adapter.dnsServers []
  if includeIpv6 then
    ipv4Servers ++ getDnsServerStrings afInet6 (maxResolvConfDnsServers - (size + ipv4Servers.length)) adapter.dnsServers []
  else ipv4Servers

/-- The loop of `GetInterfaceDnsServers`. -/
def getInterfaceDnsServers (includeIpv6 : Bool) : List DnsAdapter → List (List Char) → List (List Char)
  | [], servers => servers
  | adapter :: rest, servers =>
    let servers := servers ++ appended includeIpv6 adapter servers.length
    if servers.length ≥ maxResolvConfDnsServers then servers else getInterfaceDnsServers includeIpv6 rest servers

section Contributions

variable (includeIpv6 : Bool)

/-- The servers of each adapter in turn, where each one is given what is left of the three places. -/
def shares (share : DnsAdapter → Nat → List (List Char)) : List DnsAdapter → Nat → List (List (List Char))
  | [], _ => []
  | adapter :: rest, size =>
    let own := share adapter size
    if size + own.length ≥ maxResolvConfDnsServers then [own] else own :: shares share rest (size + own.length)

def stringsOf (filter : UInt16) (servers : List DnsServer) : List (List Char) :=
  (servers.filter (·.family = filter)).map (·.text)

def candidates (adapter : DnsAdapter) : List (List Char) :=
  stringsOf afInet adapter.dnsServers ++ if includeIpv6 then stringsOf afInet6 adapter.dnsServers else []

/-- The servers that an adapter should contribute: a VPN only its first. -/
def wanted (adapter : DnsAdapter) : List (List Char) :=
  if isInterfaceTypeVpn adapter.ifType then (candidates includeIpv6 adapter).take 1 else candidates includeIpv6 adapter

def selected (adapter : DnsAdapter) (size : Nat) : List (List Char) :=
  (wanted includeIpv6 adapter).take (maxResolvConfDnsServers - size)

/-- An adapter keeps to its limit: it is no VPN, or IPv6 brings no second server, or there is only one place. -/
def Limited (adapter : DnsAdapter) (size : Nat) : Prop :=
  isInterfaceTypeVpn adapter.ifType = false ∨ includeIpv6 = false ∨
    stringsOf afInet6 adapter.dnsServers = [] ∨
    (stringsOf afInet adapter.dnsServers = [] ∧ (stringsOf afInet6 adapter.dnsServers).length = 1) ∨
    maxResolvConfDnsServers - size ≤ 1

def AllLimited : List DnsAdapter → Nat → Prop
  | [], _ => True
  | adapter :: rest, size => Limited includeIpv6 adapter size ∧
    (size + (selected includeIpv6 adapter size).length < maxResolvConfDnsServers →
      AllLimited rest (size + (selected includeIpv6 adapter size).length))

theorem stringsOf_cons (filter : UInt16) (server : DnsServer) (next : List DnsServer) :
    stringsOf filter (server :: next) =
    if server.family = filter then server.text :: stringsOf filter next else stringsOf filter next := by
  unfold stringsOf
  by_cases h : server.family = filter <;> simp [h]

theorem getDnsServerStrings_eq (filter : UInt16) (maxValues : Nat) (servers : List DnsServer)
    (strings : List (List Char)) : getDnsServerStrings filter maxValues servers strings =
      strings ++ (stringsOf filter servers).take (maxValues - strings.length) := by
  induction servers generalizing strings with
  | nil => simp [getDnsServerStrings, stringsOf]
  | cons server next ih =>
    rw [getDnsServerStrings, stringsOf_cons]
    split
    case isTrue hlt =>
      split
      case isTrue hne => exact ih strings
      case isFalse heq =>
        rw [ih, if_pos (Decidable.not_not.mp heq), append_assoc, length_append, length_singleton,
          show maxValues - strings.length = maxValues - (strings.length + 1) + 1 by omega]
        rfl
    case isFalse hge => rw [Nat.sub_eq_zero_of_le (by omega), take_zero, append_nil]

variable {size : Nat}

/-- The limit of a VPN is one IPv4 server and any number of IPv6 servers. -/
theorem appended_eq (adapter : DnsAdapter) (hsize : size < maxResolvConfDnsServers) :
    appended includeIpv6 adapter size =
      ((if isInterfaceTypeVpn adapter.ifType then (stringsOf afInet adapter.dnsServers).take 1
        else stringsOf afInet adapter.dnsServers) ++
        if includeIpv6 then stringsOf afInet6 adapter.dnsServers else
      []).take (maxResolvConfDnsServers - size) := by
  unfold appended
  simp only [getDnsServerStrings_eq, nil_append, length_nil, Nat.sub_zero]
  generalize stringsOf afInet adapter.dnsServers = ipv4
  generalize stringsOf afInet6 adapter.dnsServers = ipv6
  have hlimit (first : List (List Char)) (limit : Nat) (hlimit : limit ≤ maxResolvConfDnsServers - size)
      (hfirst : limit = maxResolvConfDnsServers - size ∨ first.length ≤ limit) :
      (if includeIpv6 = true then first.take limit ++
          ipv6.take (maxResolvConfDnsServers - (size + (first.take limit).length)) else first.take limit) =
        (first ++ if includeIpv6 = true then ipv6 else []).take (maxResolvConfDnsServers - size) := by
    have htake : first.take (maxResolvConfDnsServers - size) = first.take limit := by
      obtain heq | hle := hfirst
      · rw [heq]
      · rw [take_of_length_le hle, take_of_length_le (by omega)]
    rw [take_append, htake]
    split
    · rw [length_take]
      congr 2
      omega
    · rw [take_nil, append_nil]
  cases hvpn : isInterfaceTypeVpn adapter.ifType with
  | false => simpa using hlimit ipv4 _ (Nat.le_refl _) (.inl rfl)
  | true =>
    have hone : (if maxResolvConfDnsServers - size > 1 ∧ true = true then 1 else maxResolvConfDnsServers - size) = 1 := by
      split
      · rfl
      · simp only [and_true] at *
        omega
    have := hlimit (ipv4.take 1) 1 (by omega) (.inr (length_take_le 1 ipv4))
    rw [take_take] at this
    rw [hone]
    exact this

theorem appended_eq_selected_iff (adapter : DnsAdapter) (hsize : size < maxResolvConfDnsServers) :
    appended includeIpv6 adapter size = selected includeIpv6 adapter size ↔
    Limited includeIpv6 adapter size := by
  rw [appended_eq includeIpv6 adapter hsize, selected, wanted, candidates, Limited]
  generalize stringsOf afInet adapter.dnsServers = ipv4
  generalize stringsOf afInet6 adapter.dnsServers = ipv6
  cases isInterfaceTypeVpn adapter.ifType with
  | false => simp
  | true =>
    cases includeIpv6 with
    | false => simp
    | true =>
      simp only [if_true, take_take, Bool.true_eq_false, false_or]
      constructor
      · intro heq
        have hlen := congrArg List.length heq
        simp only [length_take, length_append] at hlen
        rw [← length_eq_zero_iff, ← length_eq_zero_iff]
        omega
      · intro h
        obtain hnil | ⟨hnil, hone⟩ | hroom := h
        · rw [hnil, append_nil, append_nil, take_take, Nat.min_comm]
        · rw [hnil, take_nil, nil_append, take_of_length_le (by omega), take_of_length_le (by omega)]
        · rw [show maxResolvConfDnsServers - size = 1 by omega, take_append, take_take, take_append]
          congr 2
          rw [length_take]
          omega

section

variable (adapters : List DnsAdapter)
include adapters

theorem shares_eq_iff (hsize : size < maxResolvConfDnsServers) :
    shares (appended includeIpv6) adapters size = shares (selected includeIpv6) adapters size ↔
      AllLimited includeIpv6 adapters size := by
  induction adapters generalizing size with
  | nil => simp [shares, AllLimited]
  | cons adapter rest ih =>
    rw [shares, shares, AllLimited, ← appended_eq_selected_iff includeIpv6 adapter hsize]
    by_cases heq : appended includeIpv6 adapter size = selected includeIpv6 adapter size
    · simp only [heq, true_and]
      split
      case isTrue hfull => simp [Nat.not_lt.mpr hfull]
      case isFalse hroom =>
        have hlt := Nat.lt_of_not_le hroom
        rw [List.cons.injEq, ih hlt]
        simp [hlt]
    · refine iff_of_false ?_ (fun h => heq h.1)
      intro h
      split at h <;> split at h <;> exact heq (List.cons.inj h).1

theorem getInterfaceDnsServers_eq (servers : List (List Char)) :
    getInterfaceDnsServers includeIpv6 adapters servers
      = servers ++ (shares (appended includeIpv6) adapters servers.length).flatten := by
  induction adapters generalizing servers with
  | nil => simp [getInterfaceDnsServers, shares]
  | cons adapter rest ih =>
    rw [getInterfaceDnsServers, shares]
    simp only [length_append]
    split
    · simp
    · rw [ih, flatten_cons, length_append, append_assoc]

theorem flatten_shares_selected (hsize : size < maxResolvConfDnsServers) :
    (shares (selected includeIpv6) adapters size).flatten
      = (adapters.flatMap (wanted includeIpv6)).take (maxResolvConfDnsServers - size) := by
  induction adapters generalizing size with
  | nil => exact take_nil.symm
  | cons adapter rest ih =>
    rw [shares, flatMap_cons, take_append]
    have hlen : (selected includeIpv6 adapter size).length
        = min (maxResolvConfDnsServers - size) (wanted includeIpv6 adapter).length := length_take
    split
    case isTrue hfull =>
      have hzero : maxResolvConfDnsServers - size - (wanted includeIpv6 adapter).length = 0 := by omega
      rw [hzero, take_zero, append_nil, flatten_singleton]
      rfl
    case isFalse hroom =>
      rw [flatten_cons, ih (by omega), hlen]
      congr 2
      omega

theorem length_shares_le (hsize : size < maxResolvConfDnsServers) :
    size + (shares (appended includeIpv6) adapters size).flatten.length ≤ maxResolvConfDnsServers := by
  induction adapters generalizing size with
  | nil => exact Nat.le_of_lt hsize
  | cons adapter rest ih =>
    have hle : (appended includeIpv6 adapter size).length ≤ maxResolvConfDnsServers - size := by
      rw [appended_eq includeIpv6 adapter hsize]
      exact length_take_le _ _
    rw [shares]
    split
    · rw [flatten_singleton]
      omega
    · have := @ih (size + (appended includeIpv6 adapter size).length) (by omega)
      rw [flatten_cons, length_append]
      omega

end

end Contributions

/-- The guest gets three servers at most, and each adapter contributes what it should if and only
if no VPN that is reached has an IPv6 server behind its first one that there is room for. -/
theorem dns_servers_selected_iff (includeIpv6 : Bool) (adapters : List DnsAdapter) :
    getInterfaceDnsServers includeIpv6 adapters [] = (shares (appended includeIpv6) adapters 0).flatten ∧
      (getInterfaceDnsServers includeIpv6 adapters []).length ≤ maxResolvConfDnsServers ∧
      (shares (selected includeIpv6) adapters 0).flatten
        = (adapters.flatMap (wanted includeIpv6)).take maxResolvConfDnsServers ∧
      (shares (appended includeIpv6) adapters 0 = shares (selected includeIpv6) adapters 0 ↔
        AllLimited includeIpv6 adapters 0) := by
  have hpos : 0 < maxResolvConfDnsServers := by decide
  have heq := getInterfaceDnsServers_eq includeIpv6 adapters []
  rw [nil_append] at heq
  refine ⟨heq, ?_, flatten_shares_selected includeIpv6 adapters hpos, shares_eq_iff includeIpv6 adapters hpos⟩
  have hle := length_shares_le includeIpv6 adapters hpos
  rw [heq]
  simpa using hle

/-- A VPN with a server of each family contributes both. -/
theorem vpn_contributes_two : ¬∀ (includeIpv6 : Bool) (adapters : List DnsAdapter),
    getInterfaceDnsServers includeIpv6 adapters []
      = (adapters.flatMap (wanted includeIpv6)).take maxResolvConfDnsServers := by
  intro h
  have := h true [⟨23, [⟨afInet, ['4']⟩, ⟨afInet6, ['6']⟩]⟩]
  revert this
  decide

end WslPlus.Network.DnsAdapters

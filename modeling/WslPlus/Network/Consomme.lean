import Mathlib.Algebra.GroupWithZero.Nat
import WslPlus.Lib.Program
import WslPlus.Lib.Transition
import WslPlus.Network.Endpoint

/-!
# Host settings pushed to the guest

`ConsommeNetworking::RefreshGuestConnection` reads the settings of the host and sends to
the guest those that differ from the settings it tracks. Some settings overwrite each
other in the guest, others are taken out and put in. A message that cannot be delivered
throws and ends the call.
-/

namespace WslPlus.Network.Consomme

open Program

structure DnsInfo where
  servers : List String := []
  domains : List String := []
  deriving DecidableEq

/-- `AddressString`: empty unless the host has an address of the family. -/
def addressString (os : Winsock) (a : EndpointIpAddress) : String :=
  if a.address = .unspec then "" else os.sockAddrInetToWstring a.address

/-- What a call has read of the host before it takes the lock. -/
structure HostSettings where
  preferredIpAddress : EndpointIpAddress := {}
  preferredIpv6Address : EndpointIpAddress := {}
  routes : List EndpointRoute := []
  dns : DnsInfo := {}
  minMtu : Option Nat := none

def bestGateway (os : Winsock) (h : HostSettings) : Option EndpointRoute :=
  h.routes.find? fun r =>
    r.family = .inet && r.destinationPrefixLength = 0 &&
      os.sockAddrInetToWstring r.destinationPrefix = "0.0.0.0"

def getBestGatewayAddressString (os : Winsock) (h : HostSettings) : String :=
  (bestGateway os h).elim "" fun r => os.sockAddrInetToWstring r.nextHop

def getBestGatewayAddress (os : Winsock) (h : HostSettings) : SockAddrInet :=
  (bestGateway os h).elim .unspec EndpointRoute.nextHop

structure VirtioNetConfig where
  clientIp : Nat
  hasClientIpv6 : Bool
  clientIpv6 : Int × Int
  gatewayIp : Nat
  netmask : Nat
  deriving DecidableEq

def toIpv4Address : SockAddrInet → Nat
  | .inet a => a
  | _ => 0

def toIpv6Address : SockAddrInet → Int × Int
  | .inet6 a b => (a, b)
  | _ => (0, 0)

/-- `ConvertLengthToIpv4Mask`, the mask in host order; a length over 32 gives `INADDR_NONE`. -/
def convertLengthToIpv4Mask (length : Nat) : Nat :=
  if length ≤ 32 then 2 ^ 32 - 2 ^ (32 - length) else 2 ^ 32 - 1

def buildVirtioNetConfig (os : Winsock) (h : HostSettings) (enableIpv6 : Bool) : VirtioNetConfig where
  clientIp := toIpv4Address h.preferredIpAddress.address
  hasClientIpv6 := enableIpv6 && h.preferredIpv6Address.address.family = .inet6
  clientIpv6 := toIpv6Address h.preferredIpv6Address.address
  gatewayIp := toIpv4Address (getBestGatewayAddress os h)
  netmask :=
    if h.preferredIpAddress.address.family = .inet then
      convertLengthToIpv4Mask h.preferredIpAddress.prefixLength
    else 0

def toIpAddresses (os : Winsock) (dns : DnsInfo) : Option (List SockAddrInet) :=
  (dns.servers.filter fun server => server ≠ "").mapM os.stringToSockAddrInet

structure HnsEndpoint where
  ipAddress : String
  prefixLength : Nat
  deriving DecidableEq

structure HnsIpAddress where
  address : String
  family : AddressFamily
  onLinkPrefixLength : Nat
  preferredLifetime : Nat
  deriving DecidableEq

structure HnsRoute where
  nextHop : String
  destinationPrefix : String
  family : AddressFamily
  deriving DecidableEq

structure HnsDns where
  options : String
  serverList : String
  search : String

structure HnsNetworkInterface where
  connected : Bool
  nlMtu : Nat

/-- `SendEndpointState`, and `SendHnsNotification` for each resource type. -/
inductive GnsMessage where
  | endpointState (endpoint : HnsEndpoint)
  | ipAddress (requestType : ModifyRequestType) (settings : HnsIpAddress)
  | route (requestType : ModifyRequestType) (settings : HnsRoute)
  | dns (requestType : ModifyRequestType) (settings : HnsDns)
  | networkInterface (requestType : ModifyRequestType) (settings : HnsNetworkInterface)

def endpointOf (os : Winsock) (a : EndpointIpAddress) : HnsEndpoint where
  ipAddress := addressString os a
  prefixLength := a.prefixLength

def ipv6AddressOf (os : Winsock) (a : EndpointIpAddress) : Option HnsIpAddress :=
  if addressString os a = "" then none
  else
    some
      { address := addressString os a
        family := a.address.family
        onLinkPrefixLength := a.prefixLength
        preferredLifetime := 2 ^ 32 - 1 }

def defaultRouteOf (gateway : String) : Option HnsRoute :=
  if gateway = "" then none
  else some { nextHop := gateway, destinationPrefix := "0.0.0.0/0", family := .inet }

def buildDnsNotification (dns : DnsInfo) (options : Option String) : HnsDns where
  options := options.getD ""
  serverList := ",".intercalate dns.servers
  search := ",".intercalate dns.domains

def interfaceOf (mtu : Nat) : HnsNetworkInterface where
  connected := true
  nlMtu := mtu

/-- A setting: the value tracked by the host beside what the guest has been told. -/
structure Setting (α β : Type) where
  tracked : α
  guest : β

section Send

variable {α β : Type} [DecidableEq α] [DecidableEq β]

def send (delivered : Bool) (apply : β → β) : Program (Setting α β) Unit Unit :=
  ofFunction fun t => if delivered then (.ok (), { t with guest := apply t.guest }) else (.error (), t)

def updateTracked (skip : Bool) (value : α) (delivered : β → Bool) (content : β) :
    Program (Setting α (Option β)) Unit Unit := do
  let t ← get
  if value = t.tracked || skip then
    return
  modify fun t => { t with tracked := value }
  send (delivered content) fun _ => some content

def sendRequest (delivered : ModifyRequestType → β → Bool) (requestType : ModifyRequestType) :
    Option β → Program (Setting α (List β)) Unit Unit
  | none => pure ()
  | some content =>
    send (delivered requestType content) fun held =>
      if requestType = .remove then held.filter fun b => b ≠ content
      else if content ∈ held then held else held ++ [content]

def replaceTracked (skip : Bool) (value : α) (content : α → Option β)
    (delivered : ModifyRequestType → β → Bool) : Program (Setting α (List β)) Unit Unit := do
  let t ← get
  if value = t.tracked || skip then
    return
  sendRequest delivered .remove (content t.tracked)
  modify fun t => { t with tracked := value }
  sendRequest delivered .add (content value)

end Send

/-- The engine beside the guest. -/
structure Session where
  adapterId : Option Nat := none
  virtioNetConfig : Option VirtioNetConfig := none
  virtioNetNameservers : List SockAddrInet := []
  ipv4 : Setting EndpointIpAddress (Option HnsEndpoint) := ⟨{}, none⟩
  ipv6 : Setting EndpointIpAddress (List HnsIpAddress) := ⟨{}, []⟩
  defaultRoute : Setting String (List HnsRoute) := ⟨"", []⟩
  dns : Setting DnsInfo (Option HnsDns) := ⟨{}, none⟩
  mtu : Setting Nat (Option HnsNetworkInterface) := ⟨0, none⟩

def ipv4Part : Part Session (Setting EndpointIpAddress (Option HnsEndpoint)) where
  get s := s.ipv4
  set t s := { s with ipv4 := t }

def ipv6Part : Part Session (Setting EndpointIpAddress (List HnsIpAddress)) where
  get s := s.ipv6
  set t s := { s with ipv6 := t }

def defaultRoutePart : Part Session (Setting String (List HnsRoute)) where
  get s := s.defaultRoute
  set t s := { s with defaultRoute := t }

def dnsPart : Part Session (Setting DnsInfo (Option HnsDns)) where
  get s := s.dns
  set t s := { s with dns := t }

def mtuPart : Part Session (Setting Nat (Option HnsNetworkInterface)) where
  get s := s.mtu
  set t s := { s with mtu := t }

structure Engine where
  ipv6 : Bool
  dnsOptions : Option String

/-- One call: the settings of the host, the device with its id or a failure to add or update
it, and the messages that get through. -/
structure Call where
  host : HostSettings
  device : Option Nat
  delivered : GnsMessage → Bool

variable (os : Winsock) (engine : Engine)

def updateIpv4Address (c : Call) (adapterId : Option Nat) (ipAddress : EndpointIpAddress) :
    Program (Setting EndpointIpAddress (Option HnsEndpoint)) Unit Unit :=
  updateTracked (addressString os ipAddress = "" || adapterId.isNone) ipAddress
    (fun e => c.delivered (.endpointState e)) (endpointOf os ipAddress)

def updateIpv6Address (c : Call) (adapterId : Option Nat) (ipAddress : EndpointIpAddress) :
    Program (Setting EndpointIpAddress (List HnsIpAddress)) Unit Unit :=
  replaceTracked adapterId.isNone ipAddress (ipv6AddressOf os) fun r a => c.delivered (.ipAddress r a)

def updateDefaultRoute (c : Call) (adapterId : Option Nat) (gateway : String) :
    Program (Setting String (List HnsRoute)) Unit Unit :=
  replaceTracked adapterId.isNone gateway defaultRouteOf fun r route => c.delivered (.route r route)

def updateDnsSettings (c : Call) (adapterId : Option Nat) (dns : DnsInfo) :
    Program (Setting DnsInfo (Option HnsDns)) Unit Unit :=
  updateTracked adapterId.isNone dns (fun d => c.delivered (.dns .update d))
    (buildDnsNotification dns engine.dnsOptions)

def updateMtu (c : Call) (adapterId : Option Nat) (mtu : Option Nat) :
    Program (Setting Nat (Option HnsNetworkInterface)) Unit Unit :=
  updateTracked (mtu.isNone || adapterId.isNone) (mtu.getD 0)
    (fun i => c.delivered (.networkInterface .update i)) (interfaceOf (mtu.getD 0))

def refreshDevice (c : Call) (config : VirtioNetConfig) (nameservers : List SockAddrInet) :
    Program Session Unit Unit := do
  let s ← get
  match s.adapterId, c.device with
  | none, none => throw ()
  | none, some id => modify fun s => { s with adapterId := some id }
  | some _, none =>
    if s.virtioNetConfig ≠ some config || s.virtioNetNameservers ≠ nameservers then
      throw ()
  | some _, some _ => pure ()
  modify fun s =>
    { s with virtioNetConfig := some config, virtioNetNameservers := nameservers }

def refreshGuestConnection (c : Call) : Program Session Unit Unit := do
  match toIpAddresses os c.host.dns with
  | none => throw ()
  | some nameservers =>
    refreshDevice c (buildVirtioNetConfig os c.host engine.ipv6) nameservers
    let s ← get
    zoom ipv4Part (updateIpv4Address os c s.adapterId c.host.preferredIpAddress)
    when engine.ipv6 (zoom ipv6Part (updateIpv6Address os c s.adapterId c.host.preferredIpv6Address))
    zoom defaultRoutePart (updateDefaultRoute c s.adapterId (getBestGatewayAddressString os c.host))
    zoom dnsPart (updateDnsSettings engine c s.adapterId c.host.dns)
    zoom mtuPart (updateMtu c s.adapterId c.host.minMtu)

def refresh (c : Call) (s : Session) : Session := (exec (refreshGuestConnection os engine c) s).2

def Returned (c : Call) (s : Session) : Prop := (exec (refreshGuestConnection os engine c) s).1 = .ok ()

/-- The guest has the settings of the host that are present. -/
structure Converged (h : HostSettings) (s : Session) : Prop where
  ipv4 : addressString os h.preferredIpAddress ≠ "" →
    s.ipv4.guest = some (endpointOf os h.preferredIpAddress)
  ipv6 : engine.ipv6 = true → addressString os h.preferredIpv6Address ≠ "" →
    s.ipv6.guest = (ipv6AddressOf os h.preferredIpv6Address).toList
  defaultRoute : getBestGatewayAddressString os h ≠ "" →
    s.defaultRoute.guest = (defaultRouteOf (getBestGatewayAddressString os h)).toList
  dns : h.dns ≠ {} → s.dns.guest = some (buildDnsNotification h.dns engine.dnsOptions)
  mtu : ∀ m, h.minMtu = some m → s.mtu.guest = some (interfaceOf m)

/-- A setting of the host that is present and is the tracked one is in the guest. -/
structure TrackedHeld (h : HostSettings) (s : Session) : Prop where
  ipv4 : addressString os h.preferredIpAddress ≠ "" → h.preferredIpAddress = s.ipv4.tracked →
    s.ipv4.guest = some (endpointOf os h.preferredIpAddress)
  ipv6 : engine.ipv6 = true → addressString os h.preferredIpv6Address ≠ "" →
    h.preferredIpv6Address = s.ipv6.tracked →
      s.ipv6.guest = (ipv6AddressOf os h.preferredIpv6Address).toList
  defaultRoute : getBestGatewayAddressString os h ≠ "" →
    getBestGatewayAddressString os h = s.defaultRoute.tracked →
      s.defaultRoute.guest = (defaultRouteOf (getBestGatewayAddressString os h)).toList
  dns : h.dns ≠ {} → h.dns = s.dns.tracked →
    s.dns.guest = some (buildDnsNotification h.dns engine.dnsOptions)
  mtu : ∀ m, h.minMtu = some m → m = s.mtu.tracked → s.mtu.guest = some (interfaceOf m)

section Specs

variable {α β : Type}

theorem exec_send (delivered : Bool) (apply : β → β) (t : Setting α β) :
    exec (send delivered apply) t =
      if delivered then (.ok (), { t with guest := apply t.guest }) else (.error (), t) := rfl

variable {value : α}

theorem updateTracked_spec [DecidableEq α] {skip : Bool} {delivered : β → Bool}
    {content : β} (t₀ : Setting α (Option β)) :
    Triple (fun t => t = t₀) (updateTracked skip value delivered content) (fun _ t => skip = false →
        (t.guest = some content ↔ (value = t₀.tracked → t₀.guest = some content)))
      fun _ _ => True := by
  rintro t rfl
  simp only [updateTracked, exec_bind, exec_get, andThen]
  by_cases hsame : value = t.tracked
  · simp [hsame, Ends]
  · cases skip with
    | true => simp [Ends]
    | false =>
      cases delivered content with
      | true => simp [hsame, exec_bind, andThen, exec_send, Ends]
      | false => simp [hsame, exec_bind, andThen, exec_send, Ends]

def AtMostTracked (content : α → Option β) (t : Setting α (List β)) : Prop :=
  t.guest = [] ∨ t.guest = (content t.tracked).toList

variable {delivered : ModifyRequestType → β → Bool}

theorem sendRequest_remove [DecidableEq β] {content : α → Option β} {t₀ : Setting α (List β)}
    (ht : AtMostTracked content t₀) :
    Triple (fun t => t = t₀) (sendRequest delivered .remove (content t₀.tracked))
      (fun _ t => t = { t₀ with guest := [] }) fun _ t => t = t₀ := by
  rintro t rfl
  obtain ⟨tracked, guest⟩ := t
  simp only [AtMostTracked] at ht ⊢
  cases hc : content tracked with
  | none =>
    rw [hc] at ht
    simp only [Option.toList_none, or_self] at ht
    simp [sendRequest, Ends, ht]
  | some b =>
    rw [hc] at ht
    cases hd : delivered .remove b with
    | false => simp [sendRequest, exec_send, hd, Ends]
    | true =>
      rcases ht with rfl | rfl
      · simp [sendRequest, exec_send, hd, Ends]
      · simp [sendRequest, exec_send, hd, Ends]

theorem sendRequest_add [DecidableEq β] {content : Option β} :
    Triple (fun t => t = { tracked := value, guest := [] }) (sendRequest delivered .add content)
      (fun _ t => t = { tracked := value, guest := content.toList })
      fun _ t => t = { tracked := value, guest := [] } := by
  rintro t rfl
  cases content with
  | none => rfl
  | some b =>
    cases hd : delivered .add b with
    | false => simp [sendRequest, exec_send, hd, Ends]
    | true => simp [sendRequest, exec_send, hd, Ends]

theorem replaceTracked_spec [DecidableEq α] [DecidableEq β] {skip : Bool} {content : α → Option β}
    {t₀ : Setting α (List β)}
    (ht : AtMostTracked content t₀) :
    Triple (fun t => t = t₀) (replaceTracked skip value content delivered)
      (fun _ t => AtMostTracked content t ∧ (skip = false → (t.guest = (content value).toList ↔
          (value = t₀.tracked → t₀.guest = (content value).toList))))
      fun _ t => AtMostTracked content t := by
  rintro t rfl
  simp only [replaceTracked, exec_bind, exec_get, andThen]
  by_cases hsame : value = t.tracked
  · simpa [hsame, Ends] using ht
  · cases skip with
    | true => simpa [Ends] using ht
    | false =>
      simp only [hsame, decide_false, Bool.or_self, Bool.false_eq_true, if_false]
      refine Triple.bind (P := fun s => s = t) (Q := fun _ s => s = { t with guest := [] })
        ?_ (fun _ => ?_) t rfl
      · exact (sendRequest_remove ht).imp (fun _ h => h) (fun _ _ h => h) fun _ _ h => h ▸ ht
      · refine Triple.bind (Q := fun _ s => s = { tracked := value, guest := [] }) ?_ fun _ => ?_
        · rintro s rfl
          rfl
        · refine sendRequest_add.imp (fun _ h => h) ?_ ?_
          · rintro _ s rfl
            simp [AtMostTracked]
          · rintro _ s rfl
            exact Or.inl rfl

end Specs

/-- The guest has no address and no default route but the tracked ones. -/
structure Inv (s : Session) : Prop where
  ipv6 : AtMostTracked (ipv6AddressOf os) s.ipv6
  defaultRoute : AtMostTracked defaultRouteOf s.defaultRoute

theorem inv_empty : Inv os {} := ⟨Or.inl rfl, Or.inl rfl⟩

def SameSettings (s s' : Session) : Prop :=
  s'.ipv4 = s.ipv4 ∧ s'.ipv6 = s.ipv6 ∧ s'.defaultRoute = s.defaultRoute ∧ s'.dns = s.dns ∧ s'.mtu = s.mtu

variable {os engine} {c : Call} {s₀ : Session}

theorem refreshDevice_spec {config : VirtioNetConfig} {nameservers : List SockAddrInet} :
    Triple (fun s => s = s₀) (refreshDevice c config nameservers)
      (fun _ s => s.adapterId.isSome ∧ SameSettings s₀ s) fun _ s => s = s₀ := by
  rintro s rfl
  simp only [refreshDevice, exec_bind, exec_get, andThen]
  cases ha : s.adapterId with
  | none =>
    cases c.device with
    | none => simp [Ends]
    | some id => simp [exec_bind, andThen, Ends, SameSettings]
  | some id =>
    cases c.device with
    | none =>
      by_cases hsame : (s.virtioNetConfig ≠ some config || s.virtioNetNameservers ≠ nameservers) = true
      · simp only [hsame, if_true]
        rfl
      · simp only [hsame]
        exact ⟨by rw [ha]; rfl, rfl, rfl, rfl, rfl, rfl⟩
    | some id' => exact ⟨by rw [ha]; rfl, rfl, rfl, rfl, rfl, rfl⟩

def Served {α β : Type} (t₀ : Setting α β) (present : Prop) (value : α) (content : β)
    (t : Setting α β) : Prop :=
  present → (t.guest = content ↔ (value = t₀.tracked → t₀.guest = content))

variable {adapterId : Option Nat}

section

variable (ha : adapterId.isSome)
include ha

theorem updateIpv4Address_spec {a : EndpointIpAddress}
    (t₀ : Setting EndpointIpAddress (Option HnsEndpoint)) :
    Triple (fun t => t = t₀) (updateIpv4Address os c adapterId a)
      (fun _ t => Served t₀ (addressString os a ≠ "") a (some (endpointOf os a)) t)
      fun _ _ => True := by
  refine (updateTracked_spec t₀).imp (fun _ h => h) ?_ fun _ _ h => h
  intro _ t ht hpresent
  refine ht ?_
  simp [hpresent, Option.isNone_eq_false_iff.mpr ha]

theorem updateIpv6Address_spec {a : EndpointIpAddress}
    {t₀ : Setting EndpointIpAddress (List HnsIpAddress)} (ht₀ : AtMostTracked (ipv6AddressOf os) t₀) :
    Triple (fun t => t = t₀) (updateIpv6Address os c adapterId a)
      (fun _ t => AtMostTracked (ipv6AddressOf os) t ∧
        Served t₀ True a (ipv6AddressOf os a).toList t)
      fun _ t => AtMostTracked (ipv6AddressOf os) t := by
  refine (replaceTracked_spec ht₀).imp (fun _ h => h) ?_ fun _ _ h => h
  intro _ t ht
  exact ⟨ht.1, fun _ => ht.2 (Option.isNone_eq_false_iff.mpr ha)⟩

theorem updateDefaultRoute_spec {gateway : String}
    {t₀ : Setting String (List HnsRoute)} (ht₀ : AtMostTracked defaultRouteOf t₀) :
    Triple (fun t => t = t₀) (updateDefaultRoute c adapterId gateway)
      (fun _ t => AtMostTracked defaultRouteOf t ∧
        Served t₀ True gateway (defaultRouteOf gateway).toList t)
      fun _ t => AtMostTracked defaultRouteOf t := by
  refine (replaceTracked_spec ht₀).imp (fun _ h => h) ?_ fun _ _ h => h
  intro _ t ht
  exact ⟨ht.1, fun _ => ht.2 (Option.isNone_eq_false_iff.mpr ha)⟩

theorem updateDnsSettings_spec {dns : DnsInfo} (t₀ : Setting DnsInfo (Option HnsDns)) :
    Triple (fun t => t = t₀) (updateDnsSettings engine c adapterId dns)
      (fun _ t => Served t₀ True dns (some (buildDnsNotification dns engine.dnsOptions)) t)
      fun _ _ => True := by
  refine (updateTracked_spec t₀).imp (fun _ h => h) ?_ fun _ _ h => h
  intro _ t ht _
  exact ht (Option.isNone_eq_false_iff.mpr ha)

theorem updateMtu_spec {mtu : Option Nat}
    (t₀ : Setting Nat (Option HnsNetworkInterface)) :
    Triple (fun t => t = t₀) (updateMtu c adapterId mtu)
      (fun _ t => ∀ m, Served t₀ (mtu = some m) m (some (interfaceOf m)) t)
      fun _ _ => True := by
  refine (updateTracked_spec t₀).imp (fun _ h => h) ?_ fun _ _ h => h
  rintro _ t ht m rfl
  refine ht ?_
  simp [Option.isNone_eq_false_iff.mpr ha]

end

section Refresh

variable (os engine s₀) (h : HostSettings)

def ServedIpv4 (s : Session) : Prop :=
  Served s₀.ipv4 (addressString os h.preferredIpAddress ≠ "") h.preferredIpAddress
    (some (endpointOf os h.preferredIpAddress)) s.ipv4

def ServedIpv6 (s : Session) : Prop :=
  AtMostTracked (ipv6AddressOf os) s.ipv6 ∧
    Served s₀.ipv6 (engine.ipv6 = true) h.preferredIpv6Address
      (ipv6AddressOf os h.preferredIpv6Address).toList s.ipv6

def ServedRoute (s : Session) : Prop :=
  AtMostTracked defaultRouteOf s.defaultRoute ∧
    Served s₀.defaultRoute True (getBestGatewayAddressString os h)
      (defaultRouteOf (getBestGatewayAddressString os h)).toList s.defaultRoute

def ServedDns (s : Session) : Prop :=
  Served s₀.dns True h.dns (some (buildDnsNotification h.dns engine.dnsOptions)) s.dns

def ServedMtu (s : Session) : Prop :=
  ∀ m, Served s₀.mtu (h.minMtu = some m) m (some (interfaceOf m)) s.mtu

end Refresh

theorem refreshGuestConnection_spec (engine : Engine) (c : Call) (hs : Inv os s₀) :
    Triple (fun s => s = s₀) (refreshGuestConnection os engine c)
      (fun _ s => ServedIpv4 os s₀ c.host s ∧ ServedIpv6 os engine s₀ c.host s ∧
        ServedRoute os s₀ c.host s ∧ ServedDns engine s₀ c.host s ∧ ServedMtu s₀ c.host s)
      fun _ s => Inv os s := by
  unfold refreshGuestConnection
  cases toIpAddresses os c.host.dns with
  | none => exact Triple.throw fun s h => h ▸ hs
  | some nameservers =>
    refine Triple.bind (refreshDevice_spec.imp (fun _ h => h) (fun _ _ h => h) fun _ _ h => h ▸ hs)
      fun _ => ?_
    refine Triple.bind (Q := fun a s => a.adapterId.isSome = true ∧ SameSettings s₀ s) ?_ fun s₁ => ?_
    · intro s h
      exact h
    refine Triple.of_fact fun ha => ?_
    refine Triple.bind (Q := fun _ s => ServedIpv4 os s₀ c.host s ∧ s.ipv6 = s₀.ipv6 ∧
      s.defaultRoute = s₀.defaultRoute ∧ s.dns = s₀.dns ∧ s.mtu = s₀.mtu) ?_ fun _ => ?_
    · refine (updateIpv4Address_spec ha s₀.ipv4).zoom (fun s h => h.1) ?_ ?_
      · intro s t _ h ht
        exact ⟨ht, h.2⟩
      · intro s t _ h _
        exact ⟨h.2.1.symm ▸ hs.ipv6, h.2.2.1.symm ▸ hs.defaultRoute⟩
    refine Triple.bind (Q := fun _ s => ServedIpv4 os s₀ c.host s ∧ ServedIpv6 os engine s₀ c.host s ∧
      s.defaultRoute = s₀.defaultRoute ∧ s.dns = s₀.dns ∧ s.mtu = s₀.mtu) ?_ fun _ => ?_
    · cases hflag : engine.ipv6 with
      | false =>
        refine Triple.pure fun s h => ⟨h.1, ⟨h.2.1.symm ▸ hs.ipv6, ?_⟩, h.2.2⟩
        intro hon
        exact absurd hon (by simp [hflag])
      | true =>
        refine (updateIpv6Address_spec ha hs.ipv6).zoom (fun s h => h.2.1) ?_ ?_
        · intro s t _ h ht
          exact ⟨h.1, ⟨ht.1, fun _ => ht.2 trivial⟩, h.2.2⟩
        · intro s t _ h ht
          exact ⟨ht, h.2.2.1.symm ▸ hs.defaultRoute⟩
    refine Triple.bind (Q := fun _ s => ServedIpv4 os s₀ c.host s ∧ ServedIpv6 os engine s₀ c.host s ∧
      ServedRoute os s₀ c.host s ∧ s.dns = s₀.dns ∧ s.mtu = s₀.mtu) ?_ fun _ => ?_
    · refine (updateDefaultRoute_spec ha hs.defaultRoute).zoom (fun s h => h.2.2.1) ?_ ?_
      · intro s t _ h ht
        exact ⟨h.1, h.2.1, ht, h.2.2.2⟩
      · intro s t _ h ht
        exact ⟨h.2.1.1, ht⟩
    refine Triple.bind (Q := fun _ s => ServedIpv4 os s₀ c.host s ∧ ServedIpv6 os engine s₀ c.host s ∧
      ServedRoute os s₀ c.host s ∧ ServedDns engine s₀ c.host s ∧ s.mtu = s₀.mtu) ?_ fun _ => ?_
    · refine (updateDnsSettings_spec ha s₀.dns).zoom (fun s h => h.2.2.2.1) ?_ ?_
      · intro s t _ h ht
        exact ⟨h.1, h.2.1, h.2.2.1, ht, h.2.2.2.2⟩
      · intro s t _ h _
        exact ⟨h.2.1.1, h.2.2.1.1⟩
    · refine (updateMtu_spec ha s₀.mtu).zoom (fun s h => h.2.2.2.2) ?_ ?_
      · intro s t _ h ht
        exact ⟨h.1, h.2.1, h.2.2.1, h.2.2.2.1, ht⟩
      · intro s t _ h _
        exact ⟨h.2.1.1, h.2.2.1.1⟩

theorem inv_refresh {s : Session} (hs : Inv os s) : Inv os (refresh os engine c s) := by
  have h := refreshGuestConnection_spec engine c hs s rfl
  unfold refresh
  rcases hr : exec (refreshGuestConnection os engine c) s with ⟨r, s'⟩
  rw [hr] at h
  cases r with
  | ok _ => exact ⟨h.2.1.1, h.2.2.1.1⟩
  | error _ => exact h

theorem converged_refresh_iff {s : Session} (hs : Inv os s) (hret : Returned os engine c s) :
    Converged os engine c.host (refresh os engine c s) ↔ TrackedHeld os engine c.host s := by
  have h := refreshGuestConnection_spec engine c hs s rfl
  unfold Returned at hret
  unfold refresh
  rcases hr : exec (refreshGuestConnection os engine c) s with ⟨r, s'⟩
  rw [hr] at h hret
  cases hret
  obtain ⟨h4, h6, hroute, hdns, hmtu⟩ := h
  constructor
  · intro hc
    exact
      { ipv4 := fun hp => (h4 hp).mp (hc.ipv4 hp)
        ipv6 := fun hon hp => (h6.2 hon).mp (hc.ipv6 hon hp)
        defaultRoute := fun hp => (hroute.2 trivial).mp (hc.defaultRoute hp)
        dns := fun hp => (hdns trivial).mp (hc.dns hp)
        mtu := fun m hm => (hmtu m hm).mp (hc.mtu m hm) }
  · intro hc
    exact
      { ipv4 := fun hp => (h4 hp).mpr (hc.ipv4 hp)
        ipv6 := fun hon hp => (h6.2 hon).mpr (hc.ipv6 hon hp)
        defaultRoute := fun hp => (hroute.2 trivial).mpr (hc.defaultRoute hp)
        dns := fun hp => (hdns trivial).mpr (hc.dns hp)
        mtu := fun m hm => (hmtu m hm).mpr (hc.mtu m hm) }

/-- In every run, a call that returns leaves the guest with the settings of the host exactly if
no setting it was called with was tracked already without being in the guest. -/
theorem converged_iff_trackedHeld (os : Winsock) (engine : Engine) (calls : List Call) :
    Along (refresh os engine) (fun s c s' => Returned os engine c s →
        (Converged os engine c.host s' ↔ TrackedHeld os engine c.host s)) calls {} := by
  have hall : Allowed (refresh os engine) (fun _ _ => True) calls {} :=
    allowed_of_forall (fun _ _ _ => trivial) _
  refine along_of_step ?_ ?_ (inv_empty os) hall
  · intro c s hs _
    exact inv_refresh hs
  · intro c s hs _ hret
    exact converged_refresh_iff hs hret

def oneAddress : HostSettings where
  preferredIpAddress := { address := .inet 33597632, prefixLength := 24 }

def oneAddressTexts : Winsock where
  rtlIpv4AddressToString _ := "192.168.0.2"
  rtlIpv6AddressToString _ _ := "::"
  stringToSockAddrInet _ := none

/-- The message with the address is lost once; the next call finds the address tracked, sends
nothing and returns. -/
theorem address_never_sent_again :
    ¬ ∀ (os : Winsock) (engine : Engine) (calls : List Call),
      Along (refresh os engine)
        (fun s c s' => Returned os engine c s → Converged os engine c.host s') calls {} := by
  intro h
  have hrun := h oneAddressTexts { ipv6 := false, dnsOptions := none }
    [{ host := oneAddress, device := some 1, delivered := fun _ => false },
      { host := oneAddress, device := some 1, delivered := fun _ => true }]
  have hsecond := (hrun.2.1 rfl).ipv4 (by decide)
  exact absurd hsecond (by decide)

end WslPlus.Network.Consomme

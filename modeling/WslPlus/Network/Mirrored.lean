import WslPlus.Network.Endpoint

/-!
# Mirroring the addresses and routes of an interface

`WslMirroredNetworkManager::SyncIpStateWithLinux` brings the guest's addresses and
routes on one interface to those of the host. It tracks every item it has sent, with
a status and a number of attempts left, and works in passes: the interface, removals
of addresses and of routes, additions of addresses and of routes, DNS.
-/

namespace WslPlus.Network.Mirrored

inductive TrackedIpStateSyncStatus where
  | pendingAdd
  | pendingUpdate
  | pendingRemoval
  | synced
  deriving DecidableEq

def maxSyncRetryCount : Nat := 15

/-- `TrackedIpAddress` and `TrackedRoute`. -/
structure Tracked (α : Type) where
  item : α
  syncStatus : TrackedIpStateSyncStatus := .pendingAdd
  syncRetryCount : Nat := maxSyncRetryCount

/-- An address with what `operator==` leaves out of it. -/
structure HostIpAddress extends EndpointIpAddress where
  preferredLifetime : Nat := 0

def HostIpAddress.isPreferred (a : HostIpAddress) : Bool := 0 < a.preferredLifetime

def HostIpAddress.less (a b : HostIpAddress) : Bool := a.toEndpointIpAddress.less b.toEndpointIpAddress

/-- A route with what `operator==` leaves out of it. -/
structure HostRoute extends EndpointRoute where
  isAutoGeneratedPrefixRoute : Bool := false

def HostRoute.less (a b : HostRoute) : Bool := a.toEndpointRoute.less b.toEndpointRoute

def HostRoute.isNextHopOnlink (r : HostRoute) : Bool :=
  (r.family = .inet && r.nextHop = .inet 0) || (r.family = .inet6 && r.nextHop = .inet6 0 0)

def HostRoute.routeClass (r : HostRoute) : Nat :=
  if r.isAutoGeneratedPrefixRoute then 0 else if r.isNextHopOnlink then 1 else 2

/-- `operator<` of `TrackedRoute`: routes that others depend on come first. -/
def HostRoute.trackedLess (a b : HostRoute) : Bool :=
  if a.routeClass = b.routeClass then a.less b else a.routeClass < b.routeClass

/-- How a request to the guest ends; one that throws on the way is not counted as an attempt. -/
inductive Outcome where
  | succeeded
  | failed
  | threw
  deriving DecidableEq

/-- What the passes share: the answers still to come, the items of one kind the guest has and
the two flags. -/
structure Progress (κ : Type) where
  answers : List Outcome
  guest : List κ
  syncSuccessful : Bool
  refreshAllRoutes : Bool

def Progress.withGuest {κ κ' : Type} (p : Progress κ) (guest : List κ') : Progress κ' :=
  { answers := p.answers, guest, syncSuccessful := p.syncSuccessful, refreshAllRoutes := p.refreshAllRoutes }

def nextAnswer {κ : Type} (p : Progress κ) : Outcome × Progress κ :=
  match p.answers with
  | [] => (.threw, p)
  | a :: answers => (a, { p with answers })

section Requests

variable {α κ : Type} [DecidableEq κ] (key : α → κ)

def applyRequest (k : κ) : ModifyRequestType → List κ → List κ
  | .remove, guest => guest.filter fun k' => k' ≠ k
  | _, guest => if k ∈ guest then guest else guest ++ [k]

/-- `SendAddressRequestToGns` and `SendRouteRequestToGns`. -/
def sendRequestToGns (t : Tracked α) (requestType : ModifyRequestType) (p : Progress κ) :
    Bool × Tracked α × Progress κ :=
  match nextAnswer p with
  | (.succeeded, p) =>
    (true, { t with syncRetryCount := t.syncRetryCount - 1 },
      { p with guest := applyRequest (key t.item) requestType p.guest })
  | (.failed, p) => (false, { t with syncRetryCount := t.syncRetryCount - 1 }, p)
  | (.threw, p) => (false, t, p)

def sendLoopbackRequestToGns (p : Progress κ) : Bool × Progress κ :=
  ((nextAnswer p).1 = .succeeded, (nextAnswer p).2)

def keepTracked (makingIpInterfaceUpdate : Bool) (t : Tracked α) : Tracked α :=
  if t.syncStatus = .pendingRemoval then
    { t with syncStatus := .pendingUpdate, syncRetryCount := maxSyncRetryCount }
  else if makingIpInterfaceUpdate then
    { t with syncStatus := .pendingUpdate, syncRetryCount := maxSyncRetryCount }
  else t

def slateForRemoval (t : Tracked α) : Tracked α :=
  { t with
    syncStatus := .pendingRemoval
    syncRetryCount := if t.syncStatus ≠ .pendingRemoval then maxSyncRetryCount else t.syncRetryCount }

def removeTracked (loopback : Bool) (t : Tracked α) (p : Progress κ) : Option (Tracked α) × Progress κ :=
  let p := if loopback then (sendLoopbackRequestToGns p).2 else p
  match sendRequestToGns key (slateForRemoval t) .remove p with
  | (true, _, p) => (none, { p with refreshAllRoutes := true })
  | (false, t, p) =>
    (some t,
      { p with
        syncSuccessful := p.syncSuccessful && t.syncRetryCount = 0
        refreshAllRoutes := true })

/-- `contains` of an ordered set. -/
def contains (less : α → α → Bool) (host : List α) (x : α) : Bool :=
  host.any fun y => !less x y && !less y x

def removalPass (isKept : α → Bool) (makingIpInterfaceUpdate loopback : Bool) :
    List (Tracked α) → Progress κ → List (Tracked α) × Progress κ
  | [], p => ([], p)
  | t :: ts, p =>
    let first :=
      if isKept t.item then (some (keepTracked makingIpInterfaceUpdate t), p)
      else removeTracked key loopback t p
    let rest := removalPass isKept makingIpInterfaceUpdate loopback ts first.2
    (first.1.toList ++ rest.1, rest.2)

/-- `emplace` into an ordered set, with the status of the element that is there afterwards. -/
def emplace (less : α → α → Bool) (x : α) :
    List (Tracked α) → TrackedIpStateSyncStatus × List (Tracked α)
  | [] => (.pendingAdd, [{ item := x }])
  | t :: ts =>
    if less x t.item then (.pendingAdd, { item := x } :: t :: ts)
    else if less t.item x then
      let rest := emplace less x ts
      (rest.1, t :: rest.2)
    else (t.syncStatus, t :: ts)

def emplaceAll (less : α → α → Bool) : List α → List (Tracked α) → Bool × List (Tracked α)
  | [], ts => (false, ts)
  | x :: host, ts =>
    let first := emplace less x ts
    let rest := emplaceAll less host first.2
    (first.1 = .pendingAdd || first.1 = .pendingUpdate || rest.1, rest.2)

def sendEither (request other : ModifyRequestType) (t : Tracked α) (p : Progress κ) :
    Bool × Tracked α × Progress κ :=
  match sendRequestToGns key t request p with
  | (true, t, p) => (true, t, p)
  | (false, t, p) => sendRequestToGns key t other p

def settle (succeeded : Bool) (t : Tracked α) (p : Progress κ) : Tracked α × Progress κ :=
  let t := if succeeded then { t with syncStatus := .synced } else t
  (t,
    { p with
      syncSuccessful := p.syncSuccessful && (t.syncStatus = .synced || t.syncRetryCount = 0) })

def additionPass (sync : Tracked α → Progress κ → Tracked α × Progress κ) :
    List (Tracked α) → Progress κ → List (Tracked α) × Progress κ
  | [], p => ([], p)
  | t :: ts, p =>
    let first := sync t p
    let rest := additionPass sync ts first.2
    (first.1 :: rest.1, rest.2)

end Requests

def pushAddress (loopback : Bool) (request other : ModifyRequestType) (t : Tracked HostIpAddress)
    (p : Progress EndpointIpAddress) : Tracked HostIpAddress × Progress EndpointIpAddress :=
  match sendEither HostIpAddress.toEndpointIpAddress request other t p with
  | (true, t, p) =>
    if loopback then
      let created := sendLoopbackRequestToGns p
      settle created.1 t { created.2 with refreshAllRoutes := true }
    else settle true t { p with refreshAllRoutes := true }
  | (false, t, p) => settle false t { p with refreshAllRoutes := true }

def preferredChange (host : List HostIpAddress) (t : Tracked HostIpAddress) : Option HostIpAddress :=
  (host.find? fun a => !t.item.less a && !a.less t.item).filter fun a =>
    t.item.isPreferred ≠ a.isPreferred

def syncAddress (loopback : Bool) (host : List HostIpAddress) (shouldRefreshAllAddresses : Bool)
    (t : Tracked HostIpAddress) (p : Progress EndpointIpAddress) :
    Tracked HostIpAddress × Progress EndpointIpAddress :=
  match t.syncStatus with
  | .pendingAdd => pushAddress loopback .add .update t p
  | .synced =>
    match preferredChange host t with
    | some a =>
      pushAddress loopback .update .add
        { item := { t.item with preferredLifetime := a.preferredLifetime }, syncStatus := .pendingUpdate } p
    | none =>
      if shouldRefreshAllAddresses then
        pushAddress loopback .update .add { item := t.item, syncStatus := .pendingUpdate } p
      else settle false t p
  | .pendingUpdate => pushAddress loopback .update .add t p
  | .pendingRemoval => (t, p)

def syncRoute (t : Tracked HostRoute) (p : Progress EndpointRoute) :
    Tracked HostRoute × Progress EndpointRoute :=
  match t.syncStatus with
  | .pendingAdd =>
    let r := sendEither HostRoute.toEndpointRoute .add .update t p
    settle r.1 r.2.1 r.2.2
  | .synced =>
    if p.refreshAllRoutes then
      match sendEither HostRoute.toEndpointRoute .update .add t p with
      | (true, t, p) => settle true t p
      | (false, t, p) => settle false { item := t.item, syncStatus := .pendingUpdate } p
    else settle false t p
  | .pendingUpdate =>
    let r := sendEither HostRoute.toEndpointRoute .update .add t p
    settle r.1 r.2.1 r.2.2
  | .pendingRemoval => (t, p)

/-- What the host says about the interface. A disconnected interface has no address and no
route. -/
structure NetworkSettings where
  ipAddresses : List HostIpAddress
  routes : List HostRoute
  isHidden : Bool
  isConnected : Bool
  pendingIPInterfaceUpdate : Bool
  disconnected : isConnected = false → ipAddresses = [] ∧ routes = []

/-- The items tracked for an endpoint, beside those of the guest. -/
structure NetworkEndpoint where
  initialSyncComplete : Bool := false
  ipAddresses : List (Tracked HostIpAddress) := []
  routes : List (Tracked HostRoute) := []
  guestAddresses : List EndpointIpAddress := []
  guestRoutes : List EndpointRoute := []

/-- One call: the host, whether the DNS settings differ from those sent last, and how each
request ends. -/
structure Call where
  network : NetworkSettings
  dnsChanged : Bool
  answers : List Outcome

def NetworkSettings.isShown (n : NetworkSettings) : Bool := !n.isHidden && n.isConnected

def initialPass {κ : Type} (initialSyncComplete : Bool) (p : Progress κ) : Progress κ :=
  if initialSyncComplete then p else (nextAnswer p).2

def interfacePass {κ : Type} (n : NetworkSettings) (p : Progress κ) : Progress κ :=
  if n.pendingIPInterfaceUpdate || n.isHidden then
    match nextAnswer p with
    | (.succeeded, p) => { p with refreshAllRoutes := p.refreshAllRoutes || n.isConnected }
    | (_, p) => { p with syncSuccessful := false, refreshAllRoutes := true }
  else p

def addAddresses (loopback : Bool) (n : NetworkSettings) (ts : List (Tracked HostIpAddress))
    (p : Progress EndpointIpAddress) : List (Tracked HostIpAddress) × Progress EndpointIpAddress :=
  if n.isShown then
    let tracked := emplaceAll HostIpAddress.less n.ipAddresses ts
    additionPass (syncAddress loopback n.ipAddresses tracked.1) tracked.2 p
  else (ts, p)

def addRoutes (n : NetworkSettings) (ts : List (Tracked HostRoute)) (p : Progress EndpointRoute) :
    List (Tracked HostRoute) × Progress EndpointRoute :=
  if n.isShown then
    let tracked := emplaceAll HostRoute.trackedLess n.routes ts
    additionPass syncRoute tracked.2 { p with refreshAllRoutes := p.refreshAllRoutes || tracked.1 }
  else (ts, p)

def dnsPass {κ : Type} (dnsChanged : Bool) (p : Progress κ) : Progress κ :=
  if dnsChanged && (nextAnswer p).1 ≠ .succeeded then { p with syncSuccessful := false } else p

def NetworkSettings.keepsAddress (n : NetworkSettings) (a : HostIpAddress) : Bool :=
  !n.isHidden && contains HostIpAddress.less n.ipAddresses a

def NetworkSettings.keepsRoute (n : NetworkSettings) (r : HostRoute) : Bool :=
  !n.isHidden && contains HostRoute.less n.routes r

def removeAddresses (loopback : Bool) (c : Call) (e : NetworkEndpoint) :
    List (Tracked HostIpAddress) × Progress EndpointIpAddress :=
  removalPass HostIpAddress.toEndpointIpAddress c.network.keepsAddress
    c.network.pendingIPInterfaceUpdate loopback e.ipAddresses
    (interfacePass c.network (initialPass e.initialSyncComplete
      { answers := c.answers
        guest := e.guestAddresses
        syncSuccessful := true
        refreshAllRoutes := false }))

def removeRoutes (c : Call) (e : NetworkEndpoint) (p : Progress EndpointIpAddress) :
    List (Tracked HostRoute) × Progress EndpointRoute :=
  removalPass HostRoute.toEndpointRoute c.network.keepsRoute
    c.network.pendingIPInterfaceUpdate false e.routes (p.withGuest e.guestRoutes)

/-- One call, with `EnableHostAddressLoopback` as its first argument. -/
def syncIpStateWithLinux (loopback : Bool) (c : Call) (e : NetworkEndpoint) : Bool × NetworkEndpoint :=
  let keptAddresses := removeAddresses loopback c e
  let keptRoutes := removeRoutes c e keptAddresses.2
  let addresses := addAddresses loopback c.network keptAddresses.1
    (keptRoutes.2.withGuest keptAddresses.2.guest)
  let routes := addRoutes c.network keptRoutes.1 (addresses.2.withGuest keptRoutes.2.guest)
  ((dnsPass c.dnsChanged routes.2).syncSuccessful,
    { initialSyncComplete := true
      ipAddresses := addresses.1
      routes := routes.1
      guestAddresses := addresses.2.guest
      guestRoutes := routes.2.guest })

end WslPlus.Network.Mirrored

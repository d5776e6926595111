import WslPlus.Network.MirroredSync

/-!
# When the endpoints are brought up to date

`UpdateAllEndpointsImpl` asks the host for its state and pushes it to the guest, endpoint by endpoint. A
default request within 350 ms of the latest update only arms the debounce timer. An endpoint that could not
be synchronised arms the retry timer. Both timers request an update when they fire. An exception ends an
update where it stands.

A timer may fire at any time after it was set, and its callback then waits for the network lock. Every step
here holds the lock.
-/

namespace WslPlus.Network.Mirrored

open List

inductive UpdateEndpointFlag where
  | none
  | default
  | forceUpdate

/-- A threadpool timer, with the callbacks that have been started and wait for the lock. -/
structure Timer where
  isSet : Bool := false
  queued : Nat := 0

namespace Timer

def armed (t : Timer) : Bool := t.isSet || 0 < t.queued

def set (t : Timer) : Timer := { t with isSet := true }

def due (t : Timer) : Timer := if t.isSet then { isSet := false, queued := t.queued + 1 } else t

def taken (t : Timer) : Timer := { t with queued := t.queued - 1 }

theorem armed_set (t : Timer) : t.set.armed = true := rfl

theorem armed_due (t : Timer) : t.due.armed = t.armed := by
  obtain ⟨isSet, queued⟩ := t
  cases isSet with
  | true => simp [due, armed]
  | false => rfl

end Timer

structure Endpoint where
  interfaceGuid : Nat
  /-- The interface is the one of `IsInterfaceIndexOfGelnic`. -/
  isGelnic : Bool
  state : NetworkEndpoint := {}

inductive ProcessStep where
  | connectivity
  | interface
  | ipAddress
  | route
  | dns

/-- Where an exception leaves an update: in a step that asks the host, or at an endpoint, which it leaves in
some state. -/
inductive Exit where
  | process (step : ProcessStep)
  | endpoint (index : Nat) (state : NetworkEndpoint)

/-- What an update finds: the connected interfaces of the host, the settings of each interface with how the
requests to the guest end, and where an exception is thrown. -/
structure Host where
  hostConnectedInterfaces : Nat → Bool
  call : Nat → Call
  thrown : Option Exit

def NetworkSettings.showIf (n : NetworkSettings) (connected : Bool) : NetworkSettings :=
  if connected then
    if n.isHidden then { n with isHidden := false, pendingIPInterfaceUpdate := true } else n
  else { n with isHidden := true, pendingIPInterfaceUpdate := true }

structure Manager where
  enableHostAddressLoopback : Bool := false
  tickCount : Nat := 0
  stopped : Bool := false
  lastUpdateAllEndpointsDefaultTime : Nat := 0
  isDebounceUpdateAllEndpointsDefaultTimerSet : Bool := false
  debounceTimer : Timer := {}
  retryTimer : Timer := {}
  linuxIpStateRetryDebounceTimerMilliseconds : Nat := 100
  networkEndpoints : List Endpoint := []
  requested : Bool := false
  aborted : Bool := false
  /-- The latest update left an endpoint with items that are not synced and have attempts left. -/
  unsynchronised : Bool := false

def debounceUpdateAllEndpointsTimerMs : Nat := 350

def linuxIpStateRetryDebounceTimerMinMilliseconds : Nat := 100

def linuxIpStateRetryDebounceTimerMaxMilliseconds : Nat := 2000

def Tracked.retries {α : Type} (t : Tracked α) : Bool := t.syncStatus ≠ .synced && t.syncRetryCount ≠ 0

def NetworkEndpoint.retries (e : NetworkEndpoint) : Bool :=
  e.ipAddresses.any Tracked.retries || e.routes.any Tracked.retries

namespace Manager

def syncEndpoint (m : Manager) (host : Host) (e : Endpoint) : Bool × Endpoint :=
  if e.isGelnic then (true, e)
  else
    let call := host.call e.interfaceGuid
    let network := call.network.showIf (host.hostConnectedInterfaces e.interfaceGuid)
    let result := syncIpStateWithLinux m.enableHostAddressLoopback { call with network := network } e.state
    (result.1, { e with state := result.2 })

def fails (m : Manager) (host : Host) (es : List Endpoint) : Bool := es.any fun e => !(m.syncEndpoint host e).1

def pushEndpoints (m : Manager) (host : Host) (count : Nat) : Manager :=
  let failed := m.fails host (m.networkEndpoints.take count)
  { m with
    networkEndpoints :=
      (m.networkEndpoints.take count).map (fun e => (m.syncEndpoint host e).2) ++ m.networkEndpoints.drop count
    retryTimer := if failed then m.retryTimer.set else m.retryTimer
    linuxIpStateRetryDebounceTimerMilliseconds :=
      if failed then
        min (m.linuxIpStateRetryDebounceTimerMilliseconds * 2) linuxIpStateRetryDebounceTimerMaxMilliseconds
      else m.linuxIpStateRetryDebounceTimerMilliseconds }

def pushAll (m : Manager) (host : Host) : Manager :=
  let pushed := m.pushEndpoints host m.networkEndpoints.length
  { pushed with
    unsynchronised := (pushed.networkEndpoints.filter fun e => !e.isGelnic).any fun e => e.state.retries
    linuxIpStateRetryDebounceTimerMilliseconds :=
      if m.fails host m.networkEndpoints then pushed.linuxIpStateRetryDebounceTimerMilliseconds
      else linuxIpStateRetryDebounceTimerMinMilliseconds }

def begin (m : Manager) : Manager := { m with requested := false, aborted := false, unsynchronised := false }

def update (m : Manager) (host : Host) : Manager :=
  match host.thrown with
  | some (.process _) => { m.begin with aborted := true }
  | some (.endpoint index state) =>
    let pushed := m.begin.pushEndpoints host index
    { pushed with
      networkEndpoints := pushed.networkEndpoints.modify index fun e => { e with state := state }
      aborted := true }
  | none => m.begin.pushAll host

def updateAllEndpointsImpl (m : Manager) (updateFlag : UpdateEndpointFlag) (host : Host) : Manager :=
  match updateFlag with
  | .none => m
  | .forceUpdate => m.update host
  | .default =>
    if debounceUpdateAllEndpointsTimerMs ≤ m.tickCount - m.lastUpdateAllEndpointsDefaultTime then
      { m with lastUpdateAllEndpointsDefaultTime := m.tickCount }.update host
    else if m.isDebounceUpdateAllEndpointsDefaultTimerSet then { m with requested := true }
    else
      { m with
        isDebounceUpdateAllEndpointsDefaultTimerSet := true
        debounceTimer := m.debounceTimer.set
        requested := true }

end Manager

inductive ScheduleOp where
  | tick (milliseconds : Nat)
  /-- A caller of `UpdateAllEndpointsImpl`. -/
  | request (updateFlag : UpdateEndpointFlag) (host : Host)
  | debounceTimerDue
  | debounceTimerFired (host : Host)
  | retryTimerDue
  | retryTimerFired (host : Host)
  | addEndpoint (interfaceGuid : Nat) (isGelnic : Bool)
  /-- `AddEndpointImpl` gives an endpoint up and sets the debounce timer. -/
  | blockedEndpoint
  | removeEndpoint (interfaceGuid : Nat)
  | stop

namespace Manager

def takeDebounceTimer (m : Manager) : Manager :=
  { m with debounceTimer := m.debounceTimer.taken, isDebounceUpdateAllEndpointsDefaultTimerSet := false }

def takeRetryTimer (m : Manager) : Manager := { m with retryTimer := m.retryTimer.taken }

def step (op : ScheduleOp) (m : Manager) : Manager :=
  match op with
  | .tick milliseconds => { m with tickCount := m.tickCount + milliseconds }
  | .request updateFlag host => if m.stopped then m else m.updateAllEndpointsImpl updateFlag host
  | .debounceTimerDue => { m with debounceTimer := m.debounceTimer.due }
  | .debounceTimerFired host =>
    if m.debounceTimer.queued = 0 then m
    else if m.stopped then m.takeDebounceTimer
    else m.takeDebounceTimer.updateAllEndpointsImpl .default host
  | .retryTimerDue => { m with retryTimer := m.retryTimer.due }
  | .retryTimerFired host =>
    if m.retryTimer.queued = 0 then m
    else if m.stopped then m.takeRetryTimer
    else m.takeRetryTimer.updateAllEndpointsImpl .default host
  | .addEndpoint interfaceGuid isGelnic =>
    { m with networkEndpoints := m.networkEndpoints ++ [{ interfaceGuid := interfaceGuid, isGelnic := isGelnic }] }
  | .blockedEndpoint => { m with debounceTimer := m.debounceTimer.set }
  | .removeEndpoint interfaceGuid =>
    { m with networkEndpoints := m.networkEndpoints.filter fun e => e.interfaceGuid ≠ interfaceGuid }
  | .stop => { m with stopped := true }

end Manager

section Settled

variable {α κ : Type} {key : α → κ} {less : α → α → Bool} {host : List α} {ts ts' : List (Tracked α)}
  {p p' : Progress κ}

theorem AdditionRun.settled (h : AdditionRun key (emplaceAll less host ts).2 p ts' p')
    (hzero : ∀ t ∈ ts, t.syncStatus = .pendingRemoval → t.syncRetryCount = 0) (hs : p'.syncSuccessful = true) :
    ∀ t ∈ ts', t.retries = false := by
  intro t' ht'
  rcases (h.success hs).2 t' ht' with hslate | hsync | hnone
  · obtain ⟨t, ht, _, hsame, _, _⟩ := h.source t' ht'
    obtain rfl := hsame hslate
    rcases of_mem_emplaceAll ht with ht | ⟨x, _, rfl⟩
    · simp [Tracked.retries, hzero t' ht hslate]
    · cases hslate
  · simp [Tracked.retries, hsync]
  · simp [Tracked.retries, hnone]

theorem settled_of_slated {isKept : α → Bool}
    (hslate : ∀ t ∈ ts, isKept t.item = true ∨ t.syncStatus = .pendingRemoval)
    (hkept : ∀ x, isKept x = false) (hzero : ∀ t ∈ ts, t.syncStatus = .pendingRemoval → t.syncRetryCount = 0) :
    ∀ t ∈ ts, t.retries = false := by
  intro t ht
  rcases hslate t ht with hkeep | hpend
  · rw [hkept] at hkeep
    cases hkeep
  · simp [Tracked.retries, hzero t ht hpend]

end Settled

section Call

variable {n : NetworkSettings}

theorem addAddresses_settled {loopback : Bool} {ts : List (Tracked HostIpAddress)}
    {p : Progress EndpointIpAddress}
    (hslate : ∀ t ∈ ts, n.keepsAddress t.item = true ∨ t.syncStatus = .pendingRemoval)
    (hs : (addAddresses loopback n ts p).2.syncSuccessful = true) :
    p.syncSuccessful = true ∧ ((∀ t ∈ ts, t.syncStatus = .pendingRemoval → t.syncRetryCount = 0) →
      ∀ t ∈ (addAddresses loopback n ts p).1, t.retries = false) := by
  unfold addAddresses at hs ⊢
  cases hshow : n.isShown with
  | false =>
    simp only [hshow] at hs
    exact ⟨hs, settled_of_slated hslate (keeps_nothing hshow).1⟩
  | true =>
    simp only [hshow, if_true] at hs ⊢
    have hrun := additionPass_run (syncAddress_step loopback n.ipAddresses
      (emplaceAll HostIpAddress.less n.ipAddresses ts).1) (emplaceAll HostIpAddress.less n.ipAddresses ts).2 p
    exact ⟨(hrun.success hs).1, fun hzero => hrun.settled hzero hs⟩

theorem addRoutes_settled {ts : List (Tracked HostRoute)} {p : Progress EndpointRoute}
    (hslate : ∀ t ∈ ts, n.keepsRoute t.item = true ∨ t.syncStatus = .pendingRemoval)
    (hs : (addRoutes n ts p).2.syncSuccessful = true) :
    p.syncSuccessful = true ∧ ((∀ t ∈ ts, t.syncStatus = .pendingRemoval → t.syncRetryCount = 0) →
      ∀ t ∈ (addRoutes n ts p).1, t.retries = false) := by
  unfold addRoutes at hs ⊢
  cases hshow : n.isShown with
  | false =>
    simp only [hshow] at hs
    exact ⟨hs, settled_of_slated hslate (keeps_nothing hshow).2⟩
  | true =>
    simp only [hshow, if_true] at hs ⊢
    have hrun := additionPass_run syncRoute_step (emplaceAll HostRoute.trackedLess n.routes ts).2
      { p with refreshAllRoutes := p.refreshAllRoutes || (emplaceAll HostRoute.trackedLess n.routes ts).1 }
    have hp := (hrun.success hs).1
    exact ⟨hp, fun hzero => hrun.settled hzero hs⟩

theorem retries_of_success {loopback : Bool} {c : Call} {e : NetworkEndpoint}
    (hs : (syncIpStateWithLinux loopback c e).1 = true) :
    (syncIpStateWithLinux loopback c e).2.retries = false := by
  obtain ⟨p, _, hrem⟩ := removeAddresses_run loopback c e
  have hrem' := removeRoutes_run c e (removeAddresses loopback c e).2
  obtain ⟨hadd, hroutes⟩ := addRoutes_settled hrem'.slated (dnsPass_success hs)
  obtain ⟨hkept, haddr⟩ := addAddresses_settled hrem.slated hadd
  obtain ⟨hkeptAddresses, hzeroRoutes⟩ := hrem'.success hkept
  obtain ⟨_, hzeroAddresses⟩ := hrem.success hkeptAddresses
  rw [NetworkEndpoint.retries, Bool.or_eq_false_iff, any_eq_false, any_eq_false]
  constructor
  · intro t ht
    rw [haddr hzeroAddresses t ht]
    exact Bool.false_ne_true
  · intro t ht
    rw [hroutes hzeroRoutes t ht]
    exact Bool.false_ne_true

end Call

namespace Manager

variable {m : Manager} {host : Host}

/-- A request that has come since the latest update, and an update that has left something undone, have a
timer armed. -/
structure Scheduled (m : Manager) : Prop where
  requested : m.requested = true → m.debounceTimer.armed = true
  undone : m.aborted = true ∨ m.unsynchronised = true → m.debounceTimer.armed = true ∨ m.retryTimer.armed = true

def Flagged (m : Manager) : Prop :=
  m.isDebounceUpdateAllEndpointsDefaultTimerSet = true → m.debounceTimer.armed = true

structure Inv (m : Manager) : Prop where
  flagged : m.Flagged
  scheduled : m.stopped = false → m.Scheduled

def Covered (m : Manager) (host : Host) : Prop :=
  match host.thrown with
  | none => True
  | some (.process _) => m.debounceTimer.armed = true ∨ m.retryTimer.armed = true
  | some (.endpoint index _) => m.debounceTimer.armed = true ∨ m.retryTimer.armed = true ∨
      m.fails host (m.networkEndpoints.take index) = true

theorem retryTimer_pushEndpoints (count : Nat) :
    (m.pushEndpoints host count).retryTimer.armed =
      (m.retryTimer.armed || m.fails host (m.networkEndpoints.take count)) := by
  simp only [pushEndpoints]
  split
  · rename_i hfails
    rw [hfails, Bool.or_true, Timer.armed_set]
  · rename_i hfails
    rw [Bool.eq_false_iff.mpr hfails, Bool.or_false]

theorem fails_of_unsynchronised (h : (m.pushAll host).unsynchronised = true) :
    m.fails host m.networkEndpoints = true := by
  simp only [pushAll, pushEndpoints, take_length, drop_length, append_nil] at h
  obtain ⟨e', he', hretries⟩ := any_eq_true.mp h
  obtain ⟨he', hgelnic⟩ := mem_filter.mp he'
  obtain ⟨e, he, rfl⟩ := mem_map.mp he'
  rw [fails, any_eq_true]
  refine ⟨e, he, ?_⟩
  by_cases hisGelnic : e.isGelnic = true
  · rw [syncEndpoint, if_pos hisGelnic] at hgelnic
    simp [hisGelnic] at hgelnic
  · rw [syncEndpoint, if_neg hisGelnic] at hretries ⊢
    by_contra hsucceeds
    rw [Bool.not_eq_true, Bool.not_eq_false'] at hsucceeds
    rw [retries_of_success hsucceeds] at hretries
    cases hretries

theorem scheduled_pushAll : (m.begin.pushAll host).Scheduled := by
  constructor
  · intro hreq
    cases hreq
  · rintro (haborted | hunsynchronised)
    · cases haborted
    · right
      have hfails := fails_of_unsynchronised hunsynchronised
      have harmed : (m.begin.pushEndpoints host m.begin.networkEndpoints.length).retryTimer.armed = _ :=
        retryTimer_pushEndpoints _
      rw [take_length, hfails, Bool.or_true] at harmed
      exact harmed

theorem scheduled_aborted (hreq : m.requested = false) (haborted : m.aborted = true) :
    m.Scheduled ↔ m.debounceTimer.armed = true ∨ m.retryTimer.armed = true := by
  constructor
  · intro h
    exact h.undone (Or.inl haborted)
  · intro harmed
    constructor
    · rw [hreq]
      intro h
      cases h
    · intro _
      exact harmed

theorem update_iff : (m.update host).Scheduled ↔ m.Covered host := by
  unfold update Covered
  cases host.thrown with
  | none => exact iff_of_true scheduled_pushAll trivial
  | some exit =>
    cases exit with
    | process _ => exact scheduled_aborted rfl rfl
    | endpoint index _ =>
      apply (scheduled_aborted rfl rfl).trans
      have harmed : (m.begin.pushEndpoints host index).retryTimer.armed = _ := retryTimer_pushEndpoints _
      show m.debounceTimer.armed = true ∨ (m.begin.pushEndpoints host index).retryTimer.armed = true ↔ _
      rw [harmed, Bool.or_eq_true]
      exact Iff.rfl

theorem flagged_update (hflag : m.Flagged) : (m.update host).Flagged := by
  unfold update
  cases host.thrown with
  | none => exact hflag
  | some exit =>
    cases exit with
    | process _ => exact hflag
    | endpoint _ _ => exact hflag

def starts (m : Manager) (updateFlag : UpdateEndpointFlag) : Bool :=
  match updateFlag with
  | .none => false
  | .default => debounceUpdateAllEndpointsTimerMs ≤ m.tickCount - m.lastUpdateAllEndpointsDefaultTime
  | .forceUpdate => true

theorem scheduled_of_armed (harmed : m.debounceTimer.armed = true) : m.Scheduled :=
  ⟨fun _ => harmed, fun _ => Or.inl harmed⟩

variable {updateFlag : UpdateEndpointFlag}

theorem updateAllEndpointsImpl_iff (hflag : m.Flagged) (hnone : updateFlag = .none → m.Scheduled) :
    (m.updateAllEndpointsImpl updateFlag host).Scheduled ↔ (m.starts updateFlag = true → m.Covered host) := by
  cases updateFlag with
  | none => exact iff_of_true (hnone rfl) fun h => nomatch h
  | forceUpdate => exact update_iff.trans ⟨fun h _ => h, fun h => h rfl⟩
  | default =>
    simp only [updateAllEndpointsImpl, starts, decide_eq_true_eq]
    split
    · rename_i hstarts
      exact update_iff.trans ⟨fun h _ => h, fun h => h hstarts⟩
    · rename_i hearly
      have hcond : debounceUpdateAllEndpointsTimerMs ≤ m.tickCount - m.lastUpdateAllEndpointsDefaultTime →
          m.Covered host := fun h => absurd h hearly
      refine iff_of_true ?_ hcond
      split
      · rename_i hset
        exact scheduled_of_armed (hflag hset)
      · exact scheduled_of_armed (Timer.armed_set _)

theorem flagged_updateAllEndpointsImpl (hflag : m.Flagged) :
    (m.updateAllEndpointsImpl updateFlag host).Flagged := by
  cases updateFlag with
  | none => exact hflag
  | forceUpdate => exact flagged_update hflag
  | default =>
    simp only [updateAllEndpointsImpl]
    split
    · exact flagged_update hflag
    · split
      · exact hflag
      · intro _
        exact Timer.armed_set _

theorem stopped_updateAllEndpointsImpl : (m.updateAllEndpointsImpl updateFlag host).stopped = m.stopped := by
  have hupdate : ∀ m : Manager, (m.update host).stopped = m.stopped := by
    intro m
    unfold update
    cases host.thrown with
    | none => rfl
    | some exit =>
      cases exit with
      | process _ => rfl
      | endpoint _ _ => rfl
  cases updateFlag with
  | none => rfl
  | forceUpdate => exact hupdate m
  | default =>
    simp only [updateAllEndpointsImpl]
    split
    · exact hupdate _
    · split
      · rfl
      · rfl

def Retried (op : ScheduleOp) (m : Manager) : Prop :=
  match op with
  | .request updateFlag host => m.stopped = false → m.starts updateFlag = true → m.Covered host
  | .debounceTimerFired host => m.stopped = false → m.debounceTimer.queued ≠ 0 →
      m.starts .default = true → m.takeDebounceTimer.Covered host
  | .retryTimerFired host => m.stopped = false → m.retryTimer.queued ≠ 0 →
      m.starts .default = true → m.takeRetryTimer.Covered host
  | _ => True

theorem Scheduled.congr {m m' : Manager} (h : m.Scheduled) (hreq : m'.requested = m.requested)
    (haborted : m'.aborted = m.aborted) (hunsynchronised : m'.unsynchronised = m.unsynchronised)
    (hdebounce : m.debounceTimer.armed = true → m'.debounceTimer.armed = true)
    (hretry : m.retryTimer.armed = true → m'.retryTimer.armed = true) : m'.Scheduled := by
  constructor
  · rw [hreq]
    intro h'
    exact hdebounce (h.requested h')
  · rw [haborted, hunsynchronised]
    intro h'
    exact (h.undone h').imp hdebounce hretry

variable {op : ScheduleOp}

theorem flagged_step (h : m.Flagged) : (m.step op).Flagged := by
  cases op with
  | request _ _ =>
    simp only [step]
    split
    · exact h
    · exact flagged_updateAllEndpointsImpl h
  | debounceTimerDue =>
    intro hset
    exact (Timer.armed_due _).trans (h hset)
  | debounceTimerFired _ =>
    -- the callback clears the flag
    have htaken : m.takeDebounceTimer.Flagged := fun hset => by cases hset
    simp only [step]
    split
    · exact h
    · split
      · exact htaken
      · exact flagged_updateAllEndpointsImpl htaken
  | retryTimerFired _ =>
    have htaken : m.takeRetryTimer.Flagged := h
    simp only [step]
    split
    · exact h
    · split
      · exact htaken
      · exact flagged_updateAllEndpointsImpl htaken
  | blockedEndpoint => exact fun _ => Timer.armed_set _
  | tick _ => exact h
  | retryTimerDue => exact h
  | addEndpoint _ _ => exact h
  | removeEndpoint _ => exact h
  | stop => exact h

theorem scheduled_request (hstop : m.stopped = false) (hflag : m.Flagged)
    (hnone : updateFlag = .none → m.Scheduled) :
    ((m.updateAllEndpointsImpl updateFlag host).stopped = false →
        (m.updateAllEndpointsImpl updateFlag host).Scheduled) ↔ (m.starts updateFlag = true →
    m.Covered host) := by
  rw [stopped_updateAllEndpointsImpl, ← updateAllEndpointsImpl_iff hflag hnone]
  exact ⟨fun h => h hstop, fun h _ => h⟩

theorem stopped_step (h : m.stopped = true) : (m.step op).stopped = true := by
  cases op with
  | request _ _ => rw [step, if_pos h, h]
  | debounceTimerFired _ =>
    rw [step, if_pos h]
    split
    · exact h
    · exact h
  | retryTimerFired _ =>
    rw [step, if_pos h]
    split
    · exact h
    · exact h
  | tick _ => exact h
  | debounceTimerDue => exact h
  | retryTimerDue => exact h
  | addEndpoint _ _ => exact h
  | blockedEndpoint => exact h
  | removeEndpoint _ => exact h
  | stop => rfl

theorem retried_of_stopped (h : m.stopped = true) : m.Retried op := by
  have hnot : m.stopped ≠ false := by
    rw [h]
    intro hfalse
    cases hfalse
  cases op with
  | request _ _ => exact fun hfalse => absurd hfalse hnot
  | debounceTimerFired _ => exact fun hfalse => absurd hfalse hnot
  | retryTimerFired _ => exact fun hfalse => absurd hfalse hnot
  | _ => trivial

theorem step_iff (h : m.Inv) : ((m.step op).stopped = false → (m.step op).Scheduled) ↔ m.Retried op := by
  by_cases hstop : m.stopped = true
  · refine iff_of_true ?_ (retried_of_stopped hstop)
    rw [stopped_step hstop]
    intro hfalse
    cases hfalse
  have hrun : m.stopped = false := Bool.eq_false_iff.mpr hstop
  have hsched := h.scheduled hrun
  cases op with
  | request updateFlag host =>
    rw [step, if_neg hstop]
    exact (scheduled_request hrun h.flagged fun _ => hsched).trans ⟨fun h _ => h, fun h => h hrun⟩
  | debounceTimerFired host =>
    rw [step, if_neg hstop]
    by_cases hqueue : m.debounceTimer.queued = 0
    · rw [if_pos hqueue]
      exact iff_of_true (fun _ => hsched) fun _ hne => absurd hqueue hne
    · have htaken : m.takeDebounceTimer.Flagged := fun hset => by cases hset
      have hreq : _ ↔ (m.takeDebounceTimer.starts .default = true → m.takeDebounceTimer.Covered host) :=
        scheduled_request hrun htaken fun hnone => by cases hnone
      rw [if_neg hqueue]
      exact hreq.trans ⟨fun h _ _ => h, fun h => h hrun hqueue⟩
  | retryTimerFired host =>
    rw [step, if_neg hstop]
    by_cases hqueue : m.retryTimer.queued = 0
    · rw [if_pos hqueue]
      exact iff_of_true (fun _ => hsched) fun _ hne => absurd hqueue hne
    · have hreq : _ ↔ (m.takeRetryTimer.starts .default = true → m.takeRetryTimer.Covered host) :=
        scheduled_request hrun h.flagged fun hnone => by cases hnone
      rw [if_neg hqueue]
      exact hreq.trans ⟨fun h _ _ => h, fun h => h hrun hqueue⟩
  | debounceTimerDue =>
    exact iff_of_true (fun _ => hsched.congr rfl rfl rfl (Timer.armed_due _).trans id) trivial
  | retryTimerDue =>
    exact iff_of_true (fun _ => hsched.congr rfl rfl rfl id (Timer.armed_due _).trans) trivial
  | blockedEndpoint => exact iff_of_true (fun _ => scheduled_of_armed (Timer.armed_set _)) trivial
  | tick _ => exact iff_of_true (fun _ => hsched.congr rfl rfl rfl id id) trivial
  | addEndpoint _ _ => exact iff_of_true (fun _ => hsched.congr rfl rfl rfl id id) trivial
  | removeEndpoint _ => exact iff_of_true (fun _ => hsched.congr rfl rfl rfl id id) trivial
  | stop => exact iff_of_true (fun h => by cases h) trivial

end Manager

/-- In a run every request and every failure has its timer armed if and only if each update that is left by an
exception has one. -/
theorem failures_retried_iff (loopback : Bool) (ops : List ScheduleOp) :
    Along Manager.step (fun _ _ m => m.stopped = false → m.Scheduled) ops
        { enableHostAddressLoopback := loopback } ↔
      Allowed Manager.step Manager.Retried ops { enableHostAddressLoopback := loopback } := by
  have hkeep : ∀ op m, Manager.Inv m → m.Retried op → (m.step op).Inv := by
    intro op m hinv hretried
    exact ⟨Manager.flagged_step hinv.flagged, (Manager.step_iff hinv).mpr hretried⟩
  apply along_iff_allowed hkeep
  · intro op m hinv
    exact Manager.step_iff hinv
  · constructor
    · intro hset
      cases hset
    · intro _
      constructor
      · intro hrequested
        cases hrequested
      · rintro (haborted | hunsynchronised)
        · cases haborted
        · cases hunsynchronised

/-- The routes of the host cannot be read, and no timer is left to try again. -/
theorem failure_not_retried : ¬ Along Manager.step (fun _ _ m => m.stopped = false → m.Scheduled)
      [.tick 350, .addEndpoint 7 false, .request .default
      { hostConnectedInterfaces := fun interfaceGuid => interfaceGuid == 7
        call := fun _ => oneAddressCall
        thrown := some (.process .route) }]
    { enableHostAddressLoopback := false } := by
  rintro ⟨_, _, hscheduled, _⟩
  rcases (hscheduled rfl).undone (Or.inl rfl) with hdebounce | hretry
  · cases hdebounce
  · cases hretry

end WslPlus.Network.Mirrored

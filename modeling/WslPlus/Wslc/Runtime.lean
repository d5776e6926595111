import WslPlus.Lib.Threads

/-!
# The runtime of a container session

Leases bring up the VM of a session, idle timers stop it, its own exit or a client ends the
session. The threads that do so meet in a reader-writer lock, in the lock of the notifications
and in atomic members. An action of a thread is one access to these. A handler of a notification
may call back into the session on the thread it was called on.
-/

namespace WslPlus.Wslc

inductive VmState where
  | none
  | starting
  | running
  | stopping
deriving DecidableEq

inductive VmExitDisposition where
  | active
  | stopRequested
  | exitClaimed
deriving DecidableEq

inductive VmLeasePolicy where
  | acquire
  | existingOnly
deriving DecidableEq

/-- A VM instance: whether it has exited, whether its exit event is with the relay, and whether
`OnVmExited` was called for it. -/
structure Vm where
  exited : Bool := false
  watched : Bool := false
  consumed : Bool := false
deriving DecidableEq

inductive Notification where
  | started (generation : Nat)
  | stopping (generation : Nat)

/-- The members of `WSLCSessionRuntime`, the two flags of the session, and the notifications that
were delivered. The activity count is that of the leases and of the references that containers and
processes hold. -/
structure Shared where
  vmState : VmState := .none
  vmExitDisposition : VmExitDisposition := .active
  vm : Option Vm := none
  vmGeneration : Nat := 0
  notifiedGeneration : Nat := 0
  vmStopPending : Bool := false
  vmStopComplete : Bool := true
  terminating : Bool := false
  terminated : Bool := false
  activityCount : Int := 0
  activityRefs : Nat := 0
  exclusive : Bool := false
  readers : Nat := 0
  notifyLocked : Bool := false
  idleTerminationEnabled : Bool := true
  notifications : List Notification := []

/-- Who announces a stop. -/
inductive Stopper where
  | idle
  | shutdown
deriving DecidableEq

/-- Where a thread is. A VM is torn down by a stopper or by a bring-up that has failed. -/
inductive Pc where
  | outside
  -- `VmLease` and `EnsureVmRunning`
  | ensure
  | fast
  | lockExclusive
  | recheck
  | decide
  | lockShared (policy : VmLeasePolicy)
  | inspect (policy : VmLeasePolicy)
  | wait
  | held (policy : VmLeasePolicy)
  | abandon
  | release
  -- `StartVmLockHeld`
  | start
  | activate
  | number
  | create
  | watch
  | recover
  | started
  | cleanup
  -- `NotifyVmStarted`
  | notifyStarted
  | checkTerminating
  | checkGeneration
  | record
  | announceStarted
  -- `OnIdleTimer` and `TriggerIdleTerminationForTest`
  | idleBegin
  | idleTryLock
  | idleLock
  | idleTerminating
  | idleActivity
  | claim
  | idleRecheck
  | backOut
  | commit
  | leave
  | stop
  | endStop
  | restore
  | unlock
  -- `NotifyVmStopping` and `TearDownVmLockHeld`
  | notifyStopping (stopper : Stopper)
  | retire (stopper : Stopper)
  | announceStopping (stopper : Stopper)
  | relock (stopper : Stopper)
  | tearDown (stopper : Option Stopper)
  | dismantle (stopper : Option Stopper)
  | vacate (stopper : Option Stopper)
  -- `Terminate` and `Shutdown`
  | exchange
  | terminateLock
  | dropLock
  | load
  | signal
deriving DecidableEq

/-- A notification whose handler runs. -/
inductive Hook where
  | started
  | stopping (stopper : Stopper)
deriving DecidableEq

/-- A thread with the generation that it notifies of. A thread that is outside of the runtime while
hooks are under way is in the handler of the first of them, which was called from the handler of
the second, and so on; who calls a handler has no more use for the generation. -/
structure Thread where
  pc : Pc := .outside
  generation : Nat := 0
  hooks : List Hook := []
deriving DecidableEq

def Thread.goto (th : Thread) (pc : Pc) : Thread := { th with pc := pc }

namespace Shared

def lockFree (s : Shared) : Bool := !s.exclusive && s.readers == 0

def unlockExclusive (s : Shared) : Shared := { s with exclusive := false }

def unlockShared (s : Shared) : Shared := { s with readers := s.readers - 1 }

def mayNotify (s : Shared) (hooks : List Hook) : Bool := !s.notifyLocked || !hooks.isEmpty

def unlockNotify (s : Shared) (hooks : List Hook) : Shared := { s with notifyLocked := !hooks.isEmpty }

/-- The `compare_exchange` of `TryClaimExpectedStop`, and of the scope exit that gives the claim back. -/
def exchangeDisposition (s : Shared) (expected desired : VmExitDisposition) : Shared :=
  if s.vmExitDisposition = expected then { s with vmExitDisposition := desired } else s

end Shared

def Hook.resume (ok : Bool) : Hook → Pc
  | .started => if ok then .lockShared .acquire else .release
  | .stopping stopper => .relock stopper

/-- Where the lock of `m_lock` leads that a stopper takes after its notification. -/
def Stopper.locked : Stopper → Pc
  | .idle => .stop
  | .shutdown => .tearDown (some .shutdown)

def afterTearDown : Option Stopper → Pc
  | none => .abandon
  | some .idle => .endStop
  | some .shutdown => .signal

/-- The next access of a thread that is in the runtime, or the return from a handler. A thread
that waits stays where it is. -/
def advance (ok : Bool) (s : Shared) (th : Thread) : Shared × Thread :=
  match th.pc with
  | .outside =>
    match th.hooks with
    | [] => (s, th)
    | hook :: hooks => (s.unlockNotify hooks, { th with pc := hook.resume ok, hooks := hooks })
  | .ensure => (s, th.goto (if s.terminating || s.terminated then .release else .fast))
  | .fast => (s, th.goto (if s.vmState = .running then .lockShared .acquire else .lockExclusive))
  | .lockExclusive => if s.lockFree then ({ s with exclusive := true }, th.goto .recheck) else (s, th)
  | .recheck => (s, th.goto (if s.terminating || s.terminated then .abandon else .decide))
  | .decide =>
    if s.vmState = .running then (s.unlockExclusive, th.goto (.lockShared .acquire)) else (s, th.goto .start)
  | .lockShared policy =>
    if s.exclusive then (s, th) else ({ s with readers := s.readers + 1 }, th.goto (.inspect policy))
  | .inspect policy =>
    if s.vmState = .running then
      if policy = .existingOnly || !s.vmStopPending then (s, th.goto (.held policy)) else (s.unlockShared, th.goto .wait)
    else (s.unlockShared, th.goto (if policy = .existingOnly then .release else .ensure))
  | .wait => (s, if s.vmStopComplete then th.goto .ensure else th)
  | .held _ => (s.unlockShared, th.goto .release)
  | .abandon => (s.unlockExclusive, th.goto .release)
  | .release => ({ s with activityCount := s.activityCount - 1 }, th.goto .outside)
  | .start => ({ s with vmState := .starting }, th.goto .activate)
  | .activate => ({ s with vmExitDisposition := .active }, th.goto .number)
  | .number => ({ s with vmGeneration := s.vmGeneration + 1 }, th.goto .create)
  | .create => if ok then ({ s with vm := some {} }, th.goto .watch) else (s, th.goto .cleanup)
  | .watch =>
    if ok then ({ s with vm := s.vm.map ({ · with watched := true }) }, th.goto .recover) else (s, th.goto .cleanup)
  | .recover => if ok then ({ s with vmState := .running }, th.goto .started) else (s, th.goto .cleanup)
  | .started => (s.unlockExclusive, { th with pc := .notifyStarted, generation := s.vmGeneration })
  | .cleanup =>
    (s.exchangeDisposition .active .stopRequested,
      th.goto (if s.vmExitDisposition = .active then .tearDown none else .abandon))
  | .notifyStarted =>
    if s.mayNotify th.hooks then ({ s with notifyLocked := true }, th.goto .checkTerminating) else (s, th)
  | .checkTerminating =>
    if s.terminating then (s.unlockNotify th.hooks, th.goto (.lockShared .acquire)) else (s, th.goto .checkGeneration)
  | .checkGeneration =>
    if s.vmGeneration = th.generation then (s, th.goto .record)
    else (s.unlockNotify th.hooks, th.goto (.lockShared .acquire))
  | .record => ({ s with notifiedGeneration := th.generation }, th.goto .announceStarted)
  | .announceStarted =>
    ({ s with notifications := s.notifications ++ [Notification.started th.generation] },
      { th with pc := .outside, hooks := .started :: th.hooks })
  | .idleBegin =>
    (s, th.goto (if s.terminating || !s.idleTerminationEnabled then .outside else .idleTryLock))
  | .idleTryLock =>
    if s.lockFree then ({ s with exclusive := true }, th.goto .idleTerminating) else (s, th.goto .outside)
  | .idleLock => if s.lockFree then ({ s with exclusive := true }, th.goto .idleTerminating) else (s, th)
  | .idleTerminating => (s, th.goto (if s.terminating then .unlock else .idleActivity))
  | .idleActivity =>
    (s, th.goto (if s.vmState = .running && s.idleTerminationEnabled && s.activityCount == 0 then .claim else .unlock))
  | .claim =>
    (s.exchangeDisposition .active .stopRequested,
      th.goto (if s.vmExitDisposition = .active then .idleRecheck else .unlock))
  | .idleRecheck => (s, th.goto (if s.activityCount = 0 then .commit else .backOut))
  | .backOut => (s.exchangeDisposition .stopRequested .active, th.goto .unlock)
  | .commit => ({ s with vmStopComplete := false, vmStopPending := true }, th.goto .leave)
  | .leave => (s.unlockExclusive, { th with pc := .notifyStopping .idle, generation := s.vmGeneration })
  | .stop =>
    if s.vmState = .running then ({ s with vmState := .stopping }, th.goto (.tearDown (some .idle)))
    else (s, th.goto .endStop)
  | .endStop => ({ s with vmStopPending := false, vmStopComplete := true }, th.goto .restore)
  | .restore => (s.exchangeDisposition .stopRequested .active, th.goto .unlock)
  | .unlock => (s.unlockExclusive, th.goto .outside)
  | .notifyStopping stopper =>
    if s.mayNotify th.hooks then ({ s with notifyLocked := true }, th.goto (.retire stopper)) else (s, th)
  | .retire stopper =>
    if th.generation ≠ 0 ∧ s.notifiedGeneration = th.generation then
      ({ s with notifiedGeneration := 0 }, th.goto (.announceStopping stopper))
    else (s.unlockNotify th.hooks, th.goto (.relock stopper))
  | .announceStopping stopper =>
    ({ s with notifications := s.notifications ++ [Notification.stopping th.generation] },
      { th with pc := .outside, hooks := .stopping stopper :: th.hooks })
  | .relock stopper => if s.lockFree then ({ s with exclusive := true }, th.goto stopper.locked) else (s, th)
  | .tearDown stopper => ({ s with notifiedGeneration := 0 }, th.goto (.dismantle stopper))
  | .dismantle stopper => ({ s with vm := none }, th.goto (.vacate stopper))
  | .vacate stopper => ({ s with vmState := .none }, th.goto (afterTearDown stopper))
  | .exchange => if s.terminating then (s, th.goto .outside) else ({ s with terminating := true }, th.goto .terminateLock)
  | .terminateLock => if s.lockFree then ({ s with exclusive := true }, th.goto .dropLock) else (s, th)
  | .dropLock => (s.unlockExclusive, th.goto .load)
  | .load => (s, { th with pc := .notifyStopping .shutdown, generation := s.vmGeneration })
  | .signal => ({ s with terminated := true }, th.goto .unlock)

/-- What a thread may do that is outside of the runtime, or that happens there. -/
inductive Call where
  | lease (policy : VmLeasePolicy)
  | terminate
  | idleTimer
  | triggerIdleTermination
  | vmExited
  | crash
  | addActivity
  | releaseActivity

/-- `OnVmExited`, which the relay calls once for an instance. -/
def onVmExited (s : Shared) (th : Thread) : Shared × Thread :=
  match s.vm with
  | some vm =>
    if vm.exited && vm.watched && !vm.consumed then
      ({ s.exchangeDisposition .active .exitClaimed with vm := some { vm with consumed := true } },
        th.goto (if s.vmExitDisposition = .active then .exchange else .outside))
    else (s, th)
  | none => (s, th)

def call (c : Call) (s : Shared) (th : Thread) : Shared × Thread :=
  match c with
  | .lease policy =>
    ({ s with activityCount := s.activityCount + 1 },
      th.goto (if policy = .acquire then .ensure else .lockShared .existingOnly))
  | .terminate => (s, th.goto .exchange)
  -- The timer, the test and the relay have threads of their own.
  | .idleTimer => if th.hooks = [] then (s, th.goto .idleBegin) else (s, th)
  | .triggerIdleTermination => if th.hooks = [] then (s, th.goto .idleLock) else (s, th)
  | .vmExited => if th.hooks = [] then onVmExited s th else (s, th)
  | .crash => ({ s with vm := s.vm.map ({ · with exited := true }) }, th)
  | .addActivity => ({ s with activityCount := s.activityCount + 1, activityRefs := s.activityRefs + 1 }, th)
  | .releaseActivity =>
    if s.activityRefs = 0 then (s, th)
    else ({ s with activityCount := s.activityCount - 1, activityRefs := s.activityRefs - 1 }, th)

inductive Action where
  | advance (ok : Bool)
  | call (c : Call)

def act (a : Action) (s : Shared) (th : Thread) : Shared × Thread :=
  match a with
  | .advance ok => advance ok s th
  | .call c => if th.pc = .outside then call c s th else (s, th)

abbrev Runtime := Threaded Shared Thread

abbrev Op := Threaded.Op Unit Action

def step (op : Op) (r : Runtime) : Runtime := Threaded.step (fun _ => {}) act op r

def initial (idleTerminationEnabled : Bool) : Runtime :=
  ⟨{ idleTerminationEnabled := idleTerminationEnabled }, []⟩

end WslPlus.Wslc

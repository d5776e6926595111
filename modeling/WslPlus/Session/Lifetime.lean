import WslPlus.Lib.Transition

/-!
# The lifetime of distributions

A client registers a callback under a key, with the processes that keep it from being called. It is
called when the last of them has ended, at once or after a timeout. A callback runs without the
lock, taken out of the list, and goes back into it if it did not succeed.
-/

namespace WslPlus.Session

open List

namespace Lifetime

structure OwnedProcess where
  process : Nat
  terminationWait : Nat
  armed : Bool

structure Timer where
  handle : Nat
  armed : Bool

structure ClientCallback (β : Type) where
  clientProcesses : List OwnedProcess
  timer : Option Timer
  clientKey : UInt64
  callback : β
  timeout : UInt32

/-- Where a callback was taken for its execution. -/
inductive Source where
  | termination
  | timeout
deriving DecidableEq

structure Running (β : Type) where
  client : ClientCallback β
  source : Source

/-- The manager, with the callbacks that run at the moment. A handle of the thread pool is not
used twice. -/
structure LifetimeManager (β : Type) where
  exiting : Bool := false
  nextClientKey : UInt64 := 0
  callbackList : List (ClientCallback β) := []
  running : List (Running β) := []
  nextHandle : Nat := 0

/-- The calls of `RegisterCallback` that may throw. -/
inductive Fallible where
  | copyCallback
  | createTimer
  | insertClient
  | findProcess
  | duplicateHandle
  | createWait
  | insertProcess
deriving DecidableEq

section Model

variable {α β : Type}

def modifyFirst (p : α → Bool) (f : α → α) : List α → List α
  | [] => []
  | x :: xs => if p x then f x :: xs else x :: modifyFirst p f xs

namespace ClientCallback

def cancelTimer (c : ClientCallback β) : ClientCallback β :=
  { c with timer := c.timer.map ({ · with armed := false }) }

def setTimer (c : ClientCallback β) : ClientCallback β :=
  { c with timer := c.timer.map ({ · with armed := true }) }

/-- The end of `RegisterCallback`: the process is added and listened for, unless it is there. -/
def addProcess (fails : Fallible → Bool) (wait : Nat) (clientProcess : Option Nat) (c : ClientCallback β) :
    ClientCallback β :=
  match clientProcess with
  | none => c
  | some process =>
    if !c.clientProcesses.isEmpty && fails .findProcess then c
    else if c.clientProcesses.any (·.process == process) then c
    else if fails .duplicateHandle || fails .createWait || fails .insertProcess then c
    else { c with clientProcesses := c.clientProcesses ++ [⟨process, wait, true⟩] }

end ClientCallback

namespace LifetimeManager

def findClient (m : LifetimeManager β) (key : UInt64) : Option (ClientCallback β) :=
  m.callbackList.find? (·.clientKey == key)

def getRegistrationId (m : LifetimeManager β) : Option UInt64 × LifetimeManager β :=
  if m.nextClientKey + 1 = 0 then (none, m) else (some (m.nextClientKey + 1), { m with nextClientKey := m.nextClientKey + 1 })

def isAnyProcessRegistered (m : LifetimeManager β) (key : UInt64) : Bool := (m.findClient key).isSome

def registerCallback (fails : Fallible → Bool) (key : UInt64) (callback : β) (clientProcess : Option Nat)
    (timeout : UInt32) (m : LifetimeManager β) : LifetimeManager β :=
  if fails .copyCallback then m
  else
    match m.findClient key with
    | none =>
      if fails .createTimer || fails .insertClient then m
      else
        let client : ClientCallback β := ⟨[], some ⟨m.nextHandle, clientProcess.isNone⟩, key, callback, timeout⟩
        { m with
          callbackList := m.callbackList ++ [client.addProcess fails (m.nextHandle + 1) clientProcess]
          nextHandle := m.nextHandle + 2 }
    | some _ =>
      let update := fun c : ClientCallback β =>
        let c := { c with callback := callback, timeout := timeout }
        (if clientProcess.isSome then c.cancelTimer else c).addProcess fails (m.nextHandle + 1) clientProcess
      { m with
        callbackList := modifyFirst (·.clientKey == key) update m.callbackList
        nextHandle := m.nextHandle + 2 }

def removeCallback (key : UInt64) (m : LifetimeManager β) : Bool × LifetimeManager β :=
  ((m.findClient key).isSome, { m with callbackList := m.callbackList.eraseP (·.clientKey == key) })

/-- The critical section of `s_OnClientProcessTerminated`. -/
def onClientProcessTerminated (wait : Nat) (m : LifetimeManager β) : LifetimeManager β :=
  let listens := fun p : OwnedProcess => p.terminationWait == wait
  let owns := fun c : ClientCallback β => c.clientProcesses.any listens
  match m.callbackList.find? owns with
  | none => m
  | some client =>
    let erased := { client with clientProcesses := client.clientProcesses.eraseP listens }
    if erased.clientProcesses.isEmpty && client.timeout == 0 then
      { m with
        callbackList := m.callbackList.eraseP owns
        running := m.running ++ [⟨erased, .termination⟩] }
    else
      let update := fun c : ClientCallback β =>
        let c := { c with clientProcesses := c.clientProcesses.eraseP listens }
        if c.clientProcesses.isEmpty then c.setTimer else c
      { m with callbackList := modifyFirst owns update m.callbackList }

/-- The first critical section of `s_OnTimeout`. -/
def onTimeout (timer : Nat) (m : LifetimeManager β) : LifetimeManager β :=
  let owns := fun c : ClientCallback β => c.timer.any (·.handle == timer)
  match m.callbackList.find? owns with
  | none => m
  | some client =>
    if client.clientProcesses.isEmpty then
      { m with
        callbackList := m.callbackList.eraseP owns
        running := m.running ++ [⟨{ client with timer := none }, .timeout⟩] }
    else m

def finish (i : Nat) (result : Option Bool) (requeued : Bool) (m : LifetimeManager β) : LifetimeManager β :=
  match m.running[i]? with
  | none => m
  | some run =>
    let m := { m with running := m.running.eraseIdx i }
    if run.source = .timeout ∧ result = some false ∧ m.exiting = false ∧ requeued = true then
      { m with
        callbackList := m.callbackList ++ [{ run.client with timer := some ⟨m.nextHandle, true⟩ }]
        nextHandle := m.nextHandle + 1 }
    else m

def clearCallbacks (m : LifetimeManager β) : LifetimeManager β := { m with exiting := true, callbackList := [] }

end LifetimeManager

inductive Op (β : Type) where
  | getRegistrationId
  | registerCallback (fails : Fallible → Bool) (key : UInt64) (callback : β) (clientProcess : Option Nat) (timeout : UInt32)
  | removeCallback (key : UInt64)
  | processTerminated (wait : Nat)
  | timeout (timer : Nat)
  | finish (i : Nat) (result : Option Bool) (requeued : Bool)
  | clearCallbacks

def step : Op β → LifetimeManager β → LifetimeManager β
  | .getRegistrationId, m => m.getRegistrationId.2
  | .registerCallback fails key callback clientProcess timeout, m =>
    m.registerCallback fails key callback clientProcess timeout
  | .removeCallback key, m => (m.removeCallback key).2
  | .processTerminated wait, m => m.onClientProcessTerminated wait
  | .timeout timer, m => m.onTimeout timer
  | .finish i result requeued, m => m.finish i result requeued
  | .clearCallbacks, m => m.clearCallbacks

def ClientCallback.timerArmed (c : ClientCallback β) : Bool := c.timer.any (·.armed)

/-- Every entry will be called some day, no key has two entries, and what runs has no processes. -/
structure Guarded (m : LifetimeManager β) : Prop where
  armed : ∀ c ∈ m.callbackList, (∃ p ∈ c.clientProcesses, p.armed = true) ∨ c.timerArmed = true
  keys : (m.callbackList.map ClientCallback.clientKey).Nodup
  idle : ∀ run ∈ m.running, run.client.clientProcesses = []

def Requeues (m : LifetimeManager β) (op : Op β) (m' : LifetimeManager β) : Prop :=
  ∀ i requeued run, op = .finish i (some false) requeued → m.running[i]? = some run → m.exiting = false →
    ∃ c ∈ m'.callbackList, c.clientKey = run.client.clientKey ∧ c.callback = run.client.callback ∧
      c.timeout = run.client.timeout ∧ c.timerArmed = true

/-- A registration with a process fails after it has made an entry, or has cancelled the timer of
one, that has no process. -/
def Strands (fails : Fallible → Bool) (key : UInt64) (clientProcess : Option Nat)
    (m : LifetimeManager β) : Prop :=
  clientProcess.isSome = true ∧ fails .copyCallback = false ∧
    (fails .duplicateHandle = true ∨ fails .createWait = true ∨ fails .insertProcess = true) ∧
    ((m.findClient key).isSome = true ∨ fails .createTimer = false ∧ fails .insertClient = false) ∧
    ∀ c ∈ m.findClient key, c.clientProcesses = []

instance (fails : Fallible → Bool) (key : UInt64) (clientProcess : Option Nat) (m : LifetimeManager β) :
    Decidable (Strands fails key clientProcess m) :=
  inferInstanceAs (Decidable (clientProcess.isSome = true ∧ fails .copyCallback = false ∧
    (fails .duplicateHandle = true ∨ fails .createWait = true ∨ fails .insertProcess = true) ∧
    ((m.findClient key).isSome = true ∨ fails .createTimer = false ∧ fails .insertClient = false) ∧
    ∀ c ∈ m.findClient key, c.clientProcesses = []))

/-- No registration strands its entry, and a callback that returns false was run by a timer, can be
put back, and finds no other entry of its key. -/
def Careful (op : Op β) (m : LifetimeManager β) : Prop :=
  match op with
  | .registerCallback fails key _ clientProcess _ => ¬Strands fails key clientProcess m
  | .finish i result requeued =>
    ∀ run ∈ m.running[i]?, result = some false → m.exiting = false →
      run.source = .timeout ∧ requeued = true ∧ (m.findClient run.client.clientKey).isNone = true
  | _ => True

instance : (op : Op β) → (m : LifetimeManager β) → Decidable (Careful op m)
  | .registerCallback fails key _ clientProcess _, m => inferInstanceAs (Decidable (¬Strands fails key clientProcess m))
  | .finish i result requeued, m =>
    inferInstanceAs (Decidable (∀ run ∈ m.running[i]?, result = some false → m.exiting = false →
      run.source = .timeout ∧ requeued = true ∧ (m.findClient run.client.clientKey).isNone = true))
  | .getRegistrationId, _ | .removeCallback _, _ | .processTerminated _, _ | .timeout _, _ | .clearCallbacks, _ =>
    .isTrue trivial

end Model

section Lists

variable {α β : Type} {p : α → Bool} {f : α → α} {xs : List α}

theorem mem_modifyFirst {x : α} (h : x ∈ modifyFirst p f xs) : x ∈ xs ∨ ∃ y, xs.find? p = some y ∧ x = f y := by
  induction xs with
  | nil => cases h
  | cons y xs ih =>
    rw [modifyFirst] at h
    split at h
    next hy =>
      rcases mem_cons.mp h with rfl | h
      · exact .inr ⟨y, find?_cons_of_pos hy, rfl⟩
      · exact .inl (mem_cons_of_mem y h)
    next hy =>
      rcases mem_cons.mp h with rfl | h
      · exact .inl mem_cons_self
      · rcases ih h with h | ⟨z, hz, heq⟩
        · exact .inl (mem_cons_of_mem y h)
        · exact .inr ⟨z, by rw [find?_cons_of_neg hy, hz], heq⟩

theorem map_modifyFirst {g : α → β} (hf : ∀ x, g (f x) = g x) : (modifyFirst p f xs).map g = xs.map g := by
  induction xs with
  | nil => rfl
  | cons x xs ih =>
    rw [modifyFirst]
    split
    · rw [map_cons, hf, map_cons]
    · rw [map_cons, ih, map_cons]

theorem nodup_map_eraseP {g : α → β} (h : (xs.map g).Nodup) : ((xs.eraseP p).map g).Nodup :=
  h.sublist (eraseP_sublist.map g)

end Lists

section Sound

variable {β : Type} {m : LifetimeManager β} {c : ClientCallback β}

/-- The waits of the processes are armed, and without processes the timer is. -/
structure ClientCallback.Armed (c : ClientCallback β) : Prop where
  timer : c.timer.isSome = true
  waits : ∀ p ∈ c.clientProcesses, p.armed = true
  idle : c.clientProcesses = [] → c.timerArmed = true

structure Sound (m : LifetimeManager β) : Prop where
  armed : ∀ c ∈ m.callbackList, c.Armed
  keys : (m.callbackList.map ClientCallback.clientKey).Nodup
  idle : ∀ run ∈ m.running, run.client.clientProcesses = []

namespace ClientCallback

theorem setTimer_armed (h : c.timer.isSome = true) : c.setTimer.timerArmed = true := by
  obtain ⟨timer, htimer⟩ := Option.isSome_iff_exists.mp h
  simp [timerArmed, setTimer, htimer]

theorem addProcess_key (fails : Fallible → Bool) (wait : Nat) (process : Option Nat) :
    (c.addProcess fails wait process).clientKey = c.clientKey := by
  unfold addProcess
  repeat' split
  all_goals rfl

theorem addProcess_timer (fails : Fallible → Bool) (wait : Nat) (process : Option Nat) :
    (c.addProcess fails wait process).timer = c.timer := by
  unfold addProcess
  repeat' split
  all_goals rfl

theorem addProcess_waits (fails : Fallible → Bool) (wait : Nat) (process : Option Nat)
    (h : ∀ p ∈ c.clientProcesses, p.armed = true) :
    ∀ p ∈ (c.addProcess fails wait process).clientProcesses, p.armed = true := by
  unfold addProcess
  repeat' split
  all_goals try exact h
  intro p hp
  rcases mem_append.mp hp with hp | hp
  · exact h p hp
  · rw [mem_singleton.mp hp]

theorem addProcess_ne_nil {fails : Fallible → Bool} {wait process : Nat} (h : c.clientProcesses = [] →
      ¬(fails .duplicateHandle = true ∨ fails .createWait = true ∨ fails .insertProcess = true)) :
    (c.addProcess fails wait (some process)).clientProcesses ≠ [] := by
  by_cases hnil : c.clientProcesses = []
  · have hfails : (fails .duplicateHandle || fails .createWait || fails .insertProcess) = false := by
      rw [← Bool.not_eq_true, Bool.or_eq_true, Bool.or_eq_true, or_assoc]
      exact h hnil
    simp [addProcess, hnil, hfails]
  · unfold addProcess
    repeat' split
    all_goals first
      | exact hnil
      | simp

end ClientCallback

section

variable (hm : Sound m)
include hm

theorem Sound.register {fails : Fallible → Bool} {key : UInt64} {callback : β}
    {clientProcess : Option Nat} {timeout : UInt32} (hstrands : ¬Strands fails key clientProcess m) :
    Sound (m.registerCallback fails key callback clientProcess timeout) := by
  unfold LifetimeManager.registerCallback
  split
  · exact hm
  next hcopy =>
    rw [Bool.not_eq_true] at hcopy
    split
    next hnone =>
      split
      · exact hm
      next hfails =>
        rw [Bool.not_eq_true, Bool.or_eq_false_iff] at hfails
        refine ⟨?_, ?_, hm.idle⟩
        · intro c hc
          rcases mem_append.mp hc with hc | hc
          · exact hm.armed c hc
          · rw [mem_singleton.mp hc]
            refine ⟨by rw [ClientCallback.addProcess_timer]; rfl, ?_, ?_⟩
            · apply ClientCallback.addProcess_waits
              intro p hp
              cases hp
            · cases clientProcess with
              | none => exact fun _ => rfl
              | some process =>
                intro hnil
                refine absurd hnil (ClientCallback.addProcess_ne_nil fun _ hfail => ?_)
                refine hstrands ⟨rfl, hcopy, hfail, .inr hfails, ?_⟩
                rw [hnone]
                exact fun _ h => absurd h (Option.not_mem_none _)
        · rw [map_append, nodup_append]
          refine ⟨hm.keys, by simp, ?_⟩
          intro k hk k' hk'
          obtain ⟨c, hc, rfl⟩ := mem_map.mp hk
          rw [map_singleton, mem_singleton, ClientCallback.addProcess_key] at hk'
          have hne := find?_eq_none.mp hnone c hc
          rw [hk']
          intro heq
          exact hne (beq_iff_eq.mpr heq)
    next found hfound =>
      refine ⟨?_, ?_, hm.idle⟩
      · intro c hc
        rcases mem_modifyFirst hc with hc | ⟨old, hold, rfl⟩
        · exact hm.armed c hc
        · have harmed := hm.armed old (mem_of_find?_eq_some hold)
          cases clientProcess with
          | none => exact ⟨harmed.timer, harmed.waits, harmed.idle⟩
          | some process =>
            refine ⟨?_, ClientCallback.addProcess_waits _ _ _ harmed.waits, ?_⟩
            · rw [ClientCallback.addProcess_timer]
              simp [ClientCallback.cancelTimer, harmed.timer]
            · intro hnil
              refine absurd hnil (ClientCallback.addProcess_ne_nil fun hempty hfail => ?_)
              have hsame : m.findClient key = some old := hold
              refine hstrands ⟨rfl, hcopy, hfail, .inl (by rw [hsame]; rfl), ?_⟩
              rw [hsame]
              intro c hc
              rw [← Option.mem_some_iff.mp hc]
              exact hempty
      · rw [map_modifyFirst]
        · exact hm.keys
        · intro c
          rw [ClientCallback.addProcess_key]
          split <;> rfl

theorem Sound.erase (p : ClientCallback β → Bool) (running : List (Running β))
    (hrun : ∀ run ∈ running, run.client.clientProcesses = []) :
    Sound { m with callbackList := m.callbackList.eraseP p, running := running } :=
  ⟨fun c hc => hm.armed c (mem_of_mem_eraseP hc), nodup_map_eraseP hm.keys, hrun⟩

theorem Sound.take {client : ClientCallback β} (h : client.clientProcesses = []) (source : Source) :
    ∀ run ∈ m.running ++ [⟨client, source⟩], run.client.clientProcesses = [] := by
  intro run hrun
  rcases mem_append.mp hrun with hrun | hrun
  · exact hm.idle run hrun
  · rw [mem_singleton.mp hrun]
    exact h

theorem Sound.terminated (wait : Nat) : Sound (m.onClientProcessTerminated wait) := by
  unfold LifetimeManager.onClientProcessTerminated
  simp only []
  split
  · exact hm
  next client hclient =>
    split
    next hlast =>
      rw [Bool.and_eq_true, List.isEmpty_iff] at hlast
      exact hm.erase _ _ (hm.take hlast.1 .termination)
    next =>
      refine ⟨?_, ?_, hm.idle⟩
      · intro c hc
        rcases mem_modifyFirst hc with hc | ⟨old, hold, rfl⟩
        · exact hm.armed c hc
        · have harmed := hm.armed old (mem_of_find?_eq_some hold)
          split
          next hempty =>
            rw [List.isEmpty_iff] at hempty
            refine ⟨by simp [ClientCallback.setTimer, harmed.timer], ?_, fun _ => ClientCallback.setTimer_armed harmed.timer⟩
            intro p hp
            exact harmed.waits p (mem_of_mem_eraseP hp)
          next hempty =>
            rw [List.isEmpty_iff] at hempty
            exact ⟨harmed.timer, fun p hp => harmed.waits p (mem_of_mem_eraseP hp), fun hnil => absurd hnil hempty⟩
      · rw [map_modifyFirst]
        · exact hm.keys
        · intro c
          split <;> rfl

theorem Sound.timedOut (timer : Nat) : Sound (m.onTimeout timer) := by
  unfold LifetimeManager.onTimeout
  simp only []
  split
  · exact hm
  next client hclient =>
    split
    next hempty =>
      rw [List.isEmpty_iff] at hempty
      refine hm.erase _ _ (hm.take ?_ .timeout)
      exact hempty
    next => exact hm

theorem Sound.finished {i : Nat} {result : Option Bool} {requeued : Bool}
    (hcareful : Careful (.finish i result requeued) m) : Sound (m.finish i result requeued) := by
  unfold LifetimeManager.finish
  split
  · exact hm
  next run hrun =>
    have hidle : ∀ run ∈ m.running.eraseIdx i, run.client.clientProcesses = [] :=
      fun run h => hm.idle run (mem_of_mem_eraseIdx h)
    simp only []
    split
    next hguard =>
      obtain ⟨-, hfalse, hexiting, -⟩ := hguard
      obtain ⟨-, -, hnone⟩ := hcareful run hrun hfalse hexiting
      refine ⟨?_, ?_, hidle⟩
      · intro c hc
        rcases mem_append.mp hc with hc | hc
        · exact hm.armed c hc
        · have hempty := hm.idle run (mem_of_getElem? hrun)
          rw [mem_singleton.mp hc]
          refine ⟨rfl, ?_, fun _ => rfl⟩
          rw [hempty]
          exact fun _ h => absurd h not_mem_nil
      · rw [map_append, nodup_append]
        refine ⟨hm.keys, by simp, ?_⟩
        intro k hk k' hk'
        obtain ⟨c, hc, rfl⟩ := mem_map.mp hk
        rw [map_singleton, mem_singleton] at hk'
        have hne := find?_eq_none.mp (Option.isNone_iff_eq_none.mp hnone) c hc
        rw [hk']
        intro heq
        exact hne (beq_iff_eq.mpr heq)
    next => exact ⟨hm.armed, hm.keys, hidle⟩

theorem Sound.step {op : Op β} (hop : Careful op m) : Sound (Lifetime.step op m) := by
  cases op with
  | getRegistrationId =>
    simp only [Lifetime.step, LifetimeManager.getRegistrationId]
    split <;> exact ⟨hm.armed, hm.keys, hm.idle⟩
  | registerCallback => exact hm.register hop
  | removeCallback => exact hm.erase _ _ hm.idle
  | processTerminated wait => exact hm.terminated wait
  | timeout timer => exact hm.timedOut timer
  | finish => exact hm.finished hop
  | clearCallbacks => exact ⟨fun c hc => absurd hc not_mem_nil, nodup_nil, hm.idle⟩

theorem Sound.guarded : Guarded m := by
  refine ⟨?_, hm.keys, hm.idle⟩
  intro c hc
  have harmed := hm.armed c hc
  cases hprocesses : c.clientProcesses with
  | nil => exact .inr (harmed.idle hprocesses)
  | cons p ps =>
    left
    refine ⟨p, mem_cons_self, harmed.waits p ?_⟩
    rw [hprocesses]
    exact mem_cons_self

end

theorem requeues_of_careful {op : Op β} (hop : Careful op m) : Requeues m op (step op m) := by
  rintro i requeued run rfl hrun hexiting
  obtain ⟨hsrc, hrequeued, -⟩ := hop run hrun rfl hexiting
  refine ⟨{ run.client with timer := some ⟨m.nextHandle, true⟩ }, ?_, rfl, rfl, rfl, rfl⟩
  simp [step, LifetimeManager.finish, hrun, hsrc, hrequeued, hexiting]

end Sound

/-- In a run in which no registration strands its entry and a callback that returns false can go back
into the list, every entry is guarded, no key has two entries, and what returned false is queued
again. -/
theorem callbacks_guarded {β : Type} (ops : List (Op β)) (hops : Allowed step Careful ops {}) :
    Guarded (runSteps step ops {}) ∧ Along step Requeues ops {} := by
  have hstep : ∀ (op : Op β) m, Sound m → Careful op m → Sound (step op m) := fun _ _ hm hop => hm.step hop
  have hinitial : Sound ({} : LifetimeManager β) :=
    ⟨fun _ h => absurd h not_mem_nil, nodup_nil, fun _ h => absurd h not_mem_nil⟩
  refine ⟨(inv_runSteps hstep hinitial hops).guarded, ?_⟩
  exact along_of_step hstep (fun _ _ _ hop => requeues_of_careful hop) hinitial hops

def retryRun : List (Op Unit) :=
  [.registerCallback (fun _ => false) 1 () none 15000, .timeout 0, .finish 0 (some false) true]

theorem callbacks_guarded_retry :
    Guarded (runSteps step retryRun {}) ∧ (runSteps step retryRun {}).callbackList.length = 1 :=
  ⟨(callbacks_guarded retryRun (by decide)).1, by decide⟩

/-- The thread pool has no wait for the process of a new client. -/
theorem callbacks_stranded : ¬∀ ops : List (Op Unit), Guarded (runSteps step ops {}) := by
  intro h
  have harmed := (h [.registerCallback (· == .createWait) 1 () (some 7) 15000]).armed _ mem_cons_self
  rcases harmed with ⟨p, hp, -⟩ | htimer
  · cases hp
  · cases htimer

end Lifetime

end WslPlus.Session

import Mathlib.Data.List.Nodup
import WslPlus.Lib.Transition

/-!
# Callbacks for the events of Docker

`DockerEventTracker` takes a snapshot of the callbacks that match an event and invokes them
one after the other, each under its own recursive lock, without the lock of the table. A
callback may register and unregister callbacks, itself included; other threads may do so at
any time. `UnregisterCallback` takes the registration out of the table and then waits for the
lock of the registration, before it marks it. It is called through the reference that the
registration has returned, once.

The history of a run is kept newest first.
-/

namespace WslPlus.Wslc.EventTracker

open Function List

inductive ContainerEvent where
  | create
  | start
  | restart
  | stop
  | exit
  | destroy
  | execDied
  | kill
  deriving DecidableEq

inductive VolumeEvent where
  | create
  | destroy
  deriving DecidableEq

structure Attributes where
  exitCode : Option String := none
  execId : Option String := none

structure Actor where
  id : Option String
  attributes : Option Attributes := none

/-- The members of an event that are looked at, if they are there. -/
structure DockerEvent where
  type : Option String := none
  action : Option String
  time : Option Int
  actor : Option Actor

def isSpace (c : Char) : Bool := c = ' ' || ('\t' ≤ c && c ≤ '\r')

def decimal (digits : List Char) : Int := digits.foldl (fun n c => 10 * n + (c.toNat - '0'.toNat : Int)) 0

/-- `std::stoi`: blanks, a sign and digits, and then anything. -/
def stoi (text : String) : Option Int :=
  let unsigned (text : List Char) : Option Int :=
    if text.takeWhile Char.isDigit = [] then none else some (decimal (text.takeWhile Char.isDigit))
  let value :=
    match text.toList.dropWhile isSpace with
    | '-' :: rest => (unsigned rest).map (- ·)
    | '+' :: rest => unsigned rest
    | rest => unsigned rest
  value.filter fun n => -2147483648 ≤ n ∧ n ≤ 2147483647

/-- What an event asks for: whom to call, and with what. -/
inductive Dispatch where
  | container (containerId : String) (execId : Option String) (event : ContainerEvent) (exitCode : Option Int)
      (time : Int)
  | created (containerId : String) (time : Int)
  | volume (name : String) (event : VolumeEvent) (time : Int)
  deriving DecidableEq

def containerEvents : List (String × ContainerEvent) :=
  [("start", .start), ("die", .stop), ("kill", .kill), ("destroy", .destroy), ("exec_die", .execDied),
    ("restart", .restart)]

def volumeEvents : List (String × VolumeEvent) := [("create", .create), ("destroy", .destroy)]

def onContainerEvent (e : DockerEvent) (action : String) (time : Int) : Option Dispatch := do
  let actor ← e.actor
  let containerId ← actor.id
  let event ← containerEvents.lookup action
  let attributes := actor.attributes.getD {}
  let exitCode ←
    match attributes.exitCode with
    | some text => (stoi text).map some
    | none => some none
  return .container containerId attributes.execId event exitCode time

def onContainerCreated (e : DockerEvent) (time : Int) : Option Dispatch := do
  let actor ← e.actor
  let containerId ← actor.id
  return .created containerId time

def onVolumeEvent (e : DockerEvent) (action : String) (time : Int) : Option Dispatch := do
  let event ← volumeEvents.lookup action
  let actor ← e.actor
  let name ← actor.id
  return .volume name event time

def onEvent (e : DockerEvent) : Option Dispatch := do
  let action ← e.action
  let time ← e.time
  let type := e.type.getD "container"
  if type = "container" then
    -- The creation is not among the events of a container.
    if action = "create" then onContainerCreated e time else onContainerEvent e action time
  else if type = "volume" then onVolumeEvent e action time
  else none

/-- The tables of callbacks. -/
inductive Kind where
  | container
  | volume
  | create
  deriving DecidableEq

/-- What a callback was registered for. -/
inductive Target where
  | container (containerId : String) (execId : Option String)
  | volume
  | create
  deriving DecidableEq

def Target.kind : Target → Kind
  | .container _ _ => .container
  | .volume => .volume
  | .create => .create

def Dispatch.kind : Dispatch → Kind
  | .container .. => .container
  | .created .. => .create
  | .volume .. => .volume

def Dispatch.selects : Dispatch → Target → Bool
  | .container containerId execId _ _ _, .container id exec => id = containerId && (exec = none || exec = execId)
  | .created .., .create => true
  | .volume .., .volume => true
  | _, _ => false

structure Registration where
  id : Nat
  target : Target
  deriving DecidableEq

inductive Call where
  | registering (entry : Registration)
  /-- The registration is taken out of its table, if it was there, and not yet marked. -/
  | unregistering (id : Nat) (found : Bool)
  deriving DecidableEq

/-- A thread that delivers an event has its number and the callbacks whose turn is still to come. -/
structure Thread where
  delivery : Option (Nat × List Registration) := none
  running : Option Nat := none
  call : Option Call := none
  deriving DecidableEq

def Thread.calls (th : Thread) : Bool := th.call = none && (th.delivery = none || th.running ≠ none)

inductive Event where
  | registered (entry : Registration)
  | taken (id : Nat)
  /-- `UnregisterCallback` has returned on a thread. -/
  | unregistered (id thread : Nat)
  | snapshot (delivery : Nat) (dispatch : Dispatch) (entries : List Registration)
  | started (delivery id : Nat)
  | skipped (delivery id : Nat)
  | returned (delivery id : Nat)
  | delivered (delivery : Nat)
  deriving DecidableEq

/-- With `owner`, who holds the lock of a registration, and `references`, the identifiers that may
be unregistered. -/
structure Tracker where
  callbacks : Kind → List Registration := fun _ => []
  unregistered : List Nat := []
  callbackId : Nat := 0
  owner : Nat → Option Nat := fun _ => none
  threads : Nat → Thread := fun _ => {}
  references : List Nat := []
  deliveries : Nat := 0
  log : List Event := []

inductive Op where
  | deliver (thread : Nat) (event : DockerEvent)
  /-- The next turn of `InvokeCallbacks`, once the lock is free. -/
  | next (thread : Nat)
  | returns (thread : Nat)
  | register (thread : Nat) (target : Target)
  | emplace (thread : Nat)
  | unregister (thread id : Nat)
  | mark (thread : Nat)

namespace Tracker

def setThread (s : Tracker) (t : Nat) (th : Thread) : Tracker := { s with threads := update s.threads t th }

def record (s : Tracker) (e : Event) : Tracker := { s with log := e :: s.log }

def lockable (s : Tracker) (t id : Nat) : Bool := s.owner id = none || s.owner id = some t

def deliver (s : Tracker) (t : Nat) (dispatch : Dispatch) : Tracker :=
  let entries := (s.callbacks dispatch.kind).filter fun entry => dispatch.selects entry.target
  ({ s with deliveries := s.deliveries + 1 }.setThread t { delivery := some (s.deliveries, entries) }).record
    (.snapshot s.deliveries dispatch entries)

def turn (s : Tracker) (t delivery : Nat) (entry : Registration) (rest : List Registration) : Tracker :=
  if entry.id ∈ s.unregistered then
    (s.setThread t { delivery := some (delivery, rest) }).record (.skipped delivery entry.id)
  else
    ({ s with owner := update s.owner entry.id (some t) }.setThread t
      { delivery := some (delivery, rest), running := some entry.id }).record (.started delivery entry.id)

def next (s : Tracker) (t : Nat) (th : Thread) : Tracker :=
  match th.delivery, th.running with
  | some (delivery, entry :: rest), none => if s.lockable t entry.id then s.turn t delivery entry rest else s
  | some (delivery, []), none => (s.setThread t {}).record (.delivered delivery)
  | _, _ => s

def returns (s : Tracker) (t : Nat) (th : Thread) : Tracker :=
  match th.delivery, th.running, th.call with
  | some (delivery, _), some id, none =>
    ({ s with owner := update s.owner id none }.setThread t { th with running := none }).record
      (.returned delivery id)
  | _, _, _ => s

def register (s : Tracker) (t : Nat) (th : Thread) (target : Target) : Tracker :=
  { s with callbackId := s.callbackId + 1 }.setThread t
    { th with call := some (.registering ⟨s.callbackId, target⟩) }

def emplace (s : Tracker) (t : Nat) (th : Thread) (entry : Registration) : Tracker :=
  ({ s with
    callbacks := update s.callbacks entry.target.kind (s.callbacks entry.target.kind ++ [entry])
    references := entry.id :: s.references }.setThread t { th with call := none }).record (.registered entry)

/-- The table in which a registration is found; they are searched one after the other. -/
def find (s : Tracker) (id : Nat) : Option Kind :=
  [Kind.container, .volume, .create].find? fun kind => (s.callbacks kind).any fun entry => entry.id = id

def unregister (s : Tracker) (t : Nat) (th : Thread) (id : Nat) : Tracker :=
  let s := { s with references := s.references.filter (· ≠ id) }
  match s.find id with
  | some kind =>
    ({ s with
      callbacks := update s.callbacks kind ((s.callbacks kind).eraseP fun entry => entry.id = id) }.setThread t
        { th with call := some (.unregistering id true) }).record (.taken id)
  | none => s.setThread t { th with call := some (.unregistering id false) }

def mark (s : Tracker) (t : Nat) (th : Thread) (id : Nat) (found : Bool) : Tracker :=
  if found then
    if s.lockable t id then
      ({ s with unregistered := id :: s.unregistered }.setThread t { th with call := none }).record (.unregistered id t)
    else s
  else (s.setThread t { th with call := none }).record (.unregistered id t)

end Tracker

def step (op : Op) (s : Tracker) : Tracker :=
  match op with
  | .deliver t event =>
    if s.threads t = {} then
      match onEvent event with
      | some dispatch => s.deliver t dispatch
      | none => s
    else s
  | .next t => s.next t (s.threads t)
  | .returns t => s.returns t (s.threads t)
  | .register t target => if (s.threads t).calls then s.register t (s.threads t) target else s
  | .emplace t =>
    match (s.threads t).call with
    | some (.registering entry) => s.emplace t (s.threads t) entry
    | _ => s
  | .unregister t id => if (s.threads t).calls ∧ id ∈ s.references then s.unregister t (s.threads t) id else s
  | .mark t =>
    match (s.threads t).call with
    | some (.unregistering id found) => s.mark t (s.threads t) id found
    | _ => s

namespace Tracker

variable {s s' : Tracker} {t u : Nat} {th : Thread} {e : Event}

@[simp]
theorem setThread_self : (s.setThread t th).threads t = th := update_self ..

theorem setThread_of_ne (h : u ≠ t) : (s.setThread t th).threads u = s.threads u := update_of_ne h ..

theorem setThread_cases {p : Thread → Prop} (h : p ((s.setThread t th).threads u)) :
    (u = t ∧ p th) ∨ (u ≠ t ∧ p (s.threads u)) := by
  by_cases hu : u = t
  · subst hu
    rw [setThread_self] at h
    exact .inl ⟨rfl, h⟩
  · rw [setThread_of_ne hu] at h
    exact .inr ⟨hu, h⟩

@[simp]
theorem record_log : (s.record e).log = e :: s.log := rfl

@[simp]
theorem setThread_log : (s.setThread t th).log = s.log := rfl

inductive Steps (s : Tracker) : Tracker → Prop where
  | same : Steps s s
  | deliver (t : Nat) (dispatch : Dispatch) (hidle : s.threads t = {}) : Steps s (s.deliver t dispatch)
  | skip (t n : Nat) (entry : Registration) (rest : List Registration)
      (hdelivery : (s.threads t).delivery = some (n, entry :: rest)) (hrunning : (s.threads t).running = none)
      (hmark : entry.id ∈ s.unregistered) :
      Steps s ((s.setThread t { delivery := some (n, rest) }).record (.skipped n entry.id))
  | start (t n : Nat) (entry : Registration) (rest : List Registration)
      (hdelivery : (s.threads t).delivery = some (n, entry :: rest)) (hrunning : (s.threads t).running = none)
      (hmark : entry.id ∉ s.unregistered) (hlock : s.lockable t entry.id = true) :
      Steps s (({ s with owner := update s.owner entry.id (some t) }.setThread t
        { delivery := some (n, rest), running := some entry.id }).record (.started n entry.id))
  | finish (t n : Nat) (hdelivery : (s.threads t).delivery = some (n, [])) (hrunning : (s.threads t).running = none) :
      Steps s ((s.setThread t {}).record (.delivered n))
  | returns (t n id : Nat) (rest : List Registration) (hdelivery : (s.threads t).delivery = some (n, rest))
      (hrunning : (s.threads t).running = some id) :
      Steps s (({ s with owner := update s.owner id none }.setThread t
        { s.threads t with running := none }).record (.returned n id))
  | register (t : Nat) (target : Target) : Steps s (s.register t (s.threads t) target)
  | emplace (t : Nat) (entry : Registration) (hcall : (s.threads t).call = some (.registering entry)) :
      Steps s (s.emplace t (s.threads t) entry)
  | unregister (t id : Nat) (href : id ∈ s.references) : Steps s (s.unregister t (s.threads t) id)
  | mark (t id : Nat) (found : Bool) (hcall : (s.threads t).call = some (.unregistering id found)) :
      Steps s (s.mark t (s.threads t) id found)

theorem steps_next (t : Nat) : Steps s (s.next t (s.threads t)) := by
  rw [Tracker.next]
  split
  · rename_i n entry rest hdel hrun
    split
    · rename_i hlock
      rw [turn]
      split
      · rename_i hmark
        exact .skip t n entry rest hdel hrun hmark
      · rename_i hmark
        exact .start t n entry rest hdel hrun hmark hlock
    · exact .same
  · rename_i n hdel hrun
    exact .finish t n hdel hrun
  · exact .same

theorem steps_step (op : Op) : Steps s (step op s) := by
  cases op with
  | deliver t event =>
    simp only [step]
    split
    · rename_i hidle
      split
      · rename_i dispatch _
        exact .deliver t dispatch hidle
      · exact .same
    · exact .same
  | next t => exact steps_next t
  | returns t =>
    simp only [step, Tracker.returns]
    split
    · rename_i n rest id hdel hrun _
      exact .returns t n id rest hdel hrun
    · exact .same
  | register t target =>
    simp only [step]
    split
    · exact .register t target
    · exact .same
  | emplace t =>
    simp only [step]
    split
    · rename_i entry hcall
      exact .emplace t entry hcall
    · exact .same
  | unregister t id =>
    simp only [step]
    split
    · rename_i hcalls
      exact .unregister t id hcalls.2
    · exact .same
  | mark t =>
    simp only [step]
    split
    · rename_i id found hcall
      exact .mark t id found hcall
    · exact .same

end Tracker

def Event.registration : Event → Option Registration
  | .registered entry => some entry
  | _ => none

def registered (log : List Event) : List Registration := (log.filterMap Event.registration).reverse

def Event.turn (n : Nat) : Event → Option Nat
  | .started m id | .skipped m id => if m = n then some id else none
  | _ => none

def turns (n : Nat) (log : List Event) : List Nat := (log.filterMap (Event.turn n)).reverse

theorem registered_cons (e : Event) (log : List Event) :
    registered (e :: log) = registered log ++ e.registration.toList := by
  unfold registered
  cases h : e.registration <;> simp [h]

theorem turns_cons (n : Nat) (e : Event) (log : List Event) : turns n (e :: log) = turns n log ++
    (e.turn n).toList := by
  unfold turns
  cases h : e.turn n <;> simp [h]

/-- The tables hold what is registered and not taken out, and the identifiers are not used twice. -/
structure Tables (s : Tracker) : Prop where
  fresh : ∀ entry ∈ registered s.log, entry.id < s.callbackId
  nodup : ((registered s.log).map (·.id)).Nodup
  coming : ∀ t entry, (s.threads t).call = some (.registering entry) →
    entry.id < s.callbackId ∧ ∀ entry' ∈ registered s.log, entry'.id ≠ entry.id
  distinct : ∀ t u entry entry', (s.threads t).call = some (.registering entry) →
    (s.threads u).call = some (.registering entry') → entry.id = entry'.id → t = u
  taken : ∀ id, .taken id ∈ s.log → ∃ entry ∈ registered s.log, entry.id = id
  callbacks : ∀ kind, s.callbacks kind =
    (registered s.log).filter fun entry => entry.target.kind = kind ∧ .taken entry.id ∉ s.log
  references : ∀ id ∈ s.references, .taken id ∉ s.log ∧ ∃ entry ∈ registered s.log, entry.id = id
  found : ∀ t id found, (s.threads t).call = some (.unregistering id found) → found = true

namespace Tables

variable {s s' : Tracker}

theorem initial : Tables {} := by
  constructor <;> simp [registered]

theorem frame (h : Tables s) (hid : s'.callbackId = s.callbackId) (hcallbacks : s'.callbacks = s.callbacks)
    (href : s'.references = s.references) (hreg : registered s'.log = registered s.log)
    (htaken : ∀ id, .taken id ∈ s'.log ↔ .taken id ∈ s.log)
    (hcall : ∀ t call, (s'.threads t).call = some call → (s.threads t).call = some call) : Tables s' where
  fresh := by rw [hreg, hid]; exact h.fresh
  nodup := by rw [hreg]; exact h.nodup
  coming := by
    intro t entry hentry
    rw [hreg, hid]
    exact h.coming t entry (hcall t _ hentry)
  distinct := by
    intro t u entry entry' ht hu
    exact h.distinct t u entry entry' (hcall t _ ht) (hcall u _ hu)
  taken := by
    intro id hid
    rw [hreg]
    exact h.taken id ((htaken id).mp hid)
  callbacks := by
    intro kind
    rw [hcallbacks, hreg, h.callbacks kind]
    simp only [htaken]
  references := by
    intro id hid
    rw [hreg, htaken]
    exact h.references id (href ▸ hid)
  found := by
    intro t id found ht
    exact h.found t id found (hcall t _ ht)

theorem call_setThread {t u : Nat} {th : Thread} {call : Call}
    (h : ((s.setThread t th).threads u).call = some call) :
    (u = t ∧ th.call = some call) ∨ (u ≠ t ∧ (s.threads u).call = some call) := 
  Tracker.setThread_cases (p := fun th => th.call = some call) h

theorem register (h : Tables s) (t : Nat) (target : Target) : Tables (s.register t (s.threads t) target) := by
  have hcall {u : Nat} {call : Call} (hu : ((s.register t (s.threads t) target).threads u).call = some call) :
      (u = t ∧ call = .registering ⟨s.callbackId, target⟩) ∨ (u ≠ t ∧ (s.threads u).call = some call) :=
    (call_setThread (s := { s with callbackId := s.callbackId + 1 }) hu).imp_left fun ⟨hut, heq⟩ =>
      ⟨hut, (Option.some.inj heq).symm⟩
  refine { h with fresh := ?_, coming := ?_, distinct := ?_, found := ?_ }
  · intro entry hentry
    exact Nat.lt_succ_of_lt (h.fresh entry hentry)
  · intro u entry hu
    rcases hcall hu with ⟨-, heq⟩ | ⟨-, hu⟩
    · cases heq
      exact ⟨Nat.lt_succ_self _, fun entry' hentry' => Nat.ne_of_lt (h.fresh entry' hentry')⟩
    · obtain ⟨hlt, hne⟩ := h.coming u entry hu
      exact ⟨Nat.lt_succ_of_lt hlt, hne⟩
  · intro u v entry entry' hu hv hid
    rcases hcall hu with ⟨hut, heq⟩ | ⟨-, hu⟩ <;> rcases hcall hv with ⟨hvt, heq'⟩ | ⟨-, hv⟩
    · rw [hut, hvt]
    · cases heq
      exact absurd hid (Nat.ne_of_gt (h.coming v entry' hv).1)
    · cases heq'
      exact absurd hid (Nat.ne_of_lt (h.coming u entry hu).1)
    · exact h.distinct u v entry entry' hu hv hid
  · intro u id found hu
    rcases hcall hu with ⟨-, heq⟩ | ⟨-, hu⟩
    · cases heq
    · exact h.found u id found hu

theorem emplace (h : Tables s) {t : Nat} {entry : Registration}
    (hentry : (s.threads t).call = some (.registering entry)) :
    Tables (s.emplace t (s.threads t) entry) := by
  obtain ⟨hlt, hnew⟩ := h.coming t entry hentry
  have hreg : registered (s.emplace t (s.threads t) entry).log = registered s.log ++ [entry] :=
    registered_cons (.registered entry) s.log
  have htaken (id : Nat) : .taken id ∈ (s.emplace t (s.threads t) entry).log ↔ .taken id ∈ s.log := by
    change .taken id ∈ .registered entry :: s.log ↔ _
    simp
  have hcall {u : Nat} {call : Call} (hu : ((s.emplace t (s.threads t) entry).threads u).call = some call) :
      u ≠ t ∧ (s.threads u).call = some call := by
    rcases call_setThread hu with ⟨-, hnone⟩ | hu
    · cases hnone
    · exact hu
  have hnotTaken : .taken entry.id ∉ s.log := by
    intro hmem
    obtain ⟨entry', hentry', heq⟩ := h.taken entry.id hmem
    exact hnew entry' hentry' heq
  constructor
  · intro entry' hentry'
    rw [hreg] at hentry'
    rcases mem_append.mp hentry' with hentry' | hentry'
    · exact h.fresh entry' hentry'
    · rw [mem_singleton.mp hentry']
      exact hlt
  · rw [hreg, map_append, nodup_append]
    refine ⟨h.nodup, nodup_singleton _, ?_⟩
    rintro a ha b hb rfl
    obtain ⟨entry', hentry', rfl⟩ := mem_map.mp ha
    exact hnew entry' hentry' (mem_singleton.mp hb)
  · intro u entry' hu
    obtain ⟨hne, hu⟩ := hcall hu
    obtain ⟨hlt', hnew'⟩ := h.coming u entry' hu
    refine ⟨hlt', ?_⟩
    intro entry'' hentry''
    rw [hreg] at hentry''
    rcases mem_append.mp hentry'' with hentry'' | hentry''
    · exact hnew' entry'' hentry''
    · rw [mem_singleton.mp hentry'']
      exact fun heq => hne (h.distinct u t entry' entry hu hentry heq.symm)
  · intro u v entry' entry'' hu hv
    exact h.distinct u v entry' entry'' (hcall hu).2 (hcall hv).2
  · intro id hid
    obtain ⟨entry', hentry', heq⟩ := h.taken id ((htaken id).mp hid)
    rw [hreg]
    exact ⟨entry', mem_append_left _ hentry', heq⟩
  · intro kind
    rw [hreg, filter_append]
    simp only [htaken]
    rw [← h.callbacks kind]
    change update s.callbacks entry.target.kind (s.callbacks entry.target.kind ++ [entry]) kind = _
    by_cases hkind : entry.target.kind = kind
    · subst hkind
      simp [hnotTaken]
    · rw [update_of_ne (Ne.symm hkind)]
      simp [hkind]
  · intro id hid
    rw [hreg, htaken]
    rcases mem_cons.mp (show id ∈ entry.id :: s.references from hid) with rfl | hid
    · exact ⟨hnotTaken, entry, mem_append_right _ mem_cons_self, rfl⟩
    · obtain ⟨hnot, entry', hentry', heq⟩ := h.references id hid
      exact ⟨hnot, entry', mem_append_left _ hentry', heq⟩
  · intro u id found hu
    exact h.found u id found (hcall hu).2

theorem eq_of_id (h : Tables s) {a b : Registration} (ha : a ∈ registered s.log) (hb : b ∈ registered s.log)
    (hid : a.id = b.id) : a = b := inj_on_of_nodup_map h.nodup ha hb hid

variable {id : Nat}

theorem find_eq (h : Tables s) (href : id ∈ s.references) :
    ∃ entry ∈ registered s.log, entry.id = id ∧ s.find id = some entry.target.kind := by
  obtain ⟨hnot, entry, hentry, rfl⟩ := h.references id href
  have hany (kind : Kind) : ((s.callbacks kind).any fun entry' => entry'.id = entry.id) = true ↔
      entry.target.kind = kind := by
    rw [any_eq_true]
    constructor
    · rintro ⟨entry', hentry', heq⟩
      rw [h.callbacks kind, mem_filter] at hentry'
      obtain ⟨hmem, hkind⟩ := hentry'
      rw [← h.eq_of_id hmem hentry (of_decide_eq_true heq)]
      exact (of_decide_eq_true hkind).1
    · rintro rfl
      refine ⟨entry, ?_, by simp⟩
      rw [h.callbacks, mem_filter]
      exact ⟨hentry, by simp [hnot]⟩
  refine ⟨entry, hentry, rfl, ?_⟩
  rw [Tracker.find]
  cases hkind : entry.target.kind <;> simp_all

theorem eraseP_eq_filter {entries : List Registration} (hnodup : (entries.map (·.id)).Nodup) (id : Nat) :
    (entries.eraseP fun entry => entry.id = id) = entries.filter fun entry => entry.id ≠ id := by
  induction entries with
  | nil => rfl
  | cons entry entries ih =>
    rw [map_cons, nodup_cons] at hnodup
    by_cases hid : entry.id = id
    · rw [eraseP_cons_of_pos (by simpa using hid), filter_cons_of_neg (by simpa using hid)]
      symm
      rw [filter_eq_self]
      intro entry' hentry'
      rw [decide_eq_true_eq]
      rintro rfl
      exact hnodup.1 (mem_map.mpr ⟨entry', hentry', hid.symm⟩)
    · rw [eraseP_cons_of_neg (by simpa using hid), filter_cons_of_pos (by simpa using hid), ih hnodup.2]

theorem unregister_eq (h : Tables s) (href : id ∈ s.references) (t : Nat) (th : Thread) :
    ∃ entry ∈ registered s.log, entry.id = id ∧ s.unregister t th id = ({ s with
        references := s.references.filter (· ≠ id)
        callbacks := update s.callbacks entry.target.kind
          ((s.callbacks entry.target.kind).eraseP fun entry => entry.id = id) }.setThread t
            { th with call := some (.unregistering id true) }).record (.taken id) := by
  obtain ⟨entry, hentry, hid, hfind⟩ := h.find_eq href
  have hfind' : Tracker.find { s with references := s.references.filter (· ≠ id) } id = some entry.target.kind := hfind
  refine ⟨entry, hentry, hid, ?_⟩
  simp only [Tracker.unregister, hfind']

theorem unregister (h : Tables s) (href : id ∈ s.references) (t : Nat) :
    Tables (s.unregister t (s.threads t) id) := by
  obtain ⟨entry, hentry, rfl, heq⟩ := h.unregister_eq href t (s.threads t)
  rw [heq]
  have hreg : registered (.taken entry.id :: s.log) = registered s.log := by
    rw [registered_cons]
    exact append_nil _
  have hcall {u : Nat} {call : Call} (hu : ((s.setThread t { s.threads t with
      call := some (.unregistering entry.id true) }).threads u).call = some call) :
      call = .unregistering entry.id true ∨ (s.threads u).call = some call :=
    (call_setThread hu).imp (fun ⟨_, heq⟩ => (Option.some.inj heq).symm) And.right
  have hregistering {u : Nat} {entry' : Registration} (hu : ((s.setThread t { s.threads t with
      call := some (.unregistering entry.id true) }).threads u).call = some (.registering entry')) :
      (s.threads u).call = some (.registering entry') := by
    rcases hcall hu with heq | hu
    · cases heq
    · exact hu
  constructor
  · rw [Tracker.record_log, Tracker.setThread_log, hreg]
    exact h.fresh
  · rw [Tracker.record_log, Tracker.setThread_log, hreg]
    exact h.nodup
  · intro u entry' hu
    rw [Tracker.record_log, Tracker.setThread_log, hreg]
    exact h.coming u entry' (hregistering hu)
  · intro u v entry' entry'' hu hv
    exact h.distinct u v entry' entry'' (hregistering hu) (hregistering hv)
  · intro id' hid'
    rw [Tracker.record_log, Tracker.setThread_log] at hid' ⊢
    rw [hreg]
    rcases mem_cons.mp hid' with heq | hid'
    · cases heq
      exact ⟨entry, hentry, rfl⟩
    · exact h.taken id' hid'
  · intro kind
    rw [Tracker.record_log, Tracker.setThread_log, hreg]
    have hcallbacks := h.callbacks kind
    have hsplit : ((registered s.log).filter fun entry' =>
        entry'.target.kind = kind ∧ .taken entry'.id ∉ (.taken entry.id :: s.log : List Event)) =
        (s.callbacks kind).filter fun entry' => entry'.id ≠ entry.id := by
      rw [hcallbacks, filter_filter]
      apply filter_congr
      intro entry' _
      simp only [mem_cons, Event.taken.injEq, not_or, ne_eq, Bool.decide_and, decide_not]
      cases decide (entry'.id = entry.id) <;> simp
    rw [hsplit]
    change update s.callbacks entry.target.kind _ kind = _
    by_cases hkind : kind = entry.target.kind
    · subst hkind
      rw [update_self]
      apply eraseP_eq_filter
      rw [hcallbacks]
      exact h.nodup.sublist (filter_sublist.map _)
    · rw [update_of_ne hkind]
      symm
      rw [filter_eq_self]
      intro entry' hentry'
      rw [hcallbacks, mem_filter] at hentry'
      rw [decide_eq_true_eq]
      intro hid
      rw [h.eq_of_id hentry'.1 hentry hid] at hentry'
      exact hkind (of_decide_eq_true hentry'.2).1.symm
  · intro id' hid'
    rw [Tracker.record_log, Tracker.setThread_log, hreg]
    obtain ⟨hmem, hne⟩ := mem_filter.mp (show id' ∈ s.references.filter (· ≠ entry.id) from hid')
    obtain ⟨hnot, hexists⟩ := h.references id' hmem
    refine ⟨?_, hexists⟩
    rw [mem_cons, not_or]
    exact ⟨fun heq => of_decide_eq_true hne (Event.taken.inj heq), hnot⟩
  · intro u id' found hu
    rcases hcall hu with heq | hu
    · cases heq
      rfl
    · exact h.found u id' found hu

theorem call_ended {t u : Nat} {th : Thread} {call : Call} (hth : th.call = none)
    (h : ((s.setThread t th).threads u).call = some call) : (s.threads u).call = some call := by
  rcases call_setThread h with ⟨-, hcall⟩ | ⟨-, hcall⟩
  · rw [hth] at hcall
    cases hcall
  · exact hcall

theorem steps (h : Tables s) (hsteps : s.Steps s') : Tables s' := by
  have hquiet {e : Event} (hregistration : e.registration = none) : registered (e :: s.log) = registered s.log := by
    rw [registered_cons, hregistration]
    exact append_nil _
  cases hsteps with
  | same => exact h
  | deliver t dispatch hidle =>
    exact h.frame rfl rfl rfl (hquiet rfl) (by simp [Tracker.deliver]) fun u call => call_ended rfl
  | skip t n entry rest =>
    exact h.frame rfl rfl rfl (hquiet rfl) (by simp) fun u call => call_ended rfl
  | start t n entry rest =>
    exact h.frame rfl rfl rfl (hquiet rfl) (by simp) fun u call => call_ended rfl
  | finish t n =>
    exact h.frame rfl rfl rfl (hquiet rfl) (by simp) fun u call => call_ended rfl
  | returns t n id rest =>
    refine h.frame rfl rfl rfl (hquiet rfl) (by simp) fun u call hu => ?_
    rcases call_setThread hu with ⟨rfl, hcall⟩ | ⟨-, hcall⟩
    · exact hcall
    · exact hcall
  | register t target => exact h.register t target
  | emplace t entry hcall => exact h.emplace hcall
  | unregister t id href => exact h.unregister href t
  | mark t id found hcall =>
    rw [Tracker.mark]
    split
    · split
      · exact h.frame rfl rfl rfl (hquiet rfl) (by simp) fun u call => call_ended rfl
      · exact h
    · exact h.frame rfl rfl rfl (hquiet rfl) (by simp) fun u call => call_ended rfl

end Tables

/-- What the marks and the locks of the registrations say. -/
structure Marks (s : Tracker) : Prop where
  marked : ∀ id t, .unregistered id t ∈ s.log → id ∈ s.unregistered
  flagged : ∀ id ∈ s.unregistered, ∃ t, .unregistered id t ∈ s.log
  running : ∀ t id, (s.threads t).running = some id → s.owner id = some t
  owner : ∀ id t, .unregistered id t ∈ s.log → s.owner id = none ∨ s.owner id = some t

namespace Marks

variable {s s' : Tracker}

theorem initial : Marks {} := by
  constructor <;> simp

theorem frame (h : Marks s) (hlog : ∀ id t, .unregistered id t ∈ s'.log ↔ .unregistered id t ∈ s.log)
    (hmarks : s'.unregistered = s.unregistered) (hown : s'.owner = s.owner)
    (hrun : ∀ t id, (s'.threads t).running = some id → (s.threads t).running = some id) : Marks s' where
  marked := by
    intro id t hid
    rw [hmarks]
    exact h.marked id t ((hlog id t).mp hid)
  flagged := by
    intro id hid
    obtain ⟨t, ht⟩ := h.flagged id (hmarks ▸ hid)
    exact ⟨t, (hlog id t).mpr ht⟩
  running := by
    intro t id hid
    rw [hown]
    exact h.running t id (hrun t id hid)
  owner := by
    intro id t hid
    rw [hown]
    exact h.owner id t ((hlog id t).mp hid)

theorem running_setThread {t u id : Nat} {th : Thread} (h : ((s.setThread t th).threads u).running = some id) :
    (u = t ∧ th.running = some id) ∨ (u ≠ t ∧ (s.threads u).running = some id) := 
  Tracker.setThread_cases (p := fun th => th.running = some id) h

theorem running_kept {t u id : Nat} {th : Thread} (hth : th.running = (s.threads t).running)
    (h : ((s.setThread t th).threads u).running = some id) : (s.threads u).running = some id := by
  rcases running_setThread h with ⟨hut, h⟩ | ⟨-, h⟩
  · rw [hut]
    exact hth.symm.trans h
  · exact h

theorem start (h : Marks s) {t n id : Nat} {rest : List Registration} (hmark : id ∉ s.unregistered)
    (hlock : s.lockable t id = true) :
    Marks (({ s with owner := update s.owner id (some t) }.setThread t
      { delivery := some (n, rest), running := some id }).record (.started n id)) := by
  have hlog (id' u : Nat) : .unregistered id' u ∈ (.started n id :: s.log : List Event) ↔ .unregistered id' u ∈ s.log := by
    simp
  refine ⟨fun id' u hid' => h.marked id' u ((hlog id' u).mp hid'), ?_, ?_, ?_⟩
  · intro id' hid'
    obtain ⟨u, hu⟩ := h.flagged id' hid'
    exact ⟨u, (hlog id' u).mpr hu⟩
  · intro u id' hu
    change update s.owner id (some t) id' = some u
    rcases running_setThread hu with ⟨rfl, heq⟩ | ⟨hne, hu⟩
    · cases heq
      exact update_self ..
    · have hown := h.running u id' hu
      rw [update_of_ne]
      · exact hown
      · rintro rfl
        simp [Tracker.lockable, hown, hne] at hlock
  · intro id' u hid'
    change update s.owner id (some t) id' = none ∨ update s.owner id (some t) id' = some u
    have hmarked := (hlog id' u).mp hid'
    rw [update_of_ne]
    · exact h.owner id' u hmarked
    · rintro rfl
      exact hmark (h.marked id' u hmarked)

theorem returns (h : Marks s) {t n id : Nat} (hrun : (s.threads t).running = some id) :
    Marks (({ s with owner := update s.owner id none }.setThread t
      { s.threads t with running := none }).record (.returned n id)) := by
  have hlog (id' u : Nat) : .unregistered id' u ∈ (.returned n id :: s.log : List Event) ↔ .unregistered id' u ∈ s.log := by
    simp
  refine ⟨fun id' u hid' => h.marked id' u ((hlog id' u).mp hid'), ?_, ?_, ?_⟩
  · intro id' hid'
    obtain ⟨u, hu⟩ := h.flagged id' hid'
    exact ⟨u, (hlog id' u).mpr hu⟩
  · intro u id' hu
    change update s.owner id none id' = some u
    rcases running_setThread hu with ⟨-, heq⟩ | ⟨hne, hu⟩
    · cases heq
    · have hown := h.running u id' hu
      rw [update_of_ne]
      · exact hown
      · rintro rfl
        exact hne (Option.some.inj (hown.symm.trans (h.running t id' hrun)))
  · intro id' u hid'
    change update s.owner id none id' = none ∨ update s.owner id none id' = some u
    by_cases hid : id' = id
    · left
      rw [hid, update_self]
    · rw [update_of_ne hid]
      exact h.owner id' u ((hlog id' u).mp hid')

theorem mark (h : Marks s) {t id : Nat} (hlock : s.lockable t id = true) :
    Marks (({ s with unregistered := id :: s.unregistered }.setThread t { s.threads t with call := none }).record
      (.unregistered id t)) := by
  refine ⟨?_, ?_, ?_, ?_⟩
  · intro id' u hid'
    rcases mem_cons.mp hid' with heq | hid'
    · cases heq
      exact mem_cons_self
    · exact mem_cons_of_mem _ (h.marked id' u hid')
  · intro id' hid'
    rcases mem_cons.mp hid' with rfl | hid'
    · exact ⟨t, mem_cons_self⟩
    · obtain ⟨u, hu⟩ := h.flagged id' hid'
      exact ⟨u, mem_cons_of_mem _ hu⟩
  · intro u id' hu
    apply h.running u id'
    exact @running_kept s t u id' { s.threads t with call := none } rfl hu
  · intro id' u hid'
    rcases mem_cons.mp hid' with heq | hid'
    · cases heq
      change s.owner id = none ∨ s.owner id = some t
      simpa [Tracker.lockable] using hlock
    · exact h.owner id' u hid'

theorem steps (h : Marks s) (htables : Tables s) (hsteps : s.Steps s') : Marks s' := by
  cases hsteps with
  | same => exact h
  | deliver t dispatch hidle =>
    exact h.frame (by simp [Tracker.deliver]) rfl rfl fun u id => running_kept (by rw [hidle])
  | skip t n entry rest _ hrun =>
    exact h.frame (by simp) rfl rfl fun u id => running_kept hrun.symm
  | start t n entry rest _ _ hmark hlock => exact h.start hmark hlock
  | finish t n _ hrun => exact h.frame (by simp) rfl rfl fun u id => running_kept hrun.symm
  | returns t n id rest _ hrun => exact h.returns hrun
  | register t target => exact h.frame (fun _ _ => Iff.rfl) rfl rfl fun u id => running_kept rfl
  | emplace t entry => exact h.frame (by simp [Tracker.emplace]) rfl rfl fun u id => running_kept rfl
  | unregister t id href =>
    obtain ⟨entry, -, -, heq⟩ := htables.unregister_eq href t (s.threads t)
    rw [heq]
    exact h.frame (by simp) rfl rfl fun u id => running_kept rfl
  | mark t id found hcall =>
    obtain rfl := htables.found t id found hcall
    rw [Tracker.mark, if_pos rfl]
    split
    · rename_i hlock
      exact h.mark hlock
    · exact h

end Marks

structure Deliveries (s : Tracker) : Prop where
  number : ∀ n dispatch entries, .snapshot n dispatch entries ∈ s.log → n < s.deliveries
  past : ∀ n, .delivered n ∈ s.log → n < s.deliveries
  unique : ∀ n d d' entries entries', .snapshot n d entries ∈ s.log → .snapshot n d' entries' ∈ s.log →
    entries = entries'
  later : ∀ n, s.deliveries ≤ n → turns n s.log = []
  active : ∀ t n rest, (s.threads t).delivery = some (n, rest) → .delivered n ∉ s.log ∧
    ∃ d entries, .snapshot n d entries ∈ s.log ∧ turns n s.log ++ rest.map (·.id) = entries.map (·.id)
  apart : ∀ t u n rest rest', (s.threads t).delivery = some (n, rest) → (s.threads u).delivery = some (n, rest') → t = u
  part : ∀ n d entries, .snapshot n d entries ∈ s.log → turns n s.log <+: entries.map (·.id)
  ended : ∀ n d entries, .snapshot n d entries ∈ s.log → .delivered n ∈ s.log → turns n s.log = entries.map (·.id)

def Event.apart : Event → Bool
  | .registered _ | .taken _ | .unregistered _ _ | .returned _ _ => true
  | .snapshot .. | .started _ _ | .skipped _ _ | .delivered _ => false

namespace Deliveries

variable {s s' : Tracker}

theorem initial : Deliveries {} := by
  constructor <;> simp [turns]

theorem turns_apart {e : Event} (he : e.apart = true) (n : Nat) (log : List Event) :
    turns n (e :: log) = turns n log := by
  rw [turns_cons]
  have hturn : e.turn n = none := by
    cases e <;> simp_all [Event.apart, Event.turn]
  rw [hturn]
  exact append_nil _

theorem frame (h : Deliveries s) (events : List Event) (hapart : ∀ e ∈ events, e.apart = true)
    (hlog : s'.log = events ++ s.log) (hdeliveries : s'.deliveries = s.deliveries)
    (hdel : ∀ t, (s'.threads t).delivery = (s.threads t).delivery) : Deliveries s' := by
  have hturns (n : Nat) : turns n s'.log = turns n s.log := by
    rw [hlog]
    clear hlog
    induction events with
    | nil => rfl
    | cons e events ih =>
      rw [cons_append, turns_apart (hapart e mem_cons_self)]
      exact ih fun e' he' => hapart e' (mem_cons_of_mem _ he')
  have hmem {e : Event} (he : e.apart = false) : e ∈ s'.log ↔ e ∈ s.log := by
    rw [hlog, mem_append, or_iff_right]
    intro hevents
    rw [hapart e hevents] at he
    cases he
  constructor
  · intro n d entries hsnap
    rw [hdeliveries]
    exact h.number n d entries ((hmem rfl).mp hsnap)
  · intro n hdelivered
    rw [hdeliveries]
    exact h.past n ((hmem rfl).mp hdelivered)
  · intro n d d' entries entries' hsnap hsnap'
    exact h.unique n d d' entries entries' ((hmem rfl).mp hsnap) ((hmem rfl).mp hsnap')
  · intro n hn
    rw [hturns]
    exact h.later n (hdeliveries ▸ hn)
  · intro t n rest ht
    rw [hdel] at ht
    obtain ⟨hnot, d, entries, hsnap, heq⟩ := h.active t n rest ht
    rw [hturns]
    exact ⟨mt (hmem rfl).mp hnot, d, entries, (hmem rfl).mpr hsnap, heq⟩
  · intro t u n rest rest' ht hu
    rw [hdel] at ht hu
    exact h.apart t u n rest rest' ht hu
  · intro n d entries hsnap
    rw [hturns]
    exact h.part n d entries ((hmem rfl).mp hsnap)
  · intro n d entries hsnap hdelivered
    rw [hturns]
    exact h.ended n d entries ((hmem rfl).mp hsnap) ((hmem rfl).mp hdelivered)

theorem delivery_setThread {t u n : Nat} {th : Thread} {rest : List Registration}
    (h : ((s.setThread t th).threads u).delivery = some (n, rest)) :
    (u = t ∧ th.delivery = some (n, rest)) ∨ (u ≠ t ∧ (s.threads u).delivery = some (n, rest)) := 
  Tracker.setThread_cases (p := fun th => th.delivery = some (n, rest)) h

theorem deliver (h : Deliveries s) (t : Nat) (dispatch : Dispatch) : Deliveries (s.deliver t dispatch) := by
  have hturns (n : Nat) : turns n (s.deliver t dispatch).log = turns n s.log := by
    rw [Tracker.deliver, Tracker.record_log, turns_cons]
    exact append_nil _
  have hnew : turns s.deliveries s.log = [] := h.later _ (Nat.le_refl _)
  have hsnapshots {n : Nat} {d : Dispatch} {entries : List Registration}
      (hmem : .snapshot n d entries ∈ (s.deliver t dispatch).log) :
      (n = s.deliveries ∧ entries = (s.callbacks dispatch.kind).filter fun entry => dispatch.selects entry.target) ∨
        (.snapshot n d entries ∈ s.log ∧ n < s.deliveries) := by
    rcases mem_cons.mp hmem with heq | hmem
    · cases heq
      exact .inl ⟨rfl, rfl⟩
    · exact .inr ⟨hmem, h.number n d entries hmem⟩
  have hdel {n : Nat} (hmem : .delivered n ∈ (s.deliver t dispatch).log) : .delivered n ∈ s.log := by
    rcases mem_cons.mp hmem with heq | hmem
    · cases heq
    · exact hmem
  constructor
  · intro n d entries hmem
    rcases hsnapshots hmem with ⟨rfl, -⟩ | ⟨-, hlt⟩
    · exact Nat.lt_succ_self _
    · exact Nat.lt_succ_of_lt hlt
  · intro n hmem
    exact Nat.lt_succ_of_lt (h.past n (hdel hmem))
  · intro n d d' entries entries' hmem hmem'
    rcases hsnapshots hmem with ⟨rfl, heq⟩ | ⟨hmem, hlt⟩ <;> rcases hsnapshots hmem' with ⟨hn, heq'⟩ | ⟨hmem', hlt'⟩
    · rw [heq, heq']
    · exact absurd hlt' (Nat.lt_irrefl _)
    · exact absurd (hn ▸ hlt) (Nat.lt_irrefl _)
    · exact h.unique n d d' entries entries' hmem hmem'
  · intro n hn
    rw [hturns]
    exact h.later n (Nat.le_of_succ_le hn)
  · intro u n rest hu
    rw [hturns]
    rcases delivery_setThread hu with ⟨-, heq⟩ | ⟨-, hu⟩
    · cases heq
      refine ⟨fun hmem => Nat.lt_irrefl _ (h.past _ (hdel hmem)), dispatch, _, mem_cons_self, ?_⟩
      rw [hnew]
      rfl
    · obtain ⟨hnot, d, entries, hmem, heq⟩ := h.active u n rest hu
      exact ⟨mt hdel hnot, d, entries, mem_cons_of_mem _ hmem, heq⟩
  · intro u v n rest rest' hu hv
    have hactive {w : Nat} {rest : List Registration} (hw : (s.threads w).delivery = some (n, rest)) : n < s.deliveries := by
      obtain ⟨-, d, entries, hmem, -⟩ := h.active w n rest hw
      exact h.number n d entries hmem
    rcases delivery_setThread hu with ⟨hut, heq⟩ | ⟨-, hu⟩ <;>
      rcases delivery_setThread hv with ⟨hvt, heq'⟩ | ⟨-, hv⟩
    · rw [hut, hvt]
    · cases heq
      exact absurd (hactive hv) (Nat.lt_irrefl _)
    · cases heq'
      exact absurd (hactive hu) (Nat.lt_irrefl _)
    · exact h.apart u v n rest rest' hu hv
  · intro n d entries hmem
    rw [hturns]
    rcases hsnapshots hmem with ⟨rfl, -⟩ | ⟨hmem, -⟩
    · rw [hnew]
      exact nil_prefix
    · exact h.part n d entries hmem
  · intro n d entries hmem hover
    rw [hturns]
    rcases hsnapshots hmem with ⟨rfl, -⟩ | ⟨hmem, -⟩
    · exact absurd (h.past _ (hdel hover)) (Nat.lt_irrefl _)
    · exact h.ended n d entries hmem (hdel hover)

theorem turn (h : Deliveries s) {t n : Nat} {entry : Registration} {rest : List Registration} {e : Event}
    {running : Option Nat} (hthr : (s.threads t).delivery = some (n, entry :: rest))
    (he : e = .started n entry.id ∨ e = .skipped n entry.id) (hlog : s'.log = e :: s.log)
    (hdeliveries : s'.deliveries = s.deliveries)
    (hthreads : s'.threads = (s.setThread t { delivery := some (n, rest), running }).threads) :
    Deliveries s' := by
  have hturn (m : Nat) : e.turn m = if n = m then some entry.id else none := by
    rcases he with rfl | rfl <;> rfl
  have hturns : turns n s'.log = turns n s.log ++ [entry.id] := by
    rw [hlog, turns_cons, hturn, if_pos rfl]
    rfl
  have hothers {m : Nat} (hm : m ≠ n) : turns m s'.log = turns m s.log := by
    rw [hlog, turns_cons, hturn, if_neg (Ne.symm hm)]
    exact append_nil _
  have hmem {e' : Event} (hne : ∀ m, e'.turn m = none) : e' ∈ s'.log ↔ e' ∈ s.log := by
    rw [hlog, mem_cons, or_iff_right]
    rintro rfl
    have := (hturn n).symm.trans (hne n)
    rw [if_pos rfl] at this
    cases this
  have hsnap {m : Nat} {d : Dispatch} {entries : List Registration} :
      .snapshot m d entries ∈ s'.log ↔ .snapshot m d entries ∈ s.log := hmem fun _ => rfl
  have hdelivered {m : Nat} : .delivered m ∈ s'.log ↔ .delivered m ∈ s.log := hmem fun _ => rfl
  have hdel {u m : Nat} {rest' : List Registration} (hu : (s'.threads u).delivery = some (m, rest')) :
      (u = t ∧ some (n, rest) = some (m, rest')) ∨ (u ≠ t ∧ (s.threads u).delivery = some (m, rest')) := by
    rw [hthreads] at hu
    exact delivery_setThread hu
  obtain ⟨hopen, d₀, entries₀, hmem₀, hall⟩ := h.active t n (entry :: rest) hthr
  have hrest : turns n s'.log ++ rest.map (·.id) = entries₀.map (·.id) := by
    rw [hturns, append_assoc]
    exact hall
  constructor
  · intro m d entries hmem
    rw [hdeliveries]
    exact h.number m d entries (hsnap.mp hmem)
  · intro m hmem
    rw [hdeliveries]
    exact h.past m (hdelivered.mp hmem)
  · intro m d d' entries entries' hmem hmem'
    exact h.unique m d d' entries entries' (hsnap.mp hmem) (hsnap.mp hmem')
  · intro m hm
    rw [hdeliveries] at hm
    rw [hothers]
    · exact h.later m hm
    · rintro rfl
      exact absurd (h.number m d₀ entries₀ hmem₀) (Nat.not_lt.mpr hm)
  · intro u m rest' hu
    rcases hdel hu with ⟨-, heq⟩ | ⟨hne, hu⟩
    · cases heq
      exact ⟨mt hdelivered.mp hopen, d₀, entries₀, hsnap.mpr hmem₀, hrest⟩
    · obtain ⟨hnot, d, entries, hmem, heq⟩ := h.active u m rest' hu
      rw [hothers]
      · exact ⟨mt hdelivered.mp hnot, d, entries, hsnap.mpr hmem, heq⟩
      · rintro rfl
        exact hne (h.apart u t m rest' _ hu hthr)
  · intro u v m rest' rest'' hu hv
    rcases hdel hu with ⟨hut, heq⟩ | ⟨-, hu⟩ <;> rcases hdel hv with ⟨hvt, heq'⟩ | ⟨-, hv⟩
    · rw [hut, hvt]
    · cases heq
      rw [hut]
      exact h.apart t v n _ _ hthr hv
    · cases heq'
      rw [hvt]
      exact h.apart u t n _ _ hu hthr
    · exact h.apart u v m _ _ hu hv
  · intro m d entries hmem
    by_cases hm : m = n
    · subst hm
      rw [h.unique m d d₀ entries entries₀ (hsnap.mp hmem) hmem₀]
      exact ⟨_, hrest⟩
    · rw [hothers hm]
      exact h.part m d entries (hsnap.mp hmem)
  · intro m d entries hmem hover
    rw [hothers]
    · exact h.ended m d entries (hsnap.mp hmem) (hdelivered.mp hover)
    · rintro rfl
      exact hopen (hdelivered.mp hover)

theorem finish (h : Deliveries s) {t n : Nat} (hthr : (s.threads t).delivery = some (n, [])) :
    Deliveries ((s.setThread t {}).record (.delivered n)) := by
  obtain ⟨-, d₀, entries₀, hmem₀, hall⟩ := h.active t n [] hthr
  have hturns (m : Nat) : turns m (.delivered n :: s.log) = turns m s.log := by
    rw [turns_cons]
    exact append_nil _
  have hsnap {m : Nat} {d : Dispatch} {entries : List Registration}
      (hmem : .snapshot m d entries ∈ (.delivered n :: s.log : List Event)) : .snapshot m d entries ∈ s.log := by
    rcases mem_cons.mp hmem with heq | hmem
    · cases heq
    · exact hmem
  have hdelivered {m : Nat} (hmem : .delivered m ∈ (.delivered n :: s.log : List Event)) :
      m = n ∨ .delivered m ∈ s.log := by
    rcases mem_cons.mp hmem with heq | hmem
    · cases heq
      exact .inl rfl
    · exact .inr hmem
  have hdel {u m : Nat} {rest : List Registration} (hu : ((s.setThread t {}).threads u).delivery = some (m, rest)) :
      u ≠ t ∧ (s.threads u).delivery = some (m, rest) := by
    rcases delivery_setThread hu with ⟨-, heq⟩ | hu
    · cases heq
    · exact hu
  constructor
  · intro m d entries hmem
    exact h.number m d entries (hsnap hmem)
  · intro m hmem
    rcases hdelivered hmem with rfl | hmem
    · exact h.number m d₀ entries₀ hmem₀
    · exact h.past m hmem
  · intro m d d' entries entries' hmem hmem'
    exact h.unique m d d' entries entries' (hsnap hmem) (hsnap hmem')
  · intro m hm
    exact (hturns m).trans (h.later m hm)
  · intro u m rest hu
    obtain ⟨hne, hu⟩ := hdel hu
    obtain ⟨hnot, d, entries, hmem, heq⟩ := h.active u m rest hu
    refine ⟨?_, d, entries, mem_cons_of_mem _ hmem, (congrArg (· ++ _) (hturns m)).trans heq⟩
    intro hover
    rcases hdelivered hover with hmn | hover
    · exact hne (h.apart u t n rest _ (hmn ▸ hu) hthr)
    · exact hnot hover
  · intro u v m rest rest' hu hv
    exact h.apart u v m rest rest' (hdel hu).2 (hdel hv).2
  · intro m d entries hmem
    exact (hturns m).symm ▸ h.part m d entries (hsnap hmem)
  · intro m d entries hmem hover
    refine (hturns m).trans ?_
    rcases hdelivered hover with rfl | hover
    · rw [h.unique m d d₀ entries entries₀ (hsnap hmem) hmem₀, ← hall]
      exact (append_nil _).symm
    · exact h.ended m d entries (hsnap hmem) hover

theorem delivery_kept {t : Nat} {th : Thread} (hth : th.delivery = (s.threads t).delivery) (u : Nat) :
    ((s.setThread t th).threads u).delivery = (s.threads u).delivery := by
  by_cases hu : u = t
  · rw [hu, Tracker.setThread_self, hth]
  · rw [Tracker.setThread_of_ne hu]

theorem steps (h : Deliveries s) (htables : Tables s) (hsteps : s.Steps s') : Deliveries s' := by
  have hone {e : Event} (he : e.apart = true) : ∀ e' ∈ [e], e'.apart = true := by
    intro e' he'
    rw [mem_singleton.mp he']
    exact he
  cases hsteps with
  | same => exact h
  | deliver t dispatch => exact h.deliver t dispatch
  | skip t n entry rest hdel => exact h.turn hdel (.inr rfl) rfl rfl rfl
  | start t n entry rest hdel => exact h.turn hdel (.inl rfl) rfl rfl rfl
  | finish t n hdel => exact h.finish hdel
  | returns t n id rest hdel => exact h.frame [_] (hone rfl) rfl rfl (delivery_kept rfl)
  | register t target => exact h.frame [] (by simp) rfl rfl (delivery_kept rfl)
  | emplace t entry hcall => exact h.frame [_] (hone rfl) rfl rfl (delivery_kept rfl)
  | unregister t id href =>
    obtain ⟨entry, -, -, heq⟩ := htables.unregister_eq href t (s.threads t)
    rw [heq]
    exact h.frame [_] (hone rfl) rfl rfl (delivery_kept rfl)
  | mark t id found hcall =>
    rw [Tracker.mark]
    split
    · split
      · exact h.frame [_] (hone rfl) rfl rfl (delivery_kept rfl)
      · exact h
    · exact h.frame [_] (hone rfl) rfl rfl (delivery_kept rfl)

end Deliveries

def Event.follows (older : List Event) : Event → Prop
  | .snapshot _ dispatch entries => entries =
    (EventTracker.registered older).filter fun entry => dispatch.selects entry.target ∧ .taken entry.id ∉ older
  | .started _ id => ∀ t, .unregistered id t ∉ older
  | .skipped _ id => ∃ t, .unregistered id t ∈ older
  | _ => True

def Rightful : List Event → Prop
  | [] => True
  | e :: older => e.follows older ∧ Rightful older

theorem Dispatch.kind_of_selects {dispatch : Dispatch} {target : Target} (h : dispatch.selects target = true) :
    target.kind = dispatch.kind := by
  cases dispatch <;> cases target <;> first | rfl | cases h

variable {s : Tracker}

theorem Tables.snapshot (h : Tables s) (dispatch : Dispatch) :
    ((s.callbacks dispatch.kind).filter fun entry => dispatch.selects entry.target) =
      (registered s.log).filter fun entry => dispatch.selects entry.target ∧ .taken entry.id ∉ s.log := by
  rw [h.callbacks, filter_filter]
  apply filter_congr
  intro entry _
  by_cases hselects : dispatch.selects entry.target = true
  · simp [hselects, Dispatch.kind_of_selects hselects]
  · simp [hselects]

namespace Rightful

variable {s s' : Tracker}

theorem steps (h : Rightful s.log) (htables : Tables s) (hmarks : Marks s) (hsteps : s.Steps s') :
    Rightful s'.log := by
  cases hsteps with
  | same => exact h
  | deliver t dispatch => exact ⟨htables.snapshot dispatch, h⟩
  | skip t n entry rest _ _ hmark => exact ⟨hmarks.flagged entry.id hmark, h⟩
  | start t n entry rest _ _ hmark => exact ⟨fun u hu => hmark (hmarks.marked entry.id u hu), h⟩
  | finish t n => exact ⟨trivial, h⟩
  | returns t n id rest => exact ⟨trivial, h⟩
  | register t target => exact h
  | emplace t entry => exact ⟨trivial, h⟩
  | unregister t id href =>
    obtain ⟨entry, -, -, heq⟩ := htables.unregister_eq href t (s.threads t)
    rw [heq]
    exact ⟨trivial, h⟩
  | mark t id found =>
    rw [Tracker.mark]
    split
    · split
      · exact ⟨trivial, h⟩
      · exact h
    · exact ⟨trivial, h⟩

theorem split {newer older : List Event} {e : Event} (h : Rightful (newer ++ e :: older)) :
    e.follows older := by
  induction newer with
  | nil => exact h.1
  | cons e' newer ih => exact ih h.2

end Rightful

def Event.invocation (n : Nat) : Event → Option Nat
  | .started m id => if m = n then some id else none
  | _ => none

def invoked (n : Nat) (log : List Event) : List Nat := (log.filterMap (Event.invocation n)).reverse

theorem mem_turns_of_skipped {n id : Nat} {log : List Event} (h : .skipped n id ∈ log) : id ∈ turns n log := by
  unfold turns
  rw [mem_reverse, mem_filterMap]
  exact ⟨_, h, if_pos rfl⟩

theorem invoked_eq_filter {n : Nat} {log : List Event} (hnodup : (turns n log).Nodup) :
    invoked n log = (turns n log).filter fun id => .skipped n id ∉ log := by
  induction log with
  | nil => rfl
  | cons e log ih =>
    have hcons : invoked n (e :: log) = invoked n log ++ (e.invocation n).toList := by
      unfold invoked
      cases h : e.invocation n <;> simp [h]
    rw [turns_cons] at hnodup ⊢
    obtain ⟨hold, -, happart⟩ := nodup_append.mp hnodup
    have hlater : (turns n log).filter (fun id => .skipped n id ∉ e :: log) =
        (turns n log).filter fun id => .skipped n id ∉ log := by
      apply filter_congr
      intro id hid
      rw [decide_eq_decide, mem_cons, or_iff_right]
      rintro rfl
      exact happart id hid id (by simp [Event.turn]) rfl
    rw [hcons, ih hold, filter_append, hlater]
    congr 1
    cases e with
    | started m id =>
      by_cases hm : m = n
      · have hnot : .skipped n id ∉ log := fun hmem =>
          happart id (mem_turns_of_skipped hmem) id (by simp [Event.turn, hm]) rfl
        simp [Event.invocation, Event.turn, hm, hnot]
      · simp [Event.invocation, Event.turn, hm]
    | skipped m id =>
      by_cases hm : m = n
      · simp [Event.invocation, Event.turn, hm]
      · simp [Event.invocation, Event.turn, hm]
    | _ => rfl

structure Reached (s : Tracker) : Prop where
  tables : Tables s
  marks : Marks s
  deliveries : Deliveries s
  rightful : Rightful s.log

theorem Reached.initial : Reached {} := ⟨.initial, .initial, .initial, trivial⟩

theorem Reached.step (h : Reached s) (op : Op) : Reached (step op s) where
  tables := h.tables.steps (Tracker.steps_step op)
  marks := h.marks.steps h.tables (Tracker.steps_step op)
  deliveries := h.deliveries.steps h.tables (Tracker.steps_step op)
  rightful := h.rightful.steps h.tables h.marks (Tracker.steps_step op)

def Silent (s : Tracker) : Prop :=
  ∀ id t newer older, s.log = newer ++ Event.unregistered id t :: older →
    (∀ n, .started n id ∉ newer) ∧ ∀ u, (s.threads u).running = some id → u = t

/-- A delivery invokes the callbacks that its event selects of those that are registered, except those that are
unregistered when it is their turn; there are none left when it is over. -/
def Served (s : Tracker) : Prop :=
  ∀ n dispatch entries newer older, s.log = newer ++ Event.snapshot n dispatch entries :: older →
    entries = ((registered older).filter fun entry => dispatch.selects entry.target ∧ .taken entry.id ∉ older) ∧
    (entries.map (·.id)).Nodup ∧
    (∃ turned left, entries.map (·.id) = turned ++ left ∧
      invoked n s.log = turned.filter (fun id => .skipped n id ∉ s.log) ∧ (.delivered n ∈ s.log → left = [])) ∧
    (∀ id newer older, s.log = newer ++ Event.skipped n id :: older → ∃ t, .unregistered id t ∈ older) ∧
    ∀ id newer older, s.log = newer ++ Event.started n id :: older → ∀ t, .unregistered id t ∉ older

theorem Reached.silent (h : Reached s) : Silent s := by
  intro id t newer older hlog
  constructor
  · intro n hstart
    obtain ⟨later, between, rfl⟩ := append_of_mem hstart
    have hrightful := h.rightful
    rw [hlog, append_assoc, cons_append] at hrightful
    exact hrightful.split t (mem_append_right _ mem_cons_self)
  · intro u hu
    have hown := h.marks.running u id hu
    rcases h.marks.owner id t (hlog ▸ mem_append_right _ mem_cons_self) with hfree | howned
    · rw [hown] at hfree
      cases hfree
    · exact Option.some.inj (hown.symm.trans howned)

theorem Reached.served (h : Reached s) : Served s := by
  intro n dispatch entries newer older hlog
  have hmem : .snapshot n dispatch entries ∈ s.log := hlog ▸ mem_append_right _ mem_cons_self
  have hfollows {e : Event} {newer older : List Event} (hlog : s.log = newer ++ e :: older) : e.follows older :=
    Rightful.split (hlog ▸ h.rightful)
  have hentries := hfollows hlog
  have hsub : (registered older).Sublist (registered s.log) := by
    unfold registered
    rw [hlog, filterMap_append, reverse_append]
    exact sublist_append_left ..
  have hnodup : (entries.map (·.id)).Nodup := by
    rw [hentries]
    exact h.tables.nodup.sublist ((filter_sublist.trans hsub).map _)
  obtain ⟨left, hleft⟩ := h.deliveries.part n dispatch entries hmem
  have hturns : (turns n s.log).Nodup := (hleft ▸ hnodup).sublist (sublist_append_left ..)
  refine ⟨hentries, hnodup, ⟨turns n s.log, left, hleft.symm, invoked_eq_filter hturns, ?_⟩, ?_, ?_⟩
  · intro hover
    have hall := h.deliveries.ended n dispatch entries hmem hover
    rw [← hleft] at hall
    exact append_right_eq_self.mp hall.symm
  · intro id newer older hlog
    exact hfollows hlog
  · intro id newer older hlog
    exact hfollows hlog

theorem callbacks_served (ops : List Op) : Silent (runSteps step ops {}) ∧ Served (runSteps step ops {}) := by
  have h : Reached (runSteps step ops {}) := inv_runSteps_of_step (fun op _ h => h.step op) .initial
  exact ⟨h.silent, h.served⟩

-- The first callback unregisters itself and registers another one, which the event does not reach.
example :
    let event : DockerEvent := { type := some "volume", action := some "destroy", time := some 7, actor := some { id := some "data" } }
    let ops : List Op := [.register 1 .volume, .emplace 1, .register 1 .volume, .emplace 1, .deliver 0 event, .next 0,
      .unregister 0 0, .mark 0, .register 0 .volume, .emplace 0, .returns 0, .next 0, .returns 0, .next 0]
    invoked 0 (runSteps step ops {}).log = [0, 1] ∧
      ((runSteps step ops {}).callbacks .volume).map (·.id) = [1, 2] := by
  decide

end WslPlus.Wslc.EventTracker

import WslPlus.Wslc.PortMappings

/-!
# The accept thread of the port relay

One thread of the relay accepts the connections of all mapped ports. It schedules an accept on each port
that has none pending, waits for one of them, completes it and starts a relay, in a loop. Only completing
and what follows it is guarded against exceptions; one that escapes ends the thread. To change the ports
the main thread asks the accept thread to exit, which it does at its next wait, and starts another.

The change of the ports is made here when the thread has left. The relays that were started and the
accepts that the system still holds are kept with the state.
-/

namespace WslPlus.Wslc.PortMappings

open List

abbrev Key := UInt16 × Family

structure PortRelay extends Mapping where
  pending : Bool := false
  pendingSocket : Option Nat := none
  queued : Nat := 0
  deriving DecidableEq

def PortRelay.key (p : PortRelay) : Key := p.toMapping.key

structure Launch where
  linuxPort : UInt16
  relayPort : UInt32
  family : Family
  deriving DecidableEq

inductive Change where
  | add (m : Mapping)
  | remove (key : Key)
  deriving DecidableEq

/-- Where the accept thread stands: there is none yet, it makes sure that the accepts are scheduled, it
waits, or an exception at a port has ended it. -/
inductive Pc where
  | absent
  | scheduling (todo : List Key)
  | waiting
  | ended (key : Key)
  deriving DecidableEq

structure Accepts where
  relayPort : UInt32
  ports : List PortRelay := []
  pc : Pc := .absent
  exit : Option Change := none
  nextSocket : Nat := 0
  accepted : List (Nat × Mapping) := []
  relays : List (Nat × Launch) := []
  deriving DecidableEq

/-- What `ScheduleAccept` comes to, and whether `LaunchRelay` can start a thread. -/
inductive Scheduling where
  | pending
  | immediate (launches : Bool)
  | fails

inductive AcceptOp where
  | start (m : Mapping) (listens : Bool)
  | stop (key : Key)
  | schedule (result : Scheduling)
  | complete (key : Key) (completes launches : Bool)
  | leave

namespace Accepts

/-- `std::map` keeps the ports in the order of their keys. -/
def insertPort (port : PortRelay) : List PortRelay → List PortRelay
  | [] => [port]
  | p :: ps =>
    if port.windowsPort < p.windowsPort ∨ port.windowsPort = p.windowsPort ∧
    port.family = .inet then port :: p :: ps
    else p :: insertPort port ps

def next : List Key → Pc
  | [] => .waiting
  | key :: todo => .scheduling (key :: todo)

def update (p : PortRelay) (ports : List PortRelay) : List PortRelay :=
  ports.map fun q => if q.key = p.key then p else q

def setPort (s : Accepts) (p : PortRelay) : Accepts := { s with ports := update p s.ports }

def changed (ports : List PortRelay) : Change → List PortRelay
  | .add m => insertPort { toMapping := m } ports
  | .remove key => Keyed.erase PortRelay.key key ports

def restart (s : Accepts) (change : Change) : Accepts :=
  { s with
    ports := changed s.ports change
    pc := next ((changed s.ports change).map PortRelay.key)
    exit := none }

def request (s : Accepts) (change : Change) : Accepts :=
  match s.pc with
  | .absent | .ended _ => s.restart change
  | .scheduling _ | .waiting => { s with exit := some change }

/-- `LaunchRelay` moves the socket into the new thread. -/
def launchRelay (s : Accepts) (p : PortRelay) (launches : Bool) : Accepts :=
  { s.setPort { p with pendingSocket := none } with
    accepted := s.accepted ++ p.pendingSocket.toList.map fun socket => (socket, p.toMapping)
    relays := if launches then
        s.relays ++ p.pendingSocket.toList.map fun socket => (socket, ⟨p.linuxPort, s.relayPort, p.family⟩)
      else s.relays }

/-- `ScheduleAccept` with its new socket, and the relay of an accept that completes at once. -/
def scheduleAccept (s : Accepts) (p : PortRelay) (todo : List Key) : Scheduling → Accepts
  | .pending => { s.setPort { p with pending := true, queued := p.queued + 1 } with pc := next todo }
  | .immediate true => s.launchRelay p true
  | .immediate false => { s.launchRelay p false with pc := .ended p.key }
  | .fails => { s.setPort p with pc := .ended p.key }

def newSocket (s : Accepts) : Accepts := { s with nextSocket := s.nextSocket + 1 }

def schedule (s : Accepts) (p : PortRelay) (todo : List Key) (result : Scheduling) : Accepts :=
  if p.pending then { s with pc := next todo }
  else s.newSocket.scheduleAccept { p with pendingSocket := some s.nextSocket } todo result

def complete (s : Accepts) (p : PortRelay) (completes launches : Bool) : Accepts :=
  let p := { p with pending := false, queued := p.queued - 1 }
  let s := { s.setPort p with pc := next (s.ports.map PortRelay.key) }
  if completes then s.launchRelay p launches else s

def step (op : AcceptOp) (s : Accepts) : Accepts :=
  match op with
  | .start m listens =>
    if s.exit = none ∧ Keyed.lookup PortRelay.key s.ports m.key = none ∧ s.ports.length < Relay.maxPorts ∧
        listens = true then
      s.request (.add m)
    else s
  | .stop key =>
    if s.exit = none ∧ Keyed.lookup PortRelay.key s.ports key ≠ none then s.request (.remove key) else s
  | .schedule result =>
    match s.pc with
    | .scheduling (key :: todo) =>
      match Keyed.lookup PortRelay.key s.ports key with
      | some p => s.schedule p todo result
      | none => s
    | _ => s
  | .complete key completes launches =>
    -- The exit event comes first among the events that the thread waits for.
    if s.pc = .waiting ∧ s.exit = none then
      match Keyed.lookup PortRelay.key s.ports key with
      | some p => if 0 < p.queued then s.complete p completes launches else s
      | none => s
    else s
  | .leave =>
    match s.pc, s.exit with
    | .waiting, some change => s.restart change
    | _, _ => s

section Ports

variable {ports : List PortRelay} {p q : PortRelay} {nextSocket : Nat} {accepted : List (Nat × Mapping)}

theorem mem_update : q ∈ update p ports ↔
    (q = p ∧ ∃ r ∈ ports, r.key = p.key) ∨ (q ∈ ports ∧ q.key ≠ p.key) := by
  rw [update, mem_map]
  constructor
  · rintro ⟨r, hr, rfl⟩
    split
    · rename_i hkey
      exact .inl ⟨rfl, r, hr, hkey⟩
    · rename_i hkey
      exact .inr ⟨hr, hkey⟩
  · rintro (⟨rfl, r, hr, hkey⟩ | ⟨hq, hkey⟩)
    · exact ⟨r, hr, if_pos hkey⟩
    · exact ⟨q, hq, if_neg hkey⟩

theorem map_key_update : (update p ports).map PortRelay.key = ports.map PortRelay.key := by
  rw [update, map_map]
  apply map_congr_left
  intro q _
  simp only [Function.comp]
  split
  · rename_i hkey
    exact hkey.symm
  · rfl

theorem mem_insertPort : q ∈ insertPort p ports ↔ q = p ∨ q ∈ ports := by
  induction ports with
  | nil => simp [insertPort]
  | cons r ports ih =>
    rw [insertPort]
    split
    · simp
    · simp only [mem_cons, ih]
      constructor
      · rintro (h | h | h)
        · exact .inr (.inl h)
        · exact .inl h
        · exact .inr (.inr h)
      · rintro (h | h | h)
        · exact .inr (.inl h)
        · exact .inl h
        · exact .inr (.inr h)

theorem distinct_insertPort (h : Keyed.Distinct PortRelay.key ports) (hnew : ∀ r ∈ ports, r.key ≠ p.key) :
    Keyed.Distinct PortRelay.key (insertPort p ports) := by
  induction ports with
  | nil => exact nodup_singleton _
  | cons r ports ih =>
    obtain ⟨hr, hports⟩ := nodup_cons.mp h
    rw [insertPort]
    split
    · refine nodup_cons.mpr ⟨?_, h⟩
      intro hmem
      obtain ⟨q, hq, hkey⟩ := mem_map.mp hmem
      exact hnew q hq hkey
    · refine nodup_cons.mpr ⟨?_, ih hports fun q hq => hnew q (mem_cons_of_mem r hq)⟩
      intro hmem
      obtain ⟨q, hq, hkey⟩ := mem_map.mp hmem
      rcases mem_insertPort.mp hq with rfl | hq
      · exact hnew r mem_cons_self hkey.symm
      · exact hr (mem_map.mpr ⟨q, hq, hkey⟩)

/-- The flag of a port says whether the system holds an accept on it, and each of these accepts, and each
accepted connection, has a socket of its own. -/
structure Sound (ports : List PortRelay) (nextSocket : Nat) (accepted : List (Nat × Mapping)) : Prop where
  distinct : Keyed.Distinct PortRelay.key ports
  queued : ∀ p ∈ ports, p.queued = if p.pending then 1 else 0
  held : ∀ p ∈ ports, p.pending = true →
    ∃ socket, p.pendingSocket = some socket ∧ socket < nextSocket ∧ ∀ a ∈ accepted, a.1 ≠ socket
  apart : ∀ p ∈ ports, ∀ q ∈ ports, p.pending = true → q.pending = true → p.pendingSocket = q.pendingSocket →
    p.key = q.key
  known : ∀ a ∈ accepted, a.1 < nextSocket
  nodup : (accepted.map Prod.fst).Nodup

namespace Sound

section

variable (h : Sound ports nextSocket accepted)
include h

theorem eq_of_key (hp : p ∈ ports) (hq : q ∈ ports) (hkey : q.key = p.key) :
    q = p := by
  have hlookup := Keyed.lookup_of_mem h.distinct hp
  have hlookup' := Keyed.lookup_of_mem h.distinct hq
  rw [hkey, hlookup] at hlookup'
  exact (Option.some.inj hlookup').symm

theorem newSocket : Sound ports (nextSocket + 1) accepted where
  distinct := h.distinct
  queued := h.queued
  held := by
    intro p hp hpend
    obtain ⟨socket, hsocket, hlt, hfresh⟩ := h.held p hp hpend
    exact ⟨socket, hsocket, by omega, hfresh⟩
  apart := h.apart
  known := fun a ha => Nat.lt_succ_of_lt (h.known a ha)
  nodup := h.nodup

theorem drop (hpend : p.pending = false) (hqueue : p.queued = 0) :
    Sound (update p ports) nextSocket accepted where
  distinct := by
    rw [Keyed.Distinct, map_key_update]
    exact h.distinct
  queued := by
    intro q hq
    rcases mem_update.mp hq with ⟨rfl, -⟩ | ⟨hq, -⟩
    · rw [hpend, hqueue]
      rfl
    · exact h.queued q hq
  held := by
    intro q hq hq'
    rcases mem_update.mp hq with ⟨rfl, -⟩ | ⟨hq, -⟩
    · rw [hpend] at hq'
      cases hq'
    · exact h.held q hq hq'
  apart := by
    intro q hq r hr hq' hr' heq
    rcases mem_update.mp hq with ⟨rfl, -⟩ | ⟨hq, -⟩
    · rw [hpend] at hq'
      cases hq'
    · rcases mem_update.mp hr with ⟨rfl, -⟩ | ⟨hr, -⟩
      · rw [hpend] at hr'
        cases hr'
      · exact h.apart q hq r hr hq' hr' heq
  known := h.known
  nodup := h.nodup

theorem queue (hsocket : p.pendingSocket = some nextSocket)
    (hpend : p.pending = true) (hqueue : p.queued = 1) :
    Sound (update p ports) (nextSocket + 1) accepted where
  distinct := by
    rw [Keyed.Distinct, map_key_update]
    exact h.distinct
  queued := by
    intro q hq
    rcases mem_update.mp hq with ⟨rfl, -⟩ | ⟨hq, -⟩
    · rw [hpend, hqueue]
      rfl
    · exact h.queued q hq
  held := by
    intro q hq hq'
    rcases mem_update.mp hq with ⟨rfl, -⟩ | ⟨hq, -⟩
    · exact ⟨nextSocket, hsocket, Nat.lt_succ_self _, fun a ha => (h.known a ha).ne⟩
    · exact h.newSocket.held q hq hq'
  apart := by
    -- The sockets of the other ports are older.
    have hother {q r : PortRelay} (hq : q.pendingSocket = some nextSocket) (hr : r ∈ ports) (hr' : r.pending = true)
        (heq : q.pendingSocket = r.pendingSocket) : False := by
      obtain ⟨socket, hsome, hlt, -⟩ := h.held r hr hr'
      rw [hq, hsome] at heq
      exact hlt.ne (Option.some.inj heq).symm
    intro q hq r hr hq' hr' heq
    rcases mem_update.mp hq with ⟨rfl, -⟩ | ⟨hold, -⟩
    · rcases mem_update.mp hr with ⟨rfl, -⟩ | ⟨hr, -⟩
      · rfl
      · exact absurd heq fun heq => hother hsocket hr hr' heq
    · rcases mem_update.mp hr with ⟨rfl, -⟩ | ⟨hr, -⟩
      · exact absurd heq.symm fun heq => hother hsocket hold hq' heq
      · exact h.apart q hold r hr hq' hr' heq
  known := h.newSocket.known
  nodup := h.nodup

theorem accept {socket : Nat} {m : Mapping} (hlt : socket < nextSocket)
    (hfresh : ∀ a ∈ accepted, a.1 ≠ socket)
    (hunused : ∀ q ∈ ports, q.pending = true → q.pendingSocket ≠ some socket) :
    Sound ports nextSocket (accepted ++ [(socket, m)]) where
  distinct := h.distinct
  queued := h.queued
  held := by
    intro q hq hpend
    obtain ⟨socket', hsocket, hlt', hfresh'⟩ := h.held q hq hpend
    refine ⟨socket', hsocket, hlt', ?_⟩
    intro a ha
    rcases mem_append.mp ha with ha | ha
    · exact hfresh' a ha
    · rw [mem_singleton.mp ha]
      rintro rfl
      exact hunused q hq hpend hsocket
  apart := h.apart
  known := by
    intro a ha
    rcases mem_append.mp ha with ha | ha
    · exact h.known a ha
    · rw [mem_singleton.mp ha]
      exact hlt
  nodup := by
    rw [map_append]
    apply List.Nodup.append h.nodup (nodup_singleton _)
    intro n hn hn'
    obtain ⟨a, ha, rfl⟩ := mem_map.mp hn
    exact hfresh a ha (mem_singleton.mp hn')

theorem insert {m : Mapping} (hnew : ∀ r ∈ ports, r.key ≠ m.key) :
    Sound (insertPort { toMapping := m } ports) nextSocket accepted where
  distinct := distinct_insertPort h.distinct hnew
  queued := by
    intro q hq
    rcases mem_insertPort.mp hq with rfl | hq
    · rfl
    · exact h.queued q hq
  held := by
    intro q hq hpend
    rcases mem_insertPort.mp hq with rfl | hq
    · cases hpend
    · exact h.held q hq hpend
  apart := by
    intro q hq r hr hq' hr' heq
    rcases mem_insertPort.mp hq with rfl | hq
    · cases hq'
    · rcases mem_insertPort.mp hr with rfl | hr
      · cases hr'
      · exact h.apart q hq r hr hq' hr' heq
  known := h.known
  nodup := h.nodup

theorem erase (key : Key) :
    Sound (Keyed.erase PortRelay.key key ports) nextSocket accepted where
  distinct := Keyed.distinct_erase h.distinct
  queued := fun q hq => h.queued q (Keyed.mem_erase.mp hq).1
  held := fun q hq => h.held q (Keyed.mem_erase.mp hq).1
  apart := fun q hq r hr => h.apart q (Keyed.mem_erase.mp hq).1 r (Keyed.mem_erase.mp hr).1
  known := h.known
  nodup := h.nodup

end

end Sound

end Ports

variable {s : Accepts} {p : PortRelay} {todo : List Key}

def Served (s : Accepts) (p : PortRelay) : Prop :=
  s.pc = .waiting ∨ ∃ todo, s.pc = .scheduling todo ∧ p.key ∉ todo

/-- Each port that the thread has come to has exactly one accept pending, each accepted connection has
exactly one relay, and a failure at one port has not ended the thread while there is another one. -/
structure Accepting (s : Accepts) : Prop where
  pending : ∀ p ∈ s.ports, s.Served p → p.queued = 1
  atMost : ∀ p ∈ s.ports, p.queued ≤ 1
  relays : s.relays = s.accepted.map fun a => (a.1, ⟨a.2.linuxPort, s.relayPort, a.2.family⟩)
  nodup : (s.accepted.map Prod.fst).Nodup
  isolated : ∀ key, s.pc = .ended key → ∀ p ∈ s.ports, p.key = key

structure Inv (s : Accepts) : Prop where
  sound : Sound s.ports s.nextSocket s.accepted
  known : ∀ todo, s.pc = .scheduling todo → todo ≠ [] ∧ ∀ key ∈ todo, key ∈ s.ports.map PortRelay.key
  served : ∀ p ∈ s.ports, s.Served p → p.pending = true
  relays : s.relays = s.accepted.map fun a => (a.1, ⟨a.2.linuxPort, s.relayPort, a.2.family⟩)
  isolated : ∀ key, s.pc = .ended key → ∀ p ∈ s.ports, p.key = key
  change : ∀ m, s.exit = some (.add m) → ∀ p ∈ s.ports, p.key ≠ m.key

theorem Inv.accepting (h : s.Inv) : s.Accepting where
  pending := by
    intro p hp hserved
    rw [h.sound.queued p hp, h.served p hp hserved]
    rfl
  atMost := by
    intro p hp
    rw [h.sound.queued p hp]
    split <;> omega
  relays := h.relays
  nodup := h.sound.nodup
  isolated := h.isolated

theorem Inv.initial (relayPort : UInt32) : Inv { relayPort := relayPort } where
  sound := {
    distinct := nodup_nil
    queued := fun p hp => by cases hp
    held := fun p hp => by cases hp
    apart := fun p hp => by cases hp
    known := fun a ha => by cases ha
    nodup := nodup_nil }
  known := fun todo h => by cases h
  served := fun p hp => by cases hp
  relays := rfl
  isolated := fun key h => by cases h
  change := fun m h => by cases h

theorem next_cases (todo : List Key) : (todo = [] ∧ next todo = .waiting) ∨ next todo = .scheduling todo := by
  cases todo with
  | nil => exact .inl ⟨rfl, rfl⟩
  | cons key todo => exact .inr rfl

theorem next_ne_ended (todo : List Key) (key : Key) : next todo ≠ .ended key := by
  cases todo with
  | nil => exact fun h => by cases h
  | cons key todo => exact fun h => by cases h

theorem of_next_eq {rest : List Key} (h : next todo = .scheduling rest) : rest = todo ∧ rest ≠ [] := by
  cases todo with
  | nil => cases h
  | cons key todo =>
    cases h
    exact ⟨rfl, cons_ne_nil key todo⟩

theorem served_next (hpc : s.pc = next todo) : s.Served p ↔ p.key ∉ todo := by
  rw [Served, hpc]
  rcases next_cases todo with ⟨htodo, hnext⟩ | hnext
  · rw [hnext, htodo]
    simp
  · simp [hnext]

theorem Inv.restart (h : s.Inv) {change : Change}
    (hchange : ∀ m, change = .add m → ∀ p ∈ s.ports, p.key ≠ m.key) :
    (s.restart change).Inv where
  sound := by
    cases change with
    | add m => exact h.sound.insert (hchange m rfl)
    | remove key => exact h.sound.erase key
  known := by
    intro todo htodo
    obtain ⟨rfl, hne⟩ := of_next_eq htodo
    exact ⟨hne, fun key hkey => hkey⟩
  served := by
    intro p hp hserved
    have hnot := (served_next (s := s.restart change) rfl).mp hserved
    exact absurd (mem_map_of_mem hp) hnot
  relays := h.relays
  isolated := fun key hkey => absurd hkey (next_ne_ended _ key)
  change := fun m hm => by cases hm

theorem Inv.request (h : s.Inv) {change : Change}
    (hchange : ∀ m, change = .add m → ∀ p ∈ s.ports, p.key ≠ m.key) :
    (s.request change).Inv := by
  have hexit : Inv { s with exit := some change } := {
    sound := h.sound
    known := h.known
    served := h.served
    relays := h.relays
    isolated := h.isolated
    change := fun m hm => hchange m (Option.some.inj hm) }
  rw [Accepts.request]
  split
  · exact h.restart hchange
  · exact h.restart hchange
  · exact hexit
  · exact hexit

theorem Inv.launchRelay (h : s.Inv) {socket : Nat} (hsocket : p.pendingSocket = some socket)
    (hpend : p.pending = false) (hqueue : p.queued = 0) (hnot : ¬ s.Served p) (hlt : socket < s.nextSocket)
    (hfresh : ∀ a ∈ s.accepted, a.1 ≠ socket)
    (hunused : ∀ q ∈ s.ports, q.pending = true → q.pendingSocket ≠ some socket) :
    (s.launchRelay p true).Inv where
  sound := by
    have hsound : Sound s.ports s.nextSocket (s.accepted ++ [(socket, p.toMapping)]) :=
      h.sound.accept hlt hfresh hunused
    have hdrop : ({ p with pendingSocket := none } : PortRelay).pending = false := hpend
    simp only [Accepts.launchRelay, hsocket]
    exact hsound.drop hdrop hqueue
  known := by
    intro todo htodo
    obtain ⟨hne, hkeys⟩ := h.known todo htodo
    refine ⟨hne, ?_⟩
    intro key hkey
    simp only [Accepts.launchRelay, setPort, map_key_update]
    exact hkeys key hkey
  served := by
    intro q hq hserved
    rcases mem_update.mp hq with ⟨rfl, -⟩ | ⟨hq, -⟩
    · exact absurd hserved hnot
    · exact h.served q hq hserved
  relays := by
    simp only [Accepts.launchRelay, hsocket, if_true, h.relays, Option.toList_some, map_cons, map_nil,
      map_append]
    rfl
  isolated := by
    intro key hkey q hq
    rcases mem_update.mp hq with ⟨rfl, r, hr, hrkey⟩ | ⟨hq, -⟩
    · exact hrkey.symm.trans (h.isolated key hkey r hr)
    · exact h.isolated key hkey q hq
  change := by
    intro m hm q hq
    rcases mem_update.mp hq with ⟨rfl, r, hr, hrkey⟩ | ⟨hq, -⟩
    · intro heq
      exact h.change m hm r hr (hrkey.trans heq)
    · exact h.change m hm q hq

theorem not_accepting_of_launchRelay (h : s.Inv) {socket : Nat}
    (hsocket : p.pendingSocket = some socket) {s' : Accepts}
    (haccepted : s'.accepted = (s.launchRelay p false).accepted)
    (hrelays : s'.relays = (s.launchRelay p false).relays) :
    ¬ s'.Accepting := by
  intro haccepting
  have hlen := congrArg List.length haccepting.relays
  rw [hrelays, haccepted] at hlen
  simp [Accepts.launchRelay, hsocket, h.relays] at hlen

theorem Inv.newSocket (h : s.Inv) : s.newSocket.Inv where
  sound := h.sound.newSocket
  known := h.known
  served := h.served
  relays := h.relays
  isolated := h.isolated
  change := h.change

/-- A failure of the next port contains itself if this is the only one; an accept that completes at once
is not lost. -/
def SchedulesContained (s : Accepts) (key : Key) : Scheduling → Prop
  | .pending | .immediate true => True
  | .immediate false => False
  | .fails => ∀ q ∈ s.ports, q.key = key

section Schedule

variable {key : Key}

variable {q : PortRelay}

theorem served_of_not_mem (hpc : s.pc = .scheduling (key :: todo)) (hne : q.key ≠ key)
    (hq : q.key ∉ todo) : s.Served q := by
  refine .inr ⟨key :: todo, hpc, ?_⟩
  rw [mem_cons, not_or]
  exact ⟨hne, hq⟩

theorem not_served (hpc : s.pc = .scheduling (key :: todo)) (hkey : p.key = key) : ¬ s.Served p := by
  rintro (hwait | ⟨todo', hpc', hnot⟩)
  · rw [hpc] at hwait
    cases hwait
  · rw [hpc] at hpc'
    cases hpc'
    exact hnot (hkey ▸ mem_cons_self)

theorem Inv.known_next (h : s.Inv) (hpc : s.pc = .scheduling (key :: todo)) (rest : List Key)
    (hrest : next todo = .scheduling rest) : rest ≠ [] ∧ ∀ k ∈ rest, k ∈ s.ports.map PortRelay.key := by
  obtain ⟨rfl, hne⟩ := of_next_eq hrest
  exact ⟨hne, fun k hk => (h.known _ hpc).2 k (mem_cons_of_mem key hk)⟩

theorem Inv.skip (h : s.Inv) (hpc : s.pc = .scheduling (key :: todo)) (hp : p ∈ s.ports) (hkey : p.key = key)
    (hpend : p.pending = true) : Inv { s with pc := next todo } where
  sound := h.sound
  known := h.known_next hpc
  served := by
    intro q hq hserved
    have hnot : q.key ∉ todo := (served_next (s := { s with pc := next todo }) rfl).mp hserved
    by_cases heq : q.key = key
    · rw [h.sound.eq_of_key hp hq (heq.trans hkey.symm)]
      exact hpend
    · exact h.served q hq (served_of_not_mem hpc heq hnot)
  relays := h.relays
  isolated := fun key hended => absurd hended (next_ne_ended todo key)
  change := h.change

theorem Inv.change_update (h : s.Inv) (hp : p ∈ s.ports) (hq : q.key = p.key) (m : Mapping)
    (hm : s.exit = some (.add m)) : ∀ r ∈ update q s.ports, r.key ≠ m.key := by
  intro r hr
  rcases mem_update.mp hr with ⟨rfl, -⟩ | ⟨hr, -⟩
  · rw [hq]
    exact h.change m hm p hp
  · exact h.change m hm r hr

theorem Inv.queue (h : s.Inv) (hpc : s.pc = .scheduling (key :: todo)) (hp : p ∈ s.ports)
    (hkey : p.key = key) (hq : q.key = p.key) (hsocket : q.pendingSocket = some s.nextSocket)
    (hpend : q.pending = true)
    (hqueue : q.queued = 1) : Inv { s.newSocket.setPort q with pc := next todo } where
  sound := h.sound.queue hsocket hpend hqueue
  known := by
    intro rest hrest
    simp only [setPort, map_key_update]
    exact h.known_next hpc rest hrest
  served := by
    intro r hr hserved
    have hnot : r.key ∉ todo := (served_next rfl).mp hserved
    rcases mem_update.mp hr with ⟨rfl, -⟩ | ⟨hr, hne⟩
    · exact hpend
    · have hne : r.key ≠ key := fun heq => hne (heq.trans (hq.trans hkey).symm)
      exact h.served r hr (served_of_not_mem hpc hne hnot)
  relays := h.relays
  isolated := fun key hended => absurd hended (next_ne_ended todo key)
  change := h.change_update hp hq

theorem Inv.fail (h : s.Inv) (hp : p ∈ s.ports) (hkey : p.key = key) (hq : q.key = p.key)
    (hpend : q.pending = false) (hqueue : q.queued = 0) (honly : ∀ r ∈ s.ports, r.key = key) :
    Inv { s.newSocket.setPort q with pc := .ended q.key } where
  sound := h.sound.newSocket.drop hpend hqueue
  known := fun rest hrest => by cases hrest
  served := by
    intro r _ hserved
    rcases hserved with hwait | ⟨todo', hpc', -⟩
    · cases hwait
    · cases hpc'
  relays := h.relays
  isolated := by
    intro k hk r hr
    cases hk
    rcases mem_update.mp hr with ⟨rfl, -⟩ | ⟨hr, -⟩
    · rfl
    · rw [honly r hr, hq, hkey]
  change := h.change_update hp hq

theorem accepting_iff_of_inv {s' : Accepts} {c : Prop} (hs' : s'.Inv) (hc : c) : (s'.Accepting ↔ c) ∧
    (c → s'.Inv) :=
  ⟨iff_of_true hs'.accepting hc, fun _ => hs'⟩

theorem Inv.scheduleAccept_iff (h : s.Inv) (hpc : s.pc = .scheduling (key :: todo)) (hp : p ∈ s.ports)
    (hkey : p.key = key) (hq : q.key = p.key) (hsocket : q.pendingSocket = some s.nextSocket)
    (hpend : q.pending = false) (hqueue : q.queued = 0) (result : Scheduling) :
    ((s.newSocket.scheduleAccept q todo result).Accepting ↔ s.SchedulesContained key result) ∧
      (s.SchedulesContained key result → (s.newSocket.scheduleAccept q todo result).Inv) := by
  cases result with
  | pending =>
    refine accepting_iff_of_inv ?_ trivial
    apply h.queue hpc hp hkey
    · exact hq
    · exact hsocket
    · rfl
    · exact congrArg (· + 1) hqueue
  | immediate launches =>
    cases launches with
    | true =>
      refine accepting_iff_of_inv ?_ trivial
      apply h.newSocket.launchRelay hsocket hpend hqueue
      · exact not_served hpc (hq.trans hkey)
      · exact Nat.lt_succ_self _
      · exact fun a ha => (h.sound.known a ha).ne
      · intro r hr hr' heq
        obtain ⟨socket, hsome, hlt, -⟩ := h.sound.held r hr hr'
        rw [hsome] at heq
        exact hlt.ne (Option.some.inj heq)
    | false =>
      refine ⟨iff_of_false ?_ id, fun hfalse => absurd hfalse id⟩
      exact not_accepting_of_launchRelay h.newSocket hsocket rfl rfl
  | fails =>
    have hfail := h.fail hp hkey hq hpend hqueue
    refine ⟨⟨?_, fun honly => (hfail honly).accepting⟩, hfail⟩
    intro haccepting r hr
    have hisolated := haccepting.isolated q.key rfl
    by_cases heq : r.key = q.key
    · exact heq.trans (hq.trans hkey)
    · exact (hisolated r (mem_update.mpr (.inr ⟨hr, heq⟩))).trans (hq.trans hkey)

theorem Inv.schedule_iff (h : s.Inv) (hpc : s.pc = .scheduling (key :: todo)) (hp : p ∈ s.ports)
    (hkey : p.key = key)
    (result : Scheduling) :
    ((s.schedule p todo result).Accepting ↔ (p.pending = false → s.SchedulesContained key result)) ∧
      ((p.pending = false → s.SchedulesContained key result) → (s.schedule p todo result).Inv) := by
  rw [schedule]
  split
  · rename_i hpend
    apply accepting_iff_of_inv (h.skip hpc hp hkey hpend)
    intro hfalse
    rw [hpend] at hfalse
    cases hfalse
  · rename_i hpend
    have hpend : p.pending = false := by simpa using hpend
    have hqueue : p.queued = 0 := by
      rw [h.sound.queued p hp, hpend]
      rfl
    rw [forall_prop_of_true hpend]
    have hq : ({ p with pendingSocket := some s.nextSocket } : PortRelay).key = p.key := rfl
    exact h.scheduleAccept_iff hpc hp hkey hq rfl hpend hqueue result

end Schedule

section Complete

variable (h : s.Inv) (hexit : s.exit = none)

include h hexit

theorem Inv.completed {q : PortRelay} (hpend : q.pending = false) (hqueue : q.queued = 0) :
    Inv { s.setPort q with pc := next (s.ports.map PortRelay.key) } where
  sound := h.sound.drop hpend hqueue
  known := by
    intro rest hrest
    obtain ⟨rfl, hne⟩ := of_next_eq hrest
    simp only [setPort, map_key_update]
    exact ⟨hne, fun k hk => hk⟩
  served := by
    intro q hq hserved
    have hnot : q.key ∉ s.ports.map PortRelay.key := (served_next rfl).mp hserved
    have hmem : q.key ∈ s.ports.map PortRelay.key := map_key_update ▸ mem_map_of_mem hq
    exact absurd hmem hnot
  relays := h.relays
  isolated := fun key hended => absurd hended (next_ne_ended _ key)
  change := by
    intro m hm
    have hm : s.exit = some (.add m) := hm
    rw [hexit] at hm
    cases hm

theorem Inv.complete_iff (hp : p ∈ s.ports) (hqueue : 0 < p.queued) (completes launches : Bool) :
    ((s.complete p completes launches).Accepting ↔ (completes = true → launches = true)) ∧
      ((completes = true → launches = true) → (s.complete p completes launches).Inv) := by
  have hone := h.sound.queued p hp
  have hpend : p.pending = true := by
    cases hcase : p.pending with
    | true => rfl
    | false =>
      rw [hcase] at hone
      exact absurd hqueue (hone ▸ lt_irrefl 0)
  rw [if_pos hpend] at hone
  have hzero : p.queued - 1 = 0 := by omega
  have hinv : Inv { s.setPort { p with pending := false, queued := p.queued - 1 } with
      pc := next (s.ports.map PortRelay.key) } := h.completed hexit rfl hzero
  obtain ⟨socket, hsocket, hlt, hfresh⟩ := h.sound.held p hp hpend
  cases completes with
  | false =>
    have hc : false = true → launches = true := fun hfalse => by cases hfalse
    exact ⟨iff_of_true hinv.accepting hc, fun _ => hinv⟩
  | true =>
    simp only [complete, if_true, forall_true_left]
    cases launches with
    | true =>
      have hinv' := hinv.launchRelay (p := { p with pending := false, queued := p.queued - 1 }) hsocket rfl hzero
        (by
          intro hserved
          have hnot : p.key ∉ s.ports.map PortRelay.key := (served_next rfl).mp hserved
          exact hnot (mem_map_of_mem hp))
        hlt hfresh (by
          intro q hq hq' heq
          rcases mem_update.mp hq with ⟨rfl, -⟩ | ⟨hq, hne⟩
          · cases hq'
          · exact hne (h.sound.apart q hq p hp hq' hpend (heq.trans hsocket.symm)))
      exact ⟨iff_of_true hinv'.accepting rfl, fun _ => hinv'⟩
    | false =>
      refine ⟨iff_of_false ?_ Bool.false_ne_true, fun hfalse => absurd hfalse Bool.false_ne_true⟩
      exact not_accepting_of_launchRelay hinv (p := { p with pending := false, queued := p.queued - 1 }) hsocket rfl rfl

end Complete

/-- No accept fails to be scheduled unless the port is alone, and every accepted connection can get its
relay. -/
def Contained : AcceptOp → Accepts → Prop
  | .schedule result, s => ∀ key todo p, s.pc = .scheduling (key :: todo) →
      Keyed.lookup PortRelay.key s.ports key = some p → p.pending = false → s.SchedulesContained key result
  | .complete key completes launches, s => ∀ p, s.pc = .waiting → s.exit = none →
      Keyed.lookup PortRelay.key s.ports key = some p → 0 < p.queued → completes = true → launches = true
  | .start _ _, _ | .stop _, _ | .leave, _ => True

theorem step_iff (h : s.Inv) (op : AcceptOp) :
    ((step op s).Accepting ↔ Contained op s) ∧ (Contained op s → (step op s).Inv) := by
  have hsame {c : Prop} (hc : c) : (s.Accepting ↔ c) ∧ (c → s.Inv) := accepting_iff_of_inv h hc
  cases op with
  | start m listens =>
    simp only [step]
    split
    · rename_i hstart
      refine accepting_iff_of_inv (h.request fun m' hm' => ?_) trivial
      cases hm'
      exact Keyed.lookup_eq_none_iff.mp hstart.2.1
    · exact hsame trivial
  | stop key =>
    simp only [step]
    split
    · refine accepting_iff_of_inv (h.request fun m' hm' => ?_) trivial
      cases hm'
    · exact hsame trivial
  | schedule result =>
    simp only [step]
    split
    · rename_i key todo hpc
      split
      · rename_i p hp
        have hiff := h.schedule_iff hpc (Keyed.mem_of_lookup hp) (Keyed.key_of_lookup hp) result
        have hcontained : Contained (.schedule result) s ↔ (p.pending = false → s.SchedulesContained key result) := by
          refine ⟨fun hall => hall key todo p hpc hp, ?_⟩
          intro hone key' todo' p' hpc' hp'
          rw [hpc] at hpc'
          cases hpc'
          rw [hp] at hp'
          cases hp'
          exact hone
        rw [hcontained]
        exact hiff
      · rename_i hnone
        apply hsame
        intro key' todo' p' hpc' hp'
        rw [hpc] at hpc'
        cases hpc'
        rw [hnone] at hp'
        cases hp'
    · rename_i hpc
      apply hsame
      intro key' todo' p' hpc'
      exact absurd hpc' (hpc key' todo')
  | complete key completes launches =>
    simp only [step]
    split
    · rename_i hwaits
      split
      · rename_i p hp
        have hunique : ∀ p', Keyed.lookup PortRelay.key s.ports key = some p' → p' = p := by
          intro p' hp'
          rw [hp] at hp'
          exact (Option.some.inj hp').symm
        split
        · rename_i hqueue
          have hiff := h.complete_iff hwaits.2 (Keyed.mem_of_lookup hp) hqueue completes launches
          have hcontained : Contained (.complete key completes launches) s ↔ (completes = true → launches = true) := by
            refine ⟨fun hall => hall p hwaits.1 hwaits.2 hp hqueue, ?_⟩
            intro hone p' _ _ _ _
            exact hone
          rw [hcontained]
          exact hiff
        · rename_i hqueue
          apply hsame
          intro p' _ _ hp' hqueue'
          rw [hunique p' hp'] at hqueue'
          exact absurd hqueue' hqueue
      · rename_i hnone
        apply hsame
        intro p' _ _ hp'
        rw [hnone] at hp'
        cases hp'
    · rename_i hwaits
      apply hsame
      intro p' hpc hexit
      exact absurd ⟨hpc, hexit⟩ hwaits
  | leave =>
    simp only [step]
    split
    · rename_i change _ hexit
      exact accepting_iff_of_inv (h.restart fun m hm => h.change m (hm ▸ hexit)) trivial
    · exact hsame trivial

theorem waits_after_scheduling (h : s.Inv) (hpc : s.pc = next todo)
    (htodo : ∀ key ∈ todo, key ∈ s.ports.map PortRelay.key) :
    (runSteps step (List.replicate todo.length (.schedule .pending)) s).pc = .waiting := by
  induction todo generalizing s with
  | nil => exact hpc
  | cons key todo ih =>
    obtain ⟨p, hp, hkey⟩ := mem_map.mp (htodo key mem_cons_self)
    have hlookup : Keyed.lookup PortRelay.key s.ports key = some p := hkey ▸ Keyed.lookup_of_mem h.sound.distinct hp
    have hpc' : s.pc = .scheduling (key :: todo) := hpc
    have hstep : step (.schedule .pending) s = s.schedule p todo .pending := by
      simp only [step, hpc', hlookup]
    have hinv : (step (.schedule .pending) s).Inv := (step_iff h _).2 fun _ _ _ _ _ _ => trivial
    apply ih hinv
    · rw [hstep, schedule]
      split <;> rfl
    · intro k hk
      have hkeys : (step (.schedule .pending) s).ports.map PortRelay.key = s.ports.map PortRelay.key := by
        rw [hstep, schedule]
        split
        · rfl
        · exact map_key_update
      rw [hkeys]
      exact htodo k (mem_cons_of_mem key hk)

end Accepts

/-- Every state of a run accepts on each port that it can, exactly if all failures of the run are contained;
and then the thread comes to wait for all ports as soon as their accepts can be scheduled. -/
theorem accepts_isolated_iff (relayPort : UInt32) (ops : List AcceptOp) :
    (Along Accepts.step (fun _ _ s' => s'.Accepting) ops { relayPort := relayPort } ↔
        Allowed Accepts.step Accepts.Contained ops { relayPort := relayPort }) ∧
      (Allowed Accepts.step Accepts.Contained ops { relayPort := relayPort } →
        ∀ todo, (runSteps Accepts.step ops { relayPort := relayPort }).pc = .scheduling todo →
          (runSteps Accepts.step (ops ++ List.replicate todo.length (.schedule .pending))
            { relayPort := relayPort }).pc = .waiting) := by
  have hkeep : ∀ op (s : Accepts), s.Inv → Accepts.Contained op s → (Accepts.step op s).Inv :=
    fun op _ hs hcontained => (Accepts.step_iff hs op).2 hcontained
  constructor
  · apply along_iff_allowed hkeep
    · intro op s hs
      exact (Accepts.step_iff hs op).1
    · exact Accepts.Inv.initial relayPort
  · intro hops todo hpc
    have hinv := inv_runSteps hkeep (Accepts.Inv.initial relayPort) hops
    obtain ⟨hne, hkeys⟩ := hinv.known todo hpc
    have hnext : Accepts.next todo = .scheduling todo := (Accepts.next_cases todo).resolve_left fun h => hne h.1
    rw [runSteps_append]
    exact Accepts.waits_after_scheduling hinv (hpc.trans hnext.symm) hkeys

/-- Two ports are mapped, and an accept on the second one cannot be scheduled: the first one has an accept
pending, and no thread that waits for it. -/
theorem accepts_not_isolated :
    let ops := [AcceptOp.start ⟨80, .inet, 1000⟩ true, .schedule .pending, .start ⟨81, .inet, 1001⟩ true, .leave,
      .schedule .pending, .schedule .fails]
    let s := runSteps Accepts.step ops { relayPort := 1 }
    s.pc = .ended (81, .inet) ∧ s.exit = none ∧ (s.ports.map fun p => (p.key, p.queued)) =
        [((80, .inet), 1), ((81, .inet), 0)] ∧
      (∀ completes launches, Accepts.step (.complete (80, .inet) completes launches) s = s) ∧
      ¬ Along Accepts.step (fun _ _ s' => s'.Accepting) ops { relayPort := 1 } := by
  refine ⟨by decide, by decide, by decide, by decide, ?_⟩
  rintro ⟨-, -, -, -, -, h, -⟩
  have honly := h.isolated (81, .inet) (by decide) ⟨⟨80, .inet, 1000⟩, true, some 0, 1⟩ (by decide)
  exact absurd honly (by decide)

end WslPlus.Wslc.PortMappings

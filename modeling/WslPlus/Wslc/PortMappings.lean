import Mathlib.Data.Finset.Basic
import WslPlus.Lib.Keyed
import WslPlus.Lib.Transition

/-!
# Mapped ports of a VM

A session counts for each port of the VM how many mappings lead to it, and keeps the port allocated as
long as there is one. The mappings are those of the relay process, which knows them by the Windows port
and the family. A call goes on from the session to the relay and back, and any of its steps may fail.

Other owners of ports of the VM are known by the ports they hold. The networking mode is one that uses
the relay.
-/

namespace WslPlus.Wslc.PortMappings

open Function List

inductive Error where
  | invalidState
  | addressInUse
  | access
  | invalidArg
  | notFound
  | tooManyOpenFiles
  | unexpected
  | brokenPipe
  | outOfMemory
  | other (code : Nat)

/-- `AF_INET` and `AF_INET6`. -/
inductive Family where
  | inet
  | inet6
  deriving DecidableEq

/-- The families that `LocalhostTcpMapping` accepts. -/
def Family.ofInt (family : Int) : Option Family :=
  if family = 2 then some .inet else if family = 23 then some .inet6 else none

/-- `PortRelay` with the key of its entry. -/
structure Mapping where
  windowsPort : UInt16
  family : Family
  linuxPort : UInt16
  deriving DecidableEq

def Mapping.key (m : Mapping) : UInt16 × Family := (m.windowsPort, m.family)

/-- `RunWSLCPortRelay` between two messages. -/
structure Relay where
  ports : List Mapping := []
  running : Bool := true

/-- The arguments of a call, and which steps of it fail. -/
structure Call where
  family : Int
  windowsPort : UInt16
  linuxPort : UInt16
  leaseError : Option Error := none
  outOfMemory : Bool := false
  sendError : Option Error := none
  listenError : Option Error := none
  threadStarts : Bool := true
  answered : Bool := true

namespace Relay

/-- `MAXIMUM_WAIT_OBJECTS - 1` -/
def maxPorts : Nat := 63

/-- The accept thread is started anew. Without one `RunWSLCPortRelay` ends, after a last response. -/
def update (ports : List Mapping) (call : Call) : Relay × Except Error Unit :=
  if call.threadStarts then ({ ports := ports }, .ok ())
  else ({ ports := [], running := false }, .error .unexpected)

def translate : Error → Error
  | .access => .addressInUse
  | e => e

def start (r : Relay) (m : Mapping) (call : Call) : Relay × Except Error Unit :=
  match Keyed.lookup Mapping.key r.ports m.key with
  | some _ => (r, .error .addressInUse)
  | none =>
    if maxPorts ≤ r.ports.length then (r, .error .tooManyOpenFiles)
    else
      match call.listenError with
      | some e => (r, .error (translate e))
      | none => update (r.ports ++ [m]) call

def stop (r : Relay) (m : Mapping) (call : Call) : Relay × Except Error Unit :=
  match Keyed.lookup Mapping.key r.ports m.key with
  | some _ => update (Keyed.erase Mapping.key m.key r.ports) call
  | none => (r, .error .notFound)

def mapRelayPort (r : Relay) (m : Mapping) (remove : Bool) (call : Call) : Relay × Except Error Unit :=
  match call.sendError with
  | some e => (r, .error e)
  | none =>
    if r.running then
      let served := if remove then r.stop m call else r.start m call
      if call.answered then served else (served.1, .error .brokenPipe)
    else (r, .error .brokenPipe)

end Relay

structure Session where
  /-- `m_allocatedPorts`: the usage counts of the ports that have an allocation. -/
  allocatedPorts : UInt16 → Option Nat := fun _ => none
  /-- The ports of the VM that are in use, and those of them that others hold. -/
  reserved : Finset UInt16 := ∅
  others : Finset UInt16 := ∅
  relay : Relay := {}

namespace Session

def erase (s : Session) (linuxPort : UInt16) : Session :=
  { s with
    allocatedPorts := update s.allocatedPorts linuxPort none
    reserved := s.reserved.erase linuxPort }

def allocate (s : Session) (linuxPort : UInt16) : Session :=
  { s with
    allocatedPorts := update s.allocatedPorts linuxPort (some 0)
    reserved := insert linuxPort s.reserved }

def findOrAllocate (s : Session) (call : Call) : Except Error (Session × Nat × Bool) :=
  match s.allocatedPorts call.linuxPort with
  | some count => .ok (s, count, false)
  | none =>
    if call.linuxPort ∈ s.reserved then .error .addressInUse
    else if call.outOfMemory then .error .outOfMemory
    else .ok (s.allocate call.linuxPort, 0, true)

def cleanup (s : Session) (call : Call) (inserted : Bool) : Session :=
  if inserted then s.erase call.linuxPort else s

def mapVmPort (s : Session) (call : Call) : Session × Except Error Unit :=
  match call.leaseError with
  | some e => (s, .error e)
  | none =>
    match s.findOrAllocate call with
    | .error e => (s, .error e)
    | .ok (s₁, count, inserted) =>
      match Family.ofInt call.family with
      | none => (s₁.cleanup call inserted, .error .invalidArg)
      | some family =>
        match s₁.relay.mapRelayPort ⟨call.windowsPort, family, call.linuxPort⟩ false call with
        | (relay, .error e) => ({ s₁.cleanup call inserted with relay := relay }, .error e)
        | (relay, .ok ()) =>
          ({ s₁ with
            allocatedPorts := update s₁.allocatedPorts call.linuxPort (some (count + 1))
            relay := relay }, .ok ())

def unmapVmPort (s : Session) (call : Call) : Session × Except Error Unit :=
  match call.leaseError with
  | some e => (s, .error e)
  | none =>
    match s.allocatedPorts call.linuxPort with
    | none => (s, .error .notFound)
    | some count =>
      match Family.ofInt call.family with
      | none => (s, .error .invalidArg)
      | some family =>
        match s.relay.mapRelayPort ⟨call.windowsPort, family, call.linuxPort⟩ true call with
        | (relay, .error e) => ({ s with relay := relay }, .error e)
        | (relay, .ok ()) =>
          if count - 1 = 0 then ({ s.erase call.linuxPort with relay := relay }, .ok ())
          else
            ({ s with
              allocatedPorts := update s.allocatedPorts call.linuxPort (some (count - 1))
              relay := relay }, .ok ())

end Session

inductive Op where
  | mapVmPort (call : Call)
  | unmapVmPort (call : Call)
  | take (port : UInt16)
  | giveBack (port : UInt16)

def perform (op : Op) (s : Session) : Session × Except Error Unit :=
  match op with
  | .mapVmPort call => s.mapVmPort call
  | .unmapVmPort call => s.unmapVmPort call
  | .take port =>
    if port ∈ s.reserved then (s, .error .addressInUse)
    else ({ s with reserved := insert port s.reserved, others := insert port s.others }, .ok ())
  | .giveBack port =>
    if port ∈ s.others then ({ s with reserved := s.reserved.erase port, others := s.others.erase port }, .ok ())
    else (s, .error .notFound)

def step (op : Op) (s : Session) : Session := (perform op s).1

namespace Relay

variable {r : Relay} {m : Mapping} {remove : Bool} {call : Call}

def Accepts (r : Relay) (m : Mapping) (remove : Bool) (call : Call) : Prop :=
  call.sendError = none ∧ r.running = true ∧
    if remove then Keyed.lookup Mapping.key r.ports m.key ≠ none
    else Keyed.lookup Mapping.key r.ports m.key = none ∧ r.ports.length < maxPorts ∧ call.listenError = none

def changed (r : Relay) (m : Mapping) (remove : Bool) : List Mapping :=
  if remove then Keyed.erase Mapping.key m.key r.ports else r.ports ++ [m]

theorem serve_of_accepts (h : r.Accepts m remove call) :
    (if remove then r.stop m call else r.start m call) = update (r.changed m remove) call := by
  obtain ⟨-, -, h⟩ := h
  cases remove with
  | true =>
    obtain ⟨n, hn⟩ := Option.ne_none_iff_exists'.mp h
    simp only [if_true, stop, hn, changed]
  | false =>
    obtain ⟨hnone, hlen, hlisten⟩ := h
    simp only [Bool.false_eq_true, if_false, start, hnone, if_neg (not_le.mpr hlen), hlisten, changed]

theorem mapRelayPort_of_accepts (h : r.Accepts m remove call) :
    r.mapRelayPort m remove call =
      if call.answered then update (r.changed m remove) call
      else ((update (r.changed m remove) call).1, .error .brokenPipe) := by
  simp only [mapRelayPort, h.1, h.2.1, if_true, serve_of_accepts h]

theorem mapRelayPort_of_not_accepts (h : ¬ r.Accepts m remove call) :
    ∃ e, r.mapRelayPort m remove call = (r, .error e) := by
  rw [mapRelayPort]
  split
  · rename_i e _
    exact ⟨e, rfl⟩
  · rename_i hsend
    split
    · rename_i hrun
      have hserve : ∃ e, (if remove then r.stop m call else r.start m call) = (r, .error e) := by
        cases remove with
        | true =>
          have hnone : Keyed.lookup Mapping.key r.ports m.key = none := by
            by_contra hsome
            exact h ⟨hsend, hrun, hsome⟩
          exact ⟨.notFound, by simp only [if_true, stop, hnone]⟩
        | false =>
          simp only [Bool.false_eq_true, if_false, start]
          split
          · exact ⟨_, rfl⟩
          · rename_i hnone
            split
            · exact ⟨_, rfl⟩
            · rename_i hlen
              split
              · exact ⟨_, rfl⟩
              · rename_i hlisten
                exact absurd ⟨hsend, hrun, hnone, not_le.mp hlen, hlisten⟩ h
      obtain ⟨e, hserve⟩ := hserve
      simp only [hserve]
      split
      · exact ⟨e, rfl⟩
      · exact ⟨.brokenPipe, rfl⟩
    · exact ⟨.brokenPipe, rfl⟩

/-- A request that is accepted changes the mappings and succeeds, or it fails after it has changed
them, or it ends the relay. -/
theorem mapRelayPort_cases (h : r.Accepts m remove call) :
    (call.threadStarts = true ∧ call.answered = true ∧
        r.mapRelayPort m remove call = ({ ports := r.changed m remove }, .ok ())) ∨
      (call.threadStarts = true ∧ call.answered = false ∧
        ∃ e, r.mapRelayPort m remove call = ({ ports := r.changed m remove }, .error e)) ∨
      (call.threadStarts = false ∧
        ∃ e, r.mapRelayPort m remove call = ({ ports := [], running := false }, .error e)) := by
  rw [mapRelayPort_of_accepts h, update]
  cases hthr : call.threadStarts with
  | true =>
    cases hans : call.answered with
    | true => exact .inl ⟨rfl, rfl, rfl⟩
    | false => exact .inr (.inl ⟨rfl, rfl, .brokenPipe, rfl⟩)
  | false =>
    right
    right
    cases hans : call.answered with
    | true => exact ⟨rfl, .unexpected, rfl⟩
    | false => exact ⟨rfl, .brokenPipe, rfl⟩

end Relay

namespace Session

variable {s : Session} {call : Call} {remove : Bool} {m : Mapping}

def Available (s : Session) (remove : Bool) (call : Call) : Prop :=
  s.allocatedPorts call.linuxPort ≠ none ∨
    remove = false ∧ call.linuxPort ∉ s.reserved ∧ call.outOfMemory = false

/-- The mapping that a call makes the relay add or remove. -/
structure Requests (s : Session) (remove : Bool) (call : Call) (m : Mapping) : Prop where
  lease : call.leaseError = none
  available : s.Available remove call
  family : Family.ofInt call.family = some m.family
  windowsPort : m.windowsPort = call.windowsPort
  linuxPort : m.linuxPort = call.linuxPort
  accepts : s.relay.Accepts m remove call

theorem findOrAllocate_of_available (h : s.Available false call) :
    ∃ s₁ inserted, s.findOrAllocate call = .ok (s₁, (s.allocatedPorts call.linuxPort).getD 0, inserted) ∧
      s₁.relay = s.relay ∧ s₁.others = s.others ∧ s₁.cleanup call inserted = s ∧
      (∀ v, update s₁.allocatedPorts call.linuxPort v =
        update s.allocatedPorts call.linuxPort v) ∧
      s₁.reserved = if s.allocatedPorts call.linuxPort = none then insert call.linuxPort s.reserved
        else s.reserved := by
  rw [findOrAllocate]
  split
  · rename_i count hcount
    refine ⟨s, false, ?_, rfl, rfl, rfl, fun v => rfl, ?_⟩
    · rw [hcount]
      rfl
    · rw [if_neg (by rw [hcount]; exact Option.some_ne_none count)]
  · rename_i hnone
    obtain ⟨-, hfree, hmemory⟩ := h.resolve_left (not_not_intro hnone)
    refine ⟨s.allocate call.linuxPort, true, ?_, rfl, rfl, ?_, ?_, ?_⟩
    · rw [if_neg hfree, hmemory, hnone]
      rfl
    · simp only [cleanup, erase, allocate, if_true, update_idem, Finset.erase_insert hfree]
      rw [← hnone, update_eq_self]
    · intro v
      exact update_idem ..
    · rw [if_pos hnone]
      rfl

theorem findOrAllocate_of_not_available (h : ¬ s.Available false call) :
    ∃ e, s.findOrAllocate call = .error e := by
  rw [findOrAllocate]
  split
  · rename_i count hcount
    exact absurd (.inl (by rw [hcount]; exact Option.some_ne_none count)) h
  · split
    · exact ⟨_, rfl⟩
    · rename_i hfree
      split
      · exact ⟨_, rfl⟩
      · rename_i hmemory
        exact absurd (.inr ⟨rfl, hfree, by simpa using hmemory⟩) h

def mapped (s : Session) (m : Mapping) : Session :=
  { s with
    allocatedPorts := update s.allocatedPorts m.linuxPort
      (some ((s.allocatedPorts m.linuxPort).getD 0 + 1))
    reserved := if s.allocatedPorts m.linuxPort = none then insert m.linuxPort s.reserved else s.reserved
    relay := { ports := s.relay.changed m false } }

def unmapped (s : Session) (m : Mapping) : Session :=
  if (s.allocatedPorts m.linuxPort).getD 0 - 1 = 0 then
    { s.erase m.linuxPort with relay := { ports := s.relay.changed m true } }
  else
    { s with
      allocatedPorts := update s.allocatedPorts m.linuxPort
        (some ((s.allocatedPorts m.linuxPort).getD 0 - 1))
      relay := { ports := s.relay.changed m true } }

def served (s : Session) (remove : Bool) (m : Mapping) : Session :=
  if remove then s.unmapped m else s.mapped m

/-- `MapVmPort` or `UnmapVmPort`. -/
def serve (s : Session) (remove : Bool) (call : Call) : Session × Except Error Unit :=
  if remove then s.unmapVmPort call else s.mapVmPort call

theorem serve_of_not_requests (h : ∀ m, ¬ s.Requests remove call m) : ∃ e, s.serve remove call =
    (s, .error e) := by
  cases remove with
  | false =>
    simp only [serve, Bool.false_eq_true, if_false, mapVmPort]
    split
    · exact ⟨_, rfl⟩
    · rename_i hlease
      by_cases havail : s.Available false call
      · obtain ⟨s₁, inserted, hfind, hrelay, -, hcleanup, -, -⟩ := findOrAllocate_of_available havail
        simp only [hfind]
        split
        · exact ⟨_, by rw [hcleanup]⟩
        · rename_i family hfam
          rw [hrelay, hcleanup]
          obtain ⟨e, he⟩ := Relay.mapRelayPort_of_not_accepts fun haccepts =>
            h ⟨call.windowsPort, family, call.linuxPort⟩ ⟨hlease, havail, hfam, rfl, rfl, haccepts⟩
          exact ⟨e, by rw [he]⟩
      · obtain ⟨e, he⟩ := findOrAllocate_of_not_available havail
        exact ⟨e, by rw [he]⟩
  | true =>
    simp only [serve, if_true, unmapVmPort]
    split
    · exact ⟨_, rfl⟩
    · rename_i hlease
      split
      · exact ⟨_, rfl⟩
      · rename_i count hcount
        split
        · exact ⟨_, rfl⟩
        · rename_i family hfam
          have havail : s.Available true call := .inl (by rw [hcount]; exact Option.some_ne_none count)
          obtain ⟨e, he⟩ := Relay.mapRelayPort_of_not_accepts fun haccepts =>
            h ⟨call.windowsPort, family, call.linuxPort⟩ ⟨hlease, havail, hfam, rfl, rfl, haccepts⟩
          exact ⟨e, by rw [he]⟩

theorem Requests.eq (h : s.Requests remove call m) :
    ∃ family, Family.ofInt call.family = some family ∧ m = ⟨call.windowsPort, family, call.linuxPort⟩ := by
  obtain ⟨windowsPort, family, linuxPort⟩ := m
  have hwindows : windowsPort = call.windowsPort := h.windowsPort
  have hlinux : linuxPort = call.linuxPort := h.linuxPort
  exact ⟨family, h.family, by rw [hwindows, hlinux]⟩

theorem serve_of_requests (h : s.Requests remove call m) :
    s.serve remove call =
      match s.relay.mapRelayPort m remove call with
      | (relay, .error e) => ({ s with relay := relay }, .error e)
      | (relay, .ok ()) => ({ s.served remove m with relay := relay }, .ok ()) := by
  obtain ⟨family, hfam, rfl⟩ := h.eq
  cases remove with
  | false =>
    obtain ⟨s₁, inserted, hfind, hrelay, hothers, hcleanup, hupdate, hres⟩ :=
      findOrAllocate_of_available h.available
    simp only [serve, served, Bool.false_eq_true, if_false, mapVmPort, h.lease, hfind, hfam, hrelay, hcleanup]
    split
    · rfl
    · simp only [mapped, hupdate, hres, hothers]
  | true =>
    obtain ⟨count, hcount⟩ := Option.ne_none_iff_exists'.mp (h.available.resolve_right fun hnew => by cases hnew.1)
    simp only [serve, served, if_true, unmapVmPort, h.lease, hcount, hfam]
    split
    · rfl
    · simp only [unmapped, hcount, Option.getD_some]
      split <;> rfl

end Session

namespace Session

variable {s : Session} {call : Call} {remove : Bool} {m : Mapping}

def active (s : Session) (linuxPort : UInt16) : Nat := s.relay.ports.countP fun m => m.linuxPort = linuxPort

/-- The usage counts are those of the active mappings, and the ports with one are allocated. -/
structure Counted (s : Session) : Prop where
  usage : ∀ port, (s.allocatedPorts port).getD 0 = s.active port
  allocation : ∀ port, s.allocatedPorts port ≠ none ↔ 0 < s.active port
  reserved : ∀ port, port ∈ s.reserved ↔ port ∈ s.others ∨ 0 < s.active port

/-- The counts, the allocations and the mappings are those of an earlier session. -/
structure Unchanged (s s' : Session) : Prop where
  allocatedPorts : s'.allocatedPorts = s.allocatedPorts
  reserved : s'.reserved = s.reserved
  mappings : s'.relay.ports = s.relay.ports

structure Inv (s : Session) : Prop where
  counted : s.Counted
  distinct : Keyed.Distinct Mapping.key s.relay.ports
  apart : ∀ port ∈ s.others, s.active port = 0

theorem Inv.initial : Inv {} := by
  refine ⟨⟨?_, ?_, ?_⟩, nodup_nil, ?_⟩
  · intro port
    rfl
  · intro port
    simp [active]
  · intro port
    simp [active]
  · intro port hport
    cases hport

theorem Counted.of_count (h : s.Counted) {s' : Session} {port : UInt16} {count : Nat}
    (hothers : s'.others = s.others) (hactive : ∀ p, s'.active p = if p = port then count else s.active p)
    (hallocated : s'.allocatedPorts = update s.allocatedPorts port (if count = 0 then none else some count))
    (hapart : port ∉ s.others)
    (hres : ∀ p, p ∈ s'.reserved ↔ if p = port then 0 < count else p ∈ s.reserved) :
    s'.Counted := by
  constructor
  · intro p
    rw [hactive, hallocated, update_apply]
    split
    · split <;> simp_all
    · exact h.usage p
  · intro p
    rw [hactive, hallocated, update_apply]
    split
    · split
      · rename_i hzero
        simp [hzero]
      · rename_i hzero
        simp [Nat.pos_of_ne_zero hzero]
    · exact h.allocation p
  · intro p
    rw [hactive, hres, hothers]
    split
    · rename_i hp
      rw [hp]
      simp [hapart]
    · exact h.reserved p

theorem active_mapped (p : UInt16) :
    (s.mapped m).active p = if p = m.linuxPort then s.active m.linuxPort + 1 else s.active p := by
  have hcount : (s.mapped m).active p = s.active p + if m.linuxPort = p then 1 else 0 := by
    simp [active, mapped, Relay.changed, countP_append, countP_cons]
  rw [hcount]
  by_cases hp : p = m.linuxPort
  · subst hp
    simp
  · rw [if_neg hp, if_neg (Ne.symm hp), Nat.add_zero]

theorem Inv.not_mem_others (h : s.Inv) (havail : s.Available remove call) : call.linuxPort ∉ s.others := by
  intro hothers
  rcases havail with hentry | ⟨-, hfree, -⟩
  · have hpos := (h.counted.allocation call.linuxPort).mp hentry
    rw [h.apart call.linuxPort hothers] at hpos
    exact absurd hpos (lt_irrefl 0)
  · exact hfree ((h.counted.reserved call.linuxPort).mpr (.inl hothers))

theorem Inv.mapped (h : s.Inv) (hreqs : s.Requests false call m) : (s.mapped m).Inv := by
  have hnone : Keyed.lookup Mapping.key s.relay.ports m.key = none := hreqs.accepts.2.2.1
  have hothers : m.linuxPort ∉ s.others := hreqs.linuxPort ▸ h.not_mem_others hreqs.available
  have hcount : (s.allocatedPorts m.linuxPort).getD 0 = s.active m.linuxPort := h.counted.usage m.linuxPort
  refine ⟨?_, ?_, ?_⟩
  · have hothers' : (s.mapped m).others = s.others := rfl
    apply h.counted.of_count hothers' active_mapped
    · rw [if_neg (Nat.succ_ne_zero _), Session.mapped, hcount]
    · exact hothers
    · intro p
      by_cases hp : p = m.linuxPort
      · rw [if_pos hp, hp]
        simp only [Session.mapped, Nat.succ_pos, iff_true]
        split
        · exact Finset.mem_insert_self ..
        · rename_i hentry
          exact (h.counted.reserved m.linuxPort).mpr (.inr ((h.counted.allocation m.linuxPort).mp hentry))
      · rw [if_neg hp]
        simp only [Session.mapped]
        split
        · rw [Finset.mem_insert, or_iff_right hp]
        · rfl
  · have hnew : m.key ∉ s.relay.ports.map Mapping.key := by
      intro hmem
      obtain ⟨n, hn, heq⟩ := mem_map.mp hmem
      exact Keyed.lookup_eq_none_iff.mp hnone n hn heq
    change ((s.relay.ports ++ [m]).map Mapping.key).Nodup
    rw [map_append]
    apply List.Nodup.append h.distinct (nodup_singleton _)
    intro k hk hm
    rw [mem_singleton] at hm
    exact hnew (hm ▸ hk)
  · intro p hp
    have hne : p ≠ m.linuxPort := fun heq => hothers (heq ▸ hp)
    rw [active_mapped, if_neg hne]
    exact h.apart p hp

theorem unmapped_relay : (s.unmapped m).relay.ports = Keyed.erase Mapping.key m.key s.relay.ports := by
  rw [unmapped]
  split <;> rfl

theorem unmapped_others : (s.unmapped m).others = s.others := by
  rw [unmapped]
  split <;> rfl

theorem unmapped_allocatedPorts :
    (s.unmapped m).allocatedPorts = update s.allocatedPorts m.linuxPort
      (if (s.allocatedPorts m.linuxPort).getD 0 - 1 = 0 then none
        else some ((s.allocatedPorts m.linuxPort).getD 0 - 1)) := by
  rw [unmapped]
  split <;> rfl

theorem mem_unmapped_reserved (p : UInt16) :
    p ∈ (s.unmapped m).reserved ↔
      p ∈ s.reserved ∧ (p = m.linuxPort → 0 < (s.allocatedPorts m.linuxPort).getD 0 - 1) := by
  rw [unmapped]
  split
  · rename_i hzero
    simp [erase, hzero, and_comm]
  · rename_i hzero
    simp [Nat.pos_of_ne_zero hzero]

theorem active_unmapped (h : s.Inv) {n : Mapping} (hn : Keyed.lookup Mapping.key s.relay.ports m.key = some n)
    (p : UInt16) : s.active p = (s.unmapped m).active p + if n.linuxPort = p then 1 else 0 := by
  rw [active, active, unmapped_relay, Keyed.countP_erase h.distinct hn]
  simp

theorem Inv.unmapped (h : s.Inv) (hreqs : s.Requests true call m) {n : Mapping}
    (hn : Keyed.lookup Mapping.key s.relay.ports m.key = some n) (hport : n.linuxPort = m.linuxPort) :
    (s.unmapped m).Inv := by
  have hothers : m.linuxPort ∉ s.others := hreqs.linuxPort ▸ h.not_mem_others hreqs.available
  have hcount : (s.allocatedPorts m.linuxPort).getD 0 = s.active m.linuxPort := h.counted.usage m.linuxPort
  have hactive (p : UInt16) :
      (s.unmapped m).active p = if p = m.linuxPort then s.active m.linuxPort - 1 else s.active p := by
    have hp := active_unmapped h hn p
    rw [hport] at hp
    by_cases heq : p = m.linuxPort
    · rw [if_pos heq]
      rw [heq, if_pos rfl] at hp
      rw [heq]
      omega
    · rw [if_neg (Ne.symm heq)] at hp
      rw [if_neg heq]
      omega
  refine ⟨?_, ?_, ?_⟩
  · apply h.counted.of_count unmapped_others hactive
    · rw [unmapped_allocatedPorts, hcount]
    · exact hothers
    · intro p
      rw [mem_unmapped_reserved, hcount]
      by_cases heq : p = m.linuxPort
      · have hentry := hreqs.available.resolve_right fun hnew => by cases hnew.1
        rw [← hreqs.linuxPort] at hentry
        have hres := (h.counted.reserved p).mpr
          (.inr (heq ▸ (h.counted.allocation m.linuxPort).mp hentry))
        simp [heq, heq ▸ hres]
      · simp [heq]
  · rw [unmapped_relay]
    exact Keyed.distinct_erase h.distinct
  · intro p hp
    rw [unmapped_others] at hp
    have hne : p ≠ m.linuxPort := fun heq => hothers (heq ▸ hp)
    rw [hactive, if_neg hne]
    exact h.apart p hp

/-- If the relay ends, it has no mappings. A request that it carries out is answered, and a mapping that
is taken back leads to the port that the call names. -/
def Regular (s : Session) (remove : Bool) (call : Call) : Prop :=
  ∀ m, s.Requests remove call m →
    if call.threadStarts then
      call.answered = true ∧
        (remove = true → ∀ n ∈ s.relay.ports, n.key = m.key → n.linuxPort = call.linuxPort)
    else s.relay.ports = []

theorem Requests.unique {m' : Mapping} (h : s.Requests remove call m)
    (h' : s.Requests remove call m') : m' = m := by
  obtain ⟨family, hfam, rfl⟩ := h.eq
  obtain ⟨family', hfam', rfl⟩ := h'.eq
  rw [hfam] at hfam'
  cases hfam'
  rfl

theorem regular_iff (h : s.Requests remove call m) :
    s.Regular remove call ↔
      if call.threadStarts then
        call.answered = true ∧
          (remove = true → ∀ n ∈ s.relay.ports, n.key = m.key → n.linuxPort = call.linuxPort)
      else s.relay.ports = [] := by
  refine ⟨fun hreg => hreg m h, ?_⟩
  intro hm m' hm'
  rw [h.unique hm']
  exact hm

theorem changed_ne {r : Relay} (h : r.Accepts m remove call) : r.changed m remove ≠ r.ports := by
  intro heq
  have hlen := congrArg List.length heq
  cases remove with
  | true => exact h.2.2 (Keyed.length_erase_iff.mp hlen)
  | false =>
    simp only [Relay.changed, Bool.false_eq_true, if_false, length_append, length_singleton] at hlen
    omega

theorem Inv.unmapped_counted_iff (h : s.Inv) (hreqs : s.Requests true call m) :
    (s.unmapped m).Counted ↔ ∀ n ∈ s.relay.ports, n.key = m.key → n.linuxPort = call.linuxPort := by
  obtain ⟨n, hn⟩ := Option.ne_none_iff_exists'.mp hreqs.accepts.2.2
  constructor
  · intro hcounted n' hn' hkey
    have hsame : Keyed.lookup Mapping.key s.relay.ports m.key = some n' := hkey ▸ Keyed.lookup_of_mem h.distinct hn'
    by_contra hne
    rw [← hreqs.linuxPort] at hne
    have hactive := active_unmapped h hsame m.linuxPort
    rw [if_neg hne] at hactive
    have husage := hcounted.usage m.linuxPort
    have hpos : 0 < s.active m.linuxPort := by
      apply (h.counted.allocation m.linuxPort).mp
      rw [hreqs.linuxPort]
      exact hreqs.available.resolve_right fun hnew => by cases hnew.1
    rw [unmapped_allocatedPorts, update_self, h.counted.usage] at husage
    split at husage
    · rw [Option.getD_none] at husage
      omega
    · rw [Option.getD_some] at husage
      omega
  · intro hleads
    have hport := hleads n (Keyed.mem_of_lookup hn) (Keyed.key_of_lookup hn)
    exact (h.unmapped hreqs hn (hport.trans hreqs.linuxPort.symm)).counted

theorem served_relay : (s.served remove m).relay = { ports := s.relay.changed m remove } := by
  cases remove with
  | false => rfl
  | true =>
    simp only [served, if_true, unmapped]
    split <;> rfl

theorem Inv.ended (h : s.Inv) (hempty : s.relay.ports = []) :
    Inv { s with relay := { ports := [], running := false } } := by
  have hactive (p : UInt16) : active { s with relay := { ports := [], running := false } } p = s.active p := by
    rw [active, active, hempty]
  refine ⟨⟨?_, ?_, ?_⟩, nodup_nil, ?_⟩
  · intro p
    rw [hactive]
    exact h.counted.usage p
  · intro p
    rw [hactive]
    exact h.counted.allocation p
  · intro p
    rw [hactive]
    exact h.counted.reserved p
  · intro p hp
    rw [hactive]
    exact h.apart p hp

def Correct (s : Session) (result : Session × Except Error Unit) : Prop :=
  result.1.Counted ∧ ∀ e, result.2 = .error e → s.Unchanged result.1

theorem Inv.serve_iff (h : s.Inv) (remove : Bool) (call : Call) :
    (s.Correct (s.serve remove call) ↔ s.Regular remove call) ∧
      (s.Regular remove call → (s.serve remove call).1.Inv) := by
  by_cases hnone : ∀ m, ¬ s.Requests remove call m
  · obtain ⟨e, he⟩ := serve_of_not_requests hnone
    have hreg : s.Regular remove call := fun m hm => absurd hm (hnone m)
    rw [he]
    refine ⟨iff_of_true ⟨h.counted, fun _ _ => ⟨rfl, rfl, rfl⟩⟩ hreg, fun _ => h⟩
  · simp only [not_forall, not_not] at hnone
    obtain ⟨m, hm⟩ := hnone
    rw [regular_iff hm, serve_of_requests hm]
    rcases Relay.mapRelayPort_cases hm.accepts with
      ⟨hthr, hans, hmap⟩ | ⟨hthr, hans, e, hmap⟩ | ⟨hthr, e, hmap⟩
    · rw [hmap, if_pos hthr, ← served_relay]
      cases remove with
      | false =>
        have hinv := h.mapped hm
        refine ⟨iff_of_true ⟨hinv.counted, fun e he => ?_⟩ ⟨hans, fun hremove => ?_⟩, fun _ => hinv⟩
        · cases he
        · cases hremove
      | true =>
        constructor
        · constructor
          · intro hcorrect
            exact ⟨hans, fun _ => (h.unmapped_counted_iff hm).mp hcorrect.1⟩
          · intro hleads
            refine ⟨(h.unmapped_counted_iff hm).mpr (hleads.2 rfl), fun e he => ?_⟩
            cases he
        · intro hleads
          obtain ⟨n, hn⟩ := Option.ne_none_iff_exists'.mp hm.accepts.2.2
          have hport := hleads.2 rfl n (Keyed.mem_of_lookup hn) (Keyed.key_of_lookup hn)
          exact h.unmapped hm hn (hport.trans hm.linuxPort.symm)
    · rw [hmap, if_pos hthr, hans]
      have hfalse {p : Prop} : ¬ (false = true ∧ p) := fun hand => by cases hand.1
      refine ⟨iff_of_false (fun hcorrect => ?_) hfalse, fun hand => absurd hand hfalse⟩
      exact changed_ne hm.accepts (hcorrect.2 e rfl).mappings
    · rw [hmap, if_neg (by rw [hthr]; exact Bool.false_ne_true)]
      refine ⟨⟨fun hcorrect => (hcorrect.2 e rfl).mappings.symm, fun hempty => ?_⟩, h.ended⟩
      exact ⟨(h.ended hempty).counted, fun _ _ => ⟨rfl, rfl, hempty.symm⟩⟩

theorem Inv.take (h : s.Inv) {port : UInt16} (hfree : port ∉ s.reserved) :
    Inv { s with reserved := insert port s.reserved, others := insert port s.others } := by
  refine ⟨⟨h.counted.usage, h.counted.allocation, ?_⟩, h.distinct, ?_⟩
  · intro p
    have hp := h.counted.reserved p
    simp only [Finset.mem_insert]
    change p = port ∨ p ∈ s.reserved ↔ (p = port ∨ p ∈ s.others) ∨ 0 < s.active p
    rw [hp, or_assoc]
  · intro p hp
    change s.active p = 0
    rcases Finset.mem_insert.mp hp with rfl | hp
    · by_contra hne
      exact hfree ((h.counted.reserved p).mpr (.inr (Nat.pos_of_ne_zero hne)))
    · exact h.apart p hp

theorem Inv.giveBack (h : s.Inv) {port : UInt16} (hport : port ∈ s.others) :
    Inv { s with reserved := s.reserved.erase port, others := s.others.erase port } := by
  refine ⟨⟨h.counted.usage, h.counted.allocation, ?_⟩, h.distinct, ?_⟩
  · intro p
    have hp := h.counted.reserved p
    simp only [Finset.mem_erase]
    change p ≠ port ∧ p ∈ s.reserved ↔ (p ≠ port ∧ p ∈ s.others) ∨ 0 < s.active p
    rw [hp]
    by_cases heq : p = port
    · rw [heq, h.apart port hport]
      simp
    · simp [heq]
  · intro p hp
    exact h.apart p (Finset.mem_of_mem_erase hp)

end Session

def Op.Regular : Op → Session → Prop
  | .mapVmPort call, s => s.Regular false call
  | .unmapVmPort call, s => s.Regular true call
  | .take _, _ | .giveBack _, _ => True

theorem perform_iff {s : Session} (h : s.Inv) (op : Op) :
    (s.Correct (perform op s) ↔ op.Regular s) ∧ (op.Regular s → (perform op s).1.Inv) := by
  have hok {s' : Session} (hs' : s'.Inv) : s.Correct (s', .ok ()) := by
    refine ⟨hs'.counted, ?_⟩
    intro e he
    cases he
  have href (e : Error) : s.Correct (s, .error e) := ⟨h.counted, fun _ _ => ⟨rfl, rfl, rfl⟩⟩
  cases op with
  | mapVmPort call => exact h.serve_iff false call
  | unmapVmPort call => exact h.serve_iff true call
  | take port =>
    simp only [perform]
    split
    · exact ⟨iff_of_true (href _) trivial, fun _ => h⟩
    · rename_i hfree
      exact ⟨iff_of_true (hok (h.take hfree)) trivial, fun _ => h.take hfree⟩
  | giveBack port =>
    simp only [perform]
    split
    · rename_i hport
      exact ⟨iff_of_true (hok (h.giveBack hport)) trivial, fun _ => h.giveBack hport⟩
    · exact ⟨iff_of_true (href _) trivial, fun _ => h⟩

/-- In a run every call leaves the counts right, and changes nothing if it fails, exactly if every call
is regular. -/
theorem mappings_counted_iff (ops : List Op) :
    Along step (fun s op s' => s'.Counted ∧ ∀ e, (perform op s).2 = .error e → s.Unchanged s') ops {} ↔
      Allowed step Op.Regular ops {} := by
  have hkeep : ∀ op (s : Session), s.Inv → op.Regular s → (step op s).Inv :=
    fun op _ hs hregular => (perform_iff hs op).2 hregular
  apply along_iff_allowed hkeep
  · intro op s hs
    exact (perform_iff hs op).1
  · exact Session.Inv.initial

/-- Two ports are mapped, and the first mapping is taken back under the name of the second port: this port
is free again, while a mapping still leads to it. -/
theorem mappings_miscounted :
    let ops := [Op.mapVmPort { family := 2, windowsPort := 80, linuxPort := 1000 },
      .mapVmPort { family := 2, windowsPort := 81, linuxPort := 1001 },
      .unmapVmPort { family := 2, windowsPort := 80, linuxPort := 1001 }]
    let s := runSteps step ops {}
    s.active 1001 = 1 ∧ s.allocatedPorts 1001 = none ∧ s.active 1000 = 0 ∧ s.allocatedPorts 1000 = some 1 ∧
      ¬ Along step (fun s op s' => s'.Counted ∧ ∀ e, (perform op s).2 = .error e → s.Unchanged s') ops {} := by
  refine ⟨by decide, by decide, by decide, by decide, ?_⟩
  rintro ⟨-, -, h, -⟩
  have husage := h.1.usage 1001
  exact absurd husage (by decide)

end WslPlus.Wslc.PortMappings

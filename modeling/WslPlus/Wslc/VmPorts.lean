import Mathlib.Data.Finset.Basic
import WslPlus.Lib.Transition

/-!
# Ports of the containers of a VM

A VM owns a table of the ports that are in use. A `VmPortAllocation` refers to the table
weakly: it gives its port back when it is reset, destroyed or overwritten, unless the VM is
gone by then. `Reset` first promotes the weak reference, then erases the port under the mutex
of the table, and then clears the fields; between these steps anything may happen to other
objects. An object that is in use by one of the operations is not used by another one.
-/

namespace WslPlus.Wslc.VmPorts

open Function Option

/-- `VmPortReservations`, with whether the VM still owns it and the number of references that
were promoted. -/
structure Table where
  ports : Finset UInt16 := ∅
  owned : Bool := true
  locks : Nat := 0

def Table.alive (table : Table) : Bool := table.owned || table.locks != 0

/-- What is to be done once an object is reset. -/
inductive Goal where
  | reset
  | destroy
  | assign (other : Nat)
  deriving DecidableEq

/-- Where `Reset` stands; its reference to the table may have been promoted. -/
inductive Phase where
  | locking
  | erasing
  | releasing (promoted : Bool)
  deriving DecidableEq

inductive Use where
  | free
  | lent (object : Nat)
  | resetting (phase : Phase) (goal : Goal)
  deriving DecidableEq

structure VmPortAllocation where
  port : UInt16 := 0
  family : Int := 0
  protocol : Int := 0
  reservations : Option Nat := none
  use : Use := .free

namespace VmPortAllocation

def release (o : VmPortAllocation) : VmPortAllocation :=
  { o with port := 0, family := 0, protocol := 0, reservations := none }

def live (o : VmPortAllocation) : Option (Nat × UInt16) :=
  match o.use with
  | .resetting (.releasing _) _ => none
  | _ => o.reservations.map fun table => (table, o.port)

theorem live_of_releasing {o : VmPortAllocation} {promoted : Bool} {goal : Goal}
    (h : o.use = .resetting (.releasing promoted) goal) : o.live = none := by
  rw [live, h]

theorem live_of_not_releasing {o : VmPortAllocation}
    (h : ∀ promoted goal, o.use ≠ .resetting (.releasing promoted) goal) :
    o.live = o.reservations.map fun table => (table, o.port) := by
  rw [live]
  split
  · rename_i promoted goal huse
    exact absurd huse (h promoted goal)
  · rfl

end VmPortAllocation

/-- The tables and the objects by their addresses. The table of a VM that is gone stays known, as
objects may refer to it. -/
structure World where
  tables : Nat → Option Table := fun _ => none
  objects : Nat → Option VmPortAllocation := fun _ => none

inductive Op where
  | startVm (vm : Nat)
  | teardown (vm : Nat)
  | tryAllocatePort (vm : Nat) (port : UInt16) (family protocol : Int) (object : Nat) (outOfMemory : Bool)
  | allocatePort (vm : Nat) (family protocol : Int) (object : Nat) (outOfMemory : Bool)
  | reset (object : Nat)
  | destroy (object : Nat)
  | moveConstruct (object other : Nat)
  | moveAssign (object other : Nat)
  /-- The next step of `Reset` and of what comes after it. -/
  | advance (object : Nat)

def containerPortRange : Nat × Nat := (20002, 65535)

def Table.allocatePort (table : Table) : Option UInt16 :=
  ((List.range' containerPortRange.1 (containerPortRange.2 + 1 - containerPortRange.1)).map UInt16.ofNat).find?
    (· ∉ table.ports)

theorem Table.allocatePort_some {table : Table} {port : UInt16} (h : table.allocatePort = some port) :
    port ∉ table.ports := by
  rw [Table.allocatePort] at h
  have hfree := List.find?_some h
  exact of_decide_eq_true hfree

theorem Table.allocatePort_none {table : Table} (h : table.allocatePort = none) (port : UInt16)
    (hlow : containerPortRange.1 ≤ port.toNat) (hhigh : port.toNat ≤ containerPortRange.2) :
    port ∈ table.ports := by
  have hrange : port ∈ (List.range' containerPortRange.1 (containerPortRange.2 + 1 - containerPortRange.1)).map
      UInt16.ofNat := by
    rw [List.mem_map]
    refine ⟨port.toNat, ?_, UInt16.ofNat_toNat⟩
    rw [List.mem_range'_1]
    omega
  have hnot := List.find?_eq_none.mp h port hrange
  simpa using hnot

namespace World

def setTable (s : World) (vm : Nat) (table : Table) : World :=
  { s with tables := update s.tables vm (some table) }

def setObject (s : World) (object : Nat) (o : Option VmPortAllocation) : World :=
  { s with objects := update s.objects object o }

def insert (s : World) (vm : Nat) (table : Table) (port : UInt16) (family protocol : Int) (object : Nat)
    (outOfMemory : Bool) : World :=
  if outOfMemory then s.setTable vm { table with ports := (Insert.insert port table.ports).erase port }
  else
    (s.setTable vm { table with ports := Insert.insert port table.ports }).setObject object
      (some { port := port, family := family, protocol := protocol, reservations := some vm })

def tryAllocatePort (s : World) (vm : Nat) (table : Table) (port : UInt16) (family protocol : Int)
    (object : Nat)
    (outOfMemory : Bool) : World :=
  if port ∈ table.ports then s else s.insert vm table port family protocol object outOfMemory

def allocatePort (s : World) (vm : Nat) (table : Table) (family protocol : Int) (object : Nat)
    (outOfMemory : Bool) : World :=
  match table.allocatePort with
  | some port => s.insert vm table port family protocol object outOfMemory
  | none => s

def setUse (s : World) (object : Nat) (o : VmPortAllocation) (use : Use) : World :=
  s.setObject object (some { o with use := use })

def table (s : World) (o : VmPortAllocation) : Option (Nat × Table) :=
  match o.reservations with
  | some vm => (s.tables vm).map fun table => (vm, table)
  | none => none

/-- `m_reservations.lock()` -/
def lock (s : World) (object : Nat) (o : VmPortAllocation) (goal : Goal) : World :=
  match s.table o with
  | some (vm, table) =>
    if table.alive then
      (s.setTable vm { table with locks := table.locks + 1 }).setUse object o (.resetting .erasing goal)
    else s.setUse object o (.resetting (.releasing false) goal)
  | none => s.setUse object o (.resetting (.releasing false) goal)

def erase (s : World) (object : Nat) (o : VmPortAllocation) (goal : Goal) : World :=
  match s.table o with
  | some (vm, table) =>
    (s.setTable vm { table with ports := table.ports.erase o.port }).setUse object o
      (.resetting (.releasing true) goal)
  | none => s

def unlock (s : World) (o : VmPortAllocation) (promoted : Bool) : World :=
  match s.table o with
  | some (vm, table) => if promoted then s.setTable vm { table with locks := table.locks - 1 } else s
  | none => s

def finish (s : World) (object : Nat) (o : VmPortAllocation) (goal : Goal) : World :=
  match goal with
  | .reset => s.setObject object (some { o.release with use := .free })
  | .destroy => s.setObject object none
  | .assign other =>
    match s.objects other with
    | some source =>
      (s.setObject object (some { source with use := .free })).setObject other
        (some { source.release with use := .free })
    | none => s

def advance (s : World) (object : Nat) (o : VmPortAllocation) : World :=
  match o.use with
  | .resetting .locking goal => s.lock object o goal
  | .resetting .erasing goal => s.erase object o goal
  | .resetting (.releasing promoted) goal => (s.unlock o promoted).finish object o goal
  | _ => s

def move (s : World) (object other : Nat) (o source : VmPortAllocation) : World :=
  if object ≠ other ∧ o.use = .free ∧ source.use = .free then
    (s.setUse object o (.resetting .locking (.assign other))).setUse other source (.lent object)
  else s

end World

def step (op : Op) (s : World) : World :=
  match op with
  | .startVm vm => if s.tables vm = none then s.setTable vm {} else s
  | .teardown vm =>
    match s.tables vm with
    | some table => s.setTable vm { table with owned := false }
    | none => s
  | .tryAllocatePort vm port family protocol object outOfMemory =>
    match s.tables vm, s.objects object with
    | some table, none =>
      if table.owned then s.tryAllocatePort vm table port family protocol object outOfMemory else s
    | _, _ => s
  | .allocatePort vm family protocol object outOfMemory =>
    match s.tables vm, s.objects object with
    | some table, none =>
      if table.owned then s.allocatePort vm table family protocol object outOfMemory else s
    | _, _ => s
  | .reset object =>
    match s.objects object with
    | some o => if o.use = .free then s.setUse object o (.resetting .locking .reset) else s
    | none => s
  | .destroy object =>
    match s.objects object with
    | some o => if o.use = .free then s.setUse object o (.resetting .locking .destroy) else s
    | none => s
  | .moveConstruct object other =>
    match s.objects object, s.objects other with
    | none, some source => s.move object other {} source
    | _, _ => s
  | .moveAssign object other =>
    match s.objects object, s.objects other with
    | some o, some source => s.move object other o source
    | _, _ => s
  | .advance object =>
    match s.objects object with
    | some o => s.advance object o
    | none => s

/-- What a step does to the ports of the VMs that are not gone, and to the objects that stand for
a port of a VM. -/
inductive Effect (reserved : Nat → Option (Finset UInt16)) (live : Nat → Option (Nat × UInt16))
    (reserved' : Nat → Option (Finset UInt16)) (live' : Nat → Option (Nat × UInt16)) : Prop where
  | same (hreserved : ∀ vm, reserved' vm = reserved vm ∨ reserved' vm = none) (hlive : live' = live)
  | started (vm : Nat) (hunknown : ∀ object port, live object ≠ some (vm, port))
      (hreserved : reserved' = update reserved vm (some ∅)) (hlive : live' = live)
  | granted (vm : Nat) (ports : Finset UInt16) (object : Nat) (port : UInt16) (hports : reserved vm = some ports)
      (hfree : port ∉ ports) (hnew : live object = none)
      (hreserved : reserved' = update reserved vm (some (Insert.insert port ports)))
      (hlive : live' = update live object (some (vm, port)))
  | dropped (vm object : Nat) (port : UInt16) (hold : live object = some (vm, port))
      (hreserved : reserved' = update reserved vm ((reserved vm).map (·.erase port)))
      (hlive : live' = update live object none)
  | moved (object other : Nat) (hne : object ≠ other) (hnone : live object = none) (hreserved : reserved' = reserved)
      (hlive : live' = update (update live object (live other)) other none)

namespace World

variable {s s' : World} {object other vm : Nat} {o source : VmPortAllocation} {table : Table}

def reserved (s : World) (vm : Nat) : Option (Finset UInt16) :=
  (s.tables vm).bind fun table => if table.owned then some table.ports else none

def live (s : World) (object : Nat) : Option (Nat × UInt16) := (s.objects object).bind VmPortAllocation.live

/-- What the operations that are under way rely on. -/
structure Valid (s : World) : Prop where
  known : ∀ a o vm, s.objects a = some o → o.reservations = some vm → s.tables vm ≠ none
  source : ∀ a o phase b goal, s.objects a = some o → o.use = .resetting phase goal → goal = .assign b →
    ∃ source, s.objects b = some source ∧ source.use = .lent a

theorem Valid.initial : Valid {} := by
  constructor
  · intro a o vm h
    cases h
  · intro a o phase b goal h
    cases h

theorem setObject_objects (a : Nat) (new : Option VmPortAllocation) :
    (s.setObject a new).objects = update s.objects a new := rfl

theorem setTable_tables : (s.setTable vm table).tables = update s.tables vm (some table) := rfl

@[simp]
theorem setObject_reserved (a : Nat) (new : Option VmPortAllocation) :
    (s.setObject a new).reserved = s.reserved :=
  rfl

@[simp]
theorem setTable_objects : (s.setTable vm table).objects = s.objects := rfl

theorem setObject_live (a : Nat) (new : Option VmPortAllocation) :
    (s.setObject a new).live = update s.live a (new.bind VmPortAllocation.live) := by
  funext b
  by_cases hb : b = a
  · subst hb
    rw [live, setObject_objects, update_self, update_self]
  · rw [live, setObject_objects, update_of_ne hb, update_of_ne hb]
    rfl

theorem setTable_reserved :
    (s.setTable vm table).reserved =
      update s.reserved vm (if table.owned then some table.ports else none) := by
  funext w
  by_cases hw : w = vm
  · subst hw
    rw [reserved, setTable_tables, update_self, update_self]
    rfl
  · rw [reserved, setTable_tables, update_of_ne hw, update_of_ne hw]
    rfl

theorem reserved_of_table (h : s.tables vm = some table) :
    s.reserved vm = if table.owned then some table.ports else none := by
  rw [reserved, h]
  rfl

theorem setTable_reserved_of_eq (h : s.tables vm = some table) {table' : Table}
    (howned : table'.owned = table.owned)
    (hports : table'.ports = table.ports) : (s.setTable vm table').reserved = s.reserved := by
  rw [setTable_reserved, howned, hports, ← reserved_of_table h, update_eq_self]

theorem live_of_object (h : s.objects object = some o) : s.live object = o.live := by
  rw [live, h]
  rfl

theorem live_eq_some {port : UInt16} (h : s.live object = some (vm, port)) :
    ∃ o, s.objects object = some o ∧ o.reservations = some vm := by
  obtain ⟨o, hobj, hlive⟩ := bind_eq_some_iff.mp h
  refine ⟨o, hobj, ?_⟩
  rw [VmPortAllocation.live] at hlive
  split at hlive
  · cases hlive
  · obtain ⟨table, htable, heq⟩ := map_eq_some_iff.mp hlive
    rw [htable, (Prod.mk.inj heq).1]

theorem setObject_live_of_eq (h : s.objects object = some o) {o' : VmPortAllocation}
    (hlive : o'.live = o.live) :
    (s.setObject object (some o')).live = s.live := by
  rw [setObject_live]
  change update s.live object o'.live = s.live
  rw [hlive, ← live_of_object h, update_eq_self]

theorem Valid.setObject (h : s.Valid) {new : Option VmPortAllocation}
    (hnot : ∀ o b, s.objects object = some o → o.use ≠ .lent b)
    (hknown : ∀ o vm, new = some o → o.reservations = some vm → s.tables vm ≠ none)
    (hsrc : ∀ o phase b goal, new = some o → o.use = .resetting phase goal → goal = .assign b →
      ∃ source, s.objects b = some source ∧ source.use = .lent object) : (s.setObject object new).Valid := by
  have hcases {a : Nat} {o : VmPortAllocation} (ha : (s.setObject object new).objects a = some o) :
      (a = object ∧ new = some o) ∨ (a ≠ object ∧ s.objects a = some o) := by
    by_cases heq : a = object
    · subst heq
      exact .inl ⟨rfl, by rwa [setObject_objects, update_self] at ha⟩
    · exact .inr ⟨heq, by rwa [setObject_objects, update_of_ne heq] at ha⟩
  have hkeep {a b : Nat} (hlent : ∃ source, s.objects b = some source ∧ source.use = .lent a) :
      ∃ source, (s.setObject object new).objects b = some source ∧ source.use = .lent a := by
    obtain ⟨source, hb, huse⟩ := hlent
    refine ⟨source, ?_, huse⟩
    rw [setObject_objects, update_of_ne]
    · exact hb
    · rintro rfl
      exact hnot source a hb huse
  constructor
  · intro a o vm ha hvm
    rcases hcases ha with ⟨rfl, hnew⟩ | ⟨-, ha⟩
    · exact hknown o vm hnew hvm
    · exact h.known a o vm ha hvm
  · intro a o phase b goal ha huse hgoal
    rcases hcases ha with ⟨rfl, hnew⟩ | ⟨-, ha⟩
    · exact hkeep (hsrc o phase b goal hnew huse hgoal)
    · exact hkeep (h.source a o phase b goal ha huse hgoal)

theorem Valid.setTable (h : s.Valid) (vm : Nat) (table : Table) : (s.setTable vm table).Valid := by
  refine ⟨?_, h.source⟩
  intro a o w ha hw
  rw [setTable_tables]
  by_cases heq : w = vm
  · subst heq
    rw [update_self]
    exact some_ne_none table
  · rw [update_of_ne heq]
    exact h.known a o w ha hw

def Steps (s s' : World) : Prop :=
  s'.Valid ∧ Effect s.reserved s.live s'.reserved s'.live

theorem Steps.refl (h : s.Valid) : Steps s s := ⟨h, .same (fun _ => .inl rfl) rfl⟩

theorem Steps.same (h : s'.Valid) (hres : s'.reserved = s.reserved) (hlive : s'.live = s.live) :
    Steps s s' :=
  ⟨h, .same (fun vm => .inl (congrFun hres vm)) hlive⟩

theorem steps_startVm (h : s.Valid) (hnew : s.tables vm = none) : Steps s (s.setTable vm {}) := by
  refine ⟨h.setTable vm {}, .started vm ?_ setTable_reserved rfl⟩
  intro a port hlive
  obtain ⟨o, ha, hvm⟩ := live_eq_some hlive
  exact h.known a o vm ha hvm hnew

theorem steps_teardown (h : s.Valid) (htable : s.tables vm = some table) :
    Steps s (s.setTable vm { table with owned := false }) := by
  refine ⟨h.setTable _ _, .same ?_ rfl⟩
  intro w
  rw [setTable_reserved]
  by_cases heq : w = vm
  · subst heq
    right
    rw [update_self]
    rfl
  · left
    rw [update_of_ne heq]

theorem steps_insert (h : s.Valid) (htable : s.tables vm = some table) (howned : table.owned = true)
    (hobj : s.objects object = none) {port : UInt16} (hfree : port ∉ table.ports) (family protocol : Int)
    (outOfMemory : Bool) : Steps s (s.insert vm table port family protocol object outOfMemory) := by
  rw [World.insert]
  split
  · refine .same (h.setTable _ _) (setTable_reserved_of_eq htable rfl ?_) rfl
    exact Finset.erase_insert hfree
  · have hres : s.reserved vm = some table.ports := by rw [reserved_of_table htable, if_pos howned]
    refine ⟨(h.setTable vm _).setObject ?_ ?_ ?_, .granted vm table.ports object port hres hfree ?_ ?_ ?_⟩
    · intro o b ha
      rw [setTable_objects, hobj] at ha
      cases ha
    · rintro o w ⟨rfl⟩ ⟨rfl⟩
      rw [setTable_tables, update_self]
      exact some_ne_none _
    · rintro o phase b goal ⟨rfl⟩ huse
      cases huse
    · rw [live, hobj]
      rfl
    · rw [setObject_reserved, setTable_reserved, howned]
      rfl
    · rw [setObject_live]
      rfl

theorem live_of_free (hfree : o.use = .free) {use : Use}
    (huse : ∀ promoted goal, use ≠ .resetting (.releasing promoted) goal) :
    VmPortAllocation.live { o with use := use } = o.live := by
  rw [VmPortAllocation.live_of_not_releasing huse, VmPortAllocation.live_of_not_releasing (by simp [hfree])]

variable {goal : Goal}

theorem steps_reset (h : s.Valid) (hobj : s.objects object = some o) (hfree : o.use = .free)
    (hgoal : ∀ b, goal ≠ .assign b) : Steps s (s.setUse object o (.resetting .locking goal)) := by
  refine .same (h.setObject ?_ ?_ ?_) rfl (setObject_live_of_eq hobj (live_of_free hfree (by simp)))
  · intro o' b ho'
    rw [hobj] at ho'
    cases ho'
    simp [hfree]
  · rintro o' w ⟨rfl⟩ hw
    exact h.known object o w hobj hw
  · rintro o' phase b goal' ⟨rfl⟩ huse heq
    cases huse
    exact absurd heq (hgoal b)

theorem steps_move (h : s.Valid) (hother : s.objects other = some source)
    (hobj : s.objects object = some o ∨ s.objects object = none ∧ o = {}) :
    Steps s (s.move object other o source) := by
  rw [World.move]
  split
  · rename_i hfree
    obtain ⟨hne, hfree, hsrc⟩ := hfree
    have hlive : s.live object = o.live := by
      rcases hobj with hobj | ⟨hobj, rfl⟩
      · exact live_of_object hobj
      · rw [live, hobj]
        rfl
    have hlive' : (s.setUse object o (.resetting .locking (.assign other))).live = s.live := by
      rw [setUse, setObject_live]
      change update s.live object (VmPortAllocation.live { o with use := .resetting .locking (.assign other) }) = _
      rw [live_of_free hfree (by simp), ← hlive, update_eq_self]
    have hother' : (s.setUse object o (.resetting .locking (.assign other))).objects other = some source := by
      rw [setUse, setObject_objects, update_of_ne hne.symm, hother]
    have hknown {w : Nat} (hw : o.reservations = some w) : s.tables w ≠ none := by
      rcases hobj with hobj | ⟨-, rfl⟩
      · exact h.known object o w hobj hw
      · cases hw
    have hnotLent (a : Nat) {o' : VmPortAllocation} {b : Nat} (ha : s.objects a = some o') (huse : o'.use = .lent b) :
        a ≠ object ∧ a ≠ other := by
      constructor
      · rintro rfl
        rcases hobj with hobj | ⟨hobj, -⟩
        · rw [hobj] at ha
          cases ha
          rw [hfree] at huse
          cases huse
        · rw [hobj] at ha
          cases ha
      · rintro rfl
        rw [hother] at ha
        cases ha
        rw [hsrc] at huse
        cases huse
    have hobjects (a : Nat) : ((s.setUse object o (.resetting .locking (.assign other))).setUse other source
        (.lent object)).objects a = if a = other then some { source with use := .lent object }
          else if a = object then some { o with use := .resetting .locking (.assign other) } else s.objects a := by
      simp only [setUse, setObject_objects, update_apply]
    refine .same ⟨?_, ?_⟩ rfl ?_
    · intro a o' w ha hw
      rw [hobjects] at ha
      split at ha
      · cases ha
        exact h.known other source w hother hw
      · split at ha
        · cases ha
          exact hknown hw
        · exact h.known a o' w ha hw
    · intro a o' phase b goal ha huse hgoal
      rw [hobjects] at ha
      split at ha
      · cases ha
        cases huse
      · split at ha
        · rename_i hnot heq
          cases ha
          cases huse
          cases hgoal
          exact ⟨{ source with use := .lent object }, by rw [hobjects, if_pos rfl], by rw [heq]⟩
        · obtain ⟨source', hb, huse'⟩ := h.source a o' phase b goal ha huse hgoal
          obtain ⟨hb1, hb2⟩ := hnotLent b hb huse'
          exact ⟨source', by rw [hobjects, if_neg hb2, if_neg hb1, hb], huse'⟩
    · rw [setUse, setObject_live_of_eq hother' (live_of_free hsrc (by simp)), hlive']
  · exact .refl h

theorem Valid.setUse (h : s.Valid) (hobj : s.objects object = some o) {phase : Phase}
    (huse : o.use = .resetting phase goal) (phase' : Phase) :
    (s.setUse object o (.resetting phase' goal)).Valid := by
  refine h.setObject ?_ ?_ ?_
  · intro o' b ho'
    rw [hobj] at ho'
    cases ho'
    simp [huse]
  · rintro o' w ⟨rfl⟩ hw
    exact h.known object o w hobj hw
  · rintro o' phase'' b goal' ⟨rfl⟩ huse' hgoal
    cases huse'
    exact h.source object o phase b goal hobj huse hgoal

theorem table_eq_some (h : s.table o = some (vm, table)) : o.reservations = some vm ∧
    s.tables vm = some table := by
  rw [World.table] at h
  split at h
  · rename_i w hw
    obtain ⟨table', htable, heq⟩ := map_eq_some_iff.mp h
    cases heq
    exact ⟨hw, htable⟩
  · cases h

theorem Valid.table_eq_none (h : s.Valid) (hobj : s.objects object = some o) (hnone : s.table o = none) :
    o.reservations = none := by
  cases hreservations : o.reservations with
  | none => rfl
  | some w =>
    simp only [World.table, hreservations, map_eq_none_iff] at hnone
    exact absurd hnone (h.known object o w hobj hreservations)

theorem steps_lock (h : s.Valid) (hobj : s.objects object = some o)
    (huse : o.use = .resetting .locking goal) : Steps s (s.lock object o goal) := by
  have hlive : o.live = o.reservations.map fun table => (table, o.port) :=
    VmPortAllocation.live_of_not_releasing (by simp [huse])
  have hreleased : VmPortAllocation.live { o with use := .resetting (.releasing false) goal } = none :=
    VmPortAllocation.live_of_releasing rfl
  cases htable : s.table o with
  | none =>
    simp only [World.lock, htable]
    refine .same (h.setUse hobj huse _) rfl (setObject_live_of_eq hobj ?_)
    rw [hreleased, hlive, h.table_eq_none hobj htable]
    rfl
  | some found =>
    obtain ⟨vm, table⟩ := found
    obtain ⟨hvm, htable'⟩ := table_eq_some htable
    simp only [World.lock, htable]
    split
    · refine .same ((h.setTable _ _).setUse hobj huse _) ?_ ?_
      · exact setTable_reserved_of_eq htable' rfl rfl
      · apply setObject_live_of_eq hobj
        rw [hlive, VmPortAllocation.live_of_not_releasing (by simp)]
    · rename_i halive
      have howned : table.owned = false := by
        cases hcase : table.owned with
        | false => rfl
        | true => exact absurd (by rw [Table.alive, hcase]; rfl) halive
      refine ⟨h.setUse hobj huse _, .dropped vm object o.port ?_ ?_ ?_⟩
      · rw [live_of_object hobj, hlive, hvm]
        rfl
      · have hnone : s.reserved vm = none := by rw [reserved_of_table htable', howned]; rfl
        rw [hnone]
        change s.reserved = update s.reserved vm none
        rw [← hnone, update_eq_self]
      · rw [World.setUse, setObject_live]
        change update s.live object (VmPortAllocation.live { o with use := .resetting (.releasing false) goal }) = _
        rw [hreleased]

theorem steps_erase (h : s.Valid) (hobj : s.objects object = some o)
    (huse : o.use = .resetting .erasing goal) : Steps s (s.erase object o goal) := by
  cases htable : s.table o with
  | none =>
    simp only [World.erase, htable]
    exact .refl h
  | some found =>
    obtain ⟨vm, table⟩ := found
    obtain ⟨hvm, htable'⟩ := table_eq_some htable
    simp only [World.erase, htable]
    refine ⟨(h.setTable _ _).setUse hobj huse _, .dropped vm object o.port ?_ ?_ ?_⟩
    · rw [live_of_object hobj, VmPortAllocation.live_of_not_releasing (by simp [huse]), hvm]
      rfl
    · rw [World.setUse, setObject_reserved, setTable_reserved, reserved_of_table htable']
      cases table.owned <;> rfl
    · rw [World.setUse, setObject_live]
      rfl

theorem unlock_objects (promoted : Bool) : (s.unlock o promoted).objects = s.objects := by
  rw [World.unlock]
  split
  · split <;> rfl
  · rfl

theorem unlock_reserved (promoted : Bool) : (s.unlock o promoted).reserved = s.reserved := by
  rw [World.unlock]
  split
  · rename_i vm table htable
    split
    · exact setTable_reserved_of_eq (table_eq_some htable).2 rfl rfl
    · rfl
  · rfl

theorem Valid.unlock (h : s.Valid) (o : VmPortAllocation) (promoted : Bool) : (s.unlock o promoted).Valid := by
  rw [World.unlock]
  split
  · split
    · exact h.setTable _ _
    · exact h
  · exact h

theorem steps_assign (h : s.Valid) (hobj : s.objects object = some o) (hlive : o.live = none)
    (hother : s.objects other = some source) (hlent : source.use = .lent object)
    (hnot : ∀ b, o.use ≠ .lent b) :
    Steps s ((s.setObject object (some { source with use := .free })).setObject other
      (some { source.release with use := .free })) := by
  have hne : object ≠ other := by
    rintro rfl
    rw [hobj] at hother
    cases hother
    exact hnot object hlent
  have hobjects (a : Nat) : ((s.setObject object (some { source with use := .free })).setObject other
      (some { source.release with use := .free })).objects a =
        if a = other then some { source.release with use := .free }
        else if a = object then some { source with use := .free } else s.objects a := by
    simp only [setObject_objects, update_apply]
  refine ⟨⟨?_, ?_⟩, .moved object other hne (by rw [live_of_object hobj, hlive]) rfl ?_⟩
  · intro a o' w ha hw
    rw [hobjects] at ha
    split at ha
    · cases ha
      cases hw
    · split at ha
      · cases ha
        exact h.known other source w hother hw
      · exact h.known a o' w ha hw
  · intro a o' phase b goal ha huse hgoal
    rw [hobjects] at ha
    split at ha
    · cases ha
      cases huse
    · split at ha
      · cases ha
        cases huse
      · rename_i hother' hobj'
        obtain ⟨source', hb, huse'⟩ := h.source a o' phase b goal ha huse hgoal
        refine ⟨source', ?_, huse'⟩
        rw [hobjects, if_neg, if_neg, hb]
        · rintro rfl
          rw [hobj] at hb
          cases hb
          exact hnot a huse'
        · rintro rfl
          rw [hother] at hb
          cases hb
          rw [hlent] at huse'
          exact hobj' (Use.lent.inj huse').symm
  · have hsrc : s.live other = source.live := live_of_object hother
    rw [setObject_live, setObject_live, hsrc, VmPortAllocation.live_of_not_releasing (by simp [hlent])]
    rfl

theorem steps_finish (h : s.Valid) (hobj : s.objects object = some o) {promoted : Bool}
    (huse : o.use = .resetting (.releasing promoted) goal) : Steps s (s.finish object o goal) := by
  have hlive : o.live = none := VmPortAllocation.live_of_releasing huse
  have hnot (o' : VmPortAllocation) (b : Nat) (ho' : s.objects object = some o') : o'.use ≠ .lent b := by
    rw [hobj] at ho'
    cases ho'
    simp [huse]
  cases goal with
  | reset =>
    refine .same (h.setObject hnot ?_ ?_) rfl (setObject_live_of_eq hobj ?_)
    · rintro o' w ⟨rfl⟩ hw
      cases hw
    · rintro o' phase b goal ⟨rfl⟩ huse'
      cases huse'
    · rw [hlive]
      rfl
  | destroy =>
    have hvalid : (s.setObject object none).Valid := by
      refine h.setObject hnot ?_ ?_
      · intro o' w ho'
        cases ho'
      · intro o' phase b goal ho'
        cases ho'
    refine .same hvalid rfl ?_
    change (s.setObject object none).live = s.live
    rw [setObject_live]
    change update s.live object none = s.live
    rw [← hlive, ← live_of_object hobj, update_eq_self]
  | assign other =>
    obtain ⟨source, hother, hlent⟩ := h.source object o _ other _ hobj huse rfl
    simp only [World.finish, hother]
    exact steps_assign h hobj hlive hother hlent (fun b => hnot o b hobj)

theorem unlock_live (promoted : Bool) : (s.unlock o promoted).live = s.live := by
  funext a
  rw [live, unlock_objects]
  rfl

theorem steps_advance (h : s.Valid) (hobj : s.objects object = some o) : Steps s (s.advance object o) := by
  rw [World.advance]
  split
  · rename_i goal huse
    exact steps_lock h hobj huse
  · rename_i goal huse
    exact steps_erase h hobj huse
  · rename_i promoted goal huse
    have hsteps := steps_finish (h.unlock o promoted) (by rw [unlock_objects, hobj]) huse
    rw [Steps, unlock_reserved, unlock_live] at hsteps
    exact hsteps
  · exact .refl h

theorem steps_step (h : s.Valid) (op : Op) : Steps s (step op s) := by
  cases op with
  | startVm vm =>
    simp only [step]
    split
    · rename_i hnew
      exact steps_startVm h hnew
    · exact .refl h
  | teardown vm =>
    simp only [step]
    split
    · rename_i table htable
      exact steps_teardown h htable
    · exact .refl h
  | tryAllocatePort vm port family protocol object outOfMemory =>
    simp only [step]
    split
    · rename_i table htable hobj
      split
      · rename_i howned
        rw [World.tryAllocatePort]
        split
        · exact .refl h
        · rename_i hfree
          exact steps_insert h htable howned hobj hfree family protocol outOfMemory
      · exact .refl h
    · exact .refl h
  | allocatePort vm family protocol object outOfMemory =>
    simp only [step]
    split
    · rename_i table htable hobj
      split
      · rename_i howned
        rw [World.allocatePort]
        split
        · rename_i port hport
          have hfree : port ∉ table.ports := Table.allocatePort_some hport
          exact steps_insert h htable howned hobj hfree family protocol outOfMemory
        · exact .refl h
      · exact .refl h
    · exact .refl h
  | reset object =>
    simp only [step]
    split
    · rename_i o hobj
      split
      · rename_i hfree
        exact steps_reset h hobj hfree nofun
      · exact .refl h
    · exact .refl h
  | destroy object =>
    simp only [step]
    split
    · rename_i o hobj
      split
      · rename_i hfree
        exact steps_reset h hobj hfree nofun
      · exact .refl h
    · exact .refl h
  | moveConstruct object other =>
    simp only [step]
    split
    · rename_i source hobj hother
      exact steps_move h hother (.inr ⟨hobj, rfl⟩)
    · exact .refl h
  | moveAssign object other =>
    simp only [step]
    split
    · rename_i o source hobj hother
      exact steps_move h hother (.inl hobj)
    · exact .refl h
  | advance object =>
    simp only [step]
    split
    · rename_i o hobj
      exact steps_advance h hobj
    · exact .refl h

end World

/-- The ports of a VM are those of its live objects, and no two of these share one. -/
structure Exact (reserved : Nat → Option (Finset UInt16)) (live : Nat → Option (Nat × UInt16)) : Prop where
  reserved : ∀ vm ports, reserved vm = some ports → ∀ port, port ∈ ports ↔ ∃ object, live object = some (vm, port)
  exclusive : ∀ a b vm port, live a = some (vm, port) → live b = some (vm, port) → a = b

section Exact

variable {reserved reserved' : Nat → Option (Finset UInt16)} {live live' : Nat → Option (Nat × UInt16)}

section

variable (h : Exact reserved live)
include h

theorem Exact.granted {vm object : Nat} {port : UInt16} {ports : Finset UInt16}
    (hports : reserved vm = some ports) (hfree : port ∉ ports) (hnew : live object = none) :
    Exact (update reserved vm (some (Insert.insert port ports)))
      (update live object (some (vm, port))) := by
  have hother {a : Nat} {x : Nat × UInt16} (ha : live a = some x) : a ≠ object := by
    rintro rfl
    rw [hnew] at ha
    cases ha
  have hunheld (a : Nat) : live a ≠ some (vm, port) := fun ha => hfree ((h.reserved vm ports hports port).mpr ⟨a, ha⟩)
  constructor
  · intro w ports' hw q
    constructor
    · intro hq
      by_cases hwvm : w = vm
      · subst hwvm
        rw [update_self] at hw
        cases hw
        rcases Finset.mem_insert.mp hq with rfl | hq
        · exact ⟨object, update_self ..⟩
        · obtain ⟨a, ha⟩ := (h.reserved w ports hports q).mp hq
          exact ⟨a, by rw [update_of_ne (hother ha), ha]⟩
      · rw [update_of_ne hwvm] at hw
        obtain ⟨a, ha⟩ := (h.reserved w ports' hw q).mp hq
        exact ⟨a, by rw [update_of_ne (hother ha), ha]⟩
    · rintro ⟨a, ha⟩
      by_cases haobject : a = object
      · subst haobject
        rw [update_self] at ha
        cases ha
        rw [update_self] at hw
        cases hw
        exact Finset.mem_insert_self ..
      · rw [update_of_ne haobject] at ha
        by_cases hwvm : w = vm
        · subst hwvm
          rw [update_self] at hw
          cases hw
          exact Finset.mem_insert_of_mem ((h.reserved w ports hports q).mpr ⟨a, ha⟩)
        · rw [update_of_ne hwvm] at hw
          exact (h.reserved w ports' hw q).mpr ⟨a, ha⟩
  · intro a b w q ha hb
    rw [update_apply] at ha hb
    split at ha <;> split at hb
    · rename_i haobject hbobject
      rw [haobject, hbobject]
    · cases ha
      exact absurd hb (hunheld b)
    · cases hb
      exact absurd ha (hunheld a)
    · exact h.exclusive a b w q ha hb

theorem Exact.dropped {vm object : Nat} {port : UInt16} (hold : live object = some (vm, port)) :
    Exact (update reserved vm ((reserved vm).map (·.erase port))) (update live object none) := by
  have hlive {a : Nat} {x : Nat × UInt16} : update live object none a = some x ↔ a ≠ object ∧ live a = some x := by
    rw [update_apply]
    split <;> simp_all
  constructor
  · intro w ports hw q
    by_cases hwvm : w = vm
    · subst hwvm
      rw [update_self] at hw
      obtain ⟨ports', hports', rfl⟩ := map_eq_some_iff.mp hw
      rw [Finset.mem_erase, h.reserved w ports' hports' q]
      constructor
      · rintro ⟨hne, a, ha⟩
        refine ⟨a, hlive.mpr ⟨?_, ha⟩⟩
        rintro rfl
        rw [hold] at ha
        cases ha
        exact hne rfl
      · rintro ⟨a, ha⟩
        obtain ⟨hne, ha⟩ := hlive.mp ha
        refine ⟨?_, a, ha⟩
        rintro rfl
        exact hne (h.exclusive a object w q ha hold)
    · rw [update_of_ne hwvm] at hw
      rw [h.reserved w ports hw q]
      constructor
      · rintro ⟨a, ha⟩
        refine ⟨a, hlive.mpr ⟨?_, ha⟩⟩
        rintro rfl
        rw [hold] at ha
        cases ha
        exact hwvm rfl
      · rintro ⟨a, ha⟩
        exact ⟨a, (hlive.mp ha).2⟩
  · intro a b w q ha hb
    exact h.exclusive a b w q (hlive.mp ha).2 (hlive.mp hb).2

theorem Exact.moved {object other : Nat} (hne : object ≠ other) (hnone : live object = none) :
    Exact reserved (update (update live object (live other)) other none) := by
  -- What stood for a port before the move, and what stands for it now.
  have hlive {a : Nat} {x : Nat × UInt16} :
      update (update live object (live other)) other none a = some x ↔
        (a = object ∧ live other = some x) ∨ (a ≠ object ∧ a ≠ other ∧ live a = some x) := by
    rw [update_apply, update_apply]
    split
    · rename_i heq
      simp [heq, hne.symm]
    · rename_i hother
      split
      · rename_i heq
        simp [heq]
      · rename_i hobj
        simp [hobj, hother]
  constructor
  · intro w ports hw q
    rw [h.reserved w ports hw q]
    constructor
    · rintro ⟨a, ha⟩
      by_cases heq : a = other
      · subst heq
        exact ⟨object, hlive.mpr (.inl ⟨rfl, ha⟩)⟩
      · refine ⟨a, hlive.mpr (.inr ⟨?_, heq, ha⟩)⟩
        rintro rfl
        rw [hnone] at ha
        cases ha
    · rintro ⟨a, ha⟩
      rcases hlive.mp ha with ⟨-, ha⟩ | ⟨-, -, ha⟩
      · exact ⟨other, ha⟩
      · exact ⟨a, ha⟩
  · intro a b w q ha hb
    rw [hlive] at ha hb
    rcases ha with ⟨haobject, ha⟩ | ⟨-, hane, ha⟩ <;> rcases hb with ⟨hbobject, hb⟩ | ⟨-, hbne, hb⟩
    · rw [haobject, hbobject]
    · exact absurd (h.exclusive b other w q hb ha) hbne
    · exact absurd (h.exclusive a other w q ha hb) hane
    · exact h.exclusive a b w q ha hb

theorem Exact.effect (heffect : Effect reserved live reserved' live') :
    Exact reserved' live' := by
  cases heffect with
  | same hres hlive =>
    rw [hlive]
    refine ⟨?_, h.exclusive⟩
    intro vm ports hports port
    rcases hres vm with heq | heq
    · exact h.reserved vm ports (heq ▸ hports) port
    · rw [heq] at hports
      cases hports
  | started vm hunknown hres hlive =>
    rw [hres, hlive]
    refine ⟨?_, h.exclusive⟩
    intro w ports hports port
    by_cases heq : w = vm
    · subst heq
      rw [update_self] at hports
      cases hports
      simp [hunknown]
    · rw [update_of_ne heq] at hports
      exact h.reserved w ports hports port
  | granted vm ports object port hports hfree hnew hres hlive =>
    rw [hres, hlive]
    exact h.granted hports hfree hnew
  | dropped vm object port hold hres hlive =>
    rw [hres, hlive]
    exact h.dropped hold
  | moved object other hne hnone hres hlive =>
    rw [hres, hlive]
    exact h.moved hne hnone

end

end Exact

def Op.handles (object : Nat) : Op → Prop
  | .reset a | .destroy a | .advance a => a = object
  | .moveConstruct a b | .moveAssign a b => a = object ∨ b = object
  | _ => False

namespace World

variable {s : World} {object vm : Nat} {o : VmPortAllocation}

theorem lock_reserved (goal : Goal) : (s.lock object o goal).reserved = s.reserved := by
  rw [World.lock]
  split
  · rename_i vm table htable
    split
    · exact setTable_reserved_of_eq (table_eq_some htable).2 rfl rfl
    · rfl
  · rfl

theorem erase_reserved (goal : Goal) (hvm : o.reservations = some vm) (hgone : s.reserved vm = none) :
    (s.erase object o goal).reserved = s.reserved := by
  rw [World.erase]
  split
  · rename_i w table htable
    obtain ⟨hw, htable⟩ := table_eq_some htable
    obtain rfl : w = vm := Option.some.inj (hw.symm.trans hvm)
    have howned : table.owned = false := by
      rw [reserved_of_table htable] at hgone
      cases hcase : table.owned with
      | false => rfl
      | true =>
        rw [hcase] at hgone
        cases hgone
    rw [World.setUse, setObject_reserved, setTable_reserved]
    change update s.reserved w (if table.owned then some (table.ports.erase o.port) else none) = s.reserved
    rw [howned, ← hgone]
    exact update_eq_self ..
  · rfl

theorem finish_reserved (goal : Goal) : (s.finish object o goal).reserved = s.reserved := by
  cases goal with
  | reset => rfl
  | destroy => rfl
  | assign other =>
    simp only [World.finish]
    split <;> rfl

theorem move_reserved (other : Nat) (source : VmPortAllocation) :
    (s.move object other o source).reserved = s.reserved := by
  rw [World.move]
  split <;> rfl

theorem advance_reserved (hvm : o.reservations = some vm) (hgone : s.reserved vm = none) :
    (s.advance object o).reserved = s.reserved := by
  rw [World.advance]
  split
  · exact lock_reserved _
  · exact erase_reserved _ hvm hgone
  · rw [finish_reserved, unlock_reserved]
  · rfl

theorem step_reserved {op : Op} (hhandles : op.handles object) (hobj : s.objects object = some o)
    (hvm : o.reservations = some vm) (hgone : s.reserved vm = none) : (step op s).reserved = s.reserved := by
  cases op with
  | startVm => exact absurd hhandles id
  | teardown => exact absurd hhandles id
  | tryAllocatePort => exact absurd hhandles id
  | allocatePort => exact absurd hhandles id
  | reset a =>
    simp only [step]
    split
    · split <;> rfl
    · rfl
  | destroy a =>
    simp only [step]
    split
    · split <;> rfl
    · rfl
  | moveConstruct a b =>
    simp only [step]
    split
    · exact move_reserved _ _
    · rfl
  | moveAssign a b =>
    simp only [step]
    split
    · exact move_reserved _ _
    · rfl
  | advance a =>
    obtain rfl : a = object := hhandles
    simp only [step, hobj]
    exact advance_reserved hvm hgone

end World

theorem World.live_allocatePort {s : World} {vm object : Nat} {ports : Finset UInt16}
    (hports : s.reserved vm = some ports) (hobj : s.objects object = none) {port : UInt16}
    (hlow : containerPortRange.1 ≤ port.toNat) (hhigh : port.toNat ≤ containerPortRange.2)
    (hfree : port ∉ ports)
    (family protocol : Int) :
    ∃ port, (step (.allocatePort vm family protocol object false) s).live object = some (vm, port) := by
  obtain ⟨table, htable, howned⟩ := bind_eq_some_iff.mp hports
  split at howned
  · rename_i howned'
    cases howned
    simp only [step, htable, hobj, if_pos howned', World.allocatePort]
    split
    · rename_i port' _
      refine ⟨port', ?_⟩
      simp only [World.insert, Bool.false_eq_true, if_false, setObject_live, update_self]
      rfl
    · rename_i hnone
      exact absurd (Table.allocatePort_none hnone port hlow hhigh) hfree
  · cases howned

def World.Sound (s : World) : Prop := s.Valid ∧ Exact s.reserved s.live

theorem World.Sound.step {s : World} (h : s.Sound) (op : Op) : (step op s).Sound := by
  obtain ⟨hvalid, heffect⟩ := World.steps_step h.1 op
  exact ⟨hvalid, h.2.effect heffect⟩

/-- In every run the reservations of a VM are those of its live objects, a new port is refused only
if the range is used up, and an object without its VM leaves the other VMs alone. -/
theorem reservations_exact (ops : List Op) :
    let s := runSteps step ops {}
    Exact s.reserved s.live ∧
      (∀ vm ports object family protocol, s.reserved vm = some ports → s.objects object = none →
        (∃ port, (step (.allocatePort vm family protocol object false) s).live object = some (vm, port)) ∨
          ∀ port : UInt16, containerPortRange.1 ≤ port.toNat → port.toNat ≤ containerPortRange.2 →
    port ∈ ports) ∧
      ∀ object vm port op, s.live object = some (vm, port) → s.reserved vm = none → op.handles object →
        (step op s).reserved = s.reserved := by
  have hsound : (runSteps step ops {}).Sound :=
    inv_runSteps_of_step (fun op _ h => h.step op) ⟨World.Valid.initial, nofun, nofun⟩
  refine ⟨hsound.2, ?_, ?_⟩
  · intro vm ports object family protocol hports hobject
    by_cases hfull : ∀ port : UInt16, containerPortRange.1 ≤ port.toNat → port.toNat ≤ containerPortRange.2 →
        port ∈ ports
    · exact .inr hfull
    · left
      simp only [not_forall] at hfull
      obtain ⟨port, hlow, hhigh, hfree⟩ := hfull
      exact World.live_allocatePort hports hobject hlow hhigh hfree family protocol
  · intro object vm port op hlive hgone hhandles
    obtain ⟨o, hobject, hvm⟩ := World.live_eq_some hlive
    exact World.step_reserved hhandles hobject hvm hgone

end WslPlus.Wslc.VmPorts

import WslPlus.Session.Damage

/-!
# One user of a disk at a time

The critical sections of m_instanceLock, and the work that exports, conversions
and compactions do between two of them while the distribution is listed in
m_lockedDistributions. Entry points check that list, the running instances or
the attached disks. SnapshotDistribution and the removal of orphans do not check
the list, and CloneDistribution checks nothing.
-/

namespace WslPlus.Session.Locking

open List Option

open Operations (Outcome LinkedTo sourceOf clonedPaths clonedFiles)

structure State where
  machine : Machine
  locked : List (Nat × DistroState)
  running : List Nat
  attached : List Path
  removing : List Nat

inductive Op where
  | start (o : Outcome) (id : Nat) (launched : Bool)
  | run (o : Outcome) (id : Nat)
  | terminate (id : Nat)
  | vmTerminate
  | beginExport (id : Nat)
  | beginSetVersion (outcomes : SetVersion.Outcomes) (version : Nat) (globalFlags : BitVec 32)
      (lxcoreInitialized : Bool) (id : Nat)
  | beginCompact (o : Outcome) (id : Nat)
  | work (id : Nat)
  | setVersion (o : Outcome) (outcomes : SetVersion.Outcomes) (version : Nat) (globalFlags : BitVec 32)
      (lxcoreInitialized : Bool) (id : Nat)
  | compact (o : Outcome) (id : Nat)
  | complete (id : Nat)
  | resize (o : Outcome) (id : Nat)
  | move (o : Outcome) (id : Nat) (location : Path)
  | setSparse (o : Outcome) (sparse allowUnsafe : Bool) (id : Nat)
  | snapshot (o : Outcome) (id : Nat)
  | clone (ok : Clone.Step → Bool) (globalFlags : BitVec 32) (id newId : Nat) (newName : Name) (full : Bool)
  | unregister (o : Outcome) (id : Nat)
  | deleteKey (id : Nat)
  | removeOrphan (o : Outcome) (id : Nat)

namespace State

def isLocked (s : State) (id : Nat) : Bool := s.locked.any (·.1 == id)

def isRunning (s : State) (id : Nat) : Bool := s.running.contains id

def isVhdAttached (s : State) (path : Path) : Bool := s.attached.contains path

def registered (s : State) (id : Nat) (p : Registration → Bool) : Bool :=
  (s.machine.registry.lookup id).any fun r => r.name.isSome && p r

def terminateInstance (s : State) (id : Nat) : State := { s with running := s.running.filter (· != id) }

def conversionBegin (s : State) (id : Nat) (state : DistroState) : State :=
  { s.terminateInstance id with locked := (id, state) :: s.locked }

def vhdOf (s : State) (id : Nat) : List Path :=
  ((s.machine.registry.lookup id).map Registration.vhdFilePath).toList

def instanceVhd (s : State) (id : Nat) : List Path :=
  (((s.machine.registry.lookup id).filter (·.form = .vhd)).map Registration.vhdFilePath).toList

def setupVhd (s : State) (id : Nat) : List Path :=
  if s.locked.contains (id, .converting) then s.vhdOf id else s.instanceVhd id

def ejectVhd (s : State) (id : Nat) : List Path := s.attached.filter fun p => !(s.vhdOf id).contains p

end State

def beforeKey (o : Outcome) : Outcome := { o with ok := fun step => step != .deleteKey && o.ok step }

def machineOp : Op → Option Operations.Op
  | .start o id _ | .run o id => some (.start o id)
  | .setVersion o outcomes version globalFlags lxcoreInitialized id =>
    some (.setVersion o outcomes version globalFlags lxcoreInitialized id)
  | .beginCompact o id | .compact o id => some (.compact o id)
  | .resize o id => some (.resize o id)
  | .move o id location => some (.move o id location)
  | .setSparse o sparse allowUnsafe id => some (.setSparse o sparse allowUnsafe id)
  | .snapshot o id => some (.snapshot o id)
  | .clone ok globalFlags id newId newName full => some (.clone ok globalFlags id newId newName full)
  | .unregister o id => some (.unregister (beforeKey o) id)
  | .removeOrphan o id => some (.removeOrphan o id)
  | .terminate _ | .vmTerminate | .beginExport _ | .beginSetVersion .. | .work _ | .complete _
  | .deleteKey _ => none

def proceeds (op : Op) (s : State) : Bool :=
  match op with
  | .start o id _ =>
    !s.isLocked id && !s.isRunning id && o.ok .begin &&
      s.registered id fun r =>
        r.state == .installed && (r.form == .rootfs || (s.machine.files r.vhdFilePath).isSome)
  | .run _ id => s.isRunning id
  | .terminate _ | .vmTerminate => true
  | .beginExport id => s.registered id (·.state == .installed) && !s.isLocked id
  | .beginSetVersion outcomes version globalFlags lxcoreInitialized id =>
    (sourceOf s.machine globalFlags id).any (SetVersion.accepted outcomes version · lxcoreInitialized) &&
      !s.isLocked id
  | .beginCompact _ id =>
    s.registered id
        (fun r => r.form == .vhd && Path.lower (Path.extension r.vhdFileName) != ".vhd".toList) &&
      !s.isLocked id
  | .work id | .complete id => s.isLocked id
  | .setVersion _ _ _ _ _ id => s.locked.contains (id, .converting)
  | .compact _ id => s.locked.contains (id, .compacting)
  | .resize _ id =>
    s.registered id (fun r => r.form == .vhd && !s.isVhdAttached r.vhdFilePath) && !s.isLocked id
  | .move _ id location =>
    !s.isRunning id && !s.isLocked id && notInUse s.machine.registry (some location) none none
  | .setSparse _ sparse allowUnsafe id =>
    s.registered id (·.form == .vhd) && (!sparse || allowUnsafe) && !s.isRunning id && !s.isLocked id
  | .snapshot _ id => s.registered id fun r => r.form == .vhd && !s.isVhdAttached r.vhdFilePath
  | .clone _ globalFlags id newId _ _ =>
    -- CoCreateGuid does not return the GUID of a distribution that was there before.
    (sourceOf s.machine globalFlags id).isSome && !decide (newId ∈ s.machine.registry) && !s.isRunning newId
  | .unregister _ id => s.registered id (fun _ => true) && !s.isLocked id
  | .deleteKey id => s.removing.contains id
  | .removeOrphan _ id =>
    s.registered id fun r =>
      r.packageFamilyName != [] && (s.machine.files (r.formPath r.form)).isNone

def onMachine (op : Op) (m : Machine) : Machine := ((machineOp op).map (Operations.step · m)).getD m

def effect (op : Op) (s : State) : State :=
  let machine := onMachine op s.machine
  match op with
  | .start _ id launched =>
    { s with machine, running := if launched then id :: s.running else s.running,
             attached := s.instanceVhd id ++ s.attached }
  | .run .. | .compact .. | .move .. | .setSparse .. | .clone .. => { s with machine }
  | .terminate id => s.terminateInstance id
  | .vmTerminate =>
    { s with running := s.running.filter fun d => (s.machine.registry.lookup d).any (·.form == .rootfs),
             attached := [] }
  | .beginExport id => s.conversionBegin id .exporting
  | .beginSetVersion _ _ _ _ id => s.conversionBegin id .converting
  | .beginCompact _ id => { s.conversionBegin id .compacting with machine, attached := s.ejectVhd id }
  | .work id => { s with attached := s.setupVhd id ++ s.attached }
  | .setVersion _ _ _ _ _ id =>
    -- The disk is ejected when it is deleted.
    { s with machine, attached := s.attached.filter fun p => !(s.vhdOf id).contains p || (machine.files p).isSome }
  | .complete id => { s with locked := s.locked.filter (·.1 != id) }
  | .resize _ id | .snapshot _ id => { s with machine, attached := s.ejectVhd id }
  | .unregister _ id =>
    { s.terminateInstance id with machine, attached := s.ejectVhd id, removing := id :: s.removing }
  | .deleteKey id =>
    { s with machine := s.machine.deleteKey id, removing := s.removing.filter (· != id) }
  | .removeOrphan _ id => { s.terminateInstance id with machine, attached := s.ejectVhd id }

def step (op : Op) (s : State) : State := if proceeds op s then effect op s else s

def Op.holds : Op → Option Nat
  | .work id | .setVersion _ _ _ _ _ id | .compact _ id | .complete id => some id
  | _ => none

def Op.offline : Op → Option Nat
  | .move _ id _ | .setSparse _ _ _ id | .resize _ id | .snapshot _ id | .clone _ _ id .. => some id
  | _ => none

def accessed (op : Op) (s : State) : Area :=
  (((machineOp op).map (Operations.area · s.machine)).getD (.ofFiles [])).union
    (match op with
      | .work id => Operations.areaOf s.machine id fun r => r.disk.union r.rootfs
      | .clone _ _ id .. => .ofFiles (s.vhdOf id)
      | _ => .ofFiles [])

def opened (op : Op) (s : State) : List Path :=
  match op with
  | .start _ id _ | .run _ id => s.instanceVhd id
  | .work id => s.setupVhd id
  | .setVersion _ _ _ _ _ id | .beginCompact _ id | .compact _ id | .resize _ id | .snapshot _ id => s.vhdOf id
  | .clone _ _ id _ _ full => if full then [] else s.vhdOf id
  | _ => []

def Accesses (op : Op) (s : State) (p : Path) : Prop :=
  proceeds op s = true ∧
    ((accessed op s).covers p = true ∨ ∃ disk ∈ opened op s, LinkedTo s.machine.files disk p)

/-- A step of an operation leaves alone what other operations have locked, and it
does not proceed with a disk that a running instance uses. -/
structure Exclusive (s : State) (op : Op) (s' : State) : Prop where
  locked : ∀ d r, s.isLocked d = true → s.machine.registry.lookup d = some r → op.holds ≠ some d →
    s'.isRunning d = false ∧ ¬ Accesses op s r.vhdFilePath
  running : ∀ d, op.offline = some d → s.isRunning d = true → proceeds op s = false

def lockedDisks (op : Op) (s : State) : List Path :=
  (s.locked.filter fun e => op.holds != some e.1).flatMap fun e => s.vhdOf e.1

def Op.unchecked : Op → List Nat
  | .snapshot _ id | .clone _ _ id .. | .removeOrphan _ id => [id]
  | _ => []

def Op.cloned : Op → List Nat
  | .clone _ _ id .. => [id]
  | _ => []

/-- What the code does not check: snapshots, clones and removals of orphans find
the distribution unlocked and clones find it stopped, a clone has a disk of its
own, and locked disks are not in directories that the step uses and not parents
of disks that it opens. -/
structure Clear (op : Op) (s : State) : Prop where
  unlocked : ∀ id ∈ op.unchecked, s.isLocked id = false
  stopped : ∀ id ∈ op.cloned, s.isRunning id = false
  clonedPaths : ∀ o ∈ machineOp op, ∀ p ∈ clonedPaths o s.machine, DiskUnused s.machine.registry p
  clonedFiles : ∀ o ∈ machineOp op, ∀ p ∈ clonedFiles o s.machine, p ∉ lockedDisks op s
  directories : ∀ dir ∈ (accessed op s).directories, ∀ p ∈ lockedDisks op s, ¬ Path.Within dir p
  links : ∀ disk ∈ opened op s, ∀ p ∈ lockedDisks op s, ¬ LinkedTo s.machine.files disk p

def Checked (op : Op) (s : State) : Prop := proceeds op s = true → Clear op s

/-- Disks are distinct, locked distributions do not run, and the disks of those
that run are attached. -/
structure Inv (s : State) : Prop where
  distinct : DisksDistinct s.machine.registry
  stopped : ∀ d, s.isLocked d = true → d ∉ s.running
  attached : ∀ d r, d ∈ s.running → s.machine.registry.lookup d = some r → r.form = .vhd →
    r.vhdFilePath ∈ s.attached

section Step

variable {s s' : State} {op : Op} {id d : Nat} {r : Registration}

theorem Inv.next (h : Inv s) (hdist : DisksDistinct s'.machine.registry)
    (hstop : ∀ d, s'.isLocked d = true → d ∈ s'.running → s.isLocked d = true ∧ d ∈ s.running)
    (hattached : ∀ d r, d ∈ s'.running → s'.machine.registry.lookup d = some r → r.form = .vhd →
      d ∈ s.running ∧ s.machine.registry.lookup d = some r ∧
        (r.vhdFilePath ∈ s.attached → r.vhdFilePath ∈ s'.attached)) : Inv s' := by
  refine ⟨hdist, ?_, ?_⟩
  · intro d hlock hrun
    obtain ⟨hlock, hrun⟩ := hstop d hlock hrun
    exact h.stopped d hlock hrun
  · intro d r hrun hr hform
    obtain ⟨hrun, hr, hin⟩ := hattached d r hrun hr hform
    exact hin (h.attached d r hrun hr hform)

variable {o : Operations.Op}

theorem onMachine_eq (ho : machineOp op = some o) (m : Machine) : onMachine op m = Operations.step o m := by
  rw [onMachine, ho]
  rfl

theorem onMachine_distinct (h : Inv s) (hop : Clear op s) :
    DisksDistinct (onMachine op s.machine).registry := by
  cases ho : machineOp op with
  | none =>
    rw [onMachine, ho]
    exact h.distinct
  | some o =>
    rw [onMachine_eq ho]
    exact Operations.step_distinct h.distinct (hop.clonedPaths o ho)

theorem lookup_onMachine (ho : machineOp op = some o) (hd : d ≠ o.target) (m : Machine) :
    (onMachine op m).registry.lookup d = m.registry.lookup d := by
  rw [onMachine_eq ho]
  exact (Operations.step_confined o m).others d hd

variable {p : Path}

theorem mem_vhdOf (hp : p ∈ s.vhdOf id) : ∃ r, s.machine.registry.lookup id = some r ∧ p = r.vhdFilePath := by
  obtain ⟨r, hr, rfl⟩ := map_eq_some_iff.mp (mem_toList.mp hp)
  exact ⟨r, hr, rfl⟩

theorem not_mem_vhdOf (h : Inv s) (hr : s.machine.registry.lookup d = some r) (hne : d ≠ id) :
    r.vhdFilePath ∉ s.vhdOf id := by
  intro hmem
  obtain ⟨r', hr', heq⟩ := mem_vhdOf hmem
  exact h.distinct d id r r' hr hr' hne heq

theorem mem_ejectVhd (h : Inv s) (hr : s.machine.registry.lookup d = some r) (hne : d ≠ id)
    (hin : r.vhdFilePath ∈ s.attached) : r.vhdFilePath ∈ s.ejectVhd id := by
  refine mem_filter.mpr ⟨hin, ?_⟩
  rw [Bool.not_eq_true', ← Bool.not_eq_true, contains_iff_mem]
  exact not_mem_vhdOf h hr hne

theorem isLocked_iff : s.isLocked d = true ↔ ∃ state, (d, state) ∈ s.locked := by
  simp [State.isLocked]

theorem mem_lockedDisks :
    p ∈ lockedDisks op s ↔ ∃ d r, s.isLocked d = true ∧ s.machine.registry.lookup d = some r ∧
      op.holds ≠ some d ∧ p = r.vhdFilePath := by
  constructor
  · intro hp
    obtain ⟨e, he, hp⟩ := mem_flatMap.mp hp
    obtain ⟨he, hholds⟩ := mem_filter.mp he
    obtain ⟨r, hr, rfl⟩ := mem_vhdOf hp
    exact ⟨e.1, r, isLocked_iff.mpr ⟨e.2, he⟩, hr, bne_iff_ne.mp hholds, rfl⟩
  · rintro ⟨d, r, hlock, hr, hholds, rfl⟩
    obtain ⟨state, he⟩ := isLocked_iff.mp hlock
    refine mem_flatMap.mpr ⟨(d, state), mem_filter.mpr ⟨he, bne_iff_ne.mpr hholds⟩, ?_⟩
    rw [State.vhdOf, hr]
    exact mem_singleton_self _

theorem withRegistration_registry {f : Registration → Machine → Machine}
    (hf : ∀ r m, (f r m).registry = m.registry) (id : Nat) (m : Machine) :
    (Operations.withRegistration id f m).registry = m.registry := by
  unfold Operations.withRegistration
  split
  · rfl
  · split
    · exact hf _ m
    · rfl

theorem workOnDisk_registry (o : Outcome) (accepts : Registration → Bool) (id : Nat) (m : Machine) :
    (Operations.workOnDisk o accepts id m).registry = m.registry := by
  apply withRegistration_registry
  intro r m
  split <;> rfl

theorem startDistribution_registry (o : Outcome) (id : Nat) (m : Machine) :
    (Operations.startDistribution o id m).registry = m.registry := by
  apply withRegistration_registry
  intro r m
  split <;> rfl

theorem isRunning_iff : s.isRunning d = true ↔ d ∈ s.running := by
  rw [State.isRunning, contains_iff_mem]

theorem mem_terminateInstance : d ∈ (s.terminateInstance id).running ↔ d ∈ s.running ∧ d ≠ id := by
  simp [State.terminateInstance]

theorem isLocked_conversionBegin {state : DistroState} :
    (s.conversionBegin id state).isLocked d = true ↔ id = d ∨ s.isLocked d = true := by
  rw [State.isLocked, State.conversionBegin, any_cons, Bool.or_eq_true, beq_iff_eq, State.isLocked]

theorem conversionBegin_stopped {state : DistroState} (hlock : (s.conversionBegin id state).isLocked d = true)
    (hrun : d ∈ (s.conversionBegin id state).running) : s.isLocked d = true ∧ d ∈ s.running := by
  obtain ⟨hrun, hne⟩ := mem_terminateInstance.mp hrun
  exact ⟨(isLocked_conversionBegin.mp hlock).resolve_left hne.symm, hrun⟩

theorem Inv.conversionBegin (h : Inv s) (id : Nat) (state : DistroState) :
    Inv (s.conversionBegin id state) := by
  refine h.next h.distinct (fun d => conversionBegin_stopped) ?_
  intro d r hrun hr _
  exact ⟨(mem_terminateInstance.mp hrun).1, hr, fun h => h⟩

/-- The registrations stay as they are and the disk of a stopped distribution is
ejected. -/
theorem Inv.eject (h : Inv s) (machine : Machine) (hreg : machine.registry = s.machine.registry)
    (hstop : ∀ r, s.machine.registry.lookup id = some r → r.form = .vhd → id ∉ s.running) :
    Inv { s with machine, attached := s.ejectVhd id } := by
  refine h.next (by rw [hreg]; exact h.distinct) (fun d hlock hrun => ⟨hlock, hrun⟩) ?_
  intro d r hrun hr hform
  rw [hreg] at hr
  refine ⟨hrun, hr, mem_ejectVhd h hr ?_⟩
  rintro rfl
  exact hstop r hr hform hrun

theorem Inv.removed (h : Inv s) {machine : Machine} {removing : List Nat}
    (hdist : DisksDistinct machine.registry)
    (hothers : ∀ d, d ≠ id → machine.registry.lookup d = s.machine.registry.lookup d) :
    Inv { s.terminateInstance id with machine, attached := s.ejectVhd id, removing } := by
  refine h.next hdist ?_ ?_
  · intro d hlock hrun
    exact ⟨hlock, (mem_terminateInstance.mp hrun).1⟩
  · intro d r hrun hr _
    obtain ⟨hrun, hne⟩ := mem_terminateInstance.mp hrun
    rw [hothers d hne] at hr
    exact ⟨hrun, hr, mem_ejectVhd h hr hne⟩

theorem Inv.rewritten (h : Inv s) {machine : Machine} (hdist : DisksDistinct machine.registry)
    (hothers : ∀ d ∈ s.running, machine.registry.lookup d = s.machine.registry.lookup d) :
    Inv { s with machine } := by
  refine h.next hdist (fun d hlock hrun => ⟨hlock, hrun⟩) ?_
  intro d r hrun hr _
  rw [hothers d hrun] at hr
  exact ⟨hrun, hr, fun h => h⟩

theorem registered_spec {p : Registration → Bool} (h : s.registered id p = true) :
    ∃ r, s.machine.registry.lookup id = some r ∧ p r = true := by
  obtain ⟨r, hr, hp⟩ := (Option.any_eq_true _ _).mp h
  exact ⟨r, hr, (Bool.and_eq_true _ _ ▸ hp).2⟩

theorem not_running_of_detached (h : Inv s)
    (hop : s.registered id (fun r => r.form == .vhd && !s.isVhdAttached r.vhdFilePath) = true) :
    id ∉ s.running := by
  obtain ⟨r, hr, hfree⟩ := registered_spec hop
  rw [Bool.and_eq_true, beq_iff_eq, Bool.not_eq_true', ← Bool.not_eq_true] at hfree
  intro hrun
  apply hfree.2
  rw [State.isVhdAttached, contains_iff_mem]
  exact h.attached id r hrun hr hfree.1

theorem mem_started {launched : Bool} (h : d ∈ if launched then id :: s.running else s.running) :
    d = id ∨ d ∈ s.running := by
  cases launched with
  | false => exact .inr h
  | true => exact mem_cons.mp h

theorem effect_inv (h : Inv s) (hop : proceeds op s = true) (hclear : Clear op s) : Inv (effect op s) := by
  have hdist := onMachine_distinct h hclear
  cases op with
  | start o id launched =>
    have hunlock : s.isLocked id = false := by
      simp only [proceeds, Bool.and_eq_true, Bool.not_eq_true'] at hop
      exact hop.1.1.1
    have hreg : (onMachine (.start o id launched) s.machine).registry = s.machine.registry := by
      rw [onMachine_eq rfl, Operations.step, startDistribution_registry]
    refine ⟨hdist, ?_, ?_⟩
    · intro d hlock hrun
      rcases mem_started hrun with rfl | hrun
      · exact absurd hlock (Bool.eq_false_iff.mp hunlock)
      · exact h.stopped d hlock hrun
    · intro d r hrun hr' hform
      have hr : s.machine.registry.lookup d = some r := by
        rw [← hreg]
        exact hr'
      rcases mem_started hrun with rfl | hrun
      · refine mem_append_left _ (mem_toList.mpr ?_)
        simp [hr, hform]
      · exact mem_append_right _ (h.attached d r hrun hr hform)
  | run o id =>
    refine h.rewritten hdist (fun d _ => ?_)
    rw [onMachine_eq rfl, Operations.step, startDistribution_registry]
  | terminate id =>
    refine h.next h.distinct (fun d hlock hrun => ⟨hlock, (mem_terminateInstance.mp hrun).1⟩) ?_
    intro d r hrun hr _
    exact ⟨(mem_terminateInstance.mp hrun).1, hr, fun h => h⟩
  | vmTerminate =>
    refine h.next h.distinct (fun d hlock hrun => ⟨hlock, (mem_filter.mp hrun).1⟩) ?_
    intro d r hrun hr hform
    have hrootfs := (mem_filter.mp hrun).2
    have hr : s.machine.registry.lookup d = some r := hr
    rw [hr, any_some, hform] at hrootfs
    cases hrootfs
  | beginExport id => exact h.conversionBegin id .exporting
  | beginSetVersion outcomes version globalFlags lxcoreInitialized id => exact h.conversionBegin id .converting
  | beginCompact o id =>
    refine (h.conversionBegin id .compacting).eject (onMachine (.beginCompact o id) s.machine) ?_ ?_
    · rw [onMachine_eq rfl, Operations.step]
      exact workOnDisk_registry o _ id s.machine
    · intro r _ _ hrun
      exact (mem_terminateInstance.mp hrun).2 rfl
  | work id =>
    refine h.next h.distinct (fun d hlock hrun => ⟨hlock, hrun⟩) ?_
    intro d r hrun hr _
    exact ⟨hrun, hr, mem_append_right _⟩
  | setVersion o outcomes version globalFlags lxcoreInitialized id =>
    refine h.next hdist (fun d hlock hrun => ⟨hlock, hrun⟩) ?_
    intro d r hrun hr _
    have hne : d ≠ id := by
      rintro rfl
      exact h.stopped d (isLocked_iff.mpr ⟨_, contains_iff_mem.mp hop⟩) hrun
    have hr : s.machine.registry.lookup d = some r := (lookup_onMachine rfl hne s.machine).symm.trans hr
    refine ⟨hrun, hr, fun hin => mem_filter.mpr ⟨hin, ?_⟩⟩
    simp [not_mem_vhdOf h hr hne]
  | compact o id =>
    refine h.rewritten hdist (fun d _ => ?_)
    rw [onMachine_eq rfl, Operations.step, Operations.compactDistribution, workOnDisk_registry]
  | complete id =>
    refine h.next h.distinct ?_ (fun d r hrun hr _ => ⟨hrun, hr, fun h => h⟩)
    intro d hlock hrun
    obtain ⟨state, hmem⟩ := isLocked_iff.mp hlock
    exact ⟨isLocked_iff.mpr ⟨state, mem_of_mem_filter hmem⟩, hrun⟩
  | resize o id =>
    rw [proceeds, Bool.and_eq_true] at hop
    refine h.eject _ ?_ (fun _ _ _ => not_running_of_detached h hop.1)
    rw [onMachine_eq rfl, Operations.step, Operations.resizeDistribution, workOnDisk_registry]
  | move o id location =>
    rw [proceeds, Bool.and_eq_true, Bool.and_eq_true, Bool.not_eq_true'] at hop
    refine h.rewritten hdist ?_
    intro d hrun
    refine lookup_onMachine rfl ?_ s.machine
    rintro rfl
    exact absurd (isRunning_iff.mpr hrun) (Bool.eq_false_iff.mp hop.1.1)
  | setSparse o sparse allowUnsafe id =>
    refine h.rewritten hdist (fun d _ => ?_)
    rw [onMachine_eq rfl, Operations.step, Operations.setSparse, workOnDisk_registry]
  | snapshot o id =>
    refine h.eject _ ?_ (fun _ _ _ => not_running_of_detached h hop)
    rw [onMachine_eq rfl, Operations.step, Operations.snapshotDistribution, workOnDisk_registry]
  | clone ok globalFlags id newId newName full =>
    rw [proceeds, Bool.and_eq_true, Bool.not_eq_true'] at hop
    refine h.rewritten hdist ?_
    intro d hrun
    refine lookup_onMachine rfl ?_ s.machine
    rintro rfl
    exact absurd (isRunning_iff.mpr hrun) (Bool.eq_false_iff.mp hop.2)
  | unregister o id => exact h.removed hdist (fun d hd => lookup_onMachine rfl hd s.machine)
  | deleteKey id =>
    refine h.next (h.distinct.erase id) (fun d hlock hrun => ⟨hlock, hrun⟩) ?_
    intro d r hrun hr _
    exact ⟨hrun, lookup_of_erase hr, fun h => h⟩
  | removeOrphan o id => exact h.removed hdist (fun d hd => lookup_onMachine rfl hd s.machine)

theorem step_inv (op : Op) (s : State) (h : Inv s) (hop : Checked op s) : Inv (step op s) := by
  unfold step
  split
  · next hproceeds => exact effect_inv h hproceeds (hop hproceeds)
  · exact h

theorem isLocked_step (hlock : s.isLocked d = true) (hholds : op.holds ≠ some d) :
    (step op s).isLocked d = true := by
  unfold step
  split
  · cases op with
    | complete id =>
      obtain ⟨state, hmem⟩ := isLocked_iff.mp hlock
      refine isLocked_iff.mpr ⟨state, mem_filter.mpr ⟨hmem, ?_⟩⟩
      rw [bne_iff_ne]
      rintro rfl
      exact hholds rfl
    | beginExport id => exact isLocked_conversionBegin.mpr (.inr hlock)
    | beginSetVersion outcomes version globalFlags lxcoreInitialized id =>
      exact isLocked_conversionBegin.mpr (.inr hlock)
    | beginCompact o id => exact isLocked_conversionBegin.mpr (.inr hlock)
    | _ => exact hlock
  · exact hlock

theorem target_ne (h : Inv s) (hop : proceeds op s = true) (hclear : Clear op s) (hlock : s.isLocked d = true)
    (hr : s.machine.registry.lookup d = some r) (hholds : op.holds ≠ some d)
    (ho : machineOp op = some o) : o.target ≠ d := by
  have hunlock : ∀ {id}, s.isLocked id = false → id ≠ d := by
    rintro id hid rfl
    rw [hid] at hlock
    cases hlock
  cases op with
  | start o id launched =>
    cases ho
    simp only [proceeds, Bool.and_eq_true, Bool.not_eq_true'] at hop
    exact hunlock hop.1.1.1
  | run o id =>
    cases ho
    rintro rfl
    exact h.stopped _ hlock (isRunning_iff.mp hop)
  | terminate id => cases ho
  | vmTerminate => cases ho
  | beginExport id => cases ho
  | beginSetVersion outcomes version globalFlags lxcoreInitialized id => cases ho
  | work id => cases ho
  | complete id => cases ho
  | deleteKey id => cases ho
  | beginCompact o id =>
    cases ho
    simp only [proceeds, Bool.and_eq_true, Bool.not_eq_true'] at hop
    exact hunlock hop.2
  | setVersion o outcomes version globalFlags lxcoreInitialized id =>
    cases ho
    rintro rfl
    exact hholds rfl
  | compact o id =>
    cases ho
    rintro rfl
    exact hholds rfl
  | resize o id =>
    cases ho
    simp only [proceeds, Bool.and_eq_true, Bool.not_eq_true'] at hop
    exact hunlock hop.2
  | move o id location =>
    cases ho
    simp only [proceeds, Bool.and_eq_true, Bool.not_eq_true'] at hop
    exact hunlock hop.1.2
  | setSparse o sparse allowUnsafe id =>
    cases ho
    simp only [proceeds, Bool.and_eq_true, Bool.not_eq_true'] at hop
    exact hunlock hop.2
  | snapshot o id =>
    cases ho
    exact hunlock (hclear.unlocked id (mem_singleton_self _))
  | clone ok globalFlags id newId newName full =>
    cases ho
    rintro rfl
    simp only [proceeds, Bool.and_eq_true, Bool.not_eq_true', decide_eq_false_iff_not] at hop
    have hr : s.machine.registry.lookup newId = some r := hr
    apply hop.1.2
    rw [← AList.lookup_isSome, hr]
    rfl
  | unregister o id =>
    cases ho
    simp only [proceeds, Bool.and_eq_true, Bool.not_eq_true'] at hop
    exact hunlock hop.2
  | removeOrphan o id =>
    cases ho
    exact hunlock (hclear.unlocked id (mem_singleton_self _))

theorem newPaths_free (hop : proceeds op s = true) (hclear : Clear op s)
    (ho : machineOp op = some o) (hp : p ∈ Operations.newPaths o s.machine) :
    DiskUnused s.machine.registry p := by
  cases op with
  | move o id location =>
    cases ho
    simp only [proceeds, Bool.and_eq_true] at hop
    obtain ⟨r, -, rfl⟩ := map_eq_some_iff.mp (mem_toList.mp hp)
    exact diskUnused_of_notInUse hop.2 r.vhdFileName
  | clone ok globalFlags id newId newName full =>
    cases ho
    exact hclear.clonedPaths _ rfl p hp
  | _ => cases ho <;> cases hp

theorem accessed_files (h : Inv s) (hop : proceeds op s = true) (hclear : Clear op s)
    (hp : p ∈ (accessed op s).files) : p ∉ lockedDisks op s := by
  intro hmem
  obtain ⟨d, r, hlock, hr, hholds, rfl⟩ := mem_lockedDisks.mp hmem
  rcases mem_append.mp hp with hp | hp
  · cases ho : machineOp op with
    | none =>
      rw [ho] at hp
      cases hp
    | some o =>
      rw [ho] at hp
      rcases Operations.area_files hp with ⟨r', hr', heq⟩ | hpath | hfile
      · exact h.distinct d o.target r r' hr hr' (target_ne h hop hclear hlock hr hholds ho).symm heq
      · exact newPaths_free hop hclear ho hpath ⟨d, r⟩ (AList.mem_lookup_iff.mp hr) rfl
      · exact hclear.clonedFiles o ho _ hfile hmem
  · cases op with
    | work id =>
      obtain ⟨r', hr', heq⟩ := Operations.areaOf_files (fun r => List.Subset.refl _) hp
      refine h.distinct d id r r' hr hr' ?_ heq
      rintro rfl
      exact hholds rfl
    | clone ok globalFlags id newId newName full =>
      refine not_mem_vhdOf h hr ?_ hp
      rintro rfl
      rw [hclear.unlocked d (mem_singleton_self _)] at hlock
      cases hlock
    | _ => cases hp

theorem not_accesses (h : Inv s) (hop : Checked op s) (hp : p ∈ lockedDisks op s) : ¬ Accesses op s p := by
  rintro ⟨hproceeds, hcovers | ⟨disk, hdisk, hlink⟩⟩
  · rcases Operations.covers_iff.mp hcovers with hfile | ⟨dir, hdir, hin⟩
    · exact accessed_files h hproceeds (hop hproceeds) hfile hp
    · exact (hop hproceeds).directories dir hdir p hp hin
  · exact (hop hproceeds).links disk hdisk p hp hlink

/-- Moves, sparse changes, resizes and snapshots find a running instance; for
clones this is left to the caller. -/
theorem offline_refused (h : Inv s) (hop : Checked op s) (hoffline : op.offline = some d)
    (hrun : s.isRunning d = true) : proceeds op s = false := by
  rw [← Bool.not_eq_true]
  intro hproceeds
  cases op with
  | move o id location =>
    cases hoffline
    simp only [proceeds, Bool.and_eq_true, hrun, Bool.not_true, Bool.false_eq_true, false_and] at hproceeds
  | setSparse o sparse allowUnsafe id =>
    cases hoffline
    simp only [proceeds, Bool.and_eq_true, hrun, Bool.not_true, Bool.false_eq_true, false_and,
      and_false] at hproceeds
  | resize o id =>
    cases hoffline
    rw [proceeds, Bool.and_eq_true] at hproceeds
    exact not_running_of_detached h hproceeds.1 (isRunning_iff.mp hrun)
  | snapshot o id =>
    cases hoffline
    exact not_running_of_detached h hproceeds (isRunning_iff.mp hrun)
  | clone ok globalFlags id newId newName full =>
    cases hoffline
    rw [(hop hproceeds).stopped d (mem_singleton_self _)] at hrun
    cases hrun
  | _ => cases hoffline

theorem step_exclusive (op : Op) (s : State) (h : Inv s) (hop : Checked op s) : Exclusive s op (step op s) := by
  refine ⟨?_, fun d => offline_refused h hop⟩
  intro d r hlock hr hholds
  refine ⟨?_, not_accesses h hop (mem_lockedDisks.mpr ⟨d, r, hlock, hr, hholds, rfl⟩)⟩
  rw [← Bool.not_eq_true, isRunning_iff]
  exact (step_inv op s h hop).stopped d (isLocked_step hlock hholds)

end Step

/-- In every interleaving in which snapshots, clones and removals of orphans find
the distribution free and no step reaches into a locked disk, disks have one user
at a time. -/
theorem run_exclusive {ops : List Op} {s : State} (hs : Inv s) (hops : Allowed step Checked ops s) :
    Along step Exclusive ops s :=
  along_of_step step_inv step_exclusive hs hops

def clearTest (op : Op) (s : State) : Prop :=
  (∀ id ∈ op.unchecked, s.isLocked id = false) ∧ (∀ id ∈ op.cloned, s.isRunning id = false) ∧
    (∀ o ∈ machineOp op, ∀ p ∈ clonedPaths o s.machine, DiskUnused s.machine.registry p) ∧
    (∀ o ∈ machineOp op, ∀ p ∈ clonedFiles o s.machine, p ∉ lockedDisks op s) ∧
    (∀ dir ∈ (accessed op s).directories, ∀ p ∈ lockedDisks op s, ¬ Path.Within dir p) ∧
    ∀ disk ∈ opened op s, (s.machine.files disk).bind File.parent = none

instance (op : Op) (s : State) : Decidable (clearTest op s) := inferInstanceAs (Decidable (_ ∧ _))

theorem clear_of_test {op : Op} {s : State} (h : clearTest op s) : Clear op s := by
  obtain ⟨hunlock, hstop, hpaths, hfiles, hdirectories, hlinks⟩ := h
  exact ⟨hunlock, hstop, hpaths, hfiles, hdirectories,
    fun disk hdisk _ _ => Operations.not_linkedTo (hlinks disk hdisk)⟩

def idle (machine : Machine) : State := { machine, locked := [], running := [], attached := [], removing := [] }

def twoDistributions : Machine :=
  (Clone.ubuntu.register 1
    { name := some "debian".toList, state := .installed, version := 2,
      basePath := ["c:".toList, "debian".toList], flags := Flags.defaults ||| Flags.vmMode,
      packageFamilyName := [], vhdFileName := "ext4.vhdx".toList }).putFile
    ["c:".toList, "debian".toList, "ext4.vhdx".toList] (some { data := 2, parent := none })

def keepsFiles (m : Machine) : Outcome :=
  { ok := fun _ => true, removes := fun _ => true, contents := m.files }

/-- One distribution runs while the other one is exported; then one is cloned and
the other one compacted. -/
def exportRun : List Op :=
  let o := keepsFiles twoDistributions
  [.start o 0 true, .beginExport 1, .work 1, .run o 0, .resize o 1, .move o 0 ["d:".toList], .complete 1,
    .terminate 0, .clone (fun _ => true) Flags.all 1 2 "copy".toList true, .beginCompact o 0, .compact o 0,
    .unregister o 2, .complete 0, .deleteKey 2]

theorem run_exclusive_export : Along step Exclusive exportRun (idle twoDistributions) := by
  have hops : Allowed step clearTest exportRun (idle twoDistributions) := by
    decide
  have hchecked : Allowed step Checked exportRun (idle twoDistributions) :=
    hops.imp fun op s h => (fun _ => clear_of_test h : Checked op s)
  have hdistinct : DisksDistinct twoDistributions.registry := by
    apply disksDistinct_of_entries
    decide
  exact run_exclusive ⟨hdistinct, nofun, nofun⟩ hchecked

/-- A distribution is cloned while it is exported. -/
theorem clone_reads_locked_disk :
    ¬ Along step Exclusive
      [.beginExport 0, .clone (fun _ => true) Flags.all 0 1 "copy".toList true] (idle Clone.ubuntu) := by
  rintro ⟨-, h, -⟩
  generalize hs : step (.beginExport 0) (idle Clone.ubuntu) = s at h
  have hlocked : s.isLocked 0 = true := by
    rw [← hs]
    rfl
  have hdisk : (s.machine.registry.lookup 0).map Registration.vhdFilePath =
      some ["c:".toList, "wsl".toList, "ext4.vhdx".toList] := by
    rw [← hs]
    rfl
  have haccess : proceeds (.clone (fun _ => true) Flags.all 0 1 "copy".toList true) s = true ∧
      (accessed (.clone (fun _ => true) Flags.all 0 1 "copy".toList true) s).covers
        ["c:".toList, "wsl".toList, "ext4.vhdx".toList] = true := by
    rw [← hs]
    decide
  obtain ⟨r, hr, hpath⟩ := map_eq_some_iff.mp hdisk
  apply (h.locked 0 r hlocked hr nofun).2
  rw [hpath]
  exact ⟨haccess.1, .inl haccess.2⟩

end WslPlus.Session.Locking

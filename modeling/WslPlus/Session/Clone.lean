import WslPlus.Lib.Procedure
import WslPlus.Session.Registry

/-!
# Cloning a distribution

CloneDistribution makes a disk next to that of the source and registers it under
the new name. It leaves the disk when the registration fails. When it succeeds
the registration is in the state Installing, in which _CreateInstance refuses
it, and the clone flag is masked out when the flags are read.
-/

namespace WslPlus.Session

/-- A file. A linked disk also names the disk that its other blocks are read from. -/
structure File where
  data : Nat
  parent : Option Path
deriving DecidableEq

abbrev Files := Path → Option File

structure Machine where
  registry : Registry
  files : Files

namespace Machine

def putFile (m : Machine) (path : Path) (disk : Option File) : Machine :=
  { m with files := fun p => if p = path then disk else m.files p }

def register (m : Machine) (id : Nat) (r : Registration) : Machine :=
  { m with registry := m.registry.insert id r }

@[simp] theorem register_registry (m : Machine) (id : Nat) (r : Registration) :
    (m.register id r).registry = m.registry.insert id r := rfl

theorem putFile_self {m : Machine} {path : Path} {disk : Option File} (h : m.files path = disk) :
    m.putFile path disk = m := by
  have hfiles : (fun p => if p = path then disk else m.files p) = m.files := by
    funext p
    by_cases hp : p = path
    · rw [if_pos hp, hp, h]
    · rw [if_neg hp]
  cases m
  exact congrArg _ hfiles

end Machine

namespace Clone

inductive Step where
  | userKey
  | openSource
  | createGuid
  | createDisk
  | createKey
  | writeState
  | writeName
  | writeVersion
  | writeBasePath
  | writeFlags
  | writeDefaultUid
  | writeRunOobe
  | writePackageFamilyName
  | writeVhdFileName

def diskName (newName : Name) : List Char := newName ++ ".vhdx".toList

def targetDisk (source : Configuration) (newName : Name) : Path :=
  Path.resolve (Path.parent source.vhdFilePath) (diskName newName)

def diskReady (full : Bool) (source target : Path) (m : Machine) : Bool :=
  (m.files source).isSome && (if full then source != target else m.files target == none)

def newDisk (full : Bool) (source : Path) (m : Machine) : Option File :=
  if full then m.files source else some { data := 0, parent := some source }

def makeDisk (full : Bool) (source target : Path) : Stage Step Machine :=
  { step := some .createDisk, ready := diskReady full source target,
    effect := fun m => m.putFile target (newDisk full source m), undo := id }

def newRegistration (source : Configuration) (newName : Name) : Registration :=
  .create (some newName) source.version (Path.parent source.vhdFilePath)
    (source.flags ||| Flags.wslplusClone) source.packageFamilyName (Path.filename (diskName newName))

/-- The steps of DistributionRegistration::Create before the last one. The key is
deleted when one of them fails. -/
def createSteps : List Step :=
  [.createKey, .writeState, .writeName, .writeVersion, .writeBasePath, .writeFlags, .writeDefaultUid,
    .writeRunOobe, .writePackageFamilyName]

def makeRegistration (source : Configuration) (newName : Name) (newId : Nat) : List (Stage Step Machine) :=
  createSteps.map .check ++
    [.act .writeVhdFileName fun m => m.register newId (newRegistration source newName)]

def openSteps : List Step := [.userKey, .openSource, .createGuid]

end Clone

open Clone

def cloneDistribution (ok : Step → Bool) (globalFlags : BitVec 32) (id newId : Nat) (newName : Name)
    (full : Bool) (m : Machine) : Bool × Machine :=
  match (m.registry.lookup id).bind (getDistributionConfiguration globalFlags id) with
  | none => (false, m)
  | some source =>
    runStages ok
      (openSteps.map .check ++
        (makeDisk full source.vhdFilePath (targetDisk source newName) ::
          makeRegistration source newName newId)) m

def messageFlagWslplusClone : BitVec 32 := 0x40#32

/-- _CreateInstance for a WSL2 distribution: the flags of the message with which
WslCoreVm::CreateInstance starts the guest, or nothing if it is refused. -/
def createInstance (globalFlags : BitVec 32) (id : Nat) (r : Registration) : Option (BitVec 32) :=
  match getDistributionConfiguration globalFlags id r with
  | none => none
  | some config =>
    if config.state ≠ .installed then none
    else if Flags.isSet config.flags Flags.vmMode then
      some (if Flags.isSet config.flags Flags.wslplusClone then messageFlagWslplusClone else 0#32)
    else none

/-- The clone is registered once, with the new disk, and starts as a clone. -/
structure Usable (globalFlags : BitVec 32) (newName : Name) (target : Path) (m m' : Machine) (newId : Nat)
    (r : Registration) : Prop where
  fresh : newId ∉ m.registry
  added : m'.registry = m.registry.insert newId r
  name : r.name = some newName
  disk : r.vhdFilePath = target ∧ (m'.files target).isSome
  starts : ∃ flags, createInstance globalFlags newId r = some flags ∧
    Flags.isSet flags messageFlagWslplusClone = true

def AllOrNothing (globalFlags : BitVec 32) (id newId : Nat) (newName : Name) (m : Machine)
    (r : Bool × Machine) : Prop :=
  if r.1 then
    ∃ source reg, (m.registry.lookup id).bind (getDistributionConfiguration globalFlags id) = some source ∧
      Usable globalFlags newName (targetDisk source newName) m r.2 newId reg
  else r.2 = m

namespace Clone

def diskMade (ok : Step → Bool) (full : Bool) (source target : Path) (m : Machine) : Bool :=
  openSteps.all ok && (diskReady full source target m && ok .createDisk)

def registrationMade (ok : Step → Bool) : Bool := createSteps.all ok && ok .writeVhdFileName

theorem run_makeRegistration (ok : Step → Bool) (source : Configuration) (newName : Name) (newId : Nat)
    (m : Machine) :
    runStages ok (makeRegistration source newName newId) m =
      if registrationMade ok then (true, m.register newId (newRegistration source newName))
      else (false, m) := by
  rw [makeRegistration, runStages_checks, runStages_act, runStages_nil, registrationMade]
  generalize createSteps.all ok = a
  cases a <;> cases ok .writeVhdFileName <;> rfl

theorem run_clone (ok : Step → Bool) (full : Bool) (source : Configuration) (newName : Name) (newId : Nat)
    (m : Machine) :
    runStages ok (openSteps.map .check ++ (makeDisk full source.vhdFilePath (targetDisk source newName) ::
          makeRegistration source newName newId)) m =
      if diskMade ok full source.vhdFilePath (targetDisk source newName) m then
        if registrationMade ok then
          (true, (m.putFile (targetDisk source newName) (newDisk full source.vhdFilePath m)).register newId
            (newRegistration source newName))
        else (false, m.putFile (targetDisk source newName) (newDisk full source.vhdFilePath m))
      else (false, m) := by
  rw [runStages_checks, diskMade]
  cases openSteps.all ok with
  | false => rfl
  | true =>
    simp only [if_true, Bool.true_and, runStages, Stage.succeeds, makeDisk, Option.all_some,
      run_makeRegistration]
    rfl

theorem createInstance_of_not_installed {globalFlags : BitVec 32} {id : Nat} {r : Registration}
    (h : r.state ≠ .installed) : createInstance globalFlags id r = none := by
  unfold createInstance
  cases hconfig : getDistributionConfiguration globalFlags id r with
  | none => rfl
  | some config =>
    obtain ⟨name, -, rfl⟩ := Option.map_eq_some_iff.mp hconfig
    simp only [ne_eq, h, not_false_eq_true, if_true]

theorem usable_installed {globalFlags : BitVec 32} {newName : Name} {target : Path} {m m' : Machine}
    {newId : Nat} {r : Registration} (h : Usable globalFlags newName target m m' newId r) :
    (m'.registry.lookup newId).map Registration.state = some .installed := by
  obtain ⟨flags, hstart, -⟩ := h.starts
  rw [h.added, AList.lookup_insert, Option.map_some]
  by_contra hstate
  rw [createInstance_of_not_installed (fun h => hstate (congrArg some h))] at hstart
  cases hstart

end Clone

/-- A clone is all or nothing exactly when its disk is not made, or the
registration fails after a copy that finds the same file in its place. -/
theorem cloneDistribution_allOrNothing_iff (ok : Clone.Step → Bool) (globalFlags : BitVec 32)
    (id newId : Nat) (newName : Name) (full : Bool) (m : Machine) :
    AllOrNothing globalFlags id newId newName m (cloneDistribution ok globalFlags id newId newName full m) ↔
      ∀ source, (m.registry.lookup id).bind (getDistributionConfiguration globalFlags id) = some source →
        diskMade ok full source.vhdFilePath (targetDisk source newName) m = true →
          registrationMade ok = false ∧
            m.files (targetDisk source newName) = newDisk full source.vhdFilePath m := by
  rw [cloneDistribution]
  cases hsource : (m.registry.lookup id).bind (getDistributionConfiguration globalFlags id) with
  | none => simp [AllOrNothing]
  | some source =>
    simp only [Option.some.injEq, forall_eq', run_clone]
    cases hdisk : diskMade ok full source.vhdFilePath (targetDisk source newName) m with
    | false => simp [AllOrNothing]
    | true =>
      cases hreg : registrationMade ok with
      | true =>
        simp only [AllOrNothing, if_true, true_imp_iff, Bool.true_eq_false, false_and, iff_false,
          not_exists, not_and]
        intro source' reg _ husable
        have hstate := usable_installed husable
        rw [Machine.register_registry, AList.lookup_insert] at hstate
        cases hstate
      | false =>
        simp only [AllOrNothing, if_true, Bool.false_eq_true, if_false, true_imp_iff, true_and]
        constructor
        · intro h
          have hfiles := congrFun (congrArg Machine.files h) (targetDisk source newName)
          rw [← hfiles]
          exact (if_pos rfl)
        · exact Machine.putFile_self

theorem cloneDistribution_cases (ok : Clone.Step → Bool) (globalFlags : BitVec 32) (id newId : Nat)
    (newName : Name) (full : Bool) (m : Machine) :
    (cloneDistribution ok globalFlags id newId newName full m).2 = m ∨
      ∃ source, (m.registry.lookup id).bind (getDistributionConfiguration globalFlags id) = some source ∧
        diskReady full source.vhdFilePath (targetDisk source newName) m = true ∧
        ((cloneDistribution ok globalFlags id newId newName full m).2 =
            m.putFile (targetDisk source newName) (newDisk full source.vhdFilePath m) ∨
          (cloneDistribution ok globalFlags id newId newName full m).2 =
            (m.putFile (targetDisk source newName) (newDisk full source.vhdFilePath m)).register newId
              (newRegistration source newName)) := by
  unfold cloneDistribution
  cases (m.registry.lookup id).bind (getDistributionConfiguration globalFlags id) with
  | none => exact .inl rfl
  | some source =>
    simp only [run_clone]
    cases hdisk : diskMade ok full source.vhdFilePath (targetDisk source newName) m with
    | false => exact .inl rfl
    | true =>
      simp only [diskMade, Bool.and_eq_true] at hdisk
      refine .inr ⟨source, rfl, hdisk.2.1, ?_⟩
      cases registrationMade ok with
      | false => exact .inl rfl
      | true => exact .inr rfl

def Clone.ubuntu : Machine :=
  { registry :=
      AList.singleton 0
        { name := some "ubuntu".toList, state := .installed, version := 2,
          basePath := ["c:".toList, "wsl".toList], flags := Flags.defaults ||| Flags.vmMode,
          packageFamilyName := [], vhdFileName := "ext4.vhdx".toList }
    files := fun p =>
      if p = ["c:".toList, "wsl".toList, "ext4.vhdx".toList] then some { data := 1, parent := none }
      else none }

/-- A clone that succeeds cannot be started. -/
theorem cloneDistribution_not_startable :
    ¬ AllOrNothing Flags.all 0 1 "copy".toList Clone.ubuntu
      (cloneDistribution (fun _ => true) Flags.all 0 1 "copy".toList true Clone.ubuntu) := by
  have hsuccess : (cloneDistribution (fun _ => true) Flags.all 0 1 "copy".toList true Clone.ubuntu).1 = true := by
    rfl
  rw [AllOrNothing, if_pos hsuccess]
  rintro ⟨source, reg, -, husable⟩
  have hstate := usable_installed husable
  revert hstate
  decide

end WslPlus.Session

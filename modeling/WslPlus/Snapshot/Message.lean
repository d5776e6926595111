import WslPlus.Snapshot.Command

/-!
# Snapshot requests

A request goes from the service, which attaches the disk of the distribution,
to the init process of the utility VM, which runs the command. The message
carries the LUN of the disk. The command names paths only, and the disk is not
mounted, so no path of the command leads to it.
-/

namespace WslPlus.Snapshot

open Shell

/-- A file system in the utility VM: one of its own or the one on a disk. -/
inductive FileSystem where
  | system (n : Nat)
  | disk (vhd : List Char)

/-- The attached disks with their LUNs and the file system that a path leads to
in the init process. Only an attached disk can be mounted. -/
structure Vm where
  attachedDisks : List (List Char × Nat)
  resolve : List Char → FileSystem
  resolve_attached : ∀ path vhd, resolve path = .disk vhd → vhd ∈ attachedDisks.map Prod.fst

def maxVhdCount : Nat := 254

namespace Vm

def isVhdAttached (vm : Vm) (vhd : List Char) : Bool := (vm.attachedDisks.map Prod.fst).contains vhd

def reserveLun (vm : Vm) : Option Nat :=
  (List.range maxVhdCount).find? fun lun => !(vm.attachedDisks.map Prod.snd).contains lun

def attachDisk (vm : Vm) (vhd : List Char) (lun : Nat) : Vm where
  attachedDisks := (vhd, lun) :: vm.attachedDisks
  resolve := vm.resolve
  resolve_attached := fun path vhd' h => List.mem_cons_of_mem _ (vm.resolve_attached path vhd' h)

end Vm

/-- LX_MINI_INIT_SNAPSHOT_MESSAGE. -/
structure Message where
  scsiLun : Nat
  action : List Char
  name : List Char

inductive Error where
  | wsl2Needed
  | distroNotStopped
  | tooManyDisksAttached
  | einval
deriving DecidableEq

def defaultSnapshotName (pid : Nat) : List Char := "auto-".toList ++ (toString pid).toList

def processSnapshotMessage (pid : Nat) (message : Message) : Except Error (List Char) :=
  let snapAction := parseAction message.action
  if snapAction = .unknown then .error .einval
  else
    let snapName := if message.name.isEmpty then defaultSnapshotName pid else message.name
    let commandLine := buildCommand snapAction snapName
    if commandLine.isEmpty then .error .einval else .ok commandLine

structure Distribution where
  vmMode : Bool
  vhdFilePath : List Char

def sendSnapshot (vm : Vm) (d : Distribution) (action name : List Char) : Except Error (Vm × Message) :=
  if d.vmMode = false then .error .wsl2Needed
  else if vm.isVhdAttached d.vhdFilePath then .error .distroNotStopped
  else
    match vm.reserveLun with
    | none => .error .tooManyDisksAttached
    | some lun =>
      .ok (vm.attachDisk d.vhdFilePath lun, { scsiLun := lun, action := action, name := name })

def snapshotDistribution (vm : Vm) (d : Distribution) (pid : Nat) (action name : List Char) :
    Except Error (Vm × List Char) := do
  let (vm, message) ← sendSnapshot vm d action name
  let commandLine ← processSnapshotMessage pid message
  return (vm, commandLine)

def pathArguments : List (List Item) → List (List Item)
  | [] => []
  | program :: args =>
    if program = literal kBtrfsPath then args.filter fun w => w.head? == some (.char '/') else []

/-- The paths of a command line lead to the file system on the disk and to no
other. A text that the shell does not accept acts on nothing. -/
def ActsOn (vm : Vm) (vhd : List Char) (commandLine : List Char) : Prop :=
  ∃ items, lex commandLine = some items ∧
    (commands items).flatMap pathArguments ≠ [] ∧
    ∀ w ∈ (commands items).flatMap pathArguments, ∃ path, w = literal path ∧ vm.resolve path = .disk vhd

/-- A request that is not refused acts on the distribution's file system and on
no other one. -/
def ActsOnTarget (vm : Vm) (d : Distribution) (pid : Nat) (action name : List Char) : Prop :=
  ∀ vm' commandLine, snapshotDistribution vm d pid action name = .ok (vm', commandLine) →
    ActsOn vm' d.vhdFilePath commandLine

theorem processSnapshotMessage_eq_ok {pid : Nat} {message : Message} {commandLine : List Char} :
    processSnapshotMessage pid message = .ok commandLine ↔
      parseAction message.action ≠ .unknown ∧
        commandLine = buildCommand (parseAction message.action)
          (if message.name.isEmpty then defaultSnapshotName pid else message.name) := by
  have hne : ∀ action name, action ≠ Action.unknown → (buildCommand action name).isEmpty = false := by
    intro action name haction
    cases action with
    | unknown => exact absurd rfl haction
    | create | list | delete | restore => rfl
  unfold processSnapshotMessage
  by_cases h : parseAction message.action = .unknown
  · simp only [h, if_true, reduceCtorEq, ne_eq, not_true_eq_false, false_and]
  · simp only [hne _ _ h, Bool.false_eq_true, if_false, Except.ok.injEq, ne_eq, h,
      not_false_eq_true, true_and]
    exact eq_comm

theorem sendSnapshot_eq_ok {vm vm' : Vm} {d : Distribution} {action name : List Char} {message : Message} :
    sendSnapshot vm d action name = .ok (vm', message) ↔
      d.vmMode = true ∧ vm.isVhdAttached d.vhdFilePath = false ∧
        ∃ lun, vm.reserveLun = some lun ∧ vm' = vm.attachDisk d.vhdFilePath lun ∧
          message = { scsiLun := lun, action := action, name := name } := by
  unfold sendSnapshot
  cases hm : d.vmMode with
  | false => simp
  | true =>
    cases ha : vm.isVhdAttached d.vhdFilePath with
    | true => simp
    | false =>
      cases hl : vm.reserveLun with
      | none => simp
      | some lun => simp [eq_comm]

theorem snapshotDistribution_eq_ok {vm vm' : Vm} {d : Distribution} {pid : Nat}
    {action name commandLine : List Char} :
    snapshotDistribution vm d pid action name = .ok (vm', commandLine) ↔
      ∃ message, sendSnapshot vm d action name = .ok (vm', message) ∧
        processSnapshotMessage pid message = .ok commandLine := by
  unfold snapshotDistribution
  cases hs : sendSnapshot vm d action name with
  | error e => simp [bind, Except.bind]
  | ok sent =>
    obtain ⟨vm₁, message⟩ := sent
    cases hp : processSnapshotMessage pid message with
    | error e =>
      simp only [bind, Except.bind, hp, reduceCtorEq, Except.ok.injEq, Prod.mk.injEq, false_iff,
        not_exists, not_and]
      rintro m ⟨-, rfl⟩
      simp [hp]
    | ok line =>
      simp only [bind, Except.bind, hp, pure, Except.pure, Except.ok.injEq, Prod.mk.injEq]
      constructor
      · rintro ⟨rfl, rfl⟩
        exact ⟨message, ⟨rfl, rfl⟩, hp⟩
      · rintro ⟨m, ⟨rfl, rfl⟩, hm⟩
        rw [hp] at hm
        exact ⟨rfl, Except.ok.inj hm⟩

theorem resolve_ne_of_not_attached {vm : Vm} {vhd : List Char} (h : vm.isVhdAttached vhd = false)
    (path : List Char) : vm.resolve path ≠ .disk vhd := by
  intro hpath
  have hmem := vm.resolve_attached path vhd hpath
  rw [Vm.isVhdAttached, ← Bool.not_eq_true, List.contains_iff_mem] at h
  exact h hmem

theorem not_actsOn {vm : Vm} {vhd : List Char} (h : vm.isVhdAttached vhd = false) (lun : Nat)
    (commandLine : List Char) : ¬ ActsOn (vm.attachDisk vhd lun) vhd commandLine := by
  rintro ⟨items, -, hne, hall⟩
  obtain ⟨w, hw⟩ := List.exists_mem_of_ne_nil _ hne
  obtain ⟨path, -, hpath⟩ := hall w hw
  exact resolve_ne_of_not_attached h path hpath

/-- A request acts on the file system of its distribution only when it is
refused: by the service, before the disk is attached, or by the init process,
for an action that it does not know. -/
theorem snapshotDistribution_actsOnTarget_iff (vm : Vm) (d : Distribution) (pid : Nat)
    (action name : List Char) :
    ActsOnTarget vm d pid action name ↔
      d.vmMode = false ∨ vm.isVhdAttached d.vhdFilePath = true ∨ vm.reserveLun = none ∨
        parseAction action = .unknown := by
  constructor
  · intro hacts
    by_contra hnot
    simp only [not_or, Bool.not_eq_false, Bool.not_eq_true] at hnot
    obtain ⟨hmode, hatt, hlun, haction⟩ := hnot
    obtain ⟨lun, hlun⟩ := Option.ne_none_iff_exists'.mp hlun
    have hok : ∃ line, snapshotDistribution vm d pid action name =
        .ok (vm.attachDisk d.vhdFilePath lun, line) :=
      ⟨_, snapshotDistribution_eq_ok.mpr ⟨{ scsiLun := lun, action := action, name := name },
        sendSnapshot_eq_ok.mpr ⟨hmode, hatt, lun, hlun, rfl, rfl⟩,
        processSnapshotMessage_eq_ok.mpr ⟨haction, rfl⟩⟩⟩
    obtain ⟨line, hok⟩ := hok
    exact not_actsOn hatt lun line (hacts _ _ hok)
  · intro hrefused vm' commandLine hok
    obtain ⟨message, hsend, hmessage⟩ := snapshotDistribution_eq_ok.mp hok
    obtain ⟨hmode, hatt, lun, hlun, -, rfl⟩ := sendSnapshot_eq_ok.mp hsend
    have haction := (processSnapshotMessage_eq_ok.mp hmessage).1
    rcases hrefused with h | h | h | h
    · rw [hmode] at h
      cases h
    · rw [hatt] at h
      cases h
    · rw [hlun] at h
      cases h
    · exact absurd h haction

def emptyVm : Vm := { attachedDisks := [], resolve := fun _ => .system 0, resolve_attached := nofun }

/-- Creating a snapshot of a stopped distribution makes it in the VM's own file system. -/
theorem snapshotDistribution_misses_target :
    ¬ ActsOnTarget emptyVm { vmMode := true, vhdFilePath := "C:\\d\\ext4.vhdx".toList } 1
      "create".toList "a".toList := by
  intro h
  have hsend : sendSnapshot emptyVm { vmMode := true, vhdFilePath := "C:\\d\\ext4.vhdx".toList }
      "create".toList "a".toList =
        .ok (emptyVm.attachDisk "C:\\d\\ext4.vhdx".toList 0,
          { scsiLun := 0, action := "create".toList, name := "a".toList }) := by
    rfl
  have hmessage : processSnapshotMessage 1
      { scsiLun := 0, action := "create".toList, name := "a".toList } =
        .ok "/usr/bin/btrfs subvolume snapshot / '/@snap-a'".toList := by
    decide
  obtain ⟨items, -, hne, hall⟩ := h _ _ (snapshotDistribution_eq_ok.mpr ⟨_, hsend, hmessage⟩)
  obtain ⟨w, hw⟩ := List.exists_mem_of_ne_nil _ hne
  obtain ⟨path, -, hpath⟩ := hall w hw
  cases hpath

end WslPlus.Snapshot

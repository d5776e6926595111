import WslPlus.Session.Clone
import WslPlus.Session.SetVersion

/-!
# Operations on distributions

What each operation of the session does to the registrations and to the files.
Every step of an operation may fail; which ones do, which deletions succeed and
what guests and relays leave in the files that they write is given with the
operation. A directory is a file like its contents.
-/

namespace WslPlus.Session

def rootfsName : Name := "rootfs".toList

/-- Everything that LXSS_DELETE_DISTRO_FLAGS_ROOTFS deletes in a base path. -/
def rootfsNames : List Name := [rootfsName, "temp".toList, "fsserver".toList]

def iconName : Name := "shortcut.ico".toList

def legacyNames : List Name := ["mnt", "cache", "data", "root", "home"].map String.toList

namespace Registration

def form (r : Registration) : Form := .named r.flags

def rootfsPath (r : Registration) : Path := r.basePath ++ [rootfsName]

def formPath (r : Registration) : Form → Path
  | .vhd => r.vhdFilePath
  | .rootfs => r.rootfsPath

end Registration

/-- Single files, and directories with all that is in them. -/
structure Area where
  files : List Path
  directories : List Path

namespace Area

def covers (a : Area) (p : Path) : Bool :=
  a.files.contains p || a.directories.any fun d => decide (Path.Within d p)

def union (a b : Area) : Area :=
  { files := a.files ++ b.files, directories := a.directories ++ b.directories }

def ofFiles (files : List Path) : Area := { files, directories := [] }

def entries (base : Path) (names : List Name) : Area :=
  { files := [], directories := names.map fun n => base ++ [n] }

end Area

namespace Registration

def disk (r : Registration) : Area := .ofFiles [r.vhdFilePath]

def rootfs (r : Registration) : Area := .entries r.basePath rootfsNames

def icon (r : Registration) : Area := .entries r.basePath [iconName]

def formArea (r : Registration) : Form → Area
  | .vhd => r.disk
  | .rootfs => r.rootfs

end Registration

namespace Machine

def write (m : Machine) (area : Area) (contents : Files) : Machine :=
  { m with files := fun p => if area.covers p then contents p else m.files p }

def remove (m : Machine) (area : Area) (removes : Path → Bool) : Machine :=
  { m with files := fun p => if area.covers p && removes p then none else m.files p }

def deleteKey (m : Machine) (id : Nat) : Machine := { m with registry := m.registry.erase id }

end Machine

namespace Operations

/-- The steps that can fail. The first one stands for all that an operation does
before it changes something. -/
inductive Step where
  | begin
  | createKey
  | createDisk
  | createDirectory
  | initRootFs
  | attach
  | fill
  | deleteKey
  | moveDisk
  | writeBasePath
  | writeVhdFileName
  | moveBack
  | restoreBasePath
  | writeState
  | enumerate
deriving DecidableEq

structure Outcome where
  ok : Step → Bool
  removes : Path → Bool
  contents : Files

/-- The flags of _DeleteDistributionLockHeld that delete files of a base path. -/
structure DeleteFlags where
  rootfs : Bool
  vhd : Bool
  shortcuts : Bool

def DeleteFlags.all : DeleteFlags := { rootfs := true, vhd := true, shortcuts := true }

def DeleteFlags.form : Form → DeleteFlags
  | .vhd => { rootfs := false, vhd := true, shortcuts := false }
  | .rootfs => { rootfs := true, vhd := false, shortcuts := false }

def deleteArea (flags : DeleteFlags) (r : Registration) : Area :=
  ((if flags.vhd then r.disk else .ofFiles []).union (if flags.rootfs then r.rootfs else .ofFiles [])).union
    (if flags.shortcuts then r.icon else .ofFiles [])

def deleteDistribution (o : Outcome) (flags : DeleteFlags) (r : Registration) (m : Machine) : Machine :=
  m.remove (deleteArea flags r) o.removes

def cleanupKey (o : Outcome) (id : Nat) (m : Machine) : Machine :=
  if o.ok .deleteKey then m.deleteKey id else m

def newRootfs (r : Registration) : Area := .entries r.basePath [rootfsName]

/-- Whether a new storage form is created, and what there is of it. Both kinds
are only created where nothing is. -/
def createForm (o : Outcome) (r : Registration) (m : Machine) : Bool × Machine :=
  match r.form with
  | .vhd =>
    if (m.files r.vhdFilePath).isNone && o.ok .createDisk then (true, m.write r.disk o.contents)
    else (false, m)
  | .rootfs =>
    if (m.files r.rootfsPath).isNone && o.ok .createDirectory then
      if o.ok .initRootFs then (true, m.write (newRootfs r) o.contents)
      else (false, (m.write (newRootfs r) o.contents).remove (newRootfs r) o.removes)
    else (false, m)

def importArea (r : Registration) : Area := (r.formArea r.form).union r.icon

def nameAccepted (registry : Registry) (id : Nat) (name guestName : Option Name) : Bool :=
  name.isSome ||
    guestName.all fun n => decide (ValidName n) && notInUse registry none (some n) (some id)

def newDistribution (name : Option Name) (path : Path) (vmMode : Bool) (packageFamilyName : List Char)
    (vhdName : Name) : Registration :=
  .create name distroVersionCurrent path (if vmMode then Flags.defaults ||| Flags.vmMode else Flags.defaults)
    packageFamilyName vhdName

def registerDistribution (o : Outcome) (id : Nat) (name guestName : Option Name) (path : Path)
    (vmMode : Bool) (packageFamilyName : List Char) (vhdName : Name) (m : Machine) : Machine :=
  if o.ok .begin ∧ (name.all fun n => decide (ValidName n)) ∧
      notInUse m.registry (some path) name none ∧ id ∉ m.registry ∧ o.ok .createKey then
    let r := newDistribution name path vmMode packageFamilyName vhdName
    let created := createForm o r (m.register id r)
    if created.1 then
      let filled := created.2.write (importArea r) o.contents
      if o.ok .fill && nameAccepted filled.registry id name guestName then
        filled.register id { r with name := name <|> guestName, state := .installed }
      else cleanupKey o id (deleteDistribution o (.form r.form) r filled)
    else cleanupKey o id created.2
  else m

def isVhdFile (file : Name) : Bool :=
  Path.lower (Path.extension file) == ".vhd".toList || Path.lower (Path.extension file) == ".vhdx".toList

def importedDistribution (name : Name) (directory : Path) (file : Name) : Registration :=
  .create (some name) distroVersionCurrent directory (Flags.defaults ||| Flags.vmMode) [] file

def importDistributionInplace (o : Outcome) (id : Nat) (name : Name) (directory : Path) (file : Name)
    (m : Machine) : Machine :=
  if o.ok .begin ∧ ValidName name ∧ isVhdFile file ∧ notInUse m.registry (some directory) (some name) none ∧
      id ∉ m.registry ∧ o.ok .createKey then
    let r := importedDistribution name directory file
    let created := m.register id r
    if (m.files r.vhdFilePath).isSome && o.ok .attach then
      let filled := created.write (importArea r) o.contents
      if o.ok .fill then filled.register id { r with state := .installed } else cleanupKey o id filled
    else cleanupKey o id created
  else m

def clone (ok : Clone.Step → Bool) (globalFlags : BitVec 32) (id newId : Nat) (newName : Name)
    (full : Bool) (m : Machine) : Machine :=
  if newId ∈ m.registry then m else (cloneDistribution ok globalFlags id newId newName full m).2

def withRegistration (id : Nat) (f : Registration → Machine → Machine) (m : Machine) : Machine :=
  match m.registry.lookup id with
  | none => m
  | some r => if r.name.isSome then f r m else m

def recordMove (o : Outcome) (id : Nat) (location : Path) (r : Registration) (disk : Option File)
    (m : Machine) : Machine :=
  let written := if o.ok .writeBasePath then m.register id { r with basePath := location } else m
  if o.ok .writeBasePath && o.ok .writeVhdFileName then written
  else if o.ok .moveBack then
    let back := (written.putFile r.vhdFilePath disk).putFile (location ++ [r.vhdFileName]) none
    if o.ok .restoreBasePath then back.register id r else back
  else written

def moveDistribution (o : Outcome) (id : Nat) (location : Path) : Machine → Machine :=
  withRegistration id fun r m =>
    let destPath := location ++ [r.vhdFileName]
    if o.ok .begin ∧ notInUse m.registry (some location) none none ∧ r.form = .vhd ∧ location ≠ [] ∧
        (m.files r.vhdFilePath).isSome ∧ (m.files destPath).isNone ∧ o.ok .moveDisk then
      recordMove o id location r (m.files r.vhdFilePath)
        ((m.putFile destPath (m.files r.vhdFilePath)).putFile r.vhdFilePath none)
    else m

def workOnDisk (o : Outcome) (accepts : Registration → Bool) (id : Nat) : Machine → Machine :=
  withRegistration id fun r m =>
    if o.ok .begin ∧ r.form = .vhd ∧ accepts r ∧ (m.files r.vhdFilePath).isSome then
      m.write r.disk o.contents
    else m

def resizeDistribution (o : Outcome) (id : Nat) : Machine → Machine := workOnDisk o (fun _ => true) id

def compactDistribution (o : Outcome) (id : Nat) : Machine → Machine :=
  workOnDisk o (fun r => Path.lower (Path.extension r.vhdFileName) != ".vhd".toList) id

def setSparse (o : Outcome) (sparse allowUnsafe : Bool) (id : Nat) : Machine → Machine :=
  workOnDisk o (fun _ => !sparse || allowUnsafe) id

def snapshotDistribution (o : Outcome) (id : Nat) : Machine → Machine := workOnDisk o (fun _ => true) id

def instanceArea (r : Registration) : Area :=
  match r.form with
  | .vhd => r.disk
  | .rootfs => if r.version = distroVersionLegacy then r.rootfs.union (.entries r.basePath legacyNames) else r.rootfs

def startDistribution (o : Outcome) (id : Nat) : Machine → Machine :=
  withRegistration id fun r m =>
    if o.ok .begin ∧ r.state = .installed ∧ (r.form = .vhd → (m.files r.vhdFilePath).isSome) then
      m.write (instanceArea r) o.contents
    else m

def storage (r : Registration) (m : Machine) (form : Form) : Option Contents :=
  if (m.files (r.formPath form)).isSome then some (if form = r.form then .complete else .stale) else none

/-- The files of a storage form after a conversion: they are gone, or hold what
the conversion has left in them. -/
def leaveForm (o : Outcome) (r : Registration) (form : Form) (contents : Option Contents) (m : Machine) :
    Machine :=
  match contents with
  | none => m.remove (r.formArea form) fun p => decide (Path.Within (r.formPath form) p) || o.removes p
  | some _ => m.write (r.formArea form) o.contents

def setVersionOn (o : Outcome) (outcomes : SetVersion.Outcomes) (version : Nat) (globalFlags : BitVec 32)
    (lxcoreInitialized : Bool) (id : Nat) : Machine → Machine :=
  withRegistration id fun r m =>
    let before : SetVersion.State := { registration := r, storage := storage r m, deleteFlags := [] }
    let result := (setVersion outcomes version globalFlags lxcoreInitialized id before).2
    if (getDistributionConfiguration globalFlags id r).any
        (SetVersion.accepted outcomes version · lxcoreInitialized) then
      (leaveForm o r .rootfs (result.storage .rootfs)
        (leaveForm o r .vhd (result.storage .vhd) m)).register id result.registration
    else m

def unregisterDistribution (o : Outcome) (id : Nat) : Machine → Machine :=
  withRegistration id fun r m =>
    if o.ok .begin then
      let marked := if o.ok .writeState then m.register id { r with state := .uninstalling } else m
      cleanupKey o id
        (if o.ok .writeState && o.ok .enumerate then deleteDistribution o .all r marked else marked)
    else m

/-- What _EnumerateDistributions does with an orphan: the package is gone and the
distribution's files are not found. -/
def removeOrphan (o : Outcome) (id : Nat) : Machine → Machine :=
  withRegistration id fun r m =>
    if o.ok .begin ∧ r.packageFamilyName ≠ [] ∧ (m.files (r.formPath r.form)).isNone then
      cleanupKey o id (deleteDistribution o .all r m)
    else m

inductive Op where
  | register (o : Outcome) (id : Nat) (name guestName : Option Name) (path : Path) (vmMode : Bool)
      (packageFamilyName : List Char) (vhdName : Name)
  | importInplace (o : Outcome) (id : Nat) (name : Name) (directory : Path) (file : Name)
  | clone (ok : Clone.Step → Bool) (globalFlags : BitVec 32) (id newId : Nat) (newName : Name) (full : Bool)
  | move (o : Outcome) (id : Nat) (location : Path)
  | setVersion (o : Outcome) (outcomes : SetVersion.Outcomes) (version : Nat) (globalFlags : BitVec 32)
      (lxcoreInitialized : Bool) (id : Nat)
  | resize (o : Outcome) (id : Nat)
  | compact (o : Outcome) (id : Nat)
  | setSparse (o : Outcome) (sparse allowUnsafe : Bool) (id : Nat)
  | snapshot (o : Outcome) (id : Nat)
  | start (o : Outcome) (id : Nat)
  | unregister (o : Outcome) (id : Nat)
  | removeOrphan (o : Outcome) (id : Nat)

def step : Op → Machine → Machine
  | .register o id name guestName path vmMode packageFamilyName vhdName =>
    registerDistribution o id name guestName path vmMode packageFamilyName vhdName
  | .importInplace o id name directory file => importDistributionInplace o id name directory file
  | .clone ok globalFlags id newId newName full => clone ok globalFlags id newId newName full
  | .move o id location => moveDistribution o id location
  | .setVersion o outcomes version globalFlags lxcoreInitialized id =>
    setVersionOn o outcomes version globalFlags lxcoreInitialized id
  | .resize o id => resizeDistribution o id
  | .compact o id => compactDistribution o id
  | .setSparse o sparse allowUnsafe id => setSparse o sparse allowUnsafe id
  | .snapshot o id => snapshotDistribution o id
  | .start o id => startDistribution o id
  | .unregister o id => unregisterDistribution o id
  | .removeOrphan o id => removeOrphan o id

def Op.target : Op → Nat
  | .register _ id .. | .importInplace _ id .. | .move _ id _ | .setVersion _ _ _ _ _ id | .resize _ id
  | .compact _ id | .setSparse _ _ _ id | .snapshot _ id | .start _ id | .unregister _ id
  | .removeOrphan _ id => id
  | .clone _ _ _ newId .. => newId

end Operations

end WslPlus.Session

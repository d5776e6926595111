import WslPlus.Lib.FileSystem

/-!
# The image library

A root file system is kept under the user's profile, in a directory that has the name of
the image, next to a manifest. The names come from the command line and are joined to the
path of the library as they are.
-/

namespace WslPlus.Images

open Program

structure ImageManifest where
  name : List Char
  description : List Char
  architecture : List Char
  baseVersion : List Char
  createdAtUtc : UInt32
deriving DecidableEq

/-- The document in a manifest file, by its keys. -/
structure YamlNode where
  name : Option (List Char)
  description : Option (List Char)
  architecture : Option (List Char)
  baseVersion : Option (List Char)
  createdAt : Option UInt32

/-- yaml-cpp, with files that hold values of `α`. -/
structure Yaml (α : Type) where
  emit : YamlNode → α
  load : α → Option YamlNode
  round_trip : ∀ node, load (emit node) = some node

def ImageManifest.node (m : ImageManifest) : YamlNode :=
  { name := some m.name, description := some m.description, architecture := some m.architecture,
    baseVersion := some m.baseVersion, createdAt := some m.createdAtUtc }

def ImageManifest.ofNode (node : YamlNode) : ImageManifest :=
  { name := node.name.getD [], description := node.description.getD [],
    architecture := node.architecture.getD "x64".toList, baseVersion := node.baseVersion.getD [],
    createdAtUtc := node.createdAt.getD 0 }

theorem ImageManifest.ofNode_node (m : ImageManifest) : ofNode m.node = m := rfl

def validate {σ : Type} (m : ImageManifest) : Program σ Failure Unit :=
  if m.name = [] ∨ m.architecture = [] then throw .invalidArgument
  else if m.createdAtUtc = 0 then throw .invalidArgument
  else pure ()

def rootfsFile : Name := "rootfs.tar.gz".toList

def manifestFile : Name := "manifest.yaml".toList

/-- What the library runs on: the volume, the profile directory of the user, the characters of the
narrow code page, and yaml-cpp. -/
structure Host (α : Type) where
  volume : Volume
  drive : Name
  profile : List Name
  profile_plain : ∀ name ∈ profile, PlainComponent name
  narrow : Char → Bool
  yaml : Yaml α
  files_differ : volume.fold rootfsFile ≠ volume.fold manifestFile

inductive ImportStep where
  | createDirectories
  | copyFile
  | openManifest

namespace Host

variable {α : Type} (h : Host α)

def imagesRoot : WindowsPath :=
  ((⟨some h.drive, true, h.profile⟩ : WindowsPath).join (.ofText ".wslplus".toList)).join
    (.ofText "images".toList)

def imagePath (name : List Char) : WindowsPath := h.imagesRoot.join (.ofText name)

def manifestPath (name : List Char) : WindowsPath := (h.imagePath name).join (.ofText manifestFile)

/-- `path::string`, which throws for a character that the narrow code page does not have. -/
def hasNarrow (p : WindowsPath) : Bool :=
  p.rootName.all (·.all h.narrow) && p.parts.all (·.all h.narrow)

def read (name : List Char) : Program (Disk α) Failure ImageManifest := do
  let path := h.volume.locate (h.manifestPath name)
  let d ← get
  match d.find h.volume path with
  | none => throw .fileNotFound
  | some e =>
    if h.hasNarrow (h.manifestPath name) then do
      modify fun d => { d with log := d.log ++ [Access.read (h.volume.key path)] }
      match e.node with
      | .directory => throw .yaml
      | .file content =>
        match h.yaml.load content with
        | none => throw .yaml
        | some node => pure (.ofNode node)
    else throw .conversion

/-- `Import`, with the time and the steps that the system refuses. -/
def importImage (fails : ImportStep → Bool) (now : UInt32) (tarPath name : List Char)
    (description : Option (List Char)) : Program (Disk α) Failure ImageManifest := do
  let tar := h.volume.locate (.ofText tarPath)
  let destDir := h.imagePath name
  let d ← get
  if !d.present h.volume tar then throw .invalidArgument
  else do
    when (fails .createDirectories) (throw .fileSystem)
    createDirectories h.volume (h.volume.locate destDir)
    when (fails .copyFile) (throw .fileSystem)
    copyFile h.volume tar (h.volume.locate (destDir.join (.ofText rootfsFile)))
    let manifest : ImageManifest :=
      { name := name, description := description.getD [], architecture := "x64".toList,
        baseVersion := [], createdAtUtc := now }
    validate manifest
    when (fails .openManifest) (throw .fileSystem)
    writeFile h.volume (h.volume.locate (h.manifestPath name)) (h.yaml.emit manifest.node)
    pure manifest

/-- `Remove`, which the system may refuse before anything is deleted. -/
def remove (denied : Bool) (name : List Char) : Program (Disk α) Failure Unit := do
  let dir := h.volume.locate (h.imagePath name)
  let d ← get
  if !d.present h.volume dir then throw .fileNotFound
  else do
    when denied (throw .fileSystem)
    removeAll h.volume dir

def collect : List (Entry α) → Program (Disk α) Failure (List ImageManifest)
  | [] => pure []
  | e :: es => do
    let d ← get
    if e.node.isDirectory && (d.find h.volume (h.volume.locate (h.manifestPath e.shown))).isSome then do
      let manifest ← attempt (h.read e.shown)
      let rest ← collect es
      pure (manifest.toList ++ rest)
    else collect es

def list : Program (Disk α) Failure (List ImageManifest) := do
  let root := h.volume.locate h.imagesRoot
  let d ← get
  match d.find h.volume root with
  | none => pure []
  | some ⟨_, .file _⟩ => throw .fileSystem
  | some ⟨_, .directory⟩ => h.collect (d.files.children (h.volume.key root))

end Host

inductive Call where
  | importImage (fails : ImportStep → Bool) (now : UInt32) (tarPath name : List Char)
      (description : Option (List Char))
  | read (name : List Char)
  | remove (denied : Bool) (name : List Char)

def Call.name : Call → Name
  | .importImage _ _ _ name _ => name
  | .read name => name
  | .remove _ name => name

/-- The disk, with the record of the last call, and the images that have been imported and not
removed since. -/
structure State (α : Type) where
  disk : Disk α
  library : Name → Option ImageManifest

def libraryAfter {β : Type} (library : Name → Option ImageManifest) (name : Name)
    (image : β → Option ImageManifest) : Except Failure β → Name → Option ImageManifest
  | .ok b => Function.update library name (image b)
  | .error _ => library

def Host.step {α : Type} (h : Host α) (c : Call) (s : State α) : State α :=
  let d : Disk α := { s.disk with log := [] }
  match c with
  | .importImage fails now tarPath name description =>
    let r := exec (h.importImage fails now tarPath name description) d
    ⟨r.2, libraryAfter s.library name some r.1⟩
  | .read name => ⟨(exec (h.read name) d).2, s.library⟩
  | .remove denied name =>
    let r := exec (h.remove denied name) d
    ⟨r.2, libraryAfter s.library name (fun _ => none) r.1⟩

end WslPlus.Images

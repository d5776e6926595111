import WslPlus.Lib.Segments
import WslPlus.Plan9.Kernel

/-!
# Files and extended attributes of a share

A file is named by its path from the root of the share. An operation that changes the
file returns it changed; an error that it returns is a `Failure.error`, except where the
file also changes on an error.
-/

namespace WslPlus.Plan9

open Program

/-- An attached root. Two attaches give two roots even for one user. -/
structure Root where
  id : Nat
  rootFd : Fd
  identity : Identity
deriving DecidableEq

/-- `DirectoryEnumerator`. -/
structure DirectoryEnumerator where
  dir : Dir
  lastOffset : UInt64
deriving DecidableEq

structure File where
  fileName : List Byte
  enumerator : Option DirectoryEnumerator
  file : Option Fd
  root : Root
  qid : Qid
  device : UInt64
deriving DecidableEq

inductive XattrAccess where
  | read
  | write
deriving DecidableEq

structure XAttr where
  root : Root
  fileName : List Byte
  name : List Byte
  value : List Byte
  access : XattrAccess
  flags : UInt32
deriving DecidableEq

inductive Fid where
  | file (f : File)
  | xattr (x : XAttr)
deriving DecidableEq

section Helpers

def hasFlag (flags flag : UInt32) : Bool := flags &&& flag == flag

namespace OpenFlags

def writeOnly : UInt32 := 0o1
def readWrite : UInt32 := 0o2
def noAccess : UInt32 := 0o3
def accessMask : UInt32 := 0o3
def create : UInt32 := 0o100
def exclusive : UInt32 := 0o200
def truncate : UInt32 := 0o1000
def directory : UInt32 := 0o200000

end OpenFlags

/-- `c_openFlagsMapping`. -/
def openFlagsMapping : List (UInt32 × LinuxFlag) :=
  [(OpenFlags.writeOnly, .wronly), (OpenFlags.readWrite, .rdwr), (OpenFlags.create, .creat),
    (OpenFlags.exclusive, .excl), (0o400, .noctty), (OpenFlags.truncate, .trunc), (0o2000, .append),
    (0o4000, .nonblock), (0o10000, .dsync), (0o20000, .async), (0o40000, .direct),
    (0o100000, .largefile), (OpenFlags.directory, .directory), (0o400000, .nofollow),
    (0o1000000, .noatime), (0o2000000, .cloexec), (0o4000000, .sync)]

def openFlagsToLinuxFlags (flags : UInt32) : List LinuxFlag :=
  (openFlagsMapping.filter fun m => hasFlag flags m.1).map Prod.snd

def modeToQidType (mode : UInt32) : QidType :=
  if mode &&& 0o170000 == 0o120000 then .symlink
  else if mode &&& 0o170000 == 0o040000 then .directory
  else .file

def statToQid (st : Stat) : Qid := ⟨st.ino, 0, modeToQidType st.mode⟩

def appendPath (base name : List Byte) : List Byte := Segments.append slash base name

/-- What `find_last_of('/')` leaves of a path. -/
def cutAtLastSlash (p : List Byte) : List Byte := Segments.cutAtLast slash p

variable {W : Type} (k : Kernel W)

def getFdPath (fd : Fd) : Sys W (List Byte) := orThrow (syscall k (.readlinkFd fd))

def reopen (fd : Fd) (flags : List LinuxFlag) : Sys W Fd := do
  if .nofollow ∈ flags then
    let path ← getFdPath k fd
    syscall k (.openPath (.fdPath fd path) (flags ++ [LinuxFlag.cloexec]))
  else
    syscall k (.openPath (.procFd fd) (flags ++ [LinuxFlag.cloexec]))

def openAt (dir : Fd) (name : List Byte) (flags : List LinuxFlag) (mode : UInt32) : Sys W Fd :=
  if name = [] then
    reopen k dir flags
  else
    syscall k (.openat (.root dir) (.name name) (flags ++ [LinuxFlag.cloexec]) mode)

def accessHelper (fd : Fd) (path : List Byte) (mode : UInt32) : Sys W Unit := do
  if path = [] then
    let fdPath ← getFdPath k fd
    syscall k (.faccessat (.root fd) (.fdPath fd fdPath) mode)
  else
    syscall k (.faccessat (.root fd) (.name path) mode)

def getFileQidByPath (fd : Fd) (path : List Byte) : Sys W Qid := do
  let st ← syscall k (.fstatat (.root fd) (.name path) [.symlinkNofollow, .emptyPath])
  return statToQid st

end Helpers

namespace File

variable {W : Type} (k : Kernel W)

def isOpen (f : File) : Bool := f.file.isSome || f.enumerator.isSome

def clone (f : File) : File := { f with enumerator := none, file := none }

def isOnRoot (f : File) (root : Root) : Bool := f.root == root

def childPath (f : File) (name : Component) : List Byte := appendPath f.fileName name.1

def stat (f : File) : Sys W Stat :=
  syscall k (.fstatat (.root f.root.rootFd) (.name f.fileName) [.symlinkNofollow, .emptyPath])

def validateExists (f : File) : Sys W File := do
  let st ← f.stat k
  return { f with qid := statToQid st, device := st.dev }

def initializeFile (root : Root) : Sys W File :=
  withUserContext k root.identity
    (validateExists k ⟨[], none, none, root, ⟨0, 0, .file⟩, 0⟩)

def openFile (f : File) (flags : List LinuxFlag) : Sys W Fd :=
  openAt k f.root.rootFd f.fileName (flags ++ [LinuxFlag.nofollow]) 0o600

/-- The mounts that `Walk` does not enter; a failed look at the mounts is only logged. -/
def checkMount (parentDevice device : UInt64) : Sys W Unit := do
  if parentDevice ≠ device then
    match ← attempt (syscall k (.findMount device)) with
    | .ok (some .drvfs) => throw (.error .acces)
    | .ok (some .p9) => throw (.error .acces)
    | .ok (some .virtiofs) => throw (.error .acces)
    | _ => return ()
  else
    return ()

/-- The scope guard of `Walk`: the name is cut at its last slash. -/
def restoreName (f : File) (oldQid : Qid) (oldDevice : UInt64) : File :=
  { f with qid := oldQid, device := oldDevice, fileName := cutAtLastSlash f.fileName }

def walk (f : File) (name : Component) : Sys W (Except Errno Qid × File) := do
  if f.qid.type ≠ .directory then
    return (.error .notdir, f)
  else
    let child := { f with fileName := appendPath f.fileName name.1 }
    let r ← attempt (withUserContext k f.root.identity do
      let found ← child.validateExists k
      checkMount k f.device found.device
      return found)
    match r with
    | .ok found => return (.ok found.qid, found)
    | .error e => return (.error e, child.restoreName f.qid f.device)

end File

namespace GetAttr

def mode : UInt64 := 0x1
def nlink : UInt64 := 0x2
def uid : UInt64 := 0x4
def gid : UInt64 := 0x8
def rdev : UInt64 := 0x10
def atime : UInt64 := 0x20
def mtime : UInt64 := 0x40
def ctime : UInt64 := 0x80
def ino : UInt64 := 0x100
def size : UInt64 := 0x200
def blocks : UInt64 := 0x400

def select (mask : UInt64) (st : Stat) : UInt64 × StatResult :=
  let wants (bit : UInt64) : Bool := mask &&& bit == bit
  (ino ||| ([mode, nlink, rdev, size, blocks, atime, mtime, ctime, uid, gid].filter wants).foldl
      (· ||| ·) 0,
    { mode := if wants mode then st.mode else 0
      uid := if wants uid then st.uid else 0
      gid := if wants gid then st.gid else 0
      nlink := if wants nlink then st.nlink else 0
      rdev := if wants rdev then st.rdev else 0
      size := if wants size then st.size else 0
      blockSize := if wants blocks then st.blksize else 0
      blocks := if wants blocks then st.blocks else 0
      atimeSec := if wants atime then st.atimeSec else 0
      atimeNsec := if wants atime then st.atimeNsec else 0
      mtimeSec := if wants mtime then st.mtimeSec else 0
      mtimeNsec := if wants mtime then st.mtimeNsec else 0
      ctimeSec := if wants ctime then st.ctimeSec else 0
      ctimeNsec := if wants ctime then st.ctimeNsec else 0 })

end GetAttr

namespace SetAttr

def mode : UInt32 := 0x1
def uid : UInt32 := 0x2
def gid : UInt32 := 0x4
def size : UInt32 := 0x8
def atime : UInt32 := 0x10
def mtime : UInt32 := 0x20
def ctime : UInt32 := 0x40
def atimeSet : UInt32 := 0x80
def mtimeSet : UInt32 := 0x100

end SetAttr

namespace File

variable {W : Type} (k : Kernel W)

def getAttr (f : File) (mask : UInt64) : Sys W (UInt64 × Qid × StatResult) :=
  withUserContext k f.root.identity do
    let st ← syscall k (.fstatat (.root f.root.rootFd) (.name f.fileName) [.symlinkNofollow, .emptyPath])
    let (valid, result) := GetAttr.select mask st
    return (valid, f.qid, result)

/-- The time that `SetAttr` passes on: the current one unless one is given. -/
def timeArg (valid which given : UInt32) (sec nsec : UInt64) : TimeArg :=
  if hasFlag valid which then
    if hasFlag valid given then .at sec nsec else .now
  else
    .omit

def setAttr (f : File) (valid : UInt32) (stat : StatResult) : Sys W Unit :=
  withUserContext k f.root.identity do
    let base := Base.root f.root.rootFd
    let fileName := PathArg.name f.fileName
    when (hasFlag valid SetAttr.size) do
      let file ← f.openFile k [.wronly]
      syscall k (.ftruncate file stat.size)
    when (hasFlag valid SetAttr.mode)
      (syscall k (.fchmodat base fileName stat.mode))
    when (hasFlag valid SetAttr.uid || hasFlag valid SetAttr.gid)
      (syscall k (.fchownat base fileName (if hasFlag valid SetAttr.uid then some stat.uid else none)
        (if hasFlag valid SetAttr.gid then some stat.gid else none)))
    when (hasFlag valid SetAttr.atime || hasFlag valid SetAttr.mtime)
      (syscall k (.utimensat base fileName
        (timeArg valid SetAttr.atime SetAttr.atimeSet stat.atimeSec stat.atimeNsec)
        (timeArg valid SetAttr.mtime SetAttr.mtimeSet stat.mtimeSec stat.mtimeNsec)))
    -- The other operations have updated the ctime already.
    when (hasFlag valid SetAttr.ctime && !(hasFlag valid SetAttr.size || hasFlag valid SetAttr.mode ||
        hasFlag valid SetAttr.uid || hasFlag valid SetAttr.gid || hasFlag valid SetAttr.atime ||
        hasFlag valid SetAttr.mtime))
      (syscall k (.fchownat base fileName none none))

/-- `Open`. -/
def lopen (f : File) (flags : UInt32) : Sys W (Qid × File) := do
  if f.isOpen then
    throw (.error .inval)
  else
    let flags := flags &&& ~~~OpenFlags.create
    let file ← withUserContext k f.root.identity
      (openAt k f.root.rootFd f.fileName (openFlagsToLinuxFlags flags ++ [LinuxFlag.nofollow]) 0o600)
    return (f.qid, { f with file := some file })

def create (f : File) (name : Component) (flags mode : UInt32) : Sys W (Qid × File) := do
  if f.isOpen then
    throw (.error .inval)
  else
    withUserContext k f.root.identity do
      let newFileName := f.childPath name
      let file ← openAt k f.root.rootFd newFileName
        (openFlagsToLinuxFlags flags ++ [LinuxFlag.creat, LinuxFlag.nofollow]) mode
      let st ← syscall k (.fstat file)
      return (statToQid st,
        { f with fileName := newFileName, file := some file, qid := statToQid st, device := st.dev })

def mkDir (f : File) (name : Component) (mode : UInt32) : Sys W Qid :=
  withUserContext k f.root.identity do
    let newFileName := f.childPath name
    syscall k (.mkdirat (.root f.root.rootFd) (.name newFileName) mode)
    getFileQidByPath k f.root.rootFd newFileName

def unlinkAt (f : File) (name : Component) (flags : UInt32) : Sys W Unit :=
  withUserContext k f.root.identity do
    syscall k (.unlinkat (.root f.root.rootFd) (.name (f.childPath name)) flags)

def remove (f : File) : Sys W Unit := do
  if f.fileName = [] then
    throw (.error .perm)
  else
    withUserContext k f.root.identity do
      syscall k (.unlinkat (.root f.root.rootFd) (.name f.fileName)
        (if f.qid.type = .directory then 0x200 else 0))

def sameRoot (f : File) (other : Fid) : Sys W File :=
  match other with
  | .file g => if g.isOnRoot f.root then return g else throw (.error .inval)
  | .xattr _ => throw (.error .inval)

def renameAt (f : File) (oldName : Component) (newParent : Fid) (newName : Component) : Sys W Unit := do
  let newParentFile ← f.sameRoot newParent
  withUserContext k f.root.identity do
    syscall k (.renameat (.root f.root.rootFd) (.name (f.childPath oldName))
      (.name (newParentFile.childPath newName)))

def rename (f : File) (newParent : Fid) (newName : Component) : Sys W File := do
  let newParentFile ← f.sameRoot newParent
  if f.fileName = [] then
    throw (.error .perm)
  else
    let newPath := newParentFile.childPath newName
    withUserContext k f.root.identity do
      syscall k (.renameat (.root f.root.rootFd) (.name f.fileName) (.name newPath))
    return { f with fileName := newPath }

def symLink (f : File) (name : Component) (target : Text) : Sys W Qid :=
  withUserContext k f.root.identity do
    let linkName := f.childPath name
    syscall k (.symlinkat target.1 (.root f.root.rootFd) (.name linkName))
    getFileQidByPath k f.root.rootFd linkName

def readLink (f : File) (size : Nat) : Sys W { t : List Byte // t.length ≤ size } :=
  withUserContext k f.root.identity do
    syscall k (.readlinkat (.root f.root.rootFd) (.name f.fileName) size)

def link (f : File) (newName : Component) (target : Fid) : Sys W Unit := do
  let targetFile ← f.sameRoot target
  withUserContext k f.root.identity do
    syscall k (.linkat (.root f.root.rootFd) (.name targetFile.fileName) (.name (f.childPath newName)))

def mkNod (f : File) (name : Component) (mode major minor : UInt32) : Sys W Qid :=
  withUserContext k f.root.identity do
    let path := f.childPath name
    syscall k (.mknodat (.root f.root.rootFd) (.name path) mode major minor)
    getFileQidByPath k f.root.rootFd path

def fsync (f : File) : Sys W Unit :=
  match f.file with
  | some fd => syscall k (.fsync fd)
  | none => throw (.error .inval)

def statFs (f : File) : Sys W StatFs := do
  let file ← f.openFile k [.path]
  withUserContext k f.root.identity do
    syscall k (.fstatfs file)

def read (f : File) (offset : UInt64) (count : Nat) : Sys W { d : List Byte // d.length ≤ count } := do
  match f.file with
  | none => throw (.error .badf)
  | some fd =>
    match ← attempt (syscall k (.read fd offset count)) with
    | .ok d => return d
    | .error e => if e = .overflow then return ⟨[], Nat.zero_le _⟩ else throw (.error e)

def write (f : File) (offset : UInt64) (data : List Byte) : Sys W UInt32 :=
  match f.file with
  | none => throw (.error .badf)
  | some fd => syscall k (.write fd offset data)

def xattrPath (f : File) : Sys W (List Byte) := do
  let path ← getFdPath k f.root.rootFd
  return appendPath path f.fileName

def xattrWalk (f : File) (name : Text) : Sys W XAttr := do
  let path ← f.xattrPath k
  return ⟨f.root, path, name.1, [], .read, 0⟩

def xattrCreate (f : File) (name : Text) (size : UInt64) (flags : UInt32) : Sys W XAttr := do
  if f.isOpen then
    throw (.error .inval)
  else
    let path ← f.xattrPath k
    orThrow (syscall k (.allocate size.toNat))
    return ⟨f.root, path, name.1, List.replicate size.toNat 0, .write, flags⟩

namespace AccessFlags

def write : UInt32 := 2
def delete : UInt32 := 8

end AccessFlags

def stickyCheck (f : File) (parent : Stat) : Sys W Unit := do
  let capable ← attempt (syscall k .capget)
  match capable with
  | .ok true => return ()
  | .error e => if e = .perm then checkOwner else throw (.error e)
  | .ok false => checkOwner
where
  checkOwner : Sys W Unit := do
    let uid ← geteuid k
    if uid = parent.uid then
      return ()
    else
      let st : Stat ← syscall k (.fstatat (.root f.root.rootFd) (.name f.fileName) [.emptyPath])
      if uid = st.uid then return () else throw (.error .acces)

def access (f : File) (flags : UInt32) : Sys W Unit :=
  withUserContext k f.root.identity do
    accessHelper k f.root.rootFd f.fileName (flags &&& ~~~AccessFlags.delete)
    if hasFlag flags AccessFlags.delete then
      if f.fileName = [] then
        throw (.error .acces)
      else
        let parentPath := cutAtLastSlash f.fileName
        accessHelper k f.root.rootFd parentPath AccessFlags.write
        let st ← syscall k (.fstatat (.root f.root.rootFd) (.name parentPath) [.emptyPath])
        when (hasFlag st.mode 0o1000) (f.stickyCheck k st)
    else
      return ()

end File

namespace XAttr

variable {W : Type} (k : Kernel W)

def getValue (x : XAttr) (size : Nat) : Sys W (XattrAnswer size) :=
  withUserContext k x.root.identity do
    if x.name ≠ [] then
      syscall k (.lgetxattr x.fileName x.name size)
    else
      syscall k (.llistxattr x.fileName size)

def getSize (x : XAttr) : Sys W Nat := do
  let r ← x.getValue k 0
  return r.count

def read (x : XAttr) (offset : UInt64) (count : Nat) : Sys W (XattrAnswer count) :=
  if x.access ≠ .read ∨ offset ≠ 0 then
    throw (.error .inval)
  else
    x.getValue k count

/-- `Write` copies what fits behind the offset. -/
def write (x : XAttr) (offset : UInt64) (data : List Byte) : Sys W (UInt32 × XAttr) :=
  if x.access ≠ .write then
    throw (.error .inval)
  else if x.value.length < offset.toNat then
    return (0, x)
  else
    let length := min data.length (x.value.length - offset.toNat)
    return (UInt32.ofNat length,
      { x with value := x.value.take offset.toNat ++ data.take length ++
          x.value.drop (offset.toNat + length) })

def clunk (x : XAttr) : Sys W Unit :=
  if x.access ≠ .write then
    return ()
  else if x.value.length = 0 then
    syscall k (.lremovexattr x.fileName x.name)
  else
    syscall k (.lsetxattr x.fileName x.name x.value x.flags)

end XAttr

end WslPlus.Plan9

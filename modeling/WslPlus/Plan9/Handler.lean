import WslPlus.Plan9.ReadDir

/-!
# The message handlers of the Plan 9 server

A handler reads the body of a request, works on the fids of the connection and writes
the response. A returned error and a thrown one end the request alike, so both stop the
handler.
-/

namespace WslPlus.Plan9

open Program

/-- A request in progress, which a flush may wait for. -/
structure RequestInfo where
  tag : UInt16
  cancelled : Bool
deriving DecidableEq

structure Environment (W : Type) where
  kernel : Kernel W
  shares : List Byte → Option Fd
  serverUid : UInt32
  userGroupId : UInt32 → Option UInt32
  nobodyGroupId : Option UInt32
  groupList : UInt32 → UInt32 → List UInt32

/-- A connection. Requests are those of other messages in progress. -/
structure Session (W : Type) where
  machine : Machine W
  fids : UInt32 → Option Fid
  negotiatedSize : UInt32
  negotiated : Bool
  allowRenegotiate : Bool
  use9P2000W : Bool
  requests : List RequestInfo
  nextRoot : Nat

structure Exchange (W : Type) where
  session : Session W
  tag : UInt16
  reader : List Byte
  response : MessageResponse

abbrev Handler (W : Type) := Program (Exchange W) Stop

section Parts

variable {W : Type} {α : Type}

def readerPart : Part (Exchange W) (List Byte) where
  get x := x.reader
  set b x := { x with reader := b }

def responsePart : Part (Exchange W) MessageResponse where
  get x := x.response
  set r x := { x with response := r }

def machinePart : Part (Exchange W) (Machine W) where
  get x := x.session.machine
  set m x := { x with session := { x.session with machine := m } }

def read (d : Decoder α) : Handler W α := zoom readerPart d

def reply (m : Writer α) : Handler W α := zoom responsePart m

theorem read_bind {β : Type} (d : Decoder α) (f : α → Decoder β) :
    (read (d >>= f) : Handler W β) = read d >>= fun a => read (f a) :=
  zoom_bind ⟨fun _ _ => rfl, fun _ _ _ => rfl⟩ d f

def sys (m : Sys W α) : Handler W α := zoom machinePart (mapError Failure.toStop m)

def session : Handler W (Session W) := ofFunction fun x => (.ok x.session, x)

def requestTag : Handler W UInt16 := ofFunction fun x => (.ok x.tag, x)

def modifySession (f : Session W → Session W) : Handler W Unit :=
  ofFunction fun x => (.ok (), { x with session := f x.session })

end Parts

section Fids

variable {W : Type}

def Session.setFid (s : Session W) (fid : UInt32) (item : Option Fid) : Session W :=
  { s with fids := fun n => if n = fid then item else s.fids n }

def lookupFid (fid : UInt32) : Handler W Fid := do
  match (← session).fids fid with
  | some item => return item
  | none => throw (.thrown .inval)

theorem exec_lookupFid (fid : UInt32) (x : Exchange W) :
    exec (lookupFid fid) x =
      match x.session.fids fid with
      | some item => (.ok item, x)
      | none => (.error (.thrown .inval), x) := by
  rw [lookupFid, exec_bind]
  simp only [session, exec_ofFunction, andThen]
  cases x.session.fids fid <;> rfl

def asFile (item : Fid) : Handler W File :=
  match item with
  | .file f => return f
  | .xattr _ => throw (.error .inval)

def storeFile (fid : UInt32) (f : File) : Handler W Unit :=
  modifySession fun s => s.setFid fid (some (.file f))

def emplaceFid (fid : UInt32) (item : Fid) : Handler W Unit := do
  match (← session).fids fid with
  | some _ => throw (.thrown .inval)
  | none => modifySession fun s => s.setFid fid (some item)

/-- `Clone`, which only files have. -/
def cloneFid (item : Fid) : Handler W File :=
  match item with
  | .file f => return f.clone
  | .xattr _ => throw (.thrown .inval)

def ensureSize (message : MessageType) (extraSize : Nat) : Handler W Unit := do
  let s ← session
  reply (SpanWriter.ensureSize message extraSize s.negotiatedSize.toNat)

end Fids

section Handlers

variable {W : Type} (env : Environment W)

open SpanReader (u8 u16 u32 u64 string name names)

def minimumRequestBufferSize : UInt32 := 4096
def maximumRequestBufferSize : UInt32 := 262144
def initialResponseBufferSize : UInt32 := 64
def staticBufferSize : Nat := 256
def createRetryCount : Nat := 3
def ioUnit : UInt32 := 0
def invalidId : UInt32 := 0xFFFFFFFF

/-- `9P2000.L`. -/
def protocolVersionL : List Byte := [57, 80, 50, 48, 48, 48, 46, 76]

/-- `9P2000.W`. -/
def protocolVersionW : List Byte := [57, 80, 50, 48, 48, 48, 46, 87]

def handleVersion : Handler W Unit := do
  let s ← session
  if s.negotiated && !s.allowRenegotiate then
    throw (.error .notsup)
  else
    let size ← read u32
    let version ← read string
    if size < minimumRequestBufferSize then
      throw (.error .notsup)
    else if version.1 ≠ protocolVersionW ∧ version.1 ≠ protocolVersionL then
      throw (.error .notsup)
    else
      let use9P2000W := version.1 == protocolVersionW
      let size := min size maximumRequestBufferSize
      if s.negotiated && (use9P2000W != s.use9P2000W || size != s.negotiatedSize) then
        throw (.error .notsup)
      else
        modifySession fun s =>
          { s with use9P2000W := use9P2000W, negotiatedSize := size, negotiated := true }
        ensureSize .version version.1.length
        reply (SpanWriter.u32 size)
        reply (SpanWriter.string version.1)

def newRoot (rootFd : Fd) (identity : Identity) : Handler W Root := do
  let s ← session
  modifySession fun s => { s with nextRoot := s.nextRoot + 1 }
  return ⟨s.nextRoot, rootFd, identity⟩

def makeRoot (aname : List Byte) (uid : UInt32) : Handler W Root :=
  match env.shares aname with
  | none => throw (.error .noent)
  | some rootFd =>
    if uid = env.serverUid then
      newRoot rootFd ⟨invalidId, invalidId, []⟩
    else if env.serverUid = 0 then
      match (env.userGroupId uid).or env.nobodyGroupId with
      | none => throw (.error .inval)
      | some gid => newRoot rootFd ⟨uid, gid, if uid = invalidId then [] else env.groupList uid gid⟩
    else
      throw (.error .perm)

def handleAttach : Handler W Unit := do
  let fid ← read u32
  let _afid ← read u32
  let _uname ← read string
  let aname ← read string
  let uid ← read u32
  let root ← makeRoot env aname.1 uid
  let file ← sys (File.initializeFile env.kernel root)
  emplaceFid fid (.file file)
  ensureSize .attach 0
  reply (SpanWriter.qid file.qid)

def handleStatFs : Handler W Unit := do
  let fid ← read u32
  let file ← asFile (← lookupFid fid)
  let statfs ← sys (file.statFs env.kernel)
  ensureSize .statfs 0
  reply (SpanWriter.u32 statfs.type)
  reply (SpanWriter.u32 statfs.bsize)
  reply (SpanWriter.u64 statfs.blocks)
  reply (SpanWriter.u64 statfs.bfree)
  reply (SpanWriter.u64 statfs.bavail)
  reply (SpanWriter.u64 statfs.files)
  reply (SpanWriter.u64 statfs.ffree)
  reply (SpanWriter.u64 statfs.fsid)
  reply (SpanWriter.u32 statfs.namelen)

def writeReserved : Handler W Unit := do
  reply (SpanWriter.u64 0)
  reply (SpanWriter.u64 0)
  reply (SpanWriter.u64 0)
  reply (SpanWriter.u64 0)

def handleGetAttr : Handler W Unit := do
  let fid ← read u32
  let mask ← read u64
  let file ← asFile (← lookupFid fid)
  let (valid, qid, stat) ← sys (file.getAttr env.kernel mask)
  ensureSize .getattr 0
  reply (SpanWriter.u64 valid)
  reply (SpanWriter.qid qid)
  reply (SpanWriter.statResult stat)
  writeReserved

/-- The walk of `HandleWalk`, which writes the qid of each name. -/
def walkNames (f : File) : List Component → Handler W File
  | [] => return f
  | name :: rest => do
    let (r, g) ← sys (f.walk env.kernel name)
    match r with
    | .error e => throw (.error e)
    | .ok qid =>
      reply (SpanWriter.qid qid)
      walkNames g rest

def handleWalk : Handler W Unit := do
  let fid ← read u32
  let newfid ← read u32
  let nameCount ← read u16
  let components ← read (names nameCount.toNat)
  let newFile ← cloneFid (← lookupFid fid)
  ensureSize .walk (nameCount.toNat * qidSize)
  reply (SpanWriter.u16 nameCount)
  let newFile ← walkNames env newFile components
  emplaceFid newfid (.file newFile)

def handleClunk : Handler W Unit := do
  let fid ← read u32
  match (← session).fids fid with
  | none => throw (.error .inval)
  | some item =>
    modifySession fun s => s.setFid fid none
    match item with
    | .file _ => return ()
    | .xattr x => sys (x.clunk env.kernel)

def handleLOpen : Handler W Unit := do
  let fid ← read u32
  let flags ← read u32
  let file ← asFile (← lookupFid fid)
  let (qid, file) ← sys (file.lopen env.kernel flags)
  storeFile fid file
  ensureSize .lopen 0
  reply (SpanWriter.qid qid)
  reply (SpanWriter.u32 ioUnit)

def handleLCreate : Handler W Unit := do
  let fid ← read u32
  let component ← read name
  let flags ← read u32
  let mode ← read u32
  let _gid ← read u32
  let file ← asFile (← lookupFid fid)
  let (qid, file) ← sys (file.create env.kernel component flags mode)
  storeFile fid file
  ensureSize .lcreate 0
  reply (SpanWriter.qid qid)
  reply (SpanWriter.u32 ioUnit)

def handleSymLink : Handler W Unit := do
  let fid ← read u32
  let component ← read name
  let target ← read string
  let _gid ← read u32
  let file ← asFile (← lookupFid fid)
  let qid ← sys (file.symLink env.kernel component target)
  ensureSize .symlink 0
  reply (SpanWriter.qid qid)

def handleMkNod : Handler W Unit := do
  let fid ← read u32
  let component ← read name
  let mode ← read u32
  let major ← read u32
  let minor ← read u32
  let _gid ← read u32
  let file ← asFile (← lookupFid fid)
  let qid ← sys (file.mkNod env.kernel component mode major minor)
  ensureSize .mknod 0
  reply (SpanWriter.qid qid)

def stringSpace : Handler W Nat :=
  ofFunction fun x =>
    if x.response.maxSize < x.response.size + 2 then (.error .terminate, x)
    else (.ok (x.response.maxSize - x.response.size - 2), x)

def handleReadLink : Handler W Unit := do
  let fid ← read u32
  let item ← lookupFid fid
  ensureSize .readlink pathMax
  let space ← stringSpace
  let file ← asFile item
  let target ← sys (file.readLink env.kernel space)
  reply (SpanWriter.u16 (UInt16.ofNat target.1.length))
  reply (SpanWriter.next target.1.length target.1)

/-- The space for `count` bytes behind a four-byte count. -/
def dataSpace (count : Nat) : Handler W Unit :=
  ofFunction fun x =>
    if x.response.maxSize < x.response.size + 4 + count then (.error .terminate, x) else (.ok (), x)

/-- `HandleReadDir` after its check of the protocol version. -/
def readDirEntries (includeAttributes : Bool) : Handler W Unit := do
  let fid ← read u32
  let offset ← read u64
  let count ← read u32
  let item ← lookupFid fid
  ensureSize .readdir count.toNat
  dataSpace count.toNat
  let file ← asFile item
  let (r, file) ← sys (file.readDir env.kernel offset count.toNat includeAttributes)
  storeFile fid file
  match r with
  | .error e => throw (.error e)
  | .ok bytes =>
    reply (SpanWriter.u32 (UInt32.ofNat bytes.length))
    reply (SpanWriter.next bytes.length bytes)

def handleReadDir (includeAttributes : Bool) : Handler W Unit := do
  let s ← session
  if includeAttributes && !s.use9P2000W then
    throw (.error .notsup)
  else
    readDirEntries env includeAttributes

def handleFsync : Handler W Unit := do
  let fid ← read u32
  let file ← asFile (← lookupFid fid)
  sys (file.fsync env.kernel)

def lookupFidPair (fid1 fid2 : UInt32) : Handler W (Fid × Fid) := do
  let item1 ← lookupFid fid1
  let item2 ← lookupFid fid2
  return (item1, item2)

def handleLink : Handler W Unit := do
  let dfid ← read u32
  let fid ← read u32
  let component ← read name
  let (dir, file) ← lookupFidPair dfid fid
  let dir ← asFile dir
  sys (dir.link env.kernel component file)

/-- `Read` of a fid: the count that it returns and what it has put into the buffer. -/
def readFid (item : Fid) (offset : UInt64) (count : Nat) : Sys W (Nat × List Byte) := do
  match item with
  | .file f =>
    let d ← f.read env.kernel offset count
    return (d.1.length, d.1)
  | .xattr x =>
    let r ← x.read env.kernel offset count
    return (r.count, r.data)

def handleRead : Handler W Unit := do
  let fid ← read u32
  let offset ← read u64
  let count ← read u32
  let item ← lookupFid fid
  ensureSize .read count.toNat
  dataSpace count.toNat
  let (n, data) ← sys (readFid env item offset count.toNat)
  reply (SpanWriter.u32 (UInt32.ofNat n))
  reply (SpanWriter.next (UInt32.ofNat n).toNat data)

def handleWrite : Handler W Unit := do
  let fid ← read u32
  let offset ← read u64
  let count ← read u32
  let data ← read (SpanReader.read count.toNat)
  let item ← lookupFid fid
  let n ← writeItem fid item offset data
  ensureSize .write 0
  reply (SpanWriter.u32 n)
where
  writeItem (fid : UInt32) (item : Fid) (offset : UInt64) (data : List Byte) : Handler W UInt32 := do
    match item with
    | .file f => sys (f.write env.kernel offset data)
    | .xattr x =>
      let (n, x) ← sys (x.write offset data)
      modifySession fun s => s.setFid fid (some (.xattr x))
      return n

def handleUnlinkAt : Handler W Unit := do
  let fid ← read u32
  let component ← read name
  let flags ← read u32
  let file ← asFile (← lookupFid fid)
  sys (file.unlinkAt env.kernel component flags)

def handleRemove : Handler W Unit := do
  let fid ← read u32
  let file ← asFile (← lookupFid fid)
  sys (file.remove env.kernel)

def handleRenameAt : Handler W Unit := do
  let oldfid ← read u32
  let oldname ← read name
  let newfid ← read u32
  let newname ← read name
  let (olddir, newdir) ← lookupFidPair oldfid newfid
  let olddir ← asFile olddir
  sys (olddir.renameAt env.kernel oldname newdir newname)

def handleRename : Handler W Unit := do
  let oldFid ← read u32
  let newFid ← read u32
  let newName ← read name
  let (oldFile, newDir) ← lookupFidPair oldFid newFid
  let oldFile ← asFile oldFile
  let oldFile ← sys (oldFile.rename env.kernel newDir newName)
  storeFile oldFid oldFile

def handleMkDir : Handler W Unit := do
  let fid ← read u32
  let component ← read name
  let mode ← read u32
  let _gid ← read u32
  let file ← asFile (← lookupFid fid)
  let qid ← sys (file.mkDir env.kernel component mode)
  ensureSize .mkdir 0
  reply (SpanWriter.qid qid)

def handleSetAttr : Handler W Unit := do
  let fid ← read u32
  let valid ← read u32
  let mode ← read u32
  let uid ← read u32
  let gid ← read u32
  let size ← read u64
  let atimeSec ← read u64
  let atimeNsec ← read u64
  let mtimeSec ← read u64
  let mtimeNsec ← read u64
  let file ← asFile (← lookupFid fid)
  sys (file.setAttr env.kernel valid
    { mode := mode, uid := uid, gid := gid, size := size, atimeSec := atimeSec, atimeNsec := atimeNsec
      mtimeSec := mtimeSec, mtimeNsec := mtimeNsec })

/-- `Lock` and `GetLock` ask for an open file and do nothing else. -/
def checkOpen (file : File) : Handler W Unit :=
  if file.isOpen then return () else throw (.error .badf)

def handleLock : Handler W Unit := do
  let fid ← read u32
  let _type ← read u8
  let _flags ← read u32
  let _start ← read u64
  let _length ← read u64
  let _procId ← read u32
  let _clientId ← read string
  let file ← asFile (← lookupFid fid)
  checkOpen file
  ensureSize .lock 0
  reply (SpanWriter.u8 0)

/-- The lock is reported as `Unlock` with the request's own values. -/
def handleGetLock : Handler W Unit := do
  let fid ← read u32
  let _type ← read u8
  let start ← read u64
  let length ← read u64
  let procId ← read u32
  let clientId ← read string
  let file ← asFile (← lookupFid fid)
  checkOpen file
  ensureSize .getlock 0
  reply (SpanWriter.u8 2)
  reply (SpanWriter.u64 start)
  reply (SpanWriter.u64 length)
  reply (SpanWriter.u32 procId)
  reply (SpanWriter.string clientId.1)

def handleXattrWalk : Handler W Unit := do
  let fid ← read u32
  let newFid ← read u32
  let xattrName ← read string
  let file ← asFile (← lookupFid fid)
  let xattr ← sys (file.xattrWalk env.kernel xattrName)
  let size ← sys (xattr.getSize env.kernel)
  emplaceFid newFid (.xattr xattr)
  ensureSize .xattrwalk 0
  reply (SpanWriter.u64 (UInt64.ofNat size))

def handleXattrCreate : Handler W Unit := do
  let fid ← read u32
  let xattrName ← read string
  let size ← read u64
  let flags ← read u32
  let file ← asFile (← lookupFid fid)
  let xattr ← sys (file.xattrCreate env.kernel xattrName size flags)
  modifySession fun s => s.setFid fid (some (.xattr xattr))

def handleAccess : Handler W Unit := do
  let s ← session
  if !s.use9P2000W then
    throw (.error .notsup)
  else
    let fid ← read u32
    let flags ← read u32
    match ← lookupFid fid with
    | .file f => sys (f.access env.kernel flags)
    | .xattr _ => throw (.error .notsup)

end Handlers

inductive WOpenStatus where
  | opened
  | created
  | parentNotFound
  | notFound
  | stopped
deriving DecidableEq

def WOpenStatus.code : WOpenStatus → UInt8
  | .opened => 0
  | .created => 1
  | .parentNotFound => 2
  | .notFound => 3
  | .stopped => 4

namespace WOpenFlags

def deleteAccess : UInt32 := 0x1
def nonDirectoryFile : UInt32 := 0x2
def openSymlink : UInt32 := 0x4

end WOpenFlags

/-- How the walk of a `Twopen` ends: with a reply, or at the file. -/
inductive WOpenWalk where
  | answer (status : WOpenStatus) (walked : Nat) (file : File)
  | found (file : File) (qid : Qid) (existed needOpen : Bool)

section WOpen

variable {W : Type} (env : Environment W)

open SpanReader (u8 u16 u32 u64 string name names)

def writeWOpenReply (status : WOpenStatus) (walked : Nat) (file : File) (mask : UInt64) :
    Handler W Unit := do
  let (_, qid, stat) ← sys (file.getAttr env.kernel mask)
  ensureSize .wopen (if qid.type = .symlink then pathMax else 0)
  reply (SpanWriter.u8 status.code)
  reply (SpanWriter.u16 (UInt16.ofNat walked))
  reply (SpanWriter.qid qid)
  writeTarget qid
  reply (SpanWriter.u32 ioUnit)
  reply (SpanWriter.statResult stat)
  writeReserved
where
  writeTarget (qid : Qid) : Handler W Unit := do
    if qid.type = .symlink then
      let space ← stringSpace
      match ← sys (attempt (file.readLink env.kernel space)) with
      | .ok target =>
        reply (SpanWriter.u16 (UInt16.ofNat target.1.length))
        reply (SpanWriter.next target.1.length target.1)
      | .error _ => reply (SpanWriter.u16 0)
    else
      reply (SpanWriter.u16 0)

/-- Step 1 of `HandleWOpen`, for the names that are left before the last one. -/
def wopenParents (walked : Nat) : Nat → File → Handler W WOpenWalk
  | 0, f => return .found f f.qid false true
  | n + 1, f => do
    let component ← read name
    let (r, g) ← sys (f.walk env.kernel component)
    match r with
    | .ok _ => wopenParents (walked + 1) n g
    | .error e =>
      if e = .noent then return .answer .parentNotFound walked g
      else if e = .notdir then return .answer .stopped walked g
      else throw (.error e)

/-- Step 2: the item, unless it is an exclusive create. `none` asks for a create. -/
def wopenFind (component : Component) (flags : UInt32) (parents : Nat) (f : File) :
    Handler W (WOpenWalk ⊕ File) := do
  if hasFlag flags (OpenFlags.create ||| OpenFlags.exclusive) then
    return .inr f
  else
    let (r, g) ← sys (f.walk env.kernel component)
    match r with
    | .ok qid => return .inl (.found g qid true true)
    | .error e =>
      if e = .noent then
        if hasFlag flags OpenFlags.create then return .inr g
        else return .inl (.answer .notFound parents g)
      else if e = .notdir then return .inl (.answer .stopped parents g)
      else throw (.error e)

def wopenCreate (component : Component) (flags mode : UInt32) (f : File) : Sys W WOpenWalk := do
  if hasFlag flags OpenFlags.directory then
    let qid ← f.mkDir env.kernel component mode
    return .found f qid false true
  else
    let (qid, g) ← f.create env.kernel component (flags ||| OpenFlags.exclusive) mode
    return .found g qid false false

def wopenItem (component : Component) (flags mode : UInt32) (parents : Nat) :
    Nat → File → Handler W WOpenWalk
  | 0, _ => throw (.error .io)
  | tries + 1, f => do
    match ← wopenFind env component flags parents f with
    | .inl walk => return walk
    | .inr f =>
      match ← sys (attempt (wopenCreate env component flags mode f)) with
      | .ok walk => return walk
      | .error e =>
        if e = .exist ∧ !hasFlag flags OpenFlags.exclusive then
          wopenItem component flags mode parents tries f
        else
          throw (.error e)

/-- Steps 1 to 3 of `HandleWOpen`. -/
def wopenWalk (flags mode : UInt32) (nameCount : Nat) (newFile : File) : Handler W WOpenWalk := do
  match nameCount with
  | 0 => return .found newFile newFile.qid false true
  | parents + 1 =>
    match ← wopenParents env 0 parents newFile with
    | .answer status walked f => return .answer status walked f
    | .found f _ _ _ =>
      let component ← read name
      wopenItem env component flags mode parents createRetryCount f

def wopenFlags (flags : UInt32) (qid : Qid) : UInt32 :=
  let access := flags &&& OpenFlags.accessMask
  let flags :=
    if access = OpenFlags.noAccess ∨ (qid.type = .directory ∧
        (access = OpenFlags.writeOnly ∨ access = OpenFlags.readWrite)) then
      flags &&& ~~~OpenFlags.accessMask
    else
      flags
  flags &&& ~~~(OpenFlags.create ||| OpenFlags.exclusive)

def wopenOpens (flags : UInt32) (needOpen : Bool) : Bool :=
  needOpen && (flags &&& OpenFlags.accessMask != OpenFlags.noAccess || hasFlag flags OpenFlags.truncate)

def wopenFinish (newFid flags : UInt32) (attrMask : UInt64) (nameCount : Nat) (f : File) (qid : Qid)
    (existed needOpen : Bool) : Handler W Unit := do
  let f ← openIfNeeded
  writeWOpenReply env (if existed then .opened else .created) nameCount f attrMask
  emplaceFid newFid (.file f)
where
  openIfNeeded : Handler W File := do
    if wopenOpens flags needOpen then
      let (_, g) ← sys (f.lopen env.kernel (wopenFlags flags qid))
      return g
    else
      return f

/-- Steps 4 to 8 of `HandleWOpen`. -/
def wopenOpen (newFid flags wflags : UInt32) (attrMask : UInt64) (nameCount : Nat) (f : File) (qid : Qid)
    (existed needOpen : Bool) : Handler W Unit := do
  if hasFlag wflags WOpenFlags.nonDirectoryFile && qid.type = .directory then
    throw (.error .isdir)
  else if hasFlag flags OpenFlags.directory && qid.type ≠ .directory then
    throw (.error .notdir)
  else
    when (hasFlag wflags WOpenFlags.deleteAccess)
      (sys (f.access env.kernel File.AccessFlags.delete))
    if qid.type = .symlink then
      if hasFlag wflags WOpenFlags.openSymlink then
        wopenFinish env newFid flags attrMask nameCount f qid existed false
      else
        writeWOpenReply env .stopped nameCount f attrMask
    else
      wopenFinish env newFid flags attrMask nameCount f qid existed needOpen

/-- `HandleWOpen` after its check of the protocol version. -/
def wopenRequest : Handler W Unit := do
  let fid ← read u32
  let newFid ← read u32
  let flags ← read u32
  let wflags ← read u32
  let mode ← read u32
  let _gid ← read u32
  let attrMask ← read u64
  let nameCount ← read u16
  let newFile ← cloneFid (← lookupFid fid)
  match ← wopenWalk env flags mode nameCount.toNat newFile with
  | .answer status walked f => writeWOpenReply env status walked f attrMask
  | .found f qid existed needOpen =>
    wopenOpen env newFid flags wflags attrMask nameCount.toNat f qid existed needOpen

def handleWOpen : Handler W Unit := do
  let s ← session
  if !s.use9P2000W then
    throw (.error .notsup)
  else
    wopenRequest env

end WOpen

section Messages

variable {W : Type} (env : Environment W)

open SpanReader (u8 u16 u32)

def cancelRequest (oldTag : UInt16) : List RequestInfo → Option (List RequestInfo)
  | [] => none
  | r :: rest =>
    if r.tag = oldTag ∧ !r.cancelled then
      some ({ r with cancelled := true } :: rest)
    else
      (cancelRequest oldTag rest).map (r :: ·)

/-- `HandleFlush`. A wait for another request ends with that request; the flush itself is
the last request in the list, and a wait for it never ends. -/
def handleFlush : Handler W Unit := do
  let oldTag ← read u16
  let s ← session
  match cancelRequest oldTag s.requests with
  | some requests => modifySession fun s => { s with requests := requests }
  | none =>
    let tag ← requestTag
    if tag = oldTag then throw .stuck else return ()

def handleMessage (type : Option MessageType) : Handler W Unit :=
  match type with
  | some .read => handleRead env
  | some .write => handleWrite env
  | some .flush => handleFlush
  | some .statfs => handleStatFs env
  | some .lopen => handleLOpen env
  | some .lcreate => handleLCreate env
  | some .symlink => handleSymLink env
  | some .mknod => handleMkNod env
  | some .readlink => handleReadLink env
  | some .getattr => handleGetAttr env
  | some .setattr => handleSetAttr env
  | some .xattrwalk => handleXattrWalk env
  | some .xattrcreate => handleXattrCreate env
  | some .readdir => handleReadDir env false
  | some .wreaddir => handleReadDir env true
  | some .fsync => handleFsync env
  | some .lock => handleLock
  | some .getlock => handleGetLock
  | some .link => handleLink env
  | some .mkdir => handleMkDir env
  | some .renameat => handleRenameAt env
  | some .unlinkat => handleUnlinkAt env
  | some .version => handleVersion
  | some .auth => throw (.error .notsup)
  | some .attach => handleAttach env
  | some .walk => handleWalk env
  | some .clunk => handleClunk env
  | some .remove => handleRemove env
  | some .rename => handleRename env
  | some .access => handleAccess env
  | some .wopen => handleWOpen env
  | some .lerror => throw (.error .notsup)
  | none => throw (.error .notsup)

/-- What becomes of a message: a response, the end of the process, or nothing ever. -/
inductive Ending where
  | answer (response : List Byte)
  | abort
  | stuck
deriving DecidableEq

/-- The response of `ProcessMessage` from how its handler ended. -/
def respond (type : UInt8) (tag : UInt16) (start : MessageResponse) (r : Except Stop Unit)
    (response : MessageResponse) : Ending :=
  let rlerror (e : Errno) : Ending :=
    match exec (SpanWriter.u32 e.1) start with
    | (.ok _, w) => .answer (w.result (MessageType.lerror.code + 1) tag)
    | (.error _, _) => .abort
  match r with
  | .ok _ => .answer (response.result (type + 1) tag)
  | .error (.error e) => rlerror e
  | .error (.thrown e) => rlerror e
  | .error .failFast => .abort
  | .error .terminate => .abort
  | .error .stuck => .stuck

def readHeader : Decoder (UInt8 × UInt16) := do
  let _size ← u32
  let type ← u8
  let tag ← u16
  return (type, tag)

/-- `ProcessMessage` with a buffer for the response. -/
def processMessage (start : MessageResponse) (message : List Byte) (s : Session W) : Ending × Session W :=
  match exec readHeader message with
  | (.error _, _) => (.abort, s)
  | (.ok (type, tag), body) =>
    let x := exec (handleMessage env (MessageType.ofCode type)) ⟨s, tag, body, start⟩
    (respond type tag start x.1 x.2.response, x.2.session)

def processSocketMessage (message : List Byte) (s : Session W) : Ending × Session W :=
  processMessage env (.initial staticBufferSize true) message s

def Session.initial (allowRenegotiate : Bool) (world : W) : Session W where
  machine := ⟨world, none, []⟩
  fids _ := none
  negotiatedSize := initialResponseBufferSize
  negotiated := false
  allowRenegotiate := allowRenegotiate
  use9P2000W := false
  requests := []
  nextRoot := 0

end Messages

def messageCode (message : List Byte) : UInt8 := UInt8.ofNat (leValue ((message.drop 4).take 1))

def messageType (message : List Byte) : Option MessageType := MessageType.ofCode (messageCode message)

def messageTag (message : List Byte) : UInt16 := UInt16.ofNat (leValue ((message.drop 5).take 2))

def messageBody (message : List Byte) : List Byte := message.drop headerSize

def firstFid (body : List Byte) : UInt32 := UInt32.ofNat (leValue (body.take 4))

def frame (type : MessageType) (tag : UInt16) (body : List Byte) : List Byte :=
  leBytes 4 (headerSize + body.length) ++ [type.code] ++ leBytes 2 tag.toNat ++ body

def frameString (s : List Byte) : List Byte := leBytes 2 s.length ++ s

def Environment.plain : Environment Unit where
  kernel := Kernel.plain
  shares _ := some ⟨3⟩
  serverUid := 0
  userGroupId _ := some 100
  nobodyGroupId := none
  groupList _ gid := [gid]

theorem exec_readHeader {message : List Byte} (h : headerSize ≤ message.length) :
    exec readHeader message = (.ok (messageCode message, messageTag message), messageBody message) := by
  have h7 : 7 ≤ message.length := h
  rw [readHeader, exec_bind, SpanReader.exec_u32, if_neg (by omega), andThen, exec_bind, SpanReader.exec_u8,
    if_neg (by rw [List.length_drop]; omega), andThen, exec_bind, SpanReader.exec_u16,
    if_neg (by rw [List.length_drop, List.length_drop]; omega), andThen, List.drop_drop, List.drop_drop]
  rfl

theorem exec_readHeader_short {message : List Byte} (h : message.length < headerSize) :
    (exec readHeader message).1 = .error .failFast := by
  have h7 : message.length < 7 := h
  rw [readHeader, exec_bind, SpanReader.exec_u32]
  split
  · rfl
  · rw [andThen, exec_bind, SpanReader.exec_u8]
    split
    · rfl
    · rw [andThen, exec_bind, SpanReader.exec_u16, if_pos (by rw [List.length_drop, List.length_drop]; omega)]
      rfl

variable {W : Type} {env : Environment W} {start : MessageResponse} {message : List Byte} {s : Session W}

theorem processMessage_eq (h : headerSize ≤ message.length) :
    processMessage env start message s =
      let x := exec (handleMessage env (messageType message))
        ⟨s, messageTag message, messageBody message, start⟩
      (respond (messageCode message) (messageTag message) start x.1 x.2.response, x.2.session) := by
  rw [processMessage, exec_readHeader h]
  rfl

theorem processMessage_short (h : message.length < headerSize) :
    processMessage env start message s = (.abort, s) := by
  have herror := exec_readHeader_short h
  rw [processMessage]
  split
  · rfl
  · rename_i heq
    rw [heq] at herror
    cases herror

end WslPlus.Plan9

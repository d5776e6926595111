import WslPlus.Plan9.File

/-!
# Reading directories

The enumerator remembers the offset of the last entry that it has read, so that a
request that goes on from there needs no seek. An entry that does not fit has been read
already.
-/

namespace WslPlus.Plan9

open Program

def dirEntryTypeToQidType (type : UInt8) : QidType :=
  if type = 4 then .directory else if type = 10 then .symlink else .file

def dirEntryTypeToMode (type : UInt8) : UInt32 := type.toUInt32 <<< 12

def Stat.toStatResult (st : Stat) : StatResult :=
  { mode := st.mode, uid := st.uid, gid := st.gid, nlink := st.nlink, rdev := st.rdev, size := st.size
    blockSize := st.blksize, blocks := st.blocks, atimeSec := st.atimeSec, atimeNsec := st.atimeNsec
    mtimeSec := st.mtimeSec, mtimeNsec := st.mtimeNsec, ctimeSec := st.ctimeSec, ctimeNsec := st.ctimeNsec }

def dirEntrySize (name : List Byte) (stat : Option StatResult) : Nat :=
  qidSize + 8 + 1 + 2 + name.length + (if stat.isSome then statResultSize else 0)

/-- What `SpanWriteDirectoryEntry` writes when the entry fits. -/
def directoryEntryBytes (name : List Byte) (qid : Qid) (nextOffset : UInt64) (type : UInt8)
    (stat : Option StatResult) : List Byte :=
  SpanWriter.qidBytes qid ++ leBytes 8 nextOffset.toNat ++ leBytes 1 type.toNat ++
    leBytes 2 name.length ++ name ++ (stat.map SpanWriter.statResultBytes).getD []

theorem directoryEntryBytes_length (name : List Byte) (qid : Qid) (nextOffset : UInt64) (type : UInt8)
    (stat : Option StatResult) :
    (directoryEntryBytes name qid nextOffset type stat).length = dirEntrySize name stat := by
  cases stat <;> simp [directoryEntryBytes, dirEntrySize] <;> omega

theorem dirEntrySize_pos (name : List Byte) (stat : Option StatResult) : 0 < dirEntrySize name stat := by
  simp only [dirEntrySize]
  omega

namespace DirectoryEnumerator

variable {W : Type} (k : Kernel W)

/-- `Next`; the error is what it throws. -/
def next (e : DirectoryEnumerator) : Sys W (Except Errno (Option Dirent) × DirectoryEnumerator) := do
  match ← attempt (syscall k (.readdir e.dir)) with
  | .error err => return (.error err, e)
  | .ok none => return (.ok none, e)
  | .ok (some entry) => return (.ok (some entry), { e with lastOffset := entry.off })

/-- `rewinddir` and `seekdir` return nothing, so they cannot fail. -/
def reposition (dir : Dir) (offset : UInt64) : Sys W Unit :=
  if offset = 0 then do
    let _ ← attempt (syscall k (.rewinddir dir))
    return ()
  else do
    let _ ← attempt (syscall k (.seekdir dir offset))
    return ()

def seek (e : DirectoryEnumerator) (offset : UInt64) : Sys W DirectoryEnumerator :=
  if offset ≠ e.lastOffset then do
    reposition k e.dir offset
    return { e with lastOffset := offset }
  else
    return e

end DirectoryEnumerator

/-- What `ReadDir` has produced: its result and the bytes of the entries that fitted. -/
structure ReadDirResult where
  result : Except Errno Unit
  bytes : List Byte
  enumerator : DirectoryEnumerator

section ReadDir

variable {W : Type} (k : Kernel W)

/-- The attributes of an entry; for `.` and `..` those of the directory itself. -/
def entryAttributes (dir : Dir) (entry : Dirent) : Sys W StatResult := do
  let name := if entry.name.1 = [dot] ∨ entry.name.1 = [dot, dot] then [] else entry.name.1
  match ← attempt (syscall k (.fstatat (.stream dir) (.name name) [.symlinkNofollow, .emptyPath])) with
  | .ok st => return st.toStatResult
  | .error _ => return { mode := dirEntryTypeToMode entry.type, nlink := 1 }

def attributesToUse (includeAttributes : Bool) (dir : Dir) (entry : Dirent) :
    Sys W (Option StatResult) := do
  if includeAttributes then
    let attributes ← entryAttributes k dir entry
    return some attributes
  else
    return none

def dirent (entry : Dirent) (stat : Option StatResult) : List Byte :=
  directoryEntryBytes entry.name.1 ⟨entry.ino, 0, dirEntryTypeToQidType entry.type⟩ entry.off entry.type stat

/-- The loop of `ReadDir` over the space that is left. -/
def readDirLoop (includeAttributes : Bool) (e : DirectoryEnumerator) (space : Nat)
    (dirEntriesWritten : Bool) : Sys W ReadDirResult := do
  match ← e.next k with
  | (.error err, e') => return ⟨.error err, [], e'⟩
  | (.ok none, e') => return ⟨.ok (), [], e'⟩
  | (.ok (some entry), e') =>
    let stat ← attributesToUse k includeAttributes e'.dir entry
    if _h : space < dirEntrySize entry.name.1 stat then
      return ⟨if dirEntriesWritten then .ok () else .error .inval, [], e'⟩
    else
      let rest ← readDirLoop includeAttributes e' (space - dirEntrySize entry.name.1 stat) true
      return { rest with bytes := dirent entry stat ++ rest.bytes }
termination_by space
decreasing_by
  have := dirEntrySize_pos entry.name.1 stat
  omega

/-- `ReadDir` of an open file into `count` bytes. The descriptor belongs to the
enumerator from the first call on. -/
def File.readDir (f : File) (offset : UInt64) (count : Nat) (includeAttributes : Bool) :
    Sys W (Except Errno (List Byte) × File) := do
  if !f.isOpen then
    return (.error .badf, f)
  else
    match f.enumerator, f.file with
    | some e, _ => readFrom f e
    | none, some fd =>
      let dir ← orThrow (syscall k (.fdopendir fd))
      readFrom { f with file := none } ⟨dir, 0⟩
    | none, none => return (.error .badf, f)
where
  readFrom (f : File) (e : DirectoryEnumerator) : Sys W (Except Errno (List Byte) × File) := do
    let e ← e.seek k offset
    let r ← readDirLoop k includeAttributes e count false
    return (r.result.map fun _ => r.bytes, { f with enumerator := some r.enumerator })

end ReadDir

end WslPlus.Plan9

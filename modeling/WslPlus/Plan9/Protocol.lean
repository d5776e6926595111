import Mathlib.Algebra.GroupWithZero.Nat
import Mathlib.Data.List.TakeWhile
import WslPlus.Lib.Program

/-!
# Messages of the Plan 9 protocol

The message types with the sizes of their responses, the reader of a request and the
writer of a response. Numbers are little-endian. Reading past the end of a request
and writing past the end of a response buffer abort the process; a bad name throws.
-/

namespace WslPlus.Plan9

abbrev Byte := UInt8

abbrev Errno := { e : UInt32 // e ≠ 0 }

namespace Errno

def perm : Errno := ⟨1, by decide⟩
def noent : Errno := ⟨2, by decide⟩
def io : Errno := ⟨5, by decide⟩
def badf : Errno := ⟨9, by decide⟩
def nomem : Errno := ⟨12, by decide⟩
def acces : Errno := ⟨13, by decide⟩
def exist : Errno := ⟨17, by decide⟩
def notdir : Errno := ⟨20, by decide⟩
def isdir : Errno := ⟨21, by decide⟩
def inval : Errno := ⟨22, by decide⟩
def overflow : Errno := ⟨75, by decide⟩
def notsup : Errno := ⟨95, by decide⟩

end Errno

/-- A failed operation: an error is returned or an exception is thrown. -/
inductive Failure where
  | error (e : Errno)
  | thrown (e : Errno)

/-- The ways in which code ends without its value: an error is returned, an exception is
thrown, `FAIL_FAST` or a failed bounds check aborts the process, or it waits for ever. -/
inductive Stop where
  | error (e : Errno)
  | thrown (e : Errno)
  | failFast
  | terminate
  | stuck
deriving DecidableEq

def Failure.toStop : Failure → Stop
  | .error e => .error e
  | .thrown e => .thrown e

/-- The requests that the server knows, with `Tlerror`, which is only ever a response. -/
inductive MessageType where
  | lerror
  | statfs
  | lopen
  | lcreate
  | symlink
  | mknod
  | rename
  | readlink
  | getattr
  | setattr
  | xattrwalk
  | xattrcreate
  | readdir
  | fsync
  | lock
  | getlock
  | link
  | mkdir
  | renameat
  | unlinkat
  | version
  | auth
  | attach
  | flush
  | walk
  | read
  | write
  | clunk
  | remove
  | access
  | wreaddir
  | wopen
deriving DecidableEq

namespace MessageType

def code : MessageType → UInt8
  | .lerror => 6
  | .statfs => 8
  | .lopen => 12
  | .lcreate => 14
  | .symlink => 16
  | .mknod => 18
  | .rename => 20
  | .readlink => 22
  | .getattr => 24
  | .setattr => 26
  | .xattrwalk => 30
  | .xattrcreate => 32
  | .readdir => 40
  | .fsync => 50
  | .lock => 52
  | .getlock => 54
  | .link => 70
  | .mkdir => 72
  | .renameat => 74
  | .unlinkat => 76
  | .version => 100
  | .auth => 102
  | .attach => 104
  | .flush => 108
  | .walk => 110
  | .read => 116
  | .write => 118
  | .clunk => 120
  | .remove => 122
  | .access => 128
  | .wreaddir => 130
  | .wopen => 132

def all : List MessageType :=
  [.lerror, .statfs, .lopen, .lcreate, .symlink, .mknod, .rename, .readlink, .getattr, .setattr,
    .xattrwalk, .xattrcreate, .readdir, .fsync, .lock, .getlock, .link, .mkdir, .renameat, .unlinkat,
    .version, .auth, .attach, .flush, .walk, .read, .write, .clunk, .remove, .access, .wreaddir, .wopen]

def ofCode (b : Byte) : Option MessageType := all.find? fun t => t.code == b

end MessageType

def headerSize : Nat := 7
def qidSize : Nat := 13
def statResultSize : Nat := 100
def pathMax : Nat := 4096

/-- `GetMessageSize` of a response, without its strings, repeated elements and data. -/
def getMessageSize : MessageType → Nat
  | .lerror => headerSize + 4
  | .statfs => headerSize + 4 + 4 + 8 + 8 + 8 + 8 + 8 + 8 + 4
  | .lopen => headerSize + 13 + 4
  | .lcreate => headerSize + 13 + 4
  | .symlink => headerSize + 13
  | .mknod => headerSize + 13
  | .rename => headerSize
  | .readlink => headerSize + 2
  | .getattr =>
    headerSize + 8 + 13 + 4 + 4 + 4 + 8 + 8 + 8 + 8 + 8 + 8 + 8 + 8 + 8 + 8 + 8 + 8 + 8 + 8 + 8
  | .setattr => headerSize
  | .xattrwalk => headerSize + 8
  | .xattrcreate => headerSize
  | .readdir => headerSize + 4
  | .fsync => headerSize
  | .lock => headerSize + 1
  | .getlock => headerSize + 1 + 8 + 8 + 4 + 2
  | .link => headerSize
  | .mkdir => headerSize + 13
  | .renameat => headerSize
  | .unlinkat => headerSize
  | .version => headerSize + 4 + 2
  | .auth => headerSize + 13
  | .attach => headerSize + 13
  | .flush => headerSize
  | .walk => headerSize + 2
  | .read => headerSize + 4
  | .write => headerSize + 4
  | .clunk => headerSize
  | .remove => headerSize
  | .access => headerSize
  | .wreaddir => headerSize + 4
  | .wopen =>
    headerSize + 1 + 2 + 13 + 2 + 4 + 4 + 4 + 4 + 8 + 8 + 8 + 8 + 8 + 8 + 8 + 8 + 8 + 8 + 8 + 8 + 8 + 8 + 8

def leValue (bytes : List Byte) : Nat := bytes.foldr (fun b n => b.toNat + 256 * n) 0

def leBytes (size n : Nat) : List Byte := (List.range size).map fun i => UInt8.ofNat (n / 256 ^ i)

@[simp] theorem leBytes_length (size n : Nat) : (leBytes size n).length = size := by simp [leBytes]

def slash : Byte := 47
def dot : Byte := 46

/-- A string that `FixString` has cut at its first NUL. -/
abbrev Text := { s : List Byte // (0 : Byte) ∉ s }

def fixString (s : List Byte) : Text :=
  ⟨s.takeWhile (· != 0), fun h => by simpa using List.mem_takeWhile_imp h⟩

/-- What `Name` checks of a string. -/
def isName (s : List Byte) : Bool := s != [] && s != [dot] && s != [dot, dot] && !s.contains slash

abbrev Component := { s : List Byte // isName s = true ∧ (0 : Byte) ∉ s }

/-- `SpanReader`: the state is what has not been read yet. -/
abbrev Decoder := Program (List Byte) Stop

namespace SpanReader

open Program

def read (count : Nat) : Decoder (List Byte) :=
  ofFunction fun b =>
    if b.length < count then (.error .failFast, b) else (.ok (b.take count), b.drop count)

def u8 : Decoder UInt8 := do
  let s ← read 1
  return UInt8.ofNat (leValue s)

def u16 : Decoder UInt16 := do
  let s ← read 2
  return UInt16.ofNat (leValue s)

def u32 : Decoder UInt32 := do
  let s ← read 4
  return UInt32.ofNat (leValue s)

def u64 : Decoder UInt64 := do
  let s ← read 8
  return UInt64.ofNat (leValue s)

def string : Decoder Text := do
  let length ← u16
  let s ← read length.toNat
  return fixString s

def name : Decoder Component := do
  let s ← string
  if h : isName s.1 = true then
    return ⟨s.1, h, s.2⟩
  else
    throw (.thrown .inval)

theorem exec_read (n : Nat) (b : List Byte) :
    exec (read n) b = if b.length < n then (.error .failFast, b) else (.ok (b.take n), b.drop n) := rfl

theorem exec_read_bind {α : Type} (n : Nat) (f : List Byte → α) (b : List Byte) :
    exec (read n >>= fun s => (return f s : Decoder α)) b =
      if b.length < n then (.error .failFast, b) else (.ok (f (b.take n)), b.drop n) := by
  rw [exec_bind, exec_read]
  split <;> rfl

theorem exec_u8 (b : List Byte) :
    exec u8 b = if b.length < 1 then (.error .failFast, b)
      else (.ok (UInt8.ofNat (leValue (b.take 1))), b.drop 1) := exec_read_bind 1 _ b

theorem exec_u16 (b : List Byte) :
    exec u16 b = if b.length < 2 then (.error .failFast, b)
      else (.ok (UInt16.ofNat (leValue (b.take 2))), b.drop 2) := exec_read_bind 2 _ b

theorem exec_u32 (b : List Byte) :
    exec u32 b = if b.length < 4 then (.error .failFast, b)
      else (.ok (UInt32.ofNat (leValue (b.take 4))), b.drop 4) := exec_read_bind 4 _ b

theorem exec_u64 (b : List Byte) :
    exec u64 b = if b.length < 8 then (.error .failFast, b)
      else (.ok (UInt64.ofNat (leValue (b.take 8))), b.drop 8) := exec_read_bind 8 _ b

def names : Nat → Decoder (List Component)
  | 0 => return []
  | n + 1 => do
    let s ← name
    let rest ← names n
    return s :: rest

end SpanReader

inductive QidType where
  | file
  | symlink
  | directory
deriving DecidableEq

def QidType.code : QidType → Nat
  | .file => 0x00
  | .symlink => 0x02
  | .directory => 0x80

structure Qid where
  path : UInt64
  version : UInt32
  type : QidType
deriving DecidableEq

structure StatResult where
  mode : UInt32 := 0
  uid : UInt32 := 0
  gid : UInt32 := 0
  nlink : UInt64 := 0
  rdev : UInt64 := 0
  size : UInt64 := 0
  blockSize : UInt64 := 0
  blocks : UInt64 := 0
  atimeSec : UInt64 := 0
  atimeNsec : UInt64 := 0
  mtimeSec : UInt64 := 0
  mtimeNsec : UInt64 := 0
  ctimeSec : UInt64 := 0
  ctimeNsec : UInt64 := 0

/-- `SpanWriter` with the buffer it writes to, without the header, which is written last.
`reserved` is what `EnsureSize` was asked for, which the buffer may exceed. -/
structure MessageResponse where
  maxSize : Nat
  allowResize : Bool
  reserved : Nat
  payload : List Byte

namespace MessageResponse

def initial (maxSize : Nat) (allowResize : Bool) : MessageResponse :=
  { maxSize := maxSize, allowResize := allowResize, reserved := headerSize, payload := [] }

def size (r : MessageResponse) : Nat := headerSize + r.payload.length

/-- `Header` over the result of the writer. -/
def result (r : MessageResponse) (type : UInt8) (tag : UInt16) : List Byte :=
  leBytes 4 r.size ++ [type] ++ leBytes 2 tag.toNat ++ r.payload

end MessageResponse

abbrev Writer := Program MessageResponse Stop

namespace SpanWriter

open Program

/-- `Next` over bytes that are there or are written at once. -/
def write (bytes : List Byte) : Writer Unit :=
  ofFunction fun r =>
    if r.maxSize < r.size + bytes.length then
      (.error .terminate, r)
    else
      (.ok (), { r with payload := r.payload ++ bytes })

def u8 (value : UInt8) : Writer Unit := write (leBytes 1 value.toNat)

def u16 (value : UInt16) : Writer Unit := write (leBytes 2 value.toNat)

def u32 (value : UInt32) : Writer Unit := write (leBytes 4 value.toNat)

def u64 (value : UInt64) : Writer Unit := write (leBytes 8 value.toNat)

def qidBytes (qid : Qid) : List Byte :=
  leBytes 1 qid.type.code ++ leBytes 4 qid.version.toNat ++ leBytes 8 qid.path.toNat

def qid (value : Qid) : Writer Unit := write (qidBytes value)

def string (value : List Byte) : Writer Unit :=
  if UInt16.size ≤ value.length then
    throw .failFast
  else do
    u16 (UInt16.ofNat value.length)
    write value

/-- `Next` after a call has put `data` at the start of the space: what nobody wrote is
left as it is in the buffer. -/
def next (count : Nat) (data : List Byte) : Writer Unit :=
  write (data.take count ++ List.replicate (count - data.length) 0)

def statResultBytes (s : StatResult) : List Byte :=
  leBytes 4 s.mode.toNat ++ leBytes 4 s.uid.toNat ++ leBytes 4 s.gid.toNat ++ leBytes 8 s.nlink.toNat ++
    leBytes 8 s.rdev.toNat ++ leBytes 8 s.size.toNat ++ leBytes 8 s.blockSize.toNat ++
    leBytes 8 s.blocks.toNat ++ leBytes 8 s.atimeSec.toNat ++ leBytes 8 s.atimeNsec.toNat ++
    leBytes 8 s.mtimeSec.toNat ++ leBytes 8 s.mtimeNsec.toNat ++ leBytes 8 s.ctimeSec.toNat ++
    leBytes 8 s.ctimeNsec.toNat

/-- `SpanWriteStatResult`. -/
def statResult (s : StatResult) : Writer Unit := write (statResultBytes s)

/-- `EnsureSize`: a bigger buffer is allocated, unless that is not allowed, and the
header is skipped in it. -/
def ensureSize (message : MessageType) (extraSize maxSize : Nat) : Writer Unit :=
  ofFunction fun r =>
    let size := getMessageSize message + extraSize
    if maxSize < size then
      (.error (.thrown .inval), r)
    else if r.maxSize < size then
      if r.allowResize then
        (.ok (), { r with maxSize := size, reserved := size, payload := [] })
      else
        (.error (.thrown .inval), r)
    else
      (.ok (), { r with reserved := size })

end SpanWriter

@[simp] theorem qidBytes_length (q : Qid) : (SpanWriter.qidBytes q).length = qidSize := by
  simp [SpanWriter.qidBytes, qidSize]

@[simp] theorem statResultBytes_length (s : StatResult) :
    (SpanWriter.statResultBytes s).length = statResultSize := by
  simp [SpanWriter.statResultBytes, statResultSize]

end WslPlus.Plan9

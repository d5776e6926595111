import WslPlus.Plan9.Protocol

/-!
# The calls that the Plan 9 server makes

The kernel answers each call from a state of its own, in which anybody may have
changed the files between two calls. Every call is recorded with the user context
that was in force when it was made.
-/

namespace WslPlus.Plan9

open Program

/-- What `FsUserContext` switches to. -/
structure Identity where
  uid : UInt32
  gid : UInt32
  groups : List UInt32
deriving DecidableEq

/-- A file descriptor. -/
structure Fd where
  number : Nat
deriving DecidableEq

/-- An open directory stream. -/
structure Dir where
  number : Nat
deriving DecidableEq

structure Stat where
  dev : UInt64
  ino : UInt64
  mode : UInt32
  nlink : UInt64
  uid : UInt32
  gid : UInt32
  rdev : UInt64
  size : UInt64
  blksize : UInt64
  blocks : UInt64
  atimeSec : UInt64
  atimeNsec : UInt64
  mtimeSec : UInt64
  mtimeNsec : UInt64
  ctimeSec : UInt64
  ctimeNsec : UInt64

structure StatFs where
  type : UInt32
  bsize : UInt32
  blocks : UInt64
  bfree : UInt64
  bavail : UInt64
  files : UInt64
  ffree : UInt64
  fsid : UInt64
  namelen : UInt32

/-- `struct dirent`; the name has at most 255 bytes. -/
structure Dirent where
  ino : UInt64
  off : UInt64
  type : UInt8
  name : { s : List Byte // s.length < 256 }

/-- The file systems whose mounts are not entered, and the others. -/
inductive FileSystemType where
  | drvfs
  | p9
  | virtiofs
  | other

inductive LinuxFlag where
  | wronly
  | rdwr
  | creat
  | excl
  | noctty
  | trunc
  | append
  | nonblock
  | dsync
  | async
  | direct
  | largefile
  | directory
  | nofollow
  | noatime
  | cloexec
  | sync
  | path
deriving DecidableEq

inductive AtFlag where
  | symlinkNofollow
  | emptyPath
  | removedir
  | eaccess
deriving DecidableEq

/-- The directory that a path is relative to: the root of the share, or the directory
that is being enumerated. -/
inductive Base where
  | root (fd : Fd)
  | stream (d : Dir)
deriving DecidableEq

/-- A path argument: a name that the server keeps, or what the kernel has reported as
the path of a descriptor. -/
inductive PathArg where
  | name (p : List Byte)
  | fdPath (fd : Fd) (p : List Byte)
  | procFd (fd : Fd)
deriving DecidableEq

/-- A time for `utimensat`. -/
inductive TimeArg where
  | omit
  | now
  | at (sec nsec : UInt64)
deriving DecidableEq

inductive Call where
  | setUser (id : Identity)
  | fstatat (base : Base) (path : PathArg) (flags : List AtFlag)
  | openat (base : Base) (path : PathArg) (flags : List LinuxFlag) (mode : UInt32)
  | openPath (path : PathArg) (flags : List LinuxFlag)
  | readlinkFd (fd : Fd)
  | mkdirat (base : Base) (path : PathArg) (mode : UInt32)
  | symlinkat (target : List Byte) (base : Base) (path : PathArg)
  | mknodat (base : Base) (path : PathArg) (mode major minor : UInt32)
  | linkat (base : Base) (target path : PathArg)
  | renameat (base : Base) (old new : PathArg)
  | unlinkat (base : Base) (path : PathArg) (flags : UInt32)
  | readlinkat (base : Base) (path : PathArg) (size : Nat)
  | fchmodat (base : Base) (path : PathArg) (mode : UInt32)
  | fchownat (base : Base) (path : PathArg) (uid gid : Option UInt32)
  | utimensat (base : Base) (path : PathArg) (atime mtime : TimeArg)
  | faccessat (base : Base) (path : PathArg) (mode : UInt32)
  | lgetxattr (path name : List Byte) (size : Nat)
  | llistxattr (path : List Byte) (size : Nat)
  | lsetxattr (path name value : List Byte) (flags : UInt32)
  | lremovexattr (path name : List Byte)
  | findMount (device : UInt64)
  | fstat (fd : Fd)
  | fstatfs (fd : Fd)
  | ftruncate (fd : Fd) (size : UInt64)
  | fsync (fd : Fd)
  | read (fd : Fd) (offset : UInt64) (count : Nat)
  | write (fd : Fd) (offset : UInt64) (data : List Byte)
  | fdopendir (fd : Fd)
  | readdir (d : Dir)
  | seekdir (d : Dir) (offset : UInt64)
  | rewinddir (d : Dir)
  | capget
  | allocate (size : Nat)
deriving DecidableEq

/-- What `lgetxattr` and `llistxattr` answer: with no buffer only the size. -/
structure XattrAnswer (size : Nat) where
  count : Nat
  data : List Byte
  fits : size ≠ 0 → count ≤ size

def Call.Answer : Call → Type
  | .fstatat .. => Stat
  | .openat .. => Fd
  | .openPath .. => Fd
  | .readlinkFd _ => List Byte
  | .readlinkat _ _ size => { t : List Byte // t.length ≤ size }
  | .lgetxattr _ _ size => XattrAnswer size
  | .llistxattr _ size => XattrAnswer size
  | .findMount _ => Option FileSystemType
  | .fstat _ => Stat
  | .fstatfs _ => StatFs
  | .read _ _ count => { d : List Byte // d.length ≤ count }
  | .write .. => UInt32
  | .fdopendir _ => Dir
  | .readdir _ => Option Dirent
  | .capget => Bool
  | _ => Unit

/-- The kernel, with a state of its own, and the effective user in a context. -/
structure Kernel (W : Type) where
  euid : Option Identity → UInt32
  call : Option Identity → (c : Call) → W → Except Errno c.Answer × W

/-- A call with the user context in which it was made. -/
structure Event where
  context : Option Identity
  call : Call
deriving DecidableEq

/-- The thread that runs a request. -/
structure Machine (W : Type) where
  world : W
  context : Option Identity
  trace : List Event

abbrev Sys (W : Type) := Program (Machine W) Failure

variable {W : Type} {α : Type}

def syscall (k : Kernel W) (c : Call) : Sys W c.Answer :=
  ofFunction fun m =>
    let r := k.call m.context c m.world
    let m' := { m with world := r.2, trace := m.trace ++ [⟨m.context, c⟩] }
    match r.1 with
    | .ok a => (.ok a, m')
    | .error e => (.error (.error e), m')

def Machine.called (k : Kernel W) (c : Call) (m : Machine W) : Machine W :=
  { m with world := (k.call m.context c m.world).2, trace := m.trace ++ [⟨m.context, c⟩] }

def geteuid (k : Kernel W) : Sys W UInt32 := ofFunction fun m => (.ok (k.euid m.context), m)

/-- `THROW_LAST_ERROR_IF` in place of a returned error. -/
def orThrow (m : Sys W α) : Sys W α :=
  ofFunction fun s =>
    match exec m s with
    | (.error (.error e), s') => (.error (.thrown e), s')
    | r => r

def attempt (m : Sys W α) : Sys W (Except Errno α) :=
  ofFunction fun s =>
    match exec m s with
    | (.ok a, s') => (.ok (.ok a), s')
    | (.error (.error e), s') => (.ok (.error e), s')
    | (.error (.thrown e), s') => (.error (.thrown e), s')

/-- The scope of an `FsUserContext`: however it is left, its destructor switches back. -/
def inContext (id : Identity) (m : Sys W α) : Sys W α :=
  ofFunction fun s =>
    let r := exec m { s with context := some id }
    (r.1, { r.2 with context := s.context })

def withUserContext (k : Kernel W) (id : Identity) (m : Sys W α) : Sys W α := do
  orThrow (syscall k (.setUser id))
  inContext id m

section Rules

variable {m : Sys W α} {P P' I J : Machine W → Prop} {Q Q' : α → Machine W → Prop}
variable {E E' : Failure → Machine W → Prop} {A : α → Prop}

theorem triple_orThrow (h : Triple P m Q E) (hE : ∀ e s, E (.error e) s → E' (.thrown e) s)
    (hthrown : ∀ e s, E (.thrown e) s → E' (.thrown e) s) : Triple P (orThrow m) Q E' := by
  intro s hs
  have h' := h s hs
  simp only [orThrow, exec_ofFunction]
  rcases hr : exec m s with ⟨r, s'⟩
  rw [hr] at h'
  cases r with
  | ok a => exact h'
  | error e =>
    cases e with
    | error e => exact hE e s' h'
    | thrown e => exact hthrown e s' h'

theorem triple_attempt {R : Except Errno α → Machine W → Prop} (h : Triple P m Q E)
    (hok : ∀ a s, Q a s → R (.ok a) s)
    (herror : ∀ e s, E (.error e) s → R (.error e) s) (hthrown : ∀ e s, E (.thrown e) s → E' (.thrown e) s) :
    Triple P (attempt m) R E' := by
  intro s hs
  have h' := h s hs
  simp only [attempt, exec_ofFunction]
  rcases hr : exec m s with ⟨r, s'⟩
  rw [hr] at h'
  cases r with
  | ok a => exact hok a s' h'
  | error e =>
    cases e with
    | error e => exact herror e s' h'
    | thrown e => exact hthrown e s' h'

theorem triple_inContext {id : Identity} (h : Triple P' m Q' E')
    (hP : ∀ s, P s → P' { s with context := some id })
    (hQ : ∀ s t a, P s → Q' a t → Q a { t with context := s.context })
    (hE : ∀ s t e, P s → E' e t → E e { t with context := s.context }) : Triple P (inContext id m) Q E := by
  intro s hs
  have h' := h { s with context := some id } (hP s hs)
  simp only [inContext, exec_ofFunction]
  rcases hr : exec m { s with context := some id } with ⟨r, s'⟩
  rw [hr] at h'
  cases r with
  | ok a => exact hQ s s' a hs h'
  | error e => exact hE s s' e hs h'

theorem keeps_orThrow (h : Keeps I m A) : Keeps I (orThrow m) A :=
  triple_orThrow h (fun _ _ hs => hs) fun _ _ hs => hs

theorem keeps_attempt (h : Keeps I m A) : Keeps I (attempt m) fun r => ∀ a, r = .ok a → A a := by
  apply triple_attempt h
  · rintro a s ⟨ha, hs⟩
    refine ⟨?_, hs⟩
    intro b hb
    cases hb
    exact ha
  · intro e s hs
    refine ⟨?_, hs⟩
    intro b hb
    cases hb
  · exact fun _ _ hs => hs

theorem keeps_inContext {id : Identity} (h : Keeps J m A)
    (hin : ∀ s, I s → J { s with context := some id })
    (hout : ∀ s t, I s → J t → I { t with context := s.context }) : Keeps I (inContext id m) A :=
  triple_inContext h hin (fun s t _ hs ht => ⟨ht.1, hout s t hs ht.2⟩) fun s t _ hs ht => hout s t hs ht

end Rules

def Stat.plain : Stat where
  dev := 1
  ino := 2
  mode := 0o040777
  nlink := 1
  uid := 0
  gid := 0
  rdev := 0
  size := 0
  blksize := 4096
  blocks := 0
  atimeSec := 0
  atimeNsec := 0
  mtimeSec := 0
  mtimeNsec := 0
  ctimeSec := 0
  ctimeNsec := 0

def Call.plainAnswer : (c : Call) → c.Answer
  | .setUser _ => ()
  | .fstatat .. => Stat.plain
  | .openat .. => (⟨4⟩ : Fd)
  | .openPath .. => (⟨4⟩ : Fd)
  | .readlinkFd _ => ([47, 104] : List Byte)
  | .mkdirat .. => ()
  | .symlinkat .. => ()
  | .mknodat .. => ()
  | .linkat .. => ()
  | .renameat .. => ()
  | .unlinkat .. => ()
  | .readlinkat _ _ size => (⟨[], Nat.zero_le size⟩ : { t : List Byte // t.length ≤ size })
  | .fchmodat .. => ()
  | .fchownat .. => ()
  | .utimensat .. => ()
  | .faccessat .. => ()
  | .lgetxattr _ _ size => (⟨0, [], fun _ => Nat.zero_le size⟩ : XattrAnswer size)
  | .llistxattr _ size => (⟨0, [], fun _ => Nat.zero_le size⟩ : XattrAnswer size)
  | .lsetxattr .. => ()
  | .lremovexattr .. => ()
  | .findMount _ => (none : Option FileSystemType)
  | .fstat _ => Stat.plain
  | .fstatfs _ => (⟨0, 4096, 0, 0, 0, 0, 0, 0, 255⟩ : StatFs)
  | .ftruncate .. => ()
  | .fsync _ => ()
  | .read _ _ count => (⟨[], Nat.zero_le count⟩ : { d : List Byte // d.length ≤ count })
  | .write _ _ data => (UInt32.ofNat data.length : UInt32)
  | .fdopendir _ => (⟨5⟩ : Dir)
  | .readdir _ => (none : Option Dirent)
  | .seekdir .. => ()
  | .rewinddir _ => ()
  | .capget => (true : Bool)
  | .allocate _ => ()

def Kernel.plain : Kernel Unit where
  euid id := (id.map Identity.uid).getD 0
  call _ c w := (.ok c.plainAnswer, w)

end WslPlus.Plan9

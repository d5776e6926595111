import WslPlus.Plan9.Handler

/-!
# What an operation on a file may do

An event is fine for an identity when its paths stay below the root of the share and
it was made in the user context of that identity. Every operation adds only such
events, except those that a lapse allows, and leaves the name of its file confined.
-/

namespace WslPlus.Plan9

open List Program

/-- A nonempty part of a path other than `.` and `..`. -/
def IsComponent (c : List Byte) : Prop := isName c = true ∧ (0 : Byte) ∉ c

def Confined (p : List Byte) : Prop := Segments.Joined slash IsComponent p

theorem isComponent_spec (c : List Byte) (hc : IsComponent c) : c ≠ [] ∧ slash ∉ c := by
  have h := hc.1
  simp only [isName, Bool.and_eq_true, bne_iff_ne, ne_eq, Bool.not_eq_true', contains_eq_mem,
    decide_eq_false_iff_not] at h
  exact ⟨h.1.1.1, h.2⟩

theorem confined_nil : Confined [] := Segments.joined_nil

theorem Confined.appendPath {p : List Byte} (h : Confined p) (c : Component) :
    Confined (appendPath p c.1) := Segments.Joined.append isComponent_spec h c.2

theorem Confined.cutAtLastSlash {p : List Byte} (h : Confined p) : Confined (cutAtLastSlash p) :=
  Segments.Joined.cutAtLast isComponent_spec h

/-- Calls that open, look at or change something by its path. The descriptor links of the
server itself are not counted. -/
def Call.byPath : Call → Bool
  | .setUser _ => false
  | .readlinkFd _ => false
  | .fstat _ => false
  | .fstatfs _ => false
  | .ftruncate .. => false
  | .fsync _ => false
  | .read .. => false
  | .write .. => false
  | .fdopendir _ => false
  | .readdir _ => false
  | .seekdir .. => false
  | .rewinddir _ => false
  | .capget => false
  | .allocate _ => false
  | _ => true

def Call.rootPaths : Call → List PathArg
  | .fstatat (.root _) p _ => [p]
  | .openat (.root _) p _ _ => [p]
  | .mkdirat (.root _) p _ => [p]
  | .symlinkat _ (.root _) p => [p]
  | .mknodat (.root _) p _ _ _ => [p]
  | .linkat (.root _) target p => [target, p]
  | .renameat (.root _) old new => [old, new]
  | .unlinkat (.root _) p _ => [p]
  | .readlinkat (.root _) p _ => [p]
  | .fchmodat (.root _) p _ => [p]
  | .fchownat (.root _) p _ _ => [p]
  | .utimensat (.root _) p _ _ => [p]
  | .faccessat (.root _) p _ => [p]
  | _ => []

def PathArg.IsConfined : PathArg → Prop
  | .name p => Confined p
  | _ => False

/-- The paths are confined; only `faccessat` on the root itself gets the path that the
kernel reports for its descriptor. -/
def Call.IsConfined (c : Call) : Prop :=
  (∀ p ∈ c.rootPaths, p.IsConfined) ∨ ∃ fd p mode, c = .faccessat (.root fd) (.fdPath fd p) mode

/-- An event that is in order for an identity, unless a lapse is allowed. -/
structure Event.Fine (id : Identity) (lapse : Bool) (e : Event) : Prop where
  confined : e.call.IsConfined
  context : e.call.byPath = true → e.context = some id ∨ lapse = true

/-- A machine that has added only events that are in order. -/
structure Logged {W : Type} (id : Identity) (lapse : Bool) (start : List Event) (ctx : Option Identity)
    (m : Machine W) : Prop where
  context : m.context = ctx
  trace : ∃ added, m.trace = start ++ added ∧ ∀ e ∈ added, e.Fine id lapse

section Calls

variable {W : Type} {k : Kernel W} {α : Type} {id : Identity} {lapse : Bool} {start : List Event}
variable {ctx : Option Identity} {c : Call} {p : List Byte} {A : α → Prop} {m : Sys W α}

theorem Logged.add {s : Machine W} (h : Logged id lapse start ctx s) (w : W)
    (hc : Event.Fine id lapse ⟨ctx, c⟩) :
    Logged id lapse start ctx { s with world := w, trace := s.trace ++ [⟨s.context, c⟩] } := by
  obtain ⟨added, htrace, hfine⟩ := h.trace
  refine ⟨h.context, added ++ [⟨s.context, c⟩], by rw [htrace, append_assoc], ?_⟩
  intro e he
  rcases mem_append.mp he with he | he
  · exact hfine e he
  · rw [mem_singleton.mp he, h.context]
    exact hc

theorem keeps_syscall (hc : Event.Fine id lapse ⟨ctx, c⟩) :
    Keeps (Logged id lapse start ctx) (syscall k c) fun _ => True := by
  intro s hs
  simp only [syscall, exec_ofFunction]
  rcases hr : k.call s.context c s.world with ⟨r, w⟩
  have hadd := hs.add w hc
  cases r with
  | ok a => exact ⟨trivial, hadd⟩
  | error e => exact hadd

theorem fine_quiet (hpath : c.byPath = false) (hroot : c.rootPaths = []) :
    Event.Fine id lapse ⟨ctx, c⟩ where
  confined := .inl fun q hq => by rw [hroot] at hq; cases hq
  context h := by rw [hpath] at h; cases h

section

variable (hctx : ctx = some id ∨ lapse = true)
include hctx

theorem fine_absolute (hroot : c.rootPaths = []) :
    Event.Fine id lapse ⟨ctx, c⟩ where
  confined := .inl fun q hq => by rw [hroot] at hq; cases hq
  context _ := hctx

theorem fine_name (hroot : c.rootPaths = [.name p])
    (hp : Confined p) : Event.Fine id lapse ⟨ctx, c⟩ where
  confined := .inl fun q hq => by
    rw [hroot, mem_singleton] at hq
    rw [hq]
    exact hp
  context _ := hctx

theorem fine_names {q : List Byte}
    (hroot : c.rootPaths = [.name p, .name q]) (hp : Confined p) (hq : Confined q) :
    Event.Fine id lapse ⟨ctx, c⟩ where
  confined := .inl fun r hr => by
    rw [hroot] at hr
    rcases mem_cons.mp hr with rfl | hr
    · exact hp
    · rw [mem_singleton.mp hr]
      exact hq
  context _ := hctx

end

theorem keeps_withUserContext (h : Keeps (Logged id lapse start (some id)) m A) :
    Keeps (Logged id lapse start none) (withUserContext k id m) A := by
  refine Keeps.bind (keeps_orThrow (keeps_syscall (fine_quiet rfl rfl))) fun _ _ => ?_
  apply keeps_inContext h
  · exact fun s hs => ⟨rfl, hs.trace⟩
  · exact fun s t hs ht => ⟨hs.context, ht.trace⟩

theorem keeps_geteuid : Keeps (Logged id lapse start ctx) (geteuid k) fun _ => True :=
  fun _ hs => ⟨trivial, hs⟩

theorem keeps_getFdPath (fd : Fd) : Keeps (Logged id lapse start ctx) (getFdPath k fd) fun _ => True :=
  keeps_orThrow (keeps_syscall (fine_quiet rfl rfl))

section Covered

variable (hctx : ctx = some id ∨ lapse = true)
include hctx

theorem keeps_openAt (fd : Fd) (hp : Confined p) (flags : List LinuxFlag) (mode : UInt32) :
    Keeps (Logged id lapse start ctx) (openAt k fd p flags mode) fun _ => True := by
  refine Keeps.ite (fun _ => Keeps.ite (fun _ => ?_) fun _ => ?_) fun _ => ?_
  · exact (keeps_getFdPath fd).bind fun _ _ => keeps_syscall (fine_absolute hctx rfl)
  · exact keeps_syscall (fine_absolute hctx rfl)
  · exact keeps_syscall (fine_name hctx rfl hp)

theorem keeps_accessHelper (fd : Fd) (hp : Confined p) (mode : UInt32) :
    Keeps (Logged id lapse start ctx) (accessHelper k fd p mode) fun _ => True := by
  refine Keeps.ite (fun _ => ?_) fun _ => ?_
  · refine (keeps_getFdPath fd).bind fun path _ => keeps_syscall ?_
    exact ⟨.inr ⟨fd, path, mode, rfl⟩, fun _ => hctx⟩
  · exact keeps_syscall (fine_name hctx rfl hp)

theorem keeps_getFileQidByPath (fd : Fd) (hp : Confined p) :
    Keeps (Logged id lapse start ctx) (getFileQidByPath k fd p) fun _ => True :=
  (keeps_syscall (fine_name hctx rfl hp)).bind fun _ _ => Keeps.pure trivial

end Covered

end Calls

section Files

variable {W : Type} {k : Kernel W} {lapse : Bool} {start : List Event} {f : File}

structure File.Beside (f g : File) : Prop where
  root : g.root = f.root
  confined : Confined g.fileName

variable {id : Identity}

theorem keeps_validateExists {ctx : Option Identity}
    (hctx : ctx = some id ∨ lapse = true) (h : Confined f.fileName) :
    Keeps (Logged id lapse start ctx) (f.validateExists k) fun g => f.Beside g := by
  refine Keeps.bind (keeps_syscall (fine_name hctx rfl h)) fun st _ => ?_
  exact Keeps.pure ⟨rfl, h⟩

theorem keeps_initializeFile (root : Root) :
    Keeps (Logged root.identity lapse start none) (File.initializeFile k root) fun g =>
      g.root = root ∧ Confined g.fileName := by
  refine keeps_withUserContext ?_
  refine (keeps_validateExists (.inl rfl) confined_nil).imp ?_
  intro g hg
  exact ⟨hg.root, hg.confined⟩

theorem keeps_checkMount (parentDevice device : UInt64) :
    Keeps (Logged id lapse start (some id)) (File.checkMount k parentDevice device) fun _ => True := by
  unfold File.checkMount
  split
  · refine (keeps_attempt (keeps_syscall (fine_absolute (.inl rfl) rfl))).bind fun r _ => ?_
    split
    · exact Keeps.throw
    · exact Keeps.throw
    · exact Keeps.throw
    · exact Keeps.pure trivial
  · exact Keeps.pure trivial

section

variable (h : Confined f.fileName)
include h

theorem keeps_walk (name : Component) :
    Keeps (Logged f.root.identity lapse start none) (f.walk k name) fun r => f.Beside r.2 := by
  have happ := h.appendPath name
  unfold File.walk
  split
  · exact Keeps.pure ⟨rfl, h⟩
  · have hbody : Keeps (Logged f.root.identity lapse start (some f.root.identity))
        (do
          let found ← { f with fileName := appendPath f.fileName name.1 }.validateExists k
          File.checkMount k f.device found.device
          return found) fun g => f.Beside g := by
      refine (keeps_validateExists (.inl rfl) happ).bind fun g hg => ?_
      refine (keeps_checkMount _ _).bind fun _ _ => ?_
      exact Keeps.pure ⟨hg.root, hg.confined⟩
    refine (keeps_attempt (keeps_withUserContext hbody)).bind fun r hr => ?_
    cases r with
    | ok g => exact Keeps.pure (hr g rfl)
    | error e => exact Keeps.pure ⟨rfl, happ.cutAtLastSlash⟩

theorem keeps_getAttr (mask : UInt64) :
    Keeps (Logged f.root.identity lapse start none) (f.getAttr k mask) fun _ => True := by
  refine keeps_withUserContext ?_
  exact (keeps_syscall (fine_name (.inl rfl) rfl h)).bind fun _ _ => Keeps.pure trivial

theorem keeps_setAttr (valid : UInt32) (stat : StatResult) :
    Keeps (Logged f.root.identity lapse start none) (f.setAttr k valid stat) fun _ => True := by
  have hname : ∀ c : Call, c.rootPaths = [.name f.fileName] →
      Keeps (Logged f.root.identity lapse start (some f.root.identity)) (syscall k c) fun _ => True :=
    fun c hc => keeps_syscall (fine_name (.inl rfl) hc h)
  refine keeps_withUserContext ?_
  refine Keeps.bind (Keeps.when ?_) fun _ _ => ?_
  · exact (keeps_openAt (.inl rfl) f.root.rootFd h _ _).bind fun _ _ => keeps_syscall (fine_quiet rfl rfl)
  refine Keeps.bind (Keeps.when (hname _ rfl)) fun _ _ => ?_
  refine Keeps.bind (Keeps.when (hname _ rfl)) fun _ _ => ?_
  refine Keeps.bind (Keeps.when (hname _ rfl)) fun _ _ => ?_
  exact Keeps.when (hname _ rfl)

theorem keeps_lopen (flags : UInt32) :
    Keeps (Logged f.root.identity lapse start none) (f.lopen k flags) fun r => f.Beside r.2 := by
  unfold File.lopen
  split
  · exact Keeps.throw
  · refine (keeps_withUserContext (keeps_openAt (.inl rfl) f.root.rootFd h _ _)).bind fun _ _ => ?_
    exact Keeps.pure ⟨rfl, h⟩

theorem keeps_create (name : Component) (flags mode : UInt32) :
    Keeps (Logged f.root.identity lapse start none) (f.create k name flags mode) fun r => f.Beside r.2 := by
  have happ := h.appendPath name
  unfold File.create
  split
  · exact Keeps.throw
  · refine keeps_withUserContext ?_
    refine (keeps_openAt (.inl rfl) f.root.rootFd happ _ _).bind fun fd _ => ?_
    refine (keeps_syscall (fine_quiet rfl rfl)).bind fun _ _ => ?_
    exact Keeps.pure ⟨rfl, happ⟩

theorem keeps_mkDir (name : Component) (mode : UInt32) :
    Keeps (Logged f.root.identity lapse start none) (f.mkDir k name mode) fun _ => True := by
  have happ := h.appendPath name
  refine keeps_withUserContext ?_
  refine (keeps_syscall (fine_name (.inl rfl) rfl happ)).bind fun _ _ => ?_
  exact keeps_getFileQidByPath (.inl rfl) _ happ

theorem keeps_unlinkAt (name : Component) (flags : UInt32) :
    Keeps (Logged f.root.identity lapse start none) (f.unlinkAt k name flags) fun _ => True :=
  keeps_withUserContext (keeps_syscall (fine_name (.inl rfl) rfl (h.appendPath name)))

theorem keeps_remove :
    Keeps (Logged f.root.identity lapse start none) (f.remove k) fun _ => True := by
  unfold File.remove
  split
  · exact Keeps.throw
  · exact keeps_withUserContext (keeps_syscall (fine_name (.inl rfl) rfl h))

end

def Fid.IsConfined : Fid → Prop
  | .file f => Confined f.fileName
  | .xattr _ => True

variable {other : Fid}

theorem keeps_sameRoot (h : other.IsConfined) {ctx : Option Identity} :
    Keeps (Logged id lapse start ctx) (f.sameRoot other : Sys W File) fun g => Confined g.fileName := by
  unfold File.sameRoot
  split
  · split
    · exact Keeps.pure h
    · exact Keeps.throw
  · exact Keeps.throw

section

variable (h : Confined f.fileName)
include h

theorem keeps_renameAt (hother : other.IsConfined) (oldName newName : Component) :
    Keeps (Logged f.root.identity lapse start none) (f.renameAt k oldName other newName) fun _ => True := by
  refine (keeps_sameRoot hother).bind fun g hg => ?_
  refine keeps_withUserContext (keeps_syscall ?_)
  exact fine_names (.inl rfl) rfl (h.appendPath oldName) (hg.appendPath newName)

theorem keeps_rename (hother : other.IsConfined) (newName : Component) :
    Keeps (Logged f.root.identity lapse start none) (f.rename k other newName) fun g => f.Beside g := by
  refine (keeps_sameRoot hother).bind fun g hg => ?_
  have happ := hg.appendPath newName
  split
  · exact Keeps.throw
  · refine (keeps_withUserContext (keeps_syscall ?_)).bind fun _ _ => Keeps.pure ⟨rfl, happ⟩
    exact fine_names (.inl rfl) rfl h happ

theorem keeps_symLink (name : Component) (target : Text) :
    Keeps (Logged f.root.identity lapse start none) (f.symLink k name target) fun _ => True := by
  have happ := h.appendPath name
  refine keeps_withUserContext ?_
  refine (keeps_syscall (fine_name (.inl rfl) rfl happ)).bind fun _ _ => ?_
  exact keeps_getFileQidByPath (.inl rfl) _ happ

theorem keeps_readLink (size : Nat) :
    Keeps (Logged f.root.identity lapse start none) (f.readLink k size) fun _ => True :=
  keeps_withUserContext (keeps_syscall (fine_name (.inl rfl) rfl h))

theorem keeps_link (hother : other.IsConfined) (newName : Component) :
    Keeps (Logged f.root.identity lapse start none) (f.link k newName other) fun _ => True := by
  refine (keeps_sameRoot hother).bind fun g hg => ?_
  refine keeps_withUserContext (keeps_syscall ?_)
  exact fine_names (.inl rfl) rfl hg (h.appendPath newName)

theorem keeps_mkNod (name : Component) (mode major minor : UInt32) :
    Keeps (Logged f.root.identity lapse start none) (f.mkNod k name mode major minor) fun _ => True := by
  have happ := h.appendPath name
  refine keeps_withUserContext ?_
  refine (keeps_syscall (fine_name (.inl rfl) rfl happ)).bind fun _ _ => ?_
  exact keeps_getFileQidByPath (.inl rfl) _ happ

theorem keeps_access (flags : UInt32) :
    Keeps (Logged f.root.identity lapse start none) (f.access k flags) fun _ => True := by
  have hparent := h.cutAtLastSlash
  have hown : ∀ parent : Stat, Keeps (Logged f.root.identity lapse start (some f.root.identity))
      (File.stickyCheck.checkOwner k f parent) fun _ => True := by
    intro parent
    refine keeps_geteuid.bind fun uid _ => ?_
    split
    · exact Keeps.pure trivial
    · refine (keeps_syscall (fine_name (.inl rfl) rfl h)).bind fun st _ => ?_
      split
      · exact Keeps.pure trivial
      · exact Keeps.throw
  have hsticky : ∀ parent : Stat, Keeps (Logged f.root.identity lapse start (some f.root.identity))
      (f.stickyCheck k parent) fun _ => True := by
    intro parent
    refine (keeps_attempt (keeps_syscall (fine_quiet rfl rfl))).bind fun r _ => ?_
    split
    · exact Keeps.pure trivial
    · split
      · exact hown parent
      · exact Keeps.throw
    · exact hown parent
  refine keeps_withUserContext ?_
  refine (keeps_accessHelper (.inl rfl) _ h _).bind fun _ _ => ?_
  split
  · split
    · exact Keeps.throw
    · refine (keeps_accessHelper (.inl rfl) _ hparent _).bind fun _ _ => ?_
      refine (keeps_syscall (fine_name (.inl rfl) rfl hparent)).bind fun st _ => ?_
      exact Keeps.when (hsticky st)
  · exact Keeps.pure trivial

theorem keeps_statFs (hlapse : lapse = true) :
    Keeps (Logged f.root.identity lapse start none) (f.statFs k) fun _ => True := by
  refine (keeps_openAt (.inr hlapse) f.root.rootFd h _ _).bind fun fd _ => ?_
  exact keeps_withUserContext (keeps_syscall (fine_quiet rfl rfl))

end

end Files

section Descriptors

variable {W : Type} {k : Kernel W} {id : Identity} {lapse : Bool} {start : List Event}
variable {ctx : Option Identity} {f : File}

theorem keeps_fsync : Keeps (Logged id lapse start ctx) (f.fsync k) fun _ => True := by
  unfold File.fsync
  split
  · exact keeps_syscall (fine_quiet rfl rfl)
  · exact Keeps.throw

theorem keeps_read (offset : UInt64) (count : Nat) :
    Keeps (Logged id lapse start ctx) (f.read k offset count) fun _ => True := by
  unfold File.read
  split
  · exact Keeps.throw
  · refine (keeps_attempt (keeps_syscall (fine_quiet rfl rfl))).bind fun r _ => ?_
    split
    · exact Keeps.pure trivial
    · exact Keeps.ite (fun _ => Keeps.pure trivial) fun _ => Keeps.throw

theorem keeps_write (offset : UInt64) (data : List Byte) :
    Keeps (Logged id lapse start ctx) (f.write k offset data) fun _ => True := by
  unfold File.write
  split
  · exact Keeps.throw
  · exact keeps_syscall (fine_quiet rfl rfl)

theorem keeps_xattrPath : Keeps (Logged id lapse start ctx) (f.xattrPath k) fun _ => True :=
  (keeps_getFdPath _).bind fun _ _ => Keeps.pure trivial

theorem keeps_xattrWalk (name : Text) :
    Keeps (Logged id lapse start ctx) (f.xattrWalk k name) fun x => x.root = f.root :=
  keeps_xattrPath.bind fun _ _ => Keeps.pure rfl

theorem keeps_xattrCreate (name : Text) (size : UInt64) (flags : UInt32) :
    Keeps (Logged id lapse start ctx) (f.xattrCreate k name size flags) fun x => x.root = f.root := by
  refine Keeps.ite (fun _ => Keeps.throw) fun _ => ?_
  refine keeps_xattrPath.bind fun _ _ => ?_
  refine (keeps_orThrow (keeps_syscall (fine_quiet rfl rfl))).bind fun _ _ => ?_
  exact Keeps.pure rfl

theorem keeps_xattrWrite (x : XAttr) (offset : UInt64) (data : List Byte) :
    Keeps (Logged id lapse start ctx) (x.write offset data : Sys W _) fun r => r.2.root = x.root := by
  refine Keeps.ite (fun _ => Keeps.throw) fun _ => ?_
  exact Keeps.ite (fun _ => Keeps.pure rfl) fun _ => Keeps.pure rfl

theorem keeps_xattrClunk (x : XAttr) (hlapse : x.access = .write → lapse = true) :
    Keeps (Logged id lapse start ctx) (x.clunk k) fun _ => True := by
  refine Keeps.ite (fun _ => Keeps.pure trivial) fun hwrite => ?_
  have hctx : ctx = some id ∨ lapse = true := .inr (hlapse (not_not.mp hwrite))
  exact Keeps.ite (fun _ => keeps_syscall (fine_absolute hctx rfl)) fun _ =>
    keeps_syscall (fine_absolute hctx rfl)

theorem keeps_next (e : DirectoryEnumerator) : Keeps (Logged id lapse start ctx) (e.next k) fun _ => True := by
  refine (keeps_attempt (keeps_syscall (fine_quiet rfl rfl))).bind fun r _ => ?_
  split <;> exact Keeps.pure trivial

theorem keeps_seek (e : DirectoryEnumerator) (offset : UInt64) :
    Keeps (Logged id lapse start ctx) (e.seek k offset) fun _ => True := by
  have hquiet : ∀ c : Call, c.byPath = false → c.rootPaths = [] →
      Keeps (Logged id lapse start ctx) (do let _ ← attempt (syscall k c); return ()) fun _ => True :=
    fun c hpath hroot => (keeps_attempt (keeps_syscall (fine_quiet hpath hroot))).bind fun _ _ =>
      Keeps.pure trivial
  refine Keeps.ite (fun _ => ?_) fun _ => Keeps.pure trivial
  refine Keeps.bind (Keeps.ite (fun _ => hquiet _ rfl rfl) fun _ => hquiet _ rfl rfl) fun _ _ => ?_
  exact Keeps.pure trivial

theorem keeps_entryAttributes (hlapse : lapse = true) (dir : Dir) (entry : Dirent) :
    Keeps (Logged id lapse start ctx) (entryAttributes k dir entry) fun _ => True := by
  refine (keeps_attempt (keeps_syscall (fine_absolute (.inr hlapse) rfl))).bind fun r _ => ?_
  split <;> exact Keeps.pure trivial

variable {includeAttributes : Bool}

theorem keeps_attributesToUse (hlapse : includeAttributes = true → lapse = true) (dir : Dir) (entry : Dirent) :
    Keeps (Logged id lapse start ctx) (attributesToUse k includeAttributes dir entry) fun _ => True := by
  refine Keeps.ite (fun hinclude => ?_) fun _ => Keeps.pure trivial
  exact (keeps_entryAttributes (hlapse hinclude) dir entry).bind fun _ _ => Keeps.pure trivial

theorem keeps_readDirLoop (hlapse : includeAttributes = true → lapse = true)
    (e : DirectoryEnumerator) (space : Nat) (written : Bool) :
    Keeps (Logged id lapse start ctx) (readDirLoop k includeAttributes e space written) fun _ => True := by
  induction space using Nat.strongRecOn generalizing e written with
  | ind space ih =>
    rw [readDirLoop]
    refine (keeps_next e).bind fun r _ => ?_
    split
    · exact Keeps.pure trivial
    · exact Keeps.pure trivial
    · rename_i entry e'
      refine (keeps_attributesToUse hlapse e'.dir entry).bind fun stat _ => ?_
      split
      · exact Keeps.pure trivial
      · rename_i hfits
        have hpos := dirEntrySize_pos entry.name.1 stat
        refine (ih (space - dirEntrySize entry.name.1 stat) (by omega) e' true).bind fun _ _ => ?_
        exact Keeps.pure trivial

theorem keeps_readDir (h : Confined f.fileName) (offset : UInt64) (count : Nat)
    (hlapse : includeAttributes = true → f.isOpen = true → lapse = true) :
    Keeps (Logged id lapse start ctx) (f.readDir k offset count includeAttributes) fun r => f.Beside r.2 := by
  have hfrom : f.isOpen = true → ∀ (g : File) (e : DirectoryEnumerator), f.Beside g →
      Keeps (Logged id lapse start ctx)
        (File.readDir.readFrom k offset count includeAttributes g e) fun r => f.Beside r.2 := by
    intro hopen g e hg
    refine (keeps_seek e offset).bind fun e' _ => ?_
    refine (keeps_readDirLoop (fun hinc => hlapse hinc hopen) e' count false).bind fun r _ => ?_
    exact Keeps.pure ⟨hg.root, hg.confined⟩
  refine Keeps.ite (fun _ => Keeps.pure ⟨rfl, h⟩) fun hopen => ?_
  have hopen' : f.isOpen = true := by simpa using hopen
  split
  · exact hfrom hopen' _ _ ⟨rfl, h⟩
  · refine (keeps_orThrow (keeps_syscall (fine_quiet rfl rfl))).bind fun dir _ => ?_
    exact hfrom hopen' _ _ ⟨rfl, h⟩
  · exact Keeps.pure ⟨rfl, h⟩

end Descriptors

section Attributes

variable {W : Type} {k : Kernel W} {lapse : Bool} {start : List Event}

theorem keeps_getValue (x : XAttr) (size : Nat) :
    Keeps (Logged x.root.identity lapse start none) (x.getValue k size) fun _ => True := by
  refine keeps_withUserContext ?_
  exact Keeps.ite (fun _ => keeps_syscall (fine_absolute (.inl rfl) rfl)) fun _ =>
    keeps_syscall (fine_absolute (.inl rfl) rfl)

theorem keeps_getSize (x : XAttr) :
    Keeps (Logged x.root.identity lapse start none) (x.getSize k) fun _ => True :=
  (keeps_getValue x 0).bind fun _ _ => Keeps.pure trivial

theorem keeps_xattrRead (x : XAttr) (offset : UInt64) (count : Nat) :
    Keeps (Logged x.root.identity lapse start none) (x.read k offset count) fun _ => True :=
  Keeps.ite (fun _ => Keeps.throw) fun _ => keeps_getValue x count

end Attributes

end WslPlus.Plan9

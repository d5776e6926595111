import WslPlus.Lib.Transition
import WslPlus.Plan9.WOpen

/-!
# The status of a reply to `Twopen`

A kernel is made to keep a record of the calls that have made an object. Without names in a `Twopen`
nothing is looked up and nothing is made, and the status is that of a new object all the same.
-/

namespace WslPlus.Plan9

open List Program

def Call.creating : Call → Bool
  | .openat _ _ flags _ => .creat ∈ flags
  | .openPath _ flags => .creat ∈ flags
  | .mkdirat .. | .symlinkat .. | .mknodat .. | .linkat .. => true
  | _ => false

def Call.Makes (root : Fd) (path : List Byte) : Call → Prop
  | .openat base p flags _ => base = .root root ∧ p = .name path ∧ .creat ∈ flags ∧ .excl ∈ flags
  | .mkdirat base p _ => base = .root root ∧ p = .name path
  | _ => False

variable {W : Type}

def Kernel.recording (k : Kernel W) : Kernel (W × List Call) where
  euid := k.euid
  call ctx c w :=
    match k.call ctx c w.1 with
    | (.ok a, w') => (.ok a, w', if c.creating then w.2 ++ [c] else w.2)
    | (.error e, w') => (.error e, w', w.2)

def Environment.recording (env : Environment W) : Environment (W × List Call) where
  kernel := env.kernel.recording
  shares := env.shares
  serverUid := env.serverUid
  userGroupId := env.userGroupId
  nobodyGroupId := env.nobodyGroupId
  groupList := env.groupList

/-- To look at a file does not fail with `EEXIST`. -/
structure Kernel.LooksPlainly (k : Kernel W) : Prop where
  fstat : ∀ ctx fd w, (k.call ctx (.fstat fd) w).1 ≠ .error .exist
  fstatat : ∀ ctx base path flags w, (k.call ctx (.fstatat base path flags) w).1 ≠ .error .exist

def Machine.made (m : Machine (W × List Call)) : List Call := m.world.2

section Calls

variable {k : Kernel W} {α β : Type} {m : Sys (W × List Call) α} {t : List Call}
variable {Q : α → List Call → Prop} {E : Failure → List Call → Prop}

theorem observes_syscall (c : Call) :
    Observes Machine.made t (syscall k.recording c) (fun _ u => u = if c.creating then t ++ [c] else t)
      fun e u => u = t ∧ ∃ errno ctx w, e = .error errno ∧ (k.call ctx c w).1 = .error errno := by
  rintro s rfl
  simp only [syscall, exec_ofFunction]
  rcases hr : k.call s.context c s.world.1 with ⟨r, w'⟩
  cases r with
  | ok a =>
    simp only [Kernel.recording, hr]
    exact rfl
  | error e =>
    simp only [Kernel.recording, hr]
    exact ⟨rfl, e, s.context, s.world.1, rfl, by rw [hr]⟩

theorem ignores_syscall {c : Call} (hc : c.creating = false) :
    Ignores Machine.made (syscall k.recording c) := by
  intro t
  refine (observes_syscall c).imp ?_ ?_
  · rintro _ u rfl
    rw [hc]
    rfl
  · rintro e u ⟨rfl, -⟩
    rfl

theorem observes_attempt (h : Observes Machine.made t m Q E) :
    Observes Machine.made t (attempt m) (fun r u => match r with
        | .ok a => Q a u
        | .error e => E (.error e) u) E :=
  triple_attempt h (fun _ _ hs => hs) (fun _ _ hs => hs) fun _ _ hs => hs

theorem ignores_attempt (h : Ignores Machine.made m) : Ignores Machine.made (attempt m) := by
  intro t
  refine (observes_attempt (h t)).imp ?_ fun _ _ hu => hu
  rintro r u hu
  cases r with
  | ok a => exact hu
  | error e => exact hu

theorem ignores_orThrow (h : Ignores Machine.made m) : Ignores Machine.made (orThrow m) :=
  fun t => triple_orThrow (h t) (fun _ _ hs => hs) fun _ _ hs => hs

theorem observes_withUserContext (id : Identity) (h : Observes Machine.made t m Q E)
    (hthrown : ∀ e, E (.thrown e) t) : Observes Machine.made t (withUserContext k.recording id m) Q E := by
  have hset : Observes Machine.made t (orThrow (syscall k.recording (.setUser id))) (fun _ u => u = t) E := by
    apply triple_orThrow (observes_syscall (k := k) (.setUser id))
    · rintro e s ⟨hmade, -⟩
      rw [hmade]
      exact hthrown e
    · rintro e s ⟨hmade, -⟩
      rw [hmade]
      exact hthrown e
  refine hset.bind ?_
  rintro _ u rfl
  exact triple_inContext h (fun _ hs => hs) (fun _ _ _ _ ht => ht) fun _ _ _ _ ht => ht

theorem ignores_withUserContext {id : Identity} (h : Ignores Machine.made m) :
    Ignores Machine.made (withUserContext k.recording id m) :=
  fun t => observes_withUserContext id (h t) fun _ => rfl

end Calls

section Files

variable {k : Kernel W} {t : List Call}

theorem ignores_checkMount (parentDevice device : UInt64) :
    Ignores Machine.made (File.checkMount k.recording parentDevice device) := by
  refine Ignores.ite ((ignores_attempt (ignores_syscall rfl)).bind fun r => ?_) (Ignores.pure ())
  split
  · exact Ignores.throw _
  · exact Ignores.throw _
  · exact Ignores.throw _
  · exact Ignores.pure ()

theorem ignores_walk (f : File) (name : Component) : Ignores Machine.made (f.walk k.recording name) := by
  refine Ignores.ite (Ignores.pure _) ?_
  refine Ignores.bind (ignores_attempt (ignores_withUserContext ?_)) fun r => ?_
  · refine Ignores.bind ?_ fun found => (ignores_checkMount _ _).bind fun _ => Ignores.pure _
    exact (ignores_syscall rfl).bind fun st => Ignores.pure _
  · cases r with
    | ok found => exact Ignores.pure _
    | error e => exact Ignores.pure _

theorem ignores_getAttr (f : File) (mask : UInt64) : Ignores Machine.made (f.getAttr k.recording mask) :=
  ignores_withUserContext ((ignores_syscall rfl).bind fun _ => Ignores.pure _)

theorem ignores_readLink (f : File) (size : Nat) : Ignores Machine.made (f.readLink k.recording size) :=
  ignores_withUserContext (ignores_syscall rfl)

theorem ignores_getFdPath (fd : Fd) : Ignores Machine.made (getFdPath k.recording fd) :=
  ignores_orThrow (ignores_syscall rfl)

theorem ignores_accessHelper (fd : Fd) (path : List Byte) (mode : UInt32) :
    Ignores Machine.made (accessHelper k.recording fd path mode) :=
  Ignores.ite ((ignores_getFdPath fd).bind fun _ => ignores_syscall rfl) (ignores_syscall rfl)

theorem ignores_stickyCheck (f : File) (parent : Stat) :
    Ignores Machine.made (f.stickyCheck k.recording parent) := by
  have hid : Ignores Machine.made (geteuid k.recording) := by
    rintro t s rfl
    exact rfl
  have hown : Ignores Machine.made (File.stickyCheck.checkOwner k.recording f parent) := by
    refine hid.bind fun uid => Ignores.ite (Ignores.pure ()) ?_
    exact (ignores_syscall rfl).bind fun st => Ignores.ite (Ignores.pure ()) (Ignores.throw _)
  refine (ignores_attempt (ignores_syscall rfl)).bind fun capable => ?_
  split
  · exact Ignores.pure ()
  · exact Ignores.ite hown (Ignores.throw _)
  · exact hown

theorem ignores_access (f : File) (flags : UInt32) : Ignores Machine.made (f.access k.recording flags) := by
  refine ignores_withUserContext ((ignores_accessHelper _ _ _).bind fun _ => ?_)
  refine Ignores.ite (Ignores.ite (Ignores.throw _) ?_) (Ignores.pure ())
  refine (ignores_accessHelper _ _ _).bind fun _ => (ignores_syscall rfl).bind fun st => ?_
  exact Ignores.when (ignores_stickyCheck f st)

theorem creat_not_mem (flags : UInt32) : .creat ∉ openFlagsToLinuxFlags (flags &&& ~~~OpenFlags.create) := by
  have hclear : hasFlag (flags &&& ~~~OpenFlags.create) OpenFlags.create = false := by
    have hzero : flags &&& ~~~OpenFlags.create &&& OpenFlags.create = 0 := by
      rw [UInt32.and_assoc]
      exact UInt32.and_zero
    rw [hasFlag, hzero]
    decide
  intro hmem
  obtain ⟨entry, hentry, heq⟩ := mem_map.mp hmem
  obtain ⟨hentry, hset⟩ := mem_filter.mp hentry
  have hcreate : entry.1 = OpenFlags.create := by
    simp only [openFlagsMapping, mem_cons, not_mem_nil, or_false] at hentry
    rcases hentry with rfl | rfl | rfl | rfl | rfl | rfl | rfl | rfl | rfl | rfl | rfl | rfl | rfl | rfl | rfl | rfl | rfl <;>
      first
      | rfl
      | cases heq
  rw [hcreate, hclear] at hset
  cases hset

theorem excl_mem (flags : UInt32) : .excl ∈ openFlagsToLinuxFlags (flags ||| OpenFlags.exclusive) := by
  have hset : hasFlag (flags ||| OpenFlags.exclusive) OpenFlags.exclusive = true := by
    rw [hasFlag, beq_iff_eq, ← UInt32.toBitVec_inj]
    ext i hi
    simp only [UInt32.toBitVec_and, UInt32.toBitVec_or, BitVec.getElem_and, BitVec.getElem_or]
    cases flags.toBitVec[i] <;> cases OpenFlags.exclusive.toBitVec[i] <;> rfl
  refine mem_map.mpr ⟨(OpenFlags.exclusive, .excl), mem_filter.mpr ⟨?_, hset⟩, rfl⟩
  simp [openFlagsMapping]

theorem ignores_openAt (dir : Fd) (name : List Byte) {flags : List LinuxFlag} (hflags : .creat ∉ flags)
    (mode : UInt32) :
    Ignores Machine.made (openAt k.recording dir name flags mode) := by
  have hcreat : decide (.creat ∈ flags ++ [LinuxFlag.cloexec]) = false := by simp [hflags]
  refine Ignores.ite (Ignores.ite ?_ (ignores_syscall hcreat)) (ignores_syscall hcreat)
  exact (ignores_getFdPath dir).bind fun path => ignores_syscall hcreat

theorem ignores_lopen (f : File) (flags : UInt32) : Ignores Machine.made (f.lopen k.recording flags) := by
  refine Ignores.ite (Ignores.throw _) ?_
  refine Ignores.bind (ignores_withUserContext (ignores_openAt _ _ ?_ _)) fun file => Ignores.pure _
  have hcreat := creat_not_mem flags
  simp [hcreat]

end Files

section Walk

variable {env : Environment W} {t : List Call}

def GrewByOne (t u : List Call) : Prop := u = t ∨ ∃ c, u = t ++ [c]

theorem observes_wopenCreate (hk : env.kernel.LooksPlainly) {f : File} (hf : Confined f.fileName)
    (name : Component)
    (flags mode : UInt32) :
    Observes Machine.made t (wopenCreate env.recording name flags mode f)
      (fun walk u => ∃ g qid needOpen c, walk = .found g qid false needOpen ∧ u = t ++ [c] ∧
        c.Makes f.root.rootFd (f.childPath name))
      fun e u => u = t ∨ e ≠ .error .exist ∧ ∃ c, u = t ++ [c] := by
  refine Observes.ite (fun _ => ?_) fun _ => ?_
  · have hmkDir : Observes Machine.made t (f.mkDir env.recording.kernel name mode)
        (fun _ u => u = t ++ [Call.mkdirat (.root f.root.rootFd) (.name (f.childPath name)) mode])
        fun e u => u = t ∨ e ≠ .error .exist ∧ ∃ c, u = t ++ [c] := by
      refine observes_withUserContext _ ?_ fun _ => .inl rfl
      refine Observes.bind ((observes_syscall _).imp (fun _ _ hu => hu) fun _ _ hu => .inl hu.1) ?_
      rintro _ u rfl
      refine Observes.bind ((observes_syscall _).imp (fun _ _ hu => hu) ?_) ?_
      · rintro e u ⟨rfl, errno, ctx, w, rfl, herror⟩
        refine .inr ⟨?_, _, rfl⟩
        intro heq
        cases heq
        exact hk.fstatat _ _ _ _ _ herror
      · rintro st u rfl
        exact Observes.pure rfl
    refine hmkDir.bind ?_
    rintro qid u rfl
    exact Observes.pure ⟨f, qid, true, _, rfl, rfl, rfl, rfl⟩
  · have hcreate : Observes Machine.made t (f.create env.recording.kernel name (flags ||| OpenFlags.exclusive) mode)
        (fun _ u => ∃ c, u = t ++ [c] ∧ c.Makes f.root.rootFd (f.childPath name))
        fun e u => u = t ∨ e ≠ .error .exist ∧ ∃ c, u = t ++ [c] := by
      refine Observes.ite (fun _ => Observes.throw (.inl rfl)) fun _ => ?_
      refine observes_withUserContext _ ?_ fun _ => .inl rfl
      have hopenAt (flags : List LinuxFlag) : openAt env.recording.kernel f.root.rootFd (f.childPath name) flags mode =
          syscall env.kernel.recording
            (.openat (.root f.root.rootFd) (.name (f.childPath name)) (flags ++ [LinuxFlag.cloexec]) mode) :=
        if_neg (appendPath_ne_nil hf name)
      have hopen : Observes Machine.made t (openAt env.recording.kernel f.root.rootFd (f.childPath name)
          (openFlagsToLinuxFlags (flags ||| OpenFlags.exclusive) ++ [LinuxFlag.creat, LinuxFlag.nofollow]) mode)
          (fun _ u => u = t ++ [.openat (.root f.root.rootFd) (.name (f.childPath name))
            (openFlagsToLinuxFlags (flags ||| OpenFlags.exclusive) ++ [LinuxFlag.creat, LinuxFlag.nofollow] ++
              [LinuxFlag.cloexec]) mode])
          fun e u => u = t ∨ e ≠ .error .exist ∧ ∃ c, u = t ++ [c] := by
        rw [hopenAt]
        refine (observes_syscall _).imp ?_ fun _ _ hu => .inl hu.1
        rintro fd u rfl
        exact if_pos (by simp [Call.creating])
      refine hopen.bind ?_
      rintro fd u rfl
      refine Observes.bind ((observes_syscall _).imp (fun _ _ hu => hu) ?_) ?_
      · rintro e u ⟨rfl, errno, ctx, w, rfl, herror⟩
        refine .inr ⟨?_, _, rfl⟩
        intro heq
        cases heq
        exact hk.fstat _ _ _ herror
      · rintro st u rfl
        refine Observes.pure ⟨_, rfl, rfl, rfl, ?_, ?_⟩
        · simp
        · simp [excl_mem]
    refine hcreate.bind ?_
    rintro ⟨qid, g⟩ u ⟨c, rfl, hmakes⟩
    exact Observes.pure ⟨g, qid, false, c, rfl, rfl, hmakes⟩

def Exchange.made (x : Exchange (W × List Call)) : List Call := x.session.machine.made

variable {α : Type}

theorem observes_sys {m : Sys (W × List Call) α} {Q : α → List Call → Prop} {E : Failure → List Call → Prop}
    {E' : Stop → List Call → Prop} (h : Observes Machine.made t m Q E) (hE : ∀ e u, E e u → E' e.toStop u) :
    Observes Exchange.made t (sys m) Q E' := by
  have hmap : Triple (fun s : Machine (W × List Call) => s.made = t) (mapError Failure.toStop m)
      (fun a s => Q a s.made) fun e s => E' e s.made :=
    Triple.mapError h fun e s hs => hE e s.made hs
  exact Triple.zoom hmap (fun _ hx => hx) (fun _ _ _ _ hs => hs) fun _ _ _ _ hs => hs

theorem ignores_sys {m : Sys (W × List Call) α} (h : Ignores Machine.made m) : Ignores Exchange.made (sys m) :=
  fun t => observes_sys (h t) fun _ _ hu => hu

theorem ignores_read (d : Decoder α) : Ignores (Exchange.made (W := W)) (read d) := Ignores.zoom fun _ _ => rfl

theorem ignores_reply (m : Writer α) : Ignores (Exchange.made (W := W)) (reply m) := Ignores.zoom fun _ _ => rfl

theorem ignores_lookupFid (fid : UInt32) : Ignores (Exchange.made (W := W)) (lookupFid fid) := by
  rintro t x rfl
  rw [exec_lookupFid]
  cases x.session.fids fid with
  | some item => exact rfl
  | none => exact rfl

theorem ignores_cloneFid (item : Fid) : Ignores (Exchange.made (W := W)) (cloneFid item) := by
  cases item with
  | file f => exact Ignores.pure _
  | xattr a => exact Ignores.throw _

theorem ignores_wopenParents (walked n : Nat) (f : File) :
    Ignores Exchange.made (wopenParents env.recording walked n f) := by
  induction n generalizing walked f with
  | zero => exact Ignores.pure _
  | succ n ih =>
    refine (ignores_read _).bind fun name => (ignores_sys (ignores_walk f name)).bind fun r => ?_
    obtain ⟨result, g⟩ := r
    cases result with
    | ok qid => exact ih (walked + 1) g
    | error e => exact Ignores.ite (Ignores.pure _) (Ignores.ite (Ignores.pure _) (Ignores.throw _))

theorem observes_walk {f : File} (hf : Confined f.fileName) (name : Component) :
    Observes Machine.made t (f.walk env.recording.kernel name)
      (fun r u => u = t ∧ ∀ e, r.1 = .error e → r.2 = f)
      fun _ u => u = t := by
  intro s hs
  have hmade := ignores_walk (k := env.kernel) f name t s hs
  have hfile := follows_walk hf name s (Kernel.Since.start : env.recording.kernel.Since s.world s.world)
  change Ends _ _ (exec (f.walk env.recording.kernel name) s) at hmade
  rcases hr : exec (f.walk env.recording.kernel name) s with ⟨r, s'⟩
  rw [hr] at hmade hfile
  cases r with
  | error e => exact hmade
  | ok r =>
    obtain ⟨result, g⟩ := r
    refine ⟨hmade, ?_⟩
    rintro e (rfl : result = .error e)
    exact hfile.1

def MadeUnless (existed : Bool) (t : List Call) (root : Fd) (path : List Byte) (u : List Call) : Prop :=
  if existed then u = t else ∃ c, u = t ++ [c] ∧ c.Makes root path

/-- What has been made when the walk of a `Twopen` ends. -/
def Made (t : List Call) (root : Fd) (path : List Byte) (walk : WOpenWalk) (u : List Call) : Prop :=
  match walk with
  | .answer _ _ _ => u = t
  | .found _ _ existed _ => MadeUnless existed t root path u

theorem observes_wopenFind (name : Component) (flags : UInt32) (parents : Nat) {f : File}
    (hf : Confined f.fileName) :
    Observes Exchange.made t (wopenFind env.recording name flags parents f) (fun r u => match r with
        | .inl walk => Made t f.root.rootFd (f.childPath name) walk u
        | .inr g => g = f ∧ u = t) fun _ u => u = t := by
  refine Observes.ite (fun _ => Observes.pure ⟨rfl, rfl⟩) fun _ => ?_
  refine (observes_sys (observes_walk hf name) fun _ _ hu => hu).bind ?_
  rintro ⟨result, g⟩ u ⟨rfl, hsame⟩
  cases result with
  | ok qid => exact Observes.pure rfl
  | error e =>
    obtain rfl := hsame e rfl
    refine Observes.ite (fun _ => Observes.ite (fun _ => Observes.pure ⟨rfl, rfl⟩) fun _ => Observes.pure rfl) fun _ => ?_
    exact Observes.ite (fun _ => Observes.pure rfl) fun _ => Observes.throw rfl

theorem observes_wopenItem (hk : env.kernel.LooksPlainly) (name : Component) (flags mode : UInt32)
    (parents tries : Nat)
    {f : File} (hf : Confined f.fileName) :
    Observes Exchange.made t (wopenItem env.recording name flags mode parents tries f)
      (Made t f.root.rootFd (f.childPath name)) fun _ u => GrewByOne t u := by
  induction tries with
  | zero => exact Observes.throw (.inl rfl)
  | succ tries ih =>
    refine Observes.bind ((observes_wopenFind name flags parents hf).imp (fun _ _ hu => hu) fun _ _ hu => .inl hu) ?_
    rintro (walk | g) u hu
    · exact Observes.pure hu
    · obtain ⟨rfl, rfl⟩ := hu
      refine Observes.bind (observes_sys (observes_attempt (observes_wopenCreate hk hf name flags mode)) ?_) ?_
      · rintro e u (rfl | ⟨-, hone⟩)
        · exact .inl rfl
        · exact .inr hone
      · intro r u hu
        cases r with
        | ok walk =>
          obtain ⟨g', qid, needOpen, c, rfl, rfl, hmakes⟩ := hu
          exact Observes.pure ⟨c, rfl, hmakes⟩
        | error e =>
          refine Observes.ite (fun hretry => ?_) fun _ => Observes.throw ?_
          · rcases hu with rfl | ⟨hne, -⟩
            · exact ih
            · exact absurd (congrArg Failure.error hretry.1) hne
          · rcases hu with rfl | ⟨-, hone⟩
            · exact .inl rfl
            · exact .inr hone

end Walk

section Reply

variable {env : Environment W} {s : Session (W × List Call)} {α : Type}

def Says (status : WOpenStatus) (x : Exchange W) : Prop :=
  ∃ walked qid rest, x.response.payload = wopenHead status walked qid ++ rest

theorem ignores_session : Ignores (Exchange.made (W := W)) session := by
  rintro t x rfl
  exact rfl

theorem ignores_ensureSize (message : MessageType) (extraSize : Nat) :
    Ignores (Exchange.made (W := W)) (ensureSize message extraSize) :=
  ignores_session.bind fun _ => ignores_reply _

theorem ignores_writeReserved : Ignores (Exchange.made (W := W)) writeReserved := by
  iterate 3 refine (ignores_reply _).bind fun _ => ?_
  exact ignores_reply _

theorem ignores_writeTarget (f : File) (qid : Qid) :
    Ignores Exchange.made (writeWOpenReply.writeTarget env.recording f qid) := by
  have hspace : Ignores (Exchange.made (W := W)) stringSpace := by
    rintro t x rfl
    rw [stringSpace, exec_ofFunction]
    split <;> rfl
  refine Ignores.ite (hspace.bind fun space => ?_) (ignores_reply _)
  refine (ignores_sys (ignores_attempt (ignores_readLink f space))).bind fun target => ?_
  cases target with
  | ok target => exact (ignores_reply _).bind fun _ => ignores_reply _
  | error e => exact ignores_reply _

theorem ignores_writeWOpenReply (status : WOpenStatus) (walked : Nat) (f : File) (mask : UInt64) :
    Ignores Exchange.made (writeWOpenReply env.recording status walked f mask) := by
  refine (ignores_sys (ignores_getAttr f mask)).bind ?_
  rintro ⟨_, qid, stat⟩
  refine (ignores_ensureSize _ _).bind fun _ => ?_
  iterate 3 refine (ignores_reply _).bind fun _ => ?_
  refine (ignores_writeTarget f _).bind fun _ => ?_
  -- what is written of the attributes does not matter
  generalize SpanWriter.statResult stat = write
  iterate 2 refine (ignores_reply _).bind fun _ => ?_
  exact ignores_writeReserved

theorem ignores_emplaceFid (fid : UInt32) (item : Fid) : Ignores (Exchange.made (W := W))
    (emplaceFid fid item) := by
  refine ignores_session.bind fun s => ?_
  split
  · exact Ignores.throw _
  · rintro t x rfl
    exact rfl

theorem ignores_wopenFinish (newFid flags : UInt32) (mask : UInt64) (nameCount : Nat) (f : File) (qid : Qid)
    (existed needOpen : Bool) :
    Ignores Exchange.made (wopenFinish env.recording newFid flags mask nameCount f qid existed needOpen) := by
  refine Ignores.bind ?_ fun g => (ignores_writeWOpenReply _ _ _ _).bind fun _ => ignores_emplaceFid _ _
  exact Ignores.ite ((ignores_sys (ignores_lopen f _)).bind fun _ => Ignores.pure _) (Ignores.pure _)

theorem ignores_wopenOpen (newFid flags wflags : UInt32) (mask : UInt64) (nameCount : Nat) (f : File)
    (qid : Qid)
    (existed needOpen : Bool) :
    Ignores Exchange.made (wopenOpen env.recording newFid flags wflags mask nameCount f qid existed needOpen) := by
  refine Ignores.ite (Ignores.throw _) (Ignores.ite (Ignores.throw _) ?_)
  refine (Ignores.when (ignores_sys (ignores_access f _))).bind fun _ => ?_
  refine Ignores.ite (Ignores.ite ?_ (ignores_writeWOpenReply _ _ _ _)) ?_
  · exact ignores_wopenFinish _ _ _ _ _ _ _ _
  · exact ignores_wopenFinish _ _ _ _ _ _ _ _

end Reply

section Status

variable {env : Environment W} {s : Session W}

def foundStatus (existed : Bool) : WOpenStatus := if existed then .opened else .created

theorem says_wopenFinish (newFid flags : UInt32) (mask : UInt64) (nameCount : Nat) (f : File) (qid : Qid)
    (existed needOpen : Bool) :
    Triple (Written s []) (wopenFinish env newFid flags mask nameCount f qid existed needOpen)
      (fun _ => Says (foundStatus existed)) fun _ _ => True := by
  have hopen : Triple (Written s []) (wopenFinish.openIfNeeded env flags f qid needOpen) (fun _ => Written s [])
      fun _ _ => True := by
    refine still_ite (fun _ => ?_) fun _ => Triple.pure fun _ hx => hx
    refine Triple.bind ((written_sys (Keeps.nothing _)).imp (fun _ hx => hx) (fun _ _ hx => hx.2) fun _ _ _ => trivial) ?_
    exact fun result => Triple.pure fun _ hx => hx
  refine Triple.bind hopen fun g => ?_
  refine Triple.bind ((written_writeWOpenReply _ nameCount g mask).imp (fun _ hx => hx) (fun _ _ hx => hx)
    fun _ _ _ => trivial) fun _ => ?_
  rintro x ⟨-, rest, hpay⟩
  rw [emplaceFid, exec_bind]
  simp only [session, exec_ofFunction, andThen]
  cases x.session.fids newFid with
  | some item => exact trivial
  | none => exact ⟨nameCount, g.qid, rest, hpay⟩

theorem says_wopenOpen (newFid flags wflags : UInt32) (mask : UInt64) (nameCount : Nat) (f : File) (qid : Qid)
    (existed needOpen : Bool) :
    Triple (Written s []) (wopenOpen env newFid flags wflags mask nameCount f qid existed needOpen)
      (fun _ x => Says .stopped x ∨ Says (foundStatus existed) x) fun _ _ => True := by
  have hfinish (needOpen : Bool) : Triple (Written s [])
      (wopenFinish env newFid flags mask nameCount f qid existed needOpen)
      (fun _ x => Says .stopped x ∨ Says (foundStatus existed) x) fun _ _ => True :=
    (says_wopenFinish newFid flags mask nameCount f qid existed needOpen).imp (fun _ hx => hx)
      (fun _ _ hx => .inr hx) fun _ _ hx => hx
  refine still_ite (fun _ => Triple.throw fun _ _ => trivial) fun _ => ?_
  refine still_ite (fun _ => Triple.throw fun _ _ => trivial) fun _ => ?_
  refine Triple.bind (Q := fun _ => Written s []) ?_ fun _ => ?_
  · refine Triple.when (fun _ => ?_) fun _ hx => hx
    exact (written_sys (Keeps.nothing _)).imp (fun _ hx => hx) (fun _ _ hx => hx.2) fun _ _ _ => trivial
  · refine still_ite (fun _ => still_ite (fun _ => hfinish false) fun _ => ?_) fun _ => hfinish needOpen
    refine (written_writeWOpenReply .stopped nameCount f mask).imp (fun _ hx => hx) ?_ fun _ _ _ => trivial
    rintro _ x ⟨-, rest, hpay⟩
    exact .inl ⟨nameCount, f.qid, rest, hpay⟩

end Status

section Request

variable {env : Environment W} {s : Session (W × List Call)} {r : MessageResponse} {b : List Byte} {t : List Call}

theorem made_wopenWalk (hk : env.kernel.LooksPlainly) {f : File} (hf : Confined f.fileName)
    (flags mode : UInt32)
    (n : Nat) :
    Triple (fun x => Still env.recording s r b x ∧ x.made = t) (wopenWalk env.recording flags mode n f)
      (fun walk x => ∃ b', Still env.recording s r b' x ∧
        match walk with
        | .answer status _ _ => status.usesFid = false ∧ x.made = t
        | .found _ _ existed _ => ∃ cs, exec (SpanReader.names n) b = (.ok cs, b') ∧
          (n = 0 ∧ existed = false ∧ x.made = t ∨ n ≠ 0 ∧ MadeUnless existed t f.root.rootFd (f.pathTo cs) x.made))
      fun _ x => GrewByOne t x.made := by
  cases n with
  | zero => exact Triple.pure fun x hx => ⟨b, hx.1, [], rfl, .inl ⟨rfl, rfl, hx.2⟩⟩
  | succ parents =>
    refine Triple.bind ((Triple.and (still_wopenParents hf 0 parents) (ignores_wopenParents 0 parents f t)).imp
      (fun _ hx => hx) (fun _ _ hx => hx) fun _ _ hx => .inl hx.2) fun walk => ?_
    cases walk with
    | answer status walked g =>
      refine Triple.pure ?_
      rintro x ⟨⟨hstat, b', hx⟩, hmade⟩
      exact ⟨b', hx, hstat, hmade⟩
    | found g qid existed needOpen =>
      rintro x ⟨⟨cs, b', hnames, hleads, hx⟩, hmade⟩
      have hg : Confined g.fileName := by
        rw [hleads.path]
        exact hf.pathTo cs
      refine Triple.bind ((Triple.and (still_read (b := b') SpanReader.name) (ignores_read SpanReader.name t)).imp
        (fun _ hx => hx) (fun _ _ hx => hx) fun _ _ hx => .inl hx.2) (fun c => ?_) x ⟨hx, hmade⟩
      rintro y ⟨⟨hc, hy⟩, hmade⟩
      have hname : exec SpanReader.name b' = (.ok c, (exec SpanReader.name b').2) := by rw [← hc]
      refine (Triple.and (still_wopenItem hg c flags mode parents createRetryCount)
        (observes_wopenItem hk c flags mode parents createRetryCount hg)).imp (fun _ hx => hx) ?_
        (fun _ _ hx => hx.2) y ⟨hy, hmade⟩
      rintro walk z ⟨⟨hz, hwalk⟩, hmade⟩
      refine ⟨_, hz, ?_⟩
      cases walk with
      | answer status walked g' => exact ⟨hwalk, hmade⟩
      | found g' qid' existed' needOpen' =>
        have hpath : f.pathTo (cs ++ [c]) = g.childPath c := by
          rw [File.pathTo, foldl_append, ← File.pathTo, ← hleads.path]
          rfl
        refine ⟨cs ++ [c], exec_names_snoc hnames hname, .inr ⟨Nat.succ_ne_zero parents, ?_⟩⟩
        rw [hpath, ← hleads.root]
        exact hmade

theorem MadeUnless.grew {existed : Bool} {root : Fd} {path : List Byte} {u : List Call}
    (h : MadeUnless existed t root path u) : GrewByOne t u := by
  cases existed with
  | true => exact .inl h
  | false =>
    obtain ⟨c, hu, -⟩ := h
    exact .inr ⟨c, hu⟩

theorem made_wopenRequest (hk : env.kernel.LooksPlainly) (hs : s.Guarded) (hr : r.payload = []) :
    Triple (fun x => Still env.recording s r b x ∧ x.made = t) (wopenRequest env.recording)
      (fun _ x => GrewByOne t x.made ∧ ((∃ status, WOpenStatus.usesFid status = false ∧ Says status x) ∨
        ∃ base names existed, s.fids (TWopen.ofBody b).fid = some (.file base) ∧ WOpenNamed b names ∧
          Says (foundStatus existed) x ∧ ((TWopen.ofBody b).nameCount = 0 ∧ existed = false ∧ x.made = t ∨
            (TWopen.ofBody b).nameCount ≠ 0 ∧ MadeUnless existed t base.root.rootFd
      (base.pathTo names) x.made)))
      fun _ x => GrewByOne t x.made := by
  -- The fields and the file are read without a call.
  have hstill {α : Type} {m : Handler (W × List Call) α} {A : α → Prop} {b b' : List Byte}
      (h : Triple (Still env.recording s r b) m (fun a x => A a ∧ Still env.recording s r b' x) (KeptFids s))
      (hm : Ignores Exchange.made m) :
      Triple (fun x => Still env.recording s r b x ∧ x.made = t) m
        (fun a x => A a ∧ (Still env.recording s r b' x ∧ x.made = t)) fun _ x => GrewByOne t x.made := by
    refine (Triple.and h (hm t)).imp (fun _ hx => hx) ?_ fun _ _ hx => .inl hx.2
    rintro a x ⟨⟨ha, hx⟩, hmade⟩
    exact ⟨ha, hx, hmade⟩
  have hmask : Triple (Still env.recording s r (b.drop 24)) (read SpanReader.u64)
      (fun _ x => True ∧ Still env.recording s r (b.drop 32) x) (KeptFids s) := by
    have h : Triple (Still env.recording s r (b.drop 24)) (read SpanReader.u64)
        (fun _ => Still env.recording s r ((b.drop 24).drop 8)) (KeptFids s) := still_u64
    rw [drop_drop] at h
    exact h.imp (fun _ hx => hx) (fun _ _ hx => ⟨trivial, hx⟩) fun _ _ hx => hx
  refine Triple.bind (hstill still_u32 (ignores_read _)) fun fid => Triple.of_fact fun hfid => ?_
  refine Triple.bind (hstill still_u32 (ignores_read _)) fun newFid => Triple.of_fact fun hnewFid => ?_
  refine Triple.bind (hstill still_u32 (ignores_read _)) fun flags => Triple.of_fact fun hflags => ?_
  refine Triple.bind (hstill still_u32 (ignores_read _)) fun wflags => Triple.of_fact fun hwflags => ?_
  refine Triple.bind (hstill still_u32 (ignores_read _)) fun mode => Triple.of_fact fun _ => ?_
  refine Triple.bind (hstill still_u32 (ignores_read _)) fun gid => Triple.of_fact fun _ => ?_
  simp only [drop_drop, Nat.reduceAdd] at hnewFid hflags hwflags ⊢
  refine Triple.bind (hstill hmask (ignores_read _)) fun attrMask => Triple.of_fact fun _ => ?_
  refine Triple.bind (hstill still_u16 (ignores_read _)) fun nameCount => Triple.of_fact fun hcount => ?_
  simp only [drop_drop, Nat.reduceAdd]
  have hfield : TWopen.ofBody b = ⟨fid, newFid, flags, wflags, nameCount⟩ := by
    rw [hfid, hnewFid, hflags, hwflags, hcount]
    rfl
  rw [hfield]
  refine Triple.bind (hstill (still_lookupFid fid) (ignores_lookupFid fid)) fun item => Triple.of_fact fun hitem => ?_
  refine Triple.bind (hstill (still_cloneFid item) (ignores_cloneFid item)) fun newFile => Triple.of_fact fun hclone => ?_
  obtain ⟨base, rfl, rfl⟩ := hclone
  have hbase : Confined base.clone.fileName := hs.confined fid _ hitem
  refine Triple.bind (made_wopenWalk hk hbase flags mode nameCount.toNat) fun walk => ?_
  cases walk with
  | answer status walked f =>
    rintro x ⟨b', hx, hstat, hmade⟩
    have hwritten : Written s [] x := ⟨hx.fids, by rw [hx.response, hr]⟩
    refine (Triple.and (written_writeWOpenReply status walked f attrMask)
      (ignores_writeWOpenReply status walked f attrMask t)).imp (fun _ hy => hy) ?_ (fun _ _ hy => .inl hy.2) x
      ⟨hwritten, hmade⟩
    rintro _ y ⟨⟨-, rest, hpay⟩, hmade⟩
    exact ⟨.inl hmade, .inl ⟨status, hstat, walked, f.qid, rest, hpay⟩⟩
  | found f qid existed needOpen =>
    rintro x ⟨b', hx, names, hnames, hmade⟩
    have hwritten : Written s [] x := ⟨hx.fids, by rw [hx.response, hr]⟩
    have hgrew : GrewByOne t x.made := by
      rcases hmade with ⟨-, -, hmade⟩ | ⟨-, hmade⟩
      · exact .inl hmade
      · exact hmade.grew
    refine (Triple.and (says_wopenOpen newFid flags wflags attrMask nameCount.toNat f qid existed needOpen)
      (ignores_wopenOpen newFid flags wflags attrMask nameCount.toNat f qid existed needOpen x.made)).imp
      (fun _ hy => hy) ?_ (fun _ y hy => by rw [hy.2]; exact hgrew) x ⟨hwritten, rfl⟩
    rintro _ y ⟨hmsg, hsame⟩
    rw [hsame]
    refine ⟨hgrew, ?_⟩
    rcases hmsg with hmsg | hmsg
    · exact .inl ⟨.stopped, rfl, hmsg⟩
    · refine .inr ⟨base, names, existed, hitem, ?_, hmsg, ?_⟩
      · rw [WOpenNamed, hfield]
        exact ⟨b', hnames⟩
      · refine hmade.imp ?_ ?_
        · rintro ⟨hzero, hexisted, hmade⟩
          exact ⟨UInt16.toNat_inj.mp hzero, hexisted, hmade⟩
        · rintro ⟨hne, hmade⟩
          exact ⟨fun hzero => hne (congrArg UInt16.toNat hzero), hmade⟩

end Request

def Ending.saysCreated : Ending → Bool
  | .answer response => messageCode response == MessageType.wopen.code + 1 &&
      (messageBody response).head? == some WOpenStatus.created.code
  | .abort => false
  | .stuck => false

def madeBy (s s' : Session (W × List Call)) : List Call := s'.machine.made.drop s.machine.made.length

/-- The reply says `Created` exactly if the request has made the object that it names, and it makes at most one. -/
def WOpenTruthful (env : Environment W) (start : MessageResponse) (tag : UInt16) (b : List Byte)
    (s : Session (W × List Call)) : Prop :=
  let after := processMessage env.recording start (frame .wopen tag b) s
  (after.1.saysCreated = true ↔ ∃ base names, s.fids (TWopen.ofBody b).fid = some (.file base) ∧ WOpenNamed b names ∧
    ∃ c ∈ madeBy s after.2, c.Makes base.root.rootFd (base.pathTo names)) ∧ (madeBy s after.2).length ≤ 1

theorem saysCreated_result {w : MessageResponse} {status : WOpenStatus} {walked : Nat} {qid : Qid}
    {rest : List Byte}
    (hpay : w.payload = wopenHead status walked qid ++ rest) (tag : UInt16) :
    (Ending.answer (w.result (MessageType.wopen.code + 1) tag)).saysCreated = (status = .created : Bool) := by
  simp only [Ending.saysCreated, MessageResponse.messageCode_result, MessageResponse.messageBody_result, hpay]
  cases status <;> rfl

theorem GrewByOne.length_drop {t u : List Call} (h : GrewByOne t u) : (u.drop t.length).length ≤ 1 := by
  rcases h with rfl | ⟨c, rfl⟩
  · simp
  · simp

/-- A `Twopen` makes at most one object, and if it reports the file, its status is right exactly if there are
names in the request. -/
theorem wopen_status_right_iff (env : Environment W) (hk : env.kernel.LooksPlainly) (maxSize : Nat)
    (allowResize : Bool)
    (tag : UInt16) (b : List Byte) (s : Session (W × List Call)) (hs : s.Guarded) :
    let after := processMessage env.recording (.initial maxSize allowResize) (frame .wopen tag b) s
    (madeBy s after.2).length ≤ 1 ∧ (after.1.usesFid = true →
      (WOpenTruthful env (.initial maxSize allowResize) tag b s ↔ (TWopen.ofBody b).nameCount ≠ 0)) := by
  intro after
  set start := MessageResponse.initial maxSize allowResize with hstart
  have hhandler : Triple (fun x => Still env.recording s start b x ∧ x.made = s.machine.made) (handleWOpen env.recording)
      (fun _ x => GrewByOne s.machine.made x.made ∧ ((∃ status, WOpenStatus.usesFid status = false ∧ Says status x) ∨
        ∃ base names existed, s.fids (TWopen.ofBody b).fid = some (.file base) ∧ WOpenNamed b names ∧
          Says (foundStatus existed) x ∧ ((TWopen.ofBody b).nameCount = 0 ∧ existed = false ∧ x.made = s.machine.made ∨
            (TWopen.ofBody b).nameCount ≠ 0 ∧
              MadeUnless existed s.machine.made base.root.rootFd (base.pathTo names) x.made)))
      fun _ x => GrewByOne s.machine.made x.made := by
    refine Triple.bind (Q := fun _ x => Still env.recording s start b x ∧ x.made = s.machine.made) (fun x hx => hx)
      fun session => ?_
    refine still_ite (fun _ => Triple.throw fun _ hx => .inl hx.2) fun _ => ?_
    exact made_wopenRequest hk hs rfl
  have hend := hhandler ⟨s, tag, b, start⟩ ⟨⟨rfl, rfl, rfl, .start⟩, rfl⟩
  have hafter : after = _ := processMessage_frame env.recording start .wopen tag b s
  change Ends _ _ (exec (handleMessage env.recording (MessageType.ofCode MessageType.wopen.code)) ⟨s, tag, b, start⟩) at hend
  rcases hrun : exec (handleMessage env.recording (MessageType.ofCode MessageType.wopen.code)) ⟨s, tag, b, start⟩
    with ⟨result, x⟩
  rw [hrun] at hend hafter
  have hmade : madeBy s after.2 = x.made.drop s.machine.made.length := by
    rw [hafter]
    rfl
  have hgrew : GrewByOne s.machine.made x.made := by
    cases result with
    | ok a => exact hend.1
    | error e => exact hend
  have hone : (madeBy s after.2).length ≤ 1 := hmade ▸ hgrew.length_drop
  refine ⟨hone, fun huses => ?_⟩
  change ((after.1.saysCreated = true ↔ _) ∧ (madeBy s after.2).length ≤ 1) ↔ _
  rw [and_iff_left hone]
  cases result with
  | error e =>
    rw [hafter, usesFid_respond_error] at huses
    cases huses
  | ok a =>
    have hanswer : after.1 = .answer (x.response.result (MessageType.wopen.code + 1) tag) := by
      rw [hafter]
      rfl
    rw [hanswer] at huses ⊢
    rcases hend.2 with ⟨status, hstatus, walked, qid, rest, hpayload⟩ |
      ⟨base, names, existed, hbase, hnamed, ⟨walked, qid, rest, hpayload⟩, hcount⟩
    · rw [(usesFid_result hpayload tag).1, hstatus] at huses
      cases huses
    · rw [saysCreated_result hpayload tag, hmade]
      rcases hcount with ⟨hzero, rfl, hsame⟩ | ⟨hne, hunless⟩
      · -- Nothing was made.
        rw [hsame, drop_length]
        simp [foundStatus, hzero]
      · rw [iff_true_right hne]
        cases existed with
        | true =>
          have hsame : x.made = s.machine.made := hunless
          rw [hsame, drop_length]
          simp [foundStatus]
        | false =>
          obtain ⟨c, hc, hmakes⟩ := hunless
          rw [hc, drop_left]
          refine iff_of_true rfl ⟨base, names, hbase, hnamed, c, mem_cons_self, hmakes⟩

def rootSession : Session (Unit × List Call) :=
  runSteps (deliver Environment.plain.recording)
    ([frame .version 0xFFFF (leBytes 4 8192 ++ frameString protocolVersionW),
      frame .attach 1 (leBytes 4 7 ++ leBytes 4 0xFFFFFFFF ++ frameString [] ++ frameString [] ++ leBytes 4 1000)].map
        .ofSocket) (Session.initial false ((), []))

theorem rootSession_guarded : rootSession.Guarded := by
  have hstep (d : Delivery) (s : Session (Unit × List Call)) (h : s.Guarded) :
      (deliver Environment.plain.recording d s).Guarded := deliver_guarded h d
  exact inv_runSteps_of_step hstep (guarded_initial false _)

theorem looksPlainly_plain : Kernel.plain.LooksPlainly where
  fstat _ _ _ := by simp [Kernel.plain]
  fstatat _ _ _ _ _ := by simp [Kernel.plain]

/-- A `Twopen` of fid 7 as fid 8 with some names. -/
def openBody (names : List (List Byte)) : List Byte :=
  leBytes 4 7 ++ leBytes 4 8 ++ leBytes 4 0o3 ++ leBytes 4 0 ++ leBytes 4 0o644 ++ leBytes 4 0 ++ leBytes 8 0 ++
    leBytes 2 names.length ++ names.flatMap frameString

theorem open_a_truthful :
    WOpenTruthful Environment.plain (.initial staticBufferSize true) 2 (openBody [[97]]) rootSession :=
  ((wopen_status_right_iff Environment.plain looksPlainly_plain staticBufferSize true 2 (openBody [[97]]) rootSession
    rootSession_guarded).2 (by decide +kernel)).mpr (by decide)

/-- The root is opened by no name, and the reply says that it was created. -/
theorem open_root_not_truthful :
    ¬WOpenTruthful Environment.plain (.initial staticBufferSize true) 2 (openBody []) rootSession := by
  have hcreated : (processMessage Environment.plain.recording (.initial staticBufferSize true)
      (frame .wopen 2 (openBody [])) rootSession).1.saysCreated = true := by decide +kernel
  have hmade : madeBy rootSession (processMessage Environment.plain.recording (.initial staticBufferSize true)
      (frame .wopen 2 (openBody [])) rootSession).2 = [] := by decide +kernel
  rintro ⟨hiff, -⟩
  obtain ⟨base, names, -, -, c, hc, -⟩ := hiff.mp hcreated
  rw [hmade] at hc
  cases hc

end WslPlus.Plan9

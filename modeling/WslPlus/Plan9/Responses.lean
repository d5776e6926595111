import WslPlus.Plan9.Reserve

/-!
# The handlers stay within what they reserve

For each handler the fields that it reads, and that it writes no more than it has
reserved. `Tread` and `Tgetlock` do so only under a condition.
-/

namespace WslPlus.Plan9

open Program

/-- The target of a link has at most `PATH_MAX` bytes. -/
def Kernel.ShortLinks {W : Type} (k : Kernel W) : Prop :=
  ∀ ctx base path size w t, (k.call ctx (.readlinkat base path size) w).1 = .ok t → t.1.length ≤ pathMax

variable {W : Type} {cap : Nat} {r : MessageResponse} {s : Session W} {b : List Byte} {env : Environment W}

section Yields

variable {k : Kernel W}

theorem yields_withUserContext {α : Type} {id : Identity} {m : Sys W α} {A : α → Prop}
    (h : Keeps (fun _ => True) m A) : Keeps (fun _ => True) (withUserContext k id m) A := by
  refine (Keeps.nothing _).bind fun _ _ => ?_
  exact keeps_inContext h (fun _ _ => trivial) fun _ _ _ _ => trivial

theorem yields_syscall {c : Call} {A : c.Answer → Prop}
    (h : ∀ ctx w a, (k.call ctx c w).1 = .ok a → A a) : Keeps (fun _ => True) (syscall k c) A := by
  intro m _
  simp only [syscall, exec_ofFunction]
  rcases hr : k.call m.context c m.world with ⟨r, w⟩
  cases r with
  | ok a => exact ⟨h _ _ a (by rw [hr]), trivial⟩
  | error e => exact trivial

theorem yields_readLink (hk : k.ShortLinks) (f : File) (size : Nat) :
    Keeps (fun _ => True) (f.readLink k size) fun t => t.1.length ≤ pathMax :=
  yields_withUserContext (yields_syscall fun ctx w t ht => hk ctx _ _ size w t ht)

theorem yields_readDirLoop (k : Kernel W) (includeAttributes : Bool) (e : DirectoryEnumerator)
    (space : Nat) (written : Bool) :
    Keeps (fun _ => True) (readDirLoop k includeAttributes e space written) fun r => r.bytes.length ≤ space := by
  induction space using Nat.strongRecOn generalizing e written with
  | ind space ih =>
    rw [readDirLoop]
    refine (Keeps.nothing _).bind fun r _ => ?_
    split
    · exact Keeps.pure (Nat.zero_le _)
    · exact Keeps.pure (Nat.zero_le _)
    · rename_i entry e'
      refine (Keeps.nothing _).bind fun stat _ => ?_
      split
      · exact Keeps.pure (Nat.zero_le _)
      · rename_i hfits
        have hpos := dirEntrySize_pos entry.name.1 stat
        refine (ih (space - dirEntrySize entry.name.1 stat) (by omega) e' true).bind fun r hr => ?_
        refine Keeps.pure ?_
        rw [List.length_append, dirent, directoryEntryBytes_length]
        omega

theorem yields_readDir (k : Kernel W) (f : File) (offset : UInt64) (count : Nat) (includeAttributes : Bool) :
    Keeps (fun _ => True) (f.readDir k offset count includeAttributes) fun r =>
      ∀ bytes, r.1 = .ok bytes → bytes.length ≤ count := by
  have hfrom (g : File) (e : DirectoryEnumerator) :
      Keeps (fun _ => True) (File.readDir.readFrom k offset count includeAttributes g e) fun r =>
        ∀ bytes, r.1 = .ok bytes → bytes.length ≤ count := by
    refine (Keeps.nothing _).bind fun e' _ => ?_
    refine (yields_readDirLoop k includeAttributes e' count false).bind fun r hr => ?_
    refine Keeps.pure ?_
    intro bytes hbytes
    cases hres : r.result with
    | ok _ =>
      rw [hres] at hbytes
      cases hbytes
      exact hr
    | error e =>
      rw [hres] at hbytes
      cases hbytes
  refine Keeps.ite (fun _ => Keeps.pure nofun) fun _ => ?_
  split
  · exact hfrom _ _
  · exact (Keeps.nothing _).bind fun dir _ => hfrom _ _
  · exact Keeps.pure nofun

end Yields

section Handlers

variable {fid : UInt32}

theorem reserves_file {cont : File → Handler W Unit} (h : ∀ f, Reserves cap (cont f)) :
    Reserves cap (lookupFid fid >>= fun item => asFile item >>= cont) :=
  Reserves.bind (silent_lookupFid fid) fun item _ => Reserves.bind (silent_asFile item) fun f _ => h f

theorem reserves_file_sys (m : File → Sys W Unit) :
    Reserves cap (lookupFid fid >>= fun item => asFile item >>= fun f => sys (m f)) :=
  reserves_file fun f => Reserves.silent (silent_sys_any (m f))

theorem silent_newRoot (rootFd : Fd) (identity : Identity) :
    Silent (newRoot rootFd identity : Handler W Root) fun _ => True :=
  silent_session.bind fun _ _ => (silent_modifySession _).bind fun _ _ => Silent.pure trivial

theorem silent_makeRoot (aname : List Byte) (uid : UInt32) : Silent (makeRoot env aname uid) fun _ => True := by
  unfold makeRoot
  split
  · exact Silent.throw trivial
  · refine Silent.ite (fun _ => silent_newRoot _ _) fun _ => Silent.ite (fun _ => ?_) fun _ => ?_
    · split
      · exact Silent.throw trivial
      · exact silent_newRoot _ _
    · exact Silent.throw trivial

theorem handles_clunk : Handles cap r s (Covered [.fixed 4] b) b (handleClunk env) := by
  refine Decoded.u32 (Handles.done (Reserves.silent (silent_session.bind fun s _ => ?_)))
  split
  · exact Silent.throw trivial
  · refine (silent_modifySession _).bind fun _ _ => ?_
    split
    · exact Silent.pure trivial
    · exact silent_sys_any _

theorem handles_fsync : Handles cap r s (Covered [.fixed 4] b) b (handleFsync env) :=
  Decoded.u32 (Handles.done (reserves_file_sys _))

theorem handles_link : Handles cap r s (Covered [.fixed 4, .fixed 4, .name] b) b (handleLink env) := by
  refine Decoded.u32 (Decoded.u32 (Handles.name fun c => Handles.done (Reserves.silent ?_)))
  refine (silent_lookupFidPair _ _).bind fun items _ => ?_
  exact (silent_asFile _).bind fun f _ => silent_sys_any _

theorem handles_unlinkAt : Handles cap r s (Covered [.fixed 4, .name, .fixed 4] b) b (handleUnlinkAt env) :=
  Decoded.u32 (Handles.name fun _ => Decoded.u32 (Handles.done (reserves_file_sys _)))

theorem handles_remove : Handles cap r s (Covered [.fixed 4] b) b (handleRemove env) :=
  Decoded.u32 (Handles.done (reserves_file_sys _))

theorem handles_renameAt :
    Handles cap r s (Covered [.fixed 4, .name, .fixed 4, .name] b) b (handleRenameAt env) := by
  refine Decoded.u32 (Handles.name fun c => Decoded.u32 (Handles.name fun c' => ?_))
  refine Handles.done (Reserves.silent ((silent_lookupFidPair _ _).bind fun items _ => ?_))
  exact (silent_asFile _).bind fun f _ => silent_sys_any _

theorem handles_rename : Handles cap r s (Covered [.fixed 4, .fixed 4, .name] b) b (handleRename env) := by
  refine Decoded.u32 (Decoded.u32 (Handles.name fun c => Handles.done (Reserves.silent ?_)))
  refine (silent_lookupFidPair _ _).bind fun items _ => (silent_asFile _).bind fun f _ => ?_
  exact (silent_sys_any _).bind fun g _ => silent_storeFile _ g

theorem handles_setAttr :
    Handles cap r s (Covered [.fixed 4, .fixed 4, .fixed 4, .fixed 4, .fixed 4, .fixed 8, .fixed 8, .fixed 8,
      .fixed 8, .fixed 8] b) b (handleSetAttr env) := by
  iterate 5 refine Decoded.u32 ?_
  iterate 5 refine Decoded.u64 ?_
  exact Handles.done (reserves_file_sys _)

theorem handles_xattrCreate :
    Handles cap r s (Covered [.fixed 4, .string, .fixed 8, .fixed 4] b) b (handleXattrCreate env) := by
  refine Decoded.u32 (Decoded.string (fun _ => Decoded.u64 (Decoded.u32 (Handles.done ?_))))
  refine reserves_file fun f => Reserves.silent ((silent_sys_any _).bind fun x _ => ?_)
  exact silent_modifySession _

theorem handles_access :
    Handles cap r s (Covered (if s.use9P2000W then [.fixed 4, .fixed 4] else []) b) b (handleAccess env) := by
  refine Decoded.session ?_
  cases s.use9P2000W with
  | false => exact Handles.throw trivial
  | true =>
    refine Decoded.u32 (Decoded.u32 (Handles.done (Reserves.silent ?_)))
    refine (silent_lookupFid _).bind fun item _ => ?_
    cases item with
    | file f => exact silent_sys_any _
    | xattr x => exact Silent.throw trivial

variable (hcap : UInt32.size ≤ cap + 1)
include hcap

theorem handles_version :
    Handles cap r s (Covered (if s.negotiated && !s.allowRenegotiate then [] else [.fixed 4, .string]) b) b
      (handleVersion : Handler W Unit) := by
  refine Decoded.session ?_
  by_cases hguard : (s.negotiated && !s.allowRenegotiate) = true
  · rw [if_pos hguard, if_pos hguard]
    exact Handles.throw trivial
  · rw [if_neg hguard, if_neg hguard]
    refine Decoded.u32 (Decoded.string (fun _ => Handles.done ?_))
    generalize hversion : stringAt (b.drop 4) = version
    have hlen : version.1.length < UInt16.size := hversion ▸ stringAt_length_lt (b.drop 4)
    refine Reserves.ite (fun _ => Reserves.silent (Silent.throw trivial)) fun _ => ?_
    refine Reserves.ite (fun _ => Reserves.silent (Silent.throw trivial)) fun _ => ?_
    refine Reserves.ite (fun _ => Reserves.silent (Silent.throw trivial)) fun _ => ?_
    refine Reserves.bind (silent_modifySession _) fun _ _ => ?_
    refine Reserves.ensureSize hcap (n := version.1.length + 2 + 4) (by simp only [getMessageSize]; omega) ?_
    exact (puts_u32 _).bind fun _ _ => (puts_string hlen).writes

theorem handles_attach :
    Handles cap r s (Covered [.fixed 4, .fixed 4, .string, .string, .fixed 4] b) b (handleAttach env) := by
  refine Decoded.u32 (Decoded.u32 (Decoded.string (fun _ => Decoded.string (fun _ => Decoded.u32 (Handles.done ?_)))))
  refine Reserves.bind (silent_makeRoot _ _) fun root _ => ?_
  refine Reserves.bind (silent_sys_any _) fun f _ => Reserves.bind (silent_emplaceFid _ _) fun _ _ => ?_
  exact Reserves.ensureSize hcap (n := 13) rfl (puts_qid _).last

theorem handles_statFs : Handles cap r s (Covered [.fixed 4] b) b (handleStatFs env) := by
  refine Decoded.u32 (Handles.done (reserves_file fun f => ?_))
  refine Reserves.bind (silent_sys_any _) fun st _ => Reserves.ensureSize hcap (n := 60) rfl ?_
  refine (puts_u32 _).bind fun _ _ => (puts_u32 _).bind fun _ _ => ?_
  iterate 6 refine (puts_u64 _).bind fun _ _ => ?_
  exact (puts_u32 _).last

theorem handles_getAttr : Handles cap r s (Covered [.fixed 4, .fixed 8] b) b (handleGetAttr env) := by
  refine Decoded.u32 (Decoded.u64 (Handles.done (reserves_file fun f => ?_)))
  refine Reserves.bind (silent_sys_any _) fun r _ => Reserves.ensureSize hcap (n := 153) rfl ?_
  obtain ⟨valid, qid, stat⟩ := r
  -- Only the number of these bytes matters.
  have hlen := statResultBytes_length stat
  rw [SpanWriter.statResult]
  generalize SpanWriter.statResultBytes stat = bytes at hlen ⊢
  refine (puts_u64 _).bind fun _ _ => (puts_qid _).bind fun _ _ => (puts_write hlen).bind fun _ _ => ?_
  exact puts_writeReserved.last

omit hcap in
theorem puts_walkNames (f : File) (names : List Component) :
    Puts cap (names.length * qidSize) (walkNames env f names) fun _ => True := by
  induction names generalizing f with
  | nil => exact (Silent.pure trivial).puts
  | cons name rest ih =>
    rw [List.length_cons, Nat.add_one_mul]
    refine (silent_sys_any _).bind_puts fun r _ => ?_
    obtain ⟨r, g⟩ := r
    cases r with
    | error e =>
      have hstop : Silent (throw (.error e) : Handler W File) fun _ => True := Silent.throw trivial
      exact hstop.puts.more (Nat.zero_le _)
    | ok qid => exact (puts_qid qid).comp fun _ _ => ih g

theorem handles_walk :
    Handles cap r s (Covered ([Field.fixed 4, Field.fixed 4, Field.fixed 2] ++
      List.replicate (stringLength (b.drop 8)) .name) b) b (handleWalk env) := by
  have hdrop : b.drop 8 = (b.drop 4).drop 4 := by rw [List.drop_drop]
  rw [hdrop]
  refine Decoded.u32 (Decoded.u32 (Decoded.u16 ?_))
  rw [toNat_stringLength]
  refine Decoded.names fine_inval fun names b' hnames => Handles.done ?_
  refine Reserves.bind (silent_lookupFid _) fun item _ => Reserves.bind (silent_cloneFid item) fun f _ => ?_
  refine Reserves.ensureSize hcap (n := names.length * qidSize + 2) (by
    rw [hnames]
    simp only [getMessageSize]
    omega) ?_
  refine (puts_u16 _).bind fun _ _ => ?_
  rw [← Nat.zero_add (names.length * qidSize)]
  exact (puts_walkNames f names).bind fun g _ => Writes.silent (silent_emplaceFid _ _)

theorem handles_lopen : Handles cap r s (Covered [.fixed 4, .fixed 4] b) b (handleLOpen env) := by
  refine Decoded.u32 (Decoded.u32 (Handles.done (reserves_file fun f => ?_)))
  refine Reserves.bind (silent_sys_any _) fun r _ => Reserves.bind (silent_storeFile _ _) fun _ _ => ?_
  refine Reserves.ensureSize hcap (n := 17) rfl ?_
  exact (puts_qid _).bind fun _ _ => (puts_u32 _).last

theorem handles_lcreate :
    Handles cap r s (Covered [.fixed 4, .name, .fixed 4, .fixed 4, .fixed 4] b) b (handleLCreate env) := by
  refine Decoded.u32 (Handles.name fun c => ?_)
  iterate 3 refine Decoded.u32 ?_
  refine Handles.done (reserves_file fun f => ?_)
  refine Reserves.bind (silent_sys_any _) fun r _ => Reserves.bind (silent_storeFile _ _) fun _ _ => ?_
  refine Reserves.ensureSize hcap (n := 17) rfl ?_
  exact (puts_qid _).bind fun _ _ => (puts_u32 _).last

theorem reserves_file_qid {t : MessageType} (ht : getMessageSize t = headerSize + 13) (m : File → Sys W Qid) :
    Reserves cap (lookupFid fid >>= fun item => asFile item >>= fun f => sys (m f) >>= fun qid =>
      ensureSize t 0 >>= fun _ => reply (SpanWriter.qid qid)) := by
  refine reserves_file fun f => Reserves.bind (silent_sys_any _) fun qid _ => ?_
  exact Reserves.ensureSize hcap (n := 13) ht (puts_qid _).last

theorem handles_symLink :
    Handles cap r s (Covered [.fixed 4, .name, .string, .fixed 4] b) b (handleSymLink env) :=
  Decoded.u32 (Handles.name fun _ => Decoded.string (fun _ => Decoded.u32
    (Handles.done (reserves_file_qid hcap rfl _))))

theorem handles_mkNod :
    Handles cap r s (Covered [.fixed 4, .name, .fixed 4, .fixed 4, .fixed 4, .fixed 4] b) b
      (handleMkNod env) := by
  refine Decoded.u32 (Handles.name fun c => ?_)
  iterate 4 refine Decoded.u32 ?_
  exact Handles.done (reserves_file_qid hcap rfl _)

theorem handles_mkDir : Handles cap r s (Covered [.fixed 4, .name, .fixed 4, .fixed 4] b) b (handleMkDir env) :=
  Decoded.u32 (Handles.name fun _ => Decoded.u32 (Decoded.u32 (Handles.done (reserves_file_qid hcap rfl _))))

theorem handles_readLink (hlinks : env.kernel.ShortLinks) :
    Handles cap r s (Covered [.fixed 4] b) b (handleReadLink env) := by
  refine Decoded.u32 (Handles.done (Reserves.bind (silent_lookupFid _) fun item _ => ?_))
  refine Reserves.ensureSize hcap (n := pathMax + 2) rfl (Puts.writes (A := fun _ => True) ?_)
  refine puts_stringSpace (by decide) fun space => (silent_asFile item).bind_puts fun f _ => ?_
  refine (silent_sys (yields_readLink hlinks f space)).bind_puts fun target htarget => ?_
  exact (puts_u16 _).comp fun _ _ => (puts_next _ _).more htarget

theorem handles_readDir (includeAttributes : Bool) :
    Handles cap r s (Covered (if includeAttributes && !s.use9P2000W then []
      else [.fixed 4, .fixed 8, .fixed 4]) b) b (handleReadDir env includeAttributes) := by
  refine Decoded.session ?_
  by_cases hguard : (includeAttributes && !s.use9P2000W) = true
  · rw [if_pos hguard, if_pos hguard]
    exact Handles.throw trivial
  · rw [if_neg hguard, if_neg hguard]
    refine Decoded.u32 (Decoded.u64 (Decoded.u32 (Handles.done ?_)))
    generalize UInt64.ofNat (leValue ((b.drop 4).take 8)) = offset
    generalize UInt32.ofNat (leValue (((b.drop 4).drop 8).take 4)) = count
    refine Reserves.bind (silent_lookupFid _) fun item _ => ?_
    refine Reserves.ensureSize hcap (n := count.toNat + 4) (by simp only [getMessageSize]; omega) ?_
    refine Writes.dataSpace (Nat.le_refl _) (Writes.bind (silent_asFile item) fun f _ => ?_)
    refine Writes.bind (silent_sys (yields_readDir env.kernel f offset _ includeAttributes)) fun r hr => ?_
    obtain ⟨r, g⟩ := r
    refine Writes.bind (silent_storeFile _ g) fun _ _ => ?_
    cases r with
    | error e => exact Writes.silent (Silent.throw trivial)
    | ok bytes => exact (puts_u32 _).bind fun _ _ => ((puts_next _ _).more (hr bytes rfl)).writes

theorem handles_write :
    Handles cap r s (Covered [.fixed 4, .fixed 8, .fixed 4, .fixed (leValue ((b.drop 12).take 4))] b) b
      (handleWrite env) := by
  have hdrop : b.drop 12 = (b.drop 4).drop 8 := by rw [List.drop_drop]
  rw [hdrop]
  refine Decoded.u32 (Decoded.u64 (Decoded.u32 ?_))
  generalize UInt64.ofNat (leValue ((b.drop 4).take 8)) = offset
  rw [toNat_u32]
  refine Decoded.data fun data => Handles.done (Reserves.bind (silent_lookupFid _) fun item _ => ?_)
  have hwrite : Silent (handleWrite.writeItem env (UInt32.ofNat (leValue (b.take 4))) item offset data)
      fun _ => True := by
    cases item with
    | file f => exact silent_sys_any _
    | xattr x =>
      exact (silent_sys_any _).bind fun r _ => (silent_modifySession _).bind fun _ _ => Silent.pure trivial
  refine Reserves.bind hwrite fun n _ => ?_
  exact Reserves.ensureSize hcap (n := 4) rfl (puts_u32 _).last

theorem handles_lock :
    Handles cap r s (Covered [.fixed 4, .fixed 1, .fixed 4, .fixed 8, .fixed 8, .fixed 4, .string] b) b
      (handleLock : Handler W Unit) := by
  refine Decoded.u32 (Decoded.u8 (Decoded.u32 (Decoded.u64 (Decoded.u64 ?_))))
  refine Decoded.u32 (Decoded.string (fun _ => Handles.done (reserves_file fun f => ?_)))
  refine Reserves.bind (silent_checkOpen f) fun _ _ => ?_
  exact Reserves.ensureSize hcap (n := 1) rfl (puts_u8 0).last

theorem handles_xattrWalk :
    Handles cap r s (Covered [.fixed 4, .fixed 4, .string] b) b (handleXattrWalk env) := by
  refine Decoded.u32 (Decoded.u32 (Decoded.string (fun _ => Handles.done (reserves_file fun f => ?_))))
  refine Reserves.bind (silent_sys_any _) fun x _ => Reserves.bind (silent_sys_any _) fun size _ => ?_
  refine Reserves.bind (silent_emplaceFid _ _) fun _ _ => ?_
  exact Reserves.ensureSize hcap (n := 8) rfl (puts_u64 _).last

end Handlers

section WOpen

theorem puts_writeTarget (hlinks : env.kernel.ShortLinks) (f : File) (qid : Qid) :
    Puts cap ((if qid.type = .symlink then pathMax else 0) + 2) (writeWOpenReply.writeTarget env f qid)
      fun _ => True := by
  by_cases hlink : qid.type = .symlink
  · rw [writeWOpenReply.writeTarget, if_pos hlink, if_pos hlink]
    refine puts_stringSpace (by decide) fun space => ?_
    refine (silent_sys (keeps_attempt (yields_readLink hlinks f space))).bind_puts fun r hr => ?_
    cases r with
    | ok target => exact (puts_u16 _).comp fun _ _ => (puts_next _ _).more (hr target rfl)
    | error e => exact (puts_u16 0).more (by decide)
  · rw [writeWOpenReply.writeTarget, if_neg hlink, if_neg hlink]
    exact puts_u16 0

theorem silent_wopenFind (component : Component) (flags : UInt32) (parents : Nat) (f : File) :
    Silent (wopenFind env component flags parents f) fun _ => True := by
  refine Silent.ite (fun _ => Silent.pure trivial) fun _ => (silent_sys_any _).bind fun r _ => ?_
  obtain ⟨r, g⟩ := r
  cases r with
  | ok qid => exact Silent.pure trivial
  | error e =>
    refine Silent.ite (fun _ => Silent.ite (fun _ => Silent.pure trivial) fun _ => Silent.pure trivial) ?_
    exact fun _ => Silent.ite (fun _ => Silent.pure trivial) fun _ => Silent.throw trivial

theorem silent_wopenItem (component : Component) (flags mode : UInt32) (parents tries : Nat) (f : File) :
    Silent (wopenItem env component flags mode parents tries f) fun _ => True := by
  induction tries generalizing f with
  | zero => exact Silent.throw trivial
  | succ tries ih =>
    refine (silent_wopenFind component flags parents f).bind fun r _ => ?_
    cases r with
    | inl walk => exact Silent.pure trivial
    | inr g =>
      refine (silent_sys_any _).bind fun r _ => ?_
      cases r with
      | ok walk => exact Silent.pure trivial
      | error e => exact Silent.ite (fun _ => ih g) fun _ => Silent.throw trivial

variable (hcap : UInt32.size ≤ cap + 1) (hlinks : env.kernel.ShortLinks)
include hcap hlinks

theorem reserves_writeWOpenReply (status : WOpenStatus) (walked : Nat) (f : File) (mask : UInt64) :
    Reserves cap (writeWOpenReply env status walked f mask) := by
  refine Reserves.bind (silent_sys_any _) fun r _ => ?_
  obtain ⟨valid, qid, stat⟩ := r
  refine Reserves.ensureSize hcap
    (n := 32 + 100 + 4 + ((if qid.type = .symlink then pathMax else 0) + 2) + 13 + 2 + 1)
    (by simp only [getMessageSize]; omega) ?_
  refine (puts_u8 _).bind fun _ _ => (puts_u16 _).bind fun _ _ => (puts_qid _).bind fun _ _ => ?_
  refine (puts_writeTarget hlinks f qid).bind fun _ _ => (puts_u32 _).bind fun _ _ => ?_
  -- Only the number of these bytes matters.
  have hlen := statResultBytes_length stat
  rw [SpanWriter.statResult]
  generalize SpanWriter.statResultBytes stat = bytes at hlen ⊢
  exact (puts_write hlen).bind fun _ _ => puts_writeReserved.writes

theorem reserves_wopenFinish (newFid flags : UInt32) (mask : UInt64) (nameCount : Nat) (f : File)
    (qid : Qid) (existed needOpen : Bool) :
    Reserves cap (wopenFinish env newFid flags mask nameCount f qid existed needOpen) := by
  have hopen : Silent (wopenFinish.openIfNeeded env flags f qid needOpen) fun _ => True :=
    Silent.ite (fun _ => (silent_sys_any _).bind fun _ _ => Silent.pure trivial) fun _ => Silent.pure trivial
  refine Reserves.bind hopen fun g _ => ?_
  exact (reserves_writeWOpenReply hcap hlinks _ nameCount g mask).andThen (silent_emplaceFid _ _)

theorem reserves_wopenOpen (newFid flags wflags : UInt32) (mask : UInt64) (nameCount : Nat) (f : File)
    (qid : Qid) (existed needOpen : Bool) :
    Reserves cap (wopenOpen env newFid flags wflags mask nameCount f qid existed needOpen) := by
  refine Reserves.ite (fun _ => Reserves.silent (Silent.throw trivial)) fun _ => ?_
  refine Reserves.ite (fun _ => Reserves.silent (Silent.throw trivial)) fun _ => ?_
  refine Reserves.bind (Silent.when (silent_sys_any _)) fun _ _ => ?_
  refine Reserves.ite (fun _ => Reserves.ite (fun _ => ?_) fun _ => ?_) fun _ => ?_
  · exact reserves_wopenFinish hcap hlinks newFid flags mask nameCount f qid existed false
  · exact reserves_writeWOpenReply hcap hlinks _ nameCount f mask
  · exact reserves_wopenFinish hcap hlinks newFid flags mask nameCount f qid existed needOpen

end WOpen

section Walk

def walks (k : Kernel W) (f : File) : List Component → Machine W → Bool
  | [], _ => true
  | c :: cs, m =>
    match exec (f.walk k c) m with
    | (.ok (.ok _, g), m') => walks k g cs m'
    | _ => false

/-- A `Twopen` asks for a name that the body does not hold. -/
def WalkCut (k : Kernel W) (n : Nat) (b : List Byte) (f : File) (m : Machine W) : Prop :=
  (leadingNames n b).2 = true ∧ walks k f (leadingNames n b).1 m = true

instance WalkCut.decidable (k : Kernel W) (n : Nat) (b : List Byte) (f : File) (m : Machine W) :
    Decidable (WalkCut k n b f m) := inferInstanceAs (Decidable (_ ∧ _))

/-- The response is left alone, and the body ends too early if and only if `cut`. -/
def EndsCut {α : Type} (cut : Prop) (r : MessageResponse) : Except Stop α × Exchange W → Prop :=
  Ends (fun _ y => ¬cut ∧ y.response = r) fun e y => y.response = r ∧ (¬cut ∧ e.Calm ∨ cut ∧ e = .failFast)

variable {α : Type}

theorem Silent.endsCut {m : Handler W α} {A : α → Prop} (h : Silent m A) {cut : Prop}
    (hcut : ¬cut) (x : Exchange W) : EndsCut cut x.response (exec m x) := by
  refine Triple.imp (h x.response) (fun _ hy => hy) ?_ ?_ x rfl
  · rintro a y ⟨-, hy⟩
    exact ⟨hcut, hy⟩
  · rintro e y ⟨he, hy⟩
    exact ⟨hy, .inl ⟨hcut, he⟩⟩

theorem endsCut_name {f : Component → Handler W α} {cut : Prop} (x : Exchange W)
    (hshort : ¬HasString x.reader → cut)
    (hbad : HasString x.reader → ¬isName (stringAt x.reader).1 = true → ¬cut)
    (hgood : HasString x.reader → ∀ hname : isName (stringAt x.reader).1 = true,
      EndsCut cut x.response
        (exec (f ⟨_, hname, (stringAt x.reader).2⟩) { x with reader := afterString x.reader })) :
    EndsCut cut x.response (exec (read SpanReader.name >>= f) x) := by
  rw [exec_bind, read, exec_zoom]
  change EndsCut cut x.response (andThen ((exec SpanReader.name x.reader).1,
    { x with reader := (exec SpanReader.name x.reader).2 }) f)
  by_cases hb : HasString x.reader
  · by_cases hname : isName (stringAt x.reader).1 = true
    · rw [SpanReader.exec_name hb hname]
      exact hgood hb hname
    · rw [SpanReader.exec_name_bad hb hname]
      exact ⟨rfl, .inl ⟨hbad hb hname, trivial⟩⟩
  · rw [SpanReader.exec_name_short hb]
    exact ⟨rfl, .inr ⟨hshort hb, rfl⟩⟩

theorem exec_sys_ok {m : Sys W α} {x : Exchange W} {a : α} {m' : Machine W}
    (h : exec m x.session.machine = (.ok a, m')) :
    exec (sys m) x = (.ok a, { x with session := { x.session with machine := m' } }) := by
  rw [sys, exec_zoom]
  simp only [mapError, exec_ofFunction, machinePart, h]

theorem exec_sys_error {m : Sys W α} {x : Exchange W} {e : Failure} {m' : Machine W}
    (h : exec m x.session.machine = (.error e, m')) :
    exec (sys m) x = (.error e.toStop, { x with session := { x.session with machine := m' } }) := by
  rw [sys, exec_zoom]
  simp only [mapError, exec_ofFunction, machinePart, h]

theorem Failure.calm (e : Failure) : e.toStop.Calm := by
  cases e <;> trivial

section Cut

variable {k : Kernel W} {n : Nat} {f g : File} {m m' : Machine W} {qid : Qid}
variable (hb : HasString b) (hname : isName (stringAt b).1 = true)
include hb

theorem walkCut_step (hw : exec (f.walk k ⟨(stringAt b).1, hname, (stringAt b).2⟩) m = (.ok (.ok qid, g), m')) :
    WalkCut k (n + 1) b f m ↔ WalkCut k n (afterString b) g m' := by
  simp [WalkCut, leadingNames, hb, hname, walks, hw]

theorem not_walkCut_of_failed
    (hw : ∀ qid g m', exec (f.walk k ⟨(stringAt b).1, hname, (stringAt b).2⟩) m ≠ (.ok (.ok qid, g), m')) :
    ¬WalkCut k (n + 1) b f m := by
  rintro ⟨-, hwalks⟩
  rw [leadingNames, if_pos hb, dif_pos hname, walks] at hwalks
  split at hwalks
  · rename_i hexec
    exact hw _ _ _ hexec
  · cases hwalks

end Cut

theorem endsCut_wopenParents (flags mode : UInt32) (walked parents total : Nat) (f : File) (x : Exchange W) :
    EndsCut (WalkCut env.kernel (parents + 1) x.reader f x.session.machine) x.response
      (exec (wopenParents env walked parents f >>= fun walk =>
        match walk with
        | .answer status walked f => return .answer status walked f
        | .found f _ _ _ => do
          let component ← read SpanReader.name
          wopenItem env component flags mode total createRetryCount f) x) := by
  induction parents generalizing f walked x with
  | zero =>
    rw [wopenParents, pure_bind]
    refine endsCut_name x ?_ ?_ ?_
    · intro hb
      simp [WalkCut, leadingNames, hb, walks]
    · intro hb hname
      simp [WalkCut, leadingNames, hb, hname]
    · intro hb hname
      refine (silent_wopenItem _ flags mode total createRetryCount f).endsCut ?_ { x with reader := _ }
      simp [WalkCut, leadingNames, hb, hname]
  | succ parents ih =>
    rw [wopenParents, bind_assoc]
    refine endsCut_name x ?_ ?_ ?_
    · intro hb
      simp [WalkCut, leadingNames, hb, walks]
    · intro hb hname
      simp [WalkCut, leadingNames, hb, hname]
    · intro hb hname
      rw [bind_assoc, exec_bind]
      generalize hc : (⟨(stringAt x.reader).1, hname, (stringAt x.reader).2⟩ : Component) = c
      rcases hw : exec (f.walk env.kernel c) x.session.machine with ⟨r, m'⟩
      cases r with
      | error e =>
        rw [exec_sys_error (x := { x with reader := afterString x.reader }) hw]
        refine ⟨rfl, .inl ⟨not_walkCut_of_failed hb hname ?_, e.calm⟩⟩
        rw [hc, hw]
        exact fun _ _ _ => nofun
      | ok r =>
        rw [exec_sys_ok (x := { x with reader := afterString x.reader }) hw]
        obtain ⟨r, g⟩ := r
        cases r with
        | ok qid =>
          have hstep := walkCut_step (k := env.kernel) (n := parents + 1) (f := f)
            (m := x.session.machine) hb hname (by rw [hc]; exact hw)
          rw [hstep]
          exact ih (walked + 1) g { x with session := _, reader := _ }
        | error e =>
          have hfail : ¬WalkCut env.kernel (parents + 1 + 1) x.reader f x.session.machine := by
            refine not_walkCut_of_failed hb hname ?_
            rw [hc, hw]
            exact fun _ _ _ => nofun
          have hanswer : Silent (if e = Errno.noent then return .answer .parentNotFound walked g
              else if e = Errno.notdir then return .answer .stopped walked g
              else throw (.error e) : Handler W WOpenWalk)
              fun walk => ∃ status, walk = .answer status walked g := by
            refine Silent.ite (fun _ => Silent.pure ⟨_, rfl⟩) fun _ => ?_
            exact Silent.ite (fun _ => Silent.pure ⟨_, rfl⟩) fun _ => Silent.throw trivial
          refine Silent.endsCut (A := fun _ => True) (hanswer.bind fun walk hwalk => ?_) hfail
            { x with session := _, reader := _ }
          obtain ⟨status, rfl⟩ := hwalk
          exact Silent.pure trivial

theorem endsCut_wopenWalk (flags mode : UInt32) (n : Nat) (f : File) (x : Exchange W) :
    EndsCut (WalkCut env.kernel n x.reader f x.session.machine) x.response
      (exec (wopenWalk env flags mode n f) x) := by
  cases n with
  | zero => exact Silent.endsCut (A := fun _ => True) (Silent.pure trivial) (by simp [WalkCut, leadingNames]) x
  | succ parents => exact endsCut_wopenParents flags mode 0 parents parents f x

/-- The names that a `Twopen` asks for are there as far as its walk gets. -/
def WOpenNames (env : Environment W) (s : Session W) (fid : UInt32) (n : Nat) (b : List Byte) : Prop :=
  match s.fids fid with
  | some (.file f) => ¬WalkCut env.kernel n b f.clone s.machine
  | _ => True

theorem handles_wopenTail (hcap : UInt32.size ≤ cap + 1) (hlinks : env.kernel.ShortLinks)
    (fid newFid flags wflags mode : UInt32) (mask : UInt64) (n : Nat) :
    Handles cap r s (WOpenNames env s fid n b) b (do
      let newFile ← cloneFid (← lookupFid fid)
      match ← wopenWalk env flags mode n newFile with
      | .answer status walked f => writeWOpenReply env status walked f mask
      | .found f qid existed needOpen =>
        wopenOpen env newFid flags wflags mask n f qid existed needOpen) := by
  intro x hs hb hx
  rw [exec_bind, exec_lookupFid, hs, WOpenNames]
  cases s.fids fid with
  | none => exact ⟨fun _ => fine_calm (by trivial) hx, fun hC => absurd trivial hC⟩
  | some item =>
    cases item with
    | xattr a => exact ⟨fun _ => fine_calm (by trivial) hx, fun hC => absurd trivial hC⟩
    | file f =>
      have hwalk : EndsCut (WalkCut env.kernel n b f.clone s.machine) x.response
          (exec (wopenWalk env flags mode n f.clone) x) := by
        rw [← hb, ← hs]
        exact endsCut_wopenWalk flags mode n f.clone x
      change (¬WalkCut env.kernel n b f.clone s.machine → Fine cap r
          (exec (wopenWalk env flags mode n f.clone >>= _) x)) ∧
        (¬¬WalkCut env.kernel n b f.clone s.machine →
          (exec (wopenWalk env flags mode n f.clone >>= _) x).1 = _ ∧
            (exec (wopenWalk env flags mode n f.clone >>= _) x).2.response = _)
      rw [exec_bind]
      rcases hr : exec (wopenWalk env flags mode n f.clone) x with ⟨result, y⟩
      rw [hr] at hwalk
      cases result with
      | error e =>
        obtain ⟨hy, h⟩ := hwalk
        rcases h with ⟨hcut, he⟩ | ⟨hcut, he⟩
        · exact ⟨fun _ => fine_calm he (hy.trans hx), fun hC => absurd hcut hC⟩
        · refine ⟨fun hC => absurd hcut hC, fun _ => ⟨?_, hy.trans hx⟩⟩
          rw [andThen, he]
      | ok walk =>
        obtain ⟨hcut, hy⟩ := hwalk
        refine ⟨fun _ hblank => ?_, fun hC => absurd hcut hC⟩
        have hrest : Reserves cap (match walk with
            | .answer status walked f => writeWOpenReply env status walked f mask
            | .found f qid existed needOpen =>
              wopenOpen env newFid flags wflags mask n f qid existed needOpen) := by
          cases walk with
          | answer status walked g => exact reserves_writeWOpenReply hcap hlinks status walked g mask
          | found g qid existed needOpen =>
            exact reserves_wopenOpen hcap hlinks newFid flags wflags mask n g qid existed needOpen
        have hblank' : Blank cap y.response := by rwa [hy, hx]
        exact hrest y hblank'

/-- The fields of a `Twopen` before its names. -/
def wopenFields : List Field :=
  [.fixed 4, .fixed 4, .fixed 4, .fixed 4, .fixed 4, .fixed 4, .fixed 8, .fixed 2]

/-- What a `Twopen` needs of its body. -/
def WOpenCovered (env : Environment W) (s : Session W) (b : List Byte) : Prop :=
  Covered wopenFields b ∧
    WOpenNames env s (UInt32.ofNat (leValue (b.take 4))) (stringLength (b.drop 32)) (b.drop 34)

theorem handles_wopen (hcap : UInt32.size ≤ cap + 1) (hlinks : env.kernel.ShortLinks) :
    Handles cap r s (s.use9P2000W = true → WOpenCovered env s b) b (handleWOpen env) := by
  refine Decoded.session ?_
  cases hW : s.use9P2000W with
  | false =>
    refine Decoded.congr ?_ (Handles.throw ?_)
    · simp
    · trivial
  | true =>
    refine Decoded.congr ?_ (Decoded.u32 (Decoded.u32 (Decoded.u32 (Decoded.u32 (Decoded.u32 (Decoded.u32
      (Decoded.u64 (Decoded.u16 (handles_wopenTail hcap hlinks _ _ _ _ _ _ _)))))))))
    rw [toNat_stringLength]
    simp [WOpenCovered, wopenFields, Covered, List.drop_drop, and_assoc]

end Walk

def fieldsOf (s : Session W) (type : MessageType) (b : List Byte) : List Field :=
  match type with
  | .lerror => []
  | .auth => []
  | .version => if s.negotiated && !s.allowRenegotiate then [] else [.fixed 4, .string]
  | .attach => [.fixed 4, .fixed 4, .string, .string, .fixed 4]
  | .flush => [.fixed 2]
  | .walk => [Field.fixed 4, Field.fixed 4, Field.fixed 2] ++ List.replicate (stringLength (b.drop 8)) .name
  | .read => [.fixed 4, .fixed 8, .fixed 4]
  | .write => [.fixed 4, .fixed 8, .fixed 4, .fixed (leValue ((b.drop 12).take 4))]
  | .clunk => [.fixed 4]
  | .remove => [.fixed 4]
  | .statfs => [.fixed 4]
  | .lopen => [.fixed 4, .fixed 4]
  | .lcreate => [.fixed 4, .name, .fixed 4, .fixed 4, .fixed 4]
  | .symlink => [.fixed 4, .name, .string, .fixed 4]
  | .mknod => [.fixed 4, .name, .fixed 4, .fixed 4, .fixed 4, .fixed 4]
  | .rename => [.fixed 4, .fixed 4, .name]
  | .readlink => [.fixed 4]
  | .getattr => [.fixed 4, .fixed 8]
  | .setattr =>
    [.fixed 4, .fixed 4, .fixed 4, .fixed 4, .fixed 4, .fixed 8, .fixed 8, .fixed 8, .fixed 8, .fixed 8]
  | .xattrwalk => [.fixed 4, .fixed 4, .string]
  | .xattrcreate => [.fixed 4, .string, .fixed 8, .fixed 4]
  | .readdir => [.fixed 4, .fixed 8, .fixed 4]
  | .wreaddir => if !s.use9P2000W then [] else [.fixed 4, .fixed 8, .fixed 4]
  | .fsync => [.fixed 4]
  | .lock => [.fixed 4, .fixed 1, .fixed 4, .fixed 8, .fixed 8, .fixed 4, .string]
  | .getlock => [.fixed 4, .fixed 1, .fixed 8, .fixed 8, .fixed 4, .string]
  | .link => [.fixed 4, .fixed 4, .name]
  | .mkdir => [.fixed 4, .name, .fixed 4, .fixed 4]
  | .renameat => [.fixed 4, .name, .fixed 4, .name]
  | .unlinkat => [.fixed 4, .name, .fixed 4]
  | .access => if s.use9P2000W then [.fixed 4, .fixed 4] else []
  | .wopen => if s.use9P2000W then wopenFields else []

/-- The body of a request is long enough for what is read from it. The names of a `Twopen`
are read as its walk goes on. -/
def BodyCovered (env : Environment W) (s : Session W) (type : Option MessageType) (b : List Byte) : Prop :=
  match type with
  | none => True
  | some type => Covered (fieldsOf s type b) b ∧ (type = .wopen → s.use9P2000W = true →
      WOpenNames env s (firstFid b) (stringLength (b.drop 32)) (b.drop 34))

theorem handles_handleMessage (hcap : UInt32.size ≤ cap + 1) (hlinks : env.kernel.ShortLinks)
    {type : Option MessageType} (hread : type ≠ some .read) (hlock : type ≠ some .getlock)
    (hflush : type ≠ some .flush) : Handles cap r s (BodyCovered env s type b) b (handleMessage env type) := by
  have hfield {t : MessageType} (hwopen : t ≠ .wopen)
      (h : Handles cap r s (Covered (fieldsOf s t b) b) b (handleMessage env (some t))) :
      Handles cap r s (BodyCovered env s (some t) b) b (handleMessage env (some t)) :=
    h.congr ⟨fun hC => ⟨hC, fun ht => absurd ht hwopen⟩, fun hC => hC.1⟩
  cases type with
  | none => exact Handles.throw (by trivial)
  | some t =>
    cases t with
    | lerror => exact hfield (by decide) (Handles.throw (by trivial))
    | auth => exact hfield (by decide) (Handles.throw (by trivial))
    | version => exact hfield (by decide) (handles_version hcap)
    | attach => exact hfield (by decide) (handles_attach hcap)
    | flush => exact absurd rfl hflush
    | walk => exact hfield (by decide) (handles_walk hcap)
    | read => exact absurd rfl hread
    | write => exact hfield (by decide) (handles_write hcap)
    | clunk => exact hfield (by decide) handles_clunk
    | remove => exact hfield (by decide) handles_remove
    | statfs => exact hfield (by decide) (handles_statFs hcap)
    | lopen => exact hfield (by decide) (handles_lopen hcap)
    | lcreate => exact hfield (by decide) (handles_lcreate hcap)
    | symlink => exact hfield (by decide) (handles_symLink hcap)
    | mknod => exact hfield (by decide) (handles_mkNod hcap)
    | rename => exact hfield (by decide) handles_rename
    | readlink => exact hfield (by decide) (handles_readLink hcap hlinks)
    | getattr => exact hfield (by decide) (handles_getAttr hcap)
    | setattr => exact hfield (by decide) handles_setAttr
    | xattrwalk => exact hfield (by decide) (handles_xattrWalk hcap)
    | xattrcreate => exact hfield (by decide) handles_xattrCreate
    | readdir => exact hfield (by decide) (handles_readDir hcap false)
    | wreaddir => exact hfield (by decide) (handles_readDir hcap true)
    | fsync => exact hfield (by decide) handles_fsync
    | lock => exact hfield (by decide) (handles_lock hcap)
    | getlock => exact absurd rfl hlock
    | link => exact hfield (by decide) handles_link
    | mkdir => exact hfield (by decide) (handles_mkDir hcap)
    | renameat => exact hfield (by decide) handles_renameAt
    | unlinkat => exact hfield (by decide) handles_unlinkAt
    | access => exact hfield (by decide) handles_access
    | wopen =>
      refine (handles_wopen hcap hlinks).congr ?_
      cases hW : s.use9P2000W with
      | true => simp [BodyCovered, fieldsOf, WOpenCovered, hW, firstFid]
      | false => simp [BodyCovered, fieldsOf, Covered, hW]

end WslPlus.Plan9

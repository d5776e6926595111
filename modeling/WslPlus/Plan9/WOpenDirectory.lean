import WslPlus.Plan9.WOpen

/-!
# A directory made by `Twopen`

In a share where the item is missing, a `Twopen` that makes it as a directory goes
through, and its new fid is left at the parent.
-/

namespace WslPlus.Plan9

open List Program

section Growing

def Call.looksAt : Call → Nat
  | .fstatat _ (.name p) _ => p.length
  | _ => 0

def Call.makesDirectory : Call → Bool
  | .mkdirat .. => true
  | _ => false

/-- Everything is a directory, but paths of `limit` bytes and more are missing until a
directory is made. -/
def Kernel.growing (limit : Nat) : Kernel Bool where
  euid _ := 0
  call _ c made :=
    if limit ≤ c.looksAt ∧ made = false then (.error .noent, made)
    else (.ok c.plainAnswer, made || c.makesDirectory)

variable {limit : Nat} {made made' : Bool} {α β : Type} {m : Sys Bool α} {A : α → Prop} {B : β → Prop}

/-- A program that ends with a value, and in which state of the kernel. -/
def Sure (made : Bool) (m : Sys Bool α) (A : α → Prop) (made' : Bool) : Prop :=
  Triple (fun s => s.world = made) m (fun a s => A a ∧ s.world = made') fun _ _ => False

theorem Sure.pure {a : α} (h : A a) : Sure made (Pure.pure a) A made := fun _ hs => ⟨h, hs⟩

theorem Sure.bind {u v : Bool} {f : α → Sys Bool β} (hm : Sure made m A u)
    (hf : ∀ a, A a → Sure u (f a) B v) : Sure made (m >>= f) B v :=
  Triple.bind hm fun a => Triple.of_fact (hf a)

theorem Sure.imp {A' : α → Prop} (h : Sure made m A made') (himp : ∀ a, A a → A' a) : Sure made m A' made' :=
  Triple.imp h (fun _ hs => hs) (fun a _ hs => ⟨himp a hs.1, hs.2⟩) fun _ _ hs => hs

theorem Sure.ite {c : Prop} [Decidable c] {n : Sys Bool α} (hm : c → Sure made m A made')
    (hn : ¬c → Sure made n A made') : Sure made (if c then m else n) A made' := by
  by_cases hc : c
  · rw [if_pos hc]
    exact hm hc
  · rw [if_neg hc]
    exact hn hc

theorem sure_syscall {c : Call} (hc : c.looksAt < limit ∨ made = true) :
    Sure made (syscall (Kernel.growing limit) c) (· = c.plainAnswer) (made || c.makesDirectory) := by
  intro s hs
  have hcall : (Kernel.growing limit).call s.context c s.world =
      (.ok c.plainAnswer, made || c.makesDirectory) := by
    rw [hs]
    refine if_neg ?_
    rintro ⟨hlimit, hmade⟩
    rcases hc with hc | hc
    · omega
    · rw [hc] at hmade
      cases hmade
  simp only [syscall, exec_ofFunction, hcall]
  exact ⟨rfl, rfl⟩

theorem sure_attempt (h : Sure made m A made') :
    Sure made (attempt m) (fun r => ∃ a, r = .ok a ∧ A a) made' := by
  apply triple_attempt h
  · exact fun a s hs => ⟨⟨a, rfl, hs.1⟩, hs.2⟩
  · exact fun _ _ hs => hs.elim
  · exact fun _ _ hs => hs

theorem sure_orThrow (h : Sure made m A made') : Sure made (orThrow m) A made' :=
  triple_orThrow h (fun _ _ hs => hs) fun _ _ hs => hs

theorem triple_withUserContext (hlimit : 0 < limit) {id : Identity} {Q : α → Bool → Prop}
    {E : Failure → Bool → Prop}
    (h : Triple (fun s => s.world = made) m (fun a s => Q a s.world) fun e s => E e s.world) :
    Triple (fun s => s.world = made) (withUserContext (Kernel.growing limit) id m)
      (fun a s => Q a s.world) fun e s => E e s.world := by
  refine Triple.bind (Q := fun _ s => s.world = made) ?_ fun _ => ?_
  · refine Triple.imp (sure_orThrow (sure_syscall (c := .setUser id) (.inl hlimit))) (fun _ hs => hs) ?_
      fun _ _ hs => hs.elim
    intro a s hs
    simpa [Call.makesDirectory] using hs.2
  · exact triple_inContext h (fun _ hs => hs) (fun _ _ _ _ ht => ht) fun _ _ _ _ ht => ht

theorem sure_withUserContext (hlimit : 0 < limit) {id : Identity} (h : Sure made m A made') :
    Sure made (withUserContext (Kernel.growing limit) id m) A made' :=
  triple_withUserContext (Q := fun a world => A a ∧ world = made') (E := fun _ _ => False) hlimit h

theorem statToQid_plain : (statToQid Stat.plain).type = .directory := by decide

structure File.Node (f : File) (p : List Byte) : Prop where
  path : f.fileName = p
  type : f.qid.type = .directory
  closed : f.isOpen = false

variable {f : File} {p : List Byte}

theorem sure_walk (hlimit : 0 < limit) (hf : f.Node p) {c : Component}
    (hshort : (appendPath p c.1).length < limit) :
    Sure made (f.walk (Kernel.growing limit) c)
      (fun r => ∃ qid, r.1 = .ok qid ∧ r.2.Node (appendPath p c.1)) made := by
  have htype : ¬f.qid.type ≠ .directory := fun h => h hf.type
  rw [File.walk, if_neg htype]
  refine Sure.bind (u := made) (A := fun r => ∃ g : File, r = .ok g ∧ g.Node (appendPath p c.1)) ?_ ?_
  · refine sure_attempt (sure_withUserContext hlimit ?_)
    refine Sure.bind (u := made) (A := fun g : File => g.Node (appendPath p c.1)) ?_ fun g hg => ?_
    · refine Sure.bind (sure_syscall (.inl ?_)) fun st hst => ?_
      · rw [← hf.path] at hshort
        exact hshort
      · rw [hst]
        simp only [Call.makesDirectory, Bool.or_false]
        refine Sure.pure ⟨?_, statToQid_plain, hf.closed⟩
        rw [hf.path]
    · refine Sure.bind (u := made) (A := fun _ => True) ?_ fun _ _ => Sure.pure hg
      rw [File.checkMount]
      split
      · refine (sure_attempt (sure_syscall (.inl hlimit))).bind fun r hr => ?_
        obtain ⟨a, rfl, rfl⟩ := hr
        simp only [Call.makesDirectory, Bool.or_false]
        exact Sure.pure trivial
      · exact Sure.pure trivial
  · rintro r ⟨g, rfl, hg⟩
    exact Sure.pure ⟨g.qid, rfl, hg⟩

theorem missing_syscall {c : Call} (hc : limit ≤ c.looksAt) :
    Triple (fun s => s.world = false) (syscall (Kernel.growing limit) c) (fun _ _ => False)
      fun e s => e = .error .noent ∧ s.world = false := by
  intro s hs
  have hcall : (Kernel.growing limit).call s.context c s.world = (.error .noent, false) := by
    rw [hs]
    exact if_pos ⟨hc, rfl⟩
  simp only [syscall, exec_ofFunction, hcall]
  exact ⟨rfl, rfl⟩

theorem sure_missing (h : Triple (fun s => s.world = made) m (fun _ _ => False)
      fun e s => e = .error .noent ∧ s.world = made') : Sure made (attempt m) (· = .error .noent) made' := by
  apply triple_attempt h
  · exact fun _ _ hs => hs.elim
  · rintro e s ⟨heq, hworld⟩
    cases heq
    exact ⟨rfl, hworld⟩
  · rintro e s ⟨heq, -⟩
    cases heq

theorem sure_walk_missing (hlimit : 0 < limit) (hf : f.Node p)
    (hp : Confined p) {c : Component} (hlong : limit ≤ (appendPath p c.1).length) :
    Sure false (f.walk (Kernel.growing limit) c) (fun r => r.1 = .error .noent ∧ r.2.Node p) false := by
  have htype : ¬f.qid.type ≠ .directory := fun h => h hf.type
  rw [File.walk, if_neg htype]
  refine Sure.bind (u := false) (A := fun r => r = .error .noent) ?_ ?_
  · refine sure_missing (triple_withUserContext (Q := fun _ _ => False)
      (E := fun e world => e = .error .noent ∧ world = false) hlimit ?_)
    refine Triple.bind (Q := fun _ _ => False) ?_ fun _ _ hs => hs.elim
    refine Triple.bind (Q := fun _ _ => False) ?_ fun _ _ hs => hs.elim
    refine missing_syscall ?_
    rw [← hf.path] at hlong
    exact hlong
  · rintro r rfl
    refine Sure.pure ⟨rfl, ?_, hf.type, hf.closed⟩
    simp only [File.restoreName, hf.path]
    exact cutAtLastSlash_appendPath hp c

theorem sure_mkDir (hlimit : 0 < limit) (f : File) (c : Component) (mode : UInt32) :
    Sure false (f.mkDir (Kernel.growing limit) c mode) (fun qid => qid.type = .directory) true := by
  refine sure_withUserContext hlimit ?_
  refine (sure_syscall (.inl hlimit)).bind fun _ _ => ?_
  refine (sure_syscall (.inr rfl)).bind fun st hst => ?_
  rw [hst]
  exact Sure.pure statToQid_plain

theorem sure_call (c : Call) :
    Sure true (syscall (Kernel.growing limit) c) (· = c.plainAnswer) true := sure_syscall (.inr rfl)

theorem sure_access (hlimit : 0 < limit) (hf : f.Node p) (hp : p ≠ [])
    (flags : UInt32) : Sure true (f.access (Kernel.growing limit) flags) (fun _ => True) true := by
  have hhelper (fd : Fd) (path : List Byte) (mode : UInt32) :
      Sure true (accessHelper (Kernel.growing limit) fd path mode) (fun _ => True) true := by
    refine Sure.ite (fun _ => ?_) fun _ => (sure_call _).imp fun _ _ => trivial
    exact (sure_orThrow (sure_call _)).bind fun _ _ => (sure_call _).imp fun _ _ => trivial
  refine sure_withUserContext hlimit ((hhelper _ _ _).bind fun _ _ => ?_)
  refine Sure.ite (fun _ => Sure.ite (fun hroot => ?_) fun _ => ?_) fun _ => Sure.pure trivial
  · rw [hf.path] at hroot
    exact absurd hroot hp
  · refine (hhelper _ _ _).bind fun _ _ => (sure_call _).bind fun st hst => ?_
    rw [hst]
    have hsticky : hasFlag Stat.plain.mode 0o1000 = false := by decide
    change Sure true (when (hasFlag Stat.plain.mode 0o1000) _) _ _
    rw [hsticky]
    exact Sure.pure trivial

theorem sure_lopen (hlimit : 0 < limit) (hf : f.Node p) (hp : p ≠ [])
    (flags : UInt32) : Sure true (f.lopen (Kernel.growing limit) flags) (fun r => r.2.qid = f.qid) true := by
  have hclose : ¬f.isOpen = true := by
    rw [hf.closed]
    decide
  rw [File.lopen, if_neg hclose]
  refine Sure.bind (A := fun _ => True) (sure_withUserContext hlimit ?_) fun _ _ => Sure.pure rfl
  refine Sure.ite (fun hroot => ?_) fun _ => (sure_call _).imp fun _ _ => trivial
  rw [hf.path] at hroot
  exact absurd hroot hp

theorem sure_getAttr (hlimit : 0 < limit) (f : File) (mask : UInt64) :
    Sure true (f.getAttr (Kernel.growing limit) mask) (fun r => r.2.1 = f.qid) true :=
  sure_withUserContext hlimit ((sure_call _).bind fun _ _ => Sure.pure rfl)

end Growing

theorem length_pathTo_le (p : List Byte) (cs : List Component) :
    p.length ≤ (cs.foldl (fun p c => appendPath p c.1) p).length := by
  induction cs generalizing p with
  | nil => exact Nat.le_refl _
  | cons c cs ih =>
    have hlt : p.length < (appendPath p c.1).length :=
      Segments.length_lt_append (isComponent_spec c.1 c.2).1
    have hle := ih (appendPath p c.1)
    rw [foldl_cons]
    omega

section Run

variable {limit : Nat} {made : Bool} {s : Session Bool} {r : MessageResponse} {b : List Byte} {α : Type}

def Environment.growing (limit : Nat) : Environment Bool where
  kernel := Kernel.growing limit
  shares _ := some ⟨3⟩
  serverUid := 0
  userGroupId _ := some 100
  nobodyGroupId := none
  groupList _ gid := [gid]

/-- Where a request has got in the body and in the share; nothing was written yet. -/
structure Stands (s : Session Bool) (r : MessageResponse) (made : Bool) (b : List Byte) (x : Exchange Bool) :
    Prop where
  fids : x.session.fids = s.fids
  negotiatedSize : x.session.negotiatedSize = s.negotiatedSize
  world : x.session.machine.world = made
  reader : x.reader = b
  response : x.response = r

def Never : Stop → Exchange Bool → Prop := fun _ _ => False

theorem stands_read {d : Decoder α} {a : α} {b' : List Byte} (h : exec d b = (.ok a, b')) :
    Triple (Stands s r made b) (read d) (fun a' x => a' = a ∧ Stands s r made b' x) Never := by
  intro x hx
  rw [read, exec_zoom]
  have hread : readerPart.get x = b := hx.reader
  rw [hread, h]
  exact ⟨rfl, hx.fids, hx.negotiatedSize, hx.world, rfl, hx.response⟩

theorem stands_sys {m : Sys Bool α} {A : α → Prop} {made' : Bool} (h : Sure made m A made') :
    Triple (Stands s r made b) (sys m) (fun a x => A a ∧ Stands s r made' b x) Never := by
  have hmap : Triple (fun s => s.world = made) (mapError Failure.toStop m) (fun a s => A a ∧ s.world = made')
      fun _ _ => False := Triple.mapError h fun _ _ he => he
  refine Triple.zoom hmap ?_ ?_ ?_
  · intro x hx
    exact hx.world
  · rintro x m' a hx ⟨ha, hm'⟩
    exact ⟨ha, hx.fids, hx.negotiatedSize, hm', hx.reader, hx.response⟩
  · intro x m' e hx he
    exact he

variable {f : File} {p : List Byte}

theorem stands_wopenParents (hlimit : 0 < limit) (hf : f.Node p) {n : Nat}
    {cs : List Component} {b' : List Byte} (hnames : exec (SpanReader.names n) b = (.ok cs, b'))
    (hshort : (f.pathTo cs).length < limit) (walked : Nat) :
    Triple (Stands s r false b) (wopenParents (Environment.growing limit) walked n f)
      (fun walk x => (∃ g qid existed needOpen, walk = .found g qid existed needOpen ∧ g.Node (f.pathTo cs)) ∧
        Stands s r false b' x) Never := by
  induction n generalizing walked f b p cs with
  | zero =>
    cases hnames
    refine Triple.pure fun x hx => ⟨⟨f, _, _, _, rfl, ?_⟩, hx⟩
    exact ⟨rfl, hf.type, hf.closed⟩
  | succ n ih =>
    obtain ⟨c, cs', b₁, rfl, hname, hrest⟩ := exec_names_succ hnames
    refine Triple.bind (stands_read hname) fun _ => Triple.of_fact ?_
    rintro rfl
    rename_i c
    have hchild : (appendPath p c.1).length < limit := by
      have hle := length_pathTo_le (appendPath p c.1) cs'
      rw [File.pathTo, hf.path, foldl_cons] at hshort
      omega
    refine Triple.bind (stands_sys (sure_walk hlimit hf hchild)) fun result => Triple.of_fact ?_
    obtain ⟨result, g⟩ := result
    rintro ⟨qid, rfl, hg⟩
    have hpath : g.pathTo cs' = f.pathTo (c :: cs') := by
      rw [File.pathTo, File.pathTo, hg.path, hf.path, foldl_cons]
    rw [← hpath] at hshort ⊢
    exact ih hg hrest hshort (walked + 1)

theorem stands_wopenItem (hlimit : 0 < limit) (hf : f.Node p) (hp : Confined p)
    {c : Component} (hlong : limit ≤ (appendPath p c.1).length) {flags : UInt32}
    (hflags : makesDirectory flags = true) (mode : UInt32) (parents tries : Nat) :
    Triple (Stands s r false b) (wopenItem (Environment.growing limit) c flags mode parents (tries + 1) f)
      (fun walk x => (∃ g qid, walk = .found g qid false true ∧ g.Node p ∧ qid.type = .directory) ∧
        Stands s r true b x) Never := by
  rw [makesDirectory, Bool.and_eq_true] at hflags
  have hfind : Triple (Stands s r false b) (wopenFind (Environment.growing limit) c flags parents f)
      (fun walk x => (∃ g, walk = .inr g ∧ g.Node p) ∧ Stands s r false b x) Never := by
    refine still_ite (fun _ => Triple.pure fun x hx => ⟨⟨f, rfl, hf⟩, hx⟩) fun _ => ?_
    refine Triple.bind (stands_sys (sure_walk_missing hlimit hf hp hlong)) fun result => Triple.of_fact ?_
    obtain ⟨result, g⟩ := result
    rintro ⟨rfl, hg⟩
    refine still_ite (fun _ => still_ite (fun _ => Triple.pure fun x hx => ⟨⟨g, rfl, hg⟩, hx⟩) ?_) ?_
    · intro hcreate
      exact absurd hflags.1 hcreate
    · intro hnoent
      exact absurd rfl hnoent
  refine Triple.bind hfind fun walk => Triple.of_fact ?_
  rintro ⟨g, rfl, hg⟩
  have hcreate : Sure false (wopenCreate (Environment.growing limit) c flags mode g)
      (fun walk => ∃ qid, walk = .found g qid false true ∧ qid.type = .directory) true := by
    refine Sure.ite (fun _ => ?_) fun hdir => absurd hflags.2 hdir
    exact (sure_mkDir hlimit g c mode).bind fun qid hqid => Sure.pure ⟨qid, rfl, hqid⟩
  refine Triple.bind (stands_sys (sure_attempt hcreate)) fun result => Triple.of_fact ?_
  rintro ⟨walk, rfl, qid, rfl, hqid⟩
  exact Triple.pure fun x hx => ⟨⟨g, qid, rfl, hg, hqid⟩, hx⟩

/-- There is room for `n` more bytes in the response. -/
def Spare (n : Nat) (x : Exchange Bool) : Prop := x.response.size + n ≤ x.response.maxSize

theorem spare_write {n k : Nat} {bytes : List Byte} (hk : bytes.length = k) :
    Triple (Spare (n + k)) (reply (SpanWriter.write bytes)) (fun _ => Spare n) Never := by
  intro x hx
  have hroom : x.response.size + (n + k) ≤ x.response.maxSize := hx
  rw [exec_reply_write, if_neg (by omega)]
  change headerSize + (x.response.payload ++ bytes).length + n ≤ x.response.maxSize
  rw [length_append]
  rw [MessageResponse.size] at hroom
  omega

theorem spare_writeWOpenReply (hlimit : 0 < limit) (hsize : 256 ≤ s.negotiatedSize.toNat)
    (status : WOpenStatus) (walked : Nat) (hf : f.qid.type = .directory) (mask : UInt64) :
    Triple (Stands s (.initial staticBufferSize true) true b)
      (writeWOpenReply (Environment.growing limit) status walked f mask) (fun _ _ => True) Never := by
  refine Triple.bind (stands_sys (sure_getAttr hlimit f mask)) fun result => Triple.of_fact fun hqid => ?_
  obtain ⟨valid, qid, stat⟩ := result
  obtain rfl : qid = f.qid := hqid
  -- Only the number of these bytes matters.
  have hlen := statResultBytes_length stat
  dsimp only
  rw [SpanWriter.statResult]
  generalize SpanWriter.statResultBytes stat = bytes at hlen ⊢
  have hlink : ¬f.qid.type = .symlink := by
    rw [hf]
    decide
  simp only [if_neg hlink, writeWOpenReply.writeTarget]
  refine Triple.bind (Q := fun _ => Spare 249) ?_ fun _ => ?_
  · intro x hx
    have hfits : EnsureFits x.response x.session 161 := by
      refine ⟨?_, .inr ?_⟩
      · rw [hx.negotiatedSize]
        omega
      · rw [hx.response]
        rfl
    have hsize : getMessageSize .wopen + 0 = 161 := rfl
    rw [exec_ensureSize hsize (by rw [hx.response]; rfl), if_pos hfits]
    change _ + _ ≤ max x.response.maxSize 161
    simp only [hx.response]
    decide
  · refine Triple.bind (Q := fun _ => Spare 248) (spare_write (leBytes_length 1 _)) fun _ => ?_
    refine Triple.bind (Q := fun _ => Spare 246) (spare_write (leBytes_length 2 _)) fun _ => ?_
    refine Triple.bind (Q := fun _ => Spare 233) (spare_write (qidBytes_length _)) fun _ => ?_
    refine Triple.bind (Q := fun _ => Spare 231) (spare_write (leBytes_length 2 _)) fun _ => ?_
    refine Triple.bind (Q := fun _ => Spare 227) (spare_write (leBytes_length 4 _)) fun _ => ?_
    refine Triple.bind (Q := fun _ => Spare 127) (spare_write hlen) fun _ => ?_
    refine Triple.bind (Q := fun _ => Spare 119) (spare_write (leBytes_length 8 _)) fun _ => ?_
    refine Triple.bind (Q := fun _ => Spare 111) (spare_write (leBytes_length 8 _)) fun _ => ?_
    refine Triple.bind (Q := fun _ => Spare 103) (spare_write (leBytes_length 8 _)) fun _ => ?_
    exact (spare_write (n := 95) (leBytes_length 8 _)).imp (fun _ hx => hx) (fun _ _ _ => trivial) fun _ _ hx => hx

theorem Stands.written {x : Exchange Bool} (h : Stands s r made b x) (hr : r.payload = []) : Written s [] x :=
  ⟨h.fids, by rw [h.response, hr]⟩

theorem opens_wopenOpen_directory (hlimit : 0 < limit) (hsize : 256 ≤ s.negotiatedSize.toNat)
    (hf : f.Node p) (hp : p ≠ []) {newFid flags wflags : UInt32}
    (hnone : s.fids newFid = none) {qid : Qid} (hqid : qid.type = .directory)
    (hwflags : hasFlag wflags WOpenFlags.nonDirectoryFile = false) (mask : UInt64) (nameCount : Nat) :
    Triple (Stands s (.initial staticBufferSize true) true b)
      (wopenOpen (Environment.growing limit) newFid flags wflags mask nameCount f qid false true)
      (fun _ => Opens s newFid f) Never := by
  have hopen : Triple (Stands s (.initial staticBufferSize true) true b)
      (wopenFinish.openIfNeeded (Environment.growing limit) flags f qid true)
      (fun g x => g.qid = f.qid ∧ Stands s (.initial staticBufferSize true) true b x) Never := by
    refine still_ite (fun _ => ?_) fun _ => Triple.pure fun x hx => ⟨rfl, hx⟩
    exact Triple.bind (stands_sys (sure_lopen hlimit hf hp _)) fun result => Triple.pure fun x hx => hx
  have hfinish : Triple (Stands s (.initial staticBufferSize true) true b)
      (wopenFinish (Environment.growing limit) newFid flags mask nameCount f qid false true)
      (fun _ _ => True) Never := by
    refine Triple.bind hopen fun g => Triple.of_fact fun hg => ?_
    have hdir : g.qid.type = .directory := by rw [hg, hf.type]
    refine Triple.bind (Triple.never (written_writeWOpenReply .created nameCount g mask)
      (spare_writeWOpenReply hlimit hsize _ _ hdir mask) fun x hx => hx.written rfl) fun _ => ?_
    rintro x ⟨⟨hfids, -⟩, -⟩
    rw [emplaceFid, exec_bind]
    simp only [session, exec_ofFunction, andThen, hfids, hnone]
    trivial
  refine still_ite (fun hn => ?_) fun _ => still_ite (fun hd => ?_) fun _ => ?_
  · rw [hwflags] at hn
    cases hn
  · simp [hqid] at hd
  · refine Triple.bind (Q := fun _ => Stands s (.initial staticBufferSize true) true b) ?_ fun _ => ?_
    · refine Triple.when (fun _ => ?_) fun _ hx => hx
      exact (stands_sys (sure_access hlimit hf hp _)).imp (fun _ hx => hx) (fun _ _ hx => hx.2) fun _ _ hx => hx
    · refine still_ite (fun hlink => ?_) fun _ => ?_
      · rw [hqid] at hlink
        cases hlink
      · exact (Triple.never (opens_wopenFinish newFid flags mask nameCount f qid false true) hfinish
          fun x hx => hx.written rfl).imp (fun _ hx => hx) (fun _ _ hx => hx.1) fun _ _ hx => hx

end Run

/-- The directory `a` of a share, behind one fid. -/
def File.directoryA : File where
  fileName := [97]
  enumerator := none
  file := none
  root := ⟨0, ⟨3⟩, ⟨1000, 100, [100]⟩⟩
  qid := ⟨2, 0, .directory⟩
  device := 1

def Session.ofDirectoryA (fid : UInt32) : Session Bool where
  machine := ⟨false, none, []⟩
  fids n := if n = fid then some (.file File.directoryA) else none
  negotiatedSize := 8192
  negotiated := true
  allowRenegotiate := false
  use9P2000W := true
  requests := []
  nextRoot := 1

theorem confined_directoryA : Confined File.directoryA.fileName := by
  have hcomponent : isName [97] = true ∧ (0 : Byte) ∉ ([97] : List Byte) := by decide
  exact Confined.appendPath confined_nil ⟨[97], hcomponent⟩

theorem Session.ofDirectoryA_guarded (fid : UInt32) : (Session.ofDirectoryA fid).Guarded where
  context := rfl
  confined := by
    intro n item hitem
    simp only [Session.ofDirectoryA] at hitem
    split at hitem
    · cases hitem
      exact confined_directoryA
    · cases hitem
  negotiated := by
    change (8192 : UInt32) ≤ maximumRequestBufferSize
    decide

section Fails

variable {b : List Byte}

variable {c : Component}

theorem length_of_exec_name {b' : List Byte} (h : exec SpanReader.name b = (.ok c, b')) : 2 ≤ b.length := by
  by_contra hshort
  have hstring : ¬HasString b := by
    intro hstring
    have hlen : 2 + stringLength b ≤ b.length := hstring
    omega
  have hstop := SpanReader.exec_name_short hstring
  rw [h] at hstop
  cases hstop

variable {made : Bool} {s : Session Bool} {r : MessageResponse}

theorem stands_u32 (h : 4 ≤ b.length) : Triple (Stands s r made b) (read SpanReader.u32)
      (fun a x => a = UInt32.ofNat (leValue (b.take 4)) ∧ Stands s r made (b.drop 4) x) Never := by
  refine stands_read ?_
  rw [SpanReader.exec_u32, if_neg (by omega)]

theorem stands_u64 (h : 8 ≤ b.length) : Triple (Stands s r made b) (read SpanReader.u64)
      (fun a x => a = UInt64.ofNat (leValue (b.take 8)) ∧ Stands s r made (b.drop 8) x) Never := by
  refine stands_read ?_
  rw [SpanReader.exec_u64, if_neg (by omega)]

theorem stands_u16 (h : 2 ≤ b.length) : Triple (Stands s r made b) (read SpanReader.u16)
      (fun a x => a = UInt16.ofNat (leValue (b.take 2)) ∧ Stands s r made (b.drop 2) x) Never := by
  refine stands_read ?_
  rw [SpanReader.exec_u16, if_neg (by omega)]

theorem stands_lookupFid (fid : UInt32) :
    Triple (Stands (Session.ofDirectoryA fid) r made b) (lookupFid fid)
      (fun item x => item = .file File.directoryA ∧ Stands (Session.ofDirectoryA fid) r made b x) Never := by
  intro x hx
  rw [exec_lookupFid, hx.fids, Session.ofDirectoryA]
  simp only [if_true]
  exact ⟨rfl, hx⟩

theorem stands_wopenWalk {parents : List Component} {n : Nat} {b₁ b₂ : List Byte}
    (hparents : exec (SpanReader.names n) b = (.ok parents, b₁))
    (hname : exec SpanReader.name b₁ = (.ok c, b₂)) {flags : UInt32} (hflags : makesDirectory flags = true)
    (mode : UInt32) :
    Triple (Stands s r false b)
      (wopenWalk (Environment.growing (appendPath (File.directoryA.pathTo parents) c.1).length) flags mode (n + 1)
        File.directoryA.clone)
      (fun walk x => (∃ g qid, walk = .found g qid false true ∧ g.Node (File.directoryA.pathTo parents) ∧
        qid.type = .directory) ∧ Stands s r true b₂ x) Never := by
  have hlt : (File.directoryA.pathTo parents).length <
      (appendPath (File.directoryA.pathTo parents) c.1).length :=
    Segments.length_lt_append (isComponent_spec c.1 c.2).1
  have hnode : File.directoryA.clone.Node [97] := ⟨rfl, rfl, rfl⟩
  have hlimit := Nat.lt_of_le_of_lt (Nat.zero_le _) hlt
  refine Triple.bind (stands_wopenParents hlimit hnode hparents hlt 0) fun walk => Triple.of_fact ?_
  rintro ⟨g, qid, existed, needOpen, rfl, hg⟩
  refine Triple.bind (stands_read hname) fun c' => Triple.of_fact ?_
  rintro rfl
  exact stands_wopenItem hlimit hg (confined_directoryA.pathTo parents) (Nat.le_refl _) hflags mode n 2

theorem pathTo_directoryA_ne_nil (names : List Component) : File.directoryA.pathTo names ≠ [] := by
  intro hnil
  have hle := length_pathTo_le File.directoryA.fileName names
  have hlen : (File.directoryA.pathTo names).length = 0 := by rw [hnil]; rfl
  have hone : File.directoryA.fileName.length = 1 := rfl
  rw [File.pathTo] at hlen
  omega

/-- A `Twopen` that makes a directory goes through where the directory is missing, and the file
of its new fid has the path of the parent. -/
theorem opens_parent {parents : List Component} {n : Nat} {b₁ b₂ : List Byte}
    (hparents : exec (SpanReader.names n) (b.drop 34) = (.ok parents, b₁))
    (hname : exec SpanReader.name b₁ = (.ok c, b₂)) (hlen : 34 ≤ b.length)
    (hcount : (TWopen.ofBody b).nameCount.toNat = n + 1)
    (hmakes : makesDirectory (TWopen.ofBody b).flags = true)
    (hwflags : hasFlag (TWopen.ofBody b).wflags WOpenFlags.nonDirectoryFile = false)
    (hfid : (TWopen.ofBody b).newFid ≠ (TWopen.ofBody b).fid) :
    Triple (Stands (Session.ofDirectoryA (TWopen.ofBody b).fid) (.initial staticBufferSize true) false b)
      (wopenRequest (Environment.growing (appendPath (File.directoryA.pathTo parents) c.1).length))
      (fun _ x => ∃ f, f.Node (File.directoryA.pathTo parents) ∧
        Opens (Session.ofDirectoryA (TWopen.ofBody b).fid) (TWopen.ofBody b).newFid f x) Never := by
  have hdrop (i : Nat) : (b.drop i).length = b.length - i := List.length_drop
  refine Triple.bind (stands_u32 (by omega)) fun fid => Triple.of_fact fun hfid' => ?_
  refine Triple.bind (stands_u32 (by rw [hdrop]; omega)) fun newFid => Triple.of_fact fun hnewFid => ?_
  simp only [drop_drop, Nat.reduceAdd]
  refine Triple.bind (stands_u32 (by rw [hdrop]; omega)) fun flags => Triple.of_fact fun hflags => ?_
  simp only [drop_drop, Nat.reduceAdd]
  refine Triple.bind (stands_u32 (by rw [hdrop]; omega)) fun wflags => Triple.of_fact fun hwflags' => ?_
  simp only [drop_drop, Nat.reduceAdd]
  refine Triple.bind (stands_u32 (by rw [hdrop]; omega)) fun mode => Triple.of_fact fun _ => ?_
  simp only [drop_drop, Nat.reduceAdd]
  refine Triple.bind (stands_u32 (by rw [hdrop]; omega)) fun gid => Triple.of_fact fun _ => ?_
  simp only [drop_drop, Nat.reduceAdd]
  refine Triple.bind (stands_u64 (by rw [hdrop]; omega)) fun attrMask => Triple.of_fact fun _ => ?_
  simp only [drop_drop, Nat.reduceAdd]
  refine Triple.bind (stands_u16 (by rw [hdrop]; omega)) fun nameCount => Triple.of_fact fun hcount' => ?_
  simp only [drop_drop, Nat.reduceAdd]
  have hfield : TWopen.ofBody b = ⟨fid, newFid, flags, wflags, nameCount⟩ := by
    rw [hfid', hnewFid, hflags, hwflags', hcount']
    rfl
  rw [hfield] at hcount hmakes hwflags hfid ⊢
  refine Triple.bind (stands_lookupFid fid) fun item => Triple.of_fact ?_
  rintro rfl
  refine Triple.bind (Q := fun f x => f = File.directoryA.clone ∧ Stands _ _ false (b.drop 34) x)
    (Triple.pure fun x hx => ⟨rfl, hx⟩) fun f => Triple.of_fact ?_
  rintro rfl
  have hcount : nameCount.toNat = n + 1 := hcount
  rw [hcount]
  refine Triple.bind (stands_wopenWalk hparents hname hmakes mode) fun walk => Triple.of_fact ?_
  rintro ⟨g, qid, rfl, hg, hqid⟩
  have hlimit : 0 < (appendPath (File.directoryA.pathTo parents) c.1).length :=
    Nat.lt_of_le_of_lt (Nat.zero_le _) (Segments.length_lt_append (isComponent_spec c.1 c.2).1)
  have hnone : (Session.ofDirectoryA fid).fids newFid = none := if_neg hfid
  have hsize : 256 ≤ (Session.ofDirectoryA fid).negotiatedSize.toNat := by
    change 256 ≤ (8192 : UInt32).toNat
    decide
  refine (opens_wopenOpen_directory hlimit hsize hg (pathTo_directoryA_ne_nil parents) hnone hqid
    hwflags attrMask (n + 1)).imp (fun _ hx => hx) (fun _ _ hx => ⟨g, hg, hx⟩) fun _ _ hx => hx

theorem exec_handleWOpen {env : Environment Bool} {x : Exchange Bool} (h : x.session.use9P2000W = true) :
    exec (handleWOpen env) x = exec (wopenRequest env) x := by
  rw [handleWOpen, exec_bind]
  simp only [session, exec_ofFunction, andThen, h, Bool.not_true, Bool.false_eq_true, if_false]

theorem not_wopenExact_of_makesDirectory (h : MakesDirectory b) (tag : UInt16) :
    ∃ limit, ¬WOpenExact (Environment.growing limit) (.initial staticBufferSize true) tag b
      (Session.ofDirectoryA (TWopen.ofBody b).fid) := by
  obtain ⟨⟨names, b₂, hnames⟩, hcount, hmakes, hwflags, hfid⟩ := h
  obtain ⟨n, hn⟩ : ∃ n, (TWopen.ofBody b).nameCount.toNat = n + 1 := by
    refine Nat.exists_eq_succ_of_ne_zero fun hzero => hcount ?_
    exact UInt16.toNat_inj.mp hzero
  have hnamed := hnames
  rw [hn] at hnames
  obtain ⟨parents, c, b₁, rfl, hparents, hname⟩ := exec_names_last hnames
  have hlen : 34 ≤ b.length := by
    obtain ⟨d, ds, b', -, hfirst, -⟩ := exec_names_succ hnames
    have htwo := length_of_exec_name hfirst
    rw [List.length_drop] at htwo
    omega
  refine ⟨(appendPath (File.directoryA.pathTo parents) c.1).length, ?_⟩
  have hopens := opens_parent hparents hname hlen hn hmakes hwflags hfid
    ⟨Session.ofDirectoryA (TWopen.ofBody b).fid, tag, b, .initial staticBufferSize true⟩
    ⟨rfl, rfl, rfl, rfl, rfl⟩
  rw [← exec_handleWOpen rfl] at hopens
  rw [WOpenExact, processMessage_frame]
  change Ends _ _ (exec (handleMessage _ (MessageType.ofCode MessageType.wopen.code)) _) at hopens
  rcases hrun : exec (handleMessage (Environment.growing (appendPath (File.directoryA.pathTo parents) c.1).length)
    (MessageType.ofCode MessageType.wopen.code))
    ⟨Session.ofDirectoryA (TWopen.ofBody b).fid, tag, b, .initial staticBufferSize true⟩ with ⟨result, x⟩
  rw [hrun] at hopens
  cases result with
  | error e => exact hopens.elim
  | ok a =>
    obtain ⟨f, hnode, hnone, g, hsame, hfids, status, walked, rest, hstat, hpay⟩ := hopens
    rintro ⟨hadds, -⟩
    obtain ⟨-, base, names, f', hbase, ⟨b₂', hnamed'⟩, hfids', hleads, -⟩ :=
      hadds ((usesFid_result hpay tag).1.trans hstat)
    rw [hnamed] at hnamed'
    cases hnamed'
    have hbase' : (Session.ofDirectoryA (TWopen.ofBody b).fid).fids (TWopen.ofBody b).fid =
        some (.file File.directoryA) := if_pos rfl
    rw [hbase'] at hbase
    cases hbase
    have hfile : g = f' := by
      have hat := congrFun (hfids.symm.trans hfids') (TWopen.ofBody b).newFid
      simp only [Session.setFid, if_true] at hat
      cases hat
      rfl
    have hpath := hleads.path
    rw [← hfile, hsame.path, hnode.path, File.pathTo, File.pathTo, foldl_append] at hpath
    have hlt : (File.directoryA.pathTo parents).length <
        (appendPath (File.directoryA.pathTo parents) c.1).length :=
      Segments.length_lt_append (isComponent_spec c.1 c.2).1
    exact absurd (congrArg List.length hpath) (Nat.ne_of_lt hlt)

end Fails

/-- Whatever the server, the share and the connection, a `Twopen` adds its fid exactly if it
reports the file, and adds the file that its names lead to, if and only if it does not make a
directory. -/
theorem wopen_exact_iff (tag : UInt16) (b : List Byte) :
    (∀ (W : Type) (env : Environment W) (maxSize : Nat) (allowResize : Bool) (s : Session W), s.Guarded →
      WOpenExact env (.initial maxSize allowResize) tag b s) ↔ ¬MakesDirectory b := by
  constructor
  · intro h hmakes
    obtain ⟨limit, hnot⟩ := not_wopenExact_of_makesDirectory hmakes tag
    exact hnot (h Bool _ _ _ _ (Session.ofDirectoryA_guarded _))
  · intro h W env maxSize allowResize s hs
    exact wopenExact_of_not_makesDirectory hs rfl tag h

/-- A `Twopen` of fid 1 as fid 2 that makes the directory `b`. -/
def makeDirectoryBody : List Byte :=
  leBytes 4 1 ++ leBytes 4 2 ++ leBytes 4 (0o200100) ++ leBytes 4 0 ++ leBytes 4 0o755 ++ leBytes 4 0 ++
    leBytes 8 0 ++ leBytes 2 1 ++ frameString [98]

/-- The new fid stands for `a` and not for `a/b`. -/
theorem makeDirectory_not_exact :
    ¬WOpenExact (Environment.growing 3) (.initial staticBufferSize true) 1 makeDirectoryBody
      (Session.ofDirectoryA 1) := by
  have hreply : (processMessage (Environment.growing 3) (.initial staticBufferSize true)
      (frame .wopen 1 makeDirectoryBody) (Session.ofDirectoryA 1)).1.usesFid = true := by decide +kernel
  have hfile : (processMessage (Environment.growing 3) (.initial staticBufferSize true)
      (frame .wopen 1 makeDirectoryBody) (Session.ofDirectoryA 1)).2.fids 2 =
      some (.file { File.directoryA with file := some ⟨4⟩ }) := by decide +kernel
  rintro ⟨hadds, -⟩
  obtain ⟨-, base, names, f, hbase, ⟨rest, hnames⟩, hfids, hleads, -⟩ := hadds hreply
  obtain ⟨c, cs, b₁, rfl, -, -⟩ := exec_names_succ (n := 0) hnames
  have hbase' : (Session.ofDirectoryA 1).fids 1 = some (.file base) := hbase
  cases hbase'
  have hf : some (Fid.file f) = some (.file { File.directoryA with file := some ⟨4⟩ }) := by
    rw [hfids] at hfile
    exact hfile
  cases hf
  have hlt : File.directoryA.fileName.length < (appendPath File.directoryA.fileName c.1).length :=
    Segments.length_lt_append (isComponent_spec c.1 c.2).1
  have hle := length_pathTo_le (appendPath File.directoryA.fileName c.1) cs
  have hpath : File.directoryA.fileName.length =
      (cs.foldl (fun p c => appendPath p c.1) (appendPath File.directoryA.fileName c.1)).length :=
    congrArg List.length hleads.path
  omega

end WslPlus.Plan9

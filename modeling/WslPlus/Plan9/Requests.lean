import WslPlus.Plan9.Audit

/-!
# What a request may do to a connection

A request adds only events that are in order for the identity of the fid that it names.
The fids that it leaves have confined names; an old fid keeps its identity and a new one
gets that of the request.
-/

namespace WslPlus.Plan9

open Program

def Fid.root : Fid → Root
  | .file f => f.root
  | .xattr x => x.root

def Fid.identity (item : Fid) : Identity := item.root.identity

variable {W : Type}

def Session.identityOr (s : Session W) (id : Identity) (fid : UInt32) : Identity :=
  ((s.fids fid).map Fid.identity).getD id

/-- A session after a request that began in `s₀`. -/
structure Orderly (id : Identity) (lapse : Bool) (s₀ s : Session W) : Prop where
  machine : Logged id lapse s₀.machine.trace none s.machine
  confined : ∀ fid item, s.fids fid = some item → item.IsConfined
  identity : ∀ fid item, s.fids fid = some item → item.identity = s₀.identityOr id fid
  negotiated : s.negotiatedSize ≤ maximumRequestBufferSize

/-- A session during a request, before a fid is erased. -/
structure Working (id : Identity) (lapse : Bool) (s₀ s : Session W) : Prop extends
    Orderly id lapse s₀ s where
  kept : ∀ fid, s.fids fid = none → s₀.fids fid = none

section Steps

variable {α : Type} {id : Identity} {lapse : Bool} {s₀ : Session W} {A : α → Prop}

abbrev Works (id : Identity) (lapse : Bool) (s₀ : Session W) : Exchange W → Prop :=
  fun x => Working id lapse s₀ x.session

theorem keeps_decoder (d : Decoder α) : Keeps (Works id lapse s₀) (read d) fun _ => True :=
  Keeps.zoom (Keeps.nothing d) (fun _ _ => trivial) fun _ _ hx _ => hx

theorem keeps_decode {β : Type} {d : Decoder α} {f : α → Handler W β} {B : β → Prop}
    (h : ∀ a, Keeps (Works id lapse s₀) (f a) B) : Keeps (Works id lapse s₀) (read d >>= f) B :=
  (keeps_decoder d).bind fun a _ => h a

theorem keeps_reply (m : Writer α) : Keeps (Works id lapse s₀) (reply m) fun _ => True :=
  Keeps.zoom (Keeps.nothing m) (fun _ _ => trivial) fun _ _ hx _ => hx

theorem keeps_sys {m : Sys W α} (h : Keeps (Logged id lapse s₀.machine.trace none) m A) :
    Keeps (Works id lapse s₀) (sys m) A := by
  refine Keeps.zoom h.mapError (fun x hx => hx.machine) ?_
  intro x m' hx hm'
  exact ⟨⟨hm', hx.confined, hx.identity, hx.negotiated⟩, hx.kept⟩

theorem keeps_session : Keeps (Works id lapse s₀) session fun _ => True := fun _ hx => ⟨trivial, hx⟩

theorem keeps_modifySession {f : Session W → Session W} (hmachine : ∀ s, (f s).machine = s.machine)
    (hfids : ∀ s, (f s).fids = s.fids) (hsize : ∀ s, s.negotiatedSize ≤ maximumRequestBufferSize →
      (f s).negotiatedSize ≤ maximumRequestBufferSize) : Keeps (Works id lapse s₀) (modifySession f) fun _ => True := by
  intro x hx
  refine ⟨trivial, ⟨?_, ?_, ?_, hsize _ hx.negotiated⟩, ?_⟩
  · rw [hmachine]
    exact hx.machine
  · rw [hfids]
    exact hx.confined
  · rw [hfids]
    exact hx.identity
  · rw [hfids]
    exact hx.kept

theorem keeps_ensureSize (t : MessageType) (extra : Nat) :
    Keeps (Works id lapse s₀) (ensureSize t extra : Handler W Unit) fun _ => True :=
  keeps_session.bind fun _ _ => keeps_reply _

theorem keeps_stringSpace : Keeps (Works id lapse s₀) (stringSpace : Handler W Nat) fun _ => True := by
  intro x hx
  simp only [stringSpace, exec_ofFunction]
  split
  · exact hx
  · exact ⟨trivial, hx⟩

theorem keeps_dataSpace (count : Nat) :
    Keeps (Works id lapse s₀) (dataSpace count : Handler W Unit) fun _ => True := by
  intro x hx
  simp only [dataSpace, exec_ofFunction]
  split
  · exact hx
  · exact ⟨trivial, hx⟩

theorem keeps_lookupFid (fid : UInt32) :
    Keeps (Works id lapse s₀) (lookupFid fid) fun item =>
      item.IsConfined ∧ item.identity = s₀.identityOr id fid := by
  intro x hx
  rw [exec_lookupFid]
  cases hfid : x.session.fids fid with
  | some item => exact ⟨⟨hx.confined fid item hfid, hx.identity fid item hfid⟩, hx⟩
  | none => exact hx

variable {fid : UInt32}

theorem Working.setFid {s : Session W} (h : Working id lapse s₀ s) {item : Fid}
    (hconf : item.IsConfined) (hid : item.identity = s₀.identityOr id fid) :
    Working id lapse s₀ (s.setFid fid (some item)) := by
  refine ⟨⟨h.machine, ?_, ?_, h.negotiated⟩, ?_⟩
  · intro n other hn
    simp only [Session.setFid] at hn
    split at hn
    · cases hn
      exact hconf
    · exact h.confined n other hn
  · intro n other hn
    simp only [Session.setFid] at hn
    split at hn
    · rename_i heq
      cases hn
      rw [heq]
      exact hid
    · exact h.identity n other hn
  · intro n hn
    simp only [Session.setFid] at hn
    split at hn
    · cases hn
    · exact h.kept n hn

theorem keeps_setFid (item : Fid) (hconf : item.IsConfined) (hid : item.identity = s₀.identityOr id fid) :
    Keeps (Works id lapse s₀) (modifySession fun s => s.setFid fid (some item)) fun _ => True :=
  fun _ hx => ⟨trivial, hx.setFid hconf hid⟩

theorem keeps_emplaceFid (item : Fid) (hconf : item.IsConfined)
    (hid : item.identity = id) : Keeps (Works id lapse s₀) (emplaceFid fid item) fun _ => True := by
  intro x hx
  rw [emplaceFid, exec_bind]
  simp only [session, exec_ofFunction, andThen]
  cases hfid : x.session.fids fid with
  | some _ => exact hx
  | none =>
    refine ⟨trivial, hx.setFid hconf ?_⟩
    rw [hid, Session.identityOr, hx.kept fid hfid]
    rfl

theorem keeps_lookupFidPair (fid1 fid2 : UInt32) :
    Keeps (Works id lapse s₀) (lookupFidPair fid1 fid2) fun items =>
      (items.1.IsConfined ∧ items.1.identity = s₀.identityOr id fid1) ∧ items.2.IsConfined := by
  refine (keeps_lookupFid fid1).bind fun item1 h1 => ?_
  refine (keeps_lookupFid fid2).bind fun item2 h2 => ?_
  exact Keeps.pure ⟨h1, h2.1⟩

variable {cont : File → Handler W α}

theorem keeps_asFile {item : Fid} (hconf : item.IsConfined)
    (hid : item.identity = id) (h : ∀ f, Confined f.fileName → f.root.identity = id →
      Keeps (Works id lapse s₀) (cont f) A) : Keeps (Works id lapse s₀) (asFile item >>= cont) A := by
  cases item with
  | file f => exact h f hconf hid
  | xattr x => exact Keeps.throw

theorem keeps_file (hfid : s₀.identityOr id fid = id)
    (h : ∀ f, Confined f.fileName → f.root.identity = id → Keeps (Works id lapse s₀) (cont f) A) :
    Keeps (Works id lapse s₀) (lookupFid fid >>= fun item => asFile item >>= cont) A :=
  (keeps_lookupFid fid).bind fun _ hitem => keeps_asFile hitem.1 (hitem.2.trans hfid) h

theorem keeps_cloneFid (hfid : s₀.identityOr id fid = id)
    (h : ∀ f, Confined f.fileName → f.root.identity = id → Keeps (Works id lapse s₀) (cont f) A) :
    Keeps (Works id lapse s₀) (lookupFid fid >>= fun item => cloneFid item >>= cont) A := by
  refine (keeps_lookupFid fid).bind fun item hitem => ?_
  cases item with
  | file f => exact h f.clone hitem.1 (hitem.2.trans hfid)
  | xattr x => exact Keeps.throw

end Steps

section Sound

variable (id : Identity) (lapse : Bool) (s₀ : Session W) (body : List Byte)

def Begins (x : Exchange W) : Prop := x.session = s₀

def Leads (m : Handler W Unit) : Prop :=
  Triple (Begins s₀) m (fun _ x => Orderly id lapse s₀ x.session) fun _ x => Orderly id lapse s₀ x.session

def Sound (m : Handler W Unit) : Prop :=
  ∀ x : Exchange W, x.session = s₀ → x.reader = body → Orderly id lapse s₀ (exec m x).2.session

variable {id lapse s₀ body} {α : Type}

theorem begins_read (d : Decoder α) : Keeps (Begins s₀) (read d) fun _ => True :=
  Keeps.zoom (Keeps.nothing d) (fun _ _ => trivial) fun _ _ hx _ => hx

theorem begins_lookupFid (fid : UInt32) :
    Keeps (Begins s₀) (lookupFid fid) fun item => s₀.fids fid = some item := by
  intro x hx
  rw [exec_lookupFid]
  cases hfid : x.session.fids fid with
  | some item =>
    have hx' : x.session = s₀ := hx
    rw [hx'] at hfid
    exact ⟨hfid, hx⟩
  | none => exact hx

variable (hstart : Working id lapse s₀ s₀)
include hstart

variable {m : Handler W Unit}

theorem Leads.of_keeps (h : Keeps (Works id lapse s₀) m fun _ => True) : Leads id lapse s₀ m := by
  refine Triple.imp h ?_ (fun _ _ hx => hx.2.toOrderly) fun _ _ hx => hx.toOrderly
  intro x hx
  have hx' : x.session = s₀ := hx
  rw [Works, hx']
  exact hstart

theorem Leads.bind {m : Handler W α} {A : α → Prop} {f : α → Handler W Unit}
    (hm : Keeps (Begins s₀) m A) (hf : ∀ a, A a → Leads id lapse s₀ (f a)) : Leads id lapse s₀ (m >>= f) := by
  have hm' : Triple (Begins s₀) m (fun a x => A a ∧ Begins s₀ x) fun _ x =>
      Orderly id lapse s₀ x.session := by
    refine Triple.imp hm (fun _ hx => hx) (fun _ _ hx => hx) ?_
    intro _ x hx
    have hx' : x.session = s₀ := hx
    rw [hx']
    exact hstart.toOrderly
  exact Triple.bind hm' fun a => Triple.of_fact (hf a)

omit hstart in
theorem Sound.of_leads (h : Leads id lapse s₀ m) : Sound id lapse s₀ body m := by
  intro x hx _
  have h' := h x hx
  rcases hr : exec m x with ⟨r, x'⟩
  rw [hr] at h'
  cases r with
  | ok a => exact h'
  | error e => exact h'

theorem Sound.of_keeps (h : Keeps (Works id lapse s₀) m fun _ => True) :
    Sound id lapse s₀ body m := Sound.of_leads (Leads.of_keeps hstart h)

theorem Sound.fields {d : Decoder α} {f : α → Handler W Unit}
    (h : ∀ a, (exec d body).1 = .ok a → Leads id lapse s₀ (f a)) : Sound id lapse s₀ body (read d >>= f) := by
  intro x hx hbody
  rw [exec_bind, read, exec_zoom]
  change Orderly id lapse s₀ (andThen ((exec d x.reader).1, { x with reader := _ }) f).2.session
  rw [hbody]
  cases hr : (exec d body).1 with
  | ok a => exact Sound.of_leads (h a hr) { x with reader := _ } hx rfl
  | error e =>
    change Orderly id lapse s₀ x.session
    rw [hx]
    exact hstart.toOrderly

theorem Sound.first {f : UInt32 → Handler W Unit} (h : Leads id lapse s₀ (f (firstFid body))) :
    Sound id lapse s₀ body (read SpanReader.u32 >>= f) := by
  refine Sound.fields hstart fun a ha => ?_
  rw [SpanReader.exec_u32] at ha
  split at ha
  · cases ha
  · cases ha
    exact h

theorem Sound.first_keeps {f : UInt32 → Handler W Unit}
    (h : Keeps (Works id lapse s₀) (f (firstFid body)) fun _ => True) :
    Sound id lapse s₀ body (read SpanReader.u32 >>= f) := Sound.first hstart (Leads.of_keeps hstart h)

omit hstart in
theorem Leads.session {f : Session W → Handler W Unit} (h : Leads id lapse s₀ (f s₀)) :
    Leads id lapse s₀ (Plan9.session >>= f) := by
  intro x hx
  have hx' : x.session = s₀ := hx
  rw [exec_bind]
  change Ends _ _ (exec (f x.session) x)
  rw [hx']
  exact h x hx

omit hstart in
theorem Sound.session {f : Session W → Handler W Unit} (h : Sound id lapse s₀ body (f s₀)) :
    Sound id lapse s₀ body (Plan9.session >>= f) := by
  intro x hx hbody
  rw [exec_bind]
  change Orderly id lapse s₀ (exec (f x.session) x).2.session
  rw [hx]
  exact h x hx hbody

end Sound

section Handlers

variable {id : Identity} {lapse : Bool} {s₀ : Session W} {body : List Byte} {env : Environment W}
variable (hstart : Working id lapse s₀ s₀) (hfid : s₀.identityOr id (firstFid body) = id)

theorem keeps_writeReserved : Keeps (Works id lapse s₀) (writeReserved : Handler W Unit) fun _ => True := by
  iterate 3 refine (keeps_reply _).bind fun _ _ => ?_
  exact keeps_reply _

theorem keeps_storeFile {fid : UInt32} {f g : File} (hfid : s₀.identityOr id fid = id)
    (hid : f.root.identity = id) (hg : f.Beside g) :
    Keeps (Works id lapse s₀) (storeFile fid g) fun _ => True := by
  refine keeps_setFid (.file g) hg.confined ?_
  rw [hfid, ← hid, Fid.identity, Fid.root, hg.root]

theorem keeps_checkOpen (f : File) : Keeps (Works id lapse s₀) (checkOpen f : Handler W Unit) fun _ => True :=
  Keeps.ite (fun _ => Keeps.pure trivial) fun _ => Keeps.throw

theorem keeps_walkNames {f : File} (hf : Confined f.fileName) (names : List Component)
    (hid : f.root.identity = id) : Keeps (Works id lapse s₀) (walkNames env f names) fun g => f.Beside g := by
  induction names generalizing f with
  | nil => exact Keeps.pure ⟨rfl, hf⟩
  | cons name rest ih =>
    subst hid
    refine (keeps_sys (keeps_walk hf name)).bind fun r hr => ?_
    obtain ⟨r, g⟩ := r
    cases r with
    | error e => exact Keeps.throw
    | ok qid =>
      refine (keeps_reply _).bind fun _ _ => ?_
      refine (ih hr.confined (by rw [hr.root])).imp fun h hh => ?_
      exact ⟨hh.root.trans hr.root, hh.confined⟩

include hstart hfid

theorem sound_statFs (hlapse : ∀ f, s₀.fids (firstFid body) = some (.file f) → lapse = true) :
    Sound id lapse s₀ body (handleStatFs env) := by
  refine Sound.first hstart (Leads.bind hstart (begins_lookupFid _) fun item hitem => ?_)
  refine Leads.of_keeps hstart ?_
  have hconf := hstart.confined _ item hitem
  have hid' := (hstart.identity _ item hitem).trans hfid
  cases item with
  | xattr x => exact Keeps.throw
  | file f =>
    have hid : f.root.identity = id := hid'
    subst hid
    refine (keeps_sys (keeps_statFs hconf (hlapse f hitem))).bind fun _ _ => ?_
    refine (keeps_ensureSize _ _).bind fun _ _ => ?_
    iterate 8 refine (keeps_reply _).bind fun _ _ => ?_
    exact keeps_reply _

theorem sound_getAttr : Sound id lapse s₀ body (handleGetAttr env) := by
  refine Sound.first_keeps hstart (keeps_decode fun mask => ?_)
  refine keeps_file hfid fun f hf hid => ?_
  subst hid
  refine (keeps_sys (keeps_getAttr hf mask)).bind fun r _ => ?_
  obtain ⟨valid, qid, stat⟩ := r
  dsimp only
  generalize SpanWriter.statResult stat = writer
  refine (keeps_ensureSize _ _).bind fun _ _ => ?_
  iterate 3 refine (keeps_reply _).bind fun _ _ => ?_
  exact keeps_writeReserved

theorem sound_walk : Sound id lapse s₀ body (handleWalk env) := by
  refine Sound.first_keeps hstart (keeps_decode fun newfid => ?_)
  refine keeps_decode fun nameCount => ?_
  refine keeps_decode fun components => ?_
  refine keeps_cloneFid hfid fun f hf hid => ?_
  refine (keeps_ensureSize _ _).bind fun _ _ => ?_
  refine (keeps_reply _).bind fun _ _ => ?_
  refine (keeps_walkNames hf components hid).bind fun g hg => ?_
  refine keeps_emplaceFid (.file g) hg.confined ?_
  rw [Fid.identity, Fid.root, hg.root, hid]

theorem sound_lopen : Sound id lapse s₀ body (handleLOpen env) := by
  refine Sound.first_keeps hstart (keeps_decode fun flags => ?_)
  refine keeps_file hfid fun f hf hid => ?_
  subst hid
  refine (keeps_sys (keeps_lopen hf flags)).bind fun r hr => ?_
  obtain ⟨qid, g⟩ := r
  refine (keeps_storeFile hfid rfl hr).bind fun _ _ => ?_
  refine (keeps_ensureSize _ _).bind fun _ _ => ?_
  exact (keeps_reply _).bind fun _ _ => keeps_reply _

theorem sound_lcreate : Sound id lapse s₀ body (handleLCreate env) := by
  refine Sound.first_keeps hstart (keeps_decode fun component => ?_)
  refine keeps_decode fun flags => ?_
  refine keeps_decode fun mode => ?_
  refine keeps_decode fun gid => ?_
  refine keeps_file hfid fun f hf hid => ?_
  subst hid
  refine (keeps_sys (keeps_create hf component flags mode)).bind fun r hr => ?_
  obtain ⟨qid, g⟩ := r
  refine (keeps_storeFile hfid rfl hr).bind fun _ _ => ?_
  refine (keeps_ensureSize _ _).bind fun _ _ => ?_
  exact (keeps_reply _).bind fun _ _ => keeps_reply _

theorem sound_symLink : Sound id lapse s₀ body (handleSymLink env) := by
  refine Sound.first_keeps hstart (keeps_decode fun component => ?_)
  refine keeps_decode fun target => ?_
  refine keeps_decode fun gid => ?_
  refine keeps_file hfid fun f hf hid => ?_
  subst hid
  refine (keeps_sys (keeps_symLink hf component target)).bind fun _ _ => ?_
  exact (keeps_ensureSize _ _).bind fun _ _ => keeps_reply _

theorem sound_mkNod : Sound id lapse s₀ body (handleMkNod env) := by
  refine Sound.first_keeps hstart (keeps_decode fun component => ?_)
  refine keeps_decode fun mode => ?_
  refine keeps_decode fun major => ?_
  refine keeps_decode fun minor => ?_
  refine keeps_decode fun gid => ?_
  refine keeps_file hfid fun f hf hid => ?_
  subst hid
  refine (keeps_sys (keeps_mkNod hf component mode major minor)).bind fun _ _ => ?_
  exact (keeps_ensureSize _ _).bind fun _ _ => keeps_reply _

theorem sound_mkDir : Sound id lapse s₀ body (handleMkDir env) := by
  refine Sound.first_keeps hstart (keeps_decode fun component => ?_)
  refine keeps_decode fun mode => ?_
  refine keeps_decode fun gid => ?_
  refine keeps_file hfid fun f hf hid => ?_
  subst hid
  refine (keeps_sys (keeps_mkDir hf component mode)).bind fun _ _ => ?_
  exact (keeps_ensureSize _ _).bind fun _ _ => keeps_reply _

theorem sound_readLink : Sound id lapse s₀ body (handleReadLink env) := by
  refine Sound.first_keeps hstart ((keeps_lookupFid _).bind fun item hitem => ?_)
  refine (keeps_ensureSize _ _).bind fun _ _ => ?_
  refine keeps_stringSpace.bind fun space _ => ?_
  refine keeps_asFile hitem.1 (hitem.2.trans hfid) fun f hf hid => ?_
  subst hid
  refine (keeps_sys (keeps_readLink hf space)).bind fun _ _ => ?_
  exact (keeps_reply _).bind fun _ _ => keeps_reply _

theorem sound_readDirEntries (includeAttributes : Bool)
    (hlapse : includeAttributes = true → ∀ f, s₀.fids (firstFid body) = some (.file f) →
      f.isOpen = true → lapse = true) : Sound id lapse s₀ body (readDirEntries env includeAttributes) := by
  refine Sound.first hstart (Leads.bind hstart (begins_read _) fun offset _ => ?_)
  refine Leads.bind hstart (begins_read _) fun count _ => ?_
  refine Leads.bind hstart (begins_lookupFid _) fun item hitem => Leads.of_keeps hstart ?_
  have hconf := hstart.confined _ item hitem
  have hid' := (hstart.identity _ item hitem).trans hfid
  refine (keeps_ensureSize _ _).bind fun _ _ => ?_
  refine (keeps_dataSpace _).bind fun _ _ => ?_
  cases item with
  | xattr x => exact Keeps.throw
  | file f =>
    have hid : f.root.identity = id := hid'
    have hdir : Keeps (Logged id lapse s₀.machine.trace none)
        (f.readDir env.kernel offset count.toNat includeAttributes) fun r => f.Beside r.2 :=
      keeps_readDir hconf offset count.toNat fun hinc hopen => hlapse hinc f hitem hopen
    refine (keeps_sys hdir).bind fun r hr => ?_
    obtain ⟨r, g⟩ := r
    refine (keeps_storeFile hfid hid hr).bind fun _ _ => ?_
    cases r with
    | error e => exact Keeps.throw
    | ok bytes => exact (keeps_reply _).bind fun _ _ => keeps_reply _

theorem sound_fsync : Sound id lapse s₀ body (handleFsync env) :=
  Sound.first_keeps hstart (keeps_file hfid fun _ _ _ => keeps_sys keeps_fsync)

theorem sound_link : Sound id lapse s₀ body (handleLink env) := by
  refine Sound.first_keeps hstart (keeps_decode fun fid => ?_)
  refine keeps_decode fun component => ?_
  refine (keeps_lookupFidPair _ _).bind fun items hitems => ?_
  obtain ⟨dir, file⟩ := items
  refine keeps_asFile hitems.1.1 (hitems.1.2.trans hfid) fun f hf hid => ?_
  subst hid
  exact keeps_sys (keeps_link hf hitems.2 component)

theorem sound_read : Sound id lapse s₀ body (handleRead env) := by
  refine Sound.first_keeps hstart (keeps_decode fun offset => ?_)
  refine keeps_decode fun count => ?_
  refine (keeps_lookupFid _).bind fun item hitem => ?_
  have hid := hitem.2.trans hfid
  refine (keeps_ensureSize _ _).bind fun _ _ => ?_
  refine (keeps_dataSpace _).bind fun _ _ => ?_
  have hread : Keeps (Works id lapse s₀) (sys (readFid env item offset count.toNat)) fun _ => True := by
    cases item with
    | file f => exact keeps_sys ((keeps_read _ _).bind fun _ _ => Keeps.pure trivial)
    | xattr x =>
      have hx : x.root.identity = id := hid
      subst hx
      exact keeps_sys ((keeps_xattrRead x _ _).bind fun _ _ => Keeps.pure trivial)
  refine hread.bind fun r _ => ?_
  exact (keeps_reply _).bind fun _ _ => keeps_reply _

omit hfid in
theorem sound_write : Sound id lapse s₀ body (handleWrite env) := by
  refine Sound.first_keeps hstart (keeps_decode fun offset => ?_)
  refine keeps_decode fun count => ?_
  refine keeps_decode fun data => ?_
  refine (keeps_lookupFid _).bind fun item hitem => ?_
  have hwrite : Keeps (Works id lapse s₀) (handleWrite.writeItem env (firstFid body) item offset data)
      fun _ => True := by
    cases item with
    | file f => exact keeps_sys (keeps_write _ _)
    | xattr x =>
      refine (keeps_sys (keeps_xattrWrite x offset data)).bind fun r hr => ?_
      obtain ⟨n, y⟩ := r
      refine (keeps_setFid (.xattr y) trivial ?_).bind fun _ _ => Keeps.pure trivial
      rw [← hitem.2, Fid.identity, Fid.identity, Fid.root, Fid.root, hr]
  refine hwrite.bind fun n _ => ?_
  exact (keeps_ensureSize _ _).bind fun _ _ => keeps_reply _

theorem sound_unlinkAt : Sound id lapse s₀ body (handleUnlinkAt env) := by
  refine Sound.first_keeps hstart (keeps_decode fun component => ?_)
  refine keeps_decode fun flags => ?_
  refine keeps_file hfid fun f hf hid => ?_
  subst hid
  exact keeps_sys (keeps_unlinkAt hf component flags)

theorem sound_remove : Sound id lapse s₀ body (handleRemove env) := by
  refine Sound.first_keeps hstart (keeps_file hfid fun f hf hid => ?_)
  subst hid
  exact keeps_sys (keeps_remove hf)

theorem sound_renameAt : Sound id lapse s₀ body (handleRenameAt env) := by
  refine Sound.first_keeps hstart (keeps_decode fun oldname => ?_)
  refine keeps_decode fun newfid => ?_
  refine keeps_decode fun newname => ?_
  refine (keeps_lookupFidPair _ _).bind fun items hitems => ?_
  obtain ⟨olddir, newdir⟩ := items
  refine keeps_asFile hitems.1.1 (hitems.1.2.trans hfid) fun f hf hid => ?_
  subst hid
  exact keeps_sys (keeps_renameAt hf hitems.2 oldname newname)

theorem sound_rename : Sound id lapse s₀ body (handleRename env) := by
  refine Sound.first_keeps hstart (keeps_decode fun newFid => ?_)
  refine keeps_decode fun newName => ?_
  refine (keeps_lookupFidPair _ _).bind fun items hitems => ?_
  obtain ⟨oldFile, newDir⟩ := items
  refine keeps_asFile hitems.1.1 (hitems.1.2.trans hfid) fun f hf hid => ?_
  subst hid
  refine (keeps_sys (keeps_rename hf hitems.2 newName)).bind fun g hg => ?_
  exact keeps_storeFile hfid rfl hg

theorem sound_setAttr : Sound id lapse s₀ body (handleSetAttr env) := by
  refine Sound.first_keeps hstart (keeps_decode fun valid => ?_)
  iterate 8 refine keeps_decode fun _ => ?_
  refine keeps_file hfid fun f hf hid => ?_
  subst hid
  exact keeps_sys (keeps_setAttr hf valid _)

theorem sound_lock : Sound id lapse s₀ body (handleLock : Handler W Unit) := by
  refine Sound.first_keeps hstart (keeps_decode fun _ => ?_)
  iterate 5 refine keeps_decode fun _ => ?_
  refine keeps_file hfid fun f _ _ => ?_
  refine (keeps_checkOpen f).bind fun _ _ => ?_
  exact (keeps_ensureSize _ _).bind fun _ _ => keeps_reply _

theorem sound_getLock : Sound id lapse s₀ body (handleGetLock : Handler W Unit) := by
  refine Sound.first_keeps hstart (keeps_decode fun _ => ?_)
  iterate 4 refine keeps_decode fun _ => ?_
  refine keeps_file hfid fun f _ _ => ?_
  refine (keeps_checkOpen f).bind fun _ _ => ?_
  refine (keeps_ensureSize _ _).bind fun _ _ => ?_
  iterate 4 refine (keeps_reply _).bind fun _ _ => ?_
  exact keeps_reply _

theorem sound_xattrWalk : Sound id lapse s₀ body (handleXattrWalk env) := by
  refine Sound.first_keeps hstart (keeps_decode fun newFid => ?_)
  refine keeps_decode fun xattrName => ?_
  refine keeps_file hfid fun f hf hid => ?_
  refine (keeps_sys (keeps_xattrWalk xattrName)).bind fun x hx => ?_
  have hxid : x.root.identity = id := by rw [hx, hid]
  subst hxid
  refine (keeps_sys (keeps_getSize x)).bind fun size _ => ?_
  refine (keeps_emplaceFid (.xattr x) trivial rfl).bind fun _ _ => ?_
  exact (keeps_ensureSize _ _).bind fun _ _ => keeps_reply _

theorem sound_xattrCreate : Sound id lapse s₀ body (handleXattrCreate env) := by
  refine Sound.first_keeps hstart (keeps_decode fun xattrName => ?_)
  refine keeps_decode fun size => ?_
  refine keeps_decode fun flags => ?_
  refine keeps_file hfid fun f hf hid => ?_
  refine (keeps_sys (keeps_xattrCreate xattrName size flags)).bind fun x hx => ?_
  refine keeps_setFid (.xattr x) trivial ?_
  rw [hfid, Fid.identity, Fid.root, hx, hid]

theorem sound_access : Sound id lapse s₀ body (handleAccess env) := by
  refine Sound.session ?_
  by_cases hW : (!s₀.use9P2000W) = true
  · rw [if_pos hW]
    exact Sound.of_keeps hstart Keeps.throw
  · rw [if_neg hW]
    refine Sound.first_keeps hstart (keeps_decode fun flags => ?_)
    refine (keeps_lookupFid _).bind fun item hitem => ?_
    cases item with
    | xattr x => exact Keeps.throw
    | file f =>
      have hid : f.root.identity = id := hitem.2.trans hfid
      subst hid
      exact keeps_sys (keeps_access hitem.1 flags)

end Handlers

section WOpen

variable {id : Identity} {lapse : Bool} {s₀ : Session W} {body : List Byte} {env : Environment W}

theorem File.Beside.trans {f g h : File} (hg : f.Beside g) (hh : g.Beside h) : f.Beside h :=
  ⟨hh.root.trans hg.root, hh.confined⟩

theorem File.Beside.refl {f : File} (h : Confined f.fileName) : f.Beside f := ⟨rfl, h⟩

def WOpenWalk.Beside (f : File) : WOpenWalk → Prop
  | .answer _ _ g => f.Beside g
  | .found g _ _ _ => f.Beside g

theorem WOpenWalk.Beside.trans {f g : File} {walk : WOpenWalk} (hg : f.Beside g) (h : walk.Beside g) :
    walk.Beside f := by
  cases walk with
  | answer _ _ h' => exact File.Beside.trans hg h
  | found h' _ _ _ => exact File.Beside.trans hg h

section File

variable {f : File} (hf : Confined f.fileName)
include hf

section

variable (hid : f.root.identity = id)
include hid

theorem keeps_writeWOpenReply (status : WOpenStatus) (walked : Nat)
    (mask : UInt64) : Keeps (Works id lapse s₀) (writeWOpenReply env status walked f mask) fun _ => True := by
  subst hid
  have htarget : ∀ qid, Keeps (Works f.root.identity lapse s₀)
      (writeWOpenReply.writeTarget env f qid) fun _ => True := by
    intro qid
    refine Keeps.ite (fun _ => ?_) fun _ => keeps_reply _
    refine keeps_stringSpace.bind fun space _ => ?_
    refine (keeps_sys (keeps_attempt (keeps_readLink hf space))).bind fun r _ => ?_
    split
    · exact (keeps_reply _).bind fun _ _ => keeps_reply _
    · exact keeps_reply _
  refine (keeps_sys (keeps_getAttr hf mask)).bind fun r _ => ?_
  obtain ⟨valid, qid, stat⟩ := r
  dsimp only
  generalize SpanWriter.statResult stat = writer
  refine (keeps_ensureSize _ _).bind fun _ _ => ?_
  iterate 3 refine (keeps_reply _).bind fun _ _ => ?_
  refine (htarget _).bind fun _ _ => ?_
  iterate 2 refine (keeps_reply _).bind fun _ _ => ?_
  exact keeps_writeReserved

theorem keeps_walkOne (name : Component) :
    Keeps (Works id lapse s₀) (sys (f.walk env.kernel name)) fun r => f.Beside r.2 := by
  subst hid
  exact keeps_sys (keeps_walk hf name)

theorem keeps_wopenParents (walked n : Nat) :
    Keeps (Works id lapse s₀) (wopenParents env walked n f) fun walk => walk.Beside f := by
  induction n generalizing f walked with
  | zero => exact Keeps.pure (File.Beside.refl hf)
  | succ n ih =>
    refine keeps_decode fun component => ?_
    refine (keeps_walkOne hf hid component).bind fun r hr => ?_
    obtain ⟨r, g⟩ := r
    cases r with
    | ok qid =>
      have hrest := ih hr.confined (by rw [hr.root, hid]) (walked + 1)
      exact hrest.imp fun walk hwalk => hwalk.trans hr
    | error e =>
      refine Keeps.ite (fun _ => Keeps.pure hr) fun _ => ?_
      exact Keeps.ite (fun _ => Keeps.pure hr) fun _ => Keeps.throw

theorem keeps_wopenFind (component : Component) (flags : UInt32) (parents : Nat) :
    Keeps (Works id lapse s₀) (wopenFind env component flags parents f) fun r =>
      match r with
      | .inl walk => walk.Beside f
      | .inr g => f.Beside g := by
  refine Keeps.ite (fun _ => Keeps.pure (File.Beside.refl hf)) fun _ => ?_
  refine (keeps_walkOne hf hid component).bind fun r hr => ?_
  obtain ⟨r, g⟩ := r
  cases r with
  | ok qid => exact Keeps.pure hr
  | error e =>
    refine Keeps.ite (fun _ => ?_) fun _ => ?_
    · exact Keeps.ite (fun _ => Keeps.pure hr) fun _ => Keeps.pure hr
    · exact Keeps.ite (fun _ => Keeps.pure hr) fun _ => Keeps.throw

end

theorem keeps_wopenCreate (component : Component) (flags mode : UInt32) {start : List Event} :
    Keeps (Logged f.root.identity lapse start none) (wopenCreate env component flags mode f)
      fun walk => walk.Beside f := by
  refine Keeps.ite (fun _ => ?_) fun _ => ?_
  · exact (keeps_mkDir hf component mode).bind fun _ _ => Keeps.pure (File.Beside.refl hf)
  · exact (keeps_create hf component _ mode).bind fun r hr => Keeps.pure hr

section

variable (hid : f.root.identity = id)
include hid

theorem keeps_wopenItem (component : Component) (flags mode : UInt32)
    (parents tries : Nat) :
    Keeps (Works id lapse s₀) (wopenItem env component flags mode parents tries f)
      fun walk => walk.Beside f := by
  induction tries generalizing f with
  | zero => exact Keeps.throw
  | succ tries ih =>
    refine (keeps_wopenFind hf hid component flags parents).bind fun r hr => ?_
    cases r with
    | inl walk => exact Keeps.pure hr
    | inr g =>
      have hr : f.Beside g := hr
      have hg : g.root.identity = id := by rw [hr.root, hid]
      have hcreate : Keeps (Works id lapse s₀) (sys (attempt (wopenCreate env component flags mode g)))
          fun r => ∀ walk, r = .ok walk → walk.Beside g := by
        subst hg
        exact keeps_sys (keeps_attempt (keeps_wopenCreate hr.confined component flags mode))
      refine hcreate.bind fun r hwalk => ?_
      cases r with
      | ok walk => exact Keeps.pure ((hwalk walk rfl).trans hr)
      | error e =>
        refine Keeps.ite (fun _ => ?_) fun _ => Keeps.throw
        exact (ih hr.confined hg).imp fun walk h => h.trans hr

theorem keeps_wopenWalk (flags mode : UInt32) (nameCount : Nat) :
    Keeps (Works id lapse s₀) (wopenWalk env flags mode nameCount f) fun walk => walk.Beside f := by
  cases nameCount with
  | zero => exact Keeps.pure (File.Beside.refl hf)
  | succ parents =>
    refine (keeps_wopenParents hf hid 0 parents).bind fun walk hwalk => ?_
    cases walk with
    | answer status walked g => exact Keeps.pure hwalk
    | found g _ _ _ =>
      have hg : f.Beside g := hwalk
      refine keeps_decode fun component => ?_
      have hgid : g.root.identity = id := by rw [hg.root, hid]
      exact (keeps_wopenItem hg.confined hgid component flags mode parents createRetryCount).imp
        fun walk h => h.trans hg

theorem keeps_wopenFinish (newFid flags : UInt32) (mask : UInt64)
    (nameCount : Nat) (qid : Qid) (existed needOpen : Bool) :
    Keeps (Works id lapse s₀) (wopenFinish env newFid flags mask nameCount f qid existed needOpen)
      fun _ => True := by
  have hopen : Keeps (Works id lapse s₀) (wopenFinish.openIfNeeded env flags f qid needOpen)
      fun g => f.Beside g := by
    refine Keeps.ite (fun _ => ?_) fun _ => Keeps.pure (File.Beside.refl hf)
    subst hid
    exact (keeps_sys (keeps_lopen hf _)).bind fun r hr => Keeps.pure hr
  refine hopen.bind fun g hg => ?_
  have hgid : g.root.identity = id := by rw [hg.root, hid]
  refine (keeps_writeWOpenReply hg.confined hgid _ nameCount mask).bind fun _ _ => ?_
  exact keeps_emplaceFid (.file g) hg.confined hgid

theorem keeps_wopenOpen (newFid flags wflags : UInt32) (mask : UInt64)
    (nameCount : Nat) (qid : Qid) (existed needOpen : Bool) :
    Keeps (Works id lapse s₀) (wopenOpen env newFid flags wflags mask nameCount f qid existed needOpen)
      fun _ => True := by
  refine Keeps.ite (fun _ => Keeps.throw) fun _ => ?_
  refine Keeps.ite (fun _ => Keeps.throw) fun _ => ?_
  have haccess : Keeps (Works id lapse s₀)
      (sys (f.access env.kernel File.AccessFlags.delete)) fun _ => True := by
    subst hid
    exact keeps_sys (keeps_access hf _)
  refine (Keeps.when haccess).bind fun _ _ => ?_
  refine Keeps.ite (fun _ => ?_) fun _ => keeps_wopenFinish hf hid newFid flags mask nameCount qid _ _
  refine Keeps.ite (fun _ => keeps_wopenFinish hf hid newFid flags mask nameCount qid _ _) fun _ => ?_
  exact keeps_writeWOpenReply hf hid _ nameCount mask

end

end File

theorem sound_wopen (hstart : Working id lapse s₀ s₀) (hfid : s₀.identityOr id (firstFid body) = id) :
    Sound id lapse s₀ body (handleWOpen env) := by
  refine Sound.session ?_
  by_cases hW : (!s₀.use9P2000W) = true
  · rw [if_pos hW]
    exact Sound.of_keeps hstart Keeps.throw
  · rw [if_neg hW]
    refine Sound.first_keeps hstart (keeps_decode fun newFid => ?_)
    refine keeps_decode fun flags => ?_
    refine keeps_decode fun wflags => ?_
    refine keeps_decode fun mode => ?_
    refine keeps_decode fun gid => ?_
    refine keeps_decode fun mask => ?_
    refine keeps_decode fun nameCount => ?_
    refine keeps_cloneFid hfid fun f hf hid => ?_
    refine (keeps_wopenWalk hf hid flags mode nameCount.toNat).bind fun walk hwalk => ?_
    cases walk with
    | answer status walked g =>
      have hg : f.Beside g := hwalk
      exact keeps_writeWOpenReply hg.confined (by rw [hg.root, hid]) status walked mask
    | found g qid existed needOpen =>
      have hg : f.Beside g := hwalk
      exact keeps_wopenOpen hg.confined (by rw [hg.root, hid]) newFid flags wflags mask _ qid existed needOpen

end WOpen

def shareIdentity (env : Environment W) (aname : List Byte) (uid : UInt32) : Option Identity :=
  match env.shares aname with
  | none => none
  | some _ =>
    if uid = env.serverUid then
      some ⟨invalidId, invalidId, []⟩
    else if env.serverUid = 0 then
      ((env.userGroupId uid).or env.nobodyGroupId).map fun gid =>
        ⟨uid, gid, if uid = invalidId then [] else env.groupList uid gid⟩
    else
      none

/-- The fields of a `Tattach` that count: the fid, the share and the user. -/
def attachFields : Decoder (UInt32 × Text × UInt32) := do
  let fid ← SpanReader.u32
  let _afid ← SpanReader.u32
  let _uname ← SpanReader.string
  let aname ← SpanReader.string
  let uid ← SpanReader.u32
  return (fid, aname, uid)

def attachIdentity (env : Environment W) (body : List Byte) : Option Identity :=
  match (exec attachFields body).1 with
  | .ok (_, aname, uid) => shareIdentity env aname.1 uid
  | .error _ => none

section Rest

variable {id : Identity} {lapse : Bool} {s₀ : Session W} {body : List Byte} {env : Environment W}

def attachTo (env : Environment W) (fid : UInt32) (aname : Text) (uid : UInt32) : Handler W Unit := do
  let root ← makeRoot env aname.1 uid
  let file ← sys (File.initializeFile env.kernel root)
  emplaceFid fid (.file file)
  ensureSize .attach 0
  reply (SpanWriter.qid file.qid)

theorem handleAttach_eq (env : Environment W) :
    handleAttach env = read attachFields >>= fun fields => attachTo env fields.1 fields.2.1 fields.2.2 := by
  simp only [handleAttach, attachFields, read_bind, bind_assoc]
  rfl

theorem keeps_newRoot (rootFd : Fd) (identity : Identity) :
    Keeps (Works id lapse s₀) (newRoot rootFd identity : Handler W Root) fun root =>
      root.identity = identity := by
  refine keeps_session.bind fun s _ => ?_
  refine Keeps.bind (keeps_modifySession (fun _ => rfl) (fun _ => rfl) fun _ h => h) fun _ _ => ?_
  exact Keeps.pure rfl

theorem keeps_makeRoot (aname : List Byte) (uid : UInt32) :
    Keeps (Works id lapse s₀) (makeRoot env aname uid) fun root =>
      shareIdentity env aname uid = some root.identity := by
  unfold makeRoot shareIdentity
  cases env.shares aname with
  | none => exact Keeps.throw
  | some rootFd =>
    refine Keeps.ite (fun huid => ?_) fun huid => Keeps.ite (fun hroot => ?_) fun _ => Keeps.throw
    · exact (keeps_newRoot rootFd _).imp fun root h => by rw [h, if_pos huid]
    · cases (env.userGroupId uid).or env.nobodyGroupId with
      | none => exact Keeps.throw
      | some gid =>
        refine (keeps_newRoot rootFd _).imp fun root h => ?_
        rw [h, if_neg huid, if_pos hroot]
        rfl

variable (hstart : Working id lapse s₀ s₀)
include hstart

theorem sound_attach (hid : attachIdentity env body = some id ∨ attachIdentity env body = none) :
    Sound id lapse s₀ body (handleAttach env) := by
  rw [handleAttach_eq]
  refine Sound.fields hstart fun fields hfield => Leads.of_keeps hstart ?_
  obtain ⟨fid, aname, uid⟩ := fields
  rw [attachIdentity, hfield] at hid
  change shareIdentity env aname.1 uid = some id ∨ shareIdentity env aname.1 uid = none at hid
  refine (keeps_makeRoot aname.1 uid).bind fun root hroot => ?_
  have hrootId : root.identity = id := by
    rcases hid with h | h
    · exact Option.some.inj (hroot.symm.trans h)
    · rw [hroot] at h
      cases h
  subst hrootId
  refine (keeps_sys (keeps_initializeFile root)).bind fun f hf => ?_
  refine (keeps_emplaceFid (.file f) hf.2 (by rw [Fid.identity, Fid.root, hf.1])).bind fun _ _ => ?_
  exact (keeps_ensureSize _ _).bind fun _ _ => keeps_reply _

theorem sound_version : Sound id lapse s₀ body (handleVersion : Handler W Unit) := by
  refine Sound.of_keeps hstart (keeps_session.bind fun s _ => ?_)
  refine Keeps.ite (fun _ => Keeps.throw) fun _ => ?_
  refine keeps_decode fun size => ?_
  refine keeps_decode fun version => ?_
  refine Keeps.ite (fun _ => Keeps.throw) fun _ => ?_
  refine Keeps.ite (fun _ => Keeps.throw) fun _ => ?_
  refine Keeps.ite (fun _ => Keeps.throw) fun _ => ?_
  have hsize : min size maximumRequestBufferSize ≤ maximumRequestBufferSize := by
    change (if size ≤ maximumRequestBufferSize then size else maximumRequestBufferSize) ≤ _
    split
    · assumption
    · exact UInt32.le_refl _
  refine Keeps.bind (keeps_modifySession (fun _ => rfl) (fun _ => rfl) fun _ _ => hsize) fun _ _ => ?_
  refine (keeps_ensureSize _ _).bind fun _ _ => ?_
  exact (keeps_reply _).bind fun _ _ => keeps_reply _

theorem sound_flush : Sound id lapse s₀ body (handleFlush : Handler W Unit) := by
  refine Sound.of_keeps hstart (keeps_decode fun oldTag => ?_)
  refine keeps_session.bind fun s _ => ?_
  split
  · exact keeps_modifySession (fun _ => rfl) (fun _ => rfl) fun _ h => h
  · have htag : Keeps (Works id lapse s₀) (requestTag : Handler W UInt16) fun _ => True :=
      fun _ hx => ⟨trivial, hx⟩
    refine htag.bind fun tag _ => ?_
    exact Keeps.ite (fun _ => Keeps.throw) fun _ => Keeps.pure trivial

theorem sound_clunk (hlapse : ∀ x, s₀.fids (firstFid body) = some (.xattr x) → x.access = .write →
    lapse = true) : Sound id lapse s₀ body (handleClunk env) := by
  have hmachine (m : Sys W Unit) (hm : Keeps (Logged id lapse s₀.machine.trace none) m fun _ => True) :
      Triple (fun x : Exchange W => x.session = s₀.setFid (firstFid body) none) (sys m)
        (fun _ x => Orderly id lapse s₀ x.session) fun _ x => Orderly id lapse s₀ x.session := by
    have hset (x : Exchange W) (m' : Machine W) (hx : x.session = s₀.setFid (firstFid body) none)
        (hm' : Logged id lapse s₀.machine.trace none m') :
        Orderly id lapse s₀ { x.session with machine := m' } := by
      rw [hx]
      refine ⟨hm', ?_, ?_, hstart.negotiated⟩ <;>
      · intro n item hn
        simp only [Session.setFid] at hn
        split at hn
        · cases hn
        · first | exact hstart.confined n item hn | exact hstart.identity n item hn
    refine Triple.zoom hm.mapError ?_ (fun x m' _ hx hm' => hset x m' hx hm'.2) fun x m' _ hx hm' => hset x m' hx hm'
    intro x hx
    change Logged id lapse s₀.machine.trace none x.session.machine
    rw [hx]
    exact hstart.machine
  refine Sound.first hstart (Leads.session ?_)
  cases hitem : s₀.fids (firstFid body) with
  | none => exact Leads.of_keeps hstart Keeps.throw
  | some item =>
    have herase : Triple (Begins s₀) (modifySession fun s => s.setFid (firstFid body) none)
        (fun _ x => x.session = s₀.setFid (firstFid body) none) fun _ x => Orderly id lapse s₀ x.session := by
      intro x hx
      have hx' : x.session = s₀ := hx
      change x.session.setFid (firstFid body) none = _
      rw [hx']
    refine Triple.bind herase fun _ => ?_
    cases item with
    | file f => exact hmachine (pure ()) (Keeps.pure trivial)
    | xattr x => exact hmachine _ (keeps_xattrClunk x (hlapse x hitem))

theorem sound_readDir (hfid : s₀.identityOr id (firstFid body) = id) (includeAttributes : Bool)
    (hlapse : includeAttributes = true → s₀.use9P2000W = true → ∀ f,
      s₀.fids (firstFid body) = some (.file f) → f.isOpen = true → lapse = true) :
    Sound id lapse s₀ body (handleReadDir env includeAttributes) := by
  refine Sound.session ?_
  by_cases hguard : (includeAttributes && !s₀.use9P2000W) = true
  · rw [if_pos hguard]
    exact Sound.of_keeps hstart Keeps.throw
  · rw [if_neg hguard]
    refine sound_readDirEntries hstart hfid includeAttributes fun hinc => hlapse hinc ?_
    rw [hinc] at hguard
    simpa using hguard

end Rest

/-- Whose request it is, if it is known whose the fids are: that of an attach is in its
body, any other belongs to the user of its first fid. -/
def requestUser (env : Environment W) (user : UInt32 → Option Identity) (type : Option MessageType)
    (body : List Byte) : Option Identity :=
  match type with
  | some .attach => attachIdentity env body
  | _ => user (firstFid body)

def requestIdentity (env : Environment W) (s : Session W) (type : Option MessageType) (body : List Byte) :
    Option Identity := requestUser env (fun fid => (s.fids fid).map Fid.identity) type body

/-- The requests that use a path outside the user context: `Tstatfs`, a `Twreaddir` of an
open file and the end of an attribute that was written. -/
def lapses (s : Session W) (type : Option MessageType) (body : List Byte) : Bool :=
  match type, s.fids (firstFid body) with
  | some .statfs, some (.file _) => true
  | some .wreaddir, some (.file f) => s.use9P2000W && f.isOpen
  | some .clunk, some (.xattr x) => x.access == .write
  | _, _ => false

variable {id : Identity} {lapse : Bool} {env : Environment W}

theorem sound_handleMessage {s₀ : Session W} {body : List Byte} (hstart : Working id lapse s₀ s₀)
    {type : Option MessageType}
    (hid : ∀ other, requestIdentity env s₀ type body = some other → other = id)
    (hlapse : lapses s₀ type body = true → lapse = true) : Sound id lapse s₀ body (handleMessage env type) := by
  have hfid (hne : type ≠ some .attach) : s₀.identityOr id (firstFid body) = id := by
    have hreq : requestIdentity env s₀ type body = (s₀.fids (firstFid body)).map Fid.identity := by
      unfold requestIdentity requestUser
      split
      · exact absurd rfl hne
      · rfl
    rw [hreq] at hid
    rw [Session.identityOr]
    cases hitem : (s₀.fids (firstFid body)).map Fid.identity with
    | none => rfl
    | some other => exact hid other hitem
  cases type with
  | none => exact Sound.of_keeps hstart Keeps.throw
  | some type =>
    cases type with
    | lerror => exact Sound.of_keeps hstart Keeps.throw
    | statfs =>
      refine sound_statFs hstart (hfid (by decide)) fun f hf => hlapse ?_
      simp only [lapses, hf]
    | lopen => exact sound_lopen hstart (hfid (by decide))
    | lcreate => exact sound_lcreate hstart (hfid (by decide))
    | symlink => exact sound_symLink hstart (hfid (by decide))
    | mknod => exact sound_mkNod hstart (hfid (by decide))
    | rename => exact sound_rename hstart (hfid (by decide))
    | readlink => exact sound_readLink hstart (hfid (by decide))
    | getattr => exact sound_getAttr hstart (hfid (by decide))
    | setattr => exact sound_setAttr hstart (hfid (by decide))
    | xattrwalk => exact sound_xattrWalk hstart (hfid (by decide))
    | xattrcreate => exact sound_xattrCreate hstart (hfid (by decide))
    | readdir => exact sound_readDir hstart (hfid (by decide)) false nofun
    | fsync => exact sound_fsync hstart (hfid (by decide))
    | lock => exact sound_lock hstart (hfid (by decide))
    | getlock => exact sound_getLock hstart (hfid (by decide))
    | link => exact sound_link hstart (hfid (by decide))
    | mkdir => exact sound_mkDir hstart (hfid (by decide))
    | renameat => exact sound_renameAt hstart (hfid (by decide))
    | unlinkat => exact sound_unlinkAt hstart (hfid (by decide))
    | version => exact sound_version hstart
    | auth => exact Sound.of_keeps hstart Keeps.throw
    | attach =>
      refine sound_attach hstart ?_
      cases hattach : attachIdentity env body with
      | none => exact .inr rfl
      | some other => exact .inl (by rw [hid other hattach])
    | flush => exact sound_flush hstart
    | walk => exact sound_walk hstart (hfid (by decide))
    | read => exact sound_read hstart (hfid (by decide))
    | write => exact sound_write hstart
    | clunk =>
      refine sound_clunk hstart fun x hx hwrite => hlapse ?_
      simp [lapses, hx, hwrite]
    | remove => exact sound_remove hstart (hfid (by decide))
    | access => exact sound_access hstart (hfid (by decide))
    | wreaddir =>
      refine sound_readDir hstart (hfid (by decide)) true fun _ hW f hf hopen => hlapse ?_
      simp [lapses, hf, hW, hopen]
    | wopen => exact sound_wopen hstart (hfid (by decide))

/-- A connection between two requests. -/
structure Session.Guarded (s : Session W) : Prop where
  context : s.machine.context = none
  confined : ∀ fid item, s.fids fid = some item → item.IsConfined
  negotiated : s.negotiatedSize ≤ maximumRequestBufferSize

variable {s : Session W}

theorem Session.Guarded.working (h : s.Guarded) (id : Identity) (lapse : Bool) :
    Working id lapse s s where
  machine := ⟨h.context, [], by simp, by simp⟩
  confined := h.confined
  identity fid item hitem := by
    rw [Session.identityOr, hitem]
    rfl
  negotiated := h.negotiated
  kept _ hnone := hnone

theorem Orderly.guarded {s₀ s : Session W} (h : Orderly id lapse s₀ s) :
    s.Guarded := ⟨h.machine.context, h.confined, h.negotiated⟩

theorem processMessage_orderly (h : s.Guarded) (start : MessageResponse) {message : List Byte}
    (hid : ∀ other, requestIdentity env s (messageType message) (messageBody message) = some other →
      other = id) (hlapse : lapses s (messageType message) (messageBody message) = true → lapse = true) :
    Orderly id lapse s (processMessage env start message s).2 := by
  have hstart := h.working id lapse
  by_cases hshort : message.length < headerSize
  · rw [processMessage_short hshort]
    exact hstart.toOrderly
  · rw [processMessage_eq (by omega)]
    exact sound_handleMessage hstart hid hlapse ⟨s, _, _, start⟩ rfl rfl

/-- A message with the buffer for its response and the other requests in progress. -/
structure Delivery where
  buffer : MessageResponse
  message : List Byte
  requests : List RequestInfo

def Delivery.ofSocket (message : List Byte) : Delivery :=
  ⟨.initial staticBufferSize true, message, []⟩

def deliver (env : Environment W) (d : Delivery) (s : Session W) : Session W :=
  (processMessage env d.buffer d.message { s with requests := d.requests }).2

theorem deliver_orderly (h : s.Guarded) {d : Delivery}
    (hid : ∀ other, requestIdentity env s (messageType d.message) (messageBody d.message) = some other →
      other = id) (hlapse : lapses s (messageType d.message) (messageBody d.message) = true → lapse = true) :
    Orderly id lapse s (deliver env d s) := by
  have h' : ({ s with requests := d.requests } : Session W).Guarded := ⟨h.context, h.confined, h.negotiated⟩
  obtain ⟨hm, hc, hi, hn⟩ := processMessage_orderly h' d.buffer hid hlapse
  exact ⟨hm, hc, hi, hn⟩

theorem exists_deliver_orderly (h : s.Guarded) (d : Delivery) : ∃ id, Orderly id true s (deliver env d s) := by
  refine ⟨(requestIdentity env s (messageType d.message) (messageBody d.message)).getD ⟨0, 0, []⟩,
    deliver_orderly h ?_ fun _ => rfl⟩
  intro other hother
  rw [hother]
  rfl

theorem deliver_guarded (h : s.Guarded) (d : Delivery) : (deliver env d s).Guarded := by
  obtain ⟨id, horderly⟩ := exists_deliver_orderly h d
  exact horderly.guarded

theorem guarded_initial (allowRenegotiate : Bool) (world : W) :
    (Session.initial allowRenegotiate world).Guarded := by
  have hsize : initialResponseBufferSize ≤ maximumRequestBufferSize := by decide
  exact ⟨rfl, fun _ _ h => (nomatch h), hsize⟩

end WslPlus.Plan9

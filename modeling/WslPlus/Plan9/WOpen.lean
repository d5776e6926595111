import WslPlus.Plan9.Answer
import WslPlus.Plan9.Requests

/-!
# What a new fid of `Twopen` stands for

A walk and a create move the file to the child that they are asked for. `MkDir` does not,
so after it the new fid still stands for the directory in which the child was made.
-/

namespace WslPlus.Plan9

open List Program

section Objects

variable {W : Type} {k : Kernel W} {w₀ : W}

inductive Kernel.Since (k : Kernel W) (w₀ : W) : W → Prop where
  | start : k.Since w₀ w₀
  | call {w : W} (h : k.Since w₀ w) (ctx : Option Identity) (c : Call) : k.Since w₀ (k.call ctx c w).2

/-- Since a state, the kernel has told the qid of the object at a path, by the path itself or by
a descriptor that was opened with it. -/
inductive Kernel.Reports (k : Kernel W) (w₀ : W) (root : Fd) (path : List Byte) (qid : Qid) : Prop where
  | looked (ctx : Option Identity) (w : W) (st : Stat) (hsince : k.Since w₀ w)
      (hstat : (k.call ctx (.fstatat (.root root) (.name path) [.symlinkNofollow, .emptyPath]) w).1 = .ok st)
      (hqid : statToQid st = qid)
  | opened (ctx : Option Identity) (w : W) (flags : List LinuxFlag) (mode : UInt32) (fd : Fd) (st : Stat)
      (hsince : k.Since w₀ w)
      (hopen : (k.call ctx (.openat (.root root) (.name path) flags mode) w).1 = .ok fd)
      (hstat : (k.call ctx (.fstat fd) (k.call ctx (.openat (.root root) (.name path) flags mode) w).2).1 = .ok st)
      (hqid : statToQid st = qid)

def File.pathTo (f : File) (names : List Component) : List Byte :=
  names.foldl (fun p c => appendPath p c.1) f.fileName

/-- A file is the one that the names lead to from another, and its qid is that of the object there. -/
structure File.Leads (k : Kernel W) (w₀ : W) (f : File) (names : List Component) (g : File) : Prop where
  path : g.fileName = f.pathTo names
  root : g.root = f.root
  object : names = [] ∧ g.qid = f.qid ∨ k.Reports w₀ f.root.rootFd g.fileName g.qid

theorem File.Leads.refl (f : File) : f.Leads k w₀ [] f := ⟨rfl, rfl, .inl ⟨rfl, rfl⟩⟩

theorem File.Leads.cons {f g h : File} {c : Component} {cs : List Component} (hg : f.Leads k w₀ [c] g)
    (hh : g.Leads k w₀ cs h) : f.Leads k w₀ (c :: cs) h := by
  refine ⟨?_, hh.root.trans hg.root, .inr ?_⟩
  · rw [hh.path, File.pathTo, hg.path]
    rfl
  · rcases hh.object with ⟨rfl, hqid⟩ | hreports
    · have hpath : h.fileName = g.fileName := hh.path
      rcases hg.object with ⟨hnil, -⟩ | hreports
      · cases hnil
      · rw [hpath, hqid]
        exact hreports
    · rw [← hg.root]
      exact hreports

theorem File.Leads.snoc {f g h : File} {c : Component} {cs : List Component} (hg : f.Leads k w₀ cs g)
    (hh : g.Leads k w₀ [c] h) : f.Leads k w₀ (cs ++ [c]) h := by
  refine ⟨?_, hh.root.trans hg.root, .inr ?_⟩
  · rw [hh.path, File.pathTo, File.pathTo, hg.path, foldl_append, File.pathTo]
  · rcases hh.object with ⟨hnil, -⟩ | hreports
    · cases hnil
    · rw [← hg.root]
      exact hreports

theorem Confined.pathTo {f : File} (h : Confined f.fileName) (names : List Component) :
    Confined (f.pathTo names) := by
  rw [File.pathTo]
  generalize f.fileName = p at h
  induction names generalizing p with
  | nil => exact h
  | cons c cs ih => exact ih _ (h.appendPath c)

theorem cutAtLastSlash_appendPath {p : List Byte} (h : Confined p) (c : Component) :
    cutAtLastSlash (appendPath p c.1) = p := by
  obtain ⟨cs, hcs, rfl⟩ := h
  rw [appendPath, Segments.append_joined isComponent_spec hcs, cutAtLastSlash,
    Segments.cutAtLast_concat isComponent_spec cs c.2]

theorem appendPath_ne_nil {p : List Byte} (h : Confined p) (c : Component) : appendPath p c.1 ≠ [] := by
  intro hnil
  obtain ⟨cs, hcs, rfl⟩ := h
  rw [appendPath, Segments.append_joined isComponent_spec hcs] at hnil
  refine (Segments.getLast_joined isComponent_spec ?_ ?_).1 hnil
  · intro d hd
    rcases mem_append.mp hd with hd | hd
    · exact hcs d hd
    · rw [mem_singleton.mp hd]
      exact c.2
  · simp

end Objects

section Since

variable {W : Type} {k : Kernel W} {w₀ : W} {α : Type} {m : Sys W α} {A : α → Prop}

def Kernel.Follows (k : Kernel W) (w₀ : W) (m : Machine W) : Prop := k.Since w₀ m.world

theorem follows_syscall {c : Call} {A : c.Answer → Prop}
    (h : ∀ ctx w a, k.Since w₀ w → (k.call ctx c w).1 = .ok a → A a) :
    Keeps (k.Follows w₀) (syscall k c) A := by
  intro m hm
  have hnext : k.Since w₀ (k.call m.context c m.world).2 := hm.call m.context c
  simp only [syscall, exec_ofFunction]
  cases hr : (k.call m.context c m.world).1 with
  | ok a => exact ⟨h _ _ a hm hr, hnext⟩
  | error e => exact hnext

theorem follows_call (c : Call) : Keeps (k.Follows w₀) (syscall k c) fun _ => True :=
  follows_syscall fun _ _ _ _ _ => trivial

theorem follows_withUserContext {id : Identity} (h : Keeps (k.Follows w₀) m A) :
    Keeps (k.Follows w₀) (withUserContext k id m) A := by
  refine (keeps_orThrow (follows_call (.setUser id))).bind fun _ _ => ?_
  exact keeps_inContext h (fun _ hs => hs) fun _ _ _ ht => ht

theorem follows_checkMount (parentDevice device : UInt64) :
    Keeps (k.Follows w₀) (File.checkMount k parentDevice device) fun _ => True := by
  refine Keeps.ite (fun _ => ?_) fun _ => Keeps.pure trivial
  refine (keeps_attempt (follows_call _)).bind fun r _ => ?_
  split
  · exact Keeps.throw
  · exact Keeps.throw
  · exact Keeps.throw
  · exact Keeps.pure trivial

theorem follows_look (root : Fd) (path : List Byte) :
    Keeps (k.Follows w₀) (syscall k (.fstatat (.root root) (.name path) [.symlinkNofollow, .emptyPath]))
      fun st : Stat => k.Reports w₀ root path (statToQid st) :=
  follows_syscall fun ctx w st hw hst => .looked ctx w st hw hst rfl

theorem follows_walk {f : File} (hf : Confined f.fileName) (c : Component) :
    Keeps (k.Follows w₀) (f.walk k c) fun r =>
      match r.1 with
      | .ok qid => f.Leads k w₀ [c] r.2 ∧ r.2.qid = qid
      | .error _ => r.2 = f := by
  unfold File.walk
  split
  · exact Keeps.pure rfl
  · have hbody : Keeps (k.Follows w₀) (do
          let found ← { f with fileName := appendPath f.fileName c.1 }.validateExists k
          File.checkMount k f.device found.device
          return found) fun g => f.Leads k w₀ [c] g := by
      have hexists : Keeps (k.Follows w₀) ({ f with fileName := appendPath f.fileName c.1 }.validateExists k)
          fun g => f.Leads k w₀ [c] g :=
        (follows_look f.root.rootFd _).bind fun st hst => Keeps.pure ⟨rfl, rfl, .inr hst⟩
      refine hexists.bind fun g hg => ?_
      exact (follows_checkMount _ _).bind fun _ _ => Keeps.pure hg
    refine (keeps_attempt (follows_withUserContext hbody)).bind fun r hr => ?_
    cases r with
    | ok g => exact Keeps.pure ⟨hr g rfl, rfl⟩
    | error e =>
      refine Keeps.pure ?_
      simp only [File.restoreName, cutAtLastSlash_appendPath hf]

theorem triple_syscall {P : Machine W → Prop} (c : Call) :
    Triple P (syscall k c)
      (fun a m => ∃ m₀, P m₀ ∧ (k.call m₀.context c m₀.world).1 = .ok a ∧ m = m₀.called k c)
      fun _ m => ∃ m₀, P m₀ ∧ m = m₀.called k c := by
  intro m hm
  simp only [syscall, exec_ofFunction]
  cases hr : (k.call m.context c m.world).1 with
  | ok a => exact ⟨m, hm, hr, rfl⟩
  | error e => exact ⟨m, hm, rfl⟩

theorem Kernel.Follows.called {m : Machine W} (h : k.Follows w₀ m) (c : Call) :
    k.Follows w₀ (m.called k c) := Kernel.Since.call h m.context c

theorem follows_create {f : File} (hf : Confined f.fileName) (c : Component) (flags mode : UInt32) :
    Keeps (k.Follows w₀) (f.create k c flags mode) fun r => f.Leads k w₀ [c] r.2 ∧ r.2.qid = r.1 := by
  unfold File.create
  split
  · exact Keeps.throw
  · refine follows_withUserContext ?_
    have hopenAt (flags : List LinuxFlag) : openAt k f.root.rootFd (f.childPath c) flags mode =
        syscall k (.openat (.root f.root.rootFd) (.name (f.childPath c)) (flags ++ [LinuxFlag.cloexec]) mode) :=
      if_neg (appendPath_ne_nil hf c)
    refine Triple.bind (Q := fun fd m => ∃ m₀ : Machine W, ∃ flags, k.Follows w₀ m₀ ∧
      (k.call m₀.context (.openat (.root f.root.rootFd) (.name (f.childPath c)) flags mode) m₀.world).1 =
        .ok fd ∧ m = m₀.called k (.openat (.root f.root.rootFd) (.name (f.childPath c)) flags mode)) ?_ ?_
    · rw [hopenAt]
      refine Triple.imp (triple_syscall _) (fun _ hm => hm) ?_ ?_
      · rintro fd m ⟨m₀, hm₀, hopen, rfl⟩
        exact ⟨m₀, _, hm₀, hopen, rfl⟩
      · rintro e m ⟨m₀, hm₀, rfl⟩
        exact hm₀.called _
    · intro fd
      refine Triple.bind (triple_syscall _) ?_ |>.imp (fun _ hm => hm) (fun _ _ hm => hm) ?_
      · intro st
        refine Triple.pure ?_
        rintro m ⟨m₁, ⟨m₀, flags, hm₀, hopen, rfl⟩, hstat, rfl⟩
        refine ⟨⟨⟨rfl, rfl, .inr ?_⟩, rfl⟩, (hm₀.called _).called _⟩
        exact .opened _ _ flags mode fd st hm₀ hopen hstat rfl
      · rintro e m ⟨m₁, ⟨m₀, flags, hm₀, hopen, rfl⟩, rfl⟩
        exact (hm₀.called _).called _

theorem follows_mkDir (f : File) (c : Component) (mode : UInt32) :
    Keeps (k.Follows w₀) (f.mkDir k c mode) fun _ => True := by
  refine follows_withUserContext ((follows_call _).bind fun _ _ => ?_)
  exact (follows_call _).bind fun _ _ => Keeps.pure trivial

end Since

section Walk

variable {W : Type} {env : Environment W} {s : Session W} {r : MessageResponse} {b : List Byte}

def WOpenStatus.usesFid : WOpenStatus → Bool
  | .opened => true
  | .created => true
  | .parentNotFound => false
  | .notFound => false
  | .stopped => false

def makesDirectory (flags : UInt32) :
    Bool := hasFlag flags OpenFlags.create && hasFlag flags OpenFlags.directory

/-- The fids and the response are as they were, and `b` is left of the body. -/
structure Still (env : Environment W) (s : Session W) (r : MessageResponse) (b : List Byte) (x : Exchange W) :
    Prop where
  fids : x.session.fids = s.fids
  response : x.response = r
  reader : x.reader = b
  follows : env.kernel.Follows s.machine.world x.session.machine

def KeptFids (s : Session W) (_ : Stop) (x : Exchange W) : Prop := x.session.fids = s.fids

variable {α : Type}

theorem still_read (d : Decoder α) :
    Triple (Still env s r b) (read d)
      (fun a x => (exec d b).1 = .ok a ∧ Still env s r (exec d b).2 x) (KeptFids s) := by
  intro x hx
  rw [read, exec_zoom]
  have hread : readerPart.get x = b := hx.reader
  rw [hread]
  rcases hr : exec d b with ⟨result, b'⟩
  cases result with
  | ok a => exact ⟨rfl, hx.fids, hx.response, rfl, hx.follows⟩
  | error e => exact hx.fids

theorem still_sys {m : Sys W α} {A : α → Prop} (h : Keeps (env.kernel.Follows s.machine.world) m A) :
    Triple (Still env s r b) (sys m) (fun a x => A a ∧ Still env s r b x) (KeptFids s) := by
  have hmap : Triple (env.kernel.Follows s.machine.world) (mapError Failure.toStop m)
      (fun a m' => A a ∧ env.kernel.Follows s.machine.world m') fun _ _ => True :=
    Triple.mapError h fun _ _ _ => trivial
  refine Triple.zoom hmap ?_ ?_ ?_
  · intro x hx
    exact hx.follows
  · rintro x m' a hx ⟨ha, hm'⟩
    exact ⟨ha, hx.fids, hx.response, hx.reader, hm'⟩
  · intro x m' e hx _
    exact hx.fids

theorem still_throw {Q : α → Exchange W → Prop} (e : Stop) :
    Triple (Still env s r b) (throw e : Handler W α) Q (KeptFids s) := Triple.throw fun _ hx => hx.fids

theorem still_ite {c : Prop} [Decidable c] {P : Exchange W → Prop} {m m' : Handler W α}
    {Q : α → Exchange W → Prop} {E : Stop → Exchange W → Prop} (hm : c → Triple P m Q E)
    (hn : ¬c → Triple P m' Q E) : Triple P (if c then m else m') Q E := by
  by_cases hc : c
  · rw [if_pos hc]
    exact hm hc
  · rw [if_neg hc]
    exact hn hc

variable {n : Nat} {cs : List Component}

theorem exec_names_cons {c : Component} {b₁ b₂ : List Byte}
    (hname : exec SpanReader.name b = (.ok c, b₁)) (hnames : exec (SpanReader.names n) b₁ = (.ok cs, b₂)) :
    exec (SpanReader.names (n + 1)) b = (.ok (c :: cs), b₂) := by
  rw [SpanReader.names, exec_bind, hname, andThen, exec_bind, hnames]
  rfl

theorem exec_names_succ {b₂ : List Byte} (h : exec (SpanReader.names (n + 1)) b = (.ok cs, b₂)) :
    ∃ c cs' b₁, cs = c :: cs' ∧ exec SpanReader.name b = (.ok c, b₁) ∧
      exec (SpanReader.names n) b₁ = (.ok cs', b₂) := by
  rw [SpanReader.names, exec_bind] at h
  rcases hfirst : exec SpanReader.name b with ⟨first, b₁⟩
  rw [hfirst] at h
  cases first with
  | error e => cases h
  | ok c =>
    rw [andThen, exec_bind] at h
    rcases hrest : exec (SpanReader.names n) b₁ with ⟨rest, b'⟩
    rw [hrest] at h
    cases rest with
    | error e => cases h
    | ok cs' =>
      cases h
      exact ⟨c, cs', b₁, rfl, rfl, hrest⟩

theorem exec_names_snoc {c : Component} {b₁ b₂ : List Byte}
    (hnames : exec (SpanReader.names n) b = (.ok cs, b₁)) (hname : exec SpanReader.name b₁ = (.ok c, b₂)) :
    exec (SpanReader.names (n + 1)) b = (.ok (cs ++ [c]), b₂) := by
  induction n generalizing b cs with
  | zero =>
    cases hnames
    exact exec_names_cons hname rfl
  | succ n ih =>
    obtain ⟨d, ds, b', rfl, hfirst, hrest⟩ := exec_names_succ hnames
    exact exec_names_cons hfirst (ih hrest)

theorem exec_names_last {b₂ : List Byte} (h : exec (SpanReader.names (n + 1)) b = (.ok cs, b₂)) :
    ∃ cs' c b₁, cs = cs' ++ [c] ∧ exec (SpanReader.names n) b = (.ok cs', b₁) ∧
      exec SpanReader.name b₁ = (.ok c, b₂) := by
  induction n generalizing b cs with
  | zero =>
    obtain ⟨c, cs', b₁, rfl, hfirst, hrest⟩ := exec_names_succ h
    cases hrest
    exact ⟨[], c, b, rfl, rfl, hfirst⟩
  | succ n ih =>
    obtain ⟨d, ds, b', rfl, hfirst, hrest⟩ := exec_names_succ h
    obtain ⟨cs', c, b₁, rfl, hnames, hname⟩ := ih hrest
    exact ⟨d :: cs', c, b₁, rfl, exec_names_cons hfirst hnames, hname⟩

variable {f : File}

section

variable (hf : Confined f.fileName)
include hf

theorem still_wopenParents (walked n : Nat) :
    Triple (Still env s r b) (wopenParents env walked n f) (fun walk x =>
        match walk with
        | .answer status _ _ => status.usesFid = false ∧ ∃ b', Still env s r b' x
        | .found g _ _ _ => ∃ cs b', exec (SpanReader.names n) b = (.ok cs, b') ∧
            f.Leads env.kernel s.machine.world cs g ∧ Still env s r b' x) (KeptFids s) := by
  induction n generalizing walked f b with
  | zero =>
    refine Triple.pure ?_
    intro x hx
    exact ⟨[], b, rfl, File.Leads.refl f, hx⟩
  | succ n ih =>
    refine Triple.bind (still_read _) fun c => Triple.of_fact fun hc => ?_
    have hname : exec SpanReader.name b = (.ok c, (exec SpanReader.name b).2) := by rw [← hc]
    refine Triple.bind (still_sys (follows_walk hf c)) fun result => Triple.of_fact fun hres => ?_
    obtain ⟨result, g⟩ := result
    cases result with
    | ok qid =>
      obtain ⟨hleads, -⟩ := hres
      have hg : Confined g.fileName := by
        rw [hleads.path]
        exact hf.pathTo [c]
      refine Triple.imp (ih hg (walked + 1)) (fun _ hx => hx) ?_ fun _ _ hx => hx
      intro walk x hwalk
      cases walk with
      | answer status k g => exact hwalk
      | found g' qid' existed needOpen =>
        obtain ⟨cs, b', hnames, hleads', hx⟩ := hwalk
        exact ⟨c :: cs, b', exec_names_cons hname hnames, hleads.cons hleads', hx⟩
    | error e =>
      refine still_ite (fun _ => ?_) fun _ => still_ite (fun _ => ?_) fun _ => still_throw _
      · exact Triple.pure fun x hx => ⟨rfl, _, hx⟩
      · exact Triple.pure fun x hx => ⟨rfl, _, hx⟩

theorem still_wopenFind (c : Component) (flags : UInt32) (parents : Nat) :
    Triple (Still env s r b) (wopenFind env c flags parents f) (fun walk x => Still env s r b x ∧
        match walk with
        | .inl (.answer status _ _) => status.usesFid = false
        | .inl (.found g qid _ _) => f.Leads env.kernel s.machine.world [c] g ∧ g.qid = qid
        | .inr g => g = f ∧ hasFlag flags OpenFlags.create = true) (KeptFids s) := by
  refine still_ite (fun hflags => ?_) fun _ => ?_
  · refine Triple.pure fun x hx => ⟨hx, rfl, ?_⟩
    simp only [hasFlag, beq_iff_eq] at hflags ⊢
    have hand : flags &&& OpenFlags.create =
        flags &&& (OpenFlags.create ||| OpenFlags.exclusive) &&& OpenFlags.create := by
      rw [UInt32.and_assoc]
      rfl
    rw [hand, hflags]
    rfl
  · refine Triple.bind (still_sys (follows_walk hf c)) fun result => Triple.of_fact fun hres => ?_
    obtain ⟨result, g⟩ := result
    cases result with
    | ok qid => exact Triple.pure fun x hx => ⟨hx, hres⟩
    | error e =>
      refine still_ite (fun _ => still_ite (fun hcreate => ?_) fun _ => ?_) fun _ =>
        still_ite (fun _ => ?_) fun _ => still_throw _
      · exact Triple.pure fun x hx => ⟨hx, hres, hcreate⟩
      · exact Triple.pure fun x hx => ⟨hx, rfl⟩
      · exact Triple.pure fun x hx => ⟨hx, rfl⟩

theorem follows_wopenCreate (c : Component) (flags mode : UInt32) :
    Keeps (env.kernel.Follows s.machine.world) (wopenCreate env c flags mode f) fun walk =>
      match walk with
      | .answer _ _ _ => False
      | .found g qid _ _ => f.Leads env.kernel s.machine.world [c] g ∧ g.qid = qid ∨
          hasFlag flags OpenFlags.directory = true := by
  refine Keeps.ite (fun hdir => ?_) fun _ => ?_
  · exact (follows_mkDir f c mode).bind fun qid _ => Keeps.pure (.inr hdir)
  · exact (follows_create hf c _ mode).bind fun result hres => Keeps.pure (.inl hres)

theorem still_wopenItem (c : Component) (flags mode : UInt32) (parents tries : Nat) :
    Triple (Still env s r b) (wopenItem env c flags mode parents tries f) (fun walk x => Still env s r b x ∧
        match walk with
        | .answer status _ _ => status.usesFid = false
        | .found g qid _ _ => f.Leads env.kernel s.machine.world [c] g ∧ g.qid = qid ∨
            makesDirectory flags = true) (KeptFids s) := by
  induction tries with
  | zero => exact still_throw _
  | succ tries ih =>
    refine Triple.bind (still_wopenFind hf c flags parents) fun walk => ?_
    rcases walk with walk | g
    · refine Triple.pure fun x hx => ⟨hx.1, ?_⟩
      cases walk with
      | answer status walked g => exact hx.2
      | found g qid existed needOpen => exact .inl hx.2
    · refine Triple.imp ?_ (fun x hx => And.intro hx.2 hx.1) (fun _ _ hx => hx) fun _ _ hx => hx
      refine Triple.of_fact fun hfile => ?_
      obtain ⟨rfl, hcreate⟩ := hfile
      refine Triple.bind (still_sys (keeps_attempt (follows_wopenCreate hf c flags mode))) fun result =>
        Triple.of_fact fun hres => ?_
      cases result with
      | ok walk =>
        refine Triple.pure fun x hx => ⟨hx, ?_⟩
        have hwalk := hres walk rfl
        cases walk with
        | answer status walked g => exact hwalk.elim
        | found g' qid existed needOpen =>
          refine hwalk.imp_right fun hdir => ?_
          rw [makesDirectory, hcreate, hdir]
          rfl
      | error e => exact still_ite (fun _ => ih) fun _ => still_throw _

end

end Walk

section Reply

variable {W : Type} {env : Environment W} {s : Session W} {α : Type}

/-- Two files with the same path and the same object. -/
structure File.Same (f g : File) : Prop where
  path : g.fileName = f.fileName
  root : g.root = f.root
  qid : g.qid = f.qid

/-- The fids are as they were, and the response starts with `p`. -/
def Wrote (s : Session W) (p : List Byte) (x : Exchange W) : Prop :=
  x.session.fids = s.fids ∧ ∃ rest, x.response.payload = p ++ rest

/-- The fids are as they were, and the response is `p` so far. -/
def Written (s : Session W) (p : List Byte) (x : Exchange W) : Prop :=
  x.session.fids = s.fids ∧ x.response.payload = p

theorem written_write (p bytes : List Byte) :
    Triple (Written s p) (reply (SpanWriter.write bytes)) (fun _ => Written s (p ++ bytes)) (KeptFids s) := by
  rintro x ⟨hfids, hpay⟩
  rw [exec_reply_write]
  split
  · exact hfids
  · refine ⟨hfids, ?_⟩
    simp only [hpay]

theorem written_ensureSize (message : MessageType) (extraSize : Nat) :
    Triple (Written s []) (ensureSize message extraSize) (fun _ => Written s []) (KeptFids s) := by
  rintro x ⟨hfids, hpay⟩
  rw [exec_ensureSize rfl hpay]
  split
  · exact ⟨hfids, hpay⟩
  · exact hfids

theorem written_sys {p : List Byte} {m : Sys W α} {A : α → Prop} (h : Keeps (fun _ => True) m A) :
    Triple (Written s p) (sys m) (fun a x => A a ∧ Written s p x) (KeptFids s) := by
  have hmap : Triple (fun _ => True) (mapError Failure.toStop m) (fun a _ => A a ∧ True) fun _ _ => True :=
    Triple.mapError h fun _ _ _ => trivial
  refine Triple.zoom hmap (fun _ _ => trivial) ?_ ?_
  · intro x m' a hx ha
    exact ⟨ha.1, hx⟩
  · intro x m' e hx _
    exact hx.1

variable {p : List Byte}

theorem wrote_write (bytes : List Byte) : Keeps (Wrote s p) (reply (SpanWriter.write bytes)) fun _ => True := by
  rintro x ⟨hfids, rest, hpay⟩
  rw [exec_reply_write]
  split
  · exact ⟨hfids, rest, hpay⟩
  · refine ⟨trivial, hfids, rest ++ bytes, ?_⟩
    simp only [hpay, append_assoc]

theorem wrote_sys (m : Sys W α) : Keeps (Wrote s p) (sys m) fun _ => True :=
  Keeps.zoom (Keeps.mapError (Keeps.nothing m)) (fun _ _ => trivial) fun _ _ hx _ => hx

theorem wrote_writeTarget (f : File) (qid : Qid) :
    Keeps (Wrote s p) (writeWOpenReply.writeTarget env f qid) fun _ => True := by
  refine Keeps.ite (fun _ => ?_) fun _ => wrote_write _
  have hspace : Keeps (Wrote s p) stringSpace fun _ => True := by
    intro x hx
    rw [stringSpace, exec_ofFunction]
    split
    · exact hx
    · exact ⟨trivial, hx⟩
  refine hspace.bind fun space _ => (wrote_sys _).bind fun target _ => ?_
  cases target with
  | ok target => exact (wrote_write _).bind fun _ _ => wrote_write _
  | error e => exact wrote_write _

/-- The part of a reply to `Twopen` up to the qid. -/
def wopenHead (status : WOpenStatus) (walked : Nat) (qid : Qid) : List Byte :=
  [status.code] ++ leBytes 2 (UInt16.ofNat walked).toNat ++ SpanWriter.qidBytes qid

theorem written_writeWOpenReply (status : WOpenStatus) (walked : Nat) (f : File) (mask : UInt64) :
    Triple (Written s []) (writeWOpenReply env status walked f mask)
      (fun _ => Wrote s (wopenHead status walked f.qid)) (KeptFids s) := by
  have hattr : Keeps (fun _ => True) (f.getAttr env.kernel mask) fun result => result.2.1 = f.qid :=
    yields_withUserContext ((Keeps.nothing _).bind fun _ _ => Keeps.pure rfl)
  refine Triple.bind (written_sys hattr) fun result => Triple.of_fact fun hqid => ?_
  obtain ⟨valid, qid, stat⟩ := result
  obtain rfl : qid = f.qid := hqid
  dsimp only
  rw [SpanWriter.statResult]
  generalize SpanWriter.statResultBytes stat = bytes
  refine Triple.bind (written_ensureSize _ _) fun _ => ?_
  refine Triple.bind (written_write _ _) fun _ => Triple.bind (written_write _ _) fun _ => ?_
  refine Triple.bind (written_write _ _) fun _ => ?_
  have hrest : Keeps (Wrote s (wopenHead status walked f.qid)) (do
      writeWOpenReply.writeTarget env f f.qid
      reply (SpanWriter.u32 ioUnit)
      reply (SpanWriter.write bytes)
      writeReserved) fun _ => True := by
    refine (wrote_writeTarget f f.qid).bind fun _ _ => (wrote_write _).bind fun _ _ => ?_
    refine (wrote_write _).bind fun _ _ => (wrote_write _).bind fun _ _ => ?_
    exact (wrote_write _).bind fun _ _ => (wrote_write _).bind fun _ _ => wrote_write _
  refine Triple.imp hrest ?_ (fun _ _ hx => hx.2) fun _ _ hx => hx.1
  rintro x ⟨hfids, hpay⟩
  refine ⟨hfids, [], ?_⟩
  rw [hpay, append_nil, wopenHead]
  cases status <;> rfl

def Opens (s : Session W) (newFid : UInt32) (f : File) (x : Exchange W) : Prop :=
  s.fids newFid = none ∧ ∃ g, f.Same g ∧ x.session.fids = (s.setFid newFid (some (.file g))).fids ∧
    ∃ status walked rest, WOpenStatus.usesFid status = true ∧
      x.response.payload = wopenHead status walked g.qid ++ rest

def LeavesFids (s : Session W) (x : Exchange W) : Prop :=
  ∃ status walked qid, WOpenStatus.usesFid status = false ∧ Wrote s (wopenHead status walked qid) x

theorem leavesFids_writeWOpenReply {status : WOpenStatus} (hstat : status.usesFid = false) (walked : Nat)
    (f : File) (mask : UInt64) :
    Triple (Written s []) (writeWOpenReply env status walked f mask) (fun _ => LeavesFids s) (KeptFids s) :=
  (written_writeWOpenReply status walked f mask).imp (fun _ hx => hx)
    (fun _ _ hx => ⟨status, walked, f.qid, hstat, hx⟩) fun _ _ hx => hx

theorem opens_wopenFinish (newFid flags : UInt32) (mask : UInt64) (nameCount : Nat) (f : File) (qid : Qid)
    (existed needOpen : Bool) :
    Triple (Written s []) (wopenFinish env newFid flags mask nameCount f qid existed needOpen)
      (fun _ => Opens s newFid f) (KeptFids s) := by
  have hopen : Triple (Written s []) (wopenFinish.openIfNeeded env flags f qid needOpen)
      (fun g x => f.Same g ∧ Written s [] x) (KeptFids s) := by
    refine still_ite (fun _ => ?_) fun _ => Triple.pure fun x hx => ⟨⟨rfl, rfl, rfl⟩, hx⟩
    have hlopen : Keeps (fun _ => True) (f.lopen env.kernel (wopenFlags flags qid)) fun result =>
        f.Same result.2 := by
      refine Keeps.ite (fun _ => Keeps.throw) fun _ => ?_
      exact (Keeps.nothing _).bind fun _ _ => Keeps.pure ⟨rfl, rfl, rfl⟩
    exact Triple.bind (written_sys hlopen) fun result => Triple.pure fun x hx => hx
  refine Triple.bind hopen fun g => Triple.of_fact fun hsame => ?_
  refine Triple.bind (written_writeWOpenReply _ nameCount g mask) fun _ => ?_
  rintro x ⟨hfids, rest, hpay⟩
  rw [emplaceFid, exec_bind]
  simp only [session, exec_ofFunction, andThen]
  cases hnone : x.session.fids newFid with
  | some item => exact hfids
  | none =>
    rw [hfids] at hnone
    refine ⟨hnone, g, hsame, ?_, _, nameCount, rest, ?_, hpay⟩
    · simp only [Session.setFid, hfids]
    · cases existed <;> rfl

/-- The file is opened unless it has the wrong type. A request for a directory that is none
fails either way. -/
theorem opens_wopenOpen (newFid flags wflags : UInt32) (mask : UInt64) (nameCount : Nat) (f : File) (qid : Qid)
    (existed needOpen : Bool) :
    Triple (Written s []) (wopenOpen env newFid flags wflags mask nameCount f qid existed needOpen)
      (fun _ x => LeavesFids s x ∨ Opens s newFid f x ∧
        ¬(hasFlag wflags WOpenFlags.nonDirectoryFile = true ∧ hasFlag flags OpenFlags.directory = true))
      (KeptFids s) := by
  have hthrow {Q : Unit → Exchange W → Prop} (e : Stop) :
      Triple (Written s []) (throw e : Handler W Unit) Q (KeptFids s) := Triple.throw fun _ hx => hx.1
  refine still_ite (fun _ => hthrow _) fun hnonDirectory => ?_
  refine still_ite (fun _ => hthrow _) fun hdir => ?_
  have hboth : ¬(hasFlag wflags WOpenFlags.nonDirectoryFile = true ∧
      hasFlag flags OpenFlags.directory = true) := by
    rintro ⟨hn, hd⟩
    rw [hn] at hnonDirectory
    rw [hd] at hdir
    by_cases htype : qid.type = .directory
    · simp [htype] at hnonDirectory
    · simp [htype] at hdir
  have hfinish (needOpen : Bool) : Triple (Written s [])
      (wopenFinish env newFid flags mask nameCount f qid existed needOpen)
      (fun _ x => LeavesFids s x ∨ Opens s newFid f x ∧
        ¬(hasFlag wflags WOpenFlags.nonDirectoryFile = true ∧ hasFlag flags OpenFlags.directory = true))
      (KeptFids s) :=
    (opens_wopenFinish newFid flags mask nameCount f qid existed needOpen).imp (fun _ hx => hx)
      (fun _ _ hx => .inr ⟨hx, hboth⟩) fun _ _ hx => hx
  refine Triple.bind (Q := fun _ => Written s []) ?_ fun _ => ?_
  · refine Triple.when (fun _ => ?_) fun _ hx => hx
    exact (written_sys (Keeps.nothing _)).imp (fun _ hx => hx) (fun _ _ hx => hx.2) fun _ _ hx => hx
  · refine still_ite (fun _ => still_ite (fun _ => hfinish false) fun _ => ?_) fun _ => hfinish needOpen
    exact (leavesFids_writeWOpenReply rfl _ _ _).imp (fun _ hx => hx) (fun _ _ hx => .inl hx) fun _ _ hx => hx

end Reply

/-- The fields of a `Twopen` before its names. -/
structure TWopen where
  fid : UInt32
  newFid : UInt32
  flags : UInt32
  wflags : UInt32
  nameCount : UInt16

def TWopen.ofBody (b : List Byte) : TWopen where
  fid := UInt32.ofNat (leValue (b.take 4))
  newFid := UInt32.ofNat (leValue ((b.drop 4).take 4))
  flags := UInt32.ofNat (leValue ((b.drop 8).take 4))
  wflags := UInt32.ofNat (leValue ((b.drop 12).take 4))
  nameCount := UInt16.ofNat (leValue ((b.drop 32).take 2))

/-- The names of a `Twopen` are in its body. -/
def WOpenNamed (b : List Byte) (names : List Component) : Prop :=
  ∃ rest, exec (SpanReader.names (TWopen.ofBody b).nameCount.toNat) (b.drop 34) = (.ok names, rest)

def Ending.usesFid : Ending → Bool
  | .answer response => messageCode response == MessageType.wopen.code + 1 &&
      ((messageBody response).head? == some WOpenStatus.opened.code ||
        (messageBody response).head? == some WOpenStatus.created.code)
  | .abort => false
  | .stuck => false

/-- The bytes of the qid in a reply to `Twopen`. -/
def Ending.wopenQid : Ending → List Byte
  | .answer response => ((messageBody response).drop 3).take qidSize
  | .abort => []
  | .stuck => []

def AddsFid {W : Type} (env : Environment W) (b : List Byte) (s : Session W)
    (after : Ending × Session W) : Prop :=
  s.fids (TWopen.ofBody b).newFid = none ∧
    ∃ base names f, s.fids (TWopen.ofBody b).fid = some (.file base) ∧ WOpenNamed b names ∧
      after.2.fids = (s.setFid (TWopen.ofBody b).newFid (some (.file f))).fids ∧
      base.Leads env.kernel s.machine.world names f ∧ after.1.wopenQid = SpanWriter.qidBytes f.qid

/-- The new fid is added exactly if the reply says that the file was opened or created, and
nothing else changes in the fids. -/
def WOpenExact {W : Type} (env : Environment W) (start : MessageResponse) (tag : UInt16) (b : List Byte)
    (s : Session W) : Prop :=
  let after := processMessage env start (frame .wopen tag b) s
  (after.1.usesFid = true → AddsFid env b s after) ∧ (after.1.usesFid = false → after.2.fids = s.fids)

def MakesDirectory (b : List Byte) : Prop :=
  (∃ names, WOpenNamed b names) ∧ (TWopen.ofBody b).nameCount ≠ 0 ∧
    makesDirectory (TWopen.ofBody b).flags = true ∧
    hasFlag (TWopen.ofBody b).wflags WOpenFlags.nonDirectoryFile = false ∧
    (TWopen.ofBody b).newFid ≠ (TWopen.ofBody b).fid

section Exact

variable {W : Type} {env : Environment W} {s : Session W} {r : MessageResponse} {b : List Byte}

theorem still_u32 : Triple (Still env s r b) (read SpanReader.u32)
      (fun a x => a = UInt32.ofNat (leValue (b.take 4)) ∧ Still env s r (b.drop 4) x) (KeptFids s) := by
  refine (still_read SpanReader.u32).imp (fun _ hx => hx) ?_ fun _ _ hx => hx
  rintro a x ⟨ha, hx⟩
  rw [SpanReader.exec_u32] at ha hx
  split at ha
  · cases ha
  · rename_i hlen
    rw [if_neg hlen] at hx
    cases ha
    exact ⟨rfl, hx⟩

theorem still_u64 :
    Triple (Still env s r b) (read SpanReader.u64) (fun _ => Still env s r (b.drop 8)) (KeptFids s) := by
  refine (still_read SpanReader.u64).imp (fun _ hx => hx) ?_ fun _ _ hx => hx
  rintro a x ⟨ha, hx⟩
  rw [SpanReader.exec_u64] at ha hx
  split at ha
  · cases ha
  · rename_i hlen
    rw [if_neg hlen] at hx
    exact hx

theorem still_u16 : Triple (Still env s r b) (read SpanReader.u16)
      (fun a x => a = UInt16.ofNat (leValue (b.take 2)) ∧ Still env s r (b.drop 2) x) (KeptFids s) := by
  refine (still_read SpanReader.u16).imp (fun _ hx => hx) ?_ fun _ _ hx => hx
  rintro a x ⟨ha, hx⟩
  rw [SpanReader.exec_u16] at ha hx
  split at ha
  · cases ha
  · rename_i hlen
    rw [if_neg hlen] at hx
    cases ha
    exact ⟨rfl, hx⟩

theorem still_lookupFid (fid : UInt32) : Triple (Still env s r b) (lookupFid fid)
      (fun item x => s.fids fid = some item ∧ Still env s r b x) (KeptFids s) := by
  intro x hx
  rw [exec_lookupFid, hx.fids]
  cases hitem : s.fids fid with
  | none => exact hx.fids
  | some item => exact ⟨rfl, hx⟩

theorem still_cloneFid (item : Fid) : Triple (Still env s r b) (cloneFid item)
      (fun f x => (∃ base, item = .file base ∧ f = base.clone) ∧ Still env s r b x) (KeptFids s) := by
  cases item with
  | file f => exact Triple.pure fun x hx => ⟨⟨f, rfl, rfl⟩, hx⟩
  | xattr a => exact still_throw _

/-- The walk of a `Twopen` ends at the file that its names lead to, unless it has made a
directory. -/
theorem still_wopenWalk {f : File} (hf : Confined f.fileName) (flags mode : UInt32) (n : Nat) :
    Triple (Still env s r b) (wopenWalk env flags mode n f) (fun walk x => ∃ b', Still env s r b' x ∧
        match walk with
        | .answer status _ _ => status.usesFid = false
        | .found g _ _ _ => ∃ cs, exec (SpanReader.names n) b = (.ok cs, b') ∧
            (f.Leads env.kernel s.machine.world cs g ∨ n ≠ 0 ∧ makesDirectory flags = true)) (KeptFids s) := by
  cases n with
  | zero => exact Triple.pure fun x hx => ⟨b, hx, [], rfl, .inl (File.Leads.refl f)⟩
  | succ parents =>
    refine Triple.bind (still_wopenParents hf 0 parents) fun walk => ?_
    cases walk with
    | answer status walked g =>
      refine Triple.pure ?_
      rintro x ⟨hstat, b', hx⟩
      exact ⟨b', hx, hstat⟩
    | found g qid existed needOpen =>
      rintro x ⟨cs, b', hnames, hleads, hx⟩
      have hg : Confined g.fileName := by
        rw [hleads.path]
        exact hf.pathTo cs
      refine Triple.bind (still_read (b := b') SpanReader.name) (fun c => ?_) x hx
      refine Triple.of_fact fun hc => ?_
      have hname : exec SpanReader.name b' = (.ok c, (exec SpanReader.name b').2) := by rw [← hc]
      refine (still_wopenItem hg c flags mode parents createRetryCount).imp (fun _ hy => hy) ?_ fun _ _ hy => hy
      rintro walk y ⟨hy, hwalk⟩
      refine ⟨_, hy, ?_⟩
      cases walk with
      | answer status walked g' => exact hwalk
      | found g' qid' existed' needOpen' =>
        refine ⟨cs ++ [c], exec_names_snoc hnames hname, ?_⟩
        rcases hwalk with ⟨hleads', -⟩ | hmakes
        · exact .inl (hleads.snoc hleads')
        · exact .inr ⟨Nat.succ_ne_zero parents, hmakes⟩

theorem wopenRequest_outcome (hs : s.Guarded) (hr : r.payload = []) :
    Triple (Still env s r b) (wopenRequest env)
      (fun _ x => LeavesFids s x ∨ ∃ base names f, s.fids (TWopen.ofBody b).fid = some (.file base) ∧
        WOpenNamed b names ∧ Opens s (TWopen.ofBody b).newFid f x ∧
        (base.Leads env.kernel s.machine.world names f ∨ (TWopen.ofBody b).nameCount ≠ 0 ∧
          makesDirectory (TWopen.ofBody b).flags = true ∧
          hasFlag (TWopen.ofBody b).wflags WOpenFlags.nonDirectoryFile = false)) (KeptFids s) := by
  refine Triple.bind still_u32 fun fid => Triple.of_fact fun hfid => ?_
  refine Triple.bind still_u32 fun newFid => Triple.of_fact fun hnewFid => ?_
  refine Triple.bind still_u32 fun flags => Triple.of_fact fun hflags => ?_
  refine Triple.bind still_u32 fun wflags => Triple.of_fact fun hwflags => ?_
  refine Triple.bind still_u32 fun mode => Triple.of_fact fun _ => ?_
  refine Triple.bind still_u32 fun gid => Triple.of_fact fun _ => ?_
  refine Triple.bind still_u64 fun attrMask => ?_
  refine Triple.bind still_u16 fun nameCount => Triple.of_fact fun hcount => ?_
  simp only [drop_drop, Nat.reduceAdd] at hnewFid hflags hwflags hcount ⊢
  have hfield : TWopen.ofBody b = ⟨fid, newFid, flags, wflags, nameCount⟩ := by
    rw [hfid, hnewFid, hflags, hwflags, hcount]
    rfl
  rw [hfield]
  refine Triple.bind (still_lookupFid fid) fun item => Triple.of_fact fun hitem => ?_
  refine Triple.bind (still_cloneFid item) fun newFile => Triple.of_fact fun hclone => ?_
  obtain ⟨base, rfl, rfl⟩ := hclone
  have hbase : Confined base.clone.fileName := hs.confined fid _ hitem
  refine Triple.bind (still_wopenWalk hbase flags mode nameCount.toNat) fun walk => ?_
  cases walk with
  | answer status walked f =>
    rintro x ⟨b', hx, hstat⟩
    have hwritten : Written s [] x := ⟨hx.fids, by rw [hx.response, hr]⟩
    exact (leavesFids_writeWOpenReply hstat walked f attrMask).imp (fun _ hy => hy)
      (fun _ _ hy => .inl hy) (fun _ _ hy => hy) x hwritten
  | found f qid existed needOpen =>
    rintro x ⟨b', hx, names, hnames, hleads⟩
    have hwritten : Written s [] x := ⟨hx.fids, by rw [hx.response, hr]⟩
    refine (opens_wopenOpen newFid flags wflags attrMask nameCount.toNat f qid existed needOpen).imp
      (fun _ hy => hy) ?_ (fun _ _ hy => hy) x hwritten
    intro _ y hy
    rcases hy with hy | ⟨hopens, htype⟩
    · exact .inl hy
    · refine .inr ⟨base, names, f, hitem, ?_, hopens, ?_⟩
      · rw [WOpenNamed, hfield]
        exact ⟨b', hnames⟩
      · rcases hleads with hleads | ⟨hne, hmakes⟩
        · exact .inl ⟨hleads.path, hleads.root, hleads.object⟩
        · refine .inr ⟨?_, hmakes, ?_⟩
          · intro hzero
            have hcount : nameCount = 0 := hzero
            rw [hcount] at hne
            exact hne rfl
          · have hdir : hasFlag flags OpenFlags.directory = true := by
              rw [makesDirectory, Bool.and_eq_true] at hmakes
              exact hmakes.2
            cases hn : hasFlag wflags WOpenFlags.nonDirectoryFile with
            | false => rfl
            | true => exact absurd ⟨hn, hdir⟩ htype

theorem processMessage_frame (env : Environment W) (start : MessageResponse) (type : MessageType)
    (tag : UInt16) (b : List Byte) (s : Session W) :
    processMessage env start (frame type tag b) s =
      let x := exec (handleMessage env (MessageType.ofCode type.code)) ⟨s, tag, b, start⟩
      (respond type.code tag start x.1 x.2.response, x.2.session) := by
  have hlen : headerSize ≤ (frame type tag b).length := by
    rw [frame_eq_result, MessageResponse.result_length]
    exact Nat.le_add_right _ _
  rw [processMessage_eq hlen, messageType, frame_eq_result, MessageResponse.messageCode_result,
    MessageResponse.messageTag_result, MessageResponse.messageBody_result]

theorem usesFid_result {w : MessageResponse} {status : WOpenStatus} {walked : Nat} {qid : Qid}
    {rest : List Byte}
    (hpay : w.payload = wopenHead status walked qid ++ rest) (tag : UInt16) :
    (Ending.answer (w.result (MessageType.wopen.code + 1) tag)).usesFid = status.usesFid ∧
      (Ending.answer (w.result (MessageType.wopen.code + 1) tag)).wopenQid = SpanWriter.qidBytes qid := by
  simp only [Ending.usesFid, Ending.wopenQid, MessageResponse.messageCode_result,
    MessageResponse.messageBody_result, hpay]
  constructor
  · cases status <;> rfl
  · have hhead : wopenHead status walked qid ++ rest =
        ([status.code] ++ leBytes 2 (UInt16.ofNat walked).toNat) ++ (SpanWriter.qidBytes qid ++ rest) := by
      simp only [wopenHead, append_assoc]
    rw [hhead, drop_left' (by rw [length_append, leBytes_length]; rfl)]
    exact take_left' (qidBytes_length qid)

theorem usesFid_respond_error (type : UInt8) (tag : UInt16) (start : MessageResponse) (e : Stop)
    (response : MessageResponse) : (respond type tag start (.error e) response).usesFid = false := by
  have hlerror (e : Errno) : (respond type tag start (.error (.error e)) response).usesFid = false := by
    simp only [respond]
    split
    · rw [Ending.usesFid, MessageResponse.messageCode_result]
      rfl
    · rfl
  cases e with
  | error e => exact hlerror e
  | thrown e => exact hlerror e
  | failFast => rfl
  | terminate => rfl
  | stuck => rfl

theorem wopenExact_of_not_makesDirectory (hs : s.Guarded) (hr : r.payload = []) (tag : UInt16)
    (h : ¬MakesDirectory b) : WOpenExact env r tag b s := by
  have hhandler : Triple (Still env s r b) (handleWOpen env)
      (fun _ x => LeavesFids s x ∨ ∃ base names f, s.fids (TWopen.ofBody b).fid = some (.file base) ∧
        WOpenNamed b names ∧ Opens s (TWopen.ofBody b).newFid f x ∧
        base.Leads env.kernel s.machine.world names f) (KeptFids s) := by
    refine Triple.bind (Q := fun _ => Still env s r b) (fun x hx => hx) fun session => ?_
    refine still_ite (fun _ => still_throw _) fun _ => ?_
    refine (wopenRequest_outcome hs hr).imp (fun _ hx => hx) ?_ fun _ _ hx => hx
    intro _ x hx
    refine hx.imp_right ?_
    rintro ⟨base, names, f, hbase, hnames, hopens, hleads⟩
    refine ⟨base, names, f, hbase, hnames, hopens, hleads.resolve_right ?_⟩
    rintro ⟨hcount, hmakes, htype⟩
    refine h ⟨⟨names, hnames⟩, hcount, hmakes, htype, ?_⟩
    intro hsame
    have hnone := hopens.1
    rw [hsame, hbase] at hnone
    cases hnone
  have hstart : Still env s r b ⟨s, tag, b, r⟩ := ⟨rfl, rfl, rfl, .start⟩
  have hend := hhandler _ hstart
  rw [WOpenExact, processMessage_frame]
  change Ends _ _ (exec (handleMessage env (MessageType.ofCode MessageType.wopen.code)) ⟨s, tag, b, r⟩) at hend
  rcases hrun : exec (handleMessage env (MessageType.ofCode MessageType.wopen.code)) ⟨s, tag, b, r⟩ with ⟨result, x⟩
  rw [hrun] at hend
  cases result with
  | error e =>
    refine ⟨fun huses => ?_, fun _ => hend⟩
    rw [usesFid_respond_error] at huses
    cases huses
  | ok a =>
    rcases hend with ⟨status, walked, qid, hstat, hfids, rest, hpay⟩ |
      ⟨base, names, f, hbase, hnames, ⟨hnone, g, hsame, hfids, status, walked, rest, hstat, hpay⟩, hleads⟩
    · refine ⟨fun huses => ?_, fun _ => hfids⟩
      have hreply := (usesFid_result hpay tag).1.symm.trans huses
      rw [hstat] at hreply
      cases hreply
    · obtain ⟨hreply, hqid⟩ := usesFid_result hpay tag
      refine ⟨fun _ => ⟨hnone, base, names, g, hbase, hnames, hfids, ⟨?_, ?_, ?_⟩, hqid⟩, fun huses => ?_⟩
      · rw [hsame.path, hleads.path]
      · rw [hsame.root, hleads.root]
      · rw [hsame.path, hsame.qid]
        exact hleads.object
      · have hfalse := hreply.symm.trans huses
        rw [hstat] at hfalse
        cases hfalse

end Exact

end WslPlus.Plan9

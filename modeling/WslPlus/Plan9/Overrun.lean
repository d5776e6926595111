import WslPlus.Plan9.Responses

/-!
# Replies that are longer than what was reserved

`Tgetlock` writes back the client id of its request without having reserved anything for
it. `Tread` of no bytes from an attribute announces the size of the attribute. Every
other handler stays within what it reserves.
-/

namespace WslPlus.Plan9

open List Program

variable {W : Type} {cap : Nat} {r : MessageResponse} {s : Session W} {b : List Byte} {env : Environment W}

/-- Of the `size` bytes that were reserved, `k` are left. -/
structure Leaves (size maxSize k : Nat) (r : MessageResponse) : Prop where
  left : r.size + k = size
  reserved : r.reserved = size
  buffer : r.maxSize = maxSize
  fits : size ≤ maxSize

/-- A handler writes `bytes` last, when all of what it reserved is used up. -/
def Spills (size maxSize : Nat) (bytes : List Byte) (result : Except Stop Unit × Exchange W) : Prop :=
  ∃ y : Exchange W, result = exec (reply (SpanWriter.write bytes)) y ∧ Leaves size maxSize 0 y.response

section Spills

variable {size maxSize k : Nat} {last : List Byte} {x : Exchange W}

theorem Leaves.write {bytes : List Byte} (hx : Leaves size maxSize (k + bytes.length) x.response)
    {f : Unit → Handler W Unit}
    (h : ∀ y : Exchange W, Leaves size maxSize k y.response → Spills size maxSize last (exec (f ()) y)) :
    Spills size maxSize last (exec (reply (SpanWriter.write bytes) >>= f) x) := by
  have hleft := hx.left
  have hbuf := hx.buffer
  have hfits := hx.fits
  rw [exec_bind, exec_reply_write, if_neg (by omega), andThen]
  refine h _ ⟨?_, hx.reserved, hbuf, hfits⟩
  simp only [MessageResponse.size, length_append] at hleft ⊢
  omega

theorem Leaves.ensureSize {t : MessageType} (hblank : Blank cap x.response)
    (hfits : EnsureFits x.response x.session (getMessageSize t)) (hk : getMessageSize t = headerSize + k)
    {f : Unit → Handler W Unit} (h : ∀ y : Exchange W, y.session = x.session →
      Leaves (getMessageSize t) (max x.response.maxSize (getMessageSize t)) k y.response →
      Spills (getMessageSize t) (max x.response.maxSize (getMessageSize t)) last (exec (f ()) y)) :
    Spills (getMessageSize t) (max x.response.maxSize (getMessageSize t)) last
      (exec (ensureSize t 0 >>= f) x) := by
  rw [exec_bind, exec_ensureSize (Nat.add_zero _) hblank.payload, if_pos hfits]
  refine h _ rfl ⟨?_, rfl, rfl, le_max_right _ _⟩
  simp only [MessageResponse.size, hblank.payload]
  exact hk.symm

end Spills

def Declines (r : MessageResponse) (result : Except Stop Unit × Exchange W) : Prop :=
  ∃ e y, result = (.error e, y) ∧ e.Calm ∧ y.response = r

section GetLock

def lockFields : List Field := [.fixed 4, .fixed 1, .fixed 8, .fixed 8, .fixed 4, .string]

/-- The client id in the body of a `Tgetlock`. -/
def lockClientId (b : List Byte) : List Byte := (stringAt (b.drop 25)).1

def onOpenFile (s : Session W) (b : List Byte) : Bool :=
  match s.fids (firstFid b) with
  | some (.file f) => f.isOpen
  | _ => false

/-- The reply to a `Tgetlock`. -/
def lockReply (start length : UInt64) (procId : UInt32) (clientId : List Byte) : Handler W Unit := do
  ensureSize .getlock 0
  reply (SpanWriter.u8 2)
  reply (SpanWriter.u64 start)
  reply (SpanWriter.u64 length)
  reply (SpanWriter.u32 procId)
  reply (SpanWriter.string clientId)

theorem lockReply_spills {x : Exchange W} (hblank : Blank cap x.response)
    (hfits : EnsureFits x.response x.session 30) (start length : UInt64) (procId : UInt32)
    {clientId : List Byte} (hid : clientId.length < UInt16.size) :
    Spills 30 (max x.response.maxSize 30) clientId (exec (lockReply start length procId clientId) x) := by
  refine Leaves.ensureSize (t := .getlock) (k := 23) hblank hfits rfl fun x _ hx => ?_
  refine Leaves.write (k := 22) hx fun x hx => Leaves.write (k := 14) hx fun x hx => ?_
  refine Leaves.write (k := 6) hx fun x hx => Leaves.write (k := 2) hx fun x hx => ?_
  rw [reply_string hid]
  exact Leaves.write (k := 0) hx fun x hx => ⟨x, rfl, hx⟩

theorem decoded_getLock (hblank : Blank cap r) {Q : Except Stop Unit × Exchange W → Prop}
    (hreply : Covered lockFields b → onOpenFile s b = true → EnsureFits r s 30 →
      ∀ result, Spills 30 (max r.maxSize 30) (lockClientId b) result → Q result)
    (hdecline : (onOpenFile s b = true → ¬EnsureFits r s 30) → ∀ result, Declines r result → Q result) :
    Decoded r s (Covered lockFields b) b handleGetLock Q := by
  refine Decoded.fixed fun hfid => Decoded.fixed fun htype => Decoded.fixed fun hstart => ?_
  refine Decoded.fixed fun hlen => Decoded.fixed fun hproc => Decoded.string fun hstring => ?_
  have hcov : Covered lockFields b := ⟨hfid, htype, hstart, hlen, hproc, hstring, trivial⟩
  have hdrop : b.drop 25 = ((((b.drop 4).drop 1).drop 8).drop 8).drop 4 := by simp only [drop_drop]
  intro x hs hb hx
  refine ⟨fun _ => ?_, fun hC => absurd trivial hC⟩
  have hfirst : UInt32.ofNat (leValue (b.take 4)) = firstFid b := rfl
  rw [exec_bind, exec_lookupFid, hs, hfirst]
  cases hitem : s.fids (firstFid b) with
  | none => exact hdecline (by simp [onOpenFile, hitem]) _ ⟨_, x, rfl, by trivial, hx⟩
  | some item =>
    cases item with
    | xattr a => exact hdecline (by simp [onOpenFile, hitem]) _ ⟨_, x, rfl, by trivial, hx⟩
    | file f =>
      rw [andThen, exec_bind, asFile, exec_pure, andThen, exec_bind, checkOpen]
      by_cases hopen : f.isOpen = true
      · rw [if_pos hopen, exec_pure, andThen]
        subst hx
        by_cases hfits : EnsureFits x.response x.session 30
        · have hspills := lockReply_spills hblank hfits
            (UInt64.ofNat (leValue (((b.drop 4).drop 1).take 8)))
            (UInt64.ofNat (leValue ((((b.drop 4).drop 1).drop 8).take 8)))
            (UInt32.ofNat (leValue (((((b.drop 4).drop 1).drop 8).drop 8).take 4)))
            (stringAt_length_lt (b.drop 25))
          rw [hs] at hfits
          refine hreply hcov (by rw [onOpenFile, hitem]; exact hopen) hfits _ ?_
          rw [hdrop] at hspills
          rw [lockClientId, hdrop]
          exact hspills
        · have hsize : getMessageSize .getlock + 0 = 30 := rfl
          rw [exec_bind, exec_ensureSize hsize hblank.payload, if_neg hfits]
          rw [hs] at hfits
          exact hdecline (fun _ => hfits) _ ⟨_, x, rfl, by trivial, rfl⟩
      · rw [if_neg hopen]
        exact hdecline (by simp [onOpenFile, hitem, hopen]) _ ⟨_, x, rfl, by trivial, hx⟩

end GetLock

section Read

def readFields : List Field := [.fixed 4, .fixed 8, .fixed 4]

def readOffset (b : List Byte) : UInt64 := UInt64.ofNat (leValue ((b.drop 4).take 8))

def readCount (b : List Byte) : UInt32 := UInt32.ofNat (leValue ((b.drop 12).take 4))

/-- What a `Tread` of no bytes at the start of an attribute announces: the size of the attribute. -/
def emptyRead (env : Environment W) (s : Session W) (b : List Byte) : Option Nat :=
  match s.fids (firstFid b) with
  | some (.xattr a) =>
    if a.access = .read ∧ readOffset b = 0 ∧ readCount b = 0 then
      match (exec (a.getSize env.kernel) s.machine).1 with
      | .ok n => some (UInt32.ofNat n).toNat
      | .error _ => none
    else
      none
  | _ => none

/-- The reply to a `Tread` of an item. -/
def readReply (env : Environment W) (item : Fid) (offset : UInt64) (count : Nat) : Handler W Unit := do
  ensureSize .read count
  dataSpace count
  let (n, data) ← sys (readFid env item offset count)
  reply (SpanWriter.u32 (UInt32.ofNat n))
  reply (SpanWriter.next (UInt32.ofNat n).toNat data)

theorem reserves_readReply (hcap : UInt32.size ≤ cap + 1) {item : Fid} {offset : UInt64} {count : UInt32}
    (h : Keeps (fun _ => True) (readFid env item offset count.toNat) fun r => r.1 ≤ count.toNat) :
    Reserves cap (readReply env item offset count.toNat) := by
  refine Reserves.ensureSize hcap (n := count.toNat + 4) (by simp only [getMessageSize]; omega) ?_
  refine Writes.dataSpace (Nat.le_refl _) (Writes.bind (silent_sys h) fun r hr => ?_)
  have hlt : r.1 < UInt32.size := Nat.lt_of_le_of_lt hr count.toNat_lt
  have hn : (UInt32.ofNat r.1).toNat ≤ count.toNat := by
    rw [UInt32.toNat_ofNat', Nat.mod_eq_of_lt hlt]
    exact hr
  exact (puts_u32 _).bind fun _ _ => ((puts_next _ _).more hn).writes

theorem yields_readFid_file (f : File) (offset : UInt64) (count : Nat) :
    Keeps (fun _ => True) (readFid env (.file f) offset count) fun r => r.1 ≤ count :=
  (Keeps.nothing _).bind fun d _ => Keeps.pure d.2

theorem yields_readFid_xattr {a : XAttr} {offset : UInt64} {count : Nat}
    (h : a.access = .read → offset = 0 → count ≠ 0) :
    Keeps (fun _ => True) (readFid env (.xattr a) offset count) fun r => r.1 ≤ count := by
  have hread : Keeps (fun _ => True) (a.read env.kernel offset count) fun r => r.count ≤ count := by
    refine Keeps.ite (fun _ => Keeps.throw) fun hok => ?_
    have hcount := h (by by_contra hne; exact hok (.inl hne)) (by by_contra hne; exact hok (.inr hne))
    exact (Keeps.nothing _).imp fun r _ => r.fits hcount
  exact hread.bind fun r hr => Keeps.pure hr

/-- What `Tread` writes of a read. -/
def writeRead (r : Nat × List Byte) : Handler W Unit := do
  reply (SpanWriter.u32 (UInt32.ofNat r.1))
  reply (SpanWriter.next (UInt32.ofNat r.1).toNat r.2)

theorem exec_readReply_zero {x : Exchange W} (hblank : Blank cap x.response) (item : Fid) (offset : UInt64)
    (hfits : EnsureFits x.response x.session 11) :
    ∃ y : Exchange W, y.session = x.session ∧ Leaves 11 (max x.response.maxSize 11) 4 y.response ∧
      exec (readReply env item offset 0) x = exec (sys (readFid env item offset 0) >>= writeRead) y := by
  have hsize : getMessageSize .read + 0 = 11 := rfl
  have hleaves : Leaves 11 (max x.response.maxSize 11) 4
      { x.response with maxSize := max x.response.maxSize 11, reserved := 11 } := by
    refine ⟨?_, rfl, rfl, le_max_right _ _⟩
    simp only [MessageResponse.size, hblank.payload]
    rfl
  have hleft := hleaves.left
  have hspace := hleaves.fits
  refine ⟨{ x with response := { x.response with maxSize := max x.response.maxSize 11, reserved := 11 } },
    rfl, hleaves, ?_⟩
  rw [readReply, exec_bind, exec_ensureSize hsize hblank.payload, if_pos hfits, andThen, exec_bind, dataSpace,
    exec_ofFunction, if_neg (by
      simp only [MessageResponse.size] at hleft ⊢
      omega)]
  rfl

theorem writeRead_spills {y : Exchange W} {maxSize : Nat} (hy : Leaves 11 maxSize 4 y.response)
    (n : Nat) (data : List Byte) :
    ∃ bytes : List Byte, bytes.length = (UInt32.ofNat n).toNat ∧
      Spills 11 maxSize bytes (exec (writeRead (n, data)) y) := by
  refine ⟨data.take (UInt32.ofNat n).toNat ++ List.replicate ((UInt32.ofNat n).toNat - data.length) 0,
    ?_, ?_⟩
  · rw [length_append, length_take, length_replicate]
    omega
  · exact Leaves.write (k := 0) hy fun z hz => ⟨z, rfl, hz⟩

theorem exec_readFid_xattr (a : XAttr) (haccess : a.access = .read) (m : Machine W) :
    exec (readFid env (.xattr a) 0 0) m =
      andThen (exec (a.getValue env.kernel 0) m) fun v => return (v.count, v.data) := by
  have hread : a.read env.kernel 0 0 = a.getValue env.kernel 0 := by
    rw [XAttr.read, if_neg]
    rintro (h | h)
    · exact h haccess
    · exact h rfl
  rw [readFid, exec_bind, hread]

theorem exec_getSize (a : XAttr) (m : Machine W) :
    exec (a.getSize env.kernel) m = andThen (exec (a.getValue env.kernel 0) m) fun v => return v.count := by
  rw [XAttr.getSize, exec_bind]

theorem fine_of_leaves (hcap : UInt32.size ≤ cap + 1) {size k : Nat} {y : Exchange W}
    (hy : Leaves size (max r.maxSize size) k y.response) (hsize : size < UInt32.size) {e : Stop}
    (he : e.Calm) : Fine cap r ((.error e, y) : Except Stop Unit × Exchange W) := by
  intro hblank
  have hleft := hy.left
  have hres := hy.reserved
  have hbuf := hy.buffer
  have hcapped := hblank.capped
  refine ⟨he, by omega, ?_, ?_⟩
  · rw [hres, hbuf]
    exact hy.fits
  · rw [hbuf]
    exact max_le hcapped (by omega)

/-- A `Tread` of no bytes from an attribute whose size is known spills that many bytes, and
every other `Tread` stays within its reply. -/
theorem decoded_read (hcap : UInt32.size ≤ cap + 1) (hblank : Blank cap r)
    {Q : Except Stop Unit × Exchange W → Prop}
    (hfine : (EnsureFits r s 11 → emptyRead env s b = none) → ∀ result, Fine cap r result → Q result)
    (hspill : Covered readFields b → EnsureFits r s 11 → ∀ n, emptyRead env s b = some n →
      ∀ bytes : List Byte, bytes.length = n → ∀ result, Spills 11 (max r.maxSize 11) bytes result → Q result) :
    Decoded r s (Covered readFields b) b (handleRead env) Q := by
  refine Decoded.fixed fun hfid => Decoded.fixed fun hoffset => Decoded.fixed fun hcount => ?_
  have hcov : Covered readFields b := ⟨hfid, hoffset, hcount, trivial⟩
  have hdrop : b.drop 12 = (b.drop 4).drop 8 := by rw [drop_drop]
  intro x hs hb hx
  refine ⟨fun _ => ?_, fun hC => absurd trivial hC⟩
  have hfirst : UInt32.ofNat (leValue (b.take 4)) = firstFid b := rfl
  rw [exec_bind, exec_lookupFid, hs, hfirst]
  rw [← hdrop]
  cases hitem : s.fids (firstFid b) with
  | none => exact hfine (fun _ => by rw [emptyRead, hitem]) _ (fine_calm (by trivial) hx)
  | some item =>
    change Q (exec (readReply env item (readOffset b) (readCount b).toNat) x)
    have hreserves (hnone : emptyRead env s b = none)
        (h : Keeps (fun _ => True) (readFid env item (readOffset b) (readCount b).toNat) fun r =>
          r.1 ≤ (readCount b).toNat) :
        Q (exec (readReply env item (readOffset b) (readCount b).toNat) x) := by
      refine hfine (fun _ => hnone) _ fun hblank => ?_
      subst hx
      exact reserves_readReply hcap h x hblank
    cases item with
    | file f => exact hreserves (by rw [emptyRead, hitem]) (yields_readFid_file f _ _)
    | xattr a =>
      by_cases hempty : a.access = .read ∧ readOffset b = 0 ∧ readCount b = 0
      · obtain ⟨haccess, hzero, hnone⟩ := hempty
        have hempty : emptyRead env s b = match (exec (a.getSize env.kernel) s.machine).1 with
            | .ok n => some (UInt32.ofNat n).toNat
            | .error _ => none := by
          rw [emptyRead, hitem]
          exact if_pos ⟨haccess, hzero, hnone⟩
        rw [hzero, hnone]
        change Q (exec (readReply env (.xattr a) 0 0) x)
        subst hx
        by_cases hfits : EnsureFits x.response x.session 11
        · obtain ⟨y, hsess, hleaves, hexec⟩ := exec_readReply_zero hblank (.xattr a) 0 hfits
          rw [hs] at hfits
          rw [hexec, exec_bind]
          rw [exec_getSize] at hempty
          rcases hvalue : exec (a.getValue env.kernel 0) s.machine with ⟨v, m⟩
          have hread : exec (readFid env (.xattr a) 0 0) s.machine =
              andThen (exec (a.getValue env.kernel 0) s.machine) fun v => return (v.count, v.data) :=
            exec_readFid_xattr a haccess s.machine
          rw [hvalue] at hread
          rw [hvalue] at hempty
          cases v with
          | ok v =>
            rw [exec_sys_ok (by rw [hsess, hs]; exact hread)]
            obtain ⟨bytes, hlen, hspills⟩ := writeRead_spills
              (y := { y with session := { y.session with machine := m } }) hleaves v.count v.data
            exact hspill hcov hfits _ hempty bytes hlen _ hspills
          | error e =>
            rw [exec_sys_error (by rw [hsess, hs]; exact hread)]
            exact hfine (fun _ => hempty) _ (fine_of_leaves hcap (y := { y with session := _ }) hleaves (by decide) e.calm)
        · have hsize : getMessageSize .read + 0 = 11 := rfl
          rw [readReply, exec_bind, exec_ensureSize hsize hblank.payload, if_neg hfits]
          rw [hs] at hfits
          exact hfine (fun h => absurd h hfits) _ (fine_calm (by trivial) rfl)
      · have hnone : emptyRead env s b = none := by
          rw [emptyRead, hitem]
          exact if_neg hempty
        refine hreserves hnone (yields_readFid_xattr fun haccess hzero hcount => ?_)
        exact hempty ⟨haccess, hzero, UInt32.toNat.inj hcount⟩

end Read

def StaysWithin (result : Except Stop Unit × Exchange W) : Prop :=
  result.1 ≠ .error .terminate ∧ result.2.response.size ≤ result.2.response.reserved

theorem Spills.staysWithin_iff {size maxSize : Nat} {bytes : List Byte}
    {result : Except Stop Unit × Exchange W} (h : Spills size maxSize bytes result) :
    StaysWithin result ↔ bytes = [] := by
  obtain ⟨y, rfl, hy⟩ := h
  have hleft := hy.left
  have hres := hy.reserved
  have hbuf := hy.buffer
  have hfits := hy.fits
  rw [exec_reply_write]
  split
  · refine ⟨fun hwithin => absurd rfl hwithin.1, ?_⟩
    rintro rfl
    simp only [length_nil] at *
    omega
  · refine ⟨fun hwithin => ?_, ?_⟩
    · have hsize := hwithin.2
      simp only [MessageResponse.size, length_append] at *
      exact length_eq_zero_iff.mp (by omega)
    · rintro rfl
      refine ⟨(by intro h; cases h), ?_⟩
      simp only [MessageResponse.size, append_nil] at *
      omega

theorem Fine.staysWithin {result : Except Stop Unit × Exchange W} (h : Fine cap r result)
    (hblank : Blank cap r) : StaysWithin result := by
  have h' := h hblank
  rcases result with ⟨e, y⟩
  cases e with
  | ok a =>
    have hfits := Room.fits h'
    exact ⟨nofun, by omega⟩
  | error e =>
    have hfits := h'.2.fits
    refine ⟨?_, by omega⟩
    rintro ⟨⟩
    exact h'.1

theorem Decoded.staysWithin {C : Prop} {m : Handler W Unit} {P : Prop} (hblank : Blank cap r)
    (h : Decoded r s C b m fun result => StaysWithin result ↔ P) (hP : ¬C → P) (x : Exchange W)
    (hs : x.session = s) (hb : x.reader = b) (hx : x.response = r) : StaysWithin (exec m x) ↔ P := by
  obtain ⟨hcov, hshort⟩ := h x hs hb hx
  by_cases hC : C
  · exact hcov hC
  · obtain ⟨hstop, hresponse⟩ := hshort hC
    refine ⟨fun _ => hP hC, fun _ => ⟨?_, ?_⟩⟩
    · rw [hstop]
      nofun
    · rw [hresponse]
      have hfits := hblank.room.fits
      omega

/-- The replies that might not fit do: there is no client id to write back, and the attribute
that is read is empty. -/
def ReservesEnough (env : Environment W) (r : MessageResponse) (s : Session W) (type : Option MessageType)
    (b : List Byte) : Prop :=
  match type with
  | some .getlock =>
    Covered lockFields b → onOpenFile s b = true → EnsureFits r s 30 → lockClientId b = []
  | some .read => Covered readFields b → EnsureFits r s 11 → ∀ n, emptyRead env s b = some n → n = 0
  | _ => True

theorem staysWithin_flush (hblank : Blank cap r) (x : Exchange W) (hx : x.response = r) :
    StaysWithin (exec handleFlush x) := by
  have hquiet : Triple (fun x : Exchange W => x.response = r) handleFlush (fun _ x => x.response = r)
      fun e x => e ≠ .terminate ∧ x.response = r := by
    have hread : Triple (fun x : Exchange W => x.response = r) (read SpanReader.u16)
        (fun _ x => x.response = r) fun e x => e ≠ .terminate ∧ x.response = r := by
      intro x hx
      rw [read, exec_zoom, SpanReader.exec_u16]
      split
      · exact ⟨(by intro h; cases h), hx⟩
      · exact hx
    refine Triple.bind hread fun oldTag => ?_
    have hsess : Triple (fun x : Exchange W => x.response = r) session
        (fun _ x => x.response = r) fun e x => e ≠ .terminate ∧ x.response = r := fun _ hx => hx
    refine Triple.bind hsess fun s => ?_
    split
    · exact fun _ hx => hx
    · have htag : Triple (fun x : Exchange W => x.response = r) requestTag
          (fun _ x => x.response = r) fun e x => e ≠ .terminate ∧ x.response = r := fun _ hx => hx
      refine Triple.bind htag fun tag => ?_
      split
      · exact Triple.throw fun _ hx => ⟨(by intro h; cases h), hx⟩
      · exact Triple.pure fun _ hx => hx
  have h := hquiet x hx
  have hfits := hblank.room.fits
  rcases hr : exec handleFlush x with ⟨e, y⟩
  rw [hr] at h
  cases e with
  | ok a =>
    have hy : y.response = r := h
    exact ⟨(by intro h; cases h), by rw [hy]; omega⟩
  | error e =>
    refine ⟨?_, by rw [h.2]; omega⟩
    rintro ⟨⟩
    exact h.1 rfl

theorem handler_reserves_iff (env : Environment W) (hlinks : env.kernel.ShortLinks) (s : Session W)
    (tag : UInt16) (type : Option MessageType) (body : List Byte) {maxSize : Nat}
    (hmax : headerSize ≤ maxSize) (allowResize : Bool) :
    StaysWithin (exec (handleMessage env type) ⟨s, tag, body, .initial maxSize allowResize⟩) ↔
      ReservesEnough env (.initial maxSize allowResize) s type body := by
  have hcap : UInt32.size ≤ max maxSize UInt32.size + 1 := by omega
  have hblank : Blank (max maxSize UInt32.size) (.initial maxSize allowResize) :=
    ⟨rfl, rfl, hmax, le_max_left _ _⟩
  by_cases hread : type = some .read
  · subst hread
    refine Decoded.staysWithin hblank (decoded_read hcap hblank ?_ ?_) ?_ _ rfl rfl rfl
    · intro hnone result hfine
      refine ⟨fun _ _ hfits n hn => ?_, fun _ => hfine.staysWithin hblank⟩
      rw [hnone hfits] at hn
      cases hn
    · intro hcovered hfits n hn bytes hlength result hspills
      rw [hspills.staysWithin_iff]
      refine ⟨fun hbytes _ _ m hm => ?_, fun henough => ?_⟩
      · rw [hn] at hm
        cases hm
        rw [← hlength, hbytes]
        rfl
      · exact length_eq_zero_iff.mp (hlength.trans (henough hcovered hfits n hn))
    · exact fun hC hcovered => absurd hcovered hC
  by_cases hlock : type = some .getlock
  · subst hlock
    refine Decoded.staysWithin hblank (decoded_getLock hblank ?_ ?_) ?_ _ rfl rfl rfl
    · intro hcovered hopen hfits result hspills
      rw [hspills.staysWithin_iff]
      exact ⟨fun hid _ _ _ => hid, fun henough => henough hcovered hopen hfits⟩
    · intro hdecline result hresult
      obtain ⟨e, y, rfl, he, hy⟩ := hresult
      refine ⟨fun _ _ hopen hfits => absurd hfits (hdecline hopen), fun _ => ?_⟩
      exact (fine_calm he hy).staysWithin hblank
    · exact fun hC hcovered => absurd hcovered hC
  by_cases hflush : type = some .flush
  · subst hflush
    exact iff_of_true (staysWithin_flush hblank _ rfl) trivial
  · have henough : ReservesEnough env (.initial maxSize allowResize) s type body := by
      unfold ReservesEnough
      split
      · exact absurd rfl hlock
      · exact absurd rfl hread
      · trivial
    have hhandles : Handles (max maxSize UInt32.size) (.initial maxSize allowResize) s
        (BodyCovered env s type body) body (handleMessage env type) :=
      handles_handleMessage hcap hlinks hread hlock hflush
    have hdecoded := hhandles.imp fun result hfine => iff_of_true (hfine.staysWithin hblank) henough
    exact Decoded.staysWithin hblank hdecoded (fun _ => henough) _ rfl rfl rfl

theorem shortLinks_plain : Kernel.plain.ShortLinks := by
  intro ctx base path size w t ht
  cases ht
  exact Nat.zero_le _

def openedSession : Session Unit :=
  { Session.initial false () with negotiated := true, negotiatedSize := 8192 }.setFid 7
    (some (.file ⟨[], none, some ⟨4⟩, ⟨0, ⟨3⟩, ⟨1000, 100, [100]⟩⟩, ⟨2, 0, .directory⟩, 1⟩))

/-- The body of a `Tgetlock` on fid 7. -/
def getLockBody (clientId : List Byte) : List Byte :=
  leBytes 4 7 ++ [0] ++ leBytes 8 0 ++ leBytes 8 0 ++ leBytes 4 1 ++ frameString clientId

theorem getlock_reserves_without_client_id :
    StaysWithin (exec (handleMessage Environment.plain (some .getlock))
      ⟨openedSession, 1, getLockBody [], .initial staticBufferSize true⟩) :=
  (handler_reserves_iff Environment.plain shortLinks_plain openedSession 1 (some .getlock) (getLockBody [])
    (by decide) true).mpr fun _ _ _ => by decide

/-- A client id of 300 bytes runs past the buffer on the stack. -/
theorem getlock_overruns :
    ¬StaysWithin (exec (handleMessage Environment.plain (some .getlock))
      ⟨openedSession, 1, getLockBody (List.replicate 300 97), .initial staticBufferSize true⟩) := by
  intro h
  exact h.1 (by decide +kernel)

end WslPlus.Plan9

import WslPlus.Plan9.Fields
import WslPlus.Plan9.Handler

/-!
# Room for a response

A handler makes room for its response and then writes no more than that. It stops early
only with an error for its client, or because the body of the request is too short for
its fields.
-/

namespace WslPlus.Plan9

open Program

/-- There is room for `n` more bytes in what was reserved, and for that in the buffer. -/
structure Room (cap n : Nat) (r : MessageResponse) : Prop where
  fits : r.size + n ≤ r.reserved
  reserved : r.reserved ≤ r.maxSize
  capped : r.maxSize ≤ cap

/-- A response to which nothing was written and for which nothing was reserved. -/
structure Blank (cap : Nat) (r : MessageResponse) : Prop where
  payload : r.payload = []
  reserved : r.reserved = headerSize
  header : headerSize ≤ r.maxSize
  capped : r.maxSize ≤ cap

def Stop.Calm : Stop → Prop
  | .error _ => True
  | .thrown _ => True
  | .failFast => False
  | .terminate => False
  | .stuck => False

variable {W : Type} {α β : Type} {cap : Nat}

theorem Blank.room {r : MessageResponse} (h : Blank cap r) : Room cap 0 r where
  fits := by rw [MessageResponse.size, h.payload, h.reserved]; exact Nat.le_refl _
  reserved := by rw [h.reserved]; exact h.header
  capped := h.capped

theorem Room.less {n m : Nat} {r : MessageResponse} (h : Room cap n r) (hm : m ≤ n) : Room cap m r :=
  ⟨by have := h.fits; omega, h.reserved, h.capped⟩

def Silent (m : Handler W α) (A : α → Prop) : Prop :=
  ∀ r, Triple (fun x => x.response = r) m (fun a x => A a ∧ x.response = r)
    fun e x => e.Calm ∧ x.response = r

/-- From `P`, what is written stays within what was reserved. -/
def Stays (cap : Nat) (P : MessageResponse → Prop) (m : Handler W Unit) : Prop :=
  Triple (fun x => P x.response) m (fun _ x => Room cap 0 x.response)
    fun e x => e.Calm ∧ Room cap 0 x.response

abbrev Reserves (cap : Nat) (m : Handler W Unit) : Prop := Stays cap (Blank cap) m

/-- A handler that has room for `n` bytes. -/
abbrev Writes (cap n : Nat) (m : Handler W Unit) : Prop := Stays cap (Room cap n) m

section Silent

variable {A : α → Prop} {B : β → Prop}

theorem Silent.pure {a : α} (h : A a) : Silent (Pure.pure a : Handler W α) A := fun _ _ hx => ⟨h, hx⟩

theorem Silent.throw {e : Stop} (h : e.Calm) : Silent (MonadExcept.throw e : Handler W α) A :=
  fun _ _ hx => ⟨h, hx⟩

theorem Silent.bind {m : Handler W α} {f : α → Handler W β} (hm : Silent m A)
    (hf : ∀ a, A a → Silent (f a) B) : Silent (m >>= f) B :=
  fun r => Triple.bind (hm r) fun a => Triple.of_fact fun ha => hf a ha r

theorem Silent.ite {c : Prop} [Decidable c] {m n : Handler W α} (hm : c → Silent m A)
    (hn : ¬c → Silent n A) : Silent (if c then m else n) A := by
  by_cases hc : c
  · rw [if_pos hc]
    exact hm hc
  · rw [if_neg hc]
    exact hn hc

theorem Silent.when {c : Bool} {m : Handler W Unit} (hm : Silent m fun _ => True) :
    Silent (when c m) fun _ => True := by
  cases c with
  | true => exact hm
  | false => exact Silent.pure trivial

theorem silent_sys {m : Sys W α} (h : Keeps (fun _ => True) m A) : Silent (sys m) A := by
  intro r
  have hm : Triple (fun _ => True) (mapError Failure.toStop m) (fun a _ => A a) fun e _ => e.Calm := by
    refine Triple.mapError (Triple.imp h (fun _ hs => hs) (fun _ _ ha => ha.1) fun _ _ hs => hs) ?_
    intro e _ _
    cases e <;> trivial
  exact Triple.zoom hm (fun _ _ => trivial) (fun _ _ _ hx ha => ⟨ha, hx⟩) fun _ _ _ hx he => ⟨he, hx⟩

theorem silent_sys_any (m : Sys W α) : Silent (sys m) fun _ => True := silent_sys (Keeps.nothing m)

theorem silent_session : Silent (session : Handler W (Session W)) fun _ => True :=
  fun _ _ hx => ⟨trivial, hx⟩

theorem silent_modifySession (f : Session W → Session W) :
    Silent (modifySession f : Handler W Unit) fun _ => True := fun _ _ hx => ⟨trivial, hx⟩

theorem silent_lookupFid (fid : UInt32) : Silent (lookupFid fid : Handler W Fid) fun _ => True := by
  refine silent_session.bind fun s _ => ?_
  split
  · exact Silent.pure trivial
  · exact Silent.throw trivial

theorem silent_asFile (item : Fid) : Silent (asFile item : Handler W File) fun _ => True := by
  cases item with
  | file f => exact Silent.pure trivial
  | xattr x => exact Silent.throw trivial

theorem silent_cloneFid (item : Fid) : Silent (cloneFid item : Handler W File) fun _ => True := by
  cases item with
  | file f => exact Silent.pure trivial
  | xattr x => exact Silent.throw trivial

theorem silent_emplaceFid (fid : UInt32) (item : Fid) :
    Silent (emplaceFid fid item : Handler W Unit) fun _ => True := by
  refine silent_session.bind fun s _ => ?_
  split
  · exact Silent.throw trivial
  · exact silent_modifySession _

theorem silent_lookupFidPair (fid1 fid2 : UInt32) :
    Silent (lookupFidPair fid1 fid2 : Handler W (Fid × Fid)) fun _ => True :=
  (silent_lookupFid fid1).bind fun _ _ => (silent_lookupFid fid2).bind fun _ _ => Silent.pure trivial

theorem silent_storeFile (fid : UInt32) (f : File) :
    Silent (storeFile fid f : Handler W Unit) fun _ => True := silent_modifySession _

theorem silent_checkOpen (f : File) : Silent (checkOpen f : Handler W Unit) fun _ => True :=
  Silent.ite (fun _ => Silent.pure trivial) fun _ => Silent.throw trivial

end Silent

section Stays

variable {P : MessageResponse → Prop} {A : α → Prop} {n : Nat}

variable {f : α → Handler W Unit}

theorem Stays.bind (hP : ∀ r, P r → Room cap 0 r) {m : Handler W α}
    (hm : Silent m A) (hf : ∀ a, A a → Stays cap P (f a)) : Stays cap P (m >>= f) := by
  intro x hx
  have hm' : Triple (fun y => y.response = x.response) m (fun a y => A a ∧ P y.response)
      fun e y => e.Calm ∧ Room cap 0 y.response := by
    refine Triple.imp (hm x.response) (fun _ hy => hy) ?_ ?_
    · rintro a y ⟨ha, hy⟩
      exact ⟨ha, hy ▸ hx⟩
    · rintro e y ⟨he, hy⟩
      exact ⟨he, hy ▸ hP _ hx⟩
  exact Triple.bind hm' (fun a => Triple.of_fact (hf a)) x rfl

variable {m : Handler W Unit}

theorem Stays.silent (hP : ∀ r, P r → Room cap 0 r) (hm : Silent m fun _ => True) : Stays cap P m := by
  intro x hx
  refine Triple.imp (hm x.response) (fun _ hy => hy) ?_ ?_ x rfl
  · rintro a y ⟨-, hy⟩
    exact hy ▸ hP _ hx
  · rintro e y ⟨he, hy⟩
    exact ⟨he, hy ▸ hP _ hx⟩

theorem Reserves.bind {m : Handler W α} (hm : Silent m A)
    (hf : ∀ a, A a → Reserves cap (f a)) : Reserves cap (m >>= f) :=
  Stays.bind (fun _ h => h.room) hm hf

theorem Reserves.silent (hm : Silent m fun _ => True) : Reserves cap m :=
  Stays.silent (fun _ h => h.room) hm

theorem Reserves.andThen {f : Unit → Handler W Unit} (hm : Reserves cap m)
    (hf : Silent (f ()) fun _ => True) : Reserves cap (m >>= f) :=
  Triple.bind hm fun _ => Stays.silent (fun _ h => h) hf

theorem Reserves.ite {c : Prop} [Decidable c] {m m' : Handler W Unit} (hm : c → Reserves cap m)
    (hn : ¬c → Reserves cap m') : Reserves cap (if c then m else m') := by
  by_cases hc : c
  · rw [if_pos hc]
    exact hm hc
  · rw [if_neg hc]
    exact hn hc

theorem Writes.bind {m : Handler W α} (hm : Silent m A)
    (hf : ∀ a, A a → Writes cap n (f a)) : Writes cap n (m >>= f) :=
  Stays.bind (fun _ h => h.less (Nat.zero_le n)) hm hf

theorem Writes.silent (hm : Silent m fun _ => True) : Writes cap n m :=
  Stays.silent (fun _ h => h.less (Nat.zero_le n)) hm

end Stays

section Puts

variable {k l n : Nat} {A : α → Prop}

/-- A step that uses up the room for `k` bytes. -/
def Puts (cap k : Nat) (m : Handler W α) (A : α → Prop) : Prop :=
  ∀ n, Triple (fun x => Room cap (n + k) x.response) m (fun a x => A a ∧ Room cap n x.response)
    fun e x => e.Calm ∧ Room cap 0 x.response

variable {m : Handler W α}

theorem Puts.bind {f : α → Handler W Unit} (hm : Puts cap k m A)
    (hf : ∀ a, A a → Writes cap n (f a)) : Writes cap (n + k) (m >>= f) :=
  Triple.bind (hm n) fun a => Triple.of_fact (hf a)

theorem Puts.last {m : Handler W Unit} {A : Unit → Prop} (hm : Puts cap k m A) : Writes cap (n + k) m :=
  Triple.imp (hm n) (fun _ hx => hx) (fun _ _ hx => hx.2.less (Nat.zero_le n)) fun _ _ hx => hx

theorem Puts.writes {m : Handler W Unit} {A : Unit → Prop} (hm : Puts cap k m A) : Writes cap k m := by
  have hlast : Writes cap (0 + k) m := hm.last
  rwa [Nat.zero_add] at hlast

variable {B : β → Prop}

theorem Puts.comp {f : α → Handler W β} (hm : Puts cap k m A)
    (hf : ∀ a, A a → Puts cap l (f a) B) : Puts cap (l + k) (m >>= f) B := by
  intro n
  rw [← Nat.add_assoc]
  exact Triple.bind (hm (n + l)) fun a => Triple.of_fact fun ha => hf a ha n

theorem Silent.puts (hm : Silent m A) : Puts cap 0 m A := by
  intro n x hx
  refine Triple.imp (hm x.response) (fun _ hy => hy) ?_ ?_ x rfl
  · rintro a y ⟨ha, hy⟩
    exact ⟨ha, hy ▸ hx⟩
  · rintro e y ⟨he, hy⟩
    exact ⟨he, hy ▸ hx.less (Nat.zero_le _)⟩

theorem Silent.bind_puts {f : α → Handler W β} (hm : Silent m A)
    (hf : ∀ a, A a → Puts cap k (f a) B) : Puts cap k (m >>= f) B := Puts.comp hm.puts hf

theorem Puts.more (hm : Puts cap k m A) (hl : k ≤ l) : Puts cap l m A := by
  intro n
  have hm' := hm (n + (l - k))
  rw [Nat.add_assoc, Nat.sub_add_cancel hl] at hm'
  exact Triple.imp hm' (fun _ hx => hx) (fun _ _ hx => ⟨hx.1, hx.2.less (Nat.le_add_right n _)⟩)
    fun _ _ hx => hx

theorem exec_reply_write (bytes : List Byte) (x : Exchange W) :
    exec (reply (SpanWriter.write bytes)) x =
      if x.response.maxSize < x.response.size + bytes.length then (.error .terminate, x)
      else (.ok (), { x with response := { x.response with payload := x.response.payload ++ bytes } }) := by
  have hwrite : exec (SpanWriter.write bytes) x.response =
      if x.response.maxSize < x.response.size + bytes.length then (.error .terminate, x.response)
      else (.ok (), { x.response with payload := x.response.payload ++ bytes }) := rfl
  change ((exec (SpanWriter.write bytes) x.response).1,
    { x with response := (exec (SpanWriter.write bytes) x.response).2 }) = _
  rw [hwrite]
  split <;> rfl

theorem puts_write {bytes : List Byte} (hk : bytes.length = k) :
    Puts cap k (reply (SpanWriter.write bytes) : Handler W Unit) fun _ => True := by
  intro n x hx
  have hfits := hx.fits
  have hres := hx.reserved
  rw [exec_reply_write, if_neg (by omega)]
  refine ⟨trivial, ?_, hres, hx.capped⟩
  simp only [MessageResponse.size, List.length_append] at hfits ⊢
  omega

theorem puts_u8 (v : UInt8) : Puts cap 1 (reply (SpanWriter.u8 v) : Handler W Unit) fun _ => True :=
  puts_write (leBytes_length 1 _)

theorem puts_u16 (v : UInt16) : Puts cap 2 (reply (SpanWriter.u16 v) : Handler W Unit) fun _ => True :=
  puts_write (leBytes_length 2 _)

theorem puts_u32 (v : UInt32) : Puts cap 4 (reply (SpanWriter.u32 v) : Handler W Unit) fun _ => True :=
  puts_write (leBytes_length 4 _)

theorem puts_u64 (v : UInt64) : Puts cap 8 (reply (SpanWriter.u64 v) : Handler W Unit) fun _ => True :=
  puts_write (leBytes_length 8 _)

theorem puts_qid (q : Qid) : Puts cap 13 (reply (SpanWriter.qid q) : Handler W Unit) fun _ => True :=
  puts_write (qidBytes_length q)

theorem puts_next (count : Nat) (data : List Byte) :
    Puts cap count (reply (SpanWriter.next count data) : Handler W Unit) fun _ => True := by
  refine puts_write ?_
  rw [List.length_append, List.length_take, List.length_replicate]
  omega

theorem puts_writeReserved : Puts cap 32 (writeReserved : Handler W Unit) fun _ => True :=
  (puts_u64 0).comp fun _ _ => (puts_u64 0).comp fun _ _ => (puts_u64 0).comp fun _ _ => puts_u64 0

theorem reply_string {s : List Byte} (hs : s.length < UInt16.size) :
    (reply (SpanWriter.string s) : Handler W Unit) =
      reply (SpanWriter.u16 (UInt16.ofNat s.length)) >>= fun _ => reply (SpanWriter.write s) := by
  rw [SpanWriter.string, if_neg (Nat.not_le.mpr hs)]
  exact zoom_bind ⟨fun _ _ => rfl, fun _ _ _ => rfl⟩ _ _

theorem puts_string {s : List Byte} (hs : s.length < UInt16.size) :
    Puts cap (s.length + 2) (reply (SpanWriter.string s) : Handler W Unit) fun _ => True := by
  rw [reply_string hs]
  exact (puts_u16 _).comp fun _ _ => puts_write rfl

theorem puts_stringSpace (hk : 2 ≤ k) {m : Nat → Handler W β}
    (h : ∀ space, Puts cap k (m space) B) : Puts cap k (stringSpace >>= m) B := by
  intro n x hx
  have hfits := hx.fits
  have hres := hx.reserved
  have hspace : ¬x.response.maxSize < x.response.size + 2 := by omega
  rw [exec_bind, stringSpace, exec_ofFunction, if_neg hspace]
  exact h _ n x hx

theorem Writes.dataSpace {count : Nat} (hn : count + 4 ≤ n) {f : Unit → Handler W Unit}
    (h : Writes cap n (f ())) : Writes cap n (dataSpace count >>= f) := by
  intro x hx
  have hfits := hx.fits
  have hres := hx.reserved
  have hspace : ¬x.response.maxSize < x.response.size + 4 + count := by omega
  rw [exec_bind, Plan9.dataSpace, exec_ofFunction, if_neg hspace]
  exact h x hx

/-- `EnsureSize` grants a size. -/
def EnsureFits (r : MessageResponse) (s : Session W) (size : Nat) : Prop :=
  size ≤ s.negotiatedSize.toNat ∧ (size ≤ r.maxSize ∨ r.allowResize = true)

instance EnsureFits.decidable (r : MessageResponse) (s : Session W) (size : Nat) :
    Decidable (EnsureFits r s size) := inferInstanceAs (Decidable (_ ∧ _))

theorem exec_ensureSize {t : MessageType} {extra size : Nat} {x : Exchange W}
    (hsize : getMessageSize t + extra = size) (hpay : x.response.payload = []) :
    exec (ensureSize t extra) x =
      if EnsureFits x.response x.session size then (.ok (), { x with response :=
          { x.response with maxSize := max x.response.maxSize size, reserved := size } })
      else
        (.error (.thrown .inval), x) := by
  have hexec : exec (Plan9.ensureSize t extra) x =
      ((exec (SpanWriter.ensureSize t extra x.session.negotiatedSize.toNat) x.response).1,
        { x with response :=
            (exec (SpanWriter.ensureSize t extra x.session.negotiatedSize.toNat) x.response).2 }) := rfl
  rw [hexec, SpanWriter.ensureSize, exec_ofFunction]
  simp only [hsize]
  by_cases hnegotiated : x.session.negotiatedSize.toNat < size
  · rw [if_pos hnegotiated, if_neg fun h => by have := h.1; omega]
  · rw [if_neg hnegotiated]
    by_cases hmax : x.response.maxSize < size
    · rw [if_pos hmax]
      cases hresize : x.response.allowResize with
      | true =>
        rw [if_pos rfl, if_pos ⟨by omega, .inr hresize⟩, max_eq_right (by omega), hpay]
      | false =>
        rw [if_neg (by decide), if_neg fun h => ?_]
        rcases h.2 with h | h
        · omega
        · rw [hresize] at h
          cases h
    · rw [if_neg hmax, if_pos ⟨by omega, .inl (by omega)⟩, max_eq_left (by omega)]

theorem Reserves.ensureSize (hcap : UInt32.size ≤ cap + 1) {t : MessageType} {extra : Nat}
    (hn : getMessageSize t + extra = headerSize + n) {f : Unit → Handler W Unit}
    (h : Writes cap n (f ())) : Reserves cap (ensureSize t extra >>= f) := by
  intro x hx
  have hnegotiated : x.session.negotiatedSize.toNat < UInt32.size := x.session.negotiatedSize.toNat_lt
  have hpay := hx.payload
  have hcapped := hx.capped
  rw [exec_bind, exec_ensureSize hn hpay]
  split
  · rename_i hfits
    have hsize := hfits.1
    refine h _ ⟨?_, le_max_right _ _, max_le hcapped (by omega)⟩
    simp only [MessageResponse.size, hpay]
    exact Nat.le_refl _
  · exact ⟨trivial, hx.room⟩

end Puts

/-- A handler that reads its fields, which the body holds if and only if `C`. If it does,
`Q` says how the handler ends. -/
def Decoded (r : MessageResponse) (s : Session W) (C : Prop) (b : List Byte) (m : Handler W Unit)
    (Q : Except Stop Unit × Exchange W → Prop) : Prop :=
  ∀ x : Exchange W, x.session = s → x.reader = b → x.response = r →
    (C → Q (exec m x)) ∧ (¬C → (exec m x).1 = .error .failFast ∧ (exec m x).2.response = r)

def Fine (cap : Nat) (r : MessageResponse) (result : Except Stop Unit × Exchange W) : Prop :=
  Blank cap r → Ends (fun _ y => Room cap 0 y.response) (fun e y => e.Calm ∧ Room cap 0 y.response) result

abbrev Handles (cap : Nat) (r : MessageResponse) (s : Session W) (C : Prop) (b : List Byte)
    (m : Handler W Unit) : Prop := Decoded r s C b m (Fine cap r)

section Decoded

variable {r : MessageResponse} {s : Session W} {C : Prop} {b : List Byte} {f : α → Handler W Unit} {n : Nat}
variable {Q : Except Stop Unit × Exchange W → Prop}

variable {m : Handler W Unit}

theorem Handles.done (h : Reserves cap m) : Handles cap r s True b m := by
  intro x _ _ hx
  refine ⟨fun _ hblank => ?_, fun hC => absurd trivial hC⟩
  subst hx
  exact h x hblank

theorem Handles.throw {e : Stop} (he : e.Calm) :
    Handles cap r s True b (MonadExcept.throw e : Handler W Unit) :=
  Handles.done (Reserves.silent (Silent.throw he))

theorem Decoded.congr {C' : Prop} (hC : C ↔ C') (h : Decoded r s C b m Q) : Decoded r s C' b m Q := by
  rw [← propext hC]
  exact h

theorem Decoded.imp {Q' : Except Stop Unit × Exchange W → Prop}
    (h : Decoded r s C b m Q) (hQ : ∀ result, Q result → Q' result) : Decoded r s C b m Q' := by
  intro x hs hb hx
  obtain ⟨hcov, hshort⟩ := h x hs hb hx
  exact ⟨fun hC => hQ _ (hcov hC), hshort⟩

theorem Decoded.session {f : Session W → Handler W Unit} (h : Decoded r s C b (f s) Q) :
    Decoded r s C b (Plan9.session >>= f) Q := by
  intro x hs hb hx
  have hexec : exec (Plan9.session >>= f) x = exec (f s) x := by
    rw [exec_bind, ← hs]
    rfl
  rw [hexec]
  exact h x hs hb hx

theorem exec_read_bind (d : Decoder α) (f : α → Handler W Unit) (x : Exchange W) :
    exec (read d >>= f) x = andThen ((exec d x.reader).1, { x with reader := (exec d x.reader).2 }) f := by
  rw [exec_bind]
  rfl

theorem Decoded.read {d : Decoder α} {H : Prop} {a : α} {b' : List Byte}
    (hok : H → exec d b = (.ok a, b')) (hshort : ¬H → (exec d b).1 = .error .failFast)
    (h : H → Decoded r s C b' (f a) Q) : Decoded r s (H ∧ C) b (read d >>= f) Q := by
  intro x hs hb hx
  rw [exec_read_bind, hb]
  by_cases hH : H
  · rw [hok hH]
    have hrest := h hH { x with reader := b' } hs rfl hx
    exact ⟨fun hC => hrest.1 hC.2, fun hC => hrest.2 fun hC' => hC ⟨hH, hC'⟩⟩
  · rw [hshort hH]
    exact ⟨fun hC => absurd hC.1 hH, fun _ => ⟨rfl, hx⟩⟩

theorem Decoded.fixed {g : List Byte → α} (h : n ≤ b.length → Decoded r s C (b.drop n) (f (g (b.take n))) Q) :
    Decoded r s (n ≤ b.length ∧ C) b
      (Plan9.read (SpanReader.read n >>= fun s => (return g s : Decoder α)) >>= f) Q := by
  refine Decoded.read ?_ ?_ h
  · intro hn
    rw [SpanReader.exec_read_bind, if_neg (Nat.not_lt.mpr hn)]
  · intro hn
    rw [SpanReader.exec_read_bind, if_pos (Nat.not_le.mp hn)]

theorem Decoded.u8 {f : UInt8 → Handler W Unit}
    (h : Decoded r s C (b.drop 1) (f (UInt8.ofNat (leValue (b.take 1)))) Q) :
    Decoded r s (1 ≤ b.length ∧ C) b (Plan9.read SpanReader.u8 >>= f) Q := Decoded.fixed fun _ => h

theorem Decoded.u16 {f : UInt16 → Handler W Unit}
    (h : Decoded r s C (b.drop 2) (f (UInt16.ofNat (leValue (b.take 2)))) Q) :
    Decoded r s (2 ≤ b.length ∧ C) b (Plan9.read SpanReader.u16 >>= f) Q := Decoded.fixed fun _ => h

theorem Decoded.u32 {f : UInt32 → Handler W Unit}
    (h : Decoded r s C (b.drop 4) (f (UInt32.ofNat (leValue (b.take 4)))) Q) :
    Decoded r s (4 ≤ b.length ∧ C) b (Plan9.read SpanReader.u32 >>= f) Q := Decoded.fixed fun _ => h

theorem Decoded.u64 {f : UInt64 → Handler W Unit}
    (h : Decoded r s C (b.drop 8) (f (UInt64.ofNat (leValue (b.take 8)))) Q) :
    Decoded r s (8 ≤ b.length ∧ C) b (Plan9.read SpanReader.u64 >>= f) Q := Decoded.fixed fun _ => h

theorem Decoded.data {f : List Byte → Handler W Unit} (h : ∀ data, Decoded r s C (b.drop n) (f data) Q) :
    Decoded r s (n ≤ b.length ∧ C) b (Plan9.read (SpanReader.read n) >>= f) Q := by
  have hread : SpanReader.read n = SpanReader.read n >>= fun s => (return s : Decoder (List Byte)) :=
    (bind_pure _).symm
  rw [hread]
  exact Decoded.fixed fun _ => h _

theorem Decoded.string {f : Text → Handler W Unit}
    (h : HasString b → Decoded r s C (afterString b) (f (stringAt b)) Q) :
    Decoded r s (HasString b ∧ C) b (Plan9.read SpanReader.string >>= f) Q :=
  Decoded.read (fun hb => SpanReader.exec_string hb) (fun hb => SpanReader.exec_string_short hb) h

section

variable (hQ : ∀ y : Exchange W, y.response = r → Q (.error (.thrown .inval), y))
include hQ

theorem Decoded.name
    {f : Component → Handler W Unit} (h : ∀ c, Decoded r s C (afterString b) (f c) Q) :
    Decoded r s (HasString b ∧ (isName (stringAt b).1 = true → C)) b (Plan9.read SpanReader.name >>= f) Q := by
  intro x hs hb hx
  rw [exec_read_bind, hb]
  by_cases hstring : HasString b
  · by_cases hname : isName (stringAt b).1 = true
    · rw [SpanReader.exec_name hstring hname]
      have hrest := h ⟨_, hname, (stringAt b).2⟩ { x with reader := afterString b } hs rfl hx
      exact ⟨fun hC => hrest.1 (hC.2 hname), fun hC => hrest.2 fun hC' => hC ⟨hstring, fun _ => hC'⟩⟩
    · rw [SpanReader.exec_name_bad hstring hname]
      exact ⟨fun _ => hQ _ hx, fun hC => absurd ⟨hstring, fun h => absurd h hname⟩ hC⟩
  · rw [SpanReader.exec_name_short hstring]
    exact ⟨fun hC => absurd hC.1 hstring, fun _ => ⟨rfl, hx⟩⟩

theorem Decoded.names
    {f : List Component → Handler W Unit}
    (h : ∀ (l : List Component) (b : List Byte), l.length = n → Decoded r s True b (f l) Q) :
    Decoded r s (Covered (List.replicate n .name) b) b (Plan9.read (SpanReader.names n) >>= f) Q := by
  induction n generalizing b f with
  | zero => exact h [] b rfl
  | succ n ih =>
    rw [SpanReader.names, read_bind, bind_assoc]
    refine Decoded.name hQ fun c => ?_
    rw [read_bind, bind_assoc]
    refine ih fun l b' hl => ?_
    exact h (c :: l) b' (by rw [List.length_cons, hl])

end

theorem fine_calm {e : Stop} (he : e.Calm) {y : Exchange W} (hy : y.response = r) :
    Fine cap r ((.error e, y) : Except Stop Unit × Exchange W) := by
  intro hblank
  refine ⟨he, ?_⟩
  rw [hy]
  exact hblank.room

theorem fine_inval (y : Exchange W) (hy : y.response = r) :
    Fine cap r ((.error (.thrown .inval), y) : Except Stop Unit × Exchange W) :=
  fine_calm (by trivial) hy

theorem Handles.name {f : Component → Handler W Unit} (h : ∀ c, Handles cap r s C (afterString b) (f c)) :
    Handles cap r s (HasString b ∧ (isName (stringAt b).1 = true → C)) b
      (Plan9.read SpanReader.name >>= f) := Decoded.name fine_inval h

end Decoded

end WslPlus.Plan9

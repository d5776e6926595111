import WslPlus.Plan9.Overrun

/-!
# Which messages are answered

A message from a socket is answered if and only if its body is long enough for what is
read from it, its reply does not run past the buffer, and it does not wait for itself.
Otherwise the server aborts or the message is never answered.
-/

namespace WslPlus.Plan9

open List Program

variable {W : Type} {s : Session W} {b : List Byte} {env : Environment W}

namespace MessageResponse

variable (r : MessageResponse) (type : UInt8) (tag : UInt16)

theorem result_length : (r.result type tag).length = r.size := by
  simp only [result, size, length_append, leBytes_length, length_singleton, headerSize]

theorem size_result : leValue ((r.result type tag).take 4) = r.size % UInt32.size := by
  have htake : (r.result type tag).take 4 = leBytes 4 r.size := by
    rw [result, append_assoc, append_assoc]
    exact take_left' (leBytes_length 4 r.size)
  have hpow : UInt32.size = 256 ^ 4 := by decide
  rw [htake, leValue_leBytes, hpow]

theorem messageCode_result : messageCode (r.result type tag) = type := by
  have hdrop : (r.result type tag).drop 4 = [type] ++ (leBytes 2 tag.toNat ++ r.payload) := by
    rw [result, append_assoc, append_assoc]
    exact drop_left' (leBytes_length 4 r.size)
  have htake : ([type] ++ (leBytes 2 tag.toNat ++ r.payload)).take 1 = [type] := rfl
  rw [messageCode, hdrop, htake]
  simp [leValue]

theorem messageTag_result : messageTag (r.result type tag) = tag := by
  have hdrop : (r.result type tag).drop 5 = leBytes 2 tag.toNat ++ r.payload := by
    rw [result, append_assoc]
    exact drop_left' (by rw [length_append, leBytes_length]; rfl)
  have htag : tag.toNat < 256 ^ 2 := tag.toNat_lt
  rw [messageTag, hdrop, take_left' (leBytes_length 2 _), leValue_leBytes, Nat.mod_eq_of_lt htag,
    UInt16.ofNat_toNat]

theorem messageBody_result : messageBody (r.result type tag) = r.payload := by
  refine drop_left' ?_
  rw [length_append, length_append, leBytes_length, leBytes_length]
  rfl

end MessageResponse

theorem frame_eq_result (type : MessageType) (tag : UInt16) (body : List Byte) :
    frame type tag body = MessageResponse.result ⟨0, false, 0, body⟩ type.code tag := rfl

def handled (env : Environment W) (message : List Byte) (s : Session W) : Except Stop Unit × Exchange W :=
  exec (handleMessage env (messageType message))
    ⟨s, messageTag message, messageBody message, .initial staticBufferSize true⟩

/-- The response has its own length as size, the tag of the message, and the type after that
of the message, or `Rlerror` if the handler failed. -/
def Answered (env : Environment W) (message : List Byte) (s : Session W) : Prop :=
  ∃ response, (processSocketMessage env message s).1 = .answer response ∧
    leValue (response.take 4) = response.length ∧ messageTag response = messageTag message ∧
    messageCode response =
      match (handled env message s).1 with
      | .ok _ => messageCode message + 1
      | .error _ => MessageType.lerror.code + 1

def Sends (result : Except Stop Unit × Exchange W) : Prop :=
  match result.1 with
  | .ok _ => result.2.response.size < UInt32.size
  | .error e => e.Calm

theorem answer_result {type : UInt8} {tag : UInt16} {r : MessageResponse} {message : List Byte}
    (htag : tag = messageTag message) :
    (∃ response, Ending.answer (r.result type tag) = .answer response ∧
      leValue (response.take 4) = response.length ∧ messageTag response = messageTag message ∧
      messageCode response = type) ↔ r.size < UInt32.size := by
  constructor
  · rintro ⟨response, heq, hsize, -, -⟩
    cases heq
    rw [r.size_result, r.result_length] at hsize
    rw [← hsize]
    exact Nat.mod_lt _ (by decide)
  · intro hsize
    refine ⟨_, rfl, ?_, ?_, r.messageCode_result type tag⟩
    · rw [r.size_result, r.result_length, Nat.mod_eq_of_lt hsize]
    · rw [r.messageTag_result, htag]

theorem respond_calm {e : Stop} (he : e.Calm) (type : UInt8) (tag : UInt16) (response : MessageResponse) :
    ∃ w : MessageResponse, w.size = 11 ∧
      respond type tag (.initial staticBufferSize true) (.error e) response =
        .answer (w.result (MessageType.lerror.code + 1) tag) := by
  cases e with
  | error e => exact ⟨_, rfl, rfl⟩
  | thrown e => exact ⟨_, rfl, rfl⟩
  | failFast => exact he.elim
  | terminate => exact he.elim
  | stuck => exact he.elim

theorem answered_iff_sends {message : List Byte} (h : headerSize ≤ message.length) :
    Answered env message s ↔ Sends (handled env message s) := by
  have hexec : (processSocketMessage env message s).1 =
      respond (messageCode message) (messageTag message) (.initial staticBufferSize true)
        (handled env message s).1 (handled env message s).2.response := by
    rw [processSocketMessage, processMessage_eq h]
    rfl
  rw [Answered, hexec]
  rcases handled env message s with ⟨result, y⟩
  cases result with
  | ok a => exact answer_result rfl
  | error e =>
    by_cases he : e.Calm
    · obtain ⟨w, hsize, hrespond⟩ := respond_calm he (messageCode message) (messageTag message) y.response
      change (∃ response, respond _ _ _ (.error e) y.response = _ ∧ _) ↔ e.Calm
      rw [hrespond, answer_result rfl, hsize]
      exact ⟨fun _ => he, fun _ => by decide⟩
    · refine ⟨?_, fun h => absurd h he⟩
      rintro ⟨response, hrespond, -⟩
      cases e with
      | error e => exact absurd trivial he
      | thrown e => exact absurd trivial he
      | failFast => cases hrespond
      | terminate => cases hrespond
      | stuck => cases hrespond

section Sends

variable {cap : Nat} {r : MessageResponse}

theorem Fine.sends {result : Except Stop Unit × Exchange W} (h : Fine cap r result) (hblank : Blank cap r)
    (hcap : cap < UInt32.size) : Sends result := by
  have h' := h hblank
  rcases result with ⟨e, y⟩
  cases e with
  | ok a =>
    have hfits := Room.fits h'
    have hres := Room.reserved h'
    have hcapped := Room.capped h'
    change y.response.size < UInt32.size
    omega
  | error e => exact h'.1

theorem Spills.sends_iff {size maxSize : Nat} {bytes : List Byte} {result : Except Stop Unit × Exchange W}
    (h : Spills size maxSize bytes result) (hmax : maxSize < UInt32.size) :
    Sends result ↔ size + bytes.length ≤ maxSize := by
  obtain ⟨y, rfl, hy⟩ := h
  have hleft := hy.left
  have hbuf := hy.buffer
  rw [exec_reply_write]
  split
  · exact ⟨False.elim, fun h => by omega⟩
  · refine ⟨fun _ => by omega, fun h => ?_⟩
    simp only [Sends, MessageResponse.size, length_append] at *
    omega

theorem Decoded.sends {C P : Prop} {m : Handler W Unit}
    (h : Decoded r s C b m fun result => Sends result ↔ P) (x : Exchange W) (hs : x.session = s)
    (hb : x.reader = b) (hx : x.response = r) : Sends (exec m x) ↔ C ∧ P := by
  obtain ⟨hcov, hshort⟩ := h x hs hb hx
  by_cases hC : C
  · have hiff : Sends (exec m x) ↔ P := hcov hC
    rw [hiff]
    exact ⟨fun hP => ⟨hC, hP⟩, fun h => h.2⟩
  · obtain ⟨hstop, -⟩ := hshort hC
    refine ⟨fun hsends => ?_, fun h => absurd h.1 hC⟩
    rw [Sends, hstop] at hsends
    exact hsends.elim

end Sends

/-- The tag of the request that a `Tflush` waits for. -/
def flushTag (b : List Byte) : UInt16 := UInt16.ofNat (leValue (b.take 2))

theorem sends_flush (x : Exchange W) (hx : x.response.size < UInt32.size) :
    Sends (exec handleFlush x) ↔ Covered [.fixed 2] x.reader ∧
      (cancelRequest (flushTag x.reader) x.session.requests = none → x.tag ≠ flushTag x.reader) := by
  rw [handleFlush, exec_read_bind, SpanReader.exec_u16]
  by_cases hshort : x.reader.length < 2
  · rw [if_pos hshort]
    exact ⟨False.elim, fun h => by have := h.1.1; omega⟩
  · rw [if_neg hshort]
    have hcov : Covered [.fixed 2] x.reader := ⟨by omega, trivial⟩
    have hflush : UInt16.ofNat (leValue (x.reader.take 2)) = flushTag x.reader := rfl
    rw [hflush]
    simp only [andThen, exec_bind, session, exec_ofFunction]
    cases cancelRequest (flushTag x.reader) x.session.requests with
    | some requests =>
      refine ⟨fun _ => ⟨hcov, ?_⟩, fun _ => hx⟩
      intro h
      cases h
    | none =>
      change Sends (exec (if x.tag = flushTag x.reader then throw .stuck else return ())
        { x with reader := x.reader.drop 2 }) ↔ _
      by_cases htag : x.tag = flushTag x.reader
      · rw [if_pos htag]
        exact ⟨False.elim, fun h => absurd htag (h.2 rfl)⟩
      · rw [if_neg htag]
        exact ⟨fun _ => ⟨hcov, fun _ => htag⟩, fun _ => hx⟩

/-- The reply to a message fits in the buffer on the stack, and a `Tflush` does not wait for
itself. -/
def ReplyFits (env : Environment W) (s : Session W) (tag : UInt16) (type : Option MessageType)
    (b : List Byte) : Prop :=
  match type with
  | some .getlock => onOpenFile s b = true → 30 ≤ s.negotiatedSize.toNat →
      30 + (lockClientId b).length ≤ staticBufferSize
  | some .read => 11 ≤ s.negotiatedSize.toNat →
      ∀ n, emptyRead env s b = some n → 11 + n ≤ staticBufferSize
  | some .flush => cancelRequest (flushTag b) s.requests = none → tag ≠ flushTag b
  | _ => True

theorem ensureFits_static (s : Session W) (size : Nat) :
    EnsureFits (.initial staticBufferSize true) s size ↔ size ≤ s.negotiatedSize.toNat :=
  ⟨fun h => h.1, fun h => ⟨h, .inr rfl⟩⟩

theorem sends_iff (hlinks : env.kernel.ShortLinks) (tag : UInt16) (type : Option MessageType) :
    Sends (exec (handleMessage env type) ⟨s, tag, b, .initial staticBufferSize true⟩) ↔
      BodyCovered env s type b ∧ ReplyFits env s tag type b := by
  have hcap : UInt32.size ≤ UInt32.size - 1 + 1 := by decide
  have hblank : Blank (UInt32.size - 1) (.initial staticBufferSize true) :=
    ⟨rfl, rfl, by decide, by decide⟩
  have hfield {t : MessageType} (ht : t ≠ .wopen) (P : Prop) :
      BodyCovered env s (some t) b ∧ P ↔ Covered (fieldsOf s t b) b ∧ P :=
    ⟨fun h => ⟨h.1.1, h.2⟩, fun h => ⟨⟨h.1, fun hne => absurd hne ht⟩, h.2⟩⟩
  by_cases hread : type = some .read
  · subst hread
    rw [hfield (by decide)]
    refine Decoded.sends (decoded_read hcap hblank ?_ ?_) _ rfl rfl rfl
    · intro hnone result hfine
      refine ⟨fun _ hfits n hn => ?_, fun _ => hfine.sends hblank (by decide)⟩
      rw [hnone ((ensureFits_static s 11).mpr hfits)] at hn
      cases hn
    · intro hcov hfits n hn bytes hlen result hspills
      rw [hspills.sends_iff (by decide), hlen]
      refine ⟨fun hle _ m hm => ?_, fun h => h hfits.1 n hn⟩
      rw [hn] at hm
      cases hm
      exact hle
  by_cases hlock : type = some .getlock
  · subst hlock
    rw [hfield (by decide)]
    refine Decoded.sends (decoded_getLock hblank ?_ ?_) _ rfl rfl rfl
    · intro hcov hopen hfits result hspills
      rw [hspills.sends_iff (by decide)]
      exact ⟨fun hle _ _ => hle, fun h => h hopen hfits.1⟩
    · intro hdecline result hres
      obtain ⟨e, y, rfl, he, hy⟩ := hres
      refine ⟨fun _ hopen hfits => ?_, fun _ => (fine_calm he hy).sends hblank (by decide)⟩
      exact absurd ((ensureFits_static s 30).mpr hfits) (hdecline hopen)
  by_cases hflush : type = some .flush
  · subst hflush
    rw [hfield (by decide)]
    have hsize : (MessageResponse.initial staticBufferSize true).size < UInt32.size := by decide
    exact sends_flush _ hsize
  · have hfits : ReplyFits env s tag type b := by
      unfold ReplyFits
      split
      · exact absurd rfl hlock
      · exact absurd rfl hread
      · exact absurd rfl hflush
      · trivial
    have hhandles : Handles (UInt32.size - 1) (.initial staticBufferSize true) s
        (BodyCovered env s type b) b (handleMessage env type) :=
      handles_handleMessage hcap hlinks hread hlock hflush
    exact Decoded.sends (hhandles.imp fun result hfine =>
      iff_of_true (hfine.sends hblank (by decide)) hfits) _ rfl rfl rfl

/-- A framed message is answered exactly if its body is covered and its reply fits. -/
theorem message_answered_iff (env : Environment W) (hlinks : env.kernel.ShortLinks) (s : Session W)
    {message : List Byte} (h : headerSize ≤ message.length) :
    Answered env message s ↔
      BodyCovered env s (messageType message) (messageBody message) ∧
        ReplyFits env s (messageTag message) (messageType message) (messageBody message) := by
  rw [answered_iff_sends h]
  exact sends_iff hlinks (messageTag message) (messageType message)

theorem version_answered :
    Answered Environment.plain
      (frame .version 0xFFFF (leBytes 4 8192 ++ frameString protocolVersionL)) (Session.initial false ()) :=
  (message_answered_iff Environment.plain shortLinks_plain (Session.initial false ()) (by decide)).mpr
    ⟨⟨by decide, nofun⟩, trivial⟩

/-- A `Tclunk` without a fid aborts the server. -/
theorem short_clunk_aborts : ¬Answered Environment.plain (frame .clunk 1 []) (Session.initial false ()) := by
  rintro ⟨response, hanswer, -⟩
  have habort : (processSocketMessage Environment.plain (frame .clunk 1 []) (Session.initial false ())).1 =
      .abort := by decide
  rw [habort] at hanswer
  cases hanswer

end WslPlus.Plan9

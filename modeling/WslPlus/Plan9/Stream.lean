import WslPlus.Lib.Transition
import WslPlus.Lib.Window
import WslPlus.Plan9.Requests

/-!
# Messages from a socket

The receive buffer is filled in as many reads as it takes, and the window of what was
received but not handed out moves through it. However the reads split the stream, the
messages that are handed out are those of the stream.
-/

namespace WslPlus.Plan9

open List

/-- The bytes that are still to come, and how often the socket was read. -/
structure Socket where
  rest : List Byte
  reads : Nat

def recvAsync (split : Nat → Nat) (space : Nat) (k : Socket) : List Byte × Socket :=
  let n := min (max 1 (split k.reads)) space
  (k.rest.take n, ⟨k.rest.drop n, k.reads + 1⟩)

theorem recvAsync_length (split : Nat → Nat) (space : Nat) (k : Socket) :
    (recvAsync split space k).1.length ≤ space := by
  simp only [recvAsync, length_take]
  omega

theorem recvAsync_rest (split : Nat → Nat) (space : Nat) (k : Socket) :
    (recvAsync split space k).1 ++ (recvAsync split space k).2.rest = k.rest :=
  take_append_drop _ _

theorem recvAsync_empty {split : Nat → Nat} {space : Nat} {k : Socket} (hspace : 0 < space)
    (h : (recvAsync split space k).1.length = 0) : k.rest = [] := by
  simp only [recvAsync, length_take] at h
  exact length_eq_zero_iff.mp (by omega)

section Receive

variable (split : Nat → Nat)

/-- The loop of `FillData`. -/
def fillLoop (required : Nat) (w : Window Byte) (k : Socket) : Window Byte × Socket :=
  if w.count < required then
    if _h : (recvAsync split w.space k).1.length = 0 then
      (w, (recvAsync split w.space k).2)
    else
      fillLoop required (w.extend (recvAsync split w.space k).1 (recvAsync_length split w.space k))
        (recvAsync split w.space k).2
  else
    (w, k)
termination_by k.rest.length
decreasing_by
  have hrest := congrArg List.length (recvAsync_rest split w.space k)
  rw [length_append] at hrest
  omega

/-- `FillData`; the caller looks at the length that was reached. -/
def fillData (required : Nat) (w : Window Byte) (k : Socket) : Window Byte × Socket :=
  fillLoop split required w.moveToFront k

def fillIfShort (required : Nat) (w : Window Byte) (k : Socket) : Window Byte × Socket :=
  if w.count < required then fillData split required w k else (w, k)

/-- What `NextMessage` ends with: a message, the end of the stream, or an exception. -/
inductive Received where
  | message (bytes : List Byte)
  | ended
  | invalid

def nextMessage (negotiatedSize : Nat) (w : Window Byte) (k : Socket) : Received × Window Byte × Socket :=
  let filled := fillIfShort split 4 w k
  let w := filled.1
  let k := filled.2
  if w.count < 4 then
    (.ended, w, k)
  else
    let messageSize := leValue (w.data.take 4)
    if messageSize < headerSize ∨ negotiatedSize < messageSize then
      (.invalid, w, k)
    else
      let filled := fillIfShort split messageSize w k
      let w := filled.1
      let k := filled.2
      if h : messageSize ≤ w.count then
        (.message (w.data.take messageSize), w.skip messageSize h, k)
      else
        (.ended, w, k)

/-- The loop of `Run` for `n` messages: those that it hands to the handler, and whether it
has ended. The negotiated size may change from one message to the next. -/
def receive (negotiatedSize : Nat → Nat) : Nat → Nat → Window Byte → Socket → List (List Byte) × Bool
  | 0, _, _, _ => ([], false)
  | n + 1, i, w, k =>
    match nextMessage split (negotiatedSize i) w k with
    | (.message bytes, w, k) =>
      let rest := receive negotiatedSize n (i + 1) w k
      (bytes :: rest.1, rest.2)
    | (.ended, _, _) => ([], true)
    | (.invalid, _, _) => ([], true)

end Receive

def requestBuffer : Window Byte where
  buffer := List.replicate maximumRequestBufferSize.toNat 0
  start := 0
  count := 0
  inside := Nat.zero_le _

structure Framed (negotiatedSize : Nat) (message : List Byte) : Prop where
  size : leValue (message.take 4) = message.length
  header : headerSize ≤ message.length
  negotiated : message.length ≤ negotiatedSize

instance Framed.decidable (negotiatedSize : Nat) (message : List Byte) :
    Decidable (Framed negotiatedSize message) :=
  decidable_of_iff (leValue (message.take 4) = message.length ∧ headerSize ≤ message.length ∧
    message.length ≤ negotiatedSize) ⟨fun h => ⟨h.1, h.2.1, h.2.2⟩, fun h => ⟨h.size, h.header, h.negotiated⟩⟩

section Spec

variable (split : Nat → Nat)

/-- What was received and what is to come, and a buffer of the right length. -/
structure Holds (stream : List Byte) (p : Window Byte × Socket) : Prop where
  stream : p.1.data ++ p.2.rest = stream
  buffer : p.1.buffer.length = maximumRequestBufferSize.toNat

variable {stream : List Byte} {w : Window Byte} {k : Socket}

theorem fillLoop_holds (required : Nat) (hrequired : required ≤ maximumRequestBufferSize.toNat)
    (hstart : w.start = 0) (h : Holds stream (w, k)) :
    Holds stream (fillLoop split required w k) ∧
      (required ≤ stream.length → required ≤ (fillLoop split required w k).1.count) := by
  fun_induction fillLoop split required w k with
  | case1 w k hshort hempty =>
    have hspace : 0 < w.space := by
      have hbuf := h.buffer
      simp only [Window.space, hstart] at *
      omega
    have hend := recvAsync_empty hspace hempty
    have hafter : (recvAsync split w.space k).2.rest = [] := by
      have hrest := recvAsync_rest split w.space k
      rw [length_eq_zero_iff.mp hempty, hend] at hrest
      exact hrest
    have hstream := h.stream
    have hlen := w.length_data
    simp only [hend, append_nil] at hstream
    refine ⟨⟨?_, h.buffer⟩, fun henough => ?_⟩
    · simp only [hafter, append_nil]
      exact hstream
    · rw [← hstream, hlen] at henough
      exact henough
  | case2 w k hshort hsome ih =>
    have hrest := recvAsync_rest split w.space k
    refine ih hstart ⟨?_, ?_⟩
    · change (w.extend _ (recvAsync_length split w.space k)).data ++ (recvAsync split w.space k).2.rest = stream
      rw [Window.data_extend, append_assoc, hrest]
      exact h.stream
    · change (w.extend _ (recvAsync_length split w.space k)).buffer.length = _
      rw [Window.length_extend]
      exact h.buffer
  | case3 w k henough => exact ⟨h, fun _ => Nat.not_lt.mp henough⟩

theorem fillIfShort_holds (required : Nat) (hrequired : required ≤ maximumRequestBufferSize.toNat)
    (h : Holds stream (w, k)) :
    Holds stream (fillIfShort split required w k) ∧
      (required ≤ stream.length → required ≤ (fillIfShort split required w k).1.count) := by
  unfold fillIfShort
  split
  · refine fillLoop_holds split required hrequired rfl ⟨?_, ?_⟩
    · change w.moveToFront.data ++ k.rest = stream
      rw [Window.data_moveToFront]
      exact h.stream
    · change w.moveToFront.buffer.length = _
      rw [Window.length_moveToFront]
      exact h.buffer
  · rename_i henough
    exact ⟨h, fun _ => Nat.not_lt.mp henough⟩

omit split in
theorem Holds.take {p : Window Byte × Socket} (h : Holds stream p) {n : Nat}
    (hn : n ≤ p.1.count) : p.1.data.take n = stream.take n := by
  rw [← h.stream, take_append_of_le_length (by rw [Window.length_data]; exact hn)]

theorem nextMessage_message {message rest : List Byte} {negotiatedSize : Nat}
    (hnegotiated : negotiatedSize ≤ maximumRequestBufferSize.toNat) (hframed : Framed negotiatedSize message)
    (h : Holds (message ++ rest) (w, k)) :
    ∃ p, nextMessage split negotiatedSize w k = (.message message, p) ∧ Holds rest p := by
  have hheader : 7 ≤ message.length := hframed.header
  have hsize := hframed.negotiated
  have hlen : (message ++ rest).length = message.length + rest.length := length_append
  have hfour := fillIfShort_holds split 4 (by decide) h
  generalize hp : fillIfShort split 4 w k = p at hfour
  obtain ⟨hp4, hcount⟩ := hfour
  have hcount4 : 4 ≤ p.1.count := hcount (by omega)
  have htake : leValue (p.1.data.take 4) = message.length := by
    rw [hp4.take hcount4, take_append_of_le_length (by omega), hframed.size]
  have hall := fillIfShort_holds split message.length (by omega) hp4
  generalize hq : fillIfShort split message.length p.1 p.2 = q at hall
  obtain ⟨hq7, hcount⟩ := hall
  have hcountAll : message.length ≤ q.1.count := hcount (by omega)
  have hmsg : q.1.data.take message.length = message := by
    rw [hq7.take hcountAll, take_left]
  refine ⟨(q.1.skip message.length hcountAll, q.2), ?_, ?_, hq7.buffer⟩
  · have hvalid : ¬(message.length < headerSize ∨ negotiatedSize < message.length) := by
      rintro (h | h)
      · exact absurd hframed.header (by omega)
      · omega
    simp only [nextMessage, hp, htake, hq, if_neg (Nat.not_lt.mpr hcount4), if_neg hvalid, dif_pos hcountAll,
      hmsg]
  · change (q.1.skip message.length hcountAll).data ++ q.2.rest = rest
    rw [Window.data_skip, ← drop_append_of_le_length (by rw [Window.length_data]; exact hcountAll),
      hq7.stream, drop_left]

theorem nextMessage_ended {negotiatedSize : Nat} (h : Holds [] (w, k)) :
    (nextMessage split negotiatedSize w k).1 = .ended := by
  have hfour := (fillIfShort_holds split 4 (by decide) h).1
  generalize hp : fillIfShort split 4 w k = p at hfour
  have hdata : p.1.data = [] := (append_eq_nil_iff.mp hfour.stream).1
  have hcount : p.1.count < 4 := by
    rw [← Window.length_data, hdata]
    decide
  simp only [nextMessage, hp, if_pos hcount]

theorem receive_eq {negotiatedSize : Nat → Nat}
    (hnegotiated : ∀ i, negotiatedSize i ≤ maximumRequestBufferSize.toNat) (n i : Nat)
    (messages : List (List Byte))
    (hframed : ∀ j (hj : j < messages.length), Framed (negotiatedSize (i + j)) messages[j])
    (h : Holds messages.flatten (w, k)) :
    receive split negotiatedSize n i w k = (messages.take n, decide (messages.length < n)) := by
  induction n generalizing i messages w k with
  | zero => rfl
  | succ n ih =>
    cases messages with
    | nil =>
      have hended : (nextMessage split (negotiatedSize i) w k).1 = .ended := nextMessage_ended split h
      rw [receive]
      rcases hnext : nextMessage split (negotiatedSize i) w k with ⟨r, w', k'⟩
      rw [hnext] at hended
      cases hended
      rfl
    | cons message messages =>
      have hfirst := hframed 0 (Nat.zero_lt_succ _)
      obtain ⟨⟨w', k'⟩, hnext, hrest⟩ := nextMessage_message split (hnegotiated i) hfirst h
      have htail := ih (i + 1) messages (fun j hj => by
        have hj' := hframed (j + 1) (Nat.succ_lt_succ hj)
        rw [Nat.add_assoc, Nat.add_comm 1 j]
        exact hj') hrest
      rw [receive, hnext]
      simp only [htail, take_succ_cons, length_cons]
      simp

end Spec

def negotiatedAfter {W : Type} (env : Environment W) (world : W) (ds : List Delivery) : Nat :=
  (runSteps (deliver env) ds (Session.initial false world)).negotiatedSize.toNat

theorem negotiatedAfter_le {W : Type} (env : Environment W) (world : W) (ds : List Delivery) :
    negotiatedAfter env world ds ≤ maximumRequestBufferSize.toNat := by
  have hstep (d : Delivery) (s : Session W) (h : s.Guarded) : (deliver env d s).Guarded := deliver_guarded h d
  have hguarded : (runSteps (deliver env) ds (Session.initial false world)).Guarded :=
    inv_runSteps_of_step hstep (guarded_initial false world)
  exact UInt32.le_iff_toNat_le.mp hguarded.negotiated

/-- The messages handed to the handler are those of the stream, however it is split and
whichever requests were answered before each of them. -/
theorem receive_messages {W : Type} (env : Environment W) (world : W) (answered : Nat → List Delivery)
    (split : Nat → Nat) (messages : List (List Byte))
    (hframed : ∀ i (hi : i < messages.length), Framed (negotiatedAfter env world (answered i)) messages[i])
    (n : Nat) :
    receive split (fun i => negotiatedAfter env world (answered i)) n 0 requestBuffer ⟨messages.flatten, 0⟩ =
      (messages.take n, decide (messages.length < n)) := by
  refine receive_eq split (fun i => negotiatedAfter_le env world (answered i)) n 0 messages ?_ ⟨?_, ?_⟩
  · intro j hj
    rw [Nat.zero_add]
    exact hframed j hj
  · rfl
  · exact length_replicate

/-- Two messages that arrive byte by byte on a new connection. -/
theorem receive_two :
    receive (fun _ => 1) (fun _ => negotiatedAfter Environment.plain () []) 3 0 requestBuffer
        ⟨[frame .clunk 1 (leBytes 4 7), frame .remove 2 (leBytes 4 8)].flatten, 0⟩ =
      ([frame .clunk 1 (leBytes 4 7), frame .remove 2 (leBytes 4 8)], true) :=
  receive_messages Environment.plain () (fun _ => []) (fun _ => 1) _ (by decide) 3

end WslPlus.Plan9

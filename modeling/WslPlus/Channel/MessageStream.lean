import WslPlus.Channel.MessageReader

/-!
# Cancelled receives lose nothing

What a handle has in the buffer is always the beginning of the message that is due, and what it
asks for does not go beyond that message. Whoever continues from there, the same handle or one
that was given its bytes, delivers the messages of the stream one by one.
-/

namespace WslPlus.Channel

open List

theorem messageSize_take {n : Nat} (bytes : List UInt8) (hn : 8 ≤ n) :
    messageSize (bytes.take n) = messageSize bytes := by
  simp only [messageSize, drop_take, take_take]
  rw [Nat.min_eq_left (by omega)]

theorem ensureSize_length (size : Nat) (buffer : List UInt8) :
    (ensureSize size buffer).length = max size buffer.length := by
  unfold ensureSize
  split
  · rw [length_append, length_replicate]
    omega
  · omega

theorem ensureSize_take {size n : Nat} {buffer : List UInt8} (hn : n ≤ buffer.length) :
    (ensureSize size buffer).take n = buffer.take n := by
  unfold ensureSize
  split
  · exact take_append_of_le_length hn
  · rfl

theorem store_take {offset : Nat} {buffer : List UInt8} (bytes : List UInt8) (h : offset ≤ buffer.length) :
    (store offset bytes buffer).take (offset + bytes.length) = buffer.take offset ++ bytes := by
  have hlen : (buffer.take offset ++ bytes).length = offset + bytes.length := by
    rw [length_append, length_take, Nat.min_eq_left h]
  rw [store, ← hlen, take_left]

def IsMessage (m : List UInt8) : Prop :=
  headerSize ≤ m.length ∧ m.length ≤ maxMessageSize ∧ messageSize m = m.length

def dueSize (rest : List (List UInt8)) : Nat := rest.head?.elim headerSize List.length

theorem header_le_dueSize {rest : List (List UInt8)} (h : ∀ m ∈ rest, IsMessage m) :
    headerSize ≤ dueSize rest := by
  cases rest with
  | nil => exact Nat.le_refl _
  | cons m rest => exact (h m mem_cons_self).1

/-- The messages that were delivered and the rest are those of the stream, and the rest consists
of what is held and what is still to come. -/
structure Sound (frames rest : List (List UInt8)) (held : List UInt8) (s : Receiver) : Prop where
  wellFormed : ∀ m ∈ rest, IsMessage m
  messages : frames = s.messages ++ rest
  stream : held ++ s.incoming = rest.flatten
  short : held.length ≤ dueSize rest
  reads : ∀ r ∈ s.reads, r.offset + r.length ≤ dueSize (frames.drop r.after)
  closed : s.closed = true → s.messages = frames
  error : s.error = none

theorem Receiver.onMessage_incoming (m : List UInt8) (s : Receiver) :
    (s.onMessage m).incoming = s.incoming := by
  unfold Receiver.onMessage
  split <;> rfl

theorem Receiver.onMessage_pendingBytes (m : List UInt8) (s : Receiver) :
    (s.onMessage m).pendingBytes = s.pendingBytes := by
  unfold Receiver.onMessage
  split <;> rfl

namespace Sound

variable {frames rest : List (List UInt8)} {held : List UInt8} {s : Receiver}

theorem due (hs : Sound frames rest held s) (hheld : 0 < held.length) :
    ∃ m rest', rest = m :: rest' ∧ held = m.take held.length ∧ held.length ≤ m.length := by
  cases hrest : rest with
  | nil =>
    have hstream := hs.stream
    rw [hrest, flatten_nil] at hstream
    rw [(append_eq_nil_iff.mp hstream).1] at hheld
    exact absurd hheld (Nat.lt_irrefl 0)
  | cons m rest' =>
    have hshort : held.length ≤ m.length := by
      have h := hs.short
      rw [hrest] at h
      exact h
    have hstream := congrArg (List.take held.length) hs.stream
    rw [take_left, hrest, flatten_cons, take_append_of_le_length hshort] at hstream
    exact ⟨m, rest', rfl, hstream, hshort⟩

theorem deliver {m : List UInt8} (hs : Sound frames (m :: rest) m s) :
    Sound frames rest [] (s.onMessage m) ∧ (s.onMessage m).messages = s.messages ++ [m] := by
  have hm := hs.wellFormed m mem_cons_self
  have hne : m.isEmpty = false := by
    rw [isEmpty_eq_false_iff]
    intro h
    rw [h] at hm
    exact absurd hm.1 (by decide)
  have heq : s.onMessage m = { s with messages := s.messages ++ [m] } := by
    rw [Receiver.onMessage, hne]
    rfl
  rw [heq]
  refine ⟨⟨fun m' hm' => hs.wellFormed m' (mem_cons_of_mem m hm'), ?_, ?_, Nat.zero_le _, hs.reads, ?_,
    hs.error⟩, rfl⟩
  · rw [hs.messages, append_assoc]
    rfl
  · have hstream := hs.stream
    rw [flatten_cons] at hstream
    exact append_cancel_left hstream
  · intro hclose
    have hnil := hs.closed hclose
    rw [hs.messages] at hnil
    exact absurd (self_eq_append_right.mp hnil) (cons_ne_nil m rest)

theorem close (hs : Sound frames [] [] s) : Sound frames [] [] (s.onMessage []) := by
  refine ⟨hs.wellFormed, hs.messages, hs.stream, hs.short, hs.reads, ?_, hs.error⟩
  intro _
  rw [hs.messages, append_nil]
  rfl

end Sound

structure Reading (frames rest : List (List UInt8)) (h : ReadSocketMessageHandle) (s : Receiver) : Prop where
  sound : Sound frames rest (s.buffer.take h.currentOffset) s
  offset : h.currentOffset ≤ s.buffer.length
  header : headerSize ≤ s.buffer.length
  inHeader : h.readingHeader = true → h.bytesRemaining = headerSize - h.currentOffset
  inBody : h.readingHeader = false →
    0 < h.bytesRemaining ∧ headerSize ≤ h.currentOffset ∧ h.currentOffset + h.bytesRemaining = dueSize rest ∧
      dueSize rest ≤ s.buffer.length

namespace Reading

variable {frames rest : List (List UInt8)} {h : ReadSocketMessageHandle} {s : Receiver}

section

variable (hr : Reading frames rest h s)
include hr

theorem held_length : (s.buffer.take h.currentOffset).length = h.currentOffset := by
  rw [length_take, Nat.min_eq_left hr.offset]

theorem within_due : h.currentOffset + h.bytesRemaining ≤ dueSize rest := by
  cases hphase : h.readingHeader with
  | true =>
    have hheader := header_le_dueSize hr.sound.wellFormed
    have hshort := hr.sound.short
    rw [hr.held_length] at hshort
    have := hr.inHeader hphase
    omega
  | false => exact Nat.le_of_eq (hr.inBody hphase).2.2.1

theorem within_buffer :
    h.currentOffset + h.bytesRemaining ≤ s.buffer.length := by
  cases hphase : h.readingHeader with
  | true =>
    have := hr.inHeader hphase
    have := hr.header
    have := hr.offset
    omega
  | false =>
    have := hr.inBody hphase
    omega

theorem incoming_ne_nil (hrem : 0 < h.bytesRemaining) (hrest : rest ≠ []) :
    s.incoming ≠ [] := by
  intro hempty
  obtain ⟨m, rest', rfl⟩ := exists_cons_of_ne_nil hrest
  have hstream := congrArg List.length hr.sound.stream
  rw [hempty, append_nil, hr.held_length, flatten_cons, length_append] at hstream
  have hdue := hr.within_due
  have hm : dueSize (m :: rest') = m.length := rfl
  omega

theorem ask :
    Reading frames rest h
      { s with reads := s.reads ++ [⟨s.messages.length, h.currentOffset, h.bytesRemaining⟩] } := by
  obtain ⟨hs, hoffset, hheader, hinHeader, hinBody⟩ := hr
  refine ⟨⟨hs.wellFormed, hs.messages, hs.stream, hs.short, ?_, hs.closed, hs.error⟩, hoffset, hheader, hinHeader,
    hinBody⟩
  intro r hmem
  rcases mem_append.mp hmem with hmem | hmem
  · exact hs.reads r hmem
  · rw [mem_singleton.mp hmem, hs.messages, drop_left]
    exact within_due ⟨hs, hoffset, hheader, hinHeader, hinBody⟩

end

end Reading

namespace ReadSocketMessageHandle

variable {frames rest : List (List UInt8)} {h : ReadSocketMessageHandle} {s : Receiver}

theorem recv_spec (hr : Reading frames rest h s) (n : Nat) :
    (h.recv n s).1 ≤ h.bytesRemaining ∧
      Sound frames rest ((h.recv n s).2.buffer.take (h.currentOffset + (h.recv n s).1)) (h.recv n s).2 ∧
      (h.recv n s).2.buffer.length = s.buffer.length ∧ (h.recv n s).2.messages = s.messages ∧
      (h.recv n s).1 + (h.recv n s).2.incoming.length = s.incoming.length := by
  have hbytes : (s.incoming.take (min n h.bytesRemaining)).length ≤ h.bytesRemaining := by
    rw [length_take]
    omega
  have hdue := hr.within_due
  have hbuf := hr.within_buffer
  refine ⟨hbytes, ?_, store_length (by omega), rfl, ?_⟩
  · have htake := store_take (s.incoming.take (min n h.bytesRemaining)) hr.offset
    refine ⟨hr.sound.wellFormed, hr.sound.messages, ?_, ?_, hr.sound.reads, hr.sound.closed, hr.sound.error⟩
    · calc
        _ = s.buffer.take h.currentOffset ++ s.incoming.take (min n h.bytesRemaining) ++
              s.incoming.drop (s.incoming.take (min n h.bytesRemaining)).length := congrArg (· ++ _) htake
        _ = s.buffer.take h.currentOffset ++ s.incoming := by
          rw [append_assoc, prefix_iff_eq_append.mp ( take_prefix _ _)]
        _ = rest.flatten := hr.sound.stream
    · have hlen := congrArg List.length htake
      rw [length_append, hr.held_length] at hlen
      exact Nat.le_trans (Nat.le_of_eq hlen) (by omega)
  · simp only [recv, List.length_drop, length_take]
    omega

theorem recv_pos {n : Nat} (hn : 0 < n) (hrem : 0 < h.bytesRemaining) (hincoming : s.incoming ≠ []) :
    0 < (h.recv n s).1 := by
  have := length_pos_iff.mpr hincoming
  simp only [recv, length_take]
  omega

theorem processChunk_more {size : Nat} (hphase : h.readingHeader = true) (hsize : messageSize s.buffer = size)
    (hmin : headerSize ≤ size) (hmax : size ≤ maxMessageSize) (hoffset : h.currentOffset < size) :
    h.processChunk s = (true, { h with readingHeader := false, bytesRemaining := size - h.currentOffset },
      { s with buffer := ensureSize size s.buffer }) := by
  unfold processChunk
  simp only [hsize]
  rw [if_pos hphase, if_neg (by omega), if_neg (by omega), if_pos hoffset, if_pos (by omega)]

theorem processChunk_whole {size : Nat} (hsize : messageSize s.buffer = size) (hmin : headerSize ≤ size)
    (hmax : size ≤ maxMessageSize) (hoffset : h.currentOffset = size) (hbuf : size ≤ s.buffer.length)
    (hrem : h.bytesRemaining = 0) :
    h.processChunk s =
      (false, { h with readingHeader := false, state := .completed }, s.onMessage (s.buffer.take size)) := by
  unfold processChunk
  simp only [hsize]
  have hsame : ensureSize size s.buffer = s.buffer := by rw [ensureSize, if_neg (by omega)]
  cases hphase : h.readingHeader with
  | true =>
    rw [if_pos rfl, if_neg (by omega), if_neg (by omega), if_neg (show ¬ h.currentOffset < size by omega),
      if_neg (by omega), hsame]
  | false =>
    rw [if_neg Bool.false_ne_true, ← hphase]

/-- What a step of a handle leads to: it goes on, it has delivered the message that was due, or
the stream has ended. -/
inductive Outcome (frames rest : List (List UInt8)) (s : Receiver) : ReadSocketMessageHandle × Receiver → Prop where
  | more {r : ReadSocketMessageHandle × Receiver} (state : r.1.state = .standby)
      (remaining : 0 < r.1.bytesRemaining) (reading : Reading frames rest r.1 r.2) (messages : r.2.messages = s.messages)
      (incoming : r.2.incoming = s.incoming) : Outcome frames rest s r
  | message {r : ReadSocketMessageHandle × Receiver} {m : List UInt8} {rest' : List (List UInt8)}
      (state : r.1.state = .completed) (due : rest = m :: rest') (sound : Sound frames rest' [] r.2)
      (messages : r.2.messages = s.messages ++ [m]) (incoming : r.2.incoming = s.incoming) : Outcome frames rest s r
  | ended {r : ReadSocketMessageHandle × Receiver} (state : r.1.state = .completed) (due : rest = [])
      (sound : Sound frames [] [] r.2) : Outcome frames rest s r

theorem processChunk_spec (hs : Sound frames rest (s.buffer.take h.currentOffset) s)
    (hstate : h.state = .standby) (hbuf : h.currentOffset ≤ s.buffer.length)
    (hheader : headerSize ≤ h.currentOffset) (hrem : h.bytesRemaining = 0)
    (hbody : h.readingHeader = false → h.currentOffset = dueSize rest) :
    Outcome frames rest s (h.processChunk s).2 ∧
      ((h.processChunk s).1 = true ↔ (h.processChunk s).2.1.state = .standby) := by
  have h16 : headerSize = 16 := rfl
  have hlen : (s.buffer.take h.currentOffset).length = h.currentOffset := by
    rw [length_take, Nat.min_eq_left hbuf]
  obtain ⟨m, rest', hrest, hheld, hle⟩ := hs.due (by omega)
  rw [hlen] at hheld hle
  have hm : IsMessage m := hs.wellFormed m (by rw [hrest]; exact mem_cons_self)
  have hsize : messageSize s.buffer = m.length := by
    rw [← messageSize_take s.buffer (n := h.currentOffset) (by omega), hheld,
      messageSize_take m (by omega), hm.2.2]
  have hdue : dueSize rest = m.length := by rw [hrest]; rfl
  rcases Nat.lt_or_eq_of_le hle with hlt | heq
  · have hphase : h.readingHeader = true := by
      cases hphase : h.readingHeader with
      | true => rfl
      | false => exact absurd (hbody hphase) (by omega)
    have hgrown : (ensureSize m.length s.buffer).take h.currentOffset = s.buffer.take h.currentOffset :=
      ensureSize_take hbuf
    have hcapacity := ensureSize_length m.length s.buffer
    rw [processChunk_more hphase hsize hm.1 hm.2.1 hlt]
    refine ⟨.more hstate (Nat.sub_pos_of_lt hlt) ⟨?_, ?_, ?_, ?_, ?_⟩ rfl rfl, fun _ => hstate, fun _ => rfl⟩
    · rw [hgrown]
      exact ⟨hs.wellFormed, hs.messages, hs.stream, hs.short, hs.reads, hs.closed, hs.error⟩
    · exact Nat.le_trans hbuf (by rw [hcapacity]; exact Nat.le_max_right _ _)
    · exact Nat.le_trans (Nat.le_trans hheader hbuf) (by rw [hcapacity]; exact Nat.le_max_right _ _)
    · intro hfalse
      cases hfalse
    · intro _
      rw [hdue, hcapacity]
      exact ⟨by dsimp only; omega, hheader, by dsimp only; omega, Nat.le_max_left _ _⟩
  · have htake : s.buffer.take m.length = m := by
      rw [← heq, hheld, heq, take_length]
    rw [heq, htake, hrest] at hs
    rw [processChunk_whole hsize hm.1 hm.2.1 heq (by omega) hrem, htake]
    refine ⟨.message rfl hrest hs.deliver.1 hs.deliver.2 (Receiver.onMessage_incoming m s), ?_, ?_⟩
    · intro hfalse
      cases hfalse
    · intro hfalse
      cases hfalse

theorem receive_spec (hr : Reading frames rest h s) (hstate : h.state = .standby)
    (hrem : 0 < h.bytesRemaining) {n : Nat} (hn : 0 < n) :
    Outcome frames rest (h.recv n s).2 (processRecvResult (h.recv n s).1 h (h.recv n s).2) := by
  obtain ⟨hread, hsound, hlen, -, hincoming⟩ := recv_spec hr n
  have hbuf := hr.within_buffer
  rw [processRecvResult]
  by_cases hzero : (h.recv n s).1 = 0
  · have hempty : s.incoming = [] := by
      by_contra hne
      exact absurd (recv_pos hn hrem hne) (by omega)
    have hrest : rest = [] := by
      by_contra hne
      exact hr.incoming_ne_nil hrem hne hempty
    subst hrest
    have hoffset : h.currentOffset = 0 := by
      have hheld := hr.sound.stream
      rw [hempty, append_nil, flatten_nil] at hheld
      rw [← hr.held_length, hheld]
      rfl
    rw [if_pos hzero, if_neg (by omega)]
    rw [hoffset, hzero] at hsound
    exact .ended rfl rfl hsound.close
  · rw [if_neg hzero]
    dsimp only
    split
    next hmore =>
      refine .more hstate hmore ⟨hsound, ?_, ?_, ?_, ?_⟩ rfl rfl
      · rw [hlen]
        dsimp only
        omega
      · rw [hlen]
        exact hr.header
      · intro hphase
        have := hr.inHeader hphase
        dsimp only
        omega
      · intro hphase
        have := hr.inBody hphase
        rw [hlen]
        dsimp only
        omega
    next =>
      apply And.left
      apply processChunk_spec
      · exact hsound
      · exact hstate
      · rw [hlen]
        dsimp only
        omega
      · cases hphase : h.readingHeader with
        | true =>
          have := hr.inHeader hphase
          dsimp only
          omega
        | false =>
          have := hr.inBody hphase
          dsimp only
          omega
      · dsimp only
        omega
      · intro hphase
        have := hr.inBody hphase
        dsimp only
        omega

end ReadSocketMessageHandle

namespace ReadSocketMessageHandle

theorem processChunk_pendingBytes (h : ReadSocketMessageHandle) (s : Receiver) :
    (h.processChunk s).2.2.pendingBytes = s.pendingBytes := by
  unfold processChunk
  dsimp only
  generalize (if h.currentOffset < messageSize s.buffer then messageSize s.buffer - h.currentOffset
    else h.bytesRemaining) = remaining
  split
  · split
    · rfl
    · split
      · rfl
      · split
        · rfl
        · exact Receiver.onMessage_pendingBytes _ _
  · exact Receiver.onMessage_pendingBytes _ _

theorem processRecvResult_pendingBytes (n : Nat) (h : ReadSocketMessageHandle) (s : Receiver) :
    (h.processRecvResult n s).2.pendingBytes = s.pendingBytes := by
  unfold processRecvResult
  split
  · split
    · rfl
    · exact Receiver.onMessage_pendingBytes _ _
  · dsimp only
    split
    · rfl
    · exact processChunk_pendingBytes _ _

end ReadSocketMessageHandle

namespace Reception

variable {frames rest : List (List UInt8)} {c : Reception}

/-- Between two handles the pending bytes are held, otherwise the bytes in the buffer. -/
inductive Tracks (frames : List (List UInt8)) : Reception → Prop where
  | idle {s : Receiver} {rest : List (List UInt8)} (sound : Sound frames rest s.pendingBytes s) :
      Tracks frames ⟨none, s⟩
  | reading {h : ReadSocketMessageHandle} {s : Receiver} {rest : List (List UInt8)}
      (pendingBytes : s.pendingBytes = []) (unfinished : h.state ≠ .completed)
      (waits : h.state = .pending → 0 < h.bytesRemaining) (reading : Reading frames rest h s) :
      Tracks frames ⟨some h, s⟩
  | done {h : ReadSocketMessageHandle} {s : Receiver} {rest : List (List UInt8)}
      (pendingBytes : s.pendingBytes = []) (completed : h.state = .completed) (sound : Sound frames rest [] s) :
      Tracks frames ⟨some h, s⟩

def rank : Option ReadSocketMessageHandle → Nat
  | none => 3
  | some h => match h.state with
    | .standby => 2
    | .pending => 1
    | .completed => 4

def work (frames : List (List UInt8)) (s : Receiver) : Nat :=
  4 * (frames.length - s.messages.length) + 3 * s.incoming.length

open ReadSocketMessageHandle in
theorem tracks_of_outcome {s : Receiver} {r : ReadSocketMessageHandle × Receiver} (ho : Outcome frames rest s r)
    (hp : r.2.pendingBytes = []) : Tracks frames (put r) := by
  cases ho with
  | more hstate _ hr =>
    refine .reading hp ?_ ?_ hr
    · rw [hstate]
      decide
    · intro h
      rw [hstate] at h
      cases h
  | message hstate _ hs => exact .done hp hstate hs
  | ended hstate _ hs => exact .done hp hstate hs

open ReadSocketMessageHandle in
theorem work_of_outcome {s : Receiver} {r : ReadSocketMessageHandle × Receiver} (ho : Outcome frames rest s r)
    (hs : frames = s.messages ++ rest) (hrest : rest ≠ []) :
    work frames r.2 + rank (some r.1) ≤ work frames s + (if r.1.state = .standby then 2 else 0) := by
  have hlen := congrArg List.length hs
  rw [length_append] at hlen
  cases ho with
  | more hstate _ _ hmessages hincoming =>
    have hwork : work frames r.2 = work frames s := by rw [work, work, hmessages, hincoming]
    have hrank : rank (some r.1) = 2 := by rw [rank, hstate]
    rw [if_pos hstate]
    omega
  | message hstate hdue _ hmessages hincoming =>
    rw [hdue, length_cons] at hlen
    rw [hstate, work, work, rank, hstate, hmessages, hincoming, length_append, length_singleton]
    dsimp only
    rw [if_neg (by decide)]
    omega
  | ended _ hdue _ => exact absurd hdue hrest

section Steps

variable {h : ReadSocketMessageHandle} {s : Receiver}

open ReadSocketMessageHandle

section

variable (hr : Reading frames rest h s)
include hr

theorem receive_step (hstate : h.state = .standby) (hp : s.pendingBytes = [])
    (hrem : 0 < h.bytesRemaining) (n : Nat) :
    Tracks frames (put (processRecvResult (h.recv (max 1 n) s).1 h (h.recv (max 1 n) s).2)) ∧ (rest ≠ [] →
        work frames (processRecvResult (h.recv (max 1 n) s).1 h (h.recv (max 1 n) s).2).2 +
          rank (some (processRecvResult (h.recv (max 1 n) s).1 h (h.recv (max 1 n) s).2).1) ≤ work frames s) := by
  have hn : 0 < max 1 n := by omega
  have ho := receive_spec hr hstate hrem hn
  obtain ⟨-, hsound, -, hmessages, hincoming⟩ := recv_spec hr (max 1 n)
  constructor
  · apply tracks_of_outcome ho
    rw [processRecvResult_pendingBytes]
    exact hp
  · intro hrest
    have hpos := recv_pos hn hrem (hr.incoming_ne_nil hrem hrest)
    have hwork := work_of_outcome ho hsound.messages hrest
    have hless : work frames (h.recv (max 1 n) s).2 + 3 ≤ work frames s := by
      rw [work, work, hmessages]
      omega
    split at hwork <;> omega

theorem scheduleRecv_step (hstate : h.state = .standby) (hp : s.pendingBytes = [])
    (hrem : 0 < h.bytesRemaining) (result : Option Nat) :
    Tracks frames (put (h.scheduleRecv result s)) ∧
      (rest ≠ [] → work frames (h.scheduleRecv result s).2 + rank (some (h.scheduleRecv result s).1) ≤
        work frames s + 1) := by
  rw [scheduleRecv, if_neg (Nat.not_lt.mpr hr.within_buffer)]
  cases result with
  | none =>
    refine ⟨.reading hp ?_ ?_ ⟨hr.ask.sound, hr.offset, hr.header, hr.inHeader, hr.inBody⟩, fun _ => Nat.le_refl _⟩
    · intro h
      cases h
    · intro _
      exact hrem
  | some n =>
    obtain ⟨htracks, hwork⟩ := receive_step hr.ask hstate hp hrem n
    exact ⟨htracks, fun hrest => Nat.le_succ_of_le (hwork hrest)⟩

theorem schedule_step (hstate : h.state = .standby) (hp : s.pendingBytes = [])
    (result : Option Nat) :
    Tracks frames (put (h.schedule result s)) ∧
      (rest ≠ [] → work frames (h.schedule result s).2 + rank (some (h.schedule result s).1) ≤
        work frames s + 1) := by
  rw [schedule]
  by_cases hrem : h.bytesRemaining = 0
  · rw [if_pos hrem]
    have hphase : h.readingHeader = true := by
      cases hphase : h.readingHeader with
      | true => rfl
      | false => exact absurd (hr.inBody hphase).1 (by omega)
    have hheader : headerSize ≤ h.currentOffset := by
      have := hr.inHeader hphase
      omega
    have hbody : h.readingHeader = false → h.currentOffset = dueSize rest := by
      intro hfalse
      rw [hphase] at hfalse
      cases hfalse
    obtain ⟨ho, hmore⟩ := processChunk_spec hr.sound hstate hr.offset hheader hrem hbody
    have hp' : (h.processChunk s).2.2.pendingBytes = [] := by rw [processChunk_pendingBytes, hp]
    dsimp only
    split
    next htrue =>
      cases ho with
      | more hstate' hrem' hr' hmessages hincoming =>
        have hwork : work frames (h.processChunk s).2.2 = work frames s := by
          rw [work, work, hmessages, hincoming]
        rw [← hwork]
        exact scheduleRecv_step hr' hstate' hp' hrem' result
      | message hstate' => exact absurd ((hmore.mp htrue).symm.trans hstate') (by decide)
      | ended hstate' => exact absurd ((hmore.mp htrue).symm.trans hstate') (by decide)
    next hfalse =>
      refine ⟨tracks_of_outcome ho hp', fun hrest => ?_⟩
      have hwork := work_of_outcome ho hr.sound.messages hrest
      rw [if_neg (fun hstate' => hfalse (hmore.mpr hstate'))] at hwork
      omega
  · rw [if_neg hrem]
    exact scheduleRecv_step hr hstate hp (by omega) result

theorem collect_step (hp : s.pendingBytes = []) (hrem : 0 < h.bytesRemaining)
    (n : Nat) :
    Tracks frames (put (h.collect n s)) ∧
      (rest ≠ [] → work frames (h.collect n s).2 + rank (some (h.collect n s).1) ≤ work frames s) := by
  have hr' : Reading frames rest { h with state := .standby } s :=
    ⟨hr.sound, hr.offset, hr.header, hr.inHeader, hr.inBody⟩
  exact receive_step hr' rfl hp hrem n

end

theorem create_step (hs : Sound frames rest s.pendingBytes s) :
    Tracks frames (put (create s)) ∧ work frames (create s).2 + rank
      (some (create s).1) = work frames s + 2 := by
  have h16 : headerSize = 16 := rfl
  have hgrown := ensureSize_length headerSize s.buffer
  unfold create
  dsimp only
  split
  next hempty =>
    rw [List.isEmpty_iff] at hempty
    rw [hempty] at hs
    refine ⟨.reading hempty ?_ ?_ ⟨⟨hs.wellFormed, hs.messages, hs.stream, hs.short, hs.reads, hs.closed, hs.error⟩,
      Nat.zero_le _, ?_, fun _ => rfl, ?_⟩, rfl⟩
    · intro h
      cases h
    · intro h
      cases h
    · exact Nat.le_trans (Nat.le_max_left _ _) (Nat.le_of_eq hgrown.symm)
    · intro h
      cases h
  next =>
    have hgrown' := ensureSize_length s.pendingBytes.length (ensureSize headerSize s.buffer)
    have hlen : (store 0 s.pendingBytes (ensureSize s.pendingBytes.length (ensureSize headerSize s.buffer))).length =
        max s.pendingBytes.length (max headerSize s.buffer.length) := by
      rw [store_length (by omega), hgrown', hgrown]
    have htake : (store 0 s.pendingBytes (ensureSize s.pendingBytes.length (ensureSize headerSize s.buffer))).take
        s.pendingBytes.length = s.pendingBytes := by
      have h := store_take s.pendingBytes (Nat.zero_le
        (ensureSize s.pendingBytes.length (ensureSize headerSize s.buffer)).length)
      rwa [Nat.zero_add, take_zero, nil_append] at h
    refine ⟨.reading rfl ?_ ?_ (⟨?_, ?_, ?_, ?_, ?_⟩ : Reading frames rest _ _), rfl⟩
    · intro h
      cases h
    · intro h
      cases h
    · rw [htake]
      exact ⟨hs.wellFormed, hs.messages, hs.stream, hs.short, hs.reads, hs.closed, hs.error⟩
    · rw [hlen]
      exact Nat.le_max_left _ _
    · rw [hlen]
      omega
    · intro _
      dsimp only
      split <;> omega
    · intro h
      cases h

theorem cancel_step (hr : Reading frames rest h s) (hp : s.pendingBytes = []) (hstate : h.state ≠ .completed)
    (n : Nat) : Tracks frames ⟨none, h.destroy n s⟩ := by
  have hheld : ∀ cancelled : Nat × Receiver,
      Sound frames rest (cancelled.2.buffer.take (h.currentOffset + cancelled.1)) cancelled.2 →
      cancelled.2.pendingBytes = [] →
      Tracks frames ⟨none, if 0 < h.currentOffset + cancelled.1 then
        { cancelled.2 with pendingBytes := cancelled.2.buffer.take (h.currentOffset + cancelled.1) }
        else cancelled.2⟩ := by
    intro cancelled hs hp'
    split
    next =>
      refine .idle ⟨hs.wellFormed, hs.messages, hs.stream, hs.short, hs.reads, hs.closed, hs.error⟩
    next hzero =>
      have h0 : h.currentOffset + cancelled.1 = 0 := by omega
      rw [h0, take_zero] at hs
      rw [← hp'] at hs
      exact .idle hs
  rw [destroy, if_neg hstate]
  by_cases hpend : h.state = .pending
  · rw [if_pos hpend]
    exact hheld (h.recv n s) (recv_spec hr n).2.1 hp
  · rw [if_neg hpend]
    exact hheld (0, s) hr.sound hp

theorem release_step (hs : Sound frames rest [] s) (hp : s.pendingBytes = []) (hstate : h.state = .completed) :
    Tracks frames ⟨none, h.destroy 0 s⟩ ∧ h.destroy 0 s = s := by
  have heq : h.destroy 0 s = s := by rw [destroy, if_pos hstate]
  rw [heq]
  rw [← hp] at hs
  exact ⟨.idle hs, rfl⟩

end Steps

/-- What a step does, if it is not refused. -/
inductive Move : Action → Reception → Reception → Prop where
  | create (s : Receiver) : Move .create ⟨none, s⟩ (put (ReadSocketMessageHandle.create s))
  | schedule (result : Option Nat) {h : ReadSocketMessageHandle} (s : Receiver) (hstate : h.state = .standby) :
      Move (.schedule result) ⟨some h, s⟩ (put (h.schedule result s))
  | collect (n : Nat) {h : ReadSocketMessageHandle} (s : Receiver) (hstate : h.state = .pending) :
      Move (.collect n) ⟨some h, s⟩ (put (h.collect n s))
  | release {h : ReadSocketMessageHandle} (s : Receiver) (hstate : h.state = .completed) :
      Move .release ⟨some h, s⟩ ⟨none, h.destroy 0 s⟩
  | cancel (n : Nat) {h : ReadSocketMessageHandle} (s : Receiver) (hstate : h.state ≠ .completed) :
      Move (.cancel n) ⟨some h, s⟩ ⟨none, h.destroy n s⟩

theorem step_cases (a : Action) (c : Reception) : c.step a = c ∨ Move a c (c.step a) := by
  obtain ⟨handle, s⟩ := c
  cases handle with
  | none =>
    cases a with
    | create => exact .inr (.create s)
    | schedule | collect | release | cancel => exact .inl rfl
  | some h =>
    cases a with
    | create => exact .inl rfl
    | schedule result =>
      unfold step
      dsimp only
      split
      next hstate => exact .inr (.schedule result s hstate)
      next => exact .inl rfl
    | collect n =>
      unfold step
      dsimp only
      split
      next hstate => exact .inr (.collect n s hstate)
      next => exact .inl rfl
    | release =>
      unfold step
      dsimp only
      split
      next hstate => exact .inr (.release s hstate)
      next => exact .inl rfl
    | cancel n =>
      unfold step
      dsimp only
      split
      next => exact .inl rfl
      next hstate => exact .inr (.cancel n s hstate)

def measure (frames : List (List UInt8)) (c : Reception) : Nat := work frames c.receiver + rank c.handle

theorem delivered_or_due {held : List UInt8} {s : Receiver} (hs : Sound frames rest held s) :
    s.messages = frames ∨ rest ≠ [] := by
  by_cases hrest : rest = []
  · left
    rw [hs.messages, hrest, append_nil]
  · exact .inr hrest

section

variable (hc : Tracks frames c)
include hc

theorem Tracks.moved {a : Action} {c' : Reception} (hmove : Move a c c') :
    Tracks frames c' ∧ (Waiting a → c.receiver.messages = frames ∨ measure frames c' < measure frames c) := by
  cases hmove with
  | create s =>
    cases hc with
    | idle hs =>
      obtain ⟨htracks, hwork⟩ := create_step hs
      refine ⟨htracks, fun _ => .inr ?_⟩
      have hrank : rank none = 3 := rfl
      simp only [measure, put, hrank]
      omega
  | @schedule result h s hstate =>
    cases hc with
    | reading hp _ _ hr =>
      obtain ⟨htracks, hwork⟩ := schedule_step hr hstate hp result
      refine ⟨htracks, fun _ => (delivered_or_due hr.sound).imp_right fun hrest => ?_⟩
      have := hwork hrest
      have hrank : rank (some h) = 2 := by rw [rank, hstate]
      simp only [measure, put, hrank]
      omega
    | done _ hdone => exact absurd (hstate.symm.trans hdone) (by decide)
  | @collect n h s hstate =>
    cases hc with
    | reading hp _ hwaits hr =>
      obtain ⟨htracks, hwork⟩ := collect_step hr hp (hwaits hstate) n
      refine ⟨htracks, fun _ => (delivered_or_due hr.sound).imp_right fun hrest => ?_⟩
      have := hwork hrest
      have hrank : rank (some h) = 1 := by rw [rank, hstate]
      simp only [measure, put, hrank]
      omega
    | done _ hdone => exact absurd (hstate.symm.trans hdone) (by decide)
  | @release h s hstate =>
    cases hc with
    | reading _ hunfinished => exact absurd hstate hunfinished
    | done hp _ hs =>
      obtain ⟨htracks, hkept⟩ := release_step hs hp hstate
      refine ⟨htracks, fun _ => .inr ?_⟩
      have hrank : rank (some h) = 4 := by rw [rank, hstate]
      have hrank' : rank none = 3 := rfl
      simp only [measure, hkept, hrank, hrank']
      omega
  | cancel n s hstate =>
    cases hc with
    | reading hp hunfinished _ hr => exact ⟨cancel_step hr hp hunfinished n, fun hwait => hwait.elim⟩
    | done _ hdone => exact absurd hdone hstate

theorem Tracks.kept (a : Action) : Tracks frames (c.step a) := by
  rcases step_cases a c with hsame | hmove
  · rw [hsame]
    exact hc
  · exact (hc.moved hmove).1

theorem Tracks.run (actions : List Action) : Tracks frames (runSteps step actions c) := by
  apply inv_runSteps_of_step _ hc
  intro a c hc
  exact hc.kept a

theorem Tracks.progress :
    c.receiver.messages = frames ∨ ∃ a, Waiting a ∧ c.step a ≠ c := by
  have hmoves : ∀ a, Waiting a → Move a c (c.step a) →
      c.receiver.messages = frames ∨ ∃ a, Waiting a ∧ c.step a ≠ c := by
    intro a hwait hmove
    refine ((hc.moved hmove).2 hwait).imp_right fun hlower => ⟨a, hwait, fun hsame => ?_⟩
    rw [hsame] at hlower
    exact absurd hlower (Nat.lt_irrefl _)
  cases hc with
  | @idle s => exact hmoves .create trivial (.create s)
  | @reading h s _ _ hunfinished =>
    cases hstate : h.state with
    | standby =>
      apply hmoves (.schedule none) trivial
      rw [show step (.schedule none) ⟨some h, s⟩ = put (h.schedule none s) from if_pos hstate]
      exact .schedule none s hstate
    | pending =>
      apply hmoves (.collect 0) trivial
      rw [show step (.collect 0) ⟨some h, s⟩ = put (h.collect 0 s) from if_pos hstate]
      exact .collect 0 s hstate
    | completed => exact absurd hstate hunfinished
  | @done h s _ _ hdone =>
    apply hmoves .release trivial
    rw [show step .release ⟨some h, s⟩ = ⟨none, h.destroy 0 s⟩ from if_pos hdone]
    exact .release s hdone

theorem Tracks.leads : Leads step Waiting (fun c => c.receiver.messages = frames) c := by
  apply leads_of_measure (Tracks frames) (measure frames)
  · intro a c hc _
    exact hc.kept a
  · intro a c hc hwait hne
    exact (hc.moved ((step_cases a c).resolve_left hne)).2 hwait
  · intro c hc
    exact hc.progress
  · exact hc

theorem Tracks.sound : ∃ rest held, Sound frames rest held c.receiver := by
  cases hc with
  | idle hs => exact ⟨_, _, hs⟩
  | reading _ _ _ hr => exact ⟨_, _, hr.sound⟩
  | done _ _ hs => exact ⟨_, _, hs⟩

end

theorem initial_tracks (frames : List Frame) (buffer : List UInt8) :
    Tracks (frames.map Subtype.val) (initial frames buffer) := by
  have hwellFormed : ∀ m ∈ frames.map Subtype.val, IsMessage m := by
    intro m hm
    obtain ⟨frame, -, rfl⟩ := mem_map.mp hm
    exact frame.2
  refine .idle ⟨hwellFormed, rfl, rfl, Nat.zero_le _, ?_, ?_, rfl⟩
  · intro r hr
    cases hr
  · intro hfalse
    cases hfalse

/-- Whatever receives are cancelled, the messages are delivered one after the other, no receive
asks for more than the message that is due, and a receiver that waits gets the rest. -/
theorem receives_lose_nothing (frames : List Frame) (buffer : List UInt8) (actions : List Action) :
    let messages := frames.map Subtype.val
    let c := runSteps step actions (initial frames buffer)
    c.receiver.messages <+: messages ∧ c.receiver.error = none ∧
      (c.receiver.closed = true → c.receiver.messages = messages) ∧
      (∀ r ∈ c.receiver.reads, r.offset + r.length ≤ dueSize (messages.drop r.after)) ∧
      Leads step Waiting (fun c => c.receiver.messages = messages) c := by
  intro messages c
  have hc : Tracks messages c := (initial_tracks frames buffer).run actions
  obtain ⟨rest, held, hs⟩ := hc.sound
  exact ⟨⟨rest, hs.messages.symm⟩, hs.error, hs.closed, hs.reads, hc.leads⟩

end Reception

end WslPlus.Channel

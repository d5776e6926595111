import WslPlus.Channel.SocketChannel
import WslPlus.Lib.Transition

/-!
# Sequence numbers outside of transactions

One end sends messages inside and outside of transactions, and the other end receives either. The
counter of the receiver is advanced before a receive that may take no such message, and it is not
advanced when a receive of a transaction discards one.
-/

namespace WslPlus.Channel

open List

/-- One direction of a channel. `missed` counts the receives outside of transactions that took no
message of that kind, and `discarded` the messages of that kind that other receives took. -/
structure Flow where
  sender : SocketChannel
  receiver : SocketChannel
  inFlight : List (Message Unit)
  missed : Nat
  discarded : Nat

namespace Flow

def initial : Flow := ⟨{}, {}, [], 0, 0⟩

inductive Op where
  | send (step id : UInt32) (header : MessageHeader)
  | receive (kind : MessageKind) (step id : UInt32) (arrived : Nat)
  | ignoreSequenceNumbers

def numbers (l : List (Message Unit)) : List UInt32 :=
  (l.filter fun m => m.header.transactionStep = stepNone).map fun m => m.header.transactionId

def receive (s : Flow) (kind : MessageKind) (step id : UInt32) (arrived : Nat) :
    Except Error (Message Unit) × Flow :=
  let (r, c, rest) := s.receiver.receiveMessage kind step id (s.inFlight.take arrived)
  let taken := (numbers (s.inFlight.take arrived)).length - (numbers rest).length
  (r, { s with
    receiver := c
    inFlight := rest ++ s.inFlight.drop arrived
    missed := if step = stepNone then s.missed + (1 - taken) else s.missed
    discarded := if step = stepNone then s.discarded else s.discarded + taken })

def step : Op → Flow → Flow
  | .send step id header, s =>
    if header.messageSize.toNat < headerSize then s
    else
      let (c, m) := s.sender.sendMessage step id ⟨header, ()⟩
      { s with sender := c, inFlight := s.inFlight ++ [m] }
  | .receive kind step id arrived, s => (s.receive kind step id arrived).2
  | .ignoreSequenceNumbers, s => { s with receiver := { s.receiver with ignoreSequence := true } }

/-- The messages in flight are numbered on from those that were taken, and the receives outside of
transactions are those that took one and those that were missed. -/
structure Counted (s : Flow) : Prop where
  sized : ∀ m ∈ s.inFlight, ¬m.header.messageSize.toNat < headerSize
  counted : ∃ taken received, numbers s.inFlight =
      (List.range' (taken + 1) (numbers s.inFlight).length).map UInt32.ofNat ∧
    s.sender.sentNonTransactionMessages = .ofNat (taken + (numbers s.inFlight).length) ∧
    s.receiver.receivedNonTransactionMessages = .ofNat received ∧ received + s.discarded = taken + s.missed

section Receive

variable {step id : UInt32} {c : SocketChannel} {kind : MessageKind} {m : Message Unit} {l rest : List (Message Unit)}

theorem receiveMessage_transaction (c : SocketChannel) (kind : MessageKind) (hstep : step ≠ stepNone)
    (id : UInt32)
    (l : List (Message Unit)) : ∃ r taken rest, c.receiveMessage kind step id l = (r, c, rest) ∧
    l = taken ++ rest := by
  have hbefore : c.beforeReceive step = c := by rw [SocketChannel.beforeReceive, if_neg hstep]
  induction l with
  | nil => exact ⟨.error .timeout, [], [], by rw [SocketChannel.receiveMessage, hbefore], rfl⟩
  | cons m l ih =>
    rw [SocketChannel.receiveMessage]
    simp only [hbefore]
    split
    · obtain ⟨r, taken, rest, heq, hsplit⟩ := ih
      exact ⟨r, m :: taken, rest, heq, by rw [hsplit, cons_append]⟩
    · rename_i e _
      exact ⟨.error e, [m], l, rfl, rfl⟩
    · exact ⟨_, [m], l, rfl, rfl⟩

theorem inspectNonTransaction_ne_skip (c : SocketChannel) (h : MessageHeader) :
    c.inspectNonTransaction h ≠ .skip := by
  rw [SocketChannel.inspectNonTransaction]
  split
  · decide
  · split
    · decide
    · split
      · decide
      · decide

theorem receiveMessage_cons (c : SocketChannel) (kind : MessageKind) (id : UInt32) (m : Message Unit)
    (rest : List (Message Unit)) (hsize : ¬m.header.messageSize.toNat < headerSize) :
    ∃ r, c.receiveMessage kind stepNone id (m :: rest) = (r, c.beforeReceive stepNone, rest) ∧
      (r = .error .unexpectedNonTransactionId ↔
        (c.beforeReceive stepNone).inspectNonTransaction m.header = .fail .unexpectedNonTransactionId) := by
  have hinspect : (c.beforeReceive stepNone).inspect stepNone id m.header =
      (c.beforeReceive stepNone).inspectNonTransaction m.header := by
    rw [SocketChannel.inspect, if_neg hsize, if_pos rfl]
  rw [SocketChannel.receiveMessage]
  simp only [hinspect]
  split
  · rename_i hskip
    exact absurd hskip (inspectNonTransaction_ne_skip _ _)
  · rename_i e hfail
    refine ⟨.error e, rfl, ?_⟩
    rw [hfail]
    simp
  · rename_i htake
    refine ⟨SocketChannel.validate kind m, rfl, ?_⟩
    rw [htake]
    simp only [reduceCtorEq, iff_false]
    intro herror
    have := SocketChannel.validate_error herror
    cases this

theorem inspectNonTransaction_fails_iff (hm : m.header.transactionStep = stepNone) :
    c.inspectNonTransaction m.header = .fail .unexpectedNonTransactionId ↔
      c.ignoreSequence = false ∧ m.header.transactionId ≠ c.receivedNonTransactionMessages := by
  cases hignore : c.ignoreSequence with
  | true => simp [SocketChannel.inspectNonTransaction, hignore]
  | false =>
    by_cases hid : m.header.transactionId = c.receivedNonTransactionMessages
    · simp [SocketChannel.inspectNonTransaction, hignore, hm, hid]
    · simp [SocketChannel.inspectNonTransaction, hignore, hm, hid]

end Receive

section Counting

variable {s : Flow} {m : Message Unit} {l : List (Message Unit)}

theorem numbers_append (l l' : List (Message Unit)) : numbers (l ++ l') = numbers l ++ numbers l' := by
  rw [numbers, filter_append, map_append]
  rfl

theorem numbers_cons_none (hm : m.header.transactionStep = stepNone) :
    numbers (m :: l) = m.header.transactionId :: numbers l := by
  rw [numbers, filter_cons_of_pos (by simpa using hm)]
  rfl

theorem numbers_cons_ne (hm : m.header.transactionStep ≠ stepNone) : numbers (m :: l) = numbers l := by
  rw [numbers, filter_cons_of_neg (by simpa using hm)]
  rfl

theorem Counted.initial : Counted initial where
  sized := by intro m hm; cases hm
  counted := ⟨0, 0, rfl, rfl, rfl, rfl⟩

theorem Counted.send (h : s.Counted) (step id : UInt32) (header : MessageHeader) :
    (Flow.step (.send step id header) s).Counted := by
  rw [Flow.step]
  split
  · exact h
  · rename_i hsize
    obtain ⟨taken, received, hnumbers, hsent, hrecv, hbalance⟩ := h.counted
    have hsized {m : Message Unit} (hm : m.header.messageSize = header.messageSize) :
        ∀ m' ∈ s.inFlight ++ [m], ¬m'.header.messageSize.toNat < headerSize := by
      intro m' hm'
      rcases mem_append.mp hm' with hm' | hm'
      · exact h.sized m' hm'
      · rw [mem_singleton.mp hm', hm]
        exact hsize
    by_cases hstep : step = stepNone
    · simp only [SocketChannel.sendMessage, if_pos hstep]
      refine ⟨hsized rfl, taken, received, ?_, ?_, hrecv, hbalance⟩
      · rw [numbers_append, numbers_cons_none rfl, length_append]
        rw [show ∀ x : UInt32, (x :: numbers []).length = 1 from fun _ => rfl, List.range'_concat, map_append,
          ← hnumbers]
        refine congrArg _ ?_
        rw [map_singleton, hsent, ofNat_succ]
        exact congrArg (fun n => [UInt32.ofNat n]) (by omega)
      · rw [numbers_append, numbers_cons_none rfl, length_append, hsent, ofNat_succ]
        rfl
    · simp only [SocketChannel.sendMessage, if_neg hstep]
      have hsame {m : Message Unit} (hm : m.header.transactionStep = step) :
          numbers (s.inFlight ++ [m]) = numbers s.inFlight := by
        rw [numbers_append, numbers_cons_ne (by rw [hm]; exact hstep)]
        exact append_nil _
      refine ⟨hsized rfl, taken, received, ?_, ?_, hrecv, hbalance⟩
      · rw [hsame rfl]
        exact hnumbers
      · rw [hsame rfl]
        exact hsent

theorem Counted.behind (taken : List (Message Unit)) {rest : List (Message Unit)} {n : Nat}
    (hsplit : l = taken ++ rest)
    (hnumbers : numbers l = (List.range' (n + 1) (numbers l).length).map UInt32.ofNat) :
    numbers rest = (List.range' (n + (numbers taken).length + 1) (numbers rest).length).map UInt32.ofNat := by
  rw [hsplit, numbers_append] at hnumbers
  have hdrop := congrArg (List.drop (numbers taken).length) hnumbers
  rw [drop_left' rfl, ← map_drop, drop_range', length_append, Nat.add_sub_cancel_left] at hdrop
  rw [hdrop]
  simp only [length_map, length_range', Nat.mul_one]
  rw [show n + 1 + (numbers taken).length = n + (numbers taken).length + 1 by omega]

theorem Counted.receive (h : s.Counted) (kind : MessageKind) (step id : UInt32) (arrived : Nat) :
    (s.receive kind step id arrived).2.Counted := by
  obtain ⟨taken, received, hnumbers, hsent, hrecv, hbalance⟩ := h.counted
  have hsplit := take_append_drop arrived s.inFlight
  by_cases hstep : step = stepNone
  · subst hstep
    cases htake : s.inFlight.take arrived with
    | nil =>
      rw [htake, nil_append] at hsplit
      simp only [Flow.receive, htake, SocketChannel.receiveMessage, if_true, nil_append, hsplit]
      refine ⟨h.sized, taken, received + 1, hnumbers, hsent, ?_, ?_⟩
      · simp only [SocketChannel.beforeReceive, if_true, hrecv, ofNat_succ]
      · simp only [Nat.sub_self]
        omega
    | cons m rest =>
      rw [htake, cons_append] at hsplit
      have hsize := h.sized m (by rw [← hsplit]; exact mem_cons_self)
      obtain ⟨r, heq, -⟩ := receiveMessage_cons s.receiver kind id m rest hsize
      have hsized : ∀ m' ∈ rest ++ s.inFlight.drop arrived, ¬m'.header.messageSize.toNat < headerSize := by
        intro m' hm'
        refine h.sized m' ?_
        rw [← hsplit]
        exact mem_cons_of_mem m hm'
      have hbehind := Counted.behind [m] hsplit.symm hnumbers
      have hsum := congrArg (fun l => (numbers l).length) hsplit
      have hcount : (s.receiver.beforeReceive stepNone).receivedNonTransactionMessages = .ofNat (received + 1) := by
        simp only [SocketChannel.beforeReceive, if_true, hrecv, ofNat_succ]
      simp only [Flow.receive, htake, heq, if_true]
      by_cases hm : m.header.transactionStep = stepNone
      · simp only [numbers_cons_none hm, length_cons] at hsum hbehind ⊢
        refine ⟨hsized, taken + 1, received + 1, hbehind, ?_, hcount, ?_⟩
        · rw [hsent, ← hsum]
          exact congrArg UInt32.ofNat (by simp only; omega)
        · simp only
          omega
      · simp only [numbers_cons_ne hm] at hsum hbehind ⊢
        refine ⟨hsized, taken, received + 1, hbehind, ?_, hcount, ?_⟩
        · rw [hsent, ← hsum]
        · simp only
          omega
  · obtain ⟨r, before, rest, heq, htaken⟩ := receiveMessage_transaction s.receiver kind hstep id (s.inFlight.take arrived)
    have hwhole : s.inFlight = before ++ (rest ++ s.inFlight.drop arrived) := by
      rw [← append_assoc, ← htaken, hsplit]
    have hlen : (numbers (s.inFlight.take arrived)).length - (numbers rest).length = (numbers before).length := by
      rw [htaken, numbers_append, length_append]
      omega
    simp only [Flow.receive, heq, hlen, if_neg hstep]
    refine ⟨?_, taken + (numbers before).length, received, Counted.behind before hwhole hnumbers, ?_, hrecv, ?_⟩
    · intro m hm
      refine h.sized m ?_
      rw [hwhole]
      exact mem_append_right before hm
    · have hsum := congrArg (fun l => (numbers l).length) hwhole
      simp only [numbers_append before, length_append] at hsum
      rw [hsent, hsum, Nat.add_assoc]
    · simp only
      omega

theorem Counted.kept (h : s.Counted) (op : Op) : (Flow.step op s).Counted := by
  cases op with
  | send step id header => exact h.send step id header
  | receive kind step id arrived => exact h.receive kind step id arrived
  | ignoreSequenceNumbers => exact ⟨h.sized, h.counted⟩

theorem ofNat_eq_iff (a b : Nat) : UInt32.ofNat a = UInt32.ofNat b ↔ a % 2 ^ 32 = b % 2 ^ 32 := by
  rw [← UInt32.toNat_inj, UInt32.toNat_ofNat', UInt32.toNat_ofNat']

theorem Counted.check_iff (h : s.Counted) (kind : MessageKind) (id : UInt32) {arrived : Nat}
    {rest : List (Message Unit)} (hnext : s.inFlight.take arrived = m :: rest)
    (hm : m.header.transactionStep = stepNone) :
    (s.receive kind stepNone id arrived).1 ≠ .error .unexpectedNonTransactionId ↔
      s.receiver.ignoreSequence = true ∨ s.missed % 2 ^ 32 = s.discarded % 2 ^ 32 := by
  obtain ⟨taken, received, hnumbers, -, hrecv, hbalance⟩ := h.counted
  have hsplit := take_append_drop arrived s.inFlight
  rw [hnext, cons_append] at hsplit
  have hsize := h.sized m (by rw [← hsplit]; exact mem_cons_self)
  have hid : m.header.transactionId = .ofNat (taken + 1) := by
    rw [← hsplit, numbers_cons_none hm, length_cons, List.range'_succ, map_cons] at hnumbers
    exact (List.cons.inj hnumbers).1
  have hignore : (s.receiver.beforeReceive stepNone).ignoreSequence = s.receiver.ignoreSequence := by
    simp only [SocketChannel.beforeReceive, if_true]
  have hcount : (s.receiver.beforeReceive stepNone).receivedNonTransactionMessages = .ofNat (received + 1) := by
    simp only [SocketChannel.beforeReceive, if_true, hrecv, ofNat_succ]
  obtain ⟨r, heq, hr⟩ := receiveMessage_cons s.receiver kind id m rest hsize
  have hres : (s.receive kind stepNone id arrived).1 = r := by
    simp only [Flow.receive, hnext, heq]
  rw [hres, ne_eq, hr, inspectNonTransaction_fails_iff hm, hignore, hcount, hid, ne_eq, ofNat_eq_iff, not_and_or,
    not_not, Bool.not_eq_false]
  refine or_congr_right ?_
  omega

end Counting

/-- After every run, a receive outside of transactions whose next message is outside of transactions
passes the check of the sequence if and only if sequence numbers are ignored or, modulo `2 ^ 32`, as
many such receives have taken no such message as such messages were discarded. -/
theorem sequence_check_iff (ops : List Op) (kind : MessageKind) (id : UInt32) (arrived : Nat) {m : Message Unit}
    {rest : List (Message Unit)} (hnext : (runSteps step ops initial).inFlight.take arrived = m :: rest)
    (hm : m.header.transactionStep = stepNone) :
    ((runSteps step ops initial).receive kind stepNone id arrived).1 ≠ .error .unexpectedNonTransactionId ↔
      (runSteps step ops initial).receiver.ignoreSequence = true ∨
        (runSteps step ops initial).missed % 2 ^ 32 = (runSteps step ops initial).discarded % 2 ^ 32 := by
  have h : (runSteps step ops initial).Counted := inv_runSteps_of_step (fun op s hs => hs.kept op) Counted.initial
  exact h.check_iff kind id hnext hm

def plainHeader : MessageHeader := ⟨0, 16, 0, 0⟩

def anyMessage : MessageKind := ⟨none, 16⟩

def balancedRun : List Op :=
  [.receive anyMessage stepNone 0 1, .send stepNone 0 plainHeader, .send 2 7 plainHeader, .receive anyMessage 2 7 2,
    .send stepNone 0 plainHeader]

theorem balancedRun_passes :
    ((runSteps step balancedRun initial).receive anyMessage stepNone 0 1).1 ≠ .error .unexpectedNonTransactionId := by
  have hnext : (runSteps step balancedRun initial).inFlight.take 1 = [⟨⟨0, 16, 2, 0⟩, ()⟩] := by decide
  exact (sequence_check_iff balancedRun anyMessage 0 1 hnext rfl).mpr (.inr (by decide))

def retriedRun : List Op := [.receive anyMessage stepNone 0 1, .send stepNone 0 plainHeader]

theorem retriedRun_fails :
    (runSteps step retriedRun initial).inFlight = [⟨⟨0, 16, 1, 0⟩, ()⟩] ∧
      ((runSteps step retriedRun initial).receive anyMessage stepNone 0 1).1 =
        .error .unexpectedNonTransactionId := by
  decide

end Flow

end WslPlus.Channel

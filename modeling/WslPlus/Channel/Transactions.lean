import WslPlus.Channel.SocketChannel
import WslPlus.Lib.Transition

/-!
# Transactions over a channel

The initiator starts one transaction after the other, sends a request and receives replies; it
abandons a transaction by starting the next one, and a receive that fails ends it. The responder
reads a request and replies to it any number of times. Both may send other messages in between.
Every message is labelled with the transaction it belongs to and its place in it, which the code
does not see.
-/

namespace WslPlus.Channel

open List

/-- The number of a transaction, and a place in it: the request is at 1 and the replies follow. -/
structure Origin where
  transaction : Nat
  place : Nat
deriving DecidableEq

def Origin.next (o : Origin) : Origin := ⟨o.transaction, o.place + 1⟩

abbrev Labelled := Message (Option Origin)

/-- Both ends and the messages in flight. A transaction that goes on is at its next place. -/
structure Dialogue where
  initiator : SocketChannel
  responder : SocketChannel
  requests : List Labelled
  replies : List Labelled
  started : Nat
  current : Option (Transaction × Origin)
  serving : Option (Transaction × Origin)
  returned : List (Origin × Labelled)
  failures : List Error
deriving DecidableEq

namespace Dialogue

def initial : Dialogue := ⟨{}, {}, [], [], 0, none, none, [], []⟩

inductive Op where
  | start
  | request (header : MessageHeader)
  | receive (kind : MessageKind) (arrived : Nat)
  | serve (kind : MessageKind) (arrived : Nat)
  | reply (header : MessageHeader)
  | notifyResponder (header : MessageHeader)
  | notifyInitiator (header : MessageHeader)

def start (s : Dialogue) : Dialogue :=
  let (t, c) := Transaction.start s.initiator
  { s with initiator := c, current := some (t, ⟨s.started, 1⟩), started := s.started + 1 }

def request (s : Dialogue) (header : MessageHeader) : Dialogue :=
  match s.current with
  | some (t, o) =>
    if o.place = 1 then
      let (t', c, m) := t.send s.initiator ⟨header, some o⟩
      { s with initiator := c, requests := s.requests ++ [m], current := some (t', o.next) }
    else s
  | none => s

/-- `Receive` of the initiator; a failure ends the transaction. -/
def receive (s : Dialogue) (kind : MessageKind) (arrived : Nat) : Dialogue :=
  match s.current with
  | some (t, o) =>
    if o.place = 1 then s
    else
      let (r, c, rest) := s.initiator.receiveMessage kind t.step t.id (s.replies.take arrived)
      let s' := { s with initiator := c, replies := rest ++ s.replies.drop arrived }
      match r with
      | .ok m => { s' with current := some (t.received m, o.next), returned := s.returned ++ [(o, m)] }
      | .error e => { s' with current := none, failures := s.failures ++ [e] }
  | none => s

/-- `ReceiveTransaction` and the `Receive` of its request. -/
def serve (s : Dialogue) (kind : MessageKind) (arrived : Nat) : Dialogue :=
  let t := Transaction.toReceive
  let (r, c, rest) := s.responder.receiveMessage kind t.step t.id (s.requests.take arrived)
  let s' := { s with responder := c, requests := rest ++ s.requests.drop arrived }
  match r with
  | .ok m => { s' with serving := m.content.map fun o => (t.received m, o.next) }
  | .error e => { s' with serving := none, failures := s.failures ++ [e] }

def reply (s : Dialogue) (header : MessageHeader) : Dialogue :=
  match s.serving with
  | some (t, o) =>
    let (t', c, m) := t.send s.responder ⟨header, some o⟩
    { s with responder := c, replies := s.replies ++ [m], serving := some (t', o.next) }
  | none => s

def step : Op → Dialogue → Dialogue
  | .start, s => s.start
  | .request header, s => s.request header
  | .receive kind arrived, s => s.receive kind arrived
  | .serve kind arrived, s => s.serve kind arrived
  | .reply header, s => s.reply header
  | .notifyResponder header, s =>
    let (c, m) := s.initiator.sendMessage stepNone 0 ⟨header, none⟩
    { s with initiator := c, requests := s.requests ++ [m] }
  | .notifyInitiator header, s =>
    let (c, m) := s.responder.sendMessage stepNone 0 ⟨header, none⟩
    { s with responder := c, replies := s.replies ++ [m] }

/-- Fewer than `2 ^ 31` transactions are between the current one and a reply that a receive meets. -/
def Recent : Op → Dialogue → Prop
  | .receive _ arrived, s =>
    ∀ m ∈ s.replies.take arrived, m.content.all fun o => s.started - 1 - o.transaction < 2 ^ 31
  | _, _ => True

def Unwrapped : Op → Dialogue → Prop
  | .receive _ _, s => s.current.all fun p => p.1.step != stepNone
  | _, _ => True

instance (op : Op) (s : Dialogue) : Decidable (Recent op s) :=
  match op with
  | .receive _ arrived => inferInstanceAs (Decidable
      (∀ m ∈ s.replies.take arrived, m.content.all fun o => s.started - 1 - o.transaction < 2 ^ 31))
  | .start => .isTrue trivial
  | .request _ => .isTrue trivial
  | .serve _ _ => .isTrue trivial
  | .reply _ => .isTrue trivial
  | .notifyResponder _ => .isTrue trivial
  | .notifyInitiator _ => .isTrue trivial

instance (op : Op) (s : Dialogue) : Decidable (Unwrapped op s) :=
  match op with
  | .receive _ _ => inferInstanceAs (Decidable (s.current.all fun p => p.1.step != stepNone))
  | .start => .isTrue trivial
  | .request _ => .isTrue trivial
  | .serve _ _ => .isTrue trivial
  | .reply _ => .isTrue trivial
  | .notifyResponder _ => .isTrue trivial
  | .notifyInitiator _ => .isTrue trivial

/-- Every message that was returned was sent for its transaction at its place, and no receive has
failed for the order of the messages. -/
structure Orderly (s : Dialogue) : Prop where
  returned : ∀ r ∈ s.returned, r.2.content = some r.1
  failures : ∀ e ∈ s.failures, Error.ofOrder e = false

section Messages

variable {i p : Nat} {m : Labelled} {l : List Labelled} {kind : MessageKind}

def RequestOk (started : Nat) (m : Labelled) : Prop :=
  match m.content with
  | none => m.header.transactionStep = stepNone
  | some o => o.transaction < started ∧ o.place = 1 ∧ m.header.transactionStep = stepRequest ∧
      m.header.transactionId = .ofNat o.transaction

def ReplyOk (started : Nat) (m : Labelled) : Prop :=
  match m.content with
  | none => m.header.transactionStep = stepNone
  | some o => o.transaction < started ∧ m.header.transactionStep = .ofNat o.place ∧
      (m.header.transactionStep ≠ stepNone → m.header.transactionId = .ofNat o.transaction)

def labels (i : Nat) (l : List Labelled) : List Origin :=
  (l.filterMap Message.content).filter fun o => o.transaction = i

theorem labels_append (i : Nat) (l l' : List Labelled) : labels i (l ++ l') = labels i l ++ labels i l' := by
  rw [labels, filterMap_append, filter_append]
  rfl

theorem labels_cons_none (hm : m.content = none) : labels i (m :: l) = labels i l := by
  rw [labels, filterMap_cons_none hm]
  rfl

theorem labels_cons_ne {o : Origin} (hm : m.content = some o) (hne : o.transaction ≠ i) :
    labels i (m :: l) = labels i l := by
  rw [labels, filterMap_cons_some hm, filter_cons_of_neg (by simpa using hne)]
  rfl

theorem labels_cons_eq {o : Origin} (hm : m.content = some o) (heq : o.transaction = i) :
    labels i (m :: l) = o :: labels i l := by
  rw [labels, filterMap_cons_some hm, filter_cons_of_pos (by simpa using heq)]
  rfl

theorem labels_eq_nil (h : ∀ m ∈ l, ∀ o, m.content = some o → o.transaction ≠ i) : labels i l = [] := by
  induction l with
  | nil => rfl
  | cons m l ih =>
    have hl := ih fun m' hm' => h m' (mem_cons_of_mem m hm')
    cases hm : m.content with
    | none => rw [labels_cons_none hm, hl]
    | some o => rw [labels_cons_ne hm (h m mem_cons_self o hm), hl]

theorem toInt_diff (i j : Nat) :
    ((UInt32.ofNat j - UInt32.ofNat i).toInt32).toInt = ((j : Int) - i).bmod (2 ^ 32) := by
  rw [UInt32.toInt32_sub]
  simp [Int32.toInt_sub]

theorem inspectReply_older {h : MessageHeader} {j : Nat} (step : UInt32) (hid : h.transactionId = .ofNat j)
    (hlt : j < i) (hrecent : i - j < 2 ^ 31) : SocketChannel.inspectReply step (.ofNat i) h = .skip := by
  have hneg : (h.transactionId - .ofNat i).toInt32 < 0 := by
    rw [hid, Int32.lt_iff_toInt_lt, toInt_diff, Int.bmod_eq_of_le (by omega) (by omega)]
    simp only [Int32.toInt_zero]
    omega
  rw [SocketChannel.inspectReply, if_pos hneg]

theorem inspectReply_same {h : MessageHeader} {step : UInt32} (hid : h.transactionId = .ofNat i)
    (hstep : h.transactionStep = step) : SocketChannel.inspectReply step (.ofNat i) h = .take := by
  have hzero : (h.transactionId - .ofNat i).toInt32 = 0 := by
    rw [hid, UInt32.sub_self]
    rfl
  rw [SocketChannel.inspectReply, hzero]
  simp [hstep]

/-- What a receive of the next reply to the current transaction comes to. -/
structure Outcome (l : List Labelled) (i p : Nat) (r : Except Error Labelled) (rest : List Labelled) :
    Prop where
  suffix : ∃ taken, l = taken ++ rest
  ok : ∀ m, r = .ok m → m.content = some ⟨i, p⟩ ∧ labels i l = ⟨i, p⟩ :: labels i rest
  error : ∀ e, r = .error e → Error.ofOrder e = false

theorem Outcome.skipped {r : Except Error Labelled} {rest : List Labelled} (h : Outcome l i p r rest)
    (hm : labels i (m :: l) = labels i l) : Outcome (m :: l) i p r rest where
  suffix := by
    obtain ⟨taken, htaken⟩ := h.suffix
    exact ⟨m :: taken, by rw [htaken, cons_append]⟩
  ok := by
    rw [hm]
    exact h.ok
  error := h.error

theorem receiveMessage_reply (c : SocketChannel) (kind : MessageKind)
    (hnone : UInt32.ofNat p ≠ stepNone) (hreq : UInt32.ofNat p ≠ stepRequest)
    (hok : ∀ m ∈ l, ReplyOk (i + 1) m) (hrecent : ∀ m ∈ l, m.content.all fun o => i - o.transaction < 2 ^ 31)
    (hfirst : ∀ o rest, labels i l = o :: rest → o = ⟨i, p⟩) :
    ∃ r rest, c.receiveMessage kind (.ofNat p) (.ofNat i) l = (r, c, rest) ∧ Outcome l i p r rest := by
  have hbefore : c.beforeReceive (.ofNat p) = c := by rw [SocketChannel.beforeReceive, if_neg hnone]
  induction l with
  | nil =>
    refine ⟨.error .timeout, [], by rw [SocketChannel.receiveMessage, hbefore], ⟨[], rfl⟩, ?_, ?_⟩
    · intro m hm
      cases hm
    · intro e he
      cases he
      rfl
  | cons m l ih =>
    have hm := hok m mem_cons_self
    have hskip (hlabels : labels i (m :: l) = labels i l)
        (hverdict : c.inspect (.ofNat p) (.ofNat i) m.header = .skip) :
        ∃ r rest, c.receiveMessage kind (.ofNat p) (.ofNat i) (m :: l) = (r, c, rest) ∧
          Outcome (m :: l) i p r rest := by
      obtain ⟨r, rest, heq, hout⟩ := ih (fun m' hm' => hok m' (mem_cons_of_mem m hm'))
        (fun m' hm' => hrecent m' (mem_cons_of_mem m hm')) (by rw [← hlabels]; exact hfirst)
      refine ⟨r, rest, ?_, hout.skipped hlabels⟩
      rw [SocketChannel.receiveMessage]
      simp only [hbefore, hverdict]
      exact heq
    by_cases hsize : m.header.messageSize.toNat < headerSize
    · refine ⟨.error .headerTooSmall, l, ?_, ⟨[m], rfl⟩, ?_, ?_⟩
      · rw [SocketChannel.receiveMessage]
        simp only [hbefore, SocketChannel.inspect, if_pos hsize]
      · intro m' hm'
        cases hm'
      · intro e he
        cases he
        rfl
    have hinspect (hstep : m.header.transactionStep ≠ stepNone) : c.inspect (.ofNat p) (.ofNat i) m.header =
        SocketChannel.inspectReply (.ofNat p) (.ofNat i) m.header := by
      rw [SocketChannel.inspect, if_neg hsize, if_neg hnone, if_neg hstep, if_neg hreq]
    have hinspectNone (hstep : m.header.transactionStep = stepNone) :
        c.inspect (.ofNat p) (.ofNat i) m.header = .skip := by
      rw [SocketChannel.inspect, if_neg hsize, if_neg hnone, if_pos hstep]
    cases hcont : m.content with
    | none =>
      simp only [ReplyOk, hcont] at hm
      exact hskip (labels_cons_none hcont) (hinspectNone hm)
    | some o =>
      simp only [ReplyOk, hcont] at hm
      obtain ⟨hlt, hstep, hid⟩ := hm
      by_cases hi : o.transaction = i
      · have hlabels : labels i (m :: l) = o :: labels i l := labels_cons_eq hcont hi
        have ho := hfirst o _ hlabels
        subst ho
        have hne : m.header.transactionStep ≠ stepNone := by
          rw [hstep]
          exact hnone
        refine ⟨SocketChannel.validate kind m, l, ?_, ⟨[m], rfl⟩, ?_, fun e => SocketChannel.validate_error⟩
        · rw [SocketChannel.receiveMessage]
          simp only [hbefore, hinspect hne, inspectReply_same (hid hne) hstep]
        · intro m' hm'
          rw [SocketChannel.validate_ok hm']
          exact ⟨hcont, hlabels⟩
      · have hlabels := labels_cons_ne (l := l) hcont hi
        by_cases hne : m.header.transactionStep = stepNone
        · exact hskip hlabels (hinspectNone hne)
        · refine hskip hlabels ?_
          rw [hinspect hne]
          have hnear := hrecent m mem_cons_self
          rw [hcont, Option.all_some, decide_eq_true_eq] at hnear
          exact inspectReply_older _ (hid hne) (by omega) hnear

/-- What a receive of the next request comes to. -/
structure Reading (l : List Labelled) (r : Except Error Labelled) (rest : List Labelled) : Prop where
  suffix : ∃ taken, l = taken ++ rest
  ok : ∀ m, r = .ok m → m.header.transactionStep = stepRequest ∧ ∃ taken, l = taken ++ m :: rest
  error : ∀ e, r = .error e → Error.ofOrder e = false

theorem receiveMessage_request (c : SocketChannel) (kind : MessageKind) (l : List Labelled) (id : UInt32) :
    ∃ r rest, c.receiveMessage kind stepRequest id l = (r, c, rest) ∧ Reading l r rest := by
  have hbefore : c.beforeReceive stepRequest = c := by
    rw [SocketChannel.beforeReceive, if_neg (by decide)]
  induction l with
  | nil =>
    refine ⟨.error .timeout, [], by rw [SocketChannel.receiveMessage, hbefore], ⟨[], rfl⟩, ?_, ?_⟩
    · intro m hm
      cases hm
    · intro e he
      cases he
      rfl
  | cons m l ih =>
    have hskip (hverdict : c.inspect stepRequest id m.header = .skip) :
        ∃ r rest, c.receiveMessage kind stepRequest id (m :: l) = (r, c, rest) ∧ Reading (m :: l) r rest := by
      obtain ⟨r, rest, heq, hsuffix, hok, herror⟩ := ih
      refine ⟨r, rest, ?_, ?_, ?_, herror⟩
      · rw [SocketChannel.receiveMessage]
        simp only [hbefore, hverdict]
        exact heq
      · obtain ⟨taken, htaken⟩ := hsuffix
        exact ⟨m :: taken, by rw [htaken, cons_append]⟩
      · intro m' hm'
        obtain ⟨hstep, taken, htaken⟩ := hok m' hm'
        exact ⟨hstep, m :: taken, by rw [htaken, cons_append]⟩
    by_cases hsize : m.header.messageSize.toNat < headerSize
    · refine ⟨.error .headerTooSmall, l, ?_, ⟨[m], rfl⟩, ?_, ?_⟩
      · rw [SocketChannel.receiveMessage]
        simp only [hbefore, SocketChannel.inspect, if_pos hsize]
      · intro m' hm'
        cases hm'
      · intro e he
        cases he
        rfl
    by_cases hstep : m.header.transactionStep = stepRequest
    · refine ⟨SocketChannel.validate kind m, l, ?_, ⟨[m], rfl⟩, ?_, fun e => SocketChannel.validate_error⟩
      · have hverdict : c.inspect stepRequest id m.header = .take := by
          rw [SocketChannel.inspect, if_neg hsize, if_neg (by decide), if_neg (by rw [hstep]; decide), if_pos rfl,
            if_neg (not_not.mpr hstep)]
        rw [SocketChannel.receiveMessage]
        simp only [hbefore, hverdict]
      · intro m' hm'
        rw [SocketChannel.validate_ok hm']
        exact ⟨hstep, [], rfl⟩
    · refine hskip ?_
      rw [SocketChannel.inspect, if_neg hsize, if_neg (by decide), if_pos rfl, if_pos hstep]
      exact ite_self _

end Messages

end Dialogue

end WslPlus.Channel

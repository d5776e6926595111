import Mathlib.Algebra.GroupWithZero.Nat
import Mathlib.Data.List.Basic

/-!
# Messages on a socket channel

Both ends of a channel number their messages. A message outside of any transaction carries the
number of such messages sent so far, and a message of a transaction carries the number of the
transaction and its step in it. What a message contains plays no part here.
-/

namespace WslPlus.Channel

/-- `MESSAGE_HEADER`. -/
structure MessageHeader where
  messageType : UInt32
  messageSize : UInt32
  transactionId : UInt32
  transactionStep : UInt32
deriving DecidableEq

def headerSize : Nat := 16

/-- `TRANSACTION_STEP::NONE`. -/
def stepNone : UInt32 := 0

/-- `TRANSACTION_STEP::REQUEST`. -/
def stepRequest : UInt32 := 1

structure Message (α : Type) where
  header : MessageHeader
  content : α
deriving DecidableEq

/-- What `TMessage` says of a message: its type, unless any will do, and its least size. -/
structure MessageKind where
  type : Option UInt32
  size : Nat

inductive Error where
  | timeout
  | headerTooSmall
  | unexpectedTransaction
  | unexpectedNonTransactionId
  | unexpectedTransactionId
  | unexpectedTransactionStep
  | messageTooSmall
  | protocolError
deriving DecidableEq

def Error.ofOrder : Error → Bool
  | .unexpectedTransaction => true
  | .unexpectedNonTransactionId => true
  | .unexpectedTransactionId => true
  | .unexpectedTransactionStep => true
  | _ => false

theorem ofNat_succ (n : Nat) : UInt32.ofNat n + 1 = UInt32.ofNat (n + 1) := by
  rw [UInt32.ofNat_add]
  rfl

/-- The members of `SocketChannel` that count messages. -/
structure SocketChannel where
  sentNonTransactionMessages : UInt32 := 0
  receivedNonTransactionMessages : UInt32 := 0
  transactionIdSeed : UInt32 := 0
  ignoreSequence : Bool := false
deriving DecidableEq

namespace SocketChannel

variable {α : Type}

def sendMessage (c : SocketChannel) (step id : UInt32) (m : Message α) : SocketChannel × Message α :=
  if step = stepNone then
    let sent := c.sentNonTransactionMessages + 1
    ({ c with sentNonTransactionMessages := sent },
      { m with header := { m.header with transactionId := sent, transactionStep := stepNone } })
  else (c, { m with header := { m.header with transactionId := id, transactionStep := step } })

/-- How the loop of `ReceiveMessageOrClosed` goes on with a message. -/
inductive Verdict where
  | take
  | skip
  | fail (e : Error)
deriving DecidableEq

def inspectNonTransaction (c : SocketChannel) (h : MessageHeader) : Verdict :=
  if c.ignoreSequence then .take
  else if h.transactionStep ≠ stepNone then .fail .unexpectedTransaction
  else if h.transactionId ≠ c.receivedNonTransactionMessages then .fail .unexpectedNonTransactionId
  else .take

def inspectReply (expectedStep expectedId : UInt32) (h : MessageHeader) : Verdict :=
  let diff := (h.transactionId - expectedId).toInt32
  if diff < 0 then .skip
  else if diff > 0 then .fail .unexpectedTransactionId
  else if h.transactionStep ≠ expectedStep then .fail .unexpectedTransactionStep
  else .take

def inspect (c : SocketChannel) (expectedStep expectedId : UInt32) (h : MessageHeader) : Verdict :=
  if h.messageSize.toNat < headerSize then .fail .headerTooSmall
  else if expectedStep = stepNone then c.inspectNonTransaction h
  else if h.transactionStep = stepNone then .skip
  else if expectedStep = stepRequest then if h.transactionStep ≠ stepRequest then .skip else .take
  else inspectReply expectedStep expectedId h

def validate (kind : MessageKind) (m : Message α) : Except Error (Message α) :=
  if m.header.messageSize.toNat < kind.size then .error .messageTooSmall
  else if m.header.messageSize.toNat < headerSize then .error .protocolError
  else if kind.type.any (· != m.header.messageType) then .error .protocolError
  else .ok m

theorem validate_ok {kind : MessageKind} {m m' : Message α} (h : validate kind m = .ok m') : m' = m := by
  rw [validate] at h
  split at h
  · cases h
  · split at h
    · cases h
    · split at h
      · cases h
      · cases h
        rfl

theorem validate_error {kind : MessageKind} {m : Message α} {e : Error} (h : validate kind m = .error e) :
    Error.ofOrder e = false := by
  rw [validate] at h
  split at h
  · cases h
    rfl
  · split at h
    · cases h
      rfl
    · split at h
      · cases h
        rfl
      · cases h

def beforeReceive (c : SocketChannel) (expectedStep : UInt32) : SocketChannel :=
  if expectedStep = stepNone then
    { c with receivedNonTransactionMessages := c.receivedNonTransactionMessages + 1 }
  else c

/-- `ReceiveMessage` with the messages that arrive before it times out; the rest stays in the
socket. -/
def receiveMessage (kind : MessageKind) (expectedStep expectedId : UInt32) :
    List (Message α) → SocketChannel → Except Error (Message α) × SocketChannel × List (Message α)
  | [], c => (.error .timeout, c.beforeReceive expectedStep, [])
  | m :: rest, c =>
    let c' := c.beforeReceive expectedStep
    match c'.inspect expectedStep expectedId m.header with
    | .skip => receiveMessage kind expectedStep expectedId rest c'
    | .fail e => (.error e, c', rest)
    | .take => (validate kind m, c', rest)

end SocketChannel

/-- `Transaction` of a channel, without its deadline. -/
structure Transaction where
  id : UInt32
  step : UInt32
deriving DecidableEq

namespace Transaction

variable {α : Type}

def start (c : SocketChannel) : Transaction × SocketChannel :=
  (⟨c.transactionIdSeed, stepRequest⟩, { c with transactionIdSeed := c.transactionIdSeed + 1 })

/-- `ReceiveTransaction`: the id is learnt from the request. -/
def toReceive : Transaction := ⟨0, stepRequest⟩

def send (t : Transaction) (c : SocketChannel) (m : Message α) : Transaction × SocketChannel × Message α :=
  ({ t with step := t.step + 1 }, c.sendMessage t.step t.id m)

/-- What `Receive` makes of the transaction if it returns a message. -/
def received (t : Transaction) (m : Message α) : Transaction :=
  ⟨if t.step = stepRequest then m.header.transactionId else t.id, t.step + 1⟩

end Transaction

end WslPlus.Channel

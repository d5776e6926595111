import WslPlus.Channel.SocketChannel
import WslPlus.Lib.Transition

/-!
# Reading messages on the host

A handle reads one message from a socket into a buffer that outlives it: first the header, then
what the header says is missing. A handle that is destroyed before it has its message leaves what
it has for the next handle on the same buffer.
-/

namespace WslPlus.Channel

def maxMessageSize : Nat := 16 * 1024 * 1024

/-- `MessageSize` of the header at the front of some bytes. -/
def messageSize (bytes : List UInt8) : Nat :=
  ((bytes.drop 4).take 4).foldr (fun b n => b.toNat + 256 * n) 0

def Frame : Type :=
  { m : List UInt8 // headerSize ≤ m.length ∧ m.length ≤ maxMessageSize ∧ messageSize m = m.length }

inductive IOHandleStatus where
  | standby
  | pending
  | completed
deriving DecidableEq

inductive ReadError where
  | closedInMessage
  | messageSizeTooSmall
  | messageSizeTooLarge
  | outOfBuffer

structure ReadSocketMessageHandle where
  readingHeader : Bool := true
  bytesRemaining : Nat := headerSize
  currentOffset : Nat := 0
  state : IOHandleStatus := .standby

/-- A receive that was asked for, with the number of messages that were delivered before. -/
structure Read where
  after : Nat
  offset : Nat
  length : Nat

/-- The buffers that the handles share, the bytes that are still to come from the socket, and what
the handles have done so far. -/
structure Receiver where
  buffer : List UInt8
  pendingBytes : List UInt8 := []
  incoming : List UInt8
  messages : List (List UInt8) := []
  closed : Bool := false
  reads : List Read := []
  error : Option ReadError := none

/-- `resize` to at least this size. -/
def ensureSize (size : Nat) (buffer : List UInt8) : List UInt8 :=
  if buffer.length < size then buffer ++ List.replicate (size - buffer.length) 0 else buffer

def store (offset : Nat) (bytes buffer : List UInt8) : List UInt8 :=
  buffer.take offset ++ bytes ++ buffer.drop (offset + bytes.length)

theorem store_length {offset : Nat} {bytes buffer : List UInt8} (h : offset + bytes.length ≤ buffer.length) :
    (store offset bytes buffer).length = buffer.length := by
  simp only [store, List.length_append, List.length_take, List.length_drop]
  omega

/-- `OnMessage`; the empty message is the end of the stream. -/
def Receiver.onMessage (message : List UInt8) (s : Receiver) : Receiver :=
  if message.isEmpty then { s with closed := true } else { s with messages := s.messages ++ [message] }

def Receiver.fail (e : ReadError) (s : Receiver) : Receiver := { s with error := some e }

namespace ReadSocketMessageHandle

def create (s : Receiver) : ReadSocketMessageHandle × Receiver :=
  let buffer := ensureSize headerSize s.buffer
  if s.pendingBytes.isEmpty then ({}, { s with buffer := buffer })
  else
    let size := s.pendingBytes.length
    ({ currentOffset := size, bytesRemaining := if size < headerSize then headerSize - size else 0 },
      { s with buffer := store 0 s.pendingBytes (ensureSize size buffer), pendingBytes := [] })

/-- What the socket puts into the buffer if it has at most `n` bytes at hand. -/
def recv (n : Nat) (h : ReadSocketMessageHandle) (s : Receiver) : Nat × Receiver :=
  let bytes := s.incoming.take (min n h.bytesRemaining)
  (bytes.length,
    { s with buffer := store h.currentOffset bytes s.buffer, incoming := s.incoming.drop bytes.length })

def processChunk (h : ReadSocketMessageHandle) (s : Receiver) : Bool × ReadSocketMessageHandle × Receiver :=
  let size := messageSize s.buffer
  if h.readingHeader then
    if size < headerSize then (false, h, s.fail .messageSizeTooSmall)
    else if maxMessageSize < size then (false, h, s.fail .messageSizeTooLarge)
    else
      let s := { s with buffer := ensureSize size s.buffer }
      let h := { h with
        readingHeader := false
        bytesRemaining := if h.currentOffset < size then size - h.currentOffset else h.bytesRemaining }
      if 0 < h.bytesRemaining then (true, h, s)
      else (false, { h with state := .completed }, s.onMessage (s.buffer.take size))
  else (false, { h with state := .completed }, s.onMessage (s.buffer.take size))

def processRecvResult (bytesRead : Nat) (h : ReadSocketMessageHandle) (s : Receiver) :
    ReadSocketMessageHandle × Receiver :=
  if bytesRead = 0 then
    if 0 < h.currentOffset then (h, s.fail .closedInMessage)
    else ({ h with state := .completed }, s.onMessage [])
  else
    let h := { h with
      currentOffset := h.currentOffset + bytesRead
      bytesRemaining := h.bytesRemaining - bytesRead }
    if 0 < h.bytesRemaining then (h, s) else (processChunk h s).2

/-- `WSARecv` returns at once with some bytes, or with none if the peer has closed; or the
operation is pending. -/
def scheduleRecv (result : Option Nat) (h : ReadSocketMessageHandle) (s : Receiver) :
    ReadSocketMessageHandle × Receiver :=
  if s.buffer.length < h.currentOffset + h.bytesRemaining then (h, s.fail .outOfBuffer)
  else
    let s := { s with reads := s.reads ++ [⟨s.messages.length, h.currentOffset, h.bytesRemaining⟩] }
    match result with
    | none => ({ h with state := .pending }, s)
    | some n => processRecvResult (h.recv (max 1 n) s).1 h (h.recv (max 1 n) s).2

def schedule (result : Option Nat) (h : ReadSocketMessageHandle) (s : Receiver) :
    ReadSocketMessageHandle × Receiver :=
  if h.bytesRemaining = 0 then
    let chunk := h.processChunk s
    if chunk.1 then scheduleRecv result chunk.2.1 chunk.2.2 else chunk.2
  else scheduleRecv result h s

def collect (n : Nat) (h : ReadSocketMessageHandle) (s : Receiver) : ReadSocketMessageHandle × Receiver :=
  processRecvResult (h.recv (max 1 n) s).1 { h with state := .standby } (h.recv (max 1 n) s).2

/-- The destructor; the cancelled receive may have transferred up to `n` bytes. -/
def destroy (n : Nat) (h : ReadSocketMessageHandle) (s : Receiver) : Receiver :=
  if h.state = .completed then s
  else
    let cancelled := if h.state = .pending then h.recv n s else (0, s)
    let pendingSize := h.currentOffset + cancelled.1
    if 0 < pendingSize then { cancelled.2 with pendingBytes := cancelled.2.buffer.take pendingSize }
    else cancelled.2

end ReadSocketMessageHandle

/-- A channel with the handle that reads from it, if there is one. -/
structure Reception where
  handle : Option ReadSocketMessageHandle := none
  receiver : Receiver

namespace Reception

inductive Action where
  | create
  | schedule (result : Option Nat)
  | collect (n : Nat)
  | release
  | cancel (n : Nat)

def put (r : ReadSocketMessageHandle × Receiver) : Reception := ⟨some r.1, r.2⟩

def step (a : Action) (c : Reception) : Reception :=
  match c.handle with
  | none => match a with
    | .create => put (ReadSocketMessageHandle.create c.receiver)
    | _ => c
  | some h => match a with
    | .create => c
    | .schedule result => if h.state = .standby then put (h.schedule result c.receiver) else c
    | .collect n => if h.state = .pending then put (h.collect n c.receiver) else c
    | .release => if h.state = .completed then ⟨none, h.destroy 0 c.receiver⟩ else c
    | .cancel n => if h.state = .completed then c else ⟨none, h.destroy n c.receiver⟩

def initial (frames : List Frame) (buffer : List UInt8) : Reception :=
  ⟨none, { buffer := buffer, incoming := (frames.map Subtype.val).flatten }⟩

def Waiting : Action → Prop
  | .cancel _ => False
  | _ => True

end Reception

end WslPlus.Channel

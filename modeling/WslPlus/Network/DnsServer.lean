import Mathlib.Algebra.GroupWithZero.Nat
import WslPlus.Lib.CString
import WslPlus.Lib.Transition

/-!
# The DNS server for TCP clients

`DnsServer` keeps a context for each TCP connection, under an id that is counted up and
wraps around. A request is collected in the context over several reads and then tunnelled
with the id of the connection. A response is written to the connection with its id.
-/

namespace WslPlus.Network

namespace DnsServer

def byteCountTcpRequestLength : Nat := 2

def resize (buffer : Bytes) (size : Nat) : Bytes :=
  buffer.take size ++ List.replicate (size - buffer.length) 0

def ntohs (bytes : Bytes) : Nat := bytes.foldl (fun n b => 256 * n + b.toNat) 0

/-- With `conn`, the number of the connection: an id can come back, a number does not. -/
structure TcpConnectionContext where
  conn : Nat
  connectionId : UInt32
  currentRequestOffset : Nat := 0
  currentDnsRequest : Bytes := resize [] byteCountTcpRequestLength

namespace TcpConnectionContext

/-- The bytes that are read go into the buffer. A complete length makes room for the
request, and a complete request is handed out. -/
def receive (context : TcpConnectionContext) (bytes : Bytes) : TcpConnectionContext × Option Bytes :=
  let request := Window.overwrite context.currentDnsRequest context.currentRequestOffset bytes
  let offset := context.currentRequestOffset + bytes.length
  if offset = request.length then
    if request.length = byteCountTcpRequestLength then
      ({ context with
        currentRequestOffset := offset
        currentDnsRequest := resize request (byteCountTcpRequestLength + ntohs request) }, none)
    else
      ({ context with
        currentRequestOffset := 0
        currentDnsRequest := resize [] byteCountTcpRequestLength }, some request)
  else ({ context with currentRequestOffset := offset, currentDnsRequest := request }, none)

end TcpConnectionContext

/-- A call of the tunnelling callback, for a connection. -/
structure Tunnelled where
  conn : Nat
  dnsClientId : UInt32
  request : Bytes

structure Written where
  conn : Nat
  response : Bytes
  part : Bytes

/-- Next to the contexts: how many connections were accepted and under which ids, what was
received on each, what was tunnelled and what was written. -/
structure Server where
  currentTcpConnectionId : UInt32 := 0
  tcpConnectionContexts : UInt32 → Option TcpConnectionContext := fun _ => none
  accepted : Nat := 0
  idOf : Nat → UInt32 := fun _ => 0
  received : Nat → Bytes := fun _ => []
  tunnelled : List Tunnelled := []
  written : List Written := []

def Server.setContext (s : Server) (id : UInt32) (context : Option TcpConnectionContext) : Server :=
  { s with tcpConnectionContexts := Function.update s.tcpConnectionContexts id context }

def Server.accept (s : Server) : Server :=
  { s with
    currentTcpConnectionId := s.currentTcpConnectionId + 1
    accepted := s.accepted + 1
    idOf := Function.update s.idOf s.accepted s.currentTcpConnectionId }

/-- If the id is in use, its context stays and the new connection is closed; the socket of
that context cannot be registered once more, and it is erased as after any error. -/
def handleNewTcpConnection (registers : Bool) (s : Server) : Server :=
  let id := s.currentTcpConnectionId
  match s.tcpConnectionContexts id with
  | some _ => s.accept.setContext id none
  | none =>
    if registers then s.accept.setContext id (some { conn := s.accepted, connectionId := id })
    else s.accept

/-- What a read changes: the context, what was received and, with a request, what was
tunnelled. -/
def Server.afterRead (s : Server) (context next : TcpConnectionContext) (got : Bytes)
    (request : Option Bytes) : Server :=
  { s.setContext context.connectionId (some next) with
    received := Function.update s.received context.conn (s.received context.conn ++ got)
    tunnelled := s.tunnelled ++ request.toList.map fun request =>
      ⟨context.conn, context.connectionId, request⟩ }

def handleNewTcpData (context : TcpConnectionContext) (bytes : Option Bytes) (s : Server) : Server :=
  let room := context.currentDnsRequest.length - context.currentRequestOffset
  let bytesReceived := (bytes.getD []).take room
  if bytesReceived = [] then s.setContext context.connectionId none
  else
    let (next, request) := context.receive bytesReceived
    s.afterRead context next bytesReceived request

def bufferSize (response : Bytes) : Nat :=
  if response.length % 2 ^ 32 < 2 ^ 31 then response.length % 2 ^ 32 else 0

/-- The loop that writes a response: each write takes one byte more than its number, or all
that is left, or fails. -/
def writeAll : Bytes → List (Option Nat) → Bytes
  | rest, some n :: writes => rest.take (n + 1) ++ writeAll (rest.drop (n + 1)) writes
  | _, _ => []

def handleTcpDnsResponse (id : UInt32) (response : Bytes) (writes : List (Option Nat)) (s : Server) : Server :=
  match s.tcpConnectionContexts id with
  | none => s
  | some context =>
    let part := writeAll (response.take (bufferSize response)) writes
    { s with written := s.written ++ [⟨context.conn, response, part⟩] }

inductive Event where
  | newTcpConnection (registers : Bool)
  | newTcpData (id : UInt32) (bytes : Option Bytes)
  | tcpDnsResponse (id : UInt32) (response : Bytes) (writes : List (Option Nat))

def step : Event → Server → Server
  | .newTcpConnection registers, s => handleNewTcpConnection registers s
  | .newTcpData id bytes, s =>
    match s.tcpConnectionContexts id with
    | none => s
    | some context => handleNewTcpData context bytes s
  | .tcpDnsResponse id response writes, s => handleTcpDnsResponse id response writes s

end DnsServer

end WslPlus.Network

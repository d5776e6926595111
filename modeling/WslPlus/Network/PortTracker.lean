import WslPlus.Lib.Transition

/-!
# The port tracker of the guest

`GnsPortTracker::Run` answers bind requests and gives ports back to the host that no socket uses any
more. A second thread lists the sockets of the guest with four queries and hands the list over in a
promise; then it waits until the main loop has taken the list and asks for another one. A request that
is approved is tracked with a time-out, because its socket is bound only after the answer.

The history of a run is kept newest first. What the host answers, which calls arrive, what the guest
does with its sockets and how the two threads take turns is open.
-/

namespace WslPlus.Network

inductive NetworkingMode where
  | none
  | nat
  | bridged
  | mirrored
  | consomme
  deriving DecidableEq

inductive Family where
  | inet
  | inet6
  deriving DecidableEq

inductive Protocol where
  | tcp
  | udp
  deriving DecidableEq

/-- The four words of an `in6_addr`. -/
structure Address where
  word0 : UInt32 := 0
  word1 : UInt32 := 0
  word2 : UInt32 := 0
  word3 : UInt32 := 0
  deriving DecidableEq

structure PortAllocation where
  port : UInt16
  family : Family
  protocol : Protocol
  address : Address
  deriving DecidableEq

/-- A bound socket of the guest, as `sock_diag` answers. -/
structure Socket where
  port : UInt16
  family : Family
  protocol : Protocol
  source : Address
  deriving DecidableEq

structure ActivePorts where
  fullAllocations : List PortAllocation := []
  portProtocolPairs : List (UInt16 × Protocol) := []
  deriving DecidableEq

abbrev Query := Family × Protocol

/-- The transactions of `ListAllocatedPorts`, in order. -/
def queries : List Query := [(.inet, .tcp), (.inet6, .tcp), (.inet, .udp), (.inet6, .udp)]

def Socket.allocation (socket : Socket) (protocol : Protocol) : PortAllocation where
  port := socket.port
  family := socket.family
  protocol := protocol
  -- Of an IPv4 socket only the first word is copied.
  address := if socket.family = .inet6 then socket.source else { word0 := socket.source.word0 }

def ActivePorts.onMessage (protocol : Protocol) (ports : ActivePorts) (socket : Socket) : ActivePorts where
  fullAllocations := socket.allocation protocol :: ports.fullAllocations
  portProtocolPairs := (socket.port, protocol) :: ports.portProtocolPairs

/-- One transaction of `ListAllocatedPorts`. -/
def ActivePorts.execute (query : Query) (sockets : List Socket) (ports : ActivePorts) : ActivePorts :=
  (sockets.filter fun socket => socket.family = query.1 ∧ socket.protocol = query.2).foldl
    (ActivePorts.onMessage query.2) ports

def portStillActive (mode : NetworkingMode) (ports : ActivePorts) (allocation : PortAllocation) : Bool :=
  if mode = .mirrored then ports.portProtocolPairs.contains (allocation.port, allocation.protocol)
  else ports.fullAllocations.contains allocation

/-- `m_allocatedPorts`, with the time-out of each allocation. -/
abbrev AllocatedPorts := List (PortAllocation × Option Nat)

namespace AllocatedPorts

def contains (allocated : AllocatedPorts) (allocation : PortAllocation) : Bool :=
  allocated.any fun entry => entry.1 = allocation

def insertOrAssign (allocated : AllocatedPorts) (allocation : PortAllocation) (timeout : Option Nat) :
    AllocatedPorts :=
  if contains allocated allocation then
    allocated.map fun entry => if entry.1 = allocation then (entry.1, timeout) else entry
  else allocated ++ [(allocation, timeout)]

/-- What `OnRefreshAllocatedPorts` keeps, and what it asks the host to release. -/
def onRefresh (mode : NetworkingMode) (ports : ActivePorts) (timestamp : Nat) :
    AllocatedPorts → AllocatedPorts × List PortAllocation
  | [] => ([], [])
  | (allocation, timeout) :: rest =>
    let (kept, released) := onRefresh mode ports timestamp rest
    if portStillActive mode ports allocation then ((allocation, none) :: kept, released)
    else if timeout.all (· < timestamp) then (kept, allocation :: released)
    else ((allocation, timeout) :: kept, released)

end AllocatedPorts

def bindTimeoutSeconds : Nat := 60

inductive Event where
  | approved (allocation : PortAllocation) (timeout : Nat)
  | began
  | listed (ports : ActivePorts)
  | released (allocation : PortAllocation) (now : Nat)
  deriving DecidableEq

/-- Where the refresh thread stands. -/
inductive Refresher where
  | idle
  | listing (remaining : List Query) (ports : ActivePorts)
  | listed (ports : ActivePorts) (timestamp : Nat)
  | waiting
  deriving DecidableEq

/-- Where an iteration of `Run` stands. -/
inductive Pc where
  | reading
  | resolving
  | polling (bindCall : Bool)
  | resuming
  deriving DecidableEq

structure Tracker where
  now : Nat
  sockets : List Socket
  allocatedPorts : AllocatedPorts := []
  refresher : Refresher := .idle
  /-- The value of the promise `m_allocatedPortsRefresh`. -/
  refresh : Option (ActivePorts × Nat) := none
  future : Bool := true
  refreshResult : Bool := false
  pc : Pc := .reading
  log : List Event := []

structure BindCall where
  request : Option PortAllocation
  portZeroBind : Bool

inductive Op where
  | tick
  | opens (socket : Socket)
  | closes (socket : Socket)
  | begin
  /-- The refresh thread makes its next query, or takes the time after the last one. -/
  | list
  | listFails
  | publish
  /-- `ReadNextRequest` returns, and the host answers if it is asked. -/
  | readNextRequest (bindCall : Option BindCall) (answer : Int)
  | resolvePortZeroBind (allocation : Option PortAllocation) (answer : Int)
  | poll
  | resume

namespace Tracker

def start (now : Nat) (sockets : List Socket) : Tracker where
  now := now
  sockets := sockets

def handleRequest (allocation : PortAllocation) (answer : Int) (t : Tracker) : Int :=
  if AllocatedPorts.contains t.allocatedPorts allocation then 0 else answer

def trackPort (allocation : PortAllocation) (t : Tracker) : Tracker :=
  { t with
    allocatedPorts :=
      AllocatedPorts.insertOrAssign t.allocatedPorts allocation (some (t.now + bindTimeoutSeconds))
    log := .approved allocation (t.now + bindTimeoutSeconds) :: t.log }

def request (allocation : Option PortAllocation) (answer : Int) (t : Tracker) : Tracker :=
  match allocation with
  | some allocation => if t.handleRequest allocation answer = 0 then t.trackPort allocation else t
  | none => t

def onRefreshAllocatedPorts (mode : NetworkingMode) (ports : ActivePorts) (timestamp : Nat) (t : Tracker) :
    Tracker :=
  { t with
    allocatedPorts := (AllocatedPorts.onRefresh mode ports timestamp t.allocatedPorts).1
    log := (AllocatedPorts.onRefresh mode ports timestamp t.allocatedPorts).2.foldl
      (fun log allocation => .released allocation t.now :: log) t.log }

def list (t : Tracker) : Tracker :=
  match t.refresher with
  | .listing (query :: remaining) ports =>
    { t with refresher := .listing remaining (ports.execute query t.sockets) }
  | .listing [] ports => { t with refresher := .listed ports t.now, log := .listed ports :: t.log }
  | _ => t

def publish (t : Tracker) : Tracker :=
  match t.refresher with
  | .listed ports timestamp => { t with refresher := .waiting, refresh := some (ports, timestamp) }
  | _ => t

def readNextRequest (bindCall : Option BindCall) (answer : Int) (t : Tracker) : Tracker :=
  match bindCall with
  | some call =>
    { t.request call.request answer with pc := if call.portZeroBind then .resolving else .polling true }
  | none => { t with pc := .polling false }

def poll (mode : NetworkingMode) (bindCall : Bool) (t : Tracker) : Tracker :=
  match t.future, t.refresh with
  | true, some (ports, timestamp) =>
    let t' := { t with refresh := none, future := false, refreshResult := true, pc := .resuming }
    if bindCall then t' else t'.onRefreshAllocatedPorts mode ports timestamp
  | _, _ => { t with pc := .resuming }

def resume (t : Tracker) : Tracker :=
  if t.refreshResult ∧ t.allocatedPorts ≠ [] then
    { t with future := true, refreshResult := false, refresher := .idle, pc := .reading }
  else { t with pc := .reading }

def step (mode : NetworkingMode) (op : Op) (t : Tracker) : Tracker :=
  match op with
  | .tick => { t with now := t.now + 1 }
  | .opens socket => { t with sockets := socket :: t.sockets }
  | .closes socket => { t with sockets := t.sockets.erase socket }
  | .begin =>
    if t.refresher = .idle then { t with refresher := .listing queries {}, log := .began :: t.log } else t
  | .list => t.list
  | .listFails =>
    match t.refresher with
    | .listing _ _ => { t with refresher := .idle }
    | _ => t
  | .publish => t.publish
  | .readNextRequest bindCall answer =>
    if t.pc = .reading then t.readNextRequest bindCall answer else t
  | .resolvePortZeroBind allocation answer =>
    if t.pc = .resolving then { t.request allocation answer with pc := .polling true } else t
  | .poll =>
    match t.pc with
    | .polling bindCall => t.poll mode bindCall
    | _ => t
  | .resume => if t.pc = .resuming then t.resume else t

end Tracker

end WslPlus.Network

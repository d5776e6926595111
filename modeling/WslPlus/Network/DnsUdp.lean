import Mathlib.Data.List.Perm.Basic
import WslPlus.Lib.Keyed
import WslPlus.Lib.Transition

/-!
# The DNS server for UDP clients

`DnsServer` keeps the address of a client under the id of its request until a response comes with that id, or
the request expires. The requests are in a map by id and in a list by expiration; an entry of the map holds an
iterator of the list, and an entry of the list the id.

Requests are read, tunnelled and expired by the thread of the server; responses come from another thread. The
lock is free between the steps.
-/

namespace WslPlus.Network.DnsUdp

open List

/-- `sockaddr_in` -/
structure RemoteAddress where
  sinAddr : UInt32
  sinPort : UInt16

/-- An entry of the list. The node is what an iterator denotes; it does not come back. -/
structure Expiration where
  node : Nat
  expiration : Nat
  requestId : UInt32

/-- `UdpRequestContext` with its id. -/
structure UdpRequest where
  requestId : UInt32
  remoteAddress : RemoteAddress
  expiration : Nat

/-- A call of `sendto` that has not failed. -/
structure Sent where
  remoteAddress : RemoteAddress
  requestId : UInt32
  bytesSent : Nat

structure Server where
  now : Nat := 0
  currentUdpRequestId : UInt32 := 0
  udpRequests : List UdpRequest := []
  udpRequestExpirations : List Expiration := []
  nextNode : Nat := 0
  tunnelling : Option UInt32 := none
  sent : List Sent := []
  answered : List Nat := []

def udpRequestTimeout : Nat := 60000000000

def nanosecondsPerMillisecond : Nat := 1000000

inductive Memory where
  | nothing
  | list
  | listAndMap

inductive Received where
  | failed
  | empty
  | datagram (remoteAddress : RemoteAddress) (memory : Memory)

namespace Server

def pushExpiration (s : Server) (requestId : UInt32) : Server :=
  { s with
    udpRequestExpirations :=
      s.udpRequestExpirations ++
        [{ node := s.nextNode, expiration := s.now + udpRequestTimeout, requestId := requestId }]
    nextNode := s.nextNode + 1 }

def eraseExpiration (s : Server) (node : Nat) : Server :=
  { s with udpRequestExpirations := Keyed.erase Expiration.node node s.udpRequestExpirations }

def track (s : Server) (requestId : UInt32) (remoteAddress : RemoteAddress) (memory : Memory) : Server :=
  match memory with
  | .nothing => s
  | .list => (s.pushExpiration requestId).eraseExpiration s.nextNode
  | .listAndMap =>
    match Keyed.lookup UdpRequest.requestId s.udpRequests requestId with
    | some _ => (s.pushExpiration requestId).eraseExpiration s.nextNode
    | none =>
      { s.pushExpiration requestId with
        udpRequests := s.udpRequests ++
          [{ requestId := requestId, remoteAddress := remoteAddress, expiration := s.nextNode }]
        tunnelling := some requestId }

/-- `HandleUdpDnsRequest` up to the call that tunnels the request. -/
def handleUdpDnsRequest (s : Server) (received : Received) : Server :=
  match received with
  | .failed => s
  | .empty => s
  | .datagram remoteAddress memory =>
    { s with currentUdpRequestId := s.currentUdpRequestId + 1 }.track s.currentUdpRequestId remoteAddress memory

def removeRequest (s : Server) (request : UdpRequest) : Server :=
  { s.eraseExpiration request.expiration with
    udpRequests := Keyed.erase UdpRequest.requestId request.requestId s.udpRequests }

def removeRequestOnError (s : Server) (requestId : UInt32) : Server :=
  match Keyed.lookup UdpRequest.requestId s.udpRequests requestId with
  | none => s
  | some request => s.removeRequest request

end Server

/-- The loop that sends a response; where the list of results ends, `sendto` fails. -/
def sendAll (remoteAddress : RemoteAddress) (requestId : UInt32) (bufferSize : Nat) : Nat → List Nat → List Sent
  | _, [] => []
  | totalBytesSent, bytesSent :: results =>
    if totalBytesSent < bufferSize then
      ⟨remoteAddress, requestId, bytesSent⟩ ::
        sendAll remoteAddress requestId bufferSize (totalBytesSent + bytesSent) results
    else []

def expireFront (now : Nat) : List Expiration → List UdpRequest → List Expiration × List UdpRequest
  | [], requests => ([], requests)
  | x :: xs, requests =>
    if x.expiration ≤ now then expireFront now xs (Keyed.erase UdpRequest.requestId x.requestId requests)
    else (x :: xs, requests)

namespace Server

def handleUdpDnsResponse (s : Server) (requestId : UInt32) (bufferSize : Nat) (results : List Nat) : Server :=
  match Keyed.lookup UdpRequest.requestId s.udpRequests requestId with
  | none => s
  | some request =>
    { s.removeRequest request with
      sent := s.sent ++ sendAll request.remoteAddress requestId bufferSize 0 results
      answered := s.answered ++ [request.expiration] }

def expire (s : Server) : Server :=
  let rest := expireFront s.now s.udpRequestExpirations s.udpRequests
  { s with udpRequestExpirations := rest.1, udpRequests := rest.2 }

def waitTime (s : Server) : Int :=
  match s.udpRequestExpirations with
  | [] => -1
  | x :: _ => ((x.expiration - s.now + (nanosecondsPerMillisecond - 1)) / nanosecondsPerMillisecond : Nat)

def expireUdpRequestsAndGetTimeout (s : Server) : Int × Server := (s.expire.waitTime, s.expire)

end Server

inductive UdpOp where
  | tick (nanoseconds : Nat)
  | request (received : Received)
  | tunnelled
  | tunnelFailed
  | response (requestId : UInt32) (bufferSize : Nat) (results : List Nat)
  | expire

namespace Server

def step (op : UdpOp) (s : Server) : Server :=
  match op with
  | .tick nanoseconds => { s with now := s.now + nanoseconds }
  | .request received => if s.tunnelling.isSome then s else s.handleUdpDnsRequest received
  | .tunnelled => { s with tunnelling := none }
  | .tunnelFailed =>
    match s.tunnelling with
    | none => s
    | some requestId => { s.removeRequestOnError requestId with tunnelling := none }
  | .response requestId bufferSize results => s.handleUdpDnsResponse requestId bufferSize results
  | .expire => if s.tunnelling.isSome then s else s.expireUdpRequestsAndGetTimeout.2

end Server

def UdpRequest.key (r : UdpRequest) : UInt32 × Nat := (r.requestId, r.expiration)

def Expiration.key (x : Expiration) : UInt32 × Nat := (x.requestId, x.node)

/-- Map and list hold the same requests, each once, and the list is in the order of expiration. -/
structure Corresponds (requests : List UdpRequest) (expirations : List Expiration) : Prop where
  perm : (requests.map UdpRequest.key).Perm (expirations.map Expiration.key)
  ids : Keyed.Distinct UdpRequest.requestId requests
  nodes : Keyed.Distinct Expiration.node expirations
  sorted : expirations.Pairwise fun x y => x.expiration ≤ y.expiration

section Corresponds

variable {requests : List UdpRequest} {expirations : List Expiration} {r : UdpRequest} {x : Expiration}

section

variable (h : Corresponds requests expirations)
include h

theorem Corresponds.expiration_of_mem (hr : r ∈ requests) :
    ∃ x ∈ expirations, x.requestId = r.requestId ∧ x.node = r.expiration := by
  have hmem := h.perm.mem_iff.mp (mem_map_of_mem hr)
  obtain ⟨x, hx, hkey⟩ := mem_map.mp hmem
  exact ⟨x, hx, Prod.mk.inj hkey⟩

theorem Corresponds.request_of_mem (hx : x ∈ expirations) :
    ∃ r ∈ requests, r.requestId = x.requestId ∧ r.expiration = x.node := by
  have hmem := h.perm.mem_iff.mpr (mem_map_of_mem hx)
  obtain ⟨r, hr, hkey⟩ := mem_map.mp hmem
  exact ⟨r, hr, Prod.mk.inj hkey⟩

theorem Corresponds.request_unique {r' : UdpRequest} (hr : r ∈ requests)
    (hr' : r' ∈ requests) (hid : r.requestId = r'.requestId) : r = r' :=
  inj_on_of_nodup_map h.ids hr hr' hid

theorem Corresponds.expiration_unique {x' : Expiration} (hx : x ∈ expirations)
    (hx' : x' ∈ expirations) (hnode : x.node = x'.node) : x = x' :=
  inj_on_of_nodup_map h.nodes hx hx' hnode

theorem Corresponds.node_eq_iff (hr : r ∈ requests) (hx : x ∈ expirations) :
    x.node = r.expiration ↔ x.requestId = r.requestId := by
  constructor
  · intro hnode
    obtain ⟨x', hx', hid, hnode'⟩ := h.expiration_of_mem hr
    rw [h.expiration_unique hx hx' (hnode.trans hnode'.symm), hid]
  · intro hid
    obtain ⟨r', hr', hid', hnode⟩ := h.request_of_mem hx
    rw [← hnode, h.request_unique hr' hr (hid'.trans hid)]

theorem Corresponds.erase_node (hr : r ∈ requests) :
    Keyed.erase Expiration.node r.expiration expirations =
      Keyed.erase Expiration.requestId r.requestId expirations := by
  apply filter_congr
  intro x hx
  rw [decide_eq_decide]
  exact not_congr (h.node_eq_iff hr hx)

theorem Corresponds.erase (requestId : UInt32) :
    Corresponds (Keyed.erase UdpRequest.requestId requestId requests)
      (Keyed.erase Expiration.requestId requestId expirations) := by
  refine ⟨?_, Keyed.distinct_erase h.ids, h.nodes.sublist (filter_sublist.map _), h.sorted.filter _⟩
  have hfilter := h.perm.filter fun key => decide (key.1 ≠ requestId)
  rw [filter_map, filter_map] at hfilter
  exact hfilter

theorem Corresponds.push {remoteAddress : RemoteAddress}
    (hid : ∀ r ∈ requests, r.requestId ≠ x.requestId) (hnode : ∀ y ∈ expirations, y.node ≠ x.node)
    (hlast : ∀ y ∈ expirations, y.expiration ≤ x.expiration) :
    Corresponds (requests ++ [{ requestId := x.requestId, remoteAddress := remoteAddress, expiration := x.node }])
      (expirations ++ [x]) := by
  refine ⟨?_, ?_, ?_, ?_⟩
  · rw [map_append, map_append]
    exact h.perm.append_right _
  · exact Keyed.distinct_concat h.ids hid
  · exact Keyed.distinct_concat h.nodes hnode
  · rw [pairwise_append]
    refine ⟨h.sorted, pairwise_singleton _ _, ?_⟩
    intro y hy x' hx'
    rw [mem_singleton.mp hx']
    exact hlast y hy

end

theorem Corresponds.erase_front (h : Corresponds requests (x :: expirations)) :
    Keyed.erase Expiration.requestId x.requestId (x :: expirations) = expirations := by
  obtain ⟨r, hr, hid, hnode⟩ := h.request_of_mem (mem_cons_self ..)
  rw [← hid, ← h.erase_node hr, hnode]
  have hdist := (nodup_cons.mp h.nodes).1
  rw [Keyed.erase, filter_cons_of_neg (by simp), filter_eq_self]
  intro y hy
  rw [decide_eq_true_eq]
  intro hsame
  exact hdist (hsame ▸ mem_map_of_mem hy)

theorem expireFront_spec (now : Nat) (h : Corresponds requests expirations) :
    Corresponds (expireFront now expirations requests).2 (expireFront now expirations requests).1 ∧
      (expireFront now expirations requests).1 = expirations.filter (fun x => now < x.expiration) ∧
      (expireFront now expirations requests).2.Sublist requests := by
  induction expirations generalizing requests with
  | nil => exact ⟨h, rfl, List.Sublist.refl _⟩
  | cons x expirations ih =>
    rw [expireFront]
    split
    · rename_i hexpired
      have hrest : Corresponds (Keyed.erase UdpRequest.requestId x.requestId requests) expirations := by
        have herased := h.erase x.requestId
        rwa [h.erase_front] at herased
      obtain ⟨hcorresponds, hkept, hsub⟩ := ih hrest
      refine ⟨hcorresponds, ?_, hsub.trans filter_sublist⟩
      rw [hkept, filter_cons_of_neg (by simpa using hexpired)]
    · rename_i hlater
      refine ⟨h, ?_, List.Sublist.refl _⟩
      symm
      rw [filter_eq_self]
      intro y hy
      have hfirst : x.expiration ≤ y.expiration := by
        rcases mem_cons.mp hy with rfl | hy
        · exact Nat.le_refl _
        · exact (pairwise_cons.mp h.sorted).1 y hy
      rw [decide_eq_true_eq]
      omega

end Corresponds

namespace Server

variable {s : Server}

structure Inv (s : Server) : Prop where
  corresponds : Corresponds s.udpRequests s.udpRequestExpirations
  fresh : ∀ x ∈ s.udpRequestExpirations, x.node < s.nextNode
  bounded : ∀ x ∈ s.udpRequestExpirations, x.expiration ≤ s.now + udpRequestTimeout
  once : s.answered.Nodup
  answered : ∀ node ∈ s.answered, node < s.nextNode ∧ ∀ x ∈ s.udpRequestExpirations, x.node ≠ node

section

variable (h : s.Inv)
include h

theorem eraseExpiration_pushExpiration (requestId : UInt32) :
    (s.pushExpiration requestId).eraseExpiration s.nextNode = { s with nextNode := s.nextNode + 1 } := by
  have hkept : Keyed.erase Expiration.node s.nextNode s.udpRequestExpirations = s.udpRequestExpirations := by
    rw [Keyed.erase, filter_eq_self]
    intro x hx
    rw [decide_eq_true_eq]
    exact Nat.ne_of_lt (h.fresh x hx)
  have hlast : Keyed.erase Expiration.node s.nextNode
      [{ node := s.nextNode, expiration := s.now + udpRequestTimeout, requestId := requestId }] = [] := by
    simp [Keyed.erase]
  have happ : Keyed.erase Expiration.node s.nextNode (s.udpRequestExpirations ++
      [{ node := s.nextNode, expiration := s.now + udpRequestTimeout, requestId := requestId }]) =
        s.udpRequestExpirations := by
    rw [Keyed.erase, filter_append]
    exact (congrArg₂ _ hkept hlast).trans (append_nil _)
  simp only [eraseExpiration, pushExpiration, happ]

theorem Inv.nextNode : Inv { s with nextNode := s.nextNode + 1 } :=
  ⟨h.corresponds, fun x hx => Nat.lt_succ_of_lt (h.fresh x hx), h.bounded, h.once,
    fun node hnode => ⟨Nat.lt_succ_of_lt (h.answered node hnode).1, (h.answered node hnode).2⟩⟩

theorem Inv.track (requestId : UInt32) (remoteAddress : RemoteAddress) (memory : Memory) :
    (s.track requestId remoteAddress memory).Inv := by
  have hback : ((s.pushExpiration requestId).eraseExpiration s.nextNode).Inv := by
    rw [eraseExpiration_pushExpiration h]
    exact h.nextNode
  cases memory with
  | nothing => exact h
  | list => exact hback
  | listAndMap =>
    simp only [Server.track]
    split
    · exact hback
    · rename_i hnone
      refine ⟨?_, ?_, ?_, h.once, ?_⟩
      · apply h.corresponds.push (x := ⟨s.nextNode, s.now + udpRequestTimeout, requestId⟩)
        · exact Keyed.lookup_eq_none_iff.mp hnone
        · intro y hy
          exact Nat.ne_of_lt (h.fresh y hy)
        · exact h.bounded
      · intro x hx
        rcases mem_append.mp hx with hx | hx
        · exact Nat.lt_succ_of_lt (h.fresh x hx)
        · rw [mem_singleton.mp hx]
          exact Nat.lt_succ_self _
      · intro x hx
        rcases mem_append.mp hx with hx | hx
        · exact h.bounded x hx
        · rw [mem_singleton.mp hx]
          exact Nat.le_refl _
      · intro node hnode
        obtain ⟨hlt, hother⟩ := h.answered node hnode
        refine ⟨Nat.lt_succ_of_lt hlt, ?_⟩
        intro x hx
        rcases mem_append.mp hx with hx | hx
        · exact hother x hx
        · rw [mem_singleton.mp hx]
          exact (Nat.ne_of_lt hlt).symm

theorem Inv.of_sublist {s' : Server} (hcorresponds : Corresponds s'.udpRequests s'.udpRequestExpirations)
    (hsub : s'.udpRequestExpirations.Sublist s.udpRequestExpirations) (hnow : s'.now = s.now)
    (hnode : s'.nextNode = s.nextNode) (hans : s'.answered = s.answered) : s'.Inv := by
  refine ⟨hcorresponds, ?_, ?_, ?_, ?_⟩
  · intro x hx
    rw [hnode]
    exact h.fresh x (hsub.subset hx)
  · intro x hx
    rw [hnow]
    exact h.bounded x (hsub.subset hx)
  · rw [hans]
    exact h.once
  · rw [hans, hnode]
    intro node hmem
    exact ⟨(h.answered node hmem).1, fun x hx => (h.answered node hmem).2 x (hsub.subset hx)⟩

theorem Inv.removeRequest {request : UdpRequest} (hmem : request ∈ s.udpRequests) :
    (s.removeRequest request).Inv := by
  refine h.of_sublist ?_ filter_sublist rfl rfl rfl
  show Corresponds _ (Keyed.erase Expiration.node request.expiration s.udpRequestExpirations)
  rw [h.corresponds.erase_node hmem]
  exact h.corresponds.erase request.requestId

theorem Inv.removeRequestOnError (requestId : UInt32) : (s.removeRequestOnError requestId).Inv := by
  unfold Server.removeRequestOnError
  split
  · exact h
  · rename_i hfound
    exact h.removeRequest (Keyed.mem_of_lookup hfound)

theorem Inv.handleUdpDnsResponse (requestId : UInt32) (bufferSize : Nat) (results : List Nat) :
    (s.handleUdpDnsResponse requestId bufferSize results).Inv := by
  unfold Server.handleUdpDnsResponse
  split
  · exact h
  · rename_i request hfound
    have hmem := Keyed.mem_of_lookup hfound
    have hrem := h.removeRequest hmem
    obtain ⟨x, hx, _, hnode⟩ := h.corresponds.expiration_of_mem hmem
    refine ⟨hrem.corresponds, hrem.fresh, hrem.bounded, ?_, ?_⟩
    · rw [nodup_append]
      refine ⟨h.once, nodup_singleton _, ?_⟩
      intro node hans node' hnode'
      rw [mem_singleton.mp hnode', ← hnode]
      exact ((h.answered node hans).2 x hx).symm
    · intro node hans
      rcases mem_append.mp hans with hans | hans
      · exact hrem.answered node hans
      · rw [mem_singleton.mp hans]
        refine ⟨hnode ▸ h.fresh x hx, ?_⟩
        intro y hy
        exact (Keyed.mem_erase.mp hy).2

theorem Inv.expire : s.expire.Inv := by
  obtain ⟨hcorresponds, hkept, _⟩ := expireFront_spec s.now h.corresponds
  refine h.of_sublist hcorresponds ?_ rfl rfl rfl
  show (expireFront s.now s.udpRequestExpirations s.udpRequests).1.Sublist _
  rw [hkept]
  exact filter_sublist

theorem Inv.step {op : UdpOp} : (s.step op).Inv := by
  cases op with
  | tick nanoseconds =>
    refine ⟨h.corresponds, h.fresh, ?_, h.once, h.answered⟩
    intro x hx
    have hbounded := h.bounded x hx
    show x.expiration ≤ s.now + nanoseconds + udpRequestTimeout
    omega
  | request received =>
    simp only [Server.step]
    split
    · exact h
    · cases received with
      | failed => exact h
      | empty => exact h
      | datagram remoteAddress memory =>
        have hcounted : Inv { s with currentUdpRequestId := s.currentUdpRequestId + 1 } :=
          ⟨h.corresponds, h.fresh, h.bounded, h.once, h.answered⟩
        exact hcounted.track _ remoteAddress memory
  | tunnelled => exact ⟨h.corresponds, h.fresh, h.bounded, h.once, h.answered⟩
  | tunnelFailed =>
    simp only [Server.step]
    split
    · exact h
    · rename_i requestId _
      have hrem := h.removeRequestOnError requestId
      exact ⟨hrem.corresponds, hrem.fresh, hrem.bounded, hrem.once, hrem.answered⟩
  | response requestId bufferSize results => exact h.handleUdpDnsResponse requestId bufferSize results
  | expire =>
    simp only [Server.step]
    split
    · exact h
    · exact h.expire

end

theorem inv_initial : Server.Inv {} := by
  refine ⟨⟨List.Perm.nil, nodup_nil, nodup_nil, List.Pairwise.nil⟩, ?_, ?_, nodup_nil, ?_⟩
  · intro x hx
    cases hx
  · intro x hx
    cases hx
  · intro node hnode
    cases hnode

theorem mem_sendAll {remoteAddress : RemoteAddress} {requestId : UInt32} {bufferSize total : Nat}
    {results : List Nat}
    {d : Sent} (h : d ∈ sendAll remoteAddress requestId bufferSize total results) :
    d.remoteAddress = remoteAddress ∧ d.requestId = requestId := by
  induction results generalizing total with
  | nil => cases h
  | cons bytesSent results ih =>
    rw [sendAll] at h
    split at h
    · rcases mem_cons.mp h with rfl | h
      · exact ⟨rfl, rfl⟩
      · exact ih h
    · cases h

/-- A response goes to the client whose request has its id and is tracked, and the request is tracked no more.
Nothing else is sent. -/
def Answers (s : Server) (op : UdpOp) (s' : Server) : Prop :=
  match op with
  | .response requestId _ _ =>
    s'.udpRequests = Keyed.erase UdpRequest.requestId requestId s.udpRequests ∧
      ∃ new, s'.sent = s.sent ++ new ∧
        ∀ d ∈ new, ∃ r ∈ s.udpRequests, r.requestId = requestId ∧ d.remoteAddress = r.remoteAddress
  | _ => s'.sent = s.sent

theorem answers_handleUdpDnsResponse (requestId : UInt32) (bufferSize : Nat) (results : List Nat) :
    Answers s (.response requestId bufferSize results)
      (s.handleUdpDnsResponse requestId bufferSize results) := by
  unfold Server.handleUdpDnsResponse Answers
  dsimp only
  split
  · rename_i hnone
    refine ⟨?_, [], (append_nil _).symm, fun d hd => by cases hd⟩
    symm
    rw [Keyed.erase, filter_eq_self]
    intro r hr
    rw [decide_eq_true_eq]
    exact Keyed.lookup_eq_none_iff.mp hnone r hr
  · rename_i request hfound
    have hid := Keyed.key_of_lookup hfound
    refine ⟨?_, _, rfl, ?_⟩
    · rw [← hid]
      rfl
    · intro d hd
      exact ⟨request, Keyed.mem_of_lookup hfound, hid, (mem_sendAll hd).1⟩

theorem answers_step (op : UdpOp) : Answers s op (s.step op) := by
  cases op with
  | response requestId bufferSize results => exact answers_handleUdpDnsResponse requestId bufferSize results
  | tick _ => rfl
  | tunnelled => rfl
  | request received =>
    show (s.step (.request received)).sent = s.sent
    simp only [Server.step]
    split
    · rfl
    · cases received with
      | failed => rfl
      | empty => rfl
      | datagram remoteAddress memory =>
        cases memory with
        | nothing => rfl
        | list => rfl
        | listAndMap =>
          simp only [handleUdpDnsRequest, track]
          split
          · rfl
          · rfl
  | tunnelFailed =>
    show (s.step .tunnelFailed).sent = s.sent
    simp only [Server.step]
    split
    · rfl
    · unfold Server.removeRequestOnError
      split
      · rfl
      · rfl
  | expire =>
    show (s.step .expire).sent = s.sent
    simp only [Server.step]
    split
    · rfl
    · rfl

/-- A pass over the requests: those whose time has come are tracked no more, and the wait is for the first of
the others. -/
structure Expired (s s' : Server) (timeout : Int) : Prop where
  untracked : ∀ r ∈ s.udpRequests, ∀ x ∈ s.udpRequestExpirations, x.node = r.expiration →
    (r ∈ s'.udpRequests ↔ s.now < x.expiration)
  nothing : timeout = -1 ↔ s'.udpRequests = []
  earliest : ∀ x ∈ s'.udpRequestExpirations, (∀ y ∈ s'.udpRequestExpirations, x.expiration ≤ y.expiration) →
    timeout = ((x.expiration - s.now + (nanosecondsPerMillisecond - 1)) / nanosecondsPerMillisecond : Nat)
  /-- The time fits into an `int`. -/
  limited : timeout ≤ 60000

theorem mem_expirations_expire (h : s.Inv) {x : Expiration} :
    x ∈ s.expire.udpRequestExpirations ↔ x ∈ s.udpRequestExpirations ∧ s.now < x.expiration := by
  obtain ⟨_, hkept, _⟩ := expireFront_spec s.now h.corresponds
  show x ∈ (expireFront s.now s.udpRequestExpirations s.udpRequests).1 ↔ _
  rw [hkept, mem_filter, decide_eq_true_eq]

theorem mem_requests_expire (h : s.Inv) {r : UdpRequest} {x : Expiration} (hr : r ∈ s.udpRequests)
    (hx : x ∈ s.udpRequestExpirations) (hnode : x.node = r.expiration) :
    r ∈ s.expire.udpRequests ↔ s.now < x.expiration := by
  obtain ⟨hcorresponds, _, hsub⟩ := expireFront_spec s.now h.corresponds
  constructor
  · intro hkept
    obtain ⟨x', hx', _, hnode'⟩ := hcorresponds.expiration_of_mem hkept
    obtain ⟨hmem, hlater⟩ := (mem_expirations_expire h).mp hx'
    rw [h.corresponds.expiration_unique hx hmem (hnode.trans hnode'.symm)]
    exact hlater
  · intro hlater
    obtain ⟨r', hr', hid, _⟩ := hcorresponds.request_of_mem ((mem_expirations_expire h).mpr ⟨hx, hlater⟩)
    have hsame : r'.requestId = r.requestId := hid.trans ((h.corresponds.node_eq_iff hr hx).mp hnode)
    rw [← h.corresponds.request_unique (hsub.subset hr') hr hsame]
    exact hr'

theorem waitTime_eq_iff (h : s.Inv) : s.waitTime = -1 ↔ s.udpRequests = [] := by
  unfold waitTime
  cases hexpirations : s.udpRequestExpirations with
  | nil =>
    refine iff_of_true rfl ?_
    have hperm := h.corresponds.perm
    rw [hexpirations] at hperm
    exact map_eq_nil_iff.mp (perm_nil.mp hperm)
  | cons x xs =>
    have hmem : x ∈ s.udpRequestExpirations := by
      rw [hexpirations]
      exact mem_cons_self ..
    obtain ⟨r, hr, _⟩ := h.corresponds.request_of_mem hmem
    refine iff_of_false ?_ (ne_nil_of_mem hr)
    dsimp only
    exact Ne.symm (Int.ne_of_lt (Int.lt_of_lt_of_le (by decide) (Int.natCast_nonneg _)))

theorem waitTime_earliest (h : s.Inv) {x : Expiration} (hx : x ∈ s.udpRequestExpirations)
    (hfirst : ∀ y ∈ s.udpRequestExpirations, x.expiration ≤ y.expiration) :
    s.waitTime = ((x.expiration - s.now + (nanosecondsPerMillisecond - 1)) / nanosecondsPerMillisecond : Nat) := by
  have hsorted := h.corresponds.sorted
  unfold waitTime
  cases hexpirations : s.udpRequestExpirations with
  | nil =>
    rw [hexpirations] at hx
    cases hx
  | cons z zs =>
    rw [hexpirations] at hx hfirst hsorted
    have hsame : x.expiration = z.expiration := by
      have hle := hfirst z (mem_cons_self ..)
      rcases mem_cons.mp hx with rfl | hx
      · rfl
      · exact Nat.le_antisymm hle ((pairwise_cons.mp hsorted).1 x hx)
    dsimp only
    rw [hsame]

theorem waitTime_le (h : s.Inv) : s.waitTime ≤ 60000 := by
  have hbounded := h.bounded
  unfold waitTime
  cases hexpirations : s.udpRequestExpirations with
  | nil => exact (by decide : (-1 : Int) ≤ 60000)
  | cons z zs =>
    have hz := hbounded z (by rw [hexpirations]; exact mem_cons_self ..)
    simp only [udpRequestTimeout, nanosecondsPerMillisecond] at hz ⊢
    omega

theorem expired_expire (h : s.Inv) : Expired s s.expire s.expireUdpRequestsAndGetTimeout.1 where
  untracked := fun _ hr _ hx hnode => mem_requests_expire h hr hx hnode
  nothing := waitTime_eq_iff h.expire
  earliest := fun _ hx hfirst => waitTime_earliest h.expire hx hfirst
  limited := waitTime_le h.expire

end Server

structure UdpStep (s : Server) (op : UdpOp) (s' : Server) : Prop where
  corresponds : Corresponds s'.udpRequests s'.udpRequestExpirations
  answers : Server.Answers s op s'
  once : s'.answered.Nodup
  expired : op = .expire → s.tunnelling = none → Server.Expired s s' s.expireUdpRequestsAndGetTimeout.1

/-- In every run map and list correspond, a response goes to the client that asked, and requests expire. -/
theorem udp_requests_tracked (ops : List UdpOp) : Along Server.step UdpStep ops {} := by
  have hkeep : ∀ op s, Server.Inv s → True → (s.step op).Inv := fun _ _ h _ => h.step
  apply along_of_step hkeep
  · intro op s h _
    refine ⟨h.step.corresponds, Server.answers_step op, h.step.once, ?_⟩
    rintro rfl hidle
    have hstep : s.step .expire = s.expire := by
      rw [Server.step, hidle]
      rfl
    rw [hstep]
    exact Server.expired_expire h
  · exact Server.inv_initial
  · exact allowed_of_forall (fun _ _ _ => trivial) _

end WslPlus.Network.DnsUdp

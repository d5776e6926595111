import WslPlus.Network.DnsServer

/-!
# The requests of a TCP client

A client sends its requests with their lengths in two bytes in front. What the server
receives on a connection consists of the requests it has tunnelled and of the part of one
that is in the context. A request cannot be taken for another one, as its first two bytes
say where it ends.
-/

namespace WslPlus.Network

open Function List

namespace DnsServer

variable {part bytes frame : Bytes} {context : TcpConnectionContext}

def frameSize (part : Bytes) : Nat :=
  if part.length < byteCountTcpRequestLength then byteCountTcpRequestLength
  else byteCountTcpRequestLength + ntohs (part.take byteCountTcpRequestLength)

def IsFrame (frame : Bytes) : Prop :=
  byteCountTcpRequestLength < frame.length ∧ frame.length = frameSize frame

def Incomplete (part : Bytes) : Prop :=
  part.length < frameSize part ∨ part.length = byteCountTcpRequestLength ∧ part.length = frameSize part

/-- The context has got `part` of a request, and its buffer is as large as is known so far. -/
structure Collects (context : TcpConnectionContext) (part : Bytes) : Prop where
  offset : context.currentRequestOffset = part.length
  front : part <+: context.currentDnsRequest
  size : context.currentDnsRequest.length = frameSize part

theorem frameSize_append (h : byteCountTcpRequestLength ≤ part.length) (bytes : Bytes) :
    frameSize (part ++ bytes) = frameSize part := by
  unfold frameSize
  rw [length_append, take_append_of_le_length h, if_neg (by omega), if_neg (by omega)]

theorem frameSize_of_lt (h : part.length < byteCountTcpRequestLength) :
    frameSize part = byteCountTcpRequestLength := if_pos h

theorem Collects.new (conn : Nat) (id : UInt32) : Collects { conn := conn, connectionId := id } [] :=
  ⟨rfl, nil_prefix, rfl⟩

theorem frameSize_of_eq (h : part.length = byteCountTcpRequestLength) :
    frameSize part = byteCountTcpRequestLength + ntohs part := by
  rw [frameSize, if_neg (by omega), take_of_length_le (by omega)]

theorem resize_of_le {size : Nat} (h : part.length ≤ size) :
    resize part size = part ++ List.replicate (size - part.length) 0 := by
  rw [resize, take_of_length_le h]

theorem receive_spec (hcollects : Collects context part) (hne : bytes ≠ [])
    (hroom : bytes.length ≤ context.currentDnsRequest.length - context.currentRequestOffset) :
    (context.receive bytes).1.conn = context.conn ∧
    (context.receive bytes).1.connectionId = context.connectionId ∧
    ((context.receive bytes).2 = none ∧ Incomplete (part ++ bytes) ∧
        Collects (context.receive bytes).1 (part ++ bytes) ∨
      (context.receive bytes).2 = some (part ++ bytes) ∧ IsFrame (part ++ bytes) ∧
        Collects (context.receive bytes).1 []) := by
  obtain ⟨hoffset, ⟨rest, hrest⟩, hsize⟩ := hcollects
  have hpos := length_pos_iff.mpr hne
  rw [← hrest, length_append] at hroom hsize
  have hreq : Window.overwrite context.currentDnsRequest part.length bytes =
      part ++ bytes ++ rest.drop bytes.length := by
    rw [Window.overwrite, ← hrest, take_left' rfl, ← drop_drop, drop_left]
  have hlen : (part ++ bytes ++ rest.drop bytes.length).length = frameSize part := by
    simp only [length_append, List.length_drop]
    omega
  have hlong : (part ++ bytes).length = part.length + bytes.length := length_append
  unfold TcpConnectionContext.receive
  simp only [hoffset, hreq, hlen]
  split
  · rename_i hfull
    have hnil : rest.drop bytes.length = [] := drop_eq_nil_of_le (by omega)
    rw [hnil, append_nil]
    split
    · -- the two bytes of the length are there
      rename_i htwo
      have hcount : (part ++ bytes).length = byteCountTcpRequestLength := by omega
      have hknown := frameSize_of_eq hcount
      refine ⟨rfl, rfl, .inl ⟨rfl, ?_, ?_⟩⟩
      · unfold Incomplete
        omega
      · rw [resize_of_le (by omega)]
        refine ⟨hlong.symm, prefix_append _ _, ?_⟩
        rw [length_append, length_replicate, hknown]
        omega
    · rename_i htwo
      have hknown : byteCountTcpRequestLength ≤ part.length := by
        by_contra hlt
        exact htwo (frameSize_of_lt (by omega))
      have hframe := frameSize_append hknown bytes
      refine ⟨rfl, rfl, .inr ⟨rfl, ?_, ⟨rfl, nil_prefix, rfl⟩⟩⟩
      unfold IsFrame
      omega
  · rename_i hopen
    have hframe : frameSize (part ++ bytes) = frameSize part := by
      by_cases hknown : byteCountTcpRequestLength ≤ part.length
      · exact frameSize_append hknown bytes
      · have htwo : frameSize part = byteCountTcpRequestLength := frameSize_of_lt (by omega)
        rw [htwo]
        exact frameSize_of_lt (by omega)
    refine ⟨rfl, rfl, .inl ⟨rfl, ?_, ⟨hlong.symm, prefix_append _ _, ?_⟩⟩⟩
    · unfold Incomplete
      omega
    · rw [hframe]
      exact hlen

def htons (n : Nat) : Bytes := [.ofNat (n / 2 ^ 8), .ofNat n]

def encode (request : Bytes) : Bytes := htons request.length ++ request

def encodeAll (requests : List Bytes) : Bytes := requests.flatMap encode

def Sendable (request : Bytes) : Prop := 1 ≤ request.length ∧ request.length ≤ 65535

theorem ntohs_htons {n : Nat} (h : n ≤ 65535) : ntohs (htons n) = n := by
  simp only [ntohs, htons, foldl_cons, foldl_nil, UInt8.toNat_ofNat']
  omega

theorem length_encode (request : Bytes) :
    (encode request).length = byteCountTcpRequestLength + request.length := by
  rw [encode, length_append]
  rfl

theorem frameSize_of_front {request rest : Bytes} (hreq : Sendable request)
    (hpart : part <+: encode request ++ rest) (hlong : byteCountTcpRequestLength ≤ part.length) :
    frameSize part = (encode request).length := by
  obtain ⟨more, hmore⟩ := hpart
  have htake : part.take byteCountTcpRequestLength = htons request.length := by
    have htake := congrArg (List.take byteCountTcpRequestLength) hmore
    rw [take_append_of_le_length hlong, encode, append_assoc] at htake
    exact htake.trans (take_left' rfl)
  rw [frameSize, if_neg (by omega), htake, ntohs_htons hreq.2, length_encode]

theorem frames_eq {frames requests : List Bytes} (hframes : ∀ frame ∈ frames, IsFrame frame)
    (hpart : Incomplete part) (hreqs : ∀ request ∈ requests, Sendable request)
    (hfront : frames.flatten ++ part <+: encodeAll requests) :
    ∃ done rest, requests = done ++ rest ∧ frames = done.map encode ∧
      ∀ request later, rest = request :: later → part.length < (encode request).length := by
  induction frames generalizing requests with
  | nil =>
    refine ⟨[], requests, rfl, rfl, ?_⟩
    rintro request later rfl
    have hreq := hreqs request mem_cons_self
    rw [flatten_nil, nil_append, encodeAll, flatMap_cons] at hfront
    have hsize := length_encode request
    by_cases hlong : byteCountTcpRequestLength ≤ part.length
    · have hknown := frameSize_of_front hreq hfront hlong
      have hpos := hreq.1
      unfold Incomplete at hpart
      omega
    · omega
  | cons frame frames ih =>
    have hframe := hframes frame mem_cons_self
    rw [flatten_cons, append_assoc] at hfront
    cases requests with
    | nil =>
      have hnil := prefix_nil.mp hfront
      have hempty : frame = [] := (append_eq_nil_iff.mp hnil).1
      rw [hempty] at hframe
      exact absurd hframe.1 (by decide)
    | cons request later =>
      rw [encodeAll, flatMap_cons] at hfront
      have hfirst : frame <+: encode request ++ later.flatMap encode :=
        (prefix_append frame _).trans hfront
      have hlen : frame.length = (encode request).length := by
        rw [hframe.2]
        exact frameSize_of_front (hreqs request mem_cons_self) hfirst hframe.1.le
      have heq : frame = encode request := by
        have hwhole : encode request <+: encode request ++ later.flatMap encode := ⟨_, rfl⟩
        exact (prefix_of_prefix_length_le hfirst hwhole hlen.le).eq_of_length hlen
      subst heq
      rw [prefix_append_right_inj] at hfront
      obtain ⟨done, rest, rfl, rfl, hnext⟩ :=
        ih (fun frame hmem => hframes frame (mem_cons_of_mem _ hmem))
          (fun request hmem => hreqs request (mem_cons_of_mem _ hmem)) hfront
      exact ⟨request :: done, rest, rfl, rfl, hnext⟩

variable {s : Server} {conn : Nat} {id : UInt32}

def requestsOf (s : Server) (conn : Nat) : List Bytes :=
  (s.tunnelled.filter (·.conn = conn)).map Tunnelled.request

/-- What was received on a connection, cut into requests and a part of one. -/
structure Decoded (s : Server) (conn : Nat) (part : Bytes) : Prop where
  received : s.received conn = (requestsOf s conn).flatten ++ part
  frames : ∀ frame ∈ requestsOf s conn, IsFrame frame
  incomplete : Incomplete part

structure Inv (s : Server) : Prop where
  registered : ∀ id context, s.tcpConnectionContexts id = some context →
    context.connectionId = id ∧ context.conn < s.accepted ∧ s.idOf context.conn = id
  tagged : ∀ t ∈ s.tunnelled, t.conn < s.accepted ∧ t.dnsClientId = s.idOf t.conn
  fresh : ∀ conn, s.accepted ≤ conn → s.received conn = []
  decoded : ∀ conn, ∃ part, Decoded s conn part ∧
    ∀ id context, s.tcpConnectionContexts id = some context → context.conn = conn →
      Collects context part

theorem inv_init : Inv {} where
  registered := by simp
  tagged := by simp
  fresh := by simp
  decoded := fun _ => ⟨[], ⟨rfl, by simp [requestsOf], .inl (by decide)⟩, by simp⟩

theorem Inv.erase (hinv : Inv s) (id : UInt32) : Inv (s.setContext id none) := by
  have hstill : ∀ id' context, (s.setContext id none).tcpConnectionContexts id' = some context →
      s.tcpConnectionContexts id' = some context := by
    intro id' context hctx
    simp only [Server.setContext, update_apply] at hctx
    split at hctx
    · cases hctx
    · exact hctx
  constructor
  · intro id' context hctx
    exact hinv.registered id' context (hstill id' context hctx)
  · exact hinv.tagged
  · exact hinv.fresh
  · intro conn
    obtain ⟨part, hdec, hcollects⟩ := hinv.decoded conn
    exact ⟨part, ⟨hdec.received, hdec.frames, hdec.incomplete⟩,
      fun id' context hctx => hcollects id' context (hstill id' context hctx)⟩

theorem accept_idOf (h : conn < s.accepted) : s.accept.idOf conn = s.idOf conn :=
  update_of_ne h.ne ..

theorem Inv.accept (hinv : Inv s) : Inv s.accept := by
  constructor
  · intro id context hctx
    obtain ⟨hid, hlt, hidOf⟩ := hinv.registered id context hctx
    exact ⟨hid, Nat.lt_succ_of_lt hlt, (accept_idOf hlt).trans hidOf⟩
  · intro t ht
    obtain ⟨hlt, hid⟩ := hinv.tagged t ht
    exact ⟨Nat.lt_succ_of_lt hlt, hid.trans (accept_idOf hlt).symm⟩
  · intro conn hle
    exact hinv.fresh conn (Nat.le_of_succ_le hle)
  · intro conn
    obtain ⟨part, hdec, hcollects⟩ := hinv.decoded conn
    exact ⟨part, ⟨hdec.received, hdec.frames, hdec.incomplete⟩, hcollects⟩

theorem decoded_accepted (hinv : Inv s) (hpart : Decoded s s.accepted part) : part = [] := by
  have hrecv := hpart.received
  rw [hinv.fresh s.accepted (Nat.le_refl _)] at hrecv
  exact (append_eq_nil_iff.mp hrecv.symm).2

theorem Inv.handleNewTcpConnection (hinv : Inv s) (registers : Bool) :
    Inv (handleNewTcpConnection registers s) := by
  have haccept := hinv.accept
  unfold DnsServer.handleNewTcpConnection
  simp only
  split
  · exact haccept.erase _
  · split
    · have hcases : ∀ id context, (s.accept.setContext s.currentTcpConnectionId
          (some { conn := s.accepted, connectionId := s.currentTcpConnectionId })).tcpConnectionContexts id =
            some context →
          id = s.currentTcpConnectionId ∧
              context = { conn := s.accepted, connectionId := s.currentTcpConnectionId } ∨
            s.tcpConnectionContexts id = some context := by
        intro id context hctx
        simp only [Server.setContext, update_apply] at hctx
        split at hctx
        · rename_i hid
          exact .inl ⟨hid, (Option.some.inj hctx).symm⟩
        · exact .inr hctx
      constructor
      · intro id context hctx
        obtain ⟨rfl, rfl⟩ | hold := hcases id context hctx
        · exact ⟨rfl, Nat.lt_succ_self _, update_self ..⟩
        · exact haccept.registered id context hold
      · exact haccept.tagged
      · exact haccept.fresh
      · intro conn
        obtain ⟨part, hdec, hcollects⟩ := haccept.decoded conn
        refine ⟨part, ⟨hdec.received, hdec.frames, hdec.incomplete⟩, ?_⟩
        intro id context hctx hconn
        obtain ⟨rfl, rfl⟩ | hold := hcases id context hctx
        · subst hconn
          have hpart : part = [] := decoded_accepted hinv
            ⟨hdec.received, hdec.frames, hdec.incomplete⟩
          rw [hpart]
          exact Collects.new _ _
        · exact hcollects id context hold hconn
    · exact haccept

theorem requestsOf_afterRead (s : Server) (context next : TcpConnectionContext) (got : Bytes)
    (request : Option Bytes) (conn : Nat) :
    requestsOf (s.afterRead context next got request) conn =
      requestsOf s conn ++ if conn = context.conn then request.toList else [] := by
  unfold requestsOf Server.afterRead
  rw [filter_append, map_append]
  congr 1
  by_cases hconn : conn = context.conn
  · cases request <;> simp [hconn]
  · have hne : ¬ context.conn = conn := fun heq => hconn heq.symm
    cases request <;> simp [hconn, hne]

theorem Decoded.afterRead {part' : Bytes} (hdec : Decoded s context.conn part)
    (next : TcpConnectionContext) (got : Bytes) (request : Option Bytes)
    (hsplit : part ++ got = request.toList.flatten ++ part')
    (hframe : ∀ frame ∈ request, IsFrame frame) (hpart' : Incomplete part') :
    Decoded (s.afterRead context next got request) context.conn part' := by
  have hreqs := requestsOf_afterRead s context next got request context.conn
  rw [if_pos rfl] at hreqs
  constructor
  · have hrecv : (s.afterRead context next got request).received context.conn =
        s.received context.conn ++ got := update_self ..
    rw [hrecv, hreqs, hdec.received, append_assoc, hsplit, flatten_append,
      append_assoc]
  · intro frame hmem
    rw [hreqs, mem_append, Option.mem_toList] at hmem
    exact hmem.elim (hdec.frames frame) (hframe frame)
  · exact hpart'

theorem Inv.afterRead {next : TcpConnectionContext} {got part' : Bytes} {request : Option Bytes}
    (hinv : Inv s) (hctx : s.tcpConnectionContexts id = some context)
    (hconn' : next.conn = context.conn) (hid' : next.connectionId = context.connectionId)
    (hdec : Decoded (s.afterRead context next got request) context.conn part')
    (hcollects : Collects next part') : Inv (s.afterRead context next got request) := by
  obtain ⟨hid, hconn, hidOf⟩ := hinv.registered id context hctx
  have hcases : ∀ id' context', (s.afterRead context next got request).tcpConnectionContexts id' =
      some context' → id' = id ∧ context' = next ∨
        id' ≠ id ∧ s.tcpConnectionContexts id' = some context' := by
    intro id' context' hnew
    simp only [Server.afterRead, Server.setContext, update_apply, hid] at hnew
    split at hnew
    · rename_i heq
      exact .inl ⟨heq, (Option.some.inj hnew).symm⟩
    · rename_i hne
      exact .inr ⟨hne, hnew⟩
  constructor
  · intro id' context' hnew
    obtain ⟨rfl, rfl⟩ | ⟨-, hold⟩ := hcases id' context' hnew
    · rw [hid', hconn']
      exact ⟨hid, hconn, hidOf⟩
    · exact hinv.registered id' context' hold
  · intro t ht
    obtain hold | hnew := mem_append.mp ht
    · exact hinv.tagged t hold
    · obtain ⟨request, -, rfl⟩ := mem_map.mp hnew
      exact ⟨hconn, hid.trans hidOf.symm⟩
  · intro conn hle
    have hne : conn ≠ context.conn := by
      rintro rfl
      exact absurd hconn (Nat.not_lt.mpr hle)
    exact (update_of_ne hne ..).trans (hinv.fresh conn hle)
  · intro conn
    by_cases hsame : conn = context.conn
    · subst hsame
      refine ⟨part', hdec, ?_⟩
      intro id' context' hnew hctx'
      obtain ⟨rfl, rfl⟩ | ⟨hne, hold⟩ := hcases id' context' hnew
      · exact hcollects
      · -- no other id has this connection
        have hother := (hinv.registered id' context' hold).2.2
        rw [hctx', hidOf] at hother
        exact absurd hother.symm hne
    · obtain ⟨part, hold, hothers⟩ := hinv.decoded conn
      have hreqs := requestsOf_afterRead s context next got request conn
      rw [if_neg hsame, append_nil] at hreqs
      refine ⟨part, ⟨?_, ?_, hold.incomplete⟩, ?_⟩
      · rw [hreqs]
        exact (update_of_ne hsame ..).trans hold.received
      · rw [hreqs]
        exact hold.frames
      · intro id' context' hnew hctx'
        obtain ⟨rfl, rfl⟩ | ⟨-, hprev⟩ := hcases id' context' hnew
        · exact absurd (hctx'.symm.trans hconn') hsame
        · exact hothers id' context' hprev hctx'

theorem Inv.handleNewTcpData (hinv : Inv s) (hctx : s.tcpConnectionContexts id = some context)
    (bytes : Option Bytes) : Inv (handleNewTcpData context bytes s) := by
  unfold DnsServer.handleNewTcpData
  simp only
  split
  · exact hinv.erase _
  · rename_i hne
    obtain ⟨part, hdec, hcollects⟩ := hinv.decoded context.conn
    have hroom : ((bytes.getD []).take
        (context.currentDnsRequest.length - context.currentRequestOffset)).length ≤
        context.currentDnsRequest.length - context.currentRequestOffset := length_take_le _ _
    generalize (bytes.getD []).take
      (context.currentDnsRequest.length - context.currentRequestOffset) = got at hne hroom
    obtain ⟨hconn', hid', hspec⟩ := receive_spec (hcollects id context hctx rfl) hne hroom
    obtain ⟨hnone, hincomplete, hnext⟩ | ⟨hsome, hframe, hnext⟩ := hspec
    · rw [hnone]
      have hafter := hdec.afterRead (context.receive got).1 got none rfl (by simp) hincomplete
      exact hinv.afterRead hctx hconn' hid' hafter hnext
    · rw [hsome]
      have hsplit : part ++ got = (some (part ++ got)).toList.flatten ++ [] := by simp
      have hafter := hdec.afterRead (context.receive got).1 got (some (part ++ got)) hsplit
        (by simpa using hframe) (.inl (by decide))
      exact hinv.afterRead hctx hconn' hid' hafter hnext

theorem inv_step (e : Event) (s : Server) (hinv : Inv s) : Inv (step e s) := by
  cases e with
  | newTcpConnection registers => exact hinv.handleNewTcpConnection registers
  | newTcpData id bytes =>
    simp only [step]
    split
    · exact hinv
    · rename_i context hctx
      exact hinv.handleNewTcpData hctx bytes
  | tcpDnsResponse id response writes =>
    simp only [step, handleTcpDnsResponse]
    split
    · exact hinv
    · refine ⟨hinv.registered, hinv.tagged, hinv.fresh, ?_⟩
      intro conn
      obtain ⟨part, hdec, hcollects⟩ := hinv.decoded conn
      exact ⟨part, ⟨hdec.received, hdec.frames, hdec.incomplete⟩, hcollects⟩

def Tunnels (s : Server) (conn : Nat) (requests : List Bytes) : Prop :=
  s.tunnelled.filter (·.conn = conn) =
    requests.map fun request => ⟨conn, s.idOf conn, encode request⟩

theorem Inv.tunnels {requests : List Bytes} (hinv : Inv s)
    (hreqs : requestsOf s conn = requests.map encode) : Tunnels s conn requests := by
  have hrebuild : s.tunnelled.filter (·.conn = conn) =
      (requestsOf s conn).map fun request => ⟨conn, s.idOf conn, request⟩ := by
    rw [requestsOf, map_map]
    conv_lhs => rw [← map_id (s.tunnelled.filter (·.conn = conn))]
    apply map_congr_left
    intro t ht
    obtain ⟨hmem, hconn⟩ := mem_filter.mp ht
    simp only [decide_eq_true_eq] at hconn
    subst hconn
    have hid := (hinv.tagged t hmem).2
    simp only [id_eq, comp_apply, ← hid]
  rw [Tunnels, hrebuild, hreqs, map_map]
  rfl

/-- In every run, if the requests are what a client sends on a connection, those that have
arrived completely are tunnelled, each once and in order, and nothing else is. -/
theorem requests_tunnelled (events : List Event) (conn : Nat) (requests : List Bytes)
    (hrequests : ∀ request ∈ requests, Sendable request)
    (harrived : (runSteps step events {}).received conn <+: encodeAll requests) :
    (∃ done rest, requests = done ++ rest ∧ Tunnels (runSteps step events {}) conn done ∧
      encodeAll done <+: (runSteps step events {}).received conn ∧
      ∀ request later, rest = request :: later →
        ¬ encodeAll (done ++ [request]) <+: (runSteps step events {}).received conn) ∧
    ((runSteps step events {}).received conn = encodeAll requests →
      Tunnels (runSteps step events {}) conn requests) := by
  have hinv : Inv (runSteps step events {}) := inv_runSteps_of_step inv_step inv_init
  generalize runSteps step events {} = s at harrived hinv
  obtain ⟨part, hdecoded, -⟩ := hinv.decoded conn
  have hreceived := hdecoded.received
  rw [hreceived] at harrived
  obtain ⟨done, rest, rfl, hframes, hnext⟩ :=
    frames_eq hdecoded.frames hdecoded.incomplete hrequests harrived
  have hdone : s.received conn = encodeAll done ++ part := by
    rw [hreceived, hframes, ← flatMap_def]
    rfl
  have hopen : ∀ request later, rest = request :: later →
      ¬ encodeAll (done ++ [request]) <+: s.received conn := by
    intro request later hrest hwhole
    have hlength := hwhole.length_le
    have hpart := hnext request later hrest
    simp only [hdone, encodeAll, flatMap_append, flatMap_cons, flatMap_nil,
      append_nil, length_append] at hlength
    omega
  refine ⟨⟨done, rest, rfl, hinv.tunnels hframes, ⟨part, hdone.symm⟩, hopen⟩, ?_⟩
  intro hall
  cases rest with
  | nil =>
    rw [append_nil]
    exact hinv.tunnels hframes
  | cons request later =>
    apply absurd _ (hopen request later rfl)
    rw [hall]
    exact ⟨encodeAll later, by simp [encodeAll]⟩

theorem requests_tunnelled_bytewise :
    Tunnels (runSteps step [.newTcpConnection true, .newTcpData 0 (some [0]), .newTcpData 0 (some [1]),
      .newTcpData 0 (some [7])] {}) 0 [[7]] :=
  (requests_tunnelled _ 0 [[7]] (by simp [Sendable]) ⟨[], rfl⟩).2 rfl

end DnsServer

end WslPlus.Network

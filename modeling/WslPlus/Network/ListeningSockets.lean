import WslPlus.Network.HostListeners

/-!
# The listening sockets of the guest

`MonitorListeningSockets` lists the listening TCP sockets of the guest once a second and asks the host to
start and to stop listeners accordingly. The list is made by two netlink transactions. A transaction that
fails ends the list, and what was listed before it is taken as the whole.

The messages to the host are kept in the order in which they are sent, each with whether it could be sent.
-/

namespace WslPlus.Network.ListeningSockets

open List

/-- `inet_diag_msg`. The kernel answers with the family that was asked for. -/
structure DiagMessage where
  family : Family
  source : Address
  port : UInt16

/-- `sockaddr_storage` with a port in network order; an IPv4 address has one word. -/
structure SockAddr where
  family : Family
  address : Address
  port : UInt16
  deriving DecidableEq

def DiagMessage.sockAddr (m : DiagMessage) : SockAddr where
  family := m.family
  address :=
    match m.family with
    | .inet => { word0 := m.source.word0 }
    | .inet6 => m.source
  port := m.port

/-- How a transaction ends: with the last response, with an error in one, or as its request cannot be
sent. Only the second exception is caught. -/
inductive Finish where
  | done
  | transactionError
  | sendError

/-- A transaction with the messages of its responses up to its end. -/
structure Transaction where
  messages : List DiagMessage := []
  finish : Finish := .done

/-- The sockets that are listed, and whether these are all; `none` if an exception leaves the function. -/
def queryListeningSockets (ipv4 ipv6 : Transaction) : Option (List SockAddr × Bool) :=
  match ipv4.finish with
  | .sendError => none
  | .transactionError => some (ipv4.messages.map DiagMessage.sockAddr, false)
  | .done =>
    match ipv6.finish with
    | .sendError => none
    | .transactionError => some ((ipv4.messages ++ ipv6.messages).map DiagMessage.sockAddr, false)
    | .done => some ((ipv4.messages ++ ipv6.messages).map DiagMessage.sockAddr, true)

def ntohs (x : UInt16) : UInt16 := UInt16.ofNat (x.toNat % 256 * 256 + x.toNat / 256)

def sockToRelayMessage (sock : SockAddr) : HostListeners.Listen where
  kind := .relay
  family :=
    match sock.family with
    | .inet => 2
    | .inet6 => 10
  address := sock.address
  port := ntohs sock.port

inductive Event where
  | start (sock : SockAddr) (sent : Bool)
  | stop (sock : SockAddr) (sent : Bool)
  deriving DecidableEq

def Event.sent : Event → Bool
  | .start _ sent | .stop _ sent => sent

structure Monitor where
  relays : List SockAddr := []
  running : Bool := true
  log : List Event := []

/-- A round of the loop; the `n`-th message of the run can be sent or not. -/
structure Scan where
  ipv4 : Transaction := {}
  ipv6 : Transaction := {}
  sends : Nat → Bool := fun _ => true

def stopAll (sends : Nat → Bool) : List SockAddr → List Event → List Event
  | [], log => log
  | x :: xs, log => stopAll sends xs (log ++ [Event.stop x (sends log.length)])

def startAll (sends : Nat → Bool) : List SockAddr → List SockAddr → List Event → List SockAddr × List Event
  | [], relays, log => (relays, log)
  | x :: xs, relays, log =>
    if x ∈ relays then startAll sends xs relays log
    else
      startAll sends xs (if sends log.length then relays ++ [x] else relays)
      (log ++ [Event.start x (sends log.length)])

def reconcile (s : Monitor) (sockets : List SockAddr) (sends : Nat → Bool) : Monitor :=
  let log := stopAll sends (s.relays.filter (· ∉ sockets)) s.log
  let started := startAll sends sockets (s.relays.filter (· ∈ sockets)) log
  { relays := started.1
    running := (started.2.drop s.log.length).all Event.sent
    log := started.2 }

def step (scan : Scan) (s : Monitor) : Monitor :=
  if s.running then
    match queryListeningSockets scan.ipv4 scan.ipv6 with
    | some (sockets, _) => reconcile s sockets scan.sends
    | none => { s with running := false }
  else s

def relayed (log : List Event) (x : SockAddr) : Bool :=
  log.foldl (fun known e =>
    match e with
    | .start y sent => if y = x ∧ sent = true then true else known
    | .stop y sent => if y = x ∧ sent = true then false else known) false

theorem relayed_start (log : List Event) (x y : SockAddr) (sent : Bool) :
    relayed (log ++ [Event.start y sent]) x = if y = x ∧ sent = true then true else relayed log x := by
  rw [relayed, foldl_append]
  rfl

theorem relayed_stop (log : List Event) (x y : SockAddr) (sent : Bool) :
    relayed (log ++ [Event.stop y sent]) x = if y = x ∧ sent = true then false else relayed log x := by
  rw [relayed, foldl_append]
  rfl

def Alternates (log : List Event) : Prop :=
  ∀ older newer x, log = older ++ Event.start x true :: newer → relayed older x = false

theorem Alternates.snoc {log : List Event} (h : Alternates log) {e : Event}
    (he : ∀ x, e = .start x true → relayed log x = false) : Alternates (log ++ [e]) := by
  intro older newer x heq
  rcases eq_nil_or_concat newer with rfl | ⟨newer, e', rfl⟩
  · obtain ⟨rfl, hlast⟩ := append_inj' heq rfl
    exact he x (List.cons.inj hlast).1
  · rw [concat_eq_append, ← cons_append, ← append_assoc] at heq
    obtain ⟨hlog, -⟩ := append_inj' heq rfl
    exact h older newer x hlog

section Round

variable (sends : Nat → Bool)

theorem stopAll_spec (xs : List SockAddr) (log : List Event) :
    ∃ events, stopAll sends xs log = log ++ events ∧
      (∀ x, (∃ sent, .stop x sent ∈ events) ↔ x ∈ xs) ∧ (∀ x sent, .start x sent ∉ events) ∧
      (∀ x, relayed (log ++ events) x = true → relayed log x = true) ∧
      (∀ x, x ∉ xs → relayed (log ++ events) x = relayed log x) ∧
      (events.all Event.sent = true → ∀ x ∈ xs, relayed (log ++ events) x = false) ∧
      (Alternates log → Alternates (log ++ events)) := by
  induction xs generalizing log with
  | nil =>
    refine ⟨[], ?_, ?_, ?_, ?_, ?_, ?_, ?_⟩ <;> simp [stopAll]
  | cons x xs ih =>
    obtain ⟨events, hlog, hstops, hstarts, hmono, hother, hall, halternates⟩ :=
      ih (log ++ [Event.stop x (sends log.length)])
    have hassoc :
        log ++ [Event.stop x (sends log.length)] ++ events = log ++ (.stop x (sends log.length) :: events) := by
      rw [append_assoc]
      rfl
    rw [hassoc] at hlog hmono hother hall halternates
    have hfirst (y : SockAddr) (h : relayed (log ++ [Event.stop x (sends log.length)]) y = true) :
        relayed log y = true := by
      rw [relayed_stop] at h
      split at h
      · cases h
      · exact h
    refine ⟨.stop x (sends log.length) :: events, by rw [stopAll, hlog], ?_, ?_, ?_, ?_, ?_, ?_⟩
    · intro y
      rw [mem_cons, ← hstops y]
      constructor
      · rintro ⟨sent, hmem⟩
        rcases mem_cons.mp hmem with heq | hmem
        · cases heq
          exact .inl rfl
        · exact .inr ⟨sent, hmem⟩
      · rintro (rfl | ⟨sent, hmem⟩)
        · exact ⟨_, mem_cons_self⟩
        · exact ⟨sent, mem_cons_of_mem _ hmem⟩
    · intro y sent hmem
      rcases mem_cons.mp hmem with heq | hmem
      · cases heq
      · exact hstarts y sent hmem
    · intro y hy
      exact hfirst y (hmono y hy)
    · intro y hy
      rw [mem_cons, not_or] at hy
      rw [hother y hy.2, relayed_stop, if_neg fun h => hy.1 h.1.symm]
    · intro hsent y hy
      rw [all_cons, Bool.and_eq_true] at hsent
      by_cases hxs : y ∈ xs
      · exact hall hsent.2 y hxs
      · have hyx : y = x := (mem_cons.mp hy).resolve_right hxs
        rw [hother y hxs, relayed_stop, if_pos ⟨hyx.symm, hsent.1⟩]
    · intro h
      apply halternates
      apply h.snoc
      intro y hy
      cases hy

theorem startAll_spec (xs relays : List SockAddr) (log : List Event)
    (hknown : ∀ x ∈ xs, x ∈ relays ↔ relayed log x = true) :
    ∃ events, (startAll sends xs relays log).2 = log ++ events ∧
      (∀ x, (∃ sent, .start x sent ∈ events) ↔ x ∈ xs ∧ x ∉ relays) ∧ (∀ x sent, .stop x sent ∉ events) ∧
      ((∀ x, x ∈ relays ↔ relayed log x = true) →
        ∀ x, x ∈ (startAll sends xs relays log).1 ↔ relayed (log ++ events) x = true) ∧
      (Alternates log → Alternates (log ++ events)) := by
  induction xs generalizing relays log with
  | nil =>
    refine ⟨[], ?_, ?_, ?_, ?_, ?_⟩ <;> simp [startAll]
  | cons x xs ih =>
    rw [startAll]
    split
    · rename_i hmem
      obtain ⟨events, hlog, hstarts, hstops, hsame, halternates⟩ :=
        ih relays log fun y hy => hknown y (mem_cons_of_mem x hy)
      refine ⟨events, hlog, ?_, hstops, hsame, halternates⟩
      intro y
      rw [hstarts y]
      constructor
      · rintro ⟨hy, hnot⟩
        exact ⟨mem_cons_of_mem x hy, hnot⟩
      · rintro ⟨hy, hnot⟩
        rcases mem_cons.mp hy with rfl | hy
        · exact absurd hmem hnot
        · exact ⟨hy, hnot⟩
    · rename_i hnot
      have hstep (y : SockAddr) (hy : y ∈ relays ↔ relayed log y = true) :
          y ∈ (if sends log.length then relays ++ [x] else relays) ↔
            relayed (log ++ [Event.start x (sends log.length)]) y = true := by
        rw [relayed_start]
        cases sends log.length with
        | false => simpa using hy
        | true =>
          by_cases hxy : x = y
          · simp [hxy]
          · simp [hxy, Ne.symm hxy, hy]
      obtain ⟨events, hlog, hstarts, hstops, hsame, halternates⟩ :=
        ih (if sends log.length then relays ++ [x] else relays) (log ++ [Event.start x (sends log.length)])
          fun y hy => hstep y (hknown y (mem_cons_of_mem x hy))
      have hassoc : log ++ [Event.start x (sends log.length)] ++ events =
          log ++ (.start x (sends log.length) :: events) := by
        rw [append_assoc]
        rfl
      rw [hassoc] at hlog hsame halternates
      refine ⟨.start x (sends log.length) :: events, hlog, ?_, ?_, ?_, ?_⟩
      · intro y
        by_cases hxy : y = x
        · subst hxy
          exact iff_of_true ⟨_, mem_cons_self⟩ ⟨mem_cons_self, hnot⟩
        · have hrelays : y ∈ (if sends log.length then relays ++ [x] else relays) ↔ y ∈ relays := by
            split <;> simp [hxy]
          have hevents : (∃ sent, .start y sent ∈ Event.start x (sends log.length) :: events) ↔
              ∃ sent, .start y sent ∈ events := by simp [hxy]
          rw [hevents, hstarts y, hrelays, mem_cons, or_iff_right hxy]
      · intro y sent hmem
        rcases mem_cons.mp hmem with heq | hmem
        · cases heq
        · exact hstops y sent hmem
      · intro hall
        exact hsame fun y => hstep y (hall y)
      · intro h
        apply halternates
        apply h.snoc
        intro y hy
        obtain ⟨rfl, -⟩ := Event.start.inj hy
        by_contra hrelayed
        exact hnot ((hknown x mem_cons_self).mpr (by simpa using hrelayed))

end Round

/-- As long as the loop goes on, its relays are what the host knows. -/
structure Monitor.Inv (s : Monitor) : Prop where
  relays : s.running = true → ∀ x, x ∈ s.relays ↔ relayed s.log x = true
  alternates : Alternates s.log

theorem Monitor.Inv.initial : Monitor.Inv {} where
  relays := fun _ x => by simp [relayed]
  alternates := fun older newer x h => by simp at h

/-- What the round of a scan is to do: a start for each socket that is reported and not relayed, and a stop
for a relayed socket only after a complete scan without it. -/
structure Follows (s : Monitor) (sockets : List SockAddr) (complete : Bool) (s' : Monitor) : Prop where
  events : ∃ events, s'.log = s.log ++ events ∧
    (∀ x, (∃ sent, .start x sent ∈ events) ↔ x ∈ sockets ∧ relayed s.log x = false) ∧
    ∀ x sent, .stop x sent ∈ events → relayed s.log x = true ∧ complete = true ∧ x ∉ sockets
  alternates : Alternates s'.log

def Reports (scan : Scan) (s : Monitor) : Prop :=
  s.running = true → ∀ sockets, queryListeningSockets scan.ipv4 scan.ipv6 = some (sockets, false) →
    ∀ x ∈ s.relays, x ∈ sockets

theorem reconcile_spec {s : Monitor} (h : s.Inv) (hrun : s.running = true) (sockets : List SockAddr)
    (sends : Nat → Bool) :
    (reconcile s sockets sends).Inv ∧ ∃ events, (reconcile s sockets sends).log = s.log ++ events ∧
      (∀ x, (∃ sent, .start x sent ∈ events) ↔ x ∈ sockets ∧ relayed s.log x = false) ∧
      ∀ x, (∃ sent, .stop x sent ∈ events) ↔ relayed s.log x = true ∧ x ∉ sockets := by
  have hrelays := h.relays hrun
  obtain ⟨stops, hstopLog, hstops, hnoStart, hmono, hother, hall, hstopAlternates⟩ :=
    stopAll_spec sends (s.relays.filter (· ∉ sockets)) s.log
  have hgone (x : SockAddr) : x ∈ s.relays.filter (· ∉ sockets) ↔ relayed s.log x = true ∧ x ∉ sockets := by
    rw [mem_filter, hrelays x, decide_eq_true_eq]
  have hkept (x : SockAddr) : x ∈ s.relays.filter (· ∈ sockets) ↔ relayed s.log x = true ∧ x ∈ sockets := by
    rw [mem_filter, hrelays x, decide_eq_true_eq]
  have hknown : ∀ x ∈ sockets, x ∈ s.relays.filter (· ∈ sockets) ↔ relayed (s.log ++ stops) x = true := by
    intro x hx
    rw [hkept, hother x fun hmem => ((hgone x).mp hmem).2 hx, and_iff_left hx]
  obtain ⟨starts, hlog, hstarts, hnoStop, hsame, halternates⟩ :=
    startAll_spec sends sockets (s.relays.filter (· ∈ sockets)) (s.log ++ stops) hknown
  have hfinal : (reconcile s sockets sends).log = s.log ++ (stops ++ starts) := by
    simp only [reconcile, hstopLog, hlog, append_assoc]
  refine ⟨⟨?_, ?_⟩, stops ++ starts, hfinal, ?_, ?_⟩
  · intro hgoes x
    have hsent : (stops ++ starts).all Event.sent = true := by
      simp only [reconcile, hstopLog, hlog, append_assoc, drop_left] at hgoes
      exact hgoes
    rw [all_append, Bool.and_eq_true] at hsent
    have hafter : ∀ x, x ∈ s.relays.filter (· ∈ sockets) ↔ relayed (s.log ++ stops) x = true := by
      intro x
      by_cases hx : x ∈ sockets
      · exact hknown x hx
      · rw [hkept]
        constructor
        · rintro ⟨-, hmem⟩
          exact absurd hmem hx
        · intro hrelayed
          rw [hall hsent.1 x ((hgone x).mpr ⟨hmono x hrelayed, hx⟩)] at hrelayed
          cases hrelayed
    rw [hfinal, ← append_assoc, ← hsame hafter x]
    simp only [reconcile, hstopLog]
  · rw [hfinal, ← append_assoc]
    exact halternates (hstopAlternates h.alternates)
  · intro x
    have hevents : (∃ sent, .start x sent ∈ stops ++ starts) ↔ ∃ sent, .start x sent ∈ starts := by
      simp [mem_append, hnoStart]
    rw [hevents, hstarts x, hkept]
    constructor
    · rintro ⟨hx, hnot⟩
      refine ⟨hx, ?_⟩
      by_contra hrelayed
      exact hnot ⟨by simpa using hrelayed, hx⟩
    · rintro ⟨hx, hrelayed⟩
      refine ⟨hx, fun hboth => ?_⟩
      rw [hrelayed] at hboth
      cases hboth.1
  · intro x
    have hevents : (∃ sent, .stop x sent ∈ stops ++ starts) ↔ ∃ sent, .stop x sent ∈ stops := by
      simp [mem_append, hnoStop]
    rw [hevents, hstops x, hgone]

theorem Monitor.Inv.step {s : Monitor} (h : s.Inv) (scan : Scan) : (step scan s).Inv := by
  unfold ListeningSockets.step
  split
  · rename_i hrun
    split
    · rename_i sockets complete _
      exact (reconcile_spec h hrun sockets scan.sends).1
    · exact ⟨fun hfalse => absurd hfalse Bool.false_ne_true, h.alternates⟩
  · exact h

theorem follows_iff {s : Monitor} (h : s.Inv) (scan : Scan) :
    (s.running = true → ∀ sockets complete, queryListeningSockets scan.ipv4 scan.ipv6 = some (sockets, complete) →
      Follows s sockets complete (step scan s)) ↔ Reports scan s := by
  constructor
  · intro hfollows hrun sockets hquery x hx
    obtain ⟨events, hlog, -, hstops⟩ := (hfollows hrun sockets false hquery).events
    obtain ⟨-, events', hlog', -, hstops'⟩ := reconcile_spec h hrun sockets scan.sends
    have hstep : step scan s = reconcile s sockets scan.sends := by
      rw [ListeningSockets.step, if_pos hrun, hquery]
    rw [hstep, hlog', append_cancel_left_eq] at hlog
    by_contra hnot
    obtain ⟨sent, hmem⟩ := (hstops' x).mpr ⟨(h.relays hrun x).mp hx, hnot⟩
    cases (hstops x sent (hlog ▸ hmem)).2.1
  · intro hreports hrun sockets complete hquery
    obtain ⟨hinv, events, hlog, hstarts, hstops⟩ := reconcile_spec h hrun sockets scan.sends
    rw [ListeningSockets.step, if_pos hrun, hquery]
    refine ⟨⟨events, hlog, hstarts, ?_⟩, hinv.alternates⟩
    intro x sent hmem
    obtain ⟨hrelayed, hnot⟩ := (hstops x).mp ⟨sent, hmem⟩
    refine ⟨hrelayed, ?_, hnot⟩
    cases complete with
    | true => rfl
    | false => exact absurd (hreports hrun sockets hquery x ((h.relays hrun x).mpr hrelayed)) hnot

def HostFollows (scans : List Scan) : Prop :=
  Along step (fun s scan s' => s.running = true → ∀ sockets complete,
    queryListeningSockets scan.ipv4 scan.ipv6 = some (sockets, complete) → Follows s sockets complete s') scans {}

theorem hostFollows_iff_allowed (scans : List Scan) : HostFollows scans ↔ Allowed step Reports scans {} := by
  apply along_iff_allowed (fun scan s (hs : s.Inv) _ => hs.step scan)
  · intro scan s hs
    exact follows_iff hs scan
  · exact Monitor.Inv.initial

/-- Every round of a run does what it is to do exactly if no scan fails before it has reported all relayed
sockets; and in every run no socket is started twice without a stop in between. -/
theorem host_follows_iff (scans : List Scan) :
    (HostFollows scans ↔ Allowed step Reports scans {}) ∧ Alternates (runSteps step scans {}).log :=
  ⟨hostFollows_iff_allowed scans,
    (inv_runSteps_of_step (fun scan s (hs : s.Inv) => hs.step scan) Monitor.Inv.initial).alternates⟩

/-- A socket is relayed, and the next scan fails before it comes to it: the listener is stopped. -/
theorem host_stops_early :
    let socket : DiagMessage := ⟨.inet, {}, 0x5000⟩
    let scans := [{ ipv4 := { messages := [socket] } }, { ipv4 := { finish := .transactionError } }]
    (runSteps step scans {}).log = [.start socket.sockAddr true, .stop socket.sockAddr true] ∧
      ¬ HostFollows scans := by
  refine ⟨by decide, ?_⟩
  intro h
  have hreports := (hostFollows_iff_allowed _).mp h
  have hmem := hreports.2.1 (by decide) [] (by decide) ⟨.inet, {}, 0x5000⟩ (by decide)
  cases hmem

end WslPlus.Network.ListeningSockets

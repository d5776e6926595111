import WslPlus.Network.PortTracker

/-!
# Listeners of the host for ports of the guest

`RelayWorker` opens a listener on the host when the guest listens on a loopback or wildcard address, and
closes it when the guest stops. The addresses of one family and port share a listener with a counter. A
start whose bind fails leaves nothing behind.

A stop message is for an earlier start, which it names here by its position among the starts; it has the
same content.
-/

namespace WslPlus.Network.HostListeners

open Function List

def ntohl (x : UInt32) : UInt32 :=
  UInt32.ofNat (x.toNat % 256 * 16777216 + x.toNat / 256 % 256 * 65536 + x.toNat / 65536 % 256 * 256 +
    x.toNat / 16777216)

def inaddrLoopback : UInt32 := 0x7F000001

/-- The last word of `IN6ADDR_LOOPBACK_INIT`. -/
def in6addrLoopbackWord3 : UInt32 := 0x01000000

/-- `LX_AF_INET` and `LX_AF_INET6`. -/
def linuxFamily (family : Int) : Option Family :=
  if family = 2 then some .inet else if family = 10 then some .inet6 else none

def bindsLocalhost (af : Int) (address : Address) : Bool :=
  match linuxFamily af with
  | some .inet => address.word0 = 0 || address.word0 = ntohl inaddrLoopback
  | some .inet6 =>
    (address.word0 ||| address.word1 ||| address.word2 ||| (address.word3 &&& ~~~in6addrLoopbackWord3)) = 0
  | none => false

/-- `LxGnsMessagePortListenerRelayStart` and `...Stop`, or `LxGnsMessagePortMappingRequest`. -/
inductive Kind where
  | relay
  | mapping (protocol : Int)
  deriving DecidableEq

structure Listen where
  kind : Kind
  family : Int
  address : Address
  port : UInt16
  deriving DecidableEq

abbrev Pair := Family × UInt16

inductive Target where
  /-- `WindowsAddressFamily` throws, which ends the worker. -/
  | invalid
  | ignored
  | listener (pair : Pair)
  deriving DecidableEq

def Listen.target (m : Listen) : Target :=
  match m.kind with
  | .relay =>
    match linuxFamily m.family with
    | none => .invalid
    | some .inet =>
      if m.address.word0 ≠ 0 ∧ m.address.word0 ≠ ntohl inaddrLoopback then .ignored else .listener (.inet, m.port)
    | some .inet6 =>
      if m.address.word0 ≠ 0 ∨ m.address.word1 ≠ 0 ∨ m.address.word2 ≠ 0 ∨ 1 < ntohl m.address.word3 then .ignored
      else .listener (.inet6, m.port)
  | .mapping protocol =>
    -- Only `IPPROTO_TCP` is handled.
    if protocol = 6 && bindsLocalhost m.family m.address then
      match linuxFamily m.family with
      | some family => .listener (family, m.port)
      | none => .ignored
    else .ignored

/-- Why `BindRelayListener` fails. -/
inductive BindError where
  | addressInUse
  | access
  | other

/-- `-LX_EADDRINUSE` or `-LX_EINVAL`. -/
def BindError.code : BindError → Int
  | .addressInUse | .access => -98
  | .other => -22

/-- A start that was received, with whether it succeeded and whether its stop was received. -/
structure Start where
  message : Listen
  ok : Bool
  stopped : Bool := false
  deriving DecidableEq

structure Worker where
  running : Bool := true
  /-- `m_RelayThreads`: the counters of the listeners that are open. -/
  threads : Pair → Option Int := fun _ => none
  starts : List Start := []

/-- A value of type `int`. -/
def wrap (x : Int) : Int := (x + 2147483648) % 4294967296 - 2147483648

namespace Worker

def startPortListener (threads : Pair → Option Int) (pair : Pair) (bindError : Option BindError) :
    (Pair → Option Int) × Int :=
  match threads pair with
  | some count => (update threads pair (some (wrap (count + 1))), 0)
  | none =>
    match bindError with
    | some e => (threads, e.code)
    | none => (update threads pair (some 1), 0)

def stopPortListener (threads : Pair → Option Int) (pair : Pair) : Pair → Option Int :=
  match threads pair with
  | some count =>
    if wrap (count - 1) ≤ 0 then update threads pair none
    else update threads pair (some (wrap (count - 1)))
  | none => threads

/-- The destructor of `Relay` closes all listeners. -/
def fail (s : Worker) : Worker := { s with running := false, threads := fun _ => none }

def start (s : Worker) (m : Listen) (bindError : Option BindError) : Worker :=
  match m.target with
  | .invalid => s.fail
  | .ignored => { s with starts := s.starts ++ [⟨m, false, false⟩] }
  | .listener pair =>
    { s with
      threads := (startPortListener s.threads pair bindError).1
      starts := s.starts ++ [⟨m, decide ((startPortListener s.threads pair bindError).2 = 0), false⟩] }

def stop (s : Worker) (id : Nat) (st : Start) : Worker :=
  let s := { s with starts := s.starts.set id { st with stopped := true } }
  match st.message.target with
  | .invalid => s.fail
  | .ignored => s
  | .listener pair => { s with threads := stopPortListener s.threads pair }

end Worker

inductive Op where
  | start (m : Listen) (bindError : Option BindError)
  | stop (id : Nat)

def step (op : Op) (s : Worker) : Worker :=
  if s.running then
    match op with
    | .start m bindError => s.start m bindError
    | .stop id =>
      match s.starts[id]? with
      | some st => if st.stopped then s else s.stop id st
      | none => s
  else s

theorem not_one_lt_ntohl (x : UInt32) : ¬ 1 < ntohl x ↔ x = 0 ∨ x = in6addrLoopbackWord3 := by
  have hx := x.toNat_lt
  have hbound : x.toNat % 256 * 16777216 + x.toNat / 256 % 256 * 65536 + x.toNat / 65536 % 256 * 256 +
      x.toNat / 16777216 < 2 ^ 32 := by omega
  have hsecond : x.toNat / 65536 = x.toNat / 256 / 256 := by rw [Nat.div_div_eq_div_mul]
  have hthird : x.toNat / 16777216 = x.toNat / 256 / 256 / 256 := by
    rw [Nat.div_div_eq_div_mul, Nat.div_div_eq_div_mul]
  rw [UInt32.lt_iff_toNat_lt, ← UInt32.toNat_inj, ← UInt32.toNat_inj, ntohl, UInt32.toNat_ofNat_of_lt' hbound]
  change ¬ (1 < _) ↔ x.toNat = 0 ∨ x.toNat = 16777216
  rw [hsecond, hthird]
  omega

theorem in6addrLoopbackWord3_getLsbD (i : Nat) : in6addrLoopbackWord3.toBitVec.getLsbD i = decide (i = 24) := by
  have hpow : in6addrLoopbackWord3.toBitVec = BitVec.twoPow 32 24 := rfl
  rw [hpow, BitVec.getLsbD_twoPow]
  by_cases hi : i = 24
  · simp [hi]
  · simp [hi, Ne.symm hi]

theorem and_mask_eq_zero (x : UInt32) : x &&& ~~~in6addrLoopbackWord3 = 0 ↔ x = 0 ∨
    x = in6addrLoopbackWord3 := by
  constructor
  · intro h
    have hbit (i : Nat) (hi : i ≠ 24) : x.toBitVec.getLsbD i = false := by
      have hzero : (x &&& ~~~in6addrLoopbackWord3).toBitVec.getLsbD i = (0 : UInt32).toBitVec.getLsbD i := by rw [h]
      rw [UInt32.toBitVec_and, UInt32.toBitVec_not, BitVec.getLsbD_and, BitVec.getLsbD_not,
        in6addrLoopbackWord3_getLsbD] at hzero
      by_cases hlt : i < 32
      · simpa [hlt, hi] using hzero
      · exact BitVec.getLsbD_of_ge _ _ (by omega)
    cases hcase : x.toBitVec.getLsbD 24 with
    | false =>
      left
      rw [← UInt32.toBitVec_inj]
      apply BitVec.eq_of_getLsbD_eq
      intro i _
      by_cases hi : i = 24
      · rw [hi, hcase]
        rfl
      · rw [hbit i hi]
        simp
    | true =>
      right
      rw [← UInt32.toBitVec_inj]
      apply BitVec.eq_of_getLsbD_eq
      intro i _
      rw [in6addrLoopbackWord3_getLsbD]
      by_cases hi : i = 24
      · rw [hi, hcase]
        rfl
      · rw [hbit i hi]
        simp [hi]
  · rintro (rfl | rfl) <;> decide

def Localhost (family : Family) (address : Address) : Prop :=
  match family with
  | .inet => address.word0 = 0 ∨ address.word0 = ntohl inaddrLoopback
  | .inet6 => address.word0 = 0 ∧ address.word1 = 0 ∧ address.word2 = 0 ∧
      (address.word3 = 0 ∨ address.word3 = in6addrLoopbackWord3)

theorem bindsLocalhost_iff {af : Int} {address : Address} :
    bindsLocalhost af address = true ↔ ∃ family, linuxFamily af = some family ∧ Localhost family address := by
  rw [bindsLocalhost]
  cases linuxFamily af with
  | none => simp
  | some family =>
    cases family with
    | inet => simp [Localhost]
    | inet6 => simp [Localhost, and_mask_eq_zero, and_assoc]

theorem Listen.target_eq_listener {m : Listen} {family : Family} {port : UInt16} :
    m.target = .listener (family, port) ↔
      linuxFamily m.family = some family ∧ m.port = port ∧ Localhost family m.address ∧
        ∀ protocol, m.kind = .mapping protocol → protocol = 6 := by
  rw [Listen.target]
  cases m.kind with
  | relay =>
    cases linuxFamily m.family with
    | none => simp
    | some f =>
      cases f with
      | inet =>
        by_cases hlocal : Localhost .inet m.address
        · have hif : ¬ (m.address.word0 ≠ 0 ∧ m.address.word0 ≠ ntohl inaddrLoopback) := by
            rw [not_and_or, not_not, not_not]
            exact hlocal
          simp only [if_neg hif]
          constructor
          · intro h
            cases h
            exact ⟨rfl, rfl, hlocal, fun _ hkind => by cases hkind⟩
          · rintro ⟨hfam, rfl, -⟩
            cases hfam
            rfl
        · have hif : m.address.word0 ≠ 0 ∧ m.address.word0 ≠ ntohl inaddrLoopback := not_or.mp hlocal
          simp only [if_pos hif]
          constructor
          · intro h
            cases h
          · rintro ⟨hfam, -, hlocal', -⟩
            cases hfam
            exact absurd hlocal' hlocal
      | inet6 =>
        have hiff : Localhost .inet6 m.address ↔
            ¬ (m.address.word0 ≠ 0 ∨ m.address.word1 ≠ 0 ∨ m.address.word2 ≠ 0 ∨ 1 < ntohl m.address.word3) := by
          rw [not_or, not_or, not_or, not_not, not_not, not_not, not_one_lt_ntohl]
          rfl
        by_cases hlocal : Localhost .inet6 m.address
        · simp only [if_neg (hiff.mp hlocal)]
          constructor
          · intro h
            cases h
            exact ⟨rfl, rfl, hlocal, fun _ hkind => by cases hkind⟩
          · rintro ⟨hfam, rfl, -⟩
            cases hfam
            rfl
        · simp only [if_pos (not_not.mp fun h => hlocal (hiff.mpr h))]
          constructor
          · intro h
            cases h
          · rintro ⟨hfam, -, hlocal', -⟩
            cases hfam
            exact absurd hlocal' hlocal
  | mapping protocol =>
    simp only
    split
    · rename_i hbinds
      rw [Bool.and_eq_true, decide_eq_true_eq, bindsLocalhost_iff] at hbinds
      obtain ⟨hprotocol, f, hf, hlocal⟩ := hbinds
      rw [hf]
      constructor
      · intro h
        cases h
        refine ⟨rfl, rfl, hlocal, ?_⟩
        intro q hq
        cases hq
        exact hprotocol
      · rintro ⟨hfam, rfl, -⟩
        cases hfam
        rfl
    · rename_i hbinds
      constructor
      · intro h
        cases h
      · rintro ⟨hfam, -, hlocal, hprotocol⟩
        refine absurd ?_ hbinds
        rw [Bool.and_eq_true, decide_eq_true_eq, bindsLocalhost_iff]
        exact ⟨hprotocol protocol rfl, family, hfam, hlocal⟩

/-- A loopback or wildcard address of a family and port was started successfully and is not yet stopped. -/
structure Start.Live (st : Start) (pair : Pair) : Prop where
  ok : st.ok = true
  running : st.stopped = false
  family : linuxFamily st.message.family = some pair.1
  port : st.message.port = pair.2
  address : Localhost pair.1 st.message.address

def Start.counts (pair : Pair) (st : Start) : Bool :=
  st.ok && !st.stopped && decide (st.message.target = .listener pair)

namespace Worker

variable {s : Worker} {pair : Pair}

def Follows (s : Worker) : Prop := ∀ pair, s.threads pair ≠ none ↔ ∃ st ∈ s.starts, st.Live pair

def live (s : Worker) (pair : Pair) : Nat := s.starts.countP (Start.counts pair)

/-- The greatest value of type `int`. -/
def maxCount : Nat := 2147483647

structure Inv (s : Worker) : Prop where
  running : s.running = true
  valid : ∀ st ∈ s.starts, st.message.target ≠ .invalid
  target : ∀ st ∈ s.starts, st.ok = true → ∃ pair, st.message.target = .listener pair
  count : ∀ pair, s.threads pair = if s.live pair = 0 then none else some (s.live pair : Int)
  bound : ∀ pair, s.live pair ≤ maxCount

theorem Inv.initial : Inv {} where
  running := rfl
  valid := fun st hst => by cases hst
  target := fun st hst => by cases hst
  count := fun pair => rfl
  bound := fun pair => Nat.zero_le _

variable {st : Start}

theorem counts_iff (htarget : st.ok = true → ∃ pair, st.message.target = .listener pair) :
    st.counts pair = true ↔ st.Live pair := by
  rw [Start.counts, Bool.and_eq_true, Bool.and_eq_true, Bool.not_eq_true', decide_eq_true_eq]
  constructor
  · rintro ⟨⟨hok, hstop⟩, h⟩
    obtain ⟨hfam, hport, hlocal, -⟩ := Listen.target_eq_listener.mp h
    exact ⟨hok, hstop, hfam, hport, hlocal⟩
  · intro h
    obtain ⟨pair', hpair'⟩ := htarget h.ok
    obtain ⟨hfam, hport, -⟩ := Listen.target_eq_listener.mp hpair'
    refine ⟨⟨h.ok, h.running⟩, ?_⟩
    rw [hpair', Target.listener.injEq]
    exact Prod.ext (Option.some.inj (hfam.symm.trans h.family)) (hport.symm.trans h.port)

theorem Inv.follows (h : s.Inv) : s.Follows := by
  intro pair
  have hlive : (∃ st ∈ s.starts, st.Live pair) ↔ 0 < s.live pair := by
    rw [live, countP_pos_iff]
    constructor
    · rintro ⟨st, hst, hlive⟩
      exact ⟨st, hst, (counts_iff (h.target st hst)).mpr hlive⟩
    · rintro ⟨st, hst, hcounts⟩
      exact ⟨st, hst, (counts_iff (h.target st hst)).mp hcounts⟩
  rw [hlive, h.count pair]
  split
  · rename_i hzero
    simp [hzero]
  · rename_i hzero
    simp [Nat.pos_of_ne_zero hzero]

theorem wrap_eq {x : Int} (hlow : 0 ≤ x) (hhigh : x ≤ maxCount) : wrap x = x := by
  rw [wrap]
  rw [maxCount] at hhigh
  omega

/-- The family of a start is known, and its counter does not overflow. A start that failed is stopped only
while its family and port have no listener. -/
def regular (s : Worker) (op : Op) : Bool :=
  match op with
  | .start m _ =>
    match m.target with
    | .invalid => false
    | .ignored => true
    | .listener pair => s.live pair < maxCount
  | .stop id =>
    match s.starts[id]? with
    | some st =>
      match st.message.target with
      | .listener pair => st.stopped || st.ok || (s.threads pair).isNone
      | .invalid | .ignored => true
    | none => true

theorem regular_start {m : Listen} {bindError : Option BindError} (h : s.regular (.start m bindError) = true) :
    m.target ≠ .invalid ∧ ∀ pair, m.target = .listener pair → s.live pair < maxCount := by
  rw [regular] at h
  constructor
  · intro hinvalid
    rw [hinvalid] at h
    cases h
  · intro pair hpair
    rw [hpair] at h
    exact of_decide_eq_true h

variable {id : Nat}

theorem regular_stop (h : s.regular (.stop id) = true) (hst : s.starts[id]? = some st)
    (hstop : st.stopped = false) (hok : st.ok = false) (hpair : st.message.target = .listener pair) :
    s.threads pair = none := by
  rw [regular, hst] at h
  simpa [hpair, hstop, hok] using h

theorem live_append (st : Start) (threads : Pair → Option Int) :
    live { s with threads := threads, starts := s.starts ++ [st] } pair =
      s.live pair + if st.counts pair then 1 else 0 := by
  simp [live, countP_append, countP_cons]

theorem live_set (hst : s.starts[id]? = some st) (threads : Pair → Option Int) :
    live { s with threads := threads, starts := s.starts.set id { st with stopped := true } } pair =
      s.live pair - if st.counts pair then 1 else 0 := by
  obtain ⟨hlt, hget⟩ := List.getElem?_eq_some_iff.mp hst
  have hnot : ({ st with stopped := true } : Start).counts pair = false := by simp [Start.counts]
  rw [live, countP_set hlt, hget, hnot]
  simp [live]

section

variable (h : s.Inv)
include h

theorem Inv.valid_append (hvalid : st.message.target ≠ .invalid) :
    ∀ st' ∈ s.starts ++ [st], st'.message.target ≠ .invalid := by
  intro st' hst'
  rcases mem_append.mp hst' with hst' | hst'
  · exact h.valid st' hst'
  · rw [mem_singleton.mp hst']
    exact hvalid

theorem Inv.valid_set (hst : s.starts[id]? = some st) :
    ∀ st' ∈ s.starts.set id { st with stopped := true }, st'.message.target ≠ .invalid := by
  intro st' hst'
  rcases mem_or_eq_of_mem_set hst' with hst' | rfl
  · exact h.valid st' hst'
  · exact h.valid st (mem_of_getElem? hst)

theorem Inv.append (hok : st.ok = false) (hvalid : st.message.target ≠ .invalid) :
    Inv { s with starts := s.starts ++ [st] } where
  running := h.running
  valid := h.valid_append hvalid
  target := by
    intro st' hst' hok'
    rcases mem_append.mp hst' with hst' | hst'
    · exact h.target st' hst' hok'
    · rw [mem_singleton.mp hst', hok] at hok'
      cases hok'
  count := by
    intro pair
    rw [live_append, Start.counts, hok]
    exact h.count pair
  bound := by
    intro pair
    rw [live_append, Start.counts, hok]
    exact h.bound pair

theorem Inv.start {m : Listen} (bindError : Option BindError) (h' : s.regular (.start m bindError) = true) :
    (s.start m bindError).Inv := by
  have hreg := regular_start h'
  rw [Worker.start]
  split
  · rename_i hinvalid
    exact absurd hinvalid hreg.1
  · exact h.append rfl hreg.1
  · rename_i pair hpair
    have hlt := hreg.2 pair hpair
    have hcount := h.count pair
    -- Either the bind is tried and fails, or the counter goes up by one.
    by_cases hfails : ∃ e, s.threads pair = none ∧ bindError = some e
    · obtain ⟨e, hnone, rfl⟩ := hfails
      have hcode : decide (e.code = 0) = false := by cases e <;> rfl
      simp only [startPortListener, hnone, hcode]
      exact h.append rfl hreg.1
    · have hstart : startPortListener s.threads pair bindError =
          (update s.threads pair (some (s.live pair + 1 : Int)), 0) := by
        unfold startPortListener
        split
        · rename_i count hsome
          rw [hsome] at hcount
          split at hcount
          · cases hcount
          · cases hcount
            rw [wrap_eq (by omega) (by omega)]
        · rename_i hnone
          split
          · rename_i e
            exact absurd ⟨e, hnone, rfl⟩ hfails
          · rw [hnone] at hcount
            split at hcount
            · rename_i hzero
              rw [hzero]
              rfl
            · cases hcount
      have hcounts (pair' : Pair) : (⟨m, true, false⟩ : Start).counts pair' = decide (pair = pair') := by
        simp [Start.counts, hpair]
      simp only [hstart, decide_true]
      constructor
      · exact h.running
      · exact h.valid_append hreg.1
      · intro st hst hok
        rcases mem_append.mp hst with hst | hst
        · exact h.target st hst hok
        · rw [mem_singleton.mp hst]
          exact ⟨pair, hpair⟩
      · intro pair'
        rw [live_append, hcounts]
        by_cases heq : pair' = pair
        · subst heq
          simp
        · simp only [update_of_ne heq, decide_eq_true_eq, if_neg (Ne.symm heq), Nat.add_zero]
          exact h.count pair'
      · intro pair'
        rw [live_append, hcounts]
        by_cases heq : pair = pair'
        · subst heq
          simp only [decide_true, if_true]
          omega
        · simp only [decide_eq_true_eq, if_neg heq]
          exact h.bound pair'

theorem Inv.set (hst : s.starts[id]? = some st) (hnot : ∀ pair, st.counts pair = false) :
    Inv { s with starts := s.starts.set id { st with stopped := true } } where
  running := h.running
  valid := h.valid_set hst
  target := by
    intro st' hst' hok
    rcases mem_or_eq_of_mem_set hst' with hst' | rfl
    · exact h.target st' hst' hok
    · exact h.target st (mem_of_getElem? hst) hok
  count := by
    intro pair
    rw [live_set hst, hnot]
    exact h.count pair
  bound := by
    intro pair
    rw [live_set hst, hnot]
    exact h.bound pair

theorem Inv.stop (hst : s.starts[id]? = some st) (hstopped : st.stopped = false)
    (hreg : s.regular (.stop id) = true) : (s.stop id st).Inv := by
  have hmem := mem_of_getElem? hst
  simp only [Worker.stop]
  split
  · rename_i hinvalid
    exact absurd hinvalid (h.valid st hmem)
  · rename_i hignored
    apply h.set hst
    intro pair
    simp [Start.counts, hignored]
  · rename_i pair hpair
    by_cases hok : st.ok = true
    case neg =>
      have hok : st.ok = false := by simpa using hok
      have hnone := regular_stop hreg hst hstopped hok hpair
      have hthreads : stopPortListener s.threads pair = s.threads := by
        unfold stopPortListener
        rw [hnone]
      rw [hthreads]
      apply h.set hst
      intro pair'
      simp [Start.counts, hok]
    case pos =>
      have hcounts (pair' : Pair) : st.counts pair' = decide (pair = pair') := by
        simp [Start.counts, hpair, hok, hstopped]
      have hpos : 0 < s.live pair := by
        rw [live, countP_pos_iff]
        exact ⟨st, hmem, by rw [hcounts, decide_eq_true rfl]⟩
      have hbound := h.bound pair
      have hcount : s.threads pair = some (s.live pair : Int) := by
        rw [h.count pair, if_neg (Nat.ne_of_gt hpos)]
      have hwrap : wrap ((s.live pair : Int) - 1) = s.live pair - 1 := wrap_eq (by omega) (by omega)
      have hstop : stopPortListener s.threads pair = update s.threads pair
          (if s.live pair - 1 = 0 then none else some ((s.live pair - 1 : Nat) : Int)) := by
        unfold stopPortListener
        simp only [hcount, hwrap]
        split
        · rename_i hle
          rw [if_pos (by omega)]
        · rename_i hle
          rw [if_neg (by omega)]
          congr 2
          omega
      rw [hstop]
      constructor
      · exact h.running
      · exact h.valid_set hst
      · intro st' hst' hok'
        rcases mem_or_eq_of_mem_set hst' with hst' | rfl
        · exact h.target st' hst' hok'
        · exact h.target st hmem hok
      · intro pair'
        rw [live_set hst, hcounts]
        by_cases heq : pair' = pair
        · subst heq
          simp
        · simp only [update_of_ne heq, decide_eq_true_eq, if_neg (Ne.symm heq), Nat.sub_zero]
          exact h.count pair'
      · intro pair'
        rw [live_set hst]
        exact Nat.le_trans (Nat.sub_le ..) (h.bound pair')

theorem Inv.step {op : Op} (hreg : s.regular op = true) : (step op s).Inv := by
  cases op with
  | start m bindError =>
    simp only [HostListeners.step, if_pos h.running]
    exact h.start bindError hreg
  | stop id =>
    simp only [HostListeners.step, if_pos h.running]
    split
    · rename_i st hst
      split
      · exact h
      · rename_i hstop
        exact h.stop hst (by simpa using hstop) hreg
    · exact h

end

end Worker

/-- In a run in which a start that failed is stopped only while its family and port have no listener, the
listeners follow the live addresses throughout. -/
theorem listeners_follow (ops : List Op) (hops : Allowed step (fun op s => s.regular op = true) ops {}) :
    Along step (fun _ _ s' => s'.Follows) ops {} := by
  have hkeep : ∀ op (s : Worker), s.Inv → s.regular op = true → (step op s).Inv :=
    fun _ _ hs hregular => hs.step hregular
  apply along_of_step hkeep
  · intro op s hs hregular
    exact (hs.step hregular).follows
  · exact Worker.Inv.initial
  · exact hops

def anyAddress : Listen := { kind := .relay, family := 2, address := {}, port := 80 }

def loopbackAddress : Listen := { kind := .relay, family := 2, address := { word0 := 0x0100007F }, port := 80 }

theorem listeners_follow_shared :
    let ops := [Op.start anyAddress none, .start loopbackAddress none, .stop 0, .stop 1]
    Allowed step (fun op s => s.regular op = true) ops {} ∧ Along step (fun _ _ s' => s'.Follows) ops {} := by
  have hops : Allowed step (fun op s => s.regular op = true)
      [Op.start anyAddress none, .start loopbackAddress none, .stop 0, .stop 1] {} := by decide
  exact ⟨hops, listeners_follow _ hops⟩

/-- The start of the wildcard address fails, the start of the loopback address succeeds, and the wildcard
address is stopped: this closes the listener. -/
theorem listener_closed_early :
    let ops := [Op.start anyAddress (some .addressInUse), .start loopbackAddress none, .stop 0]
    let s := runSteps step ops {}
    s.threads (.inet, 80) = none ∧ s.starts[1]? = some ⟨loopbackAddress, true, false⟩ ∧
      ¬ Along step (fun _ _ s' => s'.Follows) ops {} := by
  refine ⟨by decide, by decide, ?_⟩
  rintro ⟨-, -, h, -⟩
  have hopen := (h (.inet, 80)).mpr ⟨⟨loopbackAddress, true, false⟩, by decide, rfl, rfl, rfl, rfl, .inr (by decide)⟩
  exact absurd (by decide) hopen

end WslPlus.Network.HostListeners

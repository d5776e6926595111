import Mathlib.Data.List.Chain
import WslPlus.Lib.Transition

/-!
# The event store of a session

Events are kept in a ring with consecutive sequence numbers. A reader has the number of the next
event that it will look at. It waits for that event if it is not there yet, and it is told when the
event is not there any more. What a reader has got is compared with the log of everything that was
appended.
-/

namespace WslPlus.Wslc

open List Option

namespace Events

structure Event where
  type : String
  action : String
  actorId : String
  attributes : List (String × String)
  time : Int
deriving DecidableEq

abbrev Filters := List (String × List String)

def eventMatchesFilters (event : Event) (filters : Filters) : Bool :=
  filters.all fun (key, values) =>
    if key = "type" then values.any (event.type == ·)
    else if key = "event" then values.any (event.action == ·)
    else if key = "container" then event.type == "container" && values.any (event.actorId == ·)
    else if key = "image" then event.type == "image" && values.any (event.actorId == ·)
    else true

def eventRingCapacity : Nat := 256

structure EventStore where
  events : List Event := []
  firstSequenceNumber : Nat := 1
  terminating : Bool := false

def EventStore.append (event : Event) (s : EventStore) : EventStore :=
  if eventRingCapacity < (s.events ++ [event]).length then
    { s with events := (s.events ++ [event]).tail, firstSequenceNumber := s.firstSequenceNumber + 1 }
  else { s with events := s.events ++ [event] }

/-- What `Get` comes to for its caller. -/
inductive Outcome where
  | event (e : Event)
  | finished
  | lost
  | aborted
deriving DecidableEq

/-- What a reader asks for. -/
structure Window where
  since : Option Int
  upTo : Option Int
  filters : Filters

structure EventStream where
  window : Window
  nextSequenceNumber : Option Nat := none
  waiting : Bool := false

def maxBound : Int := 922337203685

def toTimeBound (timeSeconds : Int) : Option Int :=
  if timeSeconds = 0 then none else some (min timeSeconds maxBound)

def createStream (sinceTime untilTime : Int) (filters : Filters) : Option EventStream :=
  if sinceTime < 0 ∨ untilTime < 0 ∨ (sinceTime ≠ 0 ∧ untilTime ≠ 0 ∧ sinceTime > untilTime) then none
  else some { window := ⟨toTimeBound sinceTime, toTimeBound untilTime, filters⟩ }

namespace Window

def closed (w : Window) (time : Int) : Bool := w.upTo.any (· ≤ time)

def wanted (w : Window) (event : Event) : Bool :=
  !w.closed event.time && w.since.all (· ≤ event.time) && eventMatchesFilters event w.filters

/-- A critical section of `Get` ends with an outcome or with a wait. -/
inductive Progress where
  | done (outcome : Outcome) (next : Option Nat)
  | parked (next : Nat)

/-- The loop of `Get` over the events that are there, from the reader's sequence number on. -/
def scan (w : Window) : List Event → Nat → Progress
  | [], next => .parked next
  | event :: events, next =>
    if w.closed event.time then .done .finished (some (next + 1))
    else if w.since.all (· ≤ event.time) && eventMatchesFilters event w.filters then
      .done (.event event) (some (next + 1))
    else scan w events (next + 1)

def read (w : Window) (s : EventStore) (next : Nat) : Progress :=
  w.scan (s.events.drop (next - s.firstSequenceNumber)) next

end Window

namespace EventStream

/-- `Get` up to its end or its first wait. -/
def get (stream : EventStream) (s : EventStore) : Window.Progress :=
  let next := stream.nextSequenceNumber.getD s.firstSequenceNumber
  if next < s.firstSequenceNumber then .done .lost none
  else if s.terminating then .done .aborted (some next)
  else stream.window.read s next

/-- `Get` after a wait, which may have ended because of the time. -/
def wake (stream : EventStream) (s : EventStore) (next : Nat) (now : Int) : Window.Progress :=
  if s.terminating then .done .aborted (some next)
  else if next < s.firstSequenceNumber + s.events.length then
    if next < s.firstSequenceNumber then .done .lost none else stream.window.read s next
  else if stream.window.closed now then .done .finished (some next)
  else .parked next

end EventStream

/-- What a reader got between two losses, and the part of the log that it went through for it. -/
structure Epoch where
  start : Nat
  stop : Nat
  received : List Event

/-- A stream and what became of it: everything that was returned, what was received up to each
loss, and since the last one. -/
structure Reader where
  stream : EventStream
  outcomes : List Outcome := []
  epochs : List Epoch := []
  start : Nat := 0
  received : List Event := []

namespace Reader

def begin (r : Reader) (s : EventStore) : Reader :=
  match r.stream.nextSequenceNumber with
  | some _ => r
  | none => { r with stream := { r.stream with nextSequenceNumber := some s.firstSequenceNumber }, start := s.firstSequenceNumber }

def advance (r : Reader) : Window.Progress → Reader
  | .parked next => { r with stream := { r.stream with nextSequenceNumber := some next, waiting := true } }
  | .done outcome next =>
    let r' := { r with stream := { r.stream with nextSequenceNumber := next, waiting := false }, outcomes := r.outcomes ++ [outcome] }
    match outcome with
    | .event e => { r' with received := r.received ++ [e] }
    | .lost =>
      { r' with epochs := r.epochs ++ [⟨r.start, r.stream.nextSequenceNumber.getD r.start, r.received⟩], received := [] }
    | .finished | .aborted => r'

end Reader

structure State where
  store : EventStore := {}
  readers : List Reader := []
  log : List Event := []

inductive Op where
  | append (event : Event)
  | createStream (sinceTime untilTime : Int) (filters : Filters)
  | get (i : Nat)
  | wake (i : Nat) (now : Int)
  | terminate

namespace State

def modifyReader (s : State) (i : Nat) (f : Reader → Reader) : State :=
  match s.readers[i]? with
  | some r => { s with readers := s.readers.set i (f r) }
  | none => s

end State

def step : Op → State → State
  | .append event, s => { s with store := s.store.append event, log := s.log ++ [event] }
  | .createStream sinceTime untilTime filters, s =>
    match Events.createStream sinceTime untilTime filters with
    | some stream => { s with readers := s.readers ++ [{ stream := stream }] }
    | none => s
  | .get i, s =>
    s.modifyReader i fun r =>
      if r.stream.waiting then r else (r.begin s.store).advance (r.stream.get s.store)
  | .wake i now, s =>
    s.modifyReader i fun r =>
      match r.stream.waiting, r.stream.nextSequenceNumber with
      | true, some next => r.advance (r.stream.wake s.store next now)
      | _, _ => r
  | .terminate, s => { s with store := { s.store with terminating := true } }

def segment (log : List Event) (start stop : Nat) : List Event := (log.drop (start - 1)).take (stop - start)

def Outcome.delivers : Outcome → Bool
  | .event _ | .lost => true
  | .finished | .aborted => false

structure Delivered (log : List Event) (r : Reader) : Prop where
  outcomes : r.outcomes.filter Outcome.delivers =
    r.epochs.flatMap (fun e => e.received.map Outcome.event ++ [Outcome.lost]) ++ r.received.map Outcome.event
  epochs : ∀ e ∈ r.epochs, e.received = (segment log e.start e.stop).filter r.stream.window.wanted
  received : ∀ next, r.stream.nextSequenceNumber = some next →
    r.received = (segment log r.start next).filter r.stream.window.wanted
  unread : r.stream.nextSequenceNumber = none → r.received = []
  order : r.epochs.IsChain fun e e' => e.stop ≤ e'.start
  last : ∀ next, r.stream.nextSequenceNumber = some next → ∀ e ∈ r.epochs.getLast?, e.stop ≤ r.start
  ended : r.outcomes.Pairwise fun o o' => o = .finished → ∀ e, o' ≠ .event e

def Ordered (op : Op) (s : State) : Prop :=
  match op with
  | .append event => ∀ e ∈ s.log.getLast?, e.time ≤ event.time
  | _ => True

instance : (op : Op) → (s : State) → Decidable (Ordered op s)
  | .append event, s => inferInstanceAs (Decidable (∀ e ∈ s.log.getLast?, e.time ≤ event.time))
  | .createStream _ _ _, _ | .get _, _ | .wake _ _, _ | .terminate, _ => .isTrue trivial

def Timely (op : Op) (s : State) : Prop :=
  Ordered op s ∧
    match op with
    | .append event => ∀ r ∈ s.readers, .finished ∈ r.outcomes → r.stream.window.closed event.time = true
    | _ => True

instance : (op : Op) → (s : State) → Decidable (Timely op s)
  | .append event, s =>
    inferInstanceAs (Decidable (Ordered (.append event) s ∧
      ∀ r ∈ s.readers, .finished ∈ r.outcomes → r.stream.window.closed event.time = true))
  | .createStream _ _ _, _ | .get _, _ | .wake _ _, _ | .terminate, _ => .isTrue ⟨trivial, trivial⟩

section Segment

variable {log : List Event} {start next : Nat}

theorem segment_add (hstart : 1 ≤ start) (hle : start ≤ next) (k : Nat) :
    segment log start (next + k) = segment log start next ++ (log.drop (next - 1)).take k := by
  have hsub : next + k - start = (next - start) + k := by omega
  have hdrop : start - 1 + (next - start) = next - 1 := by omega
  rw [segment, segment, hsub, take_add, drop_drop, hdrop]

theorem segment_append (hle : next ≤ log.length + 1) (hstart : 1 ≤ start) (event : Event) :
    segment (log ++ [event]) start next = segment log start next := by
  unfold segment
  by_cases hlt : start - 1 ≤ log.length
  · rw [drop_append_of_le_length hlt, take_append_of_le_length]
    rw [List.length_drop]
    omega
  · have hzero : next - start = 0 := by omega
    rw [hzero, take_zero, take_zero]

theorem segment_self : segment log start start = [] := by
  rw [segment, Nat.sub_self, take_zero]

end Segment

namespace Window

variable {w : Window}

theorem closed_mono {time time' : Int} (h : w.closed time = true) (hle : time ≤ time') :
    w.closed time' = true := by
  unfold closed at h ⊢
  cases hbound : w.upTo with
  | none =>
    rw [hbound] at h
    cases h
  | some bound =>
    rw [hbound, any_some, decide_eq_true_iff] at h
    rw [any_some, decide_eq_true_iff]
    omega

/-- What a scan has found at which place. -/
inductive Scanned (w : Window) (events : List Event) (next : Nat) : Progress → Prop where
  | parked (h : events.filter w.wanted = []) : Scanned w events next (.parked (next + events.length))
  | event {k : Nat} {e : Event} (hk : events[k]? = some e) (hwanted : w.wanted e = true)
      (h : (events.take k).filter w.wanted = []) :
      Scanned w events next (.done (.event e) (some (next + (k + 1))))
  | finished {k : Nat} {e : Event} (hk : events[k]? = some e) (hclosed : w.closed e.time = true)
      (h : (events.take k).filter w.wanted = []) :
      Scanned w events next (.done .finished (some (next + (k + 1))))

theorem scan_scanned (w : Window) (events : List Event) (next : Nat) :
    Scanned w events next (w.scan events next) := by
  induction events generalizing next with
  | nil => exact .parked rfl
  | cons event events ih =>
    rw [scan]
    split
    next hclose => exact .finished (k := 0) rfl hclose rfl
    next hclose =>
      rw [Bool.not_eq_true] at hclose
      split
      next hwanted =>
        refine .event (k := 0) rfl ?_ rfl
        rw [wanted, hclose, Bool.not_false, Bool.true_and]
        exact hwanted
      next hskipped =>
        have hnot : ¬w.wanted event = true := by
          rw [wanted, hclose, Bool.not_false, Bool.true_and]
          exact hskipped
        have hscan := ih (next + 1)
        generalize w.scan events (next + 1) = progress at hscan
        cases hscan with
        | parked h =>
          rw [Nat.add_assoc, Nat.add_comm 1]
          have hall : (event :: events).filter w.wanted = [] := by rw [filter_cons_of_neg hnot, h]
          exact .parked hall
        | @event k e hk hwanted h =>
          rw [Nat.add_assoc, Nat.add_comm 1]
          refine .event (k := k + 1) hk hwanted ?_
          rw [take_succ_cons, filter_cons_of_neg hnot, h]
        | @finished k e hk hclose' h =>
          rw [Nat.add_assoc, Nat.add_comm 1]
          refine .finished (k := k + 1) hk hclose' ?_
          rw [take_succ_cons, filter_cons_of_neg hnot, h]

end Window

def Reader.reached (r : Reader) : Nat := r.stream.nextSequenceNumber.getD (r.epochs.getLast?.elim 0 Epoch.stop)

structure Tracks (log : List Event) (first : Nat) (r : Reader) : Prop where
  delivered : Delivered log r
  position : ∀ next, r.stream.nextSequenceNumber = some next → 1 ≤ r.start ∧ r.start ≤ next ∧ next ≤ log.length + 1
  epochs : ∀ e ∈ r.epochs, 1 ≤ e.start ∧ e.stop ≤ log.length + 1
  gap : r.stream.nextSequenceNumber = none → ∀ e ∈ r.epochs.getLast?, e.stop ≤ first
  tail : .finished ∈ r.outcomes → ∀ i e, r.reached ≤ i + 1 → log[i]? = some e → r.stream.window.closed e.time = true

namespace Tracks

variable {log : List Event} {first next : Nat} {r : Reader}

variable {outcomes : List Outcome}

theorem pairwise_snoc {outcome : Outcome} (h : outcomes.Pairwise fun o o' => o = .finished → ∀ e, o' ≠ .event e)
    (hlast : .finished ∈ outcomes → ∀ e, outcome ≠ .event e) :
    (outcomes ++ [outcome]).Pairwise fun o o' => o = .finished → ∀ e, o' ≠ .event e := by
  rw [pairwise_append]
  refine ⟨h, pairwise_singleton _ _, ?_⟩
  rintro o ho o' ho' rfl
  rw [mem_singleton.mp ho']
  exact hlast ho

theorem mem_snoc {outcome : Outcome} (h : .finished ∈ outcomes ++ [outcome]) :
    .finished ∈ outcomes ∨ outcome = .finished := by
  rcases mem_append.mp h with h | h
  · exact .inl h
  · exact .inr (mem_singleton.mp h).symm

section

variable (h : Tracks log first r)
include h

theorem moved (hnext : r.stream.nextSequenceNumber = some next) {k : Nat}
    (hk : next + k ≤ log.length + 1) {waiting : Bool} {received new : List Event}
    (hrecv : received = r.received ++ new)
    (hnew : ((log.drop (next - 1)).take k).filter r.stream.window.wanted = new)
    (houtcomes : outcomes.filter Outcome.delivers = r.outcomes.filter Outcome.delivers ++ new.map Outcome.event)
    (hended : outcomes.Pairwise fun o o' => o = .finished → ∀ e, o' ≠ .event e)
    (htail : .finished ∈ outcomes → ∀ i e, next + k ≤ i + 1 → log[i]? = some e → r.stream.window.closed e.time = true) :
    Tracks log first { r with
        stream := { r.stream with nextSequenceNumber := some (next + k), waiting := waiting }
        outcomes := outcomes
        received := received } := by
  obtain ⟨hone, hstart, -⟩ := h.position next hnext
  have hseg : received = (segment log r.start (next + k)).filter r.stream.window.wanted := by
    rw [hrecv, segment_add hone hstart, filter_append, ← h.delivered.received next hnext, hnew]
  refine ⟨⟨?_, h.delivered.epochs, ?_, ?_, h.delivered.order, ?_, hended⟩, ?_, h.epochs, ?_, htail⟩
  · rw [houtcomes, h.delivered.outcomes, hrecv, map_append, append_assoc]
  · intro next' hnext'
    cases hnext'
    exact hseg
  · intro hnone
    cases hnone
  · intro next' hnext'
    exact h.delivered.last next hnext
  · intro next' hnext'
    cases hnext'
    exact ⟨hone, Nat.le_trans hstart (Nat.le_add_right _ _), hk⟩
  · intro hnone
    cases hnone

theorem tail_of_next (hnext : r.stream.nextSequenceNumber = some next)
    (hfin : .finished ∈ r.outcomes) {i : Nat} {e : Event} (hi : next ≤ i + 1) (he : log[i]? = some e) :
    r.stream.window.closed e.time = true := by
  apply h.tail hfin i e _ he
  rw [Reader.reached, hnext]
  exact hi

theorem scanned (hsorted : log.Pairwise fun e e' => e.time ≤ e'.time)
    (hnext : r.stream.nextSequenceNumber = some next) {progress : Window.Progress}
    (hscan : Window.Scanned r.stream.window (log.drop (next - 1)) next progress) :
    Tracks log first (r.advance progress) := by
  obtain ⟨hone, hstart, hlen⟩ := h.position next hnext
  cases hscan with
  | parked hskipped =>
    refine h.moved hnext ?_ (append_nil _).symm ?_ (append_nil _).symm h.delivered.ended ?_
    · rw [List.length_drop]
      omega
    · rw [take_length]
      exact hskipped
    · intro hfin i e hi he
      exact h.tail_of_next hnext hfin (by omega) he
  | @finished k e hk hclose hskipped =>
    have hget : log[next - 1 + k]? = some e := by rw [← getElem?_drop]; exact hk
    have hlt := (List.getElem?_eq_some_iff.mp hget).1
    have hunwanted : r.stream.window.wanted e = false := by rw [Window.wanted, hclose]; rfl
    refine h.moved hnext (k := k + 1) (by omega) (append_nil _).symm ?_ ?_ (pairwise_snoc h.delivered.ended ?_) ?_
    · rw [take_add_one, hk, filter_append, hskipped]
      simp [hunwanted]
    · rw [filter_append]
      rfl
    · intro _ e' hevent
      cases hevent
    · -- The times of the log do not go back, so that everything from here on is out of the window.
      intro _ i e' hi he'
      apply Window.closed_mono hclose
      have hlt' := (List.getElem?_eq_some_iff.mp he').1
      rcases Nat.lt_or_ge (next - 1 + k) i with hlt'' | hge
      · have hle := pairwise_iff_getElem.mp hsorted _ _ hlt hlt' hlt''
        rw [(List.getElem?_eq_some_iff.mp hget).2, (List.getElem?_eq_some_iff.mp he').2] at hle
        exact hle
      · have heq : i = next - 1 + k := by omega
        rw [heq, hget] at he'
        cases he'
        exact Int.le_refl _
  | @event k e hk hwanted hskipped =>
    have hget : log[next - 1 + k]? = some e := by rw [← getElem?_drop]; exact hk
    have hlt := (List.getElem?_eq_some_iff.mp hget).1
    have hunfinished : .finished ∉ r.outcomes := by
      intro hfin
      have hclose := h.tail_of_next hnext hfin (by omega) hget
      rw [Window.wanted, hclose] at hwanted
      cases hwanted
    refine h.moved hnext (k := k + 1) (by omega) rfl ?_ ?_ (pairwise_snoc h.delivered.ended ?_) ?_
    · rw [take_add_one, hk, filter_append, hskipped]
      simp [hwanted]
    · rw [filter_append]
      rfl
    · intro hfin
      exact absurd hfin hunfinished
    · intro hfin
      rcases mem_snoc hfin with hfin | hevent
      · exact absurd hfin hunfinished
      · cases hevent

section

variable (hnext : r.stream.nextSequenceNumber = some next)
include hnext

theorem stayed {waiting : Bool}
    (houtcomes : outcomes.filter Outcome.delivers = r.outcomes.filter Outcome.delivers)
    (hended : outcomes.Pairwise fun o o' => o = .finished → ∀ e, o' ≠ .event e)
    (htail : .finished ∈ outcomes → .finished ∈ r.outcomes ∨ log.length < next) :
    Tracks log first
      { r with stream := { r.stream with nextSequenceNumber := some next, waiting := waiting }, outcomes := outcomes } := by
  obtain ⟨hone, hstart, hlen⟩ := h.position next hnext
  refine h.moved hnext (k := 0) hlen (append_nil _).symm rfl ?_ hended ?_
  · rw [houtcomes]
    exact (append_nil _).symm
  · intro hfin i e hi he
    rcases htail hfin with hfin | hlt
    · exact h.tail_of_next hnext hfin (by omega) he
    · have := (List.getElem?_eq_some_iff.mp he).1
      omega

theorem aborted :
    Tracks log first (r.advance (.done .aborted (some next))) := by
  refine h.stayed hnext ?_ (pairwise_snoc h.delivered.ended ?_) ?_
  · rw [filter_append]
    exact append_nil _
  · intro _ e hevent
    cases hevent
  · intro hfin
    rcases mem_snoc hfin with hfin | hevent
    · exact .inl hfin
    · cases hevent

theorem expired (hlt : log.length < next) :
    Tracks log first (r.advance (.done .finished (some next))) := by
  refine h.stayed hnext ?_ (pairwise_snoc h.delivered.ended ?_) (fun _ => .inr hlt)
  · rw [filter_append]
    exact append_nil _
  · intro _ e hevent
    cases hevent

theorem parked :
    Tracks log first (r.advance (.parked next)) :=
  h.stayed hnext rfl h.delivered.ended .inl

theorem lost (hlt : next < first) :
    Tracks log first (r.advance (.done .lost none)) := by
  obtain ⟨hone, hstart, hlen⟩ := h.position next hnext
  have hlast : (r.epochs ++ [(⟨r.start, next, r.received⟩ : Epoch)]).getLast? = some ⟨r.start, next, r.received⟩ :=
    getLast?_concat
  simp only [Reader.advance, hnext, getD_some]
  refine ⟨⟨?_, ?_, ?_, fun _ => rfl, ?_, ?_, pairwise_snoc h.delivered.ended ?_⟩, ?_, ?_, ?_, ?_⟩
  · rw [filter_append, h.delivered.outcomes, flatMap_append]
    simp [Outcome.delivers]
  · intro e he
    rcases mem_append.mp he with he | he
    · exact h.delivered.epochs e he
    · rw [mem_singleton.mp he]
      exact h.delivered.received next hnext
  · intro next' hnext'
    cases hnext'
  · rw [isChain_append]
    refine ⟨h.delivered.order, isChain_singleton _, ?_⟩
    intro e he e' he'
    rw [← mem_some_iff.mp he']
    exact h.delivered.last next hnext e he
  · intro next' hnext'
    cases hnext'
  · intro _ e hevent
    cases hevent
  · intro next' hnext'
    cases hnext'
  · intro e he
    rcases mem_append.mp he with he | he
    · exact h.epochs e he
    · rw [mem_singleton.mp he]
      exact ⟨hone, hlen⟩
  · intro _ e he
    rw [hlast] at he
    rw [← mem_some_iff.mp he]
    exact Nat.le_of_lt hlt
  · intro hfin i e hi he
    rcases mem_snoc hfin with hfin | hevent
    · refine h.tail_of_next hnext hfin ?_ he
      rw [Reader.reached, hlast] at hi
      exact hi
    · cases hevent

end

end

theorem begin {store : EventStore} (h : Tracks log store.firstSequenceNumber r)
    (hone : 1 ≤ store.firstSequenceNumber) (hlen : store.firstSequenceNumber ≤ log.length + 1) :
    Tracks log store.firstSequenceNumber (r.begin store) := by
  unfold Reader.begin
  cases hnext : r.stream.nextSequenceNumber with
  | some next => exact h
  | none =>
    have hnil := h.delivered.unread hnext
    refine ⟨⟨h.delivered.outcomes, h.delivered.epochs, ?_, ?_, h.delivered.order, ?_, h.delivered.ended⟩, ?_, h.epochs, ?_, ?_⟩
    · intro next hnext'
      cases hnext'
      simp only [segment_self, hnil, filter_nil]
    · intro hnone
      cases hnone
    · intro _ _
      exact h.gap hnext
    · intro next hnext'
      cases hnext'
      exact ⟨hone, Nat.le_refl _, hlen⟩
    · intro hnone
      cases hnone
    · intro hfin i e hi he
      refine h.tail hfin i e ?_ he
      have hi : store.firstSequenceNumber ≤ i + 1 := hi
      rw [Reader.reached, hnext]
      cases hlast : r.epochs.getLast? with
      | none => exact Nat.zero_le _
      | some epoch => exact Nat.le_trans (h.gap hnext epoch hlast) hi

theorem append (h : Tracks log first r) {first' : Nat} (hfirst : first ≤ first') {event : Event}
    (htimely : .finished ∈ r.outcomes → r.stream.window.closed event.time = true) :
    Tracks (log ++ [event]) first' r := by
  have hlen : (log ++ [event]).length = log.length + 1 := length_append
  refine ⟨⟨h.delivered.outcomes, ?_, ?_, h.delivered.unread, h.delivered.order, h.delivered.last, h.delivered.ended⟩,
    ?_, ?_, ?_, ?_⟩
  · intro e he
    obtain ⟨hone, hstop⟩ := h.epochs e he
    rw [segment_append hstop hone]
    exact h.delivered.epochs e he
  · intro next hnext
    obtain ⟨hone, -, hle⟩ := h.position next hnext
    rw [segment_append hle hone]
    exact h.delivered.received next hnext
  · intro next hnext
    have := h.position next hnext
    omega
  · intro e he
    have := h.epochs e he
    omega
  · intro hnone e he
    exact Nat.le_trans (h.gap hnone e he) hfirst
  · intro hfin i e hi he
    rcases Nat.lt_or_ge i log.length with hlt | hge
    · rw [getElem?_append_left hlt] at he
      exact h.tail hfin i e hi he
    · rw [getElem?_append_right hge] at he
      have heq : i - log.length = 0 := by
        have := (List.getElem?_eq_some_iff.mp he).1
        simp only [length_singleton] at this
        omega
      rw [heq] at he
      cases he
      exact htimely hfin

end Tracks

structure Stored (s : State) : Prop where
  one : 1 ≤ s.store.firstSequenceNumber
  length : s.store.firstSequenceNumber ≤ s.log.length + 1
  events : s.store.events = s.log.drop (s.store.firstSequenceNumber - 1)
  sorted : s.log.Pairwise fun e e' => e.time ≤ e'.time
  readers : ∀ r ∈ s.readers, Tracks s.log s.store.firstSequenceNumber r

namespace Stored

variable {s : State} {r : Reader}

variable {next : Nat}

theorem drop_events (hs : Stored s) (h : s.store.firstSequenceNumber ≤ next) :
    s.store.events.drop (next - s.store.firstSequenceNumber) = s.log.drop (next - 1) := by
  have hone := hs.one
  rw [hs.events, drop_drop]
  congr 1
  omega

theorem sorted_append {log : List Event} (h : log.Pairwise fun e e' => e.time ≤ e'.time) {event : Event}
    (hlast : ∀ e ∈ log.getLast?, e.time ≤ event.time) :
    (log ++ [event]).Pairwise fun e e' => e.time ≤ e'.time := by
  rw [pairwise_append]
  refine ⟨h, pairwise_singleton _ _, ?_⟩
  intro e he e' he'
  rw [mem_singleton.mp he']
  induction log using List.reverseRecOn with
  | nil => cases he
  | append_singleton log last _ =>
    have hle : last.time ≤ event.time := hlast last (by rw [getLast?_concat]; rfl)
    rcases mem_append.mp he with he | he
    · have := (pairwise_append.mp h).2.2 e he last (mem_singleton.mpr rfl)
      omega
    · rw [mem_singleton.mp he]
      exact hle

section

variable (hs : Stored s)
include hs

theorem append {event : Event} (hop : Timely (.append event) s) :
    Stored (step (.append event) s) := by
  have hone := hs.one
  have hlen := hs.length
  have hlog : (s.log ++ [event]).length = s.log.length + 1 := length_append
  have hdrop : s.store.events ++ [event] = (s.log ++ [event]).drop (s.store.firstSequenceNumber - 1) := by
    rw [drop_append_of_le_length (by omega), hs.events]
  simp only [step, EventStore.append]
  split
  next hfull =>
    rw [hdrop, List.length_drop] at hfull
    refine ⟨Nat.le_add_left 1 _, ?_, ?_, sorted_append hs.sorted hop.1, ?_⟩
    · simp only [hlog]
      omega
    · simp only [hdrop, tail_drop]
      congr 1
      omega
    · intro r hr
      exact (hs.readers r hr).append (Nat.le_succ _) (hop.2 r hr)
  next =>
    refine ⟨hone, ?_, hdrop, sorted_append hs.sorted hop.1, ?_⟩
    · simp only [hlog]
      omega
    · intro r hr
      exact (hs.readers r hr).append (Nat.le_refl _) (hop.2 r hr)

theorem modify {i : Nat} {f : Reader → Reader}
    (hf : ∀ r ∈ s.readers, Tracks s.log s.store.firstSequenceNumber (f r)) : Stored (s.modifyReader i f) := by
  unfold State.modifyReader
  cases hr : s.readers[i]? with
  | none => exact hs
  | some r =>
    refine ⟨hs.one, hs.length, hs.events, hs.sorted, ?_⟩
    intro r' hr'
    rcases mem_or_eq_of_mem_set hr' with hr' | rfl
    · exact hs.readers r' hr'
    · exact hf r (mem_of_getElem? hr)

theorem read (hr : Tracks s.log s.store.firstSequenceNumber r)
    (hnext : r.stream.nextSequenceNumber = some next) (hle : s.store.firstSequenceNumber ≤ next) :
    Tracks s.log s.store.firstSequenceNumber (r.advance (r.stream.window.read s.store next)) := by
  rw [Window.read, hs.drop_events hle]
  exact hr.scanned hs.sorted hnext (Window.scan_scanned _ _ _)

theorem get (hr : r ∈ s.readers) :
    Tracks s.log s.store.firstSequenceNumber ((r.begin s.store).advance (r.stream.get s.store)) := by
  have hbegun := (hs.readers r hr).begin hs.one hs.length
  have hwindow : (r.begin s.store).stream.window = r.stream.window := by
    unfold Reader.begin
    split <;> rfl
  have hnext : (r.begin s.store).stream.nextSequenceNumber =
      some (r.stream.nextSequenceNumber.getD s.store.firstSequenceNumber) := by
    unfold Reader.begin
    split
    next next heq => rw [heq]; rfl
    next heq => rw [heq]; rfl
  unfold EventStream.get
  simp only []
  split
  next hlt => exact hbegun.lost hnext hlt
  next hge =>
    split
    · exact hbegun.aborted hnext
    · rw [← hwindow]
      exact hs.read hbegun hnext (Nat.le_of_not_lt hge)

theorem wake (hr : r ∈ s.readers) (hnext : r.stream.nextSequenceNumber = some next)
    (now : Int) : Tracks s.log s.store.firstSequenceNumber (r.advance (r.stream.wake s.store next now)) := by
  have htracks := hs.readers r hr
  have hone := hs.one
  have hlen := hs.length
  unfold EventStream.wake
  split
  · exact htracks.aborted hnext
  · split
    · split
      next hlt => exact htracks.lost hnext hlt
      next hge => exact hs.read htracks hnext (Nat.le_of_not_lt hge)
    next hnone =>
      rw [hs.events, List.length_drop] at hnone
      split
      · exact htracks.expired hnext (by omega)
      · exact htracks.parked hnext

theorem step {op : Op} (hop : Timely op s) : Stored (Events.step op s) := by
  cases op with
  | append event => exact hs.append hop
  | createStream sinceTime untilTime filters =>
    simp only [Events.step]
    split
    next stream hstream =>
      refine ⟨hs.one, hs.length, hs.events, hs.sorted, ?_⟩
      intro r hr
      rcases mem_append.mp hr with hr | hr
      · exact hs.readers r hr
      · have hnone : stream.nextSequenceNumber = none := by
          unfold Events.createStream at hstream
          split at hstream
          · cases hstream
          · cases hstream
            rfl
        rw [mem_singleton.mp hr]
        refine ⟨⟨rfl, ?_, ?_, fun _ => rfl, isChain_nil, ?_, List.Pairwise.nil⟩, ?_, ?_, ?_, ?_⟩
        · exact fun _ h => absurd h not_mem_nil
        · exact fun _ h => absurd (h.symm.trans hnone) (some_ne_none _)
        · exact fun _ h => absurd (h.symm.trans hnone) (some_ne_none _)
        · exact fun _ h => absurd (h.symm.trans hnone) (some_ne_none _)
        · exact fun _ h => absurd h not_mem_nil
        · exact fun _ _ h => absurd h (not_mem_none _)
        · exact fun h => absurd h not_mem_nil
    next => exact hs
  | get i =>
    apply hs.modify
    intro r hr
    split
    · exact hs.readers r hr
    · exact hs.get hr
  | wake i now =>
    apply hs.modify
    intro r hr
    split
    next next _ hnext => exact hs.wake hr hnext now
    next => exact hs.readers r hr
  | terminate => exact ⟨hs.one, hs.length, hs.events, hs.sorted, hs.readers⟩

end

theorem initial : Stored {} :=
  ⟨Nat.le_refl _, Nat.le_refl _, rfl, List.Pairwise.nil, fun _ h => absurd h not_mem_nil⟩

end Stored

/-- In a run in which events come in the order of their times, and no event comes after a reader was
told the end of a window that the event is in, every reader gets what it asked for. -/
theorem events_delivered (ops : List Op) (hops : Allowed step Timely ops {}) :
    ∀ r ∈ (runSteps step ops {}).readers, Delivered (runSteps step ops {}).log r := by
  have hstep : ∀ op s, Stored s → Timely op s → Stored (step op s) := fun _ _ hs hop => hs.step hop
  intro r hr
  exact ((inv_runSteps hstep Stored.initial hops).readers r hr).delivered

def containerStarted (time : Int) : Event := ⟨"container", "start", "c0", [], time⟩

theorem events_delivered_one :
    ((runSteps step [.createStream 0 0 [], .append (containerStarted 5), .get 0] {}).readers.map Reader.outcomes =
        [[.event (containerStarted 5)]]) ∧
      ∀ r ∈ (runSteps step [.createStream 0 0 [], .append (containerStarted 5), .get 0] {}).readers,
        Delivered (runSteps step [.createStream 0 0 [], .append (containerStarted 5), .get 0] {}).log r :=
  ⟨rfl, events_delivered _ (by decide)⟩

/-- A reader waits until its window has closed and is told the end, and an event from before that
arrives late is returned to it. -/
theorem event_after_end :
    ¬∀ ops : List Op, Allowed step Ordered ops {} →
      ∀ r ∈ (runSteps step ops {}).readers, Delivered (runSteps step ops {}).log r := by
  intro h
  have hended := (h [.createStream 0 100 [], .get 0, .wake 0 100, .append (containerStarted 99), .get 0]
    (by decide) _ mem_cons_self).ended
  have hevent : [Outcome.finished, .event (containerStarted 99)].Pairwise fun o o' => o = .finished → ∀ e, o' ≠ .event e := hended
  rw [pairwise_pair] at hevent
  exact hevent rfl _ rfl

end Events

end WslPlus.Wslc

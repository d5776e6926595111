import WslPlus.Network.RelayStream

/-!
# The relay of a localhost port in the guest

The worker thread of `RunLocalHostRelay` reads a message from the host, connects to the port that it
names and then relays in a loop over `poll`. The left side is the socket of the host, the right side
the socket of the port. A worker that cannot connect is left out.
-/

namespace WslPlus.Network

open List

def initialMessageBufferSize : Nat := 0x1000

/-- The size of `LX_INIT_START_SOCKET_RELAY`. -/
def startSocketRelaySize : Nat := 32

namespace Worker

inductive Pc where
  | start
  | head
  /-- The descriptors that `poll` has found readable and that are not served yet. -/
  | serving (todo : List Side)
  | stopped
  deriving DecidableEq

end Worker

structure Worker where
  streams : Streams := ⟨{}, {}⟩
  pc : Worker.Pc := .start
  failed : Bool := false

namespace Worker

inductive Op where
  | arrives (side : Side) (bytes : List UInt8)
  | closes (side : Side)
  | start (count : Nat)
  | poll
  | pollFails
  | serve (count : Nat)
  | readFails
  | writeFails (count written : Nat)
  deriving DecidableEq

def next : List Side → Pc
  | [] => .head
  | side :: todo => .serving (side :: todo)

/-- `UtilReadBuffer` makes a buffer that is too small larger. -/
def readSize (bufferSize : Nat) : Nat := max bufferSize initialMessageBufferSize

def behindMessage (count : Nat) : Nat := min count (initialMessageBufferSize - startSocketRelaySize)

def start (count : Nat) (w : Worker) : Worker :=
  { w with
    streams := { w.streams with
      left := { w.streams.left with waiting := w.streams.left.waiting.drop (behindMessage count) } }
    pc := .head }

def exits (w : Worker) : Bool := w.streams.left.ended || w.streams.right.ended

def todo (w : Worker) : List Side :=
  [.left, .right].filter fun side => !(w.streams.get side).ended && (w.streams.get side).readable

def poll (w : Worker) : Worker :=
  if w.exits then { w with pc := .stopped }
  else if w.todo = [] then w
  else { w with pc := .serving w.todo }

def serve (bufferSize count : Nat) (side : Side) (rest : List Side) (w : Worker) : Worker :=
  if (w.streams.get side).waiting = [] then
    if (w.streams.get side).closed then
      { w with streams := w.streams.set side (w.streams.get side).ends, pc := next rest }
    else w
  else
    { w with
      streams := w.streams.set side
        (((w.streams.get side).takes (readSize bufferSize) count).writes
          ((w.streams.get side).chunk (readSize bufferSize) count))
      pc := next rest }

def writeFails (bufferSize count written : Nat) (side : Side) (w : Worker) : Worker :=
  if (w.streams.get side).waiting = [] then w
  else
    { streams := w.streams.set side
        (((w.streams.get side).takes (readSize bufferSize) count).writes
          (((w.streams.get side).chunk (readSize bufferSize) count).take written))
      pc := .stopped
      failed := true }

def step (bufferSize : Nat) (op : Op) (w : Worker) : Worker :=
  match op, w.pc with
  | .arrives side bytes, _ => { w with streams := w.streams.set side ((w.streams.get side).arrives bytes) }
  | .closes side, _ => { w with streams := w.streams.set side (w.streams.get side).closes }
  | .start count, .start => w.start count
  | .poll, .head => w.poll
  | .pollFails, .head => { w with pc := .stopped }
  | .serve count, .serving (side :: rest) => w.serve bufferSize count side rest
  | .readFails, .serving (_ :: _) => { w with pc := .stopped, failed := true }
  | .writeFails count written, .serving (side :: _) => w.writeFails bufferSize count written side
  | _, _ => w

def held (_ : Side) : List UInt8 := []

def HalfClosing (w : Worker) : Prop := HalfCloses w.streams held (w.pc = .stopped) w.failed

/-- The message is read alone, the two streams end in the same pass, and `poll` does not fail. -/
def Regular : Op → Worker → Prop
  | .start count, w => w.pc = .start → (w.streams.left.waiting.take (behindMessage count)) = []
  | .poll, w => w.pc = .head → w.streams.left.ended = w.streams.right.ended
  | .pollFails, w => w.pc = .head → w.streams.left.ended = true ∧ w.streams.right.ended = true
  | _, _ => True

def own : Op → Prop
  | .arrives _ _ | .closes _ => False
  | _ => True

inductive Does (bufferSize : Nat) (w : Worker) : Op → Worker → Prop where
  | nothing (op : Op) : Does bufferSize w op w
  | arrives (side : Side) (bytes : List UInt8) : Does bufferSize w (.arrives side bytes)
      { w with streams := w.streams.set side ((w.streams.get side).arrives bytes) }
  | closes (side : Side) : Does bufferSize w (.closes side)
      { w with streams := w.streams.set side (w.streams.get side).closes }
  | start (count : Nat) (hpc : w.pc = .start) : Does bufferSize w (.start count) (w.start count)
  | exits (hpc : w.pc = .head) (hexits : w.exits = true) : Does bufferSize w .poll { w with pc := .stopped }
  | polls (hpc : w.pc = .head) (hexits : w.exits = false) (htodo : w.todo ≠ []) :
      Does bufferSize w .poll { w with pc := .serving w.todo }
  | pollFails (hpc : w.pc = .head) : Does bufferSize w .pollFails { w with pc := .stopped }
  | ends (count : Nat) (side : Side) (rest : List Side) (hpc : w.pc = .serving (side :: rest))
      (hwaiting : (w.streams.get side).waiting = []) (hclosed : (w.streams.get side).closed = true) :
      Does bufferSize w (.serve count)
        { w with streams := w.streams.set side (w.streams.get side).ends, pc := next rest }
  | forwards (count : Nat) (side : Side) (rest : List Side) (hpc : w.pc = .serving (side :: rest))
      (hwaiting : (w.streams.get side).waiting ≠ []) :
      Does bufferSize w (.serve count)
        { w with
          streams := w.streams.set side
            (((w.streams.get side).takes (readSize bufferSize) count).writes
              ((w.streams.get side).chunk (readSize bufferSize) count))
          pc := next rest }
  | readFails (side : Side) (rest : List Side) (hpc : w.pc = .serving (side :: rest)) :
      Does bufferSize w .readFails { w with pc := .stopped, failed := true }
  | writeFails (count written : Nat) (side : Side) (rest : List Side) (hpc : w.pc = .serving (side :: rest))
      (hwaiting : (w.streams.get side).waiting ≠ []) :
      Does bufferSize w (.writeFails count written)
        { streams := w.streams.set side
            (((w.streams.get side).takes (readSize bufferSize) count).writes
              (((w.streams.get side).chunk (readSize bufferSize) count).take written))
          pc := .stopped
          failed := true }

variable {w : Worker} {bufferSize : Nat}

theorem does_poll (hpc : w.pc = .head) : Does bufferSize w .poll w.poll := by
  rw [poll]
  split
  · exact .exits hpc ‹_›
  · rename_i hexits
    rw [Bool.not_eq_true] at hexits
    split
    · exact .nothing .poll
    · exact .polls hpc hexits ‹_›

theorem does_serve {side : Side} {rest : List Side} (hpc : w.pc = .serving (side :: rest)) (count : Nat) :
    Does bufferSize w (.serve count) (w.serve bufferSize count side rest) := by
  rw [serve]
  split
  · split
    · exact .ends count side rest hpc ‹_› ‹_›
    · exact .nothing _
  · exact .forwards count side rest hpc ‹_›

theorem does_writeFails {side : Side} {rest : List Side} (hpc : w.pc = .serving (side :: rest))
    (count written : Nat) :
    Does bufferSize w (.writeFails count written) (w.writeFails bufferSize count written side) := by
  rw [writeFails]
  split
  · exact .nothing _
  · exact .writeFails count written side rest hpc ‹_›

theorem does_step (bufferSize : Nat) (op : Op) (w : Worker) : Does bufferSize w op (step bufferSize op w) := by
  rw [step.eq_def]
  split
  · exact .arrives _ _
  · exact .closes _
  · exact .start _ ‹_›
  · exact does_poll ‹_›
  · exact .pollFails ‹_›
  · exact does_serve ‹_› _
  · exact .readFails _ _ ‹_›
  · exact does_writeFails ‹_› _ _
  · exact .nothing _

/-- Only streams that go on and are readable are still to be served. -/
structure Serves (w : Worker) : Prop where
  nonempty : w.pc ≠ .serving []
  nodup : ∀ todo, w.pc = .serving todo → todo.Nodup
  readable : ∀ todo, w.pc = .serving todo → ∀ side ∈ todo,
    (w.streams.get side).ended = false ∧ (w.streams.get side).readable = true
  failed : w.failed = true → w.pc = .stopped

namespace Serves

theorem of_pc {streams : Streams} {pc : Pc} {failed : Bool} (hpc : ∀ todo, pc ≠ .serving todo)
    (hfail : failed = true → pc = .stopped) : Serves { streams := streams, pc := pc, failed := failed } :=
  ⟨hpc [], fun todo heq => absurd heq (hpc todo), fun todo heq => absurd heq (hpc todo), hfail⟩

theorem initial : Serves {} := of_pc (by rintro _ ⟨⟩) (by rintro ⟨⟩)

theorem set (h : Serves w) {side : Side} {s : Stream} (hended : s.ended = (w.streams.get side).ended)
    (hreadable : (w.streams.get side).readable = true → s.readable = true) :
    Serves { w with streams := w.streams.set side s } := by
  refine ⟨h.nonempty, h.nodup, ?_, h.failed⟩
  intro todo hpc side' hmem
  obtain ⟨hended', hreadable'⟩ := h.readable todo hpc side' hmem
  by_cases heq : side' = side
  · subst heq
    rw [Sides.get_set, hended]
    exact ⟨hended', hreadable hreadable'⟩
  · rw [Sides.get_set_ne heq]
    exact ⟨hended', hreadable'⟩

theorem next (h : Serves w) {side : Side} {rest : List Side} (hpc : w.pc = .serving (side :: rest))
    (s : Stream) :
    Serves { w with streams := w.streams.set side s, pc := Worker.next rest } := by
  have hfail : w.failed = false := by
    rw [← Bool.not_eq_true]
    intro hfail
    rw [h.failed hfail] at hpc
    cases hpc
  have hnodup := h.nodup _ hpc
  cases rest with
  | nil =>
    apply of_pc
    · rintro _ ⟨⟩
    · rw [hfail]
      rintro ⟨⟩
  | cons side' rest =>
    refine ⟨by rintro ⟨⟩, ?_, ?_, ?_⟩
    · rintro todo ⟨rfl⟩
      exact (nodup_cons.mp hnodup).2
    · rintro todo ⟨rfl⟩ side'' hmem
      have hne : side'' ≠ side := by
        rintro rfl
        exact (nodup_cons.mp hnodup).1 hmem
      rw [Sides.get_set_ne hne]
      exact h.readable _ hpc side'' (mem_cons_of_mem _ hmem)
    · rw [hfail]
      rintro ⟨⟩

theorem polls (h : Serves w) (hpc : w.pc = .head) (htodo : w.todo ≠ []) :
    Serves { w with pc := .serving w.todo } := by
  refine ⟨fun heq => htodo (Pc.serving.inj heq), ?_, ?_, ?_⟩
  · rintro todo ⟨rfl⟩
    exact List.Nodup.filter _ (by decide)
  · rintro todo ⟨rfl⟩ side hmem
    have hside := (mem_filter.mp hmem).2
    rw [Bool.and_eq_true, Bool.not_eq_true'] at hside
    exact hside
  · intro hfail
    rw [h.failed hfail] at hpc
    cases hpc

theorem step (h : Serves w) (op : Op) : Serves (Worker.step bufferSize op w) := by
  have hdoes := does_step bufferSize op w
  generalize Worker.step bufferSize op w = w' at hdoes ⊢
  cases hdoes with
  | nothing => exact h
  | arrives side bytes =>
    apply h.set
    · exact Stream.ended_arrives bytes _
    · exact Stream.readable_arrives bytes
  | closes side =>
    apply h.set
    · rfl
    · intro _
      exact Bool.or_true _
  | start count hpc =>
    apply of_pc
    · rintro _ ⟨⟩
    · intro hfail
      rw [h.failed hfail] at hpc
      cases hpc
  | exits => exact of_pc (by rintro _ ⟨⟩) fun _ => rfl
  | polls hpc _ htodo => exact h.polls hpc htodo
  | pollFails => exact of_pc (by rintro _ ⟨⟩) fun _ => rfl
  | ends count side rest hpc => exact h.next hpc _
  | forwards count side rest hpc => exact h.next hpc _
  | readFails => exact of_pc (by rintro _ ⟨⟩) fun _ => rfl
  | writeFails => exact of_pc (by rintro _ ⟨⟩) fun _ => rfl

end Serves

theorem readSize_pos (bufferSize : Nat) : 0 < readSize bufferSize :=
  Nat.lt_of_lt_of_le (by decide) (Nat.le_max_right bufferSize initialMessageBufferSize)

structure Sound (w : Worker) : Prop where
  serves : Serves w
  inOrder : ∀ side, (w.streams.get side).written <+: (w.streams.get side).arrived
  intact : w.failed = false → ∀ side, (w.streams.get side).Intact []
  stops : w.pc = .stopped → w.failed = false → ∀ side, (w.streams.get side).ended = true

namespace Sound

theorem halfClosing (h : Sound w) : w.HalfClosing :=
  .of_intact h.inOrder h.intact fun hstop => h.stops (of_decide_eq_true hstop)

theorem initial : Sound {} := by
  refine ⟨.initial, ?_, ?_, ?_⟩
  · intro side
    cases side <;> exact nil_prefix
  · intro _ side
    cases side <;> exact .initial
  · rintro ⟨⟩

variable {side : Side} {s : Stream}

theorem intact_set (h : Sound w) (hfail : w.failed = false) (hs : s.Intact []) :
    (∀ side', ((w.streams.set side s).get side').written <+: ((w.streams.set side s).get side').arrived) ∧
      ∀ side', ((w.streams.set side s).get side').Intact [] := by
  constructor
  · exact Sides.forall_set (P := fun _ (s : Stream) => s.written <+: s.arrived) h.inOrder hs.written_isPrefix
  · exact Sides.forall_set (P := fun _ (s : Stream) => s.Intact []) (h.intact hfail) hs

theorem live (h : Sound w) {pc : Pc} (hpc : w.pc = pc) (hne : pc ≠ .stopped) : w.failed = false := by
  rw [← Bool.not_eq_true]
  intro hfail
  exact hne (hpc.symm.trans (h.serves.failed hfail))

theorem outside (h : Sound w) (hserves : Serves { w with streams := w.streams.set side s })
    (hwritten : s.written <+: s.arrived) (hintact : (w.streams.get side).Intact [] → s.Intact [])
    (hended : s.ended = (w.streams.get side).ended) : Sound { w with streams := w.streams.set side s } := by
  refine ⟨hserves, ?_, ?_, ?_⟩
  · exact Sides.forall_set (P := fun _ (s : Stream) => s.written <+: s.arrived) h.inOrder hwritten
  · intro hfail
    exact (h.intact_set hfail (hintact (h.intact hfail side))).2
  · intro hpc hfail
    have hall := h.stops hpc hfail
    exact Sides.forall_set (P := fun _ (s : Stream) => s.ended = true) hall (hended.trans (hall side))

theorem next (h : Sound w) {rest : List Side} (hpc : w.pc = .serving (side :: rest))
    (hs : s.Intact []) : Sound { w with streams := w.streams.set side s, pc := Worker.next rest } := by
  have hfail : w.failed = false := h.live hpc (by rintro ⟨⟩)
  refine ⟨h.serves.next hpc s, (h.intact_set hfail hs).1, fun _ => (h.intact_set hfail hs).2, ?_⟩
  cases rest with
  | nil => rintro ⟨⟩
  | cons => rintro ⟨⟩

theorem start_eq (count : Nat) (hbehind : w.streams.left.waiting.take (behindMessage count) = []) :
    w.start count = { w with pc := .head } := by
  have hdrop : w.streams.left.waiting.drop (behindMessage count) = w.streams.left.waiting := by
    have happ := take_append_drop (behindMessage count) w.streams.left.waiting
    rw [hbehind] at happ
    exact happ
  rw [Worker.start, hdrop]

theorem step (op : Op) (w : Worker) (h : Sound w) (hreg : Regular op w) :
    Sound (Worker.step bufferSize op w) := by
  have hserves : Serves (Worker.step bufferSize op w) := h.serves.step op
  have hdoes := does_step bufferSize op w
  generalize Worker.step bufferSize op w = w' at hdoes hserves ⊢
  cases hdoes with
  | nothing => exact h
  | arrives side bytes =>
    exact h.outside hserves (Stream.isPrefix_arrives bytes (h.inOrder side)) (fun hs => hs.arrives bytes)
      (Stream.ended_arrives bytes _)
  | closes side => exact h.outside hserves (h.inOrder side) (fun hs => hs.closes) rfl
  | start count hpc =>
    rw [start_eq count (hreg hpc)] at hserves ⊢
    exact ⟨hserves, h.inOrder, h.intact, by rintro ⟨⟩⟩
  | exits hpc hexits =>
    exact ⟨hserves, h.inOrder, h.intact, fun _ _ => ended_of_exit hexits (hreg hpc)⟩
  | polls hpc => exact ⟨hserves, h.inOrder, h.intact, by rintro ⟨⟩⟩
  | pollFails hpc =>
    refine ⟨hserves, h.inOrder, h.intact, ?_⟩
    intro _ _ side
    cases side with
    | left => exact (hreg hpc).1
    | right => exact (hreg hpc).2
  | ends count side rest hpc hwait hclose =>
    have hfail : w.failed = false := h.live hpc (by rintro ⟨⟩)
    exact h.next hpc ((h.intact hfail side).ends hclose hwait)
  | forwards count side rest hpc =>
    have hfail : w.failed = false := h.live hpc (by rintro ⟨⟩)
    have hended := (h.serves.readable _ hpc side mem_cons_self).1
    exact h.next hpc (((h.intact hfail side).takes hended _ count).writes hended)
  | readFails => exact ⟨hserves, h.inOrder, by rintro ⟨⟩, by rintro _ ⟨⟩⟩
  | writeFails count written side rest hpc =>
    have hfail : w.failed = false := h.live hpc (by rintro ⟨⟩)
    have hended := (h.serves.readable _ hpc side mem_cons_self).1
    refine ⟨hserves, ?_, by rintro ⟨⟩, by rintro _ ⟨⟩⟩
    exact Sides.forall_set (P := fun _ (s : Stream) => s.written <+: s.arrived) h.inOrder
      (((h.intact hfail side).takes hended _ count).cut_isPrefix written)

theorem regular (op : Op) (w : Worker) (h : Sound w) (hhalf : (Worker.step bufferSize op w).HalfClosing) :
    Regular op w := by
  cases op with
  | start count =>
    intro hpc
    have hfail : w.failed = false := h.live hpc (by rintro ⟨⟩)
    rw [show Worker.step bufferSize (.start count) w = w.start count by rw [Worker.step.eq_def, hpc]] at hhalf
    have hafter := hhalf.complete hfail .left
    have hbefore := (h.intact hfail .left).order
    have hdrop := congrArg List.length (append_cancel_left (hafter.trans hbefore.symm))
    rw [← length_eq_zero_iff, length_take]
    simp only [Worker.start, Sides.get, List.length_drop] at hdrop
    omega
  | poll =>
    intro hpc
    have hfail : w.failed = false := h.live hpc (by rintro ⟨⟩)
    cases hexits : w.exits with
    | false =>
      rw [exits, Bool.or_eq_false_iff] at hexits
      rw [hexits.1, hexits.2]
    | true =>
      rw [show Worker.step bufferSize .poll w = { w with pc := .stopped } by
        rw [Worker.step.eq_def, hpc]; simp [Worker.poll, hexits]] at hhalf
      have hall := hhalf.stops rfl hfail
      exact (hall .left).trans (hall .right).symm
  | pollFails =>
    intro hpc
    have hfail : w.failed = false := h.live hpc (by rintro ⟨⟩)
    rw [show Worker.step bufferSize .pollFails w = { w with pc := .stopped } by
      rw [Worker.step.eq_def, hpc]] at hhalf
    have hall := hhalf.stops rfl hfail
    exact ⟨hall .left, hall .right⟩
  | arrives => trivial
  | closes => trivial
  | serve => trivial
  | readFails => trivial
  | writeFails => trivial

end Sound

theorem along_iff_regular (bufferSize : Nat) (ops : List Op) :
    Along (step bufferSize) (fun _ _ w => w.HalfClosing) ops {} ↔ Allowed (step bufferSize) Regular ops {} := by
  apply along_iff_allowed Sound.step _ Sound.initial
  intro op w h
  exact ⟨h.regular op w, fun hreg => (h.step op w hreg).halfClosing⟩

def Pc.load : Pc → Nat
  | .start => 3
  | .head => 2
  | .serving _ => 1
  | .stopped => 0

def load (w : Worker) : Nat := 3 * w.streams.total Stream.load + w.pc.load

theorem load_next_le (todo : List Side) : (next todo).load ≤ 2 := by
  cases todo with
  | nil => exact Nat.le_refl 2
  | cons => exact Nat.le_succ 1

theorem load_start_le (count : Nat) :
    (w.start count).streams.total Stream.load ≤ w.streams.total Stream.load := by
  apply Nat.add_le_add_right
  apply Nat.add_le_add_right
  show (w.streams.left.waiting.drop (behindMessage count)).length ≤ w.streams.left.waiting.length
  rw [List.length_drop]
  exact Nat.sub_le _ _

theorem load_lt (h : Serves w) {op : Op} (hown : own op) (hne : step bufferSize op w ≠ w) :
    (step bufferSize op w).load < w.load := by
  have hdoes := does_step bufferSize op w
  generalize step bufferSize op w = w' at hdoes hne ⊢
  unfold load
  cases hdoes with
  | nothing => exact absurd rfl hne
  | arrives => exact absurd hown id
  | closes => exact absurd hown id
  | start count hpc =>
    have hload := load_start_le (w := w) count
    rw [hpc, show (w.start count).pc.load = 2 from rfl, Pc.load]
    omega
  | exits hpc =>
    rw [hpc, Pc.load, Pc.load]
    dsimp only
    omega
  | polls hpc =>
    rw [hpc, Pc.load, Pc.load]
    dsimp only
    omega
  | pollFails hpc =>
    rw [hpc, Pc.load, Pc.load]
    dsimp only
    omega
  | ends count side rest hpc =>
    have hended := (h.readable _ hpc side mem_cons_self).1
    have hset := Sides.total_set Stream.load w.streams side (w.streams.get side).ends
    have hnext := load_next_le rest
    have hload := Stream.load_ends hended
    rw [hpc, show (Pc.serving (side :: rest)).load = 1 from rfl]
    dsimp only
    omega
  | forwards count side rest hpc hwait =>
    have hset := Sides.total_set Stream.load w.streams side
      (((w.streams.get side).takes (readSize bufferSize) count).writes
        ((w.streams.get side).chunk (readSize bufferSize) count))
    have hnext := load_next_le rest
    have hload := Stream.load_takes_lt (readSize_pos bufferSize) count hwait
    rw [Stream.load_writes] at hset
    rw [hpc, show (Pc.serving (side :: rest)).load = 1 from rfl]
    dsimp only
    omega
  | readFails side rest hpc =>
    rw [hpc, Pc.load, Pc.load]
    dsimp only
    omega
  | writeFails count written side rest hpc hwait =>
    have hset := Sides.total_set Stream.load w.streams side
      (((w.streams.get side).takes (readSize bufferSize) count).writes
        (((w.streams.get side).chunk (readSize bufferSize) count).take written))
    have hload := Stream.load_takes_lt (readSize_pos bufferSize) count hwait
    rw [Stream.load_writes] at hset
    rw [hpc, Pc.load, Pc.load]
    dsimp only
    omega

def IsDrained (w : Worker) : Prop := Drained w.streams held (w.pc = .stopped)

theorem drained_of_todo (hexits : w.exits = false) (htodo : w.todo = []) : w.IsDrained := by
  right
  intro side
  right
  rw [exits, Bool.or_eq_false_iff] at hexits
  have hended : (w.streams.get side).ended = false := by
    cases side with
    | left => exact hexits.1
    | right => exact hexits.2
  have hside := filter_eq_nil_iff.mp htodo side (by cases side <;> decide)
  rw [hended, Stream.readable] at hside
  cases hclose : (w.streams.get side).closed with
  | true => simp [hclose] at hside
  | false => simpa [hclose, held] using hside

theorem next_ne (side : Side) (rest : List Side) : next rest ≠ .serving (side :: rest) := by
  cases rest with
  | nil => rintro ⟨⟩
  | cons side' rest =>
    intro heq
    have := congrArg List.length (Pc.serving.inj heq)
    simp at this

theorem drained_or_moves (bufferSize : Nat) (h : Serves w) :
    w.IsDrained ∨ ∃ op, own op ∧ step bufferSize op w ≠ w := by
  -- A step that goes on to another place moves the worker.
  have hmoves (op : Op) (hown : own op) (hpc : (step bufferSize op w).pc ≠ w.pc) :
      w.IsDrained ∨ ∃ op, own op ∧ step bufferSize op w ≠ w :=
    .inr ⟨op, hown, fun heq => hpc (congrArg Worker.pc heq)⟩
  cases hpc : w.pc with
  | start =>
    apply hmoves (.start 0) trivial
    rw [step.eq_def, hpc]
    rintro ⟨⟩
  | head =>
    cases hexits : w.exits with
    | true =>
      apply hmoves .poll trivial
      rw [step.eq_def, hpc]
      simp [poll, hexits]
    | false =>
      by_cases htodo : w.todo = []
      · exact .inl (drained_of_todo hexits htodo)
      · apply hmoves .poll trivial
        rw [step.eq_def, hpc]
        simp [poll, hexits, htodo]
  | serving todo =>
    cases todo with
    | nil => exact absurd hpc h.nonempty
    | cons side rest =>
      have hreadable := (h.readable _ hpc side mem_cons_self).2
      apply hmoves (.serve 0) trivial
      rw [step.eq_def, hpc]
      have hpc' : (w.serve bufferSize 0 side rest).pc = next rest := by
        rw [serve]
        split
        · rename_i hwait
          rw [Stream.readable, hwait] at hreadable
          rw [if_pos (show (w.streams.get side).closed = true from hreadable)]
        · rfl
      dsimp only
      rw [hpc']
      exact next_ne side rest
  | stopped => exact .inl (.inl (decide_eq_true hpc))

theorem settles (bufferSize : Nat) (ops : List Op) :
    Settles (step bufferSize) own IsDrained (runSteps (step bufferSize) ops {}) := by
  have hserves : Serves (runSteps (step bufferSize) ops {}) :=
    inv_runSteps_of_step (fun op w h => h.step op) Serves.initial
  apply settles_of_measure Serves load
  · exact fun op w h _ => h.step op
  · exact fun op w h hown hne => load_lt h hown hne
  · exact fun w h => drained_or_moves bufferSize h
  · exact hserves

end Worker

end WslPlus.Network

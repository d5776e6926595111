import WslPlus.Network.LocalhostRelay

/-!
# The relay of two sockets on the host

`SocketRelay` runs `BidirectionalRelay` on two sockets. Both sides have an overlapped read at a time;
the loop waits for the events of the two reads, the left one first, and writes what was read to the
other side. Reads complete at any time, also while the loop is busy with the other side.
-/

namespace WslPlus.Network

open Bool

namespace SocketRelay

inductive Pc where
  | head
  | waiting
  | stopped
  deriving DecidableEq

/-- The overlapped read of a side; one that has failed has no result. -/
inductive Read where
  | idle
  | pending
  | completed (result : Option (List UInt8))
  deriving DecidableEq

end SocketRelay

structure SocketRelay where
  streams : Streams := ⟨{}, {}⟩
  reads : Sides SocketRelay.Read := ⟨.idle, .idle⟩
  pc : SocketRelay.Pc := .head
  failed : Bool := false

namespace SocketRelay

inductive Op where
  | arrives (side : Side) (bytes : List UInt8)
  | closes (side : Side)
  | loop
  | readFileFails
  | completes (side : Side) (count : Nat)
  | completesWithError (side : Side)
  | wait
  | waitFails
  | writeFails (written : Nat)

def Read.issue : Read → Read
  | .idle => .pending
  | read => read

def exits (r : SocketRelay) : Bool := r.streams.left.ended || r.streams.right.ended

def loop (r : SocketRelay) : SocketRelay :=
  if r.exits then { r with pc := .stopped }
  else { r with reads := ⟨r.reads.left.issue, r.reads.right.issue⟩, pc := .waiting }

def readFileFails (r : SocketRelay) : SocketRelay :=
  if r.exits then { r with pc := .stopped } else { r with pc := .stopped, failed := true }

def completes (bufferSize : Nat) (side : Side) (count : Nat) (r : SocketRelay) : SocketRelay :=
  if (r.streams.get side).waiting = [] then
    if (r.streams.get side).closed then { r with reads := r.reads.set side (.completed (some [])) } else r
  else
    { r with
      streams := r.streams.set side ((r.streams.get side).takes bufferSize count)
      reads := r.reads.set side (.completed (some ((r.streams.get side).chunk bufferSize count))) }

/-- The event that `WaitForMultipleObjects` returns. -/
def signalled (r : SocketRelay) : Option (Side × Option (List UInt8)) :=
  match r.reads.left, r.reads.right with
  | .completed result, _ => some (.left, result)
  | _, .completed result => some (.right, result)
  | _, _ => none

def handle (side : Side) (result : Option (List UInt8)) (r : SocketRelay) : SocketRelay :=
  match result with
  | some (byte :: bytes) =>
    if (r.streams.get side.other).ended then { r with reads := r.reads.set side .idle, pc := .head }
    else
      { r with
        streams := r.streams.set side ((r.streams.get side).writes (byte :: bytes))
        reads := r.reads.set side .idle
        pc := .head }
  | some [] =>
    { r with streams := r.streams.set side (r.streams.get side).ends, reads := r.reads.set side .idle, pc := .head }
  | none =>
    { streams := r.streams.set side (r.streams.get side).ends
      reads := r.reads.set side .idle
      pc := .head
      failed := true }

def wait (r : SocketRelay) : SocketRelay :=
  match r.signalled with
  | some (side, result) => r.handle side result
  | none => r

def writeFails (written : Nat) (r : SocketRelay) : SocketRelay :=
  match r.signalled with
  | some (side, some (byte :: bytes)) =>
    { streams := r.streams.set side ((r.streams.get side).writes ((byte :: bytes).take written))
      reads := r.reads.set side .idle
      pc := .stopped
      failed := true }
  | _ => r

def step (bufferSize : Nat) (op : Op) (r : SocketRelay) : SocketRelay :=
  match op with
  | .arrives side bytes => { r with streams := r.streams.set side ((r.streams.get side).arrives bytes) }
  | .closes side => { r with streams := r.streams.set side (r.streams.get side).closes }
  | .loop => if r.pc = .head then r.loop else r
  | .readFileFails => if r.pc = .head then r.readFileFails else r
  | .completes side count =>
    if r.reads.get side = .pending ∧ r.pc ≠ .stopped then r.completes bufferSize side count else r
  | .completesWithError side =>
    if r.reads.get side = .pending ∧ r.pc ≠ .stopped then { r with reads := r.reads.set side (.completed none) }
    else r
  | .wait => if r.pc = .waiting then r.wait else r
  | .waitFails => if r.pc = .waiting then { r with pc := .stopped } else r
  | .writeFails written => if r.pc = .waiting then r.writeFails written else r

def Read.held : Read → List UInt8
  | .completed (some bytes) => bytes
  | _ => []

def HalfClosing (r : SocketRelay) : Prop :=
  HalfCloses r.streams (fun side => (r.reads.get side).held) (r.pc = .stopped) r.failed

def Regular : Op → SocketRelay → Prop
  | .loop, r => r.pc = .head → r.failed = false → r.streams.left.ended = r.streams.right.ended
  | .readFileFails, r => r.pc = .head → r.failed = false → r.streams.left.ended = r.streams.right.ended
  | .waitFails, r => r.pc ≠ .waiting
  | _, _ => True

def own : Op → Prop
  | .arrives _ _ | .closes _ => False
  | _ => True

inductive Does (bufferSize : Nat) (r : SocketRelay) : Op → SocketRelay → Prop where
  | nothing (op : Op) : Does bufferSize r op r
  | arrives (side : Side) (bytes : List UInt8) : Does bufferSize r (.arrives side bytes)
      { r with streams := r.streams.set side ((r.streams.get side).arrives bytes) }
  | closes (side : Side) : Does bufferSize r (.closes side)
      { r with streams := r.streams.set side (r.streams.get side).closes }
  | exits (op : Op) (hop : op = .loop ∨ op = .readFileFails) (hpc : r.pc = .head) (hexits : r.exits = true) :
      Does bufferSize r op { r with pc := .stopped }
  | loops (hpc : r.pc = .head) (hexits : r.exits = false) : Does bufferSize r .loop
      { r with reads := ⟨r.reads.left.issue, r.reads.right.issue⟩, pc := .waiting }
  | readFileFails (hpc : r.pc = .head) (hexits : r.exits = false) : Does bufferSize r .readFileFails
      { r with pc := .stopped, failed := true }
  | completes (side : Side) (count : Nat) (hread : r.reads.get side = .pending) (hpc : r.pc ≠ .stopped)
      (hwaiting : (r.streams.get side).waiting ≠ []) : Does bufferSize r (.completes side count)
      { r with
        streams := r.streams.set side ((r.streams.get side).takes bufferSize count)
        reads := r.reads.set side (.completed (some ((r.streams.get side).chunk bufferSize count))) }
  | completesAtEnd (side : Side) (count : Nat) (hread : r.reads.get side = .pending) (hpc : r.pc ≠ .stopped)
      (hwaiting : (r.streams.get side).waiting = []) (hclosed : (r.streams.get side).closed = true) :
      Does bufferSize r (.completes side count) { r with reads := r.reads.set side (.completed (some [])) }
  | completesWithError (side : Side) (hread : r.reads.get side = .pending) (hpc : r.pc ≠ .stopped) :
      Does bufferSize r (.completesWithError side) { r with reads := r.reads.set side (.completed none) }
  | handles (side : Side) (result : Option (List UInt8)) (hpc : r.pc = .waiting)
      (hread : r.reads.get side = .completed result) : Does bufferSize r .wait (r.handle side result)
  | waitFails (hpc : r.pc = .waiting) : Does bufferSize r .waitFails { r with pc := .stopped }
  | writeFails (written : Nat) (side : Side) (byte : UInt8) (bytes : List UInt8) (hpc : r.pc = .waiting)
      (hread : r.reads.get side = .completed (some (byte :: bytes))) : Does bufferSize r (.writeFails written)
      { streams := r.streams.set side ((r.streams.get side).writes ((byte :: bytes).take written))
        reads := r.reads.set side .idle
        pc := .stopped
        failed := true }

variable {r : SocketRelay} {bufferSize : Nat}

variable {side : Side} {result : Option (List UInt8)}

theorem signalled_some (h : r.signalled = some (side, result)) : r.reads.get side = .completed result := by
  rw [signalled] at h
  split at h
  · rename_i hleft
    obtain ⟨rfl, rfl⟩ := Prod.mk.inj (Option.some.inj h)
    exact hleft
  · rename_i hright _
    obtain ⟨rfl, rfl⟩ := Prod.mk.inj (Option.some.inj h)
    exact hright
  · cases h

theorem does_completes (side : Side) (count : Nat) (hread : r.reads.get side = .pending)
    (hpc : r.pc ≠ .stopped) :
    Does bufferSize r (.completes side count) (r.completes bufferSize side count) := by
  rw [completes]
  split
  · split
    · exact .completesAtEnd side count hread hpc ‹_› ‹_›
    · exact .nothing _
  · exact .completes side count hread hpc ‹_›

theorem does_wait (hpc : r.pc = .waiting) : Does bufferSize r .wait r.wait := by
  rw [wait]
  split
  · exact .handles _ _ hpc (signalled_some ‹_›)
  · exact .nothing _

theorem does_writeFails (hpc : r.pc = .waiting) (written : Nat) :
    Does bufferSize r (.writeFails written) (r.writeFails written) := by
  rw [writeFails]
  split
  · exact .writeFails written _ _ _ hpc (signalled_some ‹_›)
  · exact .nothing _

theorem does_step (bufferSize : Nat) (op : Op) (r : SocketRelay) :
    Does bufferSize r op (step bufferSize op r) := by
  cases op with
  | arrives side bytes => exact .arrives side bytes
  | closes side => exact .closes side
  | loop =>
    rw [step]
    split
    · rw [loop]
      split
      · exact .exits _ (.inl rfl) ‹_› ‹_›
      · exact .loops ‹_› (not_eq_true _ ▸ ‹_›)
    · exact .nothing _
  | readFileFails =>
    rw [step]
    split
    · rw [readFileFails]
      split
      · exact .exits _ (.inr rfl) ‹_› ‹_›
      · exact .readFileFails ‹_› (not_eq_true _ ▸ ‹_›)
    · exact .nothing _
  | completes side count =>
    rw [step]
    split
    · rename_i hpend
      exact does_completes side count hpend.1 hpend.2
    · exact .nothing _
  | completesWithError side =>
    rw [step]
    split
    · rename_i hpend
      exact .completesWithError side hpend.1 hpend.2
    · exact .nothing _
  | wait =>
    rw [step]
    split
    · exact does_wait ‹_›
    · exact .nothing _
  | waitFails =>
    rw [step]
    split
    · exact .waitFails ‹_›
    · exact .nothing _
  | writeFails written =>
    rw [step]
    split
    · exact does_writeFails ‹_› written
    · exact .nothing _

def Live (s : Stream) (read : Read) : Prop := s.ended = false ∧ read ≠ .idle

def AtEnd (s : Stream) (read : Read) : Prop :=
  read = .completed (some []) → s.closed = true ∧ s.waiting = []

structure Steady (r : SocketRelay) : Prop where
  live : r.pc = .waiting → ∀ side, Live (r.streams.get side) (r.reads.get side)
  atEnd : ∀ side, AtEnd (r.streams.get side) (r.reads.get side)
  failed : r.failed = true → r.pc = .stopped ∨ r.exits = true

namespace Steady

theorem initial : Steady {} := by
  refine ⟨by rintro ⟨⟩, ?_, by rintro ⟨⟩⟩
  intro side
  cases side <;> rintro ⟨⟩

theorem exits_eq (h : Steady r) (hpc : r.pc = .waiting) : r.exits = false := by
  rw [exits, or_eq_false_iff]
  exact ⟨(h.live hpc .left).1, (h.live hpc .right).1⟩

theorem not_failed (h : Steady r) (hpc : r.pc = .waiting) : r.failed = false := by
  rw [← not_eq_true]
  intro hfail
  rcases h.failed hfail with hstop | hexits
  · rw [hpc] at hstop
    cases hstop
  · rw [h.exits_eq hpc] at hexits
    cases hexits

variable {side : Side} {s : Stream}

theorem exits_set (hended : s.ended = (r.streams.get side).ended) :
    exits { r with streams := r.streams.set side s } = r.exits := by
  cases side with
  | left =>
    show (s.ended || r.streams.right.ended) = (r.streams.left.ended || r.streams.right.ended)
    rw [hended]
    rfl
  | right =>
    show (r.streams.left.ended || s.ended) = (r.streams.left.ended || r.streams.right.ended)
    rw [hended]
    rfl

theorem exits_ends (side : Side) (s : Stream) (hended : s.ended = true) (reads : Sides Read) (pc : Pc)
    (failed : Bool) :
    exits { streams := r.streams.set side s, reads := reads, pc := pc, failed := failed } = true := by
  cases side with
  | left =>
    show (s.ended || r.streams.right.ended) = true
    rw [hended]
    exact Bool.true_or _
  | right =>
    show (r.streams.left.ended || s.ended) = true
    rw [hended]
    exact Bool.or_true _

theorem outside (h : Steady r) (hended : s.ended = (r.streams.get side).ended)
    (hclose : (r.streams.get side).closed = true → s.closed = true)
    (hwait : (r.streams.get side).closed = true → s.waiting = (r.streams.get side).waiting) :
    Steady { r with streams := r.streams.set side s } := by
  refine ⟨?_, ?_, ?_⟩
  · intro hpc
    have hlive := h.live hpc
    exact Sides.forall_set (P := fun side s => Live s (r.reads.get side)) hlive
      ⟨hended.trans (hlive side).1, (hlive side).2⟩
  · apply Sides.forall_set (P := fun side s => AtEnd s (r.reads.get side)) h.atEnd
    intro hread
    obtain ⟨hclose', hwait'⟩ := h.atEnd side hread
    exact ⟨hclose hclose', (hwait hclose').trans hwait'⟩
  · intro hfail
    rw [exits_set hended]
    exact h.failed hfail

theorem completes (h : Steady r) (s : Stream) (result : Option (List UInt8))
    (hended : s.ended = (r.streams.get side).ended)
    (hres : result = some [] → s.closed = true ∧ s.waiting = []) :
    Steady { r with streams := r.streams.set side s, reads := r.reads.set side (.completed result) } := by
  refine ⟨?_, ?_, ?_⟩
  · intro hpc
    have hlive := h.live hpc
    refine Sides.forall_set_set (P := fun _ => Live) hlive ⟨hended.trans (hlive side).1, ?_⟩
    rintro ⟨⟩
  · apply Sides.forall_set_set (P := fun _ => AtEnd) h.atEnd
    intro hread
    exact hres (Read.completed.inj hread)
  · intro hfail
    have hexits := exits_set hended
    exact (h.failed hfail).imp_right hexits.trans

theorem handled (h : Steady r) {pc : Pc} {failed : Bool} (hpc : pc ≠ .waiting)
    (hfail : failed = true → pc = .stopped ∨ s.ended = true) :
    Steady { streams := r.streams.set side s, reads := r.reads.set side .idle, pc := pc, failed := failed } := by
  refine ⟨fun heq => absurd heq hpc, ?_, ?_⟩
  · apply Sides.forall_set_set (P := fun _ => AtEnd) h.atEnd
    rintro ⟨⟩
  · intro heq
    exact (hfail heq).imp_right fun hended => exits_ends side s hended _ _ _

theorem handle_bytes (h : Steady r) (hpc : r.pc = .waiting) (side : Side) (byte : UInt8) (bytes : List UInt8) :
    r.handle side (some (byte :: bytes)) = { r with
        streams := r.streams.set side ((r.streams.get side).writes (byte :: bytes))
        reads := r.reads.set side .idle
        pc := .head } := by
  rw [SocketRelay.handle, (h.live hpc side.other).1]
  rfl

theorem handle (h : Steady r) (hpc : r.pc = .waiting) (side : Side) (result : Option (List UInt8)) :
    Steady (r.handle side result) := by
  have hfail := h.not_failed hpc
  cases result with
  | none =>
    apply h.handled
    · rintro ⟨⟩
    · exact fun _ => .inr rfl
  | some bytes =>
    cases bytes with
    | nil =>
      apply h.handled
      · rintro ⟨⟩
      · exact fun _ => .inr rfl
    | cons byte bytes =>
      rw [h.handle_bytes hpc]
      apply h.handled
      · rintro ⟨⟩
      · intro heq
        exact absurd (hfail.symm.trans heq) Bool.false_ne_true

theorem issue_ne_idle (read : Read) : read.issue ≠ .idle := by
  cases read <;> rintro ⟨⟩

theorem issue_eq_completed {read : Read} {result : Option (List UInt8)} (h : read.issue = .completed result) :
    read = .completed result := by
  cases read with
  | idle => cases h
  | pending => cases h
  | completed => exact h

theorem loops (h : Steady r) (hpc : r.pc = .head) (hexits : r.exits = false) :
    Steady { r with reads := ⟨r.reads.left.issue, r.reads.right.issue⟩, pc := .waiting } := by
  refine ⟨?_, ?_, ?_⟩
  · intro _ side
    rw [exits, or_eq_false_iff] at hexits
    cases side with
    | left => exact ⟨hexits.1, issue_ne_idle _⟩
    | right => exact ⟨hexits.2, issue_ne_idle _⟩
  · intro side hread
    cases side with
    | left => exact h.atEnd .left (issue_eq_completed hread)
    | right => exact h.atEnd .right (issue_eq_completed hread)
  · intro hfail
    rcases h.failed hfail with hstop | hexits'
    · rw [hpc] at hstop
      cases hstop
    · exact .inr hexits'

theorem stopped (h : Steady r) (failed : Bool) : Steady { r with pc := .stopped, failed := failed } :=
  ⟨by rintro ⟨⟩, h.atEnd, fun _ => .inl rfl⟩

theorem step (hsize : 0 < bufferSize) (h : Steady r) (op : Op) : Steady (SocketRelay.step bufferSize op r) := by
  have hdoes := does_step bufferSize op r
  generalize SocketRelay.step bufferSize op r = r' at hdoes ⊢
  cases hdoes with
  | nothing => exact h
  | arrives side bytes =>
    apply h.outside
    · exact Stream.ended_arrives bytes _
    · intro hclose
      rw [Stream.arrives, if_pos hclose]
      exact hclose
    · intro hclose
      rw [Stream.arrives, if_pos hclose]
  | closes side =>
    apply h.outside
    · rfl
    · exact fun _ => rfl
    · exact fun _ => rfl
  | exits => exact h.stopped _
  | loops hpc hexits => exact h.loops hpc hexits
  | readFileFails => exact h.stopped _
  | completes side count hread hpc hwait =>
    apply h.completes
    · rfl
    · intro heq
      exact absurd (Option.some.inj heq) (Stream.chunk_ne_nil hsize count hwait)
  | completesAtEnd side count hread hpc hwait hclose =>
    have hcompletes := h.completes (r.streams.get side) (some []) rfl fun _ => ⟨hclose, hwait⟩
    rw [Sides.set_get] at hcompletes
    exact hcompletes
  | completesWithError side hread hpc =>
    have hcompletes := h.completes (r.streams.get side) none rfl (by rintro ⟨⟩)
    rw [Sides.set_get] at hcompletes
    exact hcompletes
  | handles side result hpc => exact h.handle hpc side result
  | waitFails => exact h.stopped _
  | writeFails written side byte bytes hpc =>
    apply h.handled
    · rintro ⟨⟩
    · exact fun _ => .inl rfl

end Steady

structure Sound (r : SocketRelay) : Prop where
  steady : Steady r
  inOrder : ∀ side, (r.streams.get side).written <+: (r.streams.get side).arrived
  intact : r.failed = false → ∀ side, (r.streams.get side).Intact (r.reads.get side).held
  stops : r.pc = .stopped → r.failed = false → ∀ side, (r.streams.get side).ended = true

namespace Sound

theorem halfClosing (h : Sound r) : r.HalfClosing :=
  .of_intact h.inOrder h.intact fun hstop => h.stops (of_decide_eq_true hstop)

theorem initial : Sound {} := by
  refine ⟨.initial, ?_, ?_, ?_⟩
  · intro side
    cases side <;> exact List.nil_prefix
  · intro _ side
    cases side <;> exact .initial
  · rintro ⟨⟩

variable {side : Side} {s : Stream}

theorem outside (h : Sound r) (hsteady : Steady { r with streams := r.streams.set side s })
    (hwritten : s.written <+: s.arrived)
    (hintact : (r.streams.get side).Intact (r.reads.get side).held → s.Intact (r.reads.get side).held)
    (hended : s.ended = (r.streams.get side).ended) : Sound { r with streams := r.streams.set side s } := by
  refine ⟨hsteady, ?_, ?_, ?_⟩
  · exact Sides.forall_set (P := fun _ (s : Stream) => s.written <+: s.arrived) h.inOrder hwritten
  · intro hfail
    exact Sides.forall_set (P := fun side (s : Stream) => s.Intact (r.reads.get side).held) (h.intact hfail)
      (hintact (h.intact hfail side))
  · intro hpc hfail
    have hall := h.stops hpc hfail
    exact Sides.forall_set (P := fun _ (s : Stream) => s.ended = true) hall (hended.trans (hall side))

theorem moves (h : Sound r) {read : Read} {pc : Pc}
    (hsteady : Steady { r with streams := r.streams.set side s, reads := r.reads.set side read, pc := pc })
    (hwritten : s.written <+: s.arrived) (hpc : pc ≠ .stopped)
    (hintact : r.failed = false → s.Intact read.held) :
    Sound { r with streams := r.streams.set side s, reads := r.reads.set side read, pc := pc } := by
  refine ⟨hsteady, ?_, ?_, fun heq => absurd heq hpc⟩
  · exact Sides.forall_set (P := fun _ (s : Stream) => s.written <+: s.arrived) h.inOrder hwritten
  · intro hfail
    exact Sides.forall_set_set (P := fun _ (s : Stream) (read : Read) => s.Intact read.held) (h.intact hfail)
      (hintact hfail)

theorem reads (h : Sound r) {read : Read} (hsteady : Steady { r with reads := r.reads.set side read })
    (hheld : read.held = (r.reads.get side).held) : Sound { r with reads := r.reads.set side read } := by
  refine ⟨hsteady, h.inOrder, ?_, h.stops⟩
  intro hfail
  have hintact := h.intact hfail
  apply Sides.forall_set (P := fun side (read : Read) => (r.streams.get side).Intact read.held) hintact
  rw [hheld]
  exact hintact side

theorem fails (h : Sound r) {reads : Sides Read} {pc : Pc}
    (hsteady : Steady { streams := r.streams.set side s, reads := reads, pc := pc, failed := true })
    (hwritten : s.written <+: s.arrived) :
    Sound { streams := r.streams.set side s, reads := reads, pc := pc, failed := true } := by
  refine ⟨hsteady, ?_, by rintro ⟨⟩, by rintro _ ⟨⟩⟩
  exact Sides.forall_set (P := fun _ (s : Stream) => s.written <+: s.arrived) h.inOrder hwritten

theorem handle (h : Sound r) (hpc : r.pc = .waiting) {result : Option (List UInt8)}
    (hread : r.reads.get side = .completed result) : Sound (r.handle side result) := by
  have hsteady := h.steady.handle hpc side result
  have hintact := h.intact (h.steady.not_failed hpc) side
  rw [hread] at hintact
  cases result with
  | none => exact h.fails hsteady (h.inOrder side)
  | some bytes =>
    cases bytes with
    | nil =>
      obtain ⟨hclose, hwait⟩ := h.steady.atEnd side hread
      apply h.moves hsteady (h.inOrder side)
      · rintro ⟨⟩
      · intro _
        exact hintact.ends hclose hwait
    | cons byte bytes =>
      rw [h.steady.handle_bytes hpc] at hsteady ⊢
      have hwrites := hintact.writes (h.steady.live hpc side).1
      apply h.moves hsteady hwrites.written_isPrefix
      · rintro ⟨⟩
      · exact fun _ => hwrites

theorem held_issue (read : Read) : read.issue.held = read.held := by
  cases read <;> rfl

theorem step (hsize : 0 < bufferSize) (op : Op) (r : SocketRelay) (h : Sound r) (hreg : Regular op r) :
    Sound (SocketRelay.step bufferSize op r) := by
  have hsteady := h.steady.step hsize op
  have hdoes := does_step bufferSize op r
  generalize SocketRelay.step bufferSize op r = r' at hdoes hsteady ⊢
  cases hdoes with
  | nothing => exact h
  | arrives side bytes =>
    exact h.outside hsteady (Stream.isPrefix_arrives bytes (h.inOrder side)) (fun hs => hs.arrives bytes)
      (Stream.ended_arrives bytes _)
  | closes side => exact h.outside hsteady (h.inOrder side) (fun hs => hs.closes) rfl
  | exits _ hop hpc hexits =>
    refine ⟨hsteady, h.inOrder, h.intact, ?_⟩
    intro _ hfail
    apply ended_of_exit hexits
    rcases hop with rfl | rfl
    · exact hreg hpc hfail
    · exact hreg hpc hfail
  | loops hpc hexits =>
    refine ⟨hsteady, h.inOrder, ?_, by rintro ⟨⟩⟩
    intro hfail side
    have hside := h.intact hfail side
    cases side with
    | left => exact (held_issue r.reads.left).symm ▸ hside
    | right => exact (held_issue r.reads.right).symm ▸ hside
  | readFileFails => exact ⟨hsteady, h.inOrder, by rintro ⟨⟩, by rintro _ ⟨⟩⟩
  | completes side count hread hpc hwait =>
    apply h.moves hsteady (h.inOrder side) hpc
    intro hfail
    have hintact := h.intact hfail side
    rw [hread] at hintact
    apply hintact.takes
    rw [← not_eq_true]
    intro hended
    exact hwait (hintact.ended hended).2.2
  | completesAtEnd side count hread =>
    apply h.reads hsteady
    rw [hread]
    rfl
  | completesWithError side hread =>
    apply h.reads hsteady
    rw [hread]
    rfl
  | handles side result hpc hread => exact h.handle hpc hread
  | waitFails hpc => exact absurd hpc hreg
  | writeFails written side byte bytes hpc hread =>
    have hintact := h.intact (h.steady.not_failed hpc) side
    rw [hread] at hintact
    exact h.fails hsteady (hintact.cut_isPrefix written)

theorem ended_eq (hhalf : r.exits = true → HalfClosing { r with pc := .stopped })
    (hfail : r.failed = false) : r.streams.left.ended = r.streams.right.ended := by
  cases hexits : r.exits with
  | false =>
    rw [exits, or_eq_false_iff] at hexits
    rw [hexits.1, hexits.2]
  | true =>
    have hall := (hhalf hexits).stops rfl hfail
    exact (hall .left).trans (hall .right).symm

theorem regular (op : Op) (r : SocketRelay) (h : Sound r)
    (hhalf : (SocketRelay.step bufferSize op r).HalfClosing) :
    Regular op r := by
  cases op with
  | loop =>
    intro hpc hfail
    rw [SocketRelay.step, if_pos hpc, loop] at hhalf
    apply ended_eq _ hfail
    intro hexits
    rw [if_pos hexits] at hhalf
    exact hhalf
  | readFileFails =>
    intro hpc hfail
    rw [SocketRelay.step, if_pos hpc, readFileFails] at hhalf
    apply ended_eq _ hfail
    intro hexits
    rw [if_pos hexits] at hhalf
    exact hhalf
  | waitFails =>
    intro hpc
    rw [SocketRelay.step, if_pos hpc] at hhalf
    have hended := hhalf.stops rfl (h.steady.not_failed hpc) .left
    exact absurd ((h.steady.live hpc .left).1.symm.trans hended) Bool.false_ne_true
  | arrives => trivial
  | closes => trivial
  | completes => trivial
  | completesWithError => trivial
  | wait => trivial
  | writeFails => trivial

end Sound

theorem along_iff_regular (hsize : 0 < bufferSize) (ops : List Op) :
    Along (step bufferSize) (fun _ _ r => r.HalfClosing) ops {} ↔ Allowed (step bufferSize) Regular ops {} := by
  apply along_iff_allowed (Sound.step hsize) _ Sound.initial
  intro op r h
  exact ⟨h.regular op r, fun hreg => (h.step hsize op r hreg).halfClosing⟩

def Pc.load : Pc → Nat
  | .head => 2
  | .waiting => 1
  | .stopped => 0

def Read.load : Read → Nat
  | .idle => 3
  | .pending => 2
  | .completed (some (_ :: _)) => 5
  | .completed (some []) => 1
  | .completed none => 1

def load (r : SocketRelay) : Nat := 8 * r.streams.total Stream.load + r.reads.total Read.load + r.pc.load

theorem load_issue_le (read : Read) : read.issue.load ≤ read.load := by
  cases read with
  | idle => exact Nat.le_succ 2
  | pending => exact Nat.le_refl 2
  | completed => exact Nat.le_refl _

theorem load_completed_le (result : Option (List UInt8)) : (Read.completed result).load ≤ 5 := by
  rcases result with _ | _ | _
  · exact Nat.le_add_left 1 4
  · exact Nat.le_add_left 1 4
  · exact Nat.le_refl 5

theorem load_handle_lt (h : Steady r) (hpc : r.pc = .waiting)
    (hread : r.reads.get side = .completed result) : (r.handle side result).load < r.load := by
  have hreads := Sides.total_set Read.load r.reads side .idle
  rw [hread, show Read.load .idle = 3 from rfl] at hreads
  have hended := (h.live hpc side).1
  have hends := Sides.total_set Stream.load r.streams side (r.streams.get side).ends
  have hload := Stream.load_ends hended
  have hwaits : r.load = 8 * r.streams.total Stream.load + r.reads.total Read.load + 1 := by
    rw [load, hpc]
    rfl
  rw [hwaits]
  cases result with
  | none =>
    show 8 * (r.streams.set side (r.streams.get side).ends).total Stream.load +
      (r.reads.set side .idle).total Read.load + 2 < _
    omega
  | some bytes =>
    cases bytes with
    | nil =>
      show 8 * (r.streams.set side (r.streams.get side).ends).total Stream.load +
        (r.reads.set side .idle).total Read.load + 2 < _
      omega
    | cons byte bytes =>
      have hwrites := Sides.total_set Stream.load r.streams side ((r.streams.get side).writes (byte :: bytes))
      rw [show (Read.completed (some (byte :: bytes))).load = 5 from rfl] at hreads
      rw [h.handle_bytes hpc]
      show 8 * (r.streams.set side _).total Stream.load + (r.reads.set side .idle).total Read.load + 2 < _
      rw [Stream.load_writes] at hwrites
      omega

theorem load_lt (hsize : 0 < bufferSize) (h : Steady r) {op : Op} (hown : own op)
    (hne : step bufferSize op r ≠ r) :
    (step bufferSize op r).load < r.load := by
  have hdoes := does_step bufferSize op r
  generalize step bufferSize op r = r' at hdoes hne ⊢
  cases hdoes with
  | nothing => exact absurd rfl hne
  | arrives => exact absurd hown id
  | closes => exact absurd hown id
  | exits _ _ hpc =>
    simp only [load, hpc, Pc.load]
    omega
  | loops hpc =>
    have hleft := load_issue_le r.reads.left
    have hright := load_issue_le r.reads.right
    simp only [load, hpc, Pc.load, Sides.total]
    omega
  | readFileFails hpc =>
    simp only [load, hpc, Pc.load]
    omega
  | completes side count hread hpc hwait =>
    have hreads := Sides.total_set Read.load r.reads side
      (.completed (some ((r.streams.get side).chunk bufferSize count)))
    have hdone := load_completed_le (some ((r.streams.get side).chunk bufferSize count))
    have hstreams := Sides.total_set Stream.load r.streams side ((r.streams.get side).takes bufferSize count)
    have hload := Stream.load_takes_lt hsize count hwait
    simp only [load]
    omega
  | completesAtEnd side count hread =>
    have hreads := Sides.total_set Read.load r.reads side (.completed (some []))
    rw [hread, show Read.load .pending = 2 from rfl, show (Read.completed (some [])).load = 1 from rfl] at hreads
    simp only [load]
    omega
  | completesWithError side hread =>
    have hreads := Sides.total_set Read.load r.reads side (.completed none)
    rw [hread, show Read.load .pending = 2 from rfl, show (Read.completed none).load = 1 from rfl] at hreads
    simp only [load]
    omega
  | handles side result hpc hread => exact load_handle_lt h hpc hread
  | waitFails hpc =>
    simp only [load, hpc, Pc.load]
    omega
  | writeFails written side byte bytes hpc hread =>
    have hreads := Sides.total_set Read.load r.reads side .idle
    rw [hread, show Read.load .idle = 3 from rfl,
      show (Read.completed (some (byte :: bytes))).load = 5 from rfl] at hreads
    have hstreams := Sides.total_set Stream.load r.streams side
      ((r.streams.get side).writes ((byte :: bytes).take written))
    rw [Stream.load_writes] at hstreams
    simp only [load, hpc, Pc.load]
    omega

def IsDrained (r : SocketRelay) : Prop :=
  Drained r.streams (fun side => (r.reads.get side).held) (r.pc = .stopped)

theorem signalled_ne_none (hread : r.reads.get side = .completed result) : r.signalled ≠ none := by
  intro hnone
  rw [signalled] at hnone
  split at hnone
  · cases hnone
  · cases hnone
  · rename_i hleft hright
    cases side with
    | left => exact hleft result hread
    | right => exact hright result hread

theorem pc_handle (side : Side) (result : Option (List UInt8)) (r : SocketRelay) :
    (r.handle side result).pc = .head := by
  rw [handle.eq_def]
  split
  · split <;> rfl
  · rfl
  · rfl

theorem pc_wait (hread : r.reads.get side = .completed result) : r.wait.pc = .head := by
  have hsignalled := signalled_ne_none hread
  rw [wait]
  split
  · exact pc_handle _ _ r
  · exact absurd ‹_› hsignalled

theorem completes_ne (hread : r.reads.get side = .pending)
    (hreadable : (r.streams.get side).readable = true) : r.completes bufferSize side 0 ≠ r := by
  -- Compare the reads: the one of this side is not pending any more.
  have hne : (r.completes bufferSize side 0).reads.get side ≠ .pending := by
    rw [completes]
    split
    · rename_i hwait
      rw [Stream.readable, hwait] at hreadable
      rw [if_pos (show (r.streams.get side).closed = true from hreadable), Sides.get_set]
      rintro ⟨⟩
    · rw [Sides.get_set]
      rintro ⟨⟩
  intro heq
  rw [heq] at hne
  exact hne hread

theorem drained_of_pending (hpend : ∀ side, r.reads.get side = .pending)
    (hreadable : ∀ side, (r.streams.get side).readable = false) : r.IsDrained := by
  right
  intro side
  have hside := hreadable side
  rw [Stream.readable, or_eq_false_iff, not_eq_false', List.isEmpty_iff] at hside
  refine .inr ⟨hside.2, hside.1, ?_⟩
  show (r.reads.get side).held = []
  rw [hpend side]
  rfl

theorem drained_or_moves (bufferSize : Nat) (h : Steady r) :
    r.IsDrained ∨ ∃ op, own op ∧ step bufferSize op r ≠ r := by
  cases hpc : r.pc with
  | head =>
    refine .inr ⟨.loop, trivial, fun heq => ?_⟩
    have hpc' := congrArg SocketRelay.pc heq
    rw [step, if_pos hpc, loop, hpc] at hpc'
    split at hpc' <;> cases hpc'
  | waiting =>
    by_cases hdone : ∃ side result, r.reads.get side = .completed result
    · obtain ⟨side, result, hread⟩ := hdone
      refine .inr ⟨.wait, trivial, fun heq => ?_⟩
      have hpc' := congrArg SocketRelay.pc heq
      rw [step, if_pos hpc, pc_wait hread, hpc] at hpc'
      cases hpc'
    · have hpend (side : Side) : r.reads.get side = .pending := by
        cases hread : r.reads.get side with
        | idle => exact absurd hread (h.live hpc side).2
        | pending => rfl
        | completed result => exact absurd ⟨side, result, hread⟩ hdone
      by_cases hreadable : ∃ side, (r.streams.get side).readable = true
      · obtain ⟨side, hreadable⟩ := hreadable
        refine .inr ⟨.completes side 0, trivial, ?_⟩
        rw [step, if_pos ⟨hpend side, by rw [hpc]; rintro ⟨⟩⟩]
        exact completes_ne (hpend side) hreadable
      · refine .inl (drained_of_pending hpend fun side => ?_)
        rw [← not_eq_true]
        exact fun hside => hreadable ⟨side, hside⟩
  | stopped => exact .inl (.inl (decide_eq_true hpc))

theorem settles (hsize : 0 < bufferSize) (ops : List Op) :
    Settles (step bufferSize) own IsDrained (runSteps (step bufferSize) ops {}) := by
  have hsteady : Steady (runSteps (step bufferSize) ops {}) :=
    inv_runSteps_of_step (fun op r h => h.step hsize op) Steady.initial
  apply settles_of_measure Steady load
  · exact fun op r h _ => h.step hsize op
  · exact fun op r h hown hne => load_lt hsize h hown hne
  · exact fun r h => drained_or_moves bufferSize h
  · exact hsteady

end SocketRelay

/-- In every run each of the two relays supports half-close exactly as long as it does not stop with one
stream at its end; and as long as it does not stop, everything that arrives is relayed. -/
theorem half_close_iff (messageBufferSize : Nat) {bufferSize : Nat} (hsize : 0 < bufferSize) :
    (∀ ops : List Worker.Op,
      (Along (Worker.step messageBufferSize) (fun _ _ w => w.HalfClosing) ops {} ↔
        Allowed (Worker.step messageBufferSize) Worker.Regular ops {}) ∧
      Settles (Worker.step messageBufferSize) Worker.own Worker.IsDrained
        (runSteps (Worker.step messageBufferSize) ops {})) ∧
    ∀ ops : List SocketRelay.Op,
      (Along (SocketRelay.step bufferSize) (fun _ _ r => r.HalfClosing) ops {} ↔
        Allowed (SocketRelay.step bufferSize) SocketRelay.Regular ops {}) ∧
      Settles (SocketRelay.step bufferSize) SocketRelay.own SocketRelay.IsDrained
        (runSteps (SocketRelay.step bufferSize) ops {}) := by
  constructor
  · intro ops
    exact ⟨Worker.along_iff_regular messageBufferSize ops, Worker.settles messageBufferSize ops⟩
  · intro ops
    exact ⟨SocketRelay.along_iff_regular hsize ops, SocketRelay.settles hsize ops⟩

def localhostRelayBufferSize : Nat := 0x20000

theorem half_close_iff_localhost :
    (∀ ops : List Worker.Op,
      (Along (Worker.step localhostRelayBufferSize) (fun _ _ w => w.HalfClosing) ops {} ↔
        Allowed (Worker.step localhostRelayBufferSize) Worker.Regular ops {}) ∧
      Settles (Worker.step localhostRelayBufferSize) Worker.own Worker.IsDrained
        (runSteps (Worker.step localhostRelayBufferSize) ops {})) ∧
    ∀ ops : List SocketRelay.Op,
      (Along (SocketRelay.step localhostRelayBufferSize) (fun _ _ r => r.HalfClosing) ops {} ↔
        Allowed (SocketRelay.step localhostRelayBufferSize) SocketRelay.Regular ops {}) ∧
      Settles (SocketRelay.step localhostRelayBufferSize) SocketRelay.own SocketRelay.IsDrained
        (runSteps (SocketRelay.step localhostRelayBufferSize) ops {}) :=
  half_close_iff localhostRelayBufferSize (by decide)

/-- A request that ends its input is relayed; the answer that comes later is not, in the guest as on
the host. -/
theorem answer_not_relayed :
    ¬ (runSteps (Worker.step localhostRelayBufferSize)
      [.start 0, .arrives .left [1], .poll, .serve 0, .closes .left, .poll, .serve 0, .arrives .right [2, 3], .poll]
      {}).HalfClosing ∧
    ¬ (runSteps (SocketRelay.step localhostRelayBufferSize)
      [.arrives .left [1], .loop, .completes .left 0, .wait, .closes .left, .loop, .completes .left 0, .wait,
        .arrives .right [2, 3], .completes .right 1, .loop] {}).HalfClosing := by
  constructor
  · intro h
    exact absurd (h.stops (by decide) (by decide) .right) (by decide)
  · intro h
    exact absurd (h.stops (by decide) (by decide) .right) (by decide)

end WslPlus.Network

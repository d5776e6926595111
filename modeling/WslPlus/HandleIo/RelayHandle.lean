import WslPlus.HandleIo.WriteHandle
import WslPlus.Lib.Transition

/-!
# Relaying from one handle to another

`RelayHandle` reads into its own buffer, pushes the buffer to a writer, and turns to reading
again as soon as the buffer is empty, also while the writer keeps bytes that a write did not
take. At the end of the input the writer is drained before the relay is completed.
-/

namespace WslPlus.HandleIo

/-- With `input`, the reads to come. -/
structure ReadHandle where
  state : IOHandleStatus := .standby
  input : List Bytes

namespace ReadHandle

def complete (r : ReadHandle) : ReadHandle × Bytes :=
  let bytes := r.input.headD []
  ({ state := if bytes = [] then .completed else .standby, input := r.input.tail }, bytes)

/-- The read is done at once (`now`) or later. -/
def schedule (r : ReadHandle) (now : Bool) : ReadHandle × Bytes :=
  if now then r.complete else ({ r with state := .pending }, [])

end ReadHandle

def stream : List Bytes → Bytes
  | [] => []
  | bytes :: reads => if bytes = [] then [] else bytes ++ stream reads

structure RelayHandle where
  state : IOHandleStatus := .standby
  read : ReadHandle
  write : WriteHandle := {}
  pendingBuffer : Bytes := []

namespace RelayHandle

def start (reads : List Bytes) : RelayHandle := { read := { input := reads } }

/-- The reader has called `OnRead`. -/
def onRead (r : RelayHandle) (read : ReadHandle × Bytes) : RelayHandle :=
  { r with read := read.1, pendingBuffer := r.pendingBuffer ++ read.2 }

def drain (r : RelayHandle) (now : Bool) (count : Nat) : RelayHandle :=
  let write := { r.write with completeOnDrained := true }
  if write.pendingBytes > 0 then
    { r with write := write.schedule now count, state := (write.schedule now count).state }
  else { r with write := write, state := .completed }

def scheduleRead (r : RelayHandle) (now : Bool) : RelayHandle :=
  let r := r.onRead (r.read.schedule now)
  if r.read.state = .pending then { r with state := .pending } else r

def scheduleWrite (r : RelayHandle) (now : Bool) (count : Nat) : RelayHandle :=
  let r := { r with write := (r.write.push r.pendingBuffer).schedule now count, pendingBuffer := [] }
  if r.write.state = .pending then { r with state := .pending } else r

/-- The I/O that is started is done at once (`now`) or later; `count` is for a write. -/
def schedule (r : RelayHandle) (now : Bool) (count : Nat) : RelayHandle :=
  if r.pendingBuffer = [] then
    if r.read.state = .completed then r.drain now count else r.scheduleRead now
  else r.scheduleWrite now count

def collect (r : RelayHandle) (count : Nat) : RelayHandle :=
  let r := { r with state := .standby }
  if r.read.state = .pending then r.onRead r.read.complete else { r with write := r.write.collect count }

inductive Side where
  | read
  | write

def getHandle (r : RelayHandle) : Side := if r.read.state = .pending then .read else .write

/-- The calls of the loop that waits for the handles. -/
inductive Event where
  | schedule (now : Bool) (count : Nat)
  | collect (count : Nat)

def step : Event → RelayHandle → RelayHandle
  | .schedule now count, r => if r.state = .standby then r.schedule now count else r
  | .collect count, r => if r.state = .pending then r.collect count else r

end RelayHandle

namespace WriteHandle

variable {w : WriteHandle}

/-- How a write leaves the writer: with a rest, under way, or drained. -/
structure Written (completes : Bool) (w : WriteHandle) : Prop where
  pending : w.pending = []
  completeOnDrained : w.completeOnDrained = completes
  state : w.state = .standby ∨ w.state = .pending ∨
    w.buffer = [] ∧ w.state = if completes then .completed else .idle

theorem consume_written (hstate : w.state = .standby) (hpend : w.pending = []) (count : Nat) :
    Written w.completeOnDrained (w.consume count) ∧ (w.consume count).state ≠ .pending := by
  simp only [consume]
  split
  · rename_i hnil
    refine ⟨⟨hpend, rfl, .inr (.inr ⟨hnil, by simp [drainedState, hpend]⟩)⟩, ?_⟩
    simp only [drainedState]
    split
    · intro h
      cases h
    · intro h
      cases h
  · exact ⟨⟨hpend, rfl, .inl hstate⟩, by simp [hstate]⟩

theorem schedule_written (hstate : w.state = .standby) (now : Bool) (count : Nat) :
    Written w.completeOnDrained (w.schedule now count) := by
  simp only [schedule]
  split
  · rename_i hnil
    exact ⟨rfl, rfl, .inr (.inr ⟨hnil, by simp [drainedState]⟩)⟩
  · split
    · have hmoved : WriteHandle.state { w with buffer := w.buffer ++ w.pending, pending := [] } = .standby := hstate
      exact (consume_written hmoved rfl count).1
    · exact ⟨rfl, rfl, .inr (.inl rfl)⟩

theorem collect_written (hpend : w.pending = []) (count : Nat) :
    Written w.completeOnDrained (w.collect count) ∧ (w.collect count).state ≠ .pending := by
  have hstand : WriteHandle.pending { w with state := .standby } = [] := hpend
  exact consume_written rfl hstand count

theorem Written.drained {completes : Bool} (h : Written completes w)
    (hstate : w.state = .idle ∨ w.state = .completed) :
    w.buffer = [] := by
  rcases h.state with heq | heq | ⟨hnil, -⟩
  · rw [heq] at hstate
    rcases hstate with hstate | hstate <;> cases hstate
  · rw [heq] at hstate
    rcases hstate with hstate | hstate <;> cases hstate
  · exact hnil

theorem Written.not_completed (h : Written false w) : w.state ≠ .completed := by
  rcases h.state with heq | heq | ⟨-, heq⟩ <;> rw [heq] <;> nofun

end WriteHandle

def ReadHandle.rest (r : ReadHandle) : Bytes := if r.state = .completed then [] else stream r.input

theorem ReadHandle.rest_complete {r : ReadHandle} (hstate : r.state ≠ .completed) :
    r.complete.2 ++ r.complete.1.rest = r.rest := by
  have hrest : r.rest = stream r.input := if_neg hstate
  rw [hrest, complete]
  cases hinput : r.input with
  | nil => simp [rest, stream]
  | cons bytes reads =>
    by_cases hbytes : bytes = []
    · simp [rest, stream, hbytes]
    · simp [rest, stream, hbytes]

namespace RelayHandle

variable {r : RelayHandle} {reads : List Bytes}

/-- Nothing is lost between the two handles, and at most one of them is busy. -/
structure Relays (reads : List Bytes) (r : RelayHandle) : Prop where
  bytes : r.write.pushed ++ (r.pendingBuffer ++ r.read.rest) = stream reads
  closed : r.write.completeOnDrained = true → r.read.state = .completed ∧ r.pendingBuffer = []
  quiet : r.write.pending = []
  drained : r.write.state = .idle ∨ r.write.state = .completed → r.write.buffer = []
  final : r.write.state = .completed → r.read.state = .completed ∧ r.pendingBuffer = []
  busy : r.state = .pending ↔ (r.read.state = .pending ∨ r.write.state = .pending)
  single : ¬ (r.read.state = .pending ∧ r.write.state = .pending)
  done : r.state = .completed → r.read.state = .completed ∧ r.pendingBuffer = [] ∧ r.write.pendingBytes = 0

theorem Relays.start (reads : List Bytes) : Relays reads (start reads) where
  bytes := rfl
  closed := nofun
  quiet := rfl
  drained := fun _ => rfl
  final := nofun
  busy := by simp [RelayHandle.start]
  single := by simp [RelayHandle.start]
  done := nofun

section

variable (h : Relays reads r)
include h

theorem Relays.onRead (hread : r.read.state ≠ .completed) (hwrite : r.write.state ≠ .pending) :
    Relays reads ({ r with state := .standby }.onRead r.read.complete) := by
  have hstate : r.read.complete.1.state ≠ .pending := by
    simp only [ReadHandle.complete]
    split <;> nofun
  have hwriting : r.write.state ≠ .completed := fun heq => hread (h.final heq).1
  refine ⟨?_, fun heq => absurd (h.closed heq).1 hread, h.quiet, h.drained, fun heq => absurd heq hwriting, ?_, ?_, nofun⟩
  · change r.write.pushed ++ ((r.pendingBuffer ++ r.read.complete.2) ++ r.read.complete.1.rest) = _
    rw [List.append_assoc, ReadHandle.rest_complete hread]
    exact h.bytes
  · change IOHandleStatus.standby = .pending ↔ (r.read.complete.1.state = .pending ∨ r.write.state = .pending)
    simp [hstate, hwrite]
  · rintro ⟨hpend, -⟩
    exact hstate hpend

theorem Relays.scheduleRead (hstate : r.state = .standby) (hread : r.read.state ≠ .completed)
    (hwrite : r.write.state ≠ .pending) (now : Bool) : Relays reads (r.scheduleRead now) := by
  cases now with
  | true =>
    have hdone : (r.onRead r.read.complete).read.state ≠ .pending := by
      change r.read.complete.1.state ≠ .pending
      simp only [ReadHandle.complete]
      split <;> nofun
    have heq : r.scheduleRead true = { r with state := .standby }.onRead r.read.complete := by
      simp only [RelayHandle.scheduleRead, ReadHandle.schedule, if_true, if_neg hdone, ← hstate]
    rw [heq]
    exact h.onRead hread hwrite
  | false =>
    have heq : r.scheduleRead false = { r with read := { r.read with state := .pending }, state := .pending } := by
      simp [RelayHandle.scheduleRead, ReadHandle.schedule, RelayHandle.onRead]
    rw [heq]
    refine ⟨?_, fun heq => absurd (h.closed heq).1 hread, h.quiet, h.drained, ?_, ?_, ?_, nofun⟩
    · have hrest : ReadHandle.rest { r.read with state := .pending } = r.read.rest := by
        simp [ReadHandle.rest, hread]
      change r.write.pushed ++ (r.pendingBuffer ++ ReadHandle.rest { r.read with state := .pending }) = _
      rw [hrest]
      exact h.bytes
    · intro hcompleted
      exact absurd (h.final hcompleted).1 hread
    · simp
    · rintro ⟨-, hpend⟩
      exact hwrite hpend

theorem Relays.written {write : WriteHandle} {completes : Bool} {buffer : Bytes}
    (hwritten : WriteHandle.Written completes write)
    (hpush : write.pushed ++ buffer = r.write.pushed ++ r.pendingBuffer)
    (hfinal : completes = true → r.read.state = .completed ∧ buffer = []) (hread : r.read.state ≠ .pending)
    {state : IOHandleStatus} (hbusy : state = .pending ↔ write.state = .pending)
    (hdone : state = .completed → write.state = .completed) :
    Relays reads { r with write := write, pendingBuffer := buffer, state := state } := by
  have hcompletes (hcompleted : write.state = .completed) : completes = true := by
    cases completes with
    | true => rfl
    | false => exact absurd hcompleted hwritten.not_completed
  refine ⟨?_, fun heq => hfinal (hwritten.completeOnDrained ▸ heq), hwritten.pending, hwritten.drained,
    fun heq => hfinal (hcompletes heq), ?_, ?_, ?_⟩
  · have hbytes := h.bytes
    rw [← List.append_assoc] at hbytes ⊢
    rw [← hbytes]
    change (write.pushed ++ buffer) ++ r.read.rest = _
    rw [hpush]
  · simp [hbusy, hread]
  · rintro ⟨hpend, -⟩
    exact hread hpend
  · intro heq
    have hcompleted := hdone heq
    obtain ⟨hread, hbuf⟩ := hfinal (hcompletes hcompleted)
    refine ⟨hread, hbuf, ?_⟩
    simp [WriteHandle.pendingBytes, hwritten.pending, hwritten.drained (.inr hcompleted)]

theorem Relays.not_busy (hstate : r.state = .standby) :
    r.read.state ≠ .pending ∧ r.write.state ≠ .pending := by
  have hnot : ¬ (r.read.state = .pending ∨ r.write.state = .pending) := by
    rw [← h.busy, hstate]
    nofun
  exact not_or.mp hnot

theorem Relays.drain (hstate : r.state = .standby) (hread : r.read.state = .completed)
    (hbuf : r.pendingBuffer = []) (now : Bool) (count : Nat) : Relays reads (r.drain now count) := by
  obtain ⟨hreading, hwriting⟩ := h.not_busy hstate
  simp only [RelayHandle.drain]
  split
  · rename_i hbytes
    have hstand : r.write.state = .standby := by
      cases hcase : r.write.state with
      | standby => rfl
      | pending => exact absurd hcase hwriting
      | completed =>
        simp [WriteHandle.pendingBytes, h.quiet, h.drained (.inr hcase)] at hbytes
      | idle =>
        simp [WriteHandle.pendingBytes, h.quiet, h.drained (.inl hcase)] at hbytes
    have hready : WriteHandle.state { r.write with completeOnDrained := true } = .standby := hstand
    have hpush : (WriteHandle.schedule { r.write with completeOnDrained := true } now count).pushed = r.write.pushed :=
      WriteHandle.pushed_schedule now count
    exact h.written (WriteHandle.schedule_written hready now count) (by rw [hpush])
      (fun _ => ⟨hread, hbuf⟩) hreading Iff.rfl id
  · rename_i hbytes
    have hzero : r.write.pendingBytes = 0 := Nat.eq_zero_of_not_pos hbytes
    exact ⟨h.bytes, fun _ => ⟨hread, hbuf⟩, h.quiet, h.drained, h.final, by simp [hreading, hwriting],
      h.single, fun _ => ⟨hread, hbuf, hzero⟩⟩

theorem Relays.scheduleWrite (hstate : r.state = .standby) (hbuf : r.pendingBuffer ≠ [])
    (now : Bool) (count : Nat) : Relays reads (r.scheduleWrite now count) := by
  obtain ⟨hreading, hwriting⟩ := h.not_busy hstate
  have hstand : (r.write.push r.pendingBuffer).state = .standby := by
    cases hcase : r.write.state with
    | standby => simp [WriteHandle.push, hcase]
    | pending => exact absurd hcase hwriting
    | completed => exact absurd (h.final hcase).2 hbuf
    | idle => simp [WriteHandle.push, hcase]
  have hwritten := WriteHandle.schedule_written hstand now count
  have hpush : ((r.write.push r.pendingBuffer).schedule now count).pushed ++ [] =
      r.write.pushed ++ r.pendingBuffer := by
    rw [List.append_nil, WriteHandle.pushed_schedule, WriteHandle.pushed_push]
  have hfinal (hcompletes : (r.write.push r.pendingBuffer).completeOnDrained = true) :
      r.read.state = .completed ∧ ([] : Bytes) = [] := absurd (h.closed hcompletes).2 hbuf
  simp only [RelayHandle.scheduleWrite]
  split
  · rename_i hpend
    refine h.written hwritten hpush hfinal hreading (by simp [hpend]) ?_
    intro hdone
    cases hdone
  · rename_i hpend
    rw [hstate]
    refine h.written hwritten hpush hfinal hreading (by simp [hpend]) ?_
    intro hdone
    cases hdone

theorem Relays.collect (hstate : r.state = .pending) (count : Nat) :
    Relays reads (r.collect count) := by
  simp only [RelayHandle.collect]
  split
  · rename_i hread
    have hnot : r.read.state ≠ .completed := by
      rw [hread]
      nofun
    exact h.onRead hnot fun hwrite => h.single ⟨hread, hwrite⟩
  · rename_i hread
    have hwrite : r.write.state = .pending := (h.busy.mp hstate).resolve_left hread
    obtain ⟨hwritten, hdone⟩ := WriteHandle.collect_written h.quiet count
    refine h.written hwritten (by rw [WriteHandle.pushed_collect]) h.closed hread ?_ nofun
    simp [hdone]

theorem Relays.step (e : Event) : Relays reads (step e r) := by
  cases e with
  | schedule now count =>
    simp only [RelayHandle.step]
    split
    · rename_i hstate
      rw [RelayHandle.schedule]
      split
      · rename_i hbuf
        split
        · rename_i hread
          exact h.drain hstate hread hbuf now count
        · rename_i hread
          exact h.scheduleRead hstate hread (h.not_busy hstate).2 now
      · rename_i hbuf
        exact h.scheduleWrite hstate hbuf now count
    · exact h
  | collect count =>
    simp only [RelayHandle.step]
    split
    · rename_i hstate
      exact h.collect hstate count
    · exact h

end

/-- In every run a relay is completed only at the end of the input, with every byte written, and it
waits for the one operation that is under way. -/
theorem relay_delivers (reads : List Bytes) (events : List Event) :
    let r := runSteps RelayHandle.step events (start reads)
    (r.state = .completed → r.read.state = .completed ∧ r.write.written = stream reads) ∧
      ¬ (r.read.state = .pending ∧ r.write.state = .pending) ∧
      (r.state = .pending → (r.getHandle = .read ∧ r.read.state = .pending) ∨
        (r.getHandle = .write ∧ r.write.state = .pending)) := by
  have h : Relays reads (runSteps RelayHandle.step events (start reads)) :=
    inv_runSteps_of_step (fun e _ h => h.step e) (Relays.start reads)
  refine ⟨?_, h.single, ?_⟩
  · intro hcompleted
    obtain ⟨hread, hbuffer, hzero⟩ := h.done hcompleted
    refine ⟨hread, ?_⟩
    have hbytes := h.bytes
    rw [hbuffer, ReadHandle.rest, if_pos hread, List.append_nil, List.append_nil,
      ← WriteHandle.written_eq_pushed_iff.mpr hzero] at hbytes
    exact hbytes
  · intro hpending
    rw [RelayHandle.getHandle]
    split
    · rename_i hread
      exact .inl ⟨rfl, hread⟩
    · rename_i hread
      exact .inr ⟨rfl, (h.busy.mp hpending).resolve_left hread⟩

end RelayHandle

end WslPlus.HandleIo

import WslPlus.Lib.CString
import Mathlib.Algebra.GroupWithZero.Nat

/-!
# Writing to a handle

`WriteHandle` keeps the bytes of the write that is under way and, apart from them, the
bytes that were pushed since. A write may take only a part of what it is given. No
operation loses a byte: what was written and what is still kept make up what was pushed.
-/

namespace WslPlus.HandleIo

open List

inductive IOHandleStatus where
  | standby
  | pending
  | completed
  | idle
  deriving DecidableEq

/-- With `written`, what the handle has taken so far. -/
structure WriteHandle where
  state : IOHandleStatus := .idle
  buffer : Bytes := []
  completeOnDrained : Bool := false
  pending : Bytes := []
  written : Bytes := []

namespace WriteHandle

variable {w : WriteHandle}

def drainedState (w : WriteHandle) : IOHandleStatus :=
  if w.completeOnDrained then .completed else if w.pending = [] then .idle else .standby

/-- A write is done. It was given the buffer, with the size as a DWORD, and took `count`
bytes more than one, or all if these are fewer. -/
def consume (w : WriteHandle) (count : Nat) : WriteHandle :=
  let bytesWritten := min (count + 1) (w.buffer.length % 2 ^ 32)
  let w := { w with
    written := w.written ++ w.buffer.take bytesWritten
    buffer := w.buffer.drop bytesWritten }
  if w.buffer = [] then { w with state := w.drainedState } else w

/-- The write is done at once (`now`) or later. -/
def schedule (w : WriteHandle) (now : Bool) (count : Nat) : WriteHandle :=
  let w := { w with buffer := w.buffer ++ w.pending, pending := [] }
  if w.buffer = [] then { w with state := w.drainedState }
  else if now then w.consume count
  else { w with state := .pending }

def collect (w : WriteHandle) (count : Nat) : WriteHandle := { w with state := .standby }.consume count

def push (w : WriteHandle) (content : Bytes) : WriteHandle :=
  { w with
    pending := w.pending ++ content
    state := if w.state = .idle then .standby else w.state }

def pendingBytes (w : WriteHandle) : Nat := w.pending.length + w.buffer.length

def pushed (w : WriteHandle) : Bytes := w.written ++ (w.buffer ++ w.pending)

@[simp]
theorem pushed_push (content : Bytes) : (w.push content).pushed = w.pushed ++ content := by
  simp [push, pushed]

@[simp]
theorem pushed_consume (count : Nat) : (w.consume count).pushed = w.pushed := by
  have htake : ∀ n, w.buffer.take n ++ (w.buffer.drop n ++ w.pending) = w.buffer ++ w.pending := by
    intro n
    rw [← append_assoc, take_append_drop]
  simp only [consume]
  split <;> simp only [pushed, append_assoc, htake]

@[simp]
theorem pushed_schedule (now : Bool) (count : Nat) : (w.schedule now count).pushed = w.pushed := by
  simp only [schedule]
  split
  · simp only [pushed, append_nil]
  · split
    · rw [pushed_consume]
      simp only [pushed, append_nil]
    · simp only [pushed, append_nil]

@[simp]
theorem pushed_collect (count : Nat) : (w.collect count).pushed = w.pushed := pushed_consume count

theorem written_eq_pushed_iff : w.written = w.pushed ↔ w.pendingBytes = 0 := by
  unfold pushed pendingBytes
  constructor
  · intro heq
    have hlen := congrArg List.length heq
    simp only [length_append] at hlen
    omega
  · intro hzero
    have hpend : w.pending = [] := length_eq_zero_iff.mp (by omega)
    have hbuf : w.buffer = [] := length_eq_zero_iff.mp (by omega)
    simp [hpend, hbuf]

/-- A writer that is used again, between two calls: nothing waits outside the buffer, and
an idle one has written everything. -/
structure Reusable (w : WriteHandle) : Prop where
  completeOnDrained : w.completeOnDrained = false
  pending : w.pending = []
  buffer : w.state = .idle → w.buffer = []
  not_completed : w.state ≠ .completed

namespace Reusable

section

variable (hw : Reusable w)
include hw

theorem drainedState : w.drainedState = .idle := by
  simp [WriteHandle.drainedState, hw.completeOnDrained, hw.pending]

theorem consume (hstate : w.state = .standby) (count : Nat) :
    Reusable (w.consume count) ∧ (w.consume count).state ≠ .pending := by
  have hdrained := hw.drainedState
  simp only [WriteHandle.consume]
  split
  · rename_i hnil
    have hidle : WriteHandle.drainedState { w with
        written := w.written ++ w.buffer.take (min (count + 1) (w.buffer.length % 2 ^ 32))
        buffer := w.buffer.drop (min (count + 1) (w.buffer.length % 2 ^ 32)) } = .idle := hdrained
    rw [hidle]
    exact ⟨⟨hw.completeOnDrained, hw.pending, fun _ => hnil, by simp⟩, by simp⟩
  · refine ⟨⟨hw.completeOnDrained, hw.pending, ?_, ?_⟩, ?_⟩ <;> simp [hstate]

theorem collect (count : Nat) :
    Reusable (w.collect count) ∧ (w.collect count).state ≠ .pending := by
  have hstand : Reusable { w with state := .standby } :=
    ⟨hw.completeOnDrained, hw.pending, by simp, by simp⟩
  exact hstand.consume rfl count

theorem push_state (hstate : w.state ≠ .pending) (content : Bytes) :
    (w.push content).state = .standby := by
  have hdone := hw.not_completed
  unfold push
  cases hcase : w.state <;> simp_all

theorem schedule_push (hstate : w.state ≠ .pending) (content : Bytes) (now : Bool)
    (count : Nat) : Reusable ((w.push content).schedule now count) := by
  have hstand := hw.push_state hstate content
  have hmoved : Reusable { w.push content with
      buffer := w.buffer ++ (w.pending ++ content), pending := [] } := by
    refine ⟨hw.completeOnDrained, rfl, ?_, ?_⟩ <;> simp [hstand]
  simp only [schedule]
  split
  · rename_i hnil
    have hidle := hmoved.drainedState
    refine ⟨hw.completeOnDrained, rfl, fun _ => hnil, ?_⟩
    intro hdone
    exact absurd (hidle.symm.trans hdone) (by decide)
  · split
    · exact (hmoved.consume hstand count).1
    · exact ⟨hw.completeOnDrained, rfl, by simp, by simp⟩

end

end Reusable

end WriteHandle

end WslPlus.HandleIo

import Mathlib.Data.List.Infix
import Mathlib.Data.List.Nodup
import WslPlus.Lib.Transition

/-!
# Two byte streams in opposite directions

A relay of a connection has two sides. The stream of a side is what arrives from it and is to be
written to the other one. A stream ends by itself: its end of input is passed on by shutting down the
writes of the other side, and the other stream goes on.
-/

namespace WslPlus.Network

open List

inductive Side where
  | left
  | right
  deriving DecidableEq

structure Stream where
  arrived : List UInt8 := []
  waiting : List UInt8 := []
  closed : Bool := false
  written : List UInt8 := []
  shut : Bool := false
  ended : Bool := false

def Side.other : Side → Side
  | .left => .right
  | .right => .left

namespace Stream

def arrives (bytes : List UInt8) (s : Stream) : Stream :=
  if s.closed then s else { s with arrived := s.arrived ++ bytes, waiting := s.waiting ++ bytes }

def closes (s : Stream) : Stream := { s with closed := true }

def readable (s : Stream) : Bool := !s.waiting.isEmpty || s.closed

def chunk (bufferSize count : Nat) (s : Stream) : List UInt8 := s.waiting.take (min (count + 1) bufferSize)

def rest (bufferSize count : Nat) (s : Stream) : List UInt8 := s.waiting.drop (min (count + 1) bufferSize)

def takes (bufferSize count : Nat) (s : Stream) : Stream := { s with waiting := s.rest bufferSize count }

def writes (bytes : List UInt8) (s : Stream) : Stream := { s with written := s.written ++ bytes }

def ends (s : Stream) : Stream := { s with ended := true, shut := true }

def load (s : Stream) : Nat := s.waiting.length + if s.ended then 0 else 1

/-- Nothing is lost: what was read and is not written yet is held. -/
structure Intact (held : List UInt8) (s : Stream) : Prop where
  order : s.written ++ held ++ s.waiting = s.arrived
  ended : s.ended = true → s.closed = true ∧ held = [] ∧ s.waiting = []
  shut : s.shut = s.ended

end Stream

structure Sides (α : Type) where
  left : α
  right : α

namespace Sides

variable {α : Type}

def get (sides : Sides α) : Side → α
  | .left => sides.left
  | .right => sides.right

def set (sides : Sides α) (side : Side) (a : α) : Sides α :=
  match side with
  | .left => { sides with left := a }
  | .right => { sides with right := a }

theorem get_set (sides : Sides α) (side : Side) (a : α) : (sides.set side a).get side = a := by
  cases side <;> rfl

theorem set_get (sides : Sides α) (side : Side) : sides.set side (sides.get side) = sides := by
  cases side <;> rfl

theorem get_set_ne {side side' : Side} (hne : side' ≠ side) (sides : Sides α) (a : α) :
    (sides.set side a).get side' = sides.get side' := by
  cases side <;> cases side' <;> first | rfl | exact absurd rfl hne

theorem forall_set {P : Side → α → Prop} {sides : Sides α} {side : Side} {a : α}
    (h : ∀ side', P side' (sides.get side')) (ha : P side a) (side' : Side) :
    P side' ((sides.set side a).get side') := by
  by_cases heq : side' = side
  · subst heq
    rw [get_set]
    exact ha
  · rw [get_set_ne heq]
    exact h side'

theorem forall_set_set {β : Type} {P : Side → α → β → Prop} {sides : Sides α} {sides' : Sides β} {side : Side}
    {a : α} {b : β} (h : ∀ side', P side' (sides.get side') (sides'.get side')) (hab : P side a b)
    (side' : Side) :
    P side' ((sides.set side a).get side') ((sides'.set side b).get side') := by
  by_cases heq : side' = side
  · subst heq
    rw [get_set, get_set]
    exact hab
  · rw [get_set_ne heq, get_set_ne heq]
    exact h side'

def total (f : α → Nat) (sides : Sides α) : Nat := f sides.left + f sides.right

theorem total_set (f : α → Nat) (sides : Sides α) (side : Side) (a : α) :
    (sides.set side a).total f + f (sides.get side) = sides.total f + f a := by
  cases side <;> simp only [total, set, get] <;> omega

end Sides

abbrev Streams := Sides Stream

structure HalfCloses (streams : Streams) (held : Side → List UInt8) (stopped failed : Bool) : Prop where
  inOrder : ∀ side, (streams.get side).written <+: (streams.get side).arrived
  complete : failed = false → ∀ side,
    (streams.get side).written ++ held side ++ (streams.get side).waiting = (streams.get side).arrived
  /-- A stream ends after everything was written, and its end is passed on. -/
  passedOn : failed = false → ∀ side, (streams.get side).ended = true →
    (streams.get side).closed = true ∧ (streams.get side).written = (streams.get side).arrived ∧
      (streams.get side).shut = true
  shuts : failed = false → ∀ side, (streams.get side).shut = true → (streams.get side).ended = true
  stops : stopped = true → failed = false → ∀ side, (streams.get side).ended = true

def Drained (streams : Streams) (held : Side → List UInt8) (stopped : Bool) : Prop :=
  stopped = true ∨ ∀ side, (streams.get side).ended = true ∨
    ((streams.get side).closed = false ∧ (streams.get side).waiting = [] ∧ held side = [])

namespace Stream

variable {s : Stream} {held : List UInt8}

theorem ended_arrives (bytes : List UInt8) (s : Stream) : (s.arrives bytes).ended = s.ended := by
  rw [arrives]
  split <;> rfl

theorem isPrefix_arrives (bytes : List UInt8) (h : s.written <+: s.arrived) :
    (s.arrives bytes).written <+: (s.arrives bytes).arrived := by
  rw [arrives]
  split
  · exact h
  · exact h.trans (prefix_append s.arrived bytes)

theorem readable_arrives (bytes : List UInt8) (hreadable : s.readable = true) :
    (s.arrives bytes).readable = true := by
  rw [arrives]
  split
  · exact hreadable
  · rw [readable, Bool.or_eq_true] at hreadable ⊢
    apply hreadable.imp_left
    cases s.waiting with
    | nil => rintro ⟨⟩
    | cons => exact fun _ => rfl

theorem chunk_append_rest (bufferSize count : Nat) (s : Stream) :
    s.chunk bufferSize count ++ s.rest bufferSize count = s.waiting := take_append_drop _ _

theorem load_takes_lt {bufferSize : Nat} (hsize : 0 < bufferSize) (count : Nat) (hwait : s.waiting ≠ []) :
    (s.takes bufferSize count).load < s.load := by
  have := length_pos_iff.mpr hwait
  apply Nat.add_lt_add_right
  rw [takes, rest, List.length_drop]
  omega

theorem load_writes (bytes : List UInt8) (s : Stream) : (s.writes bytes).load = s.load := rfl

theorem load_ends (hended : s.ended = false) : s.ends.load + 1 = s.load := by
  rw [load, load, hended]
  rfl

theorem chunk_ne_nil {bufferSize : Nat} (hsize : 0 < bufferSize) (count : Nat) (hwait : s.waiting ≠ []) :
    s.chunk bufferSize count ≠ [] := by
  have := length_pos_iff.mpr hwait
  rw [← length_pos_iff, chunk, length_take]
  omega

namespace Intact

theorem initial : Intact [] {} := ⟨rfl, fun h => absurd h Bool.false_ne_true, rfl⟩

theorem arrives (h : s.Intact held) (bytes : List UInt8) : (s.arrives bytes).Intact held := by
  rw [Stream.arrives]
  split
  · exact h
  · rename_i hclose
    refine ⟨?_, ?_, h.shut⟩
    · show s.written ++ held ++ (s.waiting ++ bytes) = s.arrived ++ bytes
      rw [← append_assoc, h.order]
    · intro hended
      exact absurd (h.ended hended).1 hclose

theorem closes (h : s.Intact held) : s.closes.Intact held :=
  ⟨h.order, fun hended => ⟨rfl, (h.ended hended).2⟩, h.shut⟩

theorem takes (h : s.Intact []) (hended : s.ended = false) (bufferSize count : Nat) :
    (s.takes bufferSize count).Intact (s.chunk bufferSize count) := by
  refine ⟨?_, ?_, h.shut⟩
  · show s.written ++ s.chunk bufferSize count ++ s.rest bufferSize count = s.arrived
    rw [append_assoc, chunk_append_rest, ← h.order, append_nil]
  · intro hended'
    exact absurd (hended.symm.trans hended') Bool.false_ne_true

theorem writes (h : s.Intact held) (hended : s.ended = false) : (s.writes held).Intact [] := by
  refine ⟨?_, ?_, h.shut⟩
  · show s.written ++ held ++ [] ++ s.waiting = s.arrived
    rw [append_nil, h.order]
  · intro hended'
    exact absurd (hended.symm.trans hended') Bool.false_ne_true

theorem ends (h : s.Intact []) (hclose : s.closed = true) (hwait : s.waiting = []) : s.ends.Intact [] :=
  ⟨h.order, fun _ => ⟨hclose, rfl, hwait⟩, rfl⟩

theorem cut_isPrefix (h : s.Intact held) (written : Nat) :
    (s.writes (held.take written)).written <+: s.arrived := by
  refine ⟨held.drop written ++ s.waiting, ?_⟩
  rw [← h.order, Stream.writes, append_assoc, ← append_assoc (held.take written),
    take_append_drop, append_assoc]

theorem written_isPrefix (h : s.Intact held) : s.written <+: s.arrived :=
  ⟨held ++ s.waiting, by rw [← append_assoc, h.order]⟩

end Intact

end Stream

theorem ended_of_exit {streams : Streams} (hexits : (streams.left.ended || streams.right.ended) = true)
    (heq : streams.left.ended = streams.right.ended) (side : Side) : (streams.get side).ended = true := by
  rw [heq, Bool.or_self] at hexits
  cases side with
  | left => exact heq.trans hexits
  | right => exact hexits

theorem HalfCloses.of_intact {streams : Streams} {held : Side → List UInt8} {stopped failed : Bool}
    (horder : ∀ side, (streams.get side).written <+: (streams.get side).arrived)
    (hintact : failed = false → ∀ side, (streams.get side).Intact (held side))
    (hstops : stopped = true → failed = false → ∀ side, (streams.get side).ended = true) :
    HalfCloses streams held stopped failed := by
  refine ⟨horder, ?_, ?_, ?_, hstops⟩
  · intro hfail side
    exact (hintact hfail side).order
  · intro hfail side hended
    have hside := hintact hfail side
    obtain ⟨hclose, hheld, hwait⟩ := hside.ended hended
    refine ⟨hclose, ?_, ?_⟩
    · rw [← hside.order, hheld, hwait, append_nil, append_nil]
    · rw [hside.shut, hended]
  · intro hfail side hshut
    rw [← (hintact hfail side).shut, hshut]

end WslPlus.Network

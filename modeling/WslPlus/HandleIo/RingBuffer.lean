import Mathlib.Data.List.DropRight
import WslPlus.Lib.CString

/-!
# The ring buffer of the guest's log

`RingBuffer` keeps the latest bytes of the kernel log. Its vector grows up to the capacity; from
then on new bytes go over the oldest ones.
-/

namespace WslPlus.HandleIo

open List

/-- The offset is where the next byte goes. Before the vector is full it is its end. -/
structure RingBuffer where
  buffer : Bytes
  maxSize : Nat
  offset : Nat
  inside : offset ≤ buffer.length
  fits : buffer.length ≤ maxSize
  filled : offset = buffer.length ∨ buffer.length = maxSize

/-- `gsl::copy` into a span that begins at `position`. -/
def copyAt (source target : Bytes) (position : Nat) : Bytes :=
  target.take position ++ source ++ target.drop (position + source.length)

theorem length_copyAt (source target : Bytes) (position : Nat) (h : position + source.length ≤ target.length) :
    (copyAt source target position).length = target.length := by
  simp only [copyAt, length_append, length_take, List.length_drop]
  omega

theorem rtake_append_rtake (before data : Bytes) (n : Nat) :
    (before ++ data.rtake n).rtake n = (before ++ data).rtake n := by
  simp only [rtake_eq_reverse_take_reverse, reverse_append, reverse_reverse]
  rw [take_append, take_append, take_take, Nat.min_self, length_take]
  congr 3
  omega

theorem rtake_rtake_append (before data : Bytes) (n : Nat) :
    (before.rtake n ++ data).rtake n = (before ++ data).rtake n := by
  simp only [rtake_eq_reverse_take_reverse, reverse_append, reverse_reverse]
  rw [take_append, take_append, take_take, Nat.min_eq_left (Nat.sub_le _ _)]

namespace RingBuffer

def new (size : Nat) : RingBuffer :=
  ⟨[], size, 0, Nat.le_refl _, Nat.zero_le _, .inl rfl⟩

def resized (b : RingBuffer) (size : Nat) : Bytes :=
  if size > b.buffer.length then b.buffer ++ List.replicate (size - b.buffer.length) 0 else b.buffer

def remaining (b : RingBuffer) (data : Bytes) : Bytes :=
  if data.length > b.maxSize then data.drop (data.length - b.maxSize) else data

def bytesAtEnd (b : RingBuffer) (data : Bytes) : Nat :=
  min (b.maxSize - b.offset) (b.remaining data).length

def copied (b : RingBuffer) (data : Bytes) : Bytes :=
  copyAt ((b.remaining data).take (b.bytesAtEnd data)) (b.resized (b.offset + b.bytesAtEnd data)) b.offset

theorem remaining_eq (b : RingBuffer) (data : Bytes) : b.remaining data = data.rtake b.maxSize := by
  unfold remaining List.rtake
  split
  · rfl
  · rw [Nat.sub_eq_zero_of_le (by omega), drop_zero]

theorem copied_eq (b : RingBuffer) (data : Bytes) : b.copied data =
    b.buffer.take b.offset ++ (b.remaining data).take (b.bytesAtEnd data)
      ++ b.buffer.drop (b.offset + b.bytesAtEnd data) := by
  have hlen : ((b.remaining data).take (b.bytesAtEnd data)).length = b.bytesAtEnd data := by
    rw [length_take]
    exact Nat.min_eq_left (Nat.min_le_right _ _)
  unfold copied copyAt resized
  rw [hlen]
  split
  · rw [take_append_of_le_length b.inside, drop_eq_nil_of_le, drop_eq_nil_of_le]
    · omega
    · rw [length_append, length_replicate]
      omega
  · rfl

theorem length_copied (b : RingBuffer) (data : Bytes) :
    (b.copied data).length = max b.buffer.length (b.offset + b.bytesAtEnd data) := by
  have hle : b.bytesAtEnd data ≤ (b.remaining data).length := Nat.min_le_right _ _
  have h := b.inside
  rw [copied_eq]
  simp only [length_append, length_take, List.length_drop]
  omega

theorem length_remaining_le (b : RingBuffer) (data : Bytes) : (b.remaining data).length ≤ b.maxSize := by
  rw [remaining_eq, List.rtake, List.length_drop]
  omega

def insert (b : RingBuffer) (data : Bytes) : RingBuffer :=
  let rest := (b.remaining data).drop (b.bytesAtEnd data)
  have hrest : rest.length = (b.remaining data).length - b.bytesAtEnd data := List.length_drop
  have hend : b.bytesAtEnd data = min (b.maxSize - b.offset) (b.remaining data).length := rfl
  have hlength := b.length_copied data
  have hin := b.inside
  have hfits := b.fits
  have hfilled := b.filled
  have hmax := b.length_remaining_le data
  if h : rest ≠ [] then
    have hpos : 0 < rest.length := length_pos_of_ne_nil h
    have hcopy := length_copyAt rest (b.copied data) 0 (by omega)
    { buffer := copyAt rest (b.copied data) 0
      maxSize := b.maxSize
      offset := rest.length
      inside := by omega
      fits := by omega
      filled := by omega }
  else
    { buffer := b.copied data
      maxSize := b.maxSize
      offset := b.offset + b.bytesAtEnd data
      inside := by omega
      fits := by omega
      filled := by omega }

def contents (b : RingBuffer) : Bytes × Bytes := (b.buffer.drop b.offset, b.buffer.take b.offset)

def get (b : RingBuffer) : Bytes := b.contents.1 ++ b.contents.2

@[simp] theorem insert_maxSize (b : RingBuffer) (data : Bytes) : (b.insert data).maxSize = b.maxSize := by
  unfold insert
  dsimp only
  split <;> rfl

/-- One insertion. The cases are those of the source: the data ends before the end of the
storage, or goes on at its beginning. -/
theorem get_insert (b : RingBuffer) (data : Bytes) : (b.insert data).get = (b.get ++ data).rtake b.maxSize := by
  have hin := b.inside
  have hfits := b.fits
  have hfilled := b.filled
  have hmax := b.length_remaining_le data
  have hend : b.bytesAtEnd data = min (b.maxSize - b.offset) (b.remaining data).length := rfl
  have htake : (b.buffer.take b.offset).length = b.offset := length_take_of_le hin
  rw [← rtake_append_rtake, ← remaining_eq b data, List.rtake, show b.get = b.buffer.drop b.offset ++ b.buffer.take b.offset from rfl,
    append_assoc, drop_append]
  simp only [length_append, List.length_drop, htake]
  unfold insert
  dsimp only
  split
  case isTrue h =>
    have hpos := length_pos_of_ne_nil h
    rw [List.length_drop] at hpos
    have hroom : b.bytesAtEnd data = b.maxSize - b.offset := by omega
    have hnil : b.buffer.drop (b.offset + b.bytesAtEnd data) = [] := drop_eq_nil_of_le (by omega)
    have hold : b.buffer.length - b.offset + (b.offset + (b.remaining data).length) - b.maxSize
        = b.buffer.length - b.offset + ((b.remaining data).length - b.bytesAtEnd data) := by omega
    have hover : (b.remaining data).length - b.bytesAtEnd data ≤ (b.buffer.take b.offset).length := by omega
    have hgone : b.buffer.drop (b.offset + (b.buffer.length - b.offset
        + ((b.remaining data).length - b.bytesAtEnd data))) = [] := drop_eq_nil_of_le (by omega)
    simp only [get, contents, copyAt, take_zero, nil_append, Nat.zero_add, take_left', drop_left']
    rw [hold, Nat.add_sub_cancel_left, drop_append_of_le_length hover, drop_drop, hgone, nil_append,
      copied_eq, hnil, append_nil, List.length_drop, drop_append_of_le_length hover, append_assoc,
      take_append_drop]
  case isFalse h =>
    have hnil : (b.remaining data).drop (b.bytesAtEnd data) = [] := by
      by_contra hne
      exact h hne
    have hall : b.bytesAtEnd data = (b.remaining data).length := by
      have := drop_eq_nil_iff.mp hnil
      omega
    have hlen : (b.buffer.take b.offset ++ b.remaining data).length = b.offset + (b.remaining data).length := by
      rw [length_append, htake]
    have hkept : b.buffer.length - b.offset + (b.offset + (b.remaining data).length) - b.maxSize
        - (b.buffer.length - b.offset) = 0 := by omega
    simp only [get, contents]
    rw [copied_eq, hall, take_length, drop_left' hlen, take_left' hlen, drop_drop, hkept,
      drop_zero]
    obtain hpart | hfull := hfilled
    · rw [drop_eq_nil_of_le (by omega), drop_eq_nil_of_le (by omega)]
    · congr 2
      omega

theorem get_foldl_insert (size : Nat) (inserted : List Bytes) :
    (inserted.foldl insert (new size)).maxSize = size ∧
      (inserted.foldl insert (new size)).get = inserted.flatten.rtake size := by
  induction inserted using List.reverseRecOn with
  | nil => exact ⟨rfl, (rtake_nil size).symm⟩
  | append_singleton inserted data ih =>
    rw [foldl_append, flatten_append, flatten_singleton]
    change (insert _ data).maxSize = _ ∧ (insert _ data).get = _
    rw [insert_maxSize, get_insert, ih.1, ih.2, rtake_rtake_append]
    exact ⟨rfl, rfl⟩

/-- `Get` returns the latest bytes of everything that was inserted, as many as the capacity allows. -/
theorem ring_buffer_keeps_latest (size : Nat) (inserted : List Bytes) :
    (inserted.foldl insert (new size)).get
      = inserted.flatten.drop (inserted.flatten.length - min size inserted.flatten.length) := by
  rw [(get_foldl_insert size inserted).2, List.rtake]
  congr 1
  omega

end RingBuffer

end WslPlus.HandleIo

import Mathlib.Data.List.Basic

/-!
# A window on a buffer

A window is a part of a buffer of fixed length. It can be moved to the front of the
buffer, extended behind its end and shortened from its start. None of these changes
what is left of its data.
-/

namespace WslPlus

open List

structure Window (α : Type) where
  buffer : List α
  start : Nat
  count : Nat
  inside : start + count ≤ buffer.length

namespace Window

variable {α : Type}

/-- The elements from `pos` on are replaced. -/
def overwrite (buffer : List α) (pos : Nat) (xs : List α) : List α :=
  buffer.take pos ++ xs ++ buffer.drop (pos + xs.length)

theorem length_overwrite {buffer xs : List α} {pos : Nat} (h : pos + xs.length ≤ buffer.length) :
    (overwrite buffer pos xs).length = buffer.length := by
  simp only [overwrite, length_append, length_take, List.length_drop]
  omega

theorem take_overwrite {buffer xs : List α} {pos : Nat} (h : pos + xs.length ≤ buffer.length) :
    (overwrite buffer pos xs).take (pos + xs.length) = buffer.take pos ++ xs := by
  have hlen : (buffer.take pos ++ xs).length = pos + xs.length := by
    rw [length_append, length_take]
    omega
  rw [overwrite, ← hlen]
  exact take_left

def data (w : Window α) : List α := (w.buffer.drop w.start).take w.count

theorem length_data (w : Window α) : w.data.length = w.count := by
  have hinside := w.inside
  rw [data, length_take, List.length_drop]
  omega

def space (w : Window α) : Nat := w.buffer.length - (w.start + w.count)

def moveToFront (w : Window α) : Window α where
  buffer := if 0 < w.count ∧ w.start ≠ 0 then overwrite w.buffer 0 w.data else w.buffer
  start := 0
  count := w.count
  inside := by
    have hinside := w.inside
    have hdata := w.length_data
    split
    · rw [length_overwrite (by omega)]
      omega
    · omega

theorem length_moveToFront (w : Window α) : w.moveToFront.buffer.length = w.buffer.length := by
  have hinside := w.inside
  have hdata := w.length_data
  simp only [moveToFront]
  split
  · exact length_overwrite (by omega)
  · rfl

theorem data_moveToFront (w : Window α) : w.moveToFront.data = w.data := by
  have hinside := w.inside
  have hdata := w.length_data
  change ((if 0 < w.count ∧ w.start ≠ 0 then overwrite w.buffer 0 w.data else w.buffer).drop 0).take w.count = _
  rw [drop_zero]
  split
  · have htake : (overwrite w.buffer 0 w.data).take (0 + w.data.length) = w.buffer.take 0 ++ w.data :=
      take_overwrite (by omega)
    rwa [hdata, Nat.zero_add, take_zero, nil_append] at htake
  · rename_i h
    by_cases hcount : w.count = 0
    · rw [data, hcount, take_zero, take_zero]
    · have hstart : w.start = 0 := by
        by_contra hne
        exact h ⟨by omega, hne⟩
      rw [data, hstart, drop_zero]

def extend (w : Window α) (xs : List α) (h : xs.length ≤ w.space) : Window α where
  buffer := overwrite w.buffer (w.start + w.count) xs
  start := w.start
  count := w.count + xs.length
  inside := by
    have hinside := w.inside
    rw [space] at h
    rw [length_overwrite (by omega)]
    omega

theorem length_extend (w : Window α) (xs : List α) (h : xs.length ≤ w.space) :
    (w.extend xs h).buffer.length = w.buffer.length := by
  have hinside := w.inside
  rw [space] at h
  exact length_overwrite (by omega)

theorem data_extend (w : Window α) (xs : List α) (h : xs.length ≤ w.space) :
    (w.extend xs h).data = w.data ++ xs := by
  have hinside := w.inside
  rw [space] at h
  have htake : (overwrite w.buffer (w.start + w.count) xs).take (w.start + w.count + xs.length) =
      w.buffer.take (w.start + w.count) ++ xs := take_overwrite (by omega)
  change ((overwrite w.buffer (w.start + w.count) xs).drop w.start).take (w.count + xs.length) = _
  rw [take_drop, ← Nat.add_assoc, htake, drop_append_of_le_length, data, take_drop]
  rw [length_take]
  omega

def skip (w : Window α) (n : Nat) (h : n ≤ w.count) : Window α where
  buffer := w.buffer
  start := w.start + n
  count := w.count - n
  inside := by
    have hinside := w.inside
    omega

theorem data_skip (w : Window α) (n : Nat) (h : n ≤ w.count) : (w.skip n h).data = w.data.drop n := by
  rw [data, data, drop_take, drop_drop]
  rfl

end Window

end WslPlus

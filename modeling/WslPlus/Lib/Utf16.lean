import Mathlib.Data.List.Basic

/-!
# From UTF-8 to UTF-16

How many replacement characters a decoder gives for a sequence that is cut short is its
own choice, so decoding is a relation here. What every choice has in common: a code unit
never comes from less than one byte, and only ASCII and the replacement character come
from a single one.
-/

namespace WslPlus.Utf16

open List

def isLead (b : UInt8) : Bool := 0xC2 ≤ b && b ≤ 0xF4

def isContinuation (b : UInt8) : Bool := 0x80 ≤ b && b ≤ 0xBF

def replacement : UInt16 := 0xFFFD

inductive Decodes : List UInt8 → List UInt16 → Prop where
  | nil : Decodes [] []
  | ascii {b : UInt8} {s : List UInt8} {u : List UInt16} (hb : b < 128) (h : Decodes s u) :
      Decodes (b :: s) (b.toUInt16 :: u)
  /-- A character of two bytes or more: four give two code units, fewer give one. -/
  | sequence {b : UInt8} {more s : List UInt8} {units u : List UInt16} (hb : isLead b = true)
      (hmore : ∀ c ∈ more, isContinuation c = true) (hunits : units.length ≤ more.length)
      (h : Decodes s u) : Decodes (b :: (more ++ s)) (units ++ u)
  /-- A byte that begins no character, with the part of a sequence that it does begin. -/
  | illFormed {b : UInt8} {more s : List UInt8} {u : List UInt16} (hb : 128 ≤ b)
      (hmore : isLead b = false → more = []) (h : Decodes s u) :
      Decodes (b :: (more ++ s)) (replacement :: u)

variable {s : List UInt8} {u : List UInt16}

theorem Decodes.length_le (h : Decodes s u) : u.length ≤ s.length := by
  induction h with
  | nil => exact Nat.le_refl _
  | ascii hb h ih => exact Nat.succ_le_succ ih
  | sequence hb hmore hunits h ih =>
    simp only [length_append, length_cons]
    omega
  | illFormed hb hmore h ih =>
    simp only [length_append, length_cons]
    omega

theorem toUInt16_lt {b : UInt8} (hb : b < 128) : b.toUInt16 < 128 := by
  rw [UInt16.lt_iff_toNat_lt, UInt8.toNat_toUInt16]
  exact UInt8.lt_iff_toNat_lt.mp hb

theorem Decodes.mem_of_length_eq (h : Decodes s u) (hlen : u.length = s.length) :
    ∀ c ∈ u, c < 128 ∨ c = replacement := by
  induction h with
  | nil => simp
  | ascii hb h ih =>
    intro c hc
    rcases mem_cons.mp hc with rfl | hc
    · exact .inl (toUInt16_lt hb)
    · exact ih (by simpa using hlen) c hc
  | sequence hb hmore hunits h ih =>
    have hle := h.length_le
    simp only [length_append, length_cons] at hlen
    omega
  | @illFormed b more s u hb hmore h ih =>
    have hle := h.length_le
    simp only [length_append, length_cons] at hlen
    intro c hc
    rcases mem_cons.mp hc with rfl | hc
    · exact .inr rfl
    · exact ih (by omega) c hc

def isSingle (b : UInt8) : Bool := b < 128 || 0xF4 < b

def unitOf (b : UInt8) : UInt16 := if b < 128 then b.toUInt16 else replacement

theorem Decodes.eq_map (h : Decodes s u) (hs : ∀ b ∈ s, isSingle b = true) : u = s.map unitOf := by
  induction h with
  | nil => rfl
  | ascii hb h ih =>
    rw [map_cons, unitOf, if_pos hb, ih fun b hb => hs b (mem_cons_of_mem _ hb)]
  | @sequence b more s units u hb hmore hunits h ih =>
    have hb' := hs b mem_cons_self
    simp only [isSingle, isLead, Bool.or_eq_true, Bool.and_eq_true, decide_eq_true_eq,
      UInt8.lt_iff_toNat_lt, UInt8.le_iff_toNat_le, UInt8.reduceToNat] at hb' hb
    omega
  | @illFormed b more s u hb hmore h ih =>
    have hb' := hs b mem_cons_self
    have hnat : 128 ≤ b.toNat := UInt8.le_iff_toNat_le.mp hb
    have hlead : isLead b = false := by
      simp only [isSingle, Bool.or_eq_true, decide_eq_true_eq, UInt8.lt_iff_toNat_lt,
        UInt8.reduceToNat] at hb'
      simp only [isLead, Bool.and_eq_false_iff, decide_eq_false_iff_not, UInt8.le_iff_toNat_le,
        UInt8.reduceToNat]
      omega
    obtain rfl := hmore hlead
    have hnot : ¬ b < 128 := by
      rw [UInt8.lt_iff_toNat_lt]
      exact Nat.not_lt.mpr hnat
    rw [nil_append, map_cons, unitOf, if_neg hnot,
      ih fun b hb => hs b (mem_cons_of_mem _ hb)]

theorem decodes_unitOf (s : List UInt8) : Decodes s (s.map unitOf) := by
  induction s with
  | nil => exact .nil
  | cons b s ih =>
    rw [map_cons, unitOf]
    split
    · rename_i hb
      exact .ascii hb ih
    · rename_i hb
      have hle : 128 ≤ b := by
        rw [UInt8.lt_iff_toNat_lt] at hb
        exact UInt8.le_iff_toNat_le.mpr (Nat.not_lt.mp hb)
      have hmore : isLead b = false → ([] : List UInt8) = [] := fun _ => rfl
      have hdecodes := Decodes.illFormed hle hmore ih
      exact hdecodes

end WslPlus.Utf16

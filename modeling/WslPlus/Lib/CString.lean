import WslPlus.Lib.Window
import Mathlib.Data.List.TakeWhile

/-!
# C strings

A text is the list of its bytes. A C string is the part of a buffer in front of its
first NUL. A string object keeps its own length, so that a function that edits its data
in place changes what it holds and never how long it is.
-/

namespace WslPlus

open List

abbrev Bytes := List UInt8

namespace CString

def cString (buffer : Bytes) : Bytes := buffer.takeWhile (· ≠ 0)

def editData (edit : Bytes → Bytes) (text : Bytes) : Bytes := (edit (text ++ [0])).take text.length

theorem cString_append_zero {text : Bytes} (h : 0 ∉ text) (rest : Bytes) :
    cString (text ++ 0 :: rest) = text := by
  have hall : ∀ b ∈ text, (decide (b ≠ 0)) = true := by
    intro b hb
    apply decide_eq_true
    rintro rfl
    exact h hb
  rw [cString, takeWhile_append_of_pos hall]
  simp

theorem cString_of_not_mem {text : Bytes} (h : 0 ∉ text) : cString text = text := by
  rw [cString, takeWhile_eq_self_iff]
  intro b hb
  apply decide_eq_true
  rintro rfl
  exact h hb

theorem zero_not_mem_cString (buffer : Bytes) : 0 ∉ cString buffer := by
  intro hzero
  have hne := mem_takeWhile_imp hzero
  simp at hne

theorem editData_of_eq {edit : Bytes → Bytes} {text result : Bytes} {rest : Bytes}
    (h : edit (text ++ [0]) = result ++ rest) (hlen : result.length = text.length) :
    editData edit text = result := by
  rw [editData, h, ← hlen]
  exact take_left

theorem forall_mem_of_all {α : Type} {text : List α} {P : α → Prop} [DecidablePred P]
    (h : text.all (fun c => decide (P c)) = true) : ∀ c ∈ text, P c :=
  fun c hc => of_decide_eq_true (all_eq_true.mp h c hc)

def utf8 (text : List Char) : Bytes := text.flatMap String.utf8EncodeChar

@[simp] theorem utf8_cons (c : Char) (text : List Char) :
    utf8 (c :: text) = String.utf8EncodeChar c ++ utf8 text := flatMap_cons

@[simp] theorem utf8_nil : utf8 [] = [] := rfl

theorem utf8EncodeChar_ascii {c : Char} (h : c.toNat < 0x80) :
    String.utf8EncodeChar c = [UInt8.ofNat c.toNat] := by
  have hle : c.val.toNat ≤ 0x7f := Nat.le_of_lt_succ h
  simp only [String.utf8EncodeChar, if_pos hle]
  rfl

theorem utf8EncodeChar_ef {c : Char} (hlow : 0xf000 ≤ c.toNat) (hhigh : c.toNat ≤ 0xffff) :
    String.utf8EncodeChar c =
      [0xef, UInt8.ofNat (c.toNat / 64 % 64 + 0x80), UInt8.ofNat (c.toNat % 64 + 0x80)] := by
  have hv : c.val.toNat = c.toNat := rfl
  have hlead : c.toNat / 4096 % 16 + 0xe0 = 0xef := by omega
  simp only [String.utf8EncodeChar, hv, if_neg (show ¬ c.toNat ≤ 0x7f by omega),
    if_neg (show ¬ c.toNat ≤ 0x7ff by omega), if_pos hhigh, hlead]
  rfl

theorem toNat_ofNat_of_lt {n : Nat} (h : n < 256) : (UInt8.ofNat n).toNat = n := by
  rw [UInt8.toNat_ofNat']
  exact Nat.mod_eq_of_lt h

/-- Every byte of a character outside ASCII has its high bit set, and only the
characters from U+F000 to U+FFFF have the byte `0xef`. -/
theorem utf8EncodeChar_high {c : Char} (hc : 0x80 ≤ c.toNat) {b : UInt8} (hb : b ∈ String.utf8EncodeChar c) :
    0x80 ≤ b.toNat ∧ (b = 0xef → 0xf000 ≤ c.toNat ∧ c.toNat ≤ 0xffff) := by
  have hv : c.val.toNat = c.toNat := rfl
  have key : ∀ n, n < 256 → b = UInt8.ofNat n → 0x80 ≤ n →
      (n = 0xef → 0xf000 ≤ c.toNat ∧ c.toNat ≤ 0xffff) →
      0x80 ≤ b.toNat ∧ (b = 0xef → 0xf000 ≤ c.toNat ∧ c.toNat ≤ 0xffff) := by
    rintro n hn rfl hlow hef
    have hnat := toNat_ofNat_of_lt hn
    constructor
    · rw [hnat]
      exact hlow
    · intro heq
      apply hef
      rw [← hnat, heq]
      rfl
  simp only [String.utf8EncodeChar, hv, if_neg (show ¬ c.toNat ≤ 0x7f by omega)] at hb
  split at hb
  · simp only [mem_cons, not_mem_nil, or_false] at hb
    rcases hb with hb | hb
    · exact key _ (by omega) hb (by omega) (by omega)
    · exact key _ (by omega) hb (by omega) (by omega)
  · split at hb
    · simp only [mem_cons, not_mem_nil, or_false] at hb
      rcases hb with hb | hb | hb
      · exact key _ (by omega) hb (by omega) (by omega)
      · exact key _ (by omega) hb (by omega) (by omega)
      · exact key _ (by omega) hb (by omega) (by omega)
    · simp only [mem_cons, not_mem_nil, or_false] at hb
      rcases hb with hb | hb | hb | hb
      · exact key _ (by omega) hb (by omega) (by omega)
      · exact key _ (by omega) hb (by omega) (by omega)
      · exact key _ (by omega) hb (by omega) (by omega)
      · exact key _ (by omega) hb (by omega) (by omega)

end CString

end WslPlus

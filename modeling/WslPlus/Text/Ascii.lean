import Mathlib.Data.List.DropRight

/-!
# ASCII text

Lower case, white space and booleans as stringshared.h reads them, without regard to a
locale: only the letters of ASCII have a lower case.
-/

namespace WslPlus.Text

open List

def asciiToLower (text : List Char) : List Char := text.map Char.toLower

def isAsciiSpace (c : Char) : Bool :=
  c = ' ' || c = '\t' || c = '\r' || c = '\n' || c = '\x0b' || c = '\x0c'

def trimAscii (text : List Char) : List Char := (text.dropWhile isAsciiSpace).rdropWhile isAsciiSpace

/-- `ParseBool` of a C string, with the forms of one letter if they are allowed. -/
def parseBool (text : List Char) (allowExtendedForms : Bool) : Option Bool :=
  let word := text.takeWhile (· ≠ '\x00')
  if word = "1".toList ∨ asciiToLower word = "true".toList ∨
      (allowExtendedForms ∧ asciiToLower word = "t".toList) then some true
  else if word = "0".toList ∨ asciiToLower word = "false".toList ∨
      (allowExtendedForms ∧ asciiToLower word = "f".toList) then some false
  else none

theorem toLower_of_lt {c : Char} (h : c.toNat < 65 ∨ 90 < c.toNat) : c.toLower = c := by
  have hnot : ¬ (c.val ≥ 'A'.val ∧ c.val ≤ 'Z'.val) := by
    rintro ⟨hlow, hhigh⟩
    have hlow' : 65 ≤ c.toNat := UInt32.le_iff_toNat_le.mp hlow
    have hhigh' : c.toNat ≤ 90 := UInt32.le_iff_toNat_le.mp hhigh
    omega
  exact dif_neg hnot

theorem toLower_of_upper {c : Char} (hlow : 65 ≤ c.toNat) (hhigh : c.toNat ≤ 90) :
    c.toLower.toNat = c.toNat + 32 := by
  have hupper : c.val ≥ 'A'.val ∧ c.val ≤ 'Z'.val :=
    ⟨UInt32.le_iff_toNat_le.mpr hlow, UInt32.le_iff_toNat_le.mpr hhigh⟩
  have hlower : c.toLower.val = c.val + ('a'.val - 'A'.val) := congrArg Char.val (dif_pos hupper)
  have hval : c.val.toNat = c.toNat := rfl
  change c.toLower.val.toNat = c.toNat + 32
  rw [hlower, UInt32.toNat_add, hval]
  exact Nat.mod_eq_of_lt (by
    change c.toNat + 32 < 2 ^ 32
    omega)

theorem toLower_toLower (c : Char) : c.toLower.toLower = c.toLower := by
  by_cases h : c.toNat < 65 ∨ 90 < c.toNat
  · rw [toLower_of_lt h, toLower_of_lt h]
  · have hnat := toLower_of_upper (c := c) (by omega) (by omega)
    exact toLower_of_lt (by omega)

theorem isAsciiSpace_of_le {c : Char} (h : 65 ≤ c.toNat) : isAsciiSpace c = false := by
  simp only [isAsciiSpace, Bool.or_eq_false_iff, decide_eq_false_iff_not]
  refine ⟨⟨⟨⟨⟨?_, ?_⟩, ?_⟩, ?_⟩, ?_⟩, ?_⟩ <;> rintro rfl <;> revert h <;> decide

theorem isAsciiSpace_toLower (c : Char) : isAsciiSpace c.toLower = isAsciiSpace c := by
  by_cases h : c.toNat < 65 ∨ 90 < c.toNat
  · rw [toLower_of_lt h]
  · have hnat := toLower_of_upper (c := c) (by omega) (by omega)
    rw [isAsciiSpace_of_le (by omega), isAsciiSpace_of_le (by omega)]

@[simp] theorem asciiToLower_asciiToLower (text : List Char) :
    asciiToLower (asciiToLower text) = asciiToLower text := by
  simp [asciiToLower, toLower_toLower]

theorem trimAscii_asciiToLower (text : List Char) :
    trimAscii (asciiToLower text) = asciiToLower (trimAscii text) := by
  have hcomp : isAsciiSpace ∘ Char.toLower = isAsciiSpace := funext isAsciiSpace_toLower
  rw [trimAscii, trimAscii, asciiToLower, asciiToLower, dropWhile_map, hcomp, List.rdropWhile,
    List.rdropWhile, ← map_reverse, dropWhile_map, hcomp, map_reverse]

theorem dropWhile_rdropWhile_of_head {text : List Char} {p : Char → Bool}
    (h : ∀ c, text.head? = some c → p c = false) : (text.rdropWhile p).dropWhile p = text.rdropWhile p := by
  cases hr : text.rdropWhile p with
  | nil => rfl
  | cons c rest =>
    obtain ⟨more, hmore⟩ : ∃ more, text = c :: rest ++ more := by
      obtain ⟨more, hmore⟩ := rdropWhile_prefix p text
      exact ⟨more, by rw [← hmore, hr]⟩
    have hc : p c = false := h c (by simp [hmore])
    simp [hc]

@[simp] theorem trimAscii_trimAscii (text : List Char) : trimAscii (trimAscii text) = trimAscii text := by
  have hhead : ∀ c, (text.dropWhile isAsciiSpace).head? = some c → isAsciiSpace c = false := by
    intro c hc
    have hnot := head?_dropWhile_not isAsciiSpace text
    rw [hc] at hnot
    simpa using hnot
  rw [trimAscii, trimAscii, dropWhile_rdropWhile_of_head hhead, rdropWhile_idempotent]

end WslPlus.Text

import Mathlib.Logic.Basic

/-!
# Character types

The narrow and the wide characters of C have codes, and the literals of a template are
cast to either of them.
-/

namespace WslPlus

/-- A character type is known by its codes, and a literal of ASCII keeps its code. -/
class CharType (T : Type) where
  ofChar : Char → T
  code : T → Nat
  code_inj : ∀ a b : T, code a = code b → a = b
  code_ofChar : ∀ c : Char, c.toNat < 128 → code (ofChar c) = c.toNat

namespace CharType

instance : CharType Char where
  ofChar c := c
  code c := c.toNat
  code_inj _ _ h := Char.ext (UInt32.toNat_inj.mp h)
  code_ofChar _ _ := rfl

/-- `char`. -/
instance : CharType UInt8 where
  ofChar c := .ofNat c.toNat
  code c := c.toNat
  code_inj _ _ h := UInt8.toNat_inj.mp h
  code_ofChar c h := by
    rw [UInt8.toNat_ofNat']
    omega

/-- `wchar_t`. -/
instance : CharType UInt16 where
  ofChar c := .ofNat c.toNat
  code c := c.toNat
  code_inj _ _ h := UInt16.toNat_inj.mp h
  code_ofChar c h := by
    rw [UInt16.toNat_ofNat']
    omega

variable {T : Type} [CharType T]

theorem eq_ofChar_iff {c : T} {a : Char} (ha : a.toNat < 128) : c = ofChar a ↔ code c = a.toNat := by
  constructor
  · rintro rfl
    exact code_ofChar a ha
  · intro h
    exact code_inj c (ofChar a) (h.trans (code_ofChar a ha).symm)

theorem ofChar_ne {a b : Char} (ha : a.toNat < 128) (hb : b.toNat < 128) (hne : a.toNat ≠ b.toNat) :
    (ofChar a : T) ≠ ofChar b := by
  intro h
  have hcode := (eq_ofChar_iff hb).mp h
  rw [code_ofChar a ha] at hcode
  exact hne hcode

end CharType

end WslPlus

import WslPlus.Lib.Scanf

/-!
# Memory sizes

`ParseMemorySize` reads a number with `strtoull` and a unit behind it. White space and a sign in
front of the number are taken as `strtoull` takes them; that of a blank is tested for.
-/

namespace WslPlus.Text.MemorySize

open List CharType Scanf

variable {T : Type} [CharType T] [DecidableEq T]

def isDigit (c : T) : Bool := 48 ≤ code c && code c ≤ 57

def decimal (digits : List T) : Nat := digits.foldl (fun n c => 10 * n + (code c - 48)) 0

def takeSign : List T → List T × List T
  | [] => ([], [])
  | c :: rest => if c = ofChar '+' ∨ c = ofChar '-' then ([c], rest) else ([], c :: rest)

/-- A number that is too large becomes the greatest one, and a minus sign is applied modulo 2^64. -/
def valueOf (sign digits : List T) : Nat :=
  if decimal digits ≥ 2 ^ 64 then 2 ^ 64 - 1
  else if sign = [ofChar '-'] then (2 ^ 64 - decimal digits) % 2 ^ 64
  else decimal digits

/-- `strtoull` and `wcstoull` with base 10: the value, and how far `End` is. -/
def toUInt64 (l : CharLocale) (text : List T) : Nat × Nat :=
  let (sign, unsigned) := takeSign (text.dropWhile fun c => l.isSpace (code c))
  let digits := unsigned.takeWhile isDigit
  if digits = [] then (0, 0) else (valueOf sign digits, text.length - (unsigned.dropWhile isDigit).length)

def units : List (List T × Nat) :=
  [([ofChar 'B'], 1), ([ofChar 'K', ofChar 'B'], 2 ^ 10), ([ofChar 'M', ofChar 'B'], 2 ^ 20),
    ([ofChar 'G', ofChar 'B'], 2 ^ 30), ([ofChar 'T', ofChar 'B'], 2 ^ 40)]

/-- The string is `none` if the pointer is null. -/
def parseMemorySize (l : CharLocale) : Option (List T) → Option Nat
  | none => none
  | some string =>
    let (value, last) := toUInt64 l string
    if value = 0 ∧ (string.head? ≠ some (ofChar '0') ∨ last ≠ 1) then none
    else
      let remainder := string.drop last
      if remainder = [] then some value
      else if remainder.length > 2 then none
      else (units.find? fun unit => remainder = unit.1.take 1 ∨ remainder = unit.1).map fun unit =>
        value * unit.2 % 2 ^ 64

def unitForms : List (List T × Nat) := ([], 1) :: units.flatMap fun unit => [(unit.1.take 1, unit.2), unit]

structure IsNumber (digits : List T) : Prop where
  nonempty : digits ≠ []
  digits : ∀ c ∈ digits, isDigit c = true

def Short (digits : List T) : Prop := digits.head? = some (ofChar '0') → digits.length = 1

/-- What `strtoull` has taken, in front of `rest`. -/
structure Taken (l : CharLocale) (text blanks sign digits rest : List T) : Prop where
  text : text = blanks ++ (sign ++ (digits ++ rest))
  blanks : ∀ c ∈ blanks, l.isSpace (code c) = true
  sign : sign = [] ∨ sign = [ofChar '+'] ∨ sign = [ofChar '-']
  number : IsNumber digits

theorem takeSign_spec (text : List T) : text = (takeSign text).1 ++ (takeSign text).2 ∧
    ((takeSign text).1 = [] ∨ (takeSign text).1 = [ofChar '+'] ∨ (takeSign text).1 = [ofChar '-']) := by
  cases text with
  | nil => exact ⟨rfl, .inl rfl⟩
  | cons c rest =>
    rw [takeSign]
    split
    case isTrue h =>
      obtain rfl | rfl := h
      · exact ⟨rfl, .inr (.inl rfl)⟩
      · exact ⟨rfl, .inr (.inr rfl)⟩
    case isFalse => exact ⟨rfl, .inl rfl⟩

theorem toUInt64_spec (l : CharLocale) (text : List T) : toUInt64 l text = (0, 0) ∨
    ∃ blanks sign digits rest, Taken l text blanks sign digits rest ∧
      toUInt64 l text = (valueOf sign digits, text.length - rest.length) := by
  unfold toUInt64
  obtain ⟨happ, hsign⟩ := takeSign_spec (text.dropWhile fun c => l.isSpace (code c))
  generalize takeSign (text.dropWhile fun c => l.isSpace (code c)) = parts at happ hsign ⊢
  obtain ⟨sign, unsigned⟩ := parts
  dsimp only at happ hsign ⊢
  split
  case isTrue => exact .inl rfl
  case isFalse hne =>
    refine .inr ⟨text.takeWhile fun c => l.isSpace (code c), sign, unsigned.takeWhile isDigit, unsigned.dropWhile isDigit,
      ⟨?_, fun c => mem_takeWhile_imp, hsign, hne, fun c => mem_takeWhile_imp⟩, rfl⟩
    rw [takeWhile_append_dropWhile, ← happ, takeWhile_append_dropWhile]

omit [DecidableEq T] in
theorem mem_unitForms {remainder : List T} {unit : List T × Nat} (h : unit ∈ units (T := T))
    (heq : remainder = unit.1.take 1 ∨ remainder = unit.1) : (remainder, unit.2) ∈ unitForms (T := T) := by
  refine mem_cons_of_mem _ (mem_flatMap.mpr ⟨unit, h, ?_⟩)
  obtain rfl | rfl := heq
  · exact mem_cons_self
  · exact mem_cons_of_mem _ mem_cons_self

omit [DecidableEq T] in
theorem factor_pos {form : List T × Nat} (h : form ∈ unitForms (T := T)) : 1 ≤ form.2 := by
  have hmem : form.2 ∈ [1, 1, 1, 2 ^ 10, 2 ^ 10, 2 ^ 20, 2 ^ 20, 2 ^ 30, 2 ^ 30, 2 ^ 40, 2 ^ 40] := mem_map_of_mem h
  simp only [mem_cons, not_mem_nil, or_false] at hmem
  omega

theorem valueOf_eq {sign digits : List T} (hsign : sign ≠ [ofChar '-']) (hlt : decimal digits < 2 ^ 64) :
    valueOf sign digits = decimal digits := by
  rw [valueOf, if_neg (Nat.not_le.mpr hlt), if_neg hsign]

omit [DecidableEq T] in
theorem Taken.drop {l : CharLocale} {text blanks sign digits rest : List T}
    (h : Taken l text blanks sign digits rest) :
    text.drop (text.length - rest.length) = rest := by
  have hfront : text = blanks ++ sign ++ digits ++ rest := by
    rw [h.text]
    simp only [append_assoc]
  rw [hfront, length_append, Nat.add_sub_cancel, drop_left]

/-- What is accepted, and its value. -/
theorem parsed_shape {l : CharLocale} {text : List T} {value : Nat}
    (h : parseMemorySize l (some text) = some value) :
    ∃ blanks sign digits form, Taken l text blanks sign digits form.1 ∧ form ∈ unitForms ∧
      (sign ≠ [ofChar '-'] → decimal digits * form.2 < 2 ^ 64 → value = decimal digits * form.2) := by
  rw [parseMemorySize] at h
  obtain hnone | ⟨blanks, sign, digits, rest, htaken, heq⟩ := toUInt64_spec l text
  · rw [hnone] at h
    simp at h
  · rw [heq] at h
    dsimp only at h
    rw [htaken.drop] at h
    split at h
    · cases h
    · split at h
      case isTrue hnil =>
        refine ⟨blanks, sign, digits, ([], 1), hnil ▸ htaken, mem_cons_self, fun hsign hlt => ?_⟩
        rw [Nat.mul_one] at hlt ⊢
        rw [valueOf_eq hsign hlt] at h
        exact (Option.some.inj h).symm
      case isFalse =>
        split at h
        · cases h
        · obtain ⟨unit, hfind, hvalue⟩ := Option.map_eq_some_iff.mp h
          have hmatch := find?_some hfind
          rw [decide_eq_true_eq] at hmatch
          have hform := mem_unitForms (mem_of_find?_eq_some hfind) hmatch
          refine ⟨blanks, sign, digits, (rest, unit.2), htaken, hform, fun hsign hlt => ?_⟩
          have hsmall : decimal digits < 2 ^ 64 :=
            Nat.lt_of_le_of_lt (Nat.le_mul_of_pos_right _ (factor_pos hform)) hlt
          rw [valueOf_eq hsign hsmall, Nat.mod_eq_of_lt hlt] at hvalue
          exact hvalue.symm

omit [DecidableEq T] in
theorem ofChar_inj {a b : Char} (ha : a.toNat < 128) (hb : b.toNat < 128) :
    (ofChar a : T) = ofChar b ↔ a = b := by
  rw [eq_ofChar_iff hb, code_ofChar a ha]
  exact ⟨fun h => Char.ext (UInt32.toNat_inj.mp h), fun h => h ▸ rfl⟩

omit [DecidableEq T] in
theorem isDigit_ofChar {c : Char} (h : c.toNat < 128) :
    isDigit (ofChar c : T) = (48 ≤ c.toNat && c.toNat ≤ 57) := by
  rw [isDigit, code_ofChar c h]

theorem form_cases {form : List T × Nat} (h : form ∈ unitForms (T := T)) :
    form = ([], 1) ∨ form.1 ≠ [] ∧ form.1.length ≤ 2 ∧ (∀ c ∈ form.1.head?, isDigit c = false) ∧
      (units.find? fun unit => form.1 = unit.1.take 1 ∨ form.1 = unit.1).map (·.2) = some form.2 := by
  simp only [unitForms, units, flatMap_cons, flatMap_nil, append_nil, cons_append, nil_append,
    mem_cons, not_mem_nil, or_false] at h
  rcases h with rfl | rfl | rfl | rfl | rfl | rfl | rfl | rfl | rfl | rfl | rfl
  · exact .inl rfl
  all_goals
    refine .inr ⟨by simp, by simp, ?_, ?_⟩
    · intro c hc
      cases hc
      rw [isDigit_ofChar (by decide)]
      decide
    · simp (disch := decide) [units, find?_cons, ofChar_inj]

omit [DecidableEq T] in
theorem le_foldl_decimal (digits : List T) (n : Nat) :
    n ≤ digits.foldl (fun n c => 10 * n + (code c - 48)) n := by
  induction digits generalizing n with
  | nil => exact Nat.le_refl n
  | cons c digits ih =>
    have := ih (10 * n + (code c - 48))
    rw [foldl_cons]
    omega

omit [DecidableEq T] in
theorem head_of_decimal_eq_zero {digits : List T} (h : IsNumber digits) (hzero : decimal digits = 0) :
    digits.head? = some (ofChar '0') := by
  cases digits with
  | nil => exact absurd rfl h.nonempty
  | cons c digits =>
    have hdigit := h.digits c mem_cons_self
    have hle := le_foldl_decimal digits (10 * 0 + (code c - 48))
    rw [decimal, foldl_cons] at hzero
    simp only [isDigit, Bool.and_eq_true, decide_eq_true_eq] at hdigit
    have hcode : c = ofChar '0' := (eq_ofChar_iff (by decide)).mpr (show code c = 48 by omega)
    rw [hcode]
    rfl

theorem toUInt64_number (l : CharLocale) {digits rest : List T} (h : IsNumber digits)
    (hrest : ∀ c ∈ rest.head?, isDigit c = false) :
    toUInt64 l (digits ++ rest) = (valueOf [] digits, digits.length) := by
  obtain ⟨c, tail, hcons⟩ := exists_cons_of_ne_nil h.nonempty
  have hdigit := h.digits c (hcons ▸ mem_cons_self)
  simp only [isDigit, Bool.and_eq_true, decide_eq_true_eq] at hdigit
  have hspace : (digits ++ rest).dropWhile (fun c => l.isSpace (code c)) = digits ++ rest := by
    rw [hcons, cons_append, dropWhile_cons_of_neg]
    rw [l.isSpace_graphic (code c) (by omega) (by omega)]
    exact Bool.false_ne_true
  have hsign : takeSign (digits ++ rest) = ([], digits ++ rest) := by
    rw [hcons, cons_append, takeSign, if_neg]
    rw [eq_ofChar_iff (by decide), eq_ofChar_iff (by decide), not_or]
    exact ⟨fun heq : code c = 43 => by omega, fun heq : code c = 45 => by omega⟩
  have hnone : rest.takeWhile isDigit = [] := by
    cases rest with
    | nil => rfl
    | cons d rest => rw [takeWhile_cons_of_neg (by rw [hrest d rfl]; exact Bool.false_ne_true)]
  have htake : (digits ++ rest).takeWhile isDigit = digits := by
    rw [takeWhile_append_of_pos h.digits, hnone, append_nil]
  have hdrop : (digits ++ rest).dropWhile isDigit = rest := by
    have happ := takeWhile_append_dropWhile (p := isDigit) (l := digits ++ rest)
    rw [htake] at happ
    exact append_cancel_left happ
  simp only [toUInt64, hspace, hsign, htake, hdrop, if_neg h.nonempty, length_append, Nat.add_sub_cancel]

theorem parse_number (l : CharLocale) {digits : List T} {form : List T × Nat} (h : IsNumber digits)
    (hshort : Short digits)
    (hform : form ∈ unitForms) (hfits : decimal digits * form.2 < 2 ^ 64) :
    parseMemorySize l (some (digits ++ form.1)) = some (decimal digits * form.2) := by
  have hsmall : decimal digits < 2 ^ 64 :=
    Nat.lt_of_le_of_lt (Nat.le_mul_of_pos_right _ (factor_pos hform)) hfits
  have hvalue : valueOf [] digits = decimal digits := valueOf_eq (by simp) hsmall
  have hzero : ¬(decimal digits = 0 ∧ ((digits ++ form.1).head? ≠ some (ofChar '0') ∨ digits.length ≠ 1)) := by
    intro ⟨hzero, hother⟩
    have hhead := head_of_decimal_eq_zero h hzero
    rw [head?_append, hhead] at hother
    obtain hne | hne := hother
    · exact hne rfl
    · exact hne (hshort hhead)
  rw [parseMemorySize]
  obtain rfl | ⟨hnil, hlen, hhead, hfind⟩ := form_cases hform
  · rw [toUInt64_number l h (fun c hc => by cases hc), hvalue]
    dsimp only at hzero ⊢
    rw [if_neg hzero, drop_left, if_pos rfl, Nat.mul_one]
  · rw [toUInt64_number l h hhead, hvalue]
    dsimp only
    rw [if_neg hzero, drop_left, if_neg hnil, if_neg (Nat.not_lt.mpr hlen)]
    obtain ⟨unit, hunit, hfactor⟩ := Option.map_eq_some_iff.mp hfind
    rw [hunit, Option.map_some, hfactor, Nat.mod_eq_of_lt hfits]

/-- A string that is accepted is white space, a sign, a number and a unit, and the value is exact
if it fits and there is no minus sign. A number with a unit is accepted if its value fits. -/
theorem memory_size_exact (l : CharLocale) (text : List T) :
    (∀ value, parseMemorySize l (some text) = some value →
      ∃ blanks sign digits form, Taken l text blanks sign digits form.1 ∧ form ∈ unitForms ∧
        (sign ≠ [ofChar '-'] → decimal digits * form.2 < 2 ^ 64 → value = decimal digits * form.2)) ∧
      ∀ digits form, IsNumber digits → Short digits → form ∈ unitForms (T := T) → text = digits ++ form.1 →
        decimal digits * form.2 < 2 ^ 64 → parseMemorySize l (some text) = some (decimal digits * form.2) := by
  refine ⟨fun value => parsed_shape, ?_⟩
  intro digits form hnumber hshort hform htext hfits
  rw [htext]
  exact parse_number l hnumber hshort hform hfits

/-- A blank in front of the number is taken, as a test of the source asks. -/
theorem blank_accepted : ¬∀ (text : List Char) (value : Nat), parseMemorySize cLocale (some text) = some value →
    ∃ digits form, IsNumber digits ∧ form ∈ unitForms ∧ text = digits ++ form.1 := by
  intro h
  obtain ⟨digits, form, hnumber, -, htext⟩ := h [' ', '1'] 1 (by decide)
  obtain ⟨c, tail, rfl⟩ := exists_cons_of_ne_nil hnumber.nonempty
  have hdigit := hnumber.digits c mem_cons_self
  rw [← (List.cons.inj htext).1] at hdigit
  exact absurd hdigit (by decide)

end WslPlus.Text.MemorySize

import WslPlus.Plan9.Protocol

/-!
# The fields of a request

Whether the body of a request is long enough for the fields that are read from it. A
string has its length in front of it. A bad name ends the reading, so that nothing has
to be there after it.
-/

namespace WslPlus.Plan9

open List Program

theorem leValue_lt (bytes : List Byte) : leValue bytes < 256 ^ bytes.length := by
  induction bytes with
  | nil => decide
  | cons b bytes ih =>
    have hb : b.toNat < 256 := b.toNat_lt
    change b.toNat + 256 * leValue bytes < 256 ^ (bytes.length + 1)
    rw [Nat.pow_succ]
    omega

theorem leValue_leBytes (n v : Nat) : leValue (leBytes n v) = v % 256 ^ n := by
  induction n generalizing v with
  | zero => simp [leBytes, leValue, Nat.mod_one]
  | succ n ih =>
    have hbytes : leBytes (n + 1) v = UInt8.ofNat v :: leBytes n (v / 256) := by
      simp only [leBytes, range_succ_eq_map, map_cons, map_map]
      refine cons_eq_cons.mpr ⟨by simp, map_congr_left fun i _ => ?_⟩
      simp only [Function.comp, Nat.succ_eq_add_one]
      rw [Nat.pow_succ', Nat.div_div_eq_div_mul]
    have hcons : leValue (UInt8.ofNat v :: leBytes n (v / 256)) =
        (UInt8.ofNat v).toNat + 256 * leValue (leBytes n (v / 256)) := rfl
    have hmod : v % 256 ^ (n + 1) = v % 256 + 256 * (v / 256 % 256 ^ n) := by
      rw [Nat.pow_succ', Nat.mod_mul]
    rw [hbytes, hcons, ih, UInt8.toNat_ofNat', hmod]

theorem take_drop_leBytes (n v : Nat) (rest : List Byte) : (leBytes n v ++ rest).take n = leBytes n v ∧
    (leBytes n v ++ rest).drop n = rest ∧ ¬(leBytes n v ++ rest).length < n := by
  refine ⟨take_left' (leBytes_length n v), drop_left' (leBytes_length n v), ?_⟩
  rw [length_append, leBytes_length]
  omega

theorem exec_u8_leBytes (v : UInt8) (rest : List Byte) :
    exec SpanReader.u8 (leBytes 1 v.toNat ++ rest) = (.ok v, rest) := by
  obtain ⟨htake, hdrop, hlen⟩ := take_drop_leBytes 1 v.toNat rest
  rw [SpanReader.exec_u8, if_neg hlen, htake, hdrop, leValue_leBytes,
    Nat.mod_eq_of_lt (show v.toNat < 256 ^ 1 from v.toNat_lt), UInt8.ofNat_toNat]

theorem exec_u32_leBytes (v : UInt32) (rest : List Byte) :
    exec SpanReader.u32 (leBytes 4 v.toNat ++ rest) = (.ok v, rest) := by
  obtain ⟨htake, hdrop, hlen⟩ := take_drop_leBytes 4 v.toNat rest
  rw [SpanReader.exec_u32, if_neg hlen, htake, hdrop, leValue_leBytes,
    Nat.mod_eq_of_lt (show v.toNat < 256 ^ 4 from v.toNat_lt), UInt32.ofNat_toNat]

theorem exec_u64_leBytes (v : UInt64) (rest : List Byte) :
    exec SpanReader.u64 (leBytes 8 v.toNat ++ rest) = (.ok v, rest) := by
  obtain ⟨htake, hdrop, hlen⟩ := take_drop_leBytes 8 v.toNat rest
  rw [SpanReader.exec_u64, if_neg hlen, htake, hdrop, leValue_leBytes,
    Nat.mod_eq_of_lt (show v.toNat < 256 ^ 8 from v.toNat_lt), UInt64.ofNat_toNat]

/-- A field as far as its length counts. -/
inductive Field where
  | fixed (size : Nat)
  | string
  | name

def stringLength (b : List Byte) : Nat := leValue (b.take 2)

def HasString (b : List Byte) : Prop := 2 + stringLength b ≤ b.length

instance HasString.decidable (b : List Byte) : Decidable (HasString b) :=
  inferInstanceAs (Decidable (_ ≤ _))

def stringAt (b : List Byte) : Text := fixString ((b.drop 2).take (stringLength b))

def afterString (b : List Byte) : List Byte := b.drop (2 + stringLength b)

def Covered : List Field → List Byte → Prop
  | [], _ => True
  | .fixed n :: fields, b => n ≤ b.length ∧ Covered fields (b.drop n)
  | .string :: fields, b => HasString b ∧ Covered fields (afterString b)
  | .name :: fields, b => HasString b ∧ (isName (stringAt b).1 = true → Covered fields (afterString b))

instance Covered.decidable : (fields : List Field) → (b : List Byte) → Decidable (Covered fields b)
  | [], _ => .isTrue trivial
  | .fixed n :: fields, b =>
    have := Covered.decidable fields (b.drop n)
    inferInstanceAs (Decidable (n ≤ b.length ∧ Covered fields (b.drop n)))
  | .string :: fields, b =>
    have := Covered.decidable fields (afterString b)
    inferInstanceAs (Decidable (HasString b ∧ Covered fields (afterString b)))
  | .name :: fields, b =>
    have := Covered.decidable fields (afterString b)
    inferInstanceAs (Decidable
      (HasString b ∧ (isName (stringAt b).1 = true → Covered fields (afterString b))))

/-- The names at the front of a body, up to a count and as far as they are good, and whether
the body ends before the next of them. -/
def leadingNames : Nat → List Byte → List Component × Bool
  | 0, _ => ([], false)
  | n + 1, b =>
    if HasString b then
      if h : isName (stringAt b).1 = true then
        let rest := leadingNames n (afterString b)
        (⟨(stringAt b).1, h, (stringAt b).2⟩ :: rest.1, rest.2)
      else
        ([], false)
    else
      ([], true)

theorem leValue_take_lt (n : Nat) (b : List Byte) : leValue (b.take n) < 256 ^ n := by
  have hlen : (b.take n).length ≤ n := by
    rw [length_take]
    omega
  exact Nat.lt_of_lt_of_le (leValue_lt _) (Nat.pow_le_pow_right (by decide) hlen)

theorem stringLength_lt (b : List Byte) : stringLength b < UInt16.size := leValue_take_lt 2 b

theorem toNat_stringLength (b : List Byte) : (UInt16.ofNat (leValue (b.take 2))).toNat = stringLength b := by
  rw [UInt16.toNat_ofNat']
  exact Nat.mod_eq_of_lt (stringLength_lt b)

theorem toNat_u32 (b : List Byte) : (UInt32.ofNat (leValue (b.take 4))).toNat = leValue (b.take 4) := by
  rw [UInt32.toNat_ofNat']
  exact Nat.mod_eq_of_lt (leValue_take_lt 4 b)

theorem stringAt_length_lt (b : List Byte) : (stringAt b).1.length < UInt16.size := by
  have hfix : (stringAt b).1.length ≤ ((b.drop 2).take (stringLength b)).length :=
    (takeWhile_sublist _).length_le
  have hlt := stringLength_lt b
  rw [length_take] at hfix
  omega

namespace SpanReader

variable {b : List Byte}

theorem exec_string (h : HasString b) : exec string b = (.ok (stringAt b), afterString b) := by
  have hlen : 2 + stringLength b ≤ b.length := h
  rw [string, exec_bind, exec_u16, if_neg (by omega), andThen, toNat_stringLength, exec_read_bind,
    if_neg (by rw [List.length_drop]; omega), drop_drop]
  rfl

theorem exec_string_short (h : ¬HasString b) : (exec string b).1 = .error .failFast := by
  have hlen : ¬2 + stringLength b ≤ b.length := h
  rw [string, exec_bind, exec_u16]
  split
  · rfl
  · rw [andThen, toNat_stringLength, exec_read_bind, if_pos (by rw [List.length_drop]; omega)]

theorem exec_name (h : HasString b) (hname : isName (stringAt b).1 = true) :
    exec name b = (.ok ⟨(stringAt b).1, hname, (stringAt b).2⟩, afterString b) := by
  rw [name, exec_bind, exec_string h, andThen, dif_pos hname]
  rfl

theorem exec_name_bad (h : HasString b) (hname : ¬isName (stringAt b).1 = true) :
    exec name b = (.error (.thrown .inval), afterString b) := by
  rw [name, exec_bind, exec_string h, andThen, dif_neg hname]
  rfl

theorem exec_name_short (h : ¬HasString b) : (exec name b).1 = .error .failFast := by
  have hshort := exec_string_short h
  rw [name, exec_bind]
  rcases hr : exec string b with ⟨r, b'⟩
  rw [hr] at hshort
  cases hshort
  rfl

end SpanReader

end WslPlus.Plan9

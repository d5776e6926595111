import WslPlus.Lib.CString
import Mathlib.Algebra.GroupWithZero.Nat

/-!
# Escaped path characters

Some characters of a Linux file name are not allowed in a Windows one. Each of them is
replaced by the character U+F000 + c, three bytes of UTF-8, and put back on the way to
Linux, in the buffer that holds the path. The separators are changed in the same buffer.
-/

namespace WslPlus.Paths

open List CString

def pathSep : UInt8 := 0x2f

def pathSepNt : UInt8 := 0x5c

def illegalAnsi (c : UInt8) : Bool :=
  c < 0x20 || [0x22, 0x2a, 0x3a, 0x3c, 0x3e, 0x3f, 0x5c, 0x7c].contains c

def escapeCharNeedsEscape (c : UInt8) : Bool := c ≤ 0x7f && illegalAnsi c

/-- What `EscapePathForNt` writes for one character. -/
def escapeChar (c : UInt8) : Bytes :=
  if c = pathSep then [pathSepNt]
  else if escapeCharNeedsEscape c = false then [c]
  else [0xef, (0x80 : UInt8) ||| (c >>> 6), (0x80 : UInt8) ||| (c &&& 0x3f)]

def escapePathForNt (path : Bytes) : Bytes := path.flatMap escapeChar

def escapeCharLength (c : UInt8) : Nat := if escapeCharNeedsEscape c = false then 1 else 3

def escapePathForNtLength (path : Bytes) : Nat := (path.map escapeCharLength).sum

def unescapeChar (b1 b2 : UInt8) : UInt8 := (b1 <<< 6) ||| (b2 &&& 0x3f)

/-- The tests on the three bytes at `Current`. -/
def isEscaped (b0 b1 b2 : UInt8) : Bool :=
  b0 == 0xef && b1 &&& 0x80 != 0 && b2 &&& 0x80 != 0 && escapeCharNeedsEscape (unescapeChar b1 b2)

/-- One character at `Current`, with what is behind it in the buffer. What follows an
escaped character moves up to it, with its terminator, and the bytes behind the terminator
stay. -/
def unescapeStep (b0 : UInt8) (rest : Bytes) : UInt8 × Bytes :=
  match rest with
  | b1 :: b2 :: remaining =>
    if isEscaped b0 b1 b2 then
      (unescapeChar b1 b2, Window.overwrite rest 0 (cString remaining ++ [0]))
    else (b0, rest)
  | _ => (b0, rest)

/-- The buffer from `Current` on, up to its terminator. -/
def unescapeFrom : Nat → Bytes → Bytes
  | 0, buffer => buffer
  | _ + 1, [] => []
  | count + 1, b0 :: rest =>
    if b0 = 0 then b0 :: rest
    else (unescapeStep b0 rest).1 :: unescapeFrom count (unescapeStep b0 rest).2

def unescapePathInplace (buffer : Bytes) : Bytes := unescapeFrom buffer.length buffer

def isSeparator (c : UInt8) : Bool := c == pathSep || c == pathSepNt

/-- One character of the source, with the path up to `DestIndex`. -/
def canonicaliseStep (separator : UInt8) (dest : Bytes) (c : UInt8) : Bytes :=
  if isSeparator c then
    if 1 < dest.length ∧ dest.getLast? = some separator then dest else dest ++ [separator]
  else dest ++ [c]

/-- The C string that `UtilCanonicalisePathSeparator` leaves in the buffer. -/
def canonicalise (separator : UInt8) (path : Bytes) : Bytes :=
  path.foldl (canonicaliseStep separator) []

/-- The whole buffer after `UtilCanonicalisePathSeparator`. -/
def utilCanonicalisePathSeparator (separator : UInt8) (buffer : Bytes) : Bytes :=
  Window.overwrite buffer 0 (canonicalise separator (cString buffer) ++ [0])

theorem needsEscape_lt {c : UInt8} (h : escapeCharNeedsEscape c = true) : c.toNat < 0x80 := by
  rw [escapeCharNeedsEscape, Bool.and_eq_true, decide_eq_true_eq, UInt8.le_iff_toNat_le] at h
  exact Nat.lt_succ_of_le h.1

theorem high_or (c : UInt8) : 0x80 ≤ ((0x80 : UInt8) ||| c).toNat := by
  rw [UInt8.toNat_or]
  exact Nat.left_le_or

/-- The bytes written for a character are the character itself, a separator, or bytes
outside ASCII. -/
theorem mem_escapeChar {c b : UInt8} (h : b ∈ escapeChar c) :
    (b = c ∧ c ≠ pathSep ∧ escapeCharNeedsEscape c = false) ∨ (b = pathSepNt ∧ c = pathSep) ∨
      0x80 ≤ b.toNat := by
  unfold escapeChar at h
  split at h
  case isTrue hsep =>
    exact .inr (.inl ⟨mem_singleton.mp h, hsep⟩)
  case isFalse hsep =>
    split at h
    · exact .inl ⟨mem_singleton.mp h, hsep, by assumption⟩
    · simp only [mem_cons, not_mem_nil, or_false] at h
      rcases h with rfl | rfl | rfl
      · exact .inr (.inr (by decide))
      · exact .inr (.inr (high_or _))
      · exact .inr (.inr (high_or _))

theorem length_escapeChar (c : UInt8) : (escapeChar c).length = escapeCharLength c := by
  unfold escapeChar escapeCharLength
  split
  case isTrue hsep =>
    rw [hsep]
    rfl
  case isFalse =>
    split <;> rfl

theorem length_escapePathForNt (path : Bytes) : (escapePathForNt path).length = escapePathForNtLength path := by
  rw [escapePathForNt, escapePathForNtLength, length_flatMap]
  congr 2
  funext c
  exact length_escapeChar c

theorem escapePathForNt_append (first second : Bytes) :
    escapePathForNt (first ++ second) = escapePathForNt first ++ escapePathForNt second :=
  flatMap_append

theorem zero_not_mem_escape {path : Bytes} (h : 0 ∉ path) : 0 ∉ escapePathForNt path := by
  intro hmem
  obtain ⟨c, hc, hb⟩ := mem_flatMap.mp hmem
  rcases mem_escapeChar hb with ⟨rfl, -, -⟩ | ⟨hsep, -⟩ | hhigh
  · exact h hc
  · exact absurd hsep (by decide)
  · exact absurd hhigh (by decide)

theorem length_le_escape (path : Bytes) : path.length ≤ escapePathForNtLength path := by
  induction path with
  | nil => exact Nat.le_refl 0
  | cons c path ih =>
    have hone : 1 ≤ escapeCharLength c := by
      unfold escapeCharLength
      split <;> omega
    simp only [escapePathForNtLength, map_cons, sum_cons, length_cons] at ih ⊢
    omega

theorem escapeLength_eq_iff (path : Bytes) :
    escapePathForNtLength path = path.length ↔ ∀ c ∈ path, escapeCharNeedsEscape c = false := by
  induction path with
  | nil => simp [escapePathForNtLength]
  | cons c path ih =>
    have hle := length_le_escape path
    simp only [escapePathForNtLength, map_cons, sum_cons, length_cons,
      forall_mem_cons] at ih hle ⊢
    rw [← ih, escapeCharLength]
    constructor
    · intro heq
      split at heq
      · exact ⟨by assumption, by omega⟩
      · omega
    · rintro ⟨hc, htail⟩
      rw [if_pos hc]
      omega

theorem escapePathForNt_of_legal {path : Bytes} (h : ∀ c ∈ path, escapeCharNeedsEscape c = false)
    (hsep : pathSep ∉ path) : escapePathForNt path = path := by
  induction path with
  | nil => rfl
  | cons c path ih =>
    have hne : c ≠ pathSep := by
      rintro rfl
      exact hsep mem_cons_self
    have htail := ih (fun d hd => h d (mem_cons_of_mem _ hd)) (fun hd => hsep (mem_cons_of_mem _ hd))
    rw [escapePathForNt] at htail ⊢
    rw [flatMap_cons, htail, escapeChar, if_neg hne, if_pos (h c mem_cons_self)]
    rfl

theorem escape_no_separator {name : Bytes} (h : pathSep ∉ name) :
    ∀ b ∈ escapePathForNt name, isSeparator b = false := by
  intro b hb
  obtain ⟨c, hc, hbc⟩ := mem_flatMap.mp hb
  rcases mem_escapeChar hbc with ⟨rfl, hne, hlegal⟩ | ⟨-, rfl⟩ | hhigh
  · rw [isSeparator, Bool.or_eq_false_iff, beq_eq_false_iff_ne, beq_eq_false_iff_ne]
    constructor
    · exact hne
    · rintro rfl
      exact absurd hlegal (by decide)
  · exact absurd hc h
  · rw [isSeparator, Bool.or_eq_false_iff, beq_eq_false_iff_ne, beq_eq_false_iff_ne]
    constructor
    · rintro rfl
      exact absurd hhigh (by decide)
    · rintro rfl
      exact absurd hhigh (by decide)

theorem toNat_unescapeChar (b1 b2 : UInt8) :
    (unescapeChar b1 b2).toNat = b1.toNat % 4 * 64 + b2.toNat % 64 := by
  have hlow : b2.toNat &&& (0x3f : UInt8).toNat = b2.toNat % 64 := Nat.and_two_pow_sub_one_eq_mod _ 6
  have hhigh : b1.toNat <<< ((6 : UInt8).toNat % 8) % 2 ^ 8 = (b1.toNat % 4) <<< 6 := by
    rw [Nat.shiftLeft_eq, Nat.shiftLeft_eq]
    change b1.toNat * 64 % 256 = b1.toNat % 4 * 64
    omega
  rw [unescapeChar, UInt8.toNat_or, UInt8.toNat_shiftLeft, UInt8.toNat_and, hlow, hhigh,
    ← Nat.shiftLeft_add_eq_or_of_lt (by omega), Nat.shiftLeft_eq]

theorem highBit {b : UInt8} (h : 0x80 ≤ b.toNat) : (b &&& 0x80 != 0) = true := by
  have hlt := UInt8.toNat_lt b
  have hbit : b.toNat.testBit 7 = true := by
    rw [Nat.testBit_eq_decide_div_mod_eq, decide_eq_true_eq]
    omega
  rw [bne_iff_ne]
  intro hzero
  have hnat := congrArg UInt8.toNat hzero
  rw [UInt8.toNat_and] at hnat
  have hbit' := congrArg (Nat.testBit · 7) hnat
  simp only [Nat.testBit_and, hbit] at hbit'
  exact absurd hbit' (by decide)

theorem isEscaped_of_lead {b0 : UInt8} (h : b0 ≠ 0xef) (b1 b2 : UInt8) : isEscaped b0 b1 b2 = false := by
  rw [isEscaped, beq_false_of_ne h]
  rfl

theorem length_unescapeStep (b0 : UInt8) (rest : Bytes) : (unescapeStep b0 rest).2.length = rest.length := by
  unfold unescapeStep
  split
  · split
    · apply Window.length_overwrite
      rename_i remaining _
      have hle : (cString remaining).length ≤ remaining.length := (takeWhile_sublist _).length_le
      simp only [length_append, length_cons, length_nil]
      omega
    · rfl
  · rfl

theorem unescapeStep_of_lead {b0 : UInt8} (h : b0 ≠ 0xef) (rest : Bytes) : unescapeStep b0 rest =
    (b0, rest) := by
  unfold unescapeStep
  split
  · rw [isEscaped_of_lead h, if_neg Bool.false_ne_true]
  · rfl

theorem length_unescapeFrom (count : Nat) (buffer : Bytes) :
    (unescapeFrom count buffer).length = buffer.length := by
  induction count generalizing buffer with
  | zero => rfl
  | succ count ih =>
    cases buffer with
    | nil => rfl
    | cons b0 rest =>
      rw [unescapeFrom]
      split
      · rfl
      · rw [length_cons, ih, length_unescapeStep]
        rfl

theorem length_unescapePathInplace (buffer : Bytes) :
    (unescapePathInplace buffer).length = buffer.length := length_unescapeFrom _ _

theorem unescapeFrom_cons {b0 : UInt8} (hzero : b0 ≠ 0) (hlead : b0 ≠ 0xef) (count : Nat) (rest : Bytes) :
    unescapeFrom (count + 1) (b0 :: rest) = b0 :: unescapeFrom count rest := by
  rw [unescapeFrom, if_neg hzero, unescapeStep_of_lead hlead]

theorem unescapeFrom_append {text : Bytes} (h : ∀ b ∈ text, b ≠ 0 ∧ b ≠ 0xef) (count : Nat) (rest : Bytes) :
    unescapeFrom (text.length + count) (text ++ rest) = text ++ unescapeFrom count rest := by
  induction text with
  | nil => simp
  | cons b text ih =>
    obtain ⟨⟨hzero, hlead⟩, htail⟩ := forall_mem_cons.mp h
    rw [length_cons, Nat.add_right_comm, cons_append, unescapeFrom_cons hzero hlead, ih htail,
      cons_append]

/-- The characters that are taken for escaped ones: the three tests look at the lead byte
and at the high bits only, so that all of U+F000 to U+FFFF is read modulo 256. -/
def Unescaped (c : Char) : Prop :=
  0xf000 ≤ c.toNat ∧ c.toNat ≤ 0xffff ∧ escapeCharNeedsEscape (UInt8.ofNat (c.toNat % 256)) = true

instance (c : Char) : Decidable (Unescaped c) := inferInstanceAs (Decidable (_ ∧ _))

theorem unescapeChar_utf8 (v : Nat) :
    unescapeChar (UInt8.ofNat (v / 64 % 64 + 0x80)) (UInt8.ofNat (v % 64 + 0x80)) = UInt8.ofNat (v % 256) := by
  apply UInt8.toNat_inj.mp
  rw [toNat_unescapeChar, toNat_ofNat_of_lt (by omega), toNat_ofNat_of_lt (by omega),
    toNat_ofNat_of_lt (by omega)]
  omega

theorem isEscaped_utf8 (v : Nat) :
    isEscaped 0xef (UInt8.ofNat (v / 64 % 64 + 0x80)) (UInt8.ofNat (v % 64 + 0x80)) =
      escapeCharNeedsEscape (UInt8.ofNat (v % 256)) := by
  have h1 : 0x80 ≤ (UInt8.ofNat (v / 64 % 64 + 0x80)).toNat := by
    rw [toNat_ofNat_of_lt (by omega)]
    omega
  have h2 : 0x80 ≤ (UInt8.ofNat (v % 64 + 0x80)).toNat := by
    rw [toNat_ofNat_of_lt (by omega)]
    omega
  rw [isEscaped, highBit h1, highBit h2, unescapeChar_utf8]
  rfl

theorem unescapeFrom_keep {c : Char} (hzero : c.toNat ≠ 0) (hc : ¬ Unescaped c) (count : Nat) (rest : Bytes) :
    unescapeFrom ((String.utf8EncodeChar c).length + count) (String.utf8EncodeChar c ++ rest) =
      String.utf8EncodeChar c ++ unescapeFrom count rest := by
  by_cases hascii : c.toNat < 0x80
  · apply unescapeFrom_append
    intro b hb
    rw [utf8EncodeChar_ascii hascii, mem_singleton] at hb
    have hb' := congrArg UInt8.toNat hb
    rw [toNat_ofNat_of_lt (by omega)] at hb'
    constructor
    · rintro rfl
      exact hzero hb'.symm
    · rintro rfl
      exact absurd hb' (by change 0xef ≠ _; omega)
  · by_cases hef : 0xf000 ≤ c.toNat ∧ c.toNat ≤ 0xffff
    · obtain ⟨hlow, hhigh⟩ := hef
      have hlegal : isEscaped 0xef (UInt8.ofNat (c.toNat / 64 % 64 + 0x80)) (UInt8.ofNat (c.toNat % 64 + 0x80)) = false := by
        rw [isEscaped_utf8, ← Bool.not_eq_true]
        intro hneeds
        exact hc ⟨hlow, hhigh, hneeds⟩
      have htail : ∀ b ∈ [UInt8.ofNat (c.toNat / 64 % 64 + 0x80), UInt8.ofNat (c.toNat % 64 + 0x80)],
          b ≠ 0 ∧ b ≠ 0xef := by
        intro b hb
        have hnat : 0x80 ≤ b.toNat ∧ b.toNat < 0xc0 := by
          simp only [mem_cons, not_mem_nil, or_false] at hb
          rcases hb with rfl | rfl
          · rw [toNat_ofNat_of_lt (by omega)]
            omega
          · rw [toNat_ofNat_of_lt (by omega)]
            omega
        constructor
        · rintro rfl
          exact absurd hnat (by decide)
        · rintro rfl
          exact absurd hnat (by decide)
      have hrest := unescapeFrom_append htail count rest
      rw [utf8EncodeChar_ef hlow hhigh]
      simp only [length_cons, length_nil, cons_append, nil_append] at hrest ⊢
      rw [show 0 + 1 + 1 + 1 + count = 0 + 1 + 1 + count + 1 by omega, unescapeFrom, if_neg (by decide)]
      simp only [unescapeStep, hlegal, Bool.false_eq_true, if_false]
      rw [hrest]
    · apply unescapeFrom_append
      intro b hb
      obtain ⟨hhigh, hlead⟩ := utf8EncodeChar_high (Nat.le_of_not_lt hascii) hb
      constructor
      · rintro rfl
        exact absurd hhigh (by decide)
      · intro heq
        exact hef (hlead heq)

theorem unescapeFrom_decode {c : Char} (hc : Unescaped c) {count : Nat} (hcount : 0 < count) (rest : Bytes) :
    (unescapeFrom count (String.utf8EncodeChar c ++ rest)).head? = some (UInt8.ofNat (c.toNat % 256)) := by
  obtain ⟨hlow, hhigh, hneeds⟩ := hc
  obtain ⟨count, rfl⟩ := Nat.exists_eq_succ_of_ne_zero (Nat.ne_of_gt hcount)
  rw [utf8EncodeChar_ef hlow hhigh]
  simp only [cons_append, nil_append]
  rw [unescapeFrom, if_neg (by decide)]
  simp only [unescapeStep, isEscaped_utf8, hneeds, if_true, unescapeChar_utf8, head?_cons]

/-- A path of which nothing is taken for an escaped character comes out as it is, and no
other one does. -/
theorem unescapePathInplace_iff {text : List Char} (hzero : ∀ c ∈ text, c.toNat ≠ 0) :
    (unescapePathInplace (utf8 text ++ [0])).take (utf8 text).length = utf8 text ↔
      ∀ c ∈ text, ¬ Unescaped c := by
  rw [unescapePathInplace, length_append]
  induction text with
  | nil => simp
  | cons c text ih =>
    obtain ⟨hc, htail⟩ := forall_mem_cons.mp hzero
    rw [utf8_cons, append_assoc, length_append, Nat.add_assoc, forall_mem_cons]
    by_cases hesc : Unescaped c
    · have hencoded := utf8EncodeChar_ef hesc.1 hesc.2.1
      constructor
      · intro heq
        have hpos : 0 < (String.utf8EncodeChar c).length + ((utf8 text).length + [(0 : UInt8)].length) := by
          rw [length_singleton]
          omega
        have hhead := unescapeFrom_decode hesc hpos (utf8 text ++ [0])
        have htake := congrArg List.head? heq
        rw [head?_take, hhead, hencoded, if_neg (by rw [length_cons]; omega)] at htake
        simp only [cons_append, head?_cons, Option.some.injEq] at htake
        have hlt := needsEscape_lt hesc.2.2
        rw [htake] at hlt
        exact absurd hlt (by decide)
      · intro h
        exact absurd hesc h.1
    · rw [unescapeFrom_keep hc hesc, take_length_add_append, append_cancel_left_eq, ih htail]
      exact ⟨fun h => ⟨hesc, h⟩, fun h => h.2⟩

def joined (separator : UInt8) (names : List Bytes) : Bytes := names.flatMap (separator :: ·)

@[simp] theorem joined_nil (separator : UInt8) : joined separator [] = [] := rfl

@[simp] theorem joined_cons (separator : UInt8) (name : Bytes) (names : List Bytes) :
    joined separator (name :: names) = separator :: name ++ joined separator names := flatMap_cons

def IsComponent (name : Bytes) : Prop := name ≠ [] ∧ ∀ b ∈ name, isSeparator b = false

theorem length_joined (first second : UInt8) (names : List Bytes) :
    (joined first names).length = (joined second names).length := by
  simp only [joined, length_flatMap, length_cons]

theorem foldl_component {name : Bytes} (h : ∀ b ∈ name, isSeparator b = false) (separator : UInt8)
    (dest : Bytes) : name.foldl (canonicaliseStep separator) dest = dest ++ name := by
  induction name generalizing dest with
  | nil => simp
  | cons b name ih =>
    obtain ⟨hb, htail⟩ := forall_mem_cons.mp h
    rw [foldl_cons, canonicaliseStep, hb, if_neg Bool.false_ne_true, ih htail, append_assoc]
    rfl

theorem foldl_joined {separator source : UInt8} (hsep : isSeparator separator = true)
    (hsrc : isSeparator source = true) {names : List Bytes} (h : ∀ name ∈ names, IsComponent name)
    {dest : Bytes} (hdest : dest.getLast? ≠ some separator) :
    (joined source names).foldl (canonicaliseStep separator) dest = dest ++ joined separator names := by
  induction names generalizing dest with
  | nil => simp
  | cons name names ih =>
    obtain ⟨⟨hne, hname⟩, htail⟩ := forall_mem_cons.mp h
    have hstep : canonicaliseStep separator dest source = dest ++ [separator] := by
      rw [canonicaliseStep, if_pos hsrc, if_neg]
      rintro ⟨-, hlast⟩
      exact hdest hlast
    have hlast : (dest ++ [separator] ++ name).getLast? ≠ some separator := by
      rw [getLast?_append_of_ne_nil _ hne]
      intro heq
      have hmem := hname separator (mem_of_getLast? heq)
      rw [hsep] at hmem
      exact absurd hmem (by decide)
    rw [joined_cons, foldl_append, foldl_cons, hstep, foldl_component hname, ih htail hlast,
      joined_cons]
    simp only [append_assoc, cons_append, nil_append]

theorem canonicalise_joined {separator source : UInt8} (hsep : isSeparator separator = true)
    (hsrc : isSeparator source = true) {names : List Bytes} (h : ∀ name ∈ names, IsComponent name) :
    canonicalise separator (joined source names) = joined separator names := by
  rw [canonicalise, foldl_joined hsep hsrc h (by simp)]
  rfl

theorem canonicalise_buffer {separator : UInt8} {path result : Bytes} (hzero : 0 ∉ path)
    (hres : canonicalise separator path = result) (hlen : result.length = path.length) :
    utilCanonicalisePathSeparator separator (path ++ [0]) = result ++ [0] := by
  rw [utilCanonicalisePathSeparator, cString_append_zero hzero, hres, Window.overwrite]
  simp [hlen]

theorem escapePathForNt_joined (names : List Bytes) :
    escapePathForNt (joined pathSep names) = joined pathSepNt (names.map escapePathForNt) := by
  induction names with
  | nil => rfl
  | cons name names ih =>
    rw [joined_cons, escapePathForNt_append, ih, map_cons, joined_cons, escapePathForNt, flatMap_cons]
    rfl

theorem isComponent_escape {name : Bytes} (hne : name ≠ []) (h : pathSep ∉ name) :
    IsComponent (escapePathForNt name) := by
  constructor
  · intro hnil
    have hlen := length_escapePathForNt name
    have hle := length_le_escape name
    rw [hnil, length_nil] at hlen
    apply hne
    apply eq_nil_of_length_eq_zero
    omega
  · exact escape_no_separator h

end WslPlus.Paths

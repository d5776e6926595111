import WslPlus.Lib.CString

/-!
# Arrays of strings in messages

Each string of an array has its length in front of it, and the length -1 ends the array.
The reader follows the lengths through a span from which an element may only be taken
in front of its end: gsl ends the process otherwise.
-/

namespace WslPlus.Text

open List CString

/-- The bytes of an `int32_t` with this value modulo 4294967296. -/
def int32Bytes (n : Nat) : Bytes := [.ofNat n, .ofNat (n / 256), .ofNat (n / 65536), .ofNat (n / 16777216)]

def int32Max : Nat := 2147483647

def entry (string : Bytes) : Bytes := int32Bytes string.length ++ string

/-- `MessageWriter::WriteStringArray`, with the buffers that the pointers point to. A string that is
too long is an invalid argument. -/
def writeStringArray (strings : List Bytes) : Option Bytes :=
  if strings.all fun string => (cString string).length ≤ int32Max then
    some (strings.flatMap (fun string => entry (cString string)) ++ int32Bytes 4294967295)
  else none

inductive ReadResult where
  | strings (list : List Bytes)
  | invalidArgument
  | terminated

def int32Value (b₀ b₁ b₂ b₃ : UInt8) : Int :=
  Int.bmod (b₀.toNat + 256 * (b₁.toNat + 256 * (b₂.toNat + 256 * b₃.toNat)) : Nat) 4294967296

def ReadResult.cons (string : Bytes) : ReadResult → ReadResult
  | .strings list => .strings (string :: list)
  | .invalidArgument => .invalidArgument
  | .terminated => .terminated

def readSize : Bytes → Option (Int × Bytes)
  | b₀ :: b₁ :: b₂ :: b₃ :: rest => some (int32Value b₀ b₁ b₂ b₃, rest)
  | _ => none

variable {span rest : Bytes} {size : Int}

theorem readSize_length (h : readSize span = some (size, rest)) : rest.length < span.length := by
  unfold readSize at h
  split at h
  · simp only [Option.some.injEq, Prod.mk.injEq] at h
    obtain ⟨-, rfl⟩ := h
    simp only [length_cons]
    omega
  · cases h

/-- The loop of `ArrayFromSpan`. The first byte of a string is taken even if the string has none. -/
def readStrings (span : Bytes) : ReadResult :=
  match _hr : readSize span with
  | none => .invalidArgument
  | some (size, rest) =>
    if size = -1 then .strings []
    else if size < 0 then .invalidArgument
    else if rest.length < size then .invalidArgument
    else if rest = [] then .terminated
    else (readStrings (rest.drop size.toNat)).cons (rest.take size.toNat)
termination_by span.length
decreasing_by
  have hlt := readSize_length _hr
  rw [List.length_drop]
  omega

def arrayFromSpan (span : Bytes) (offset : Nat) : ReadResult :=
  if span.length < offset then .invalidArgument else readStrings (span.drop offset)

theorem int32Value_of_lt {n : Nat} (h : n < 2147483648) :
    int32Value (.ofNat n) (.ofNat (n / 256)) (.ofNat (n / 65536)) (.ofNat (n / 16777216)) = n := by
  have hnat : (UInt8.ofNat n).toNat + 256 * ((UInt8.ofNat (n / 256)).toNat +
      256 * ((UInt8.ofNat (n / 65536)).toNat + 256 * (UInt8.ofNat (n / 16777216)).toNat)) = n := by
    simp only [UInt8.toNat_ofNat']
    omega
  unfold int32Value
  simp only [hnat]
  exact Int.bmod_eq_of_le (by omega) (by omega)

theorem int32Value_minusOne : int32Value 255 255 255 255 = -1 := by decide

theorem int32Bytes_value {b₀ b₁ b₂ b₃ : UInt8} (h : 0 ≤ int32Value b₀ b₁ b₂ b₃) :
    int32Bytes (int32Value b₀ b₁ b₂ b₃).toNat = [b₀, b₁, b₂, b₃] ∧
      (int32Value b₀ b₁ b₂ b₃).toNat ≤ int32Max := by
  have h₀ := b₀.toNat_lt
  have h₁ := b₁.toNat_lt
  have h₂ := b₂.toNat_lt
  have h₃ := b₃.toNat_lt
  have hvalue : (int32Value b₀ b₁ b₂ b₃).toNat =
      b₀.toNat + 256 * (b₁.toNat + 256 * (b₂.toNat + 256 * b₃.toNat)) ∧
      (int32Value b₀ b₁ b₂ b₃).toNat ≤ int32Max := by
    unfold int32Value at h ⊢
    unfold int32Max
    rw [Int.bmod_def] at h ⊢
    split at h <;> omega
  have hbyte : ∀ (b : UInt8) (n : Nat), n % 256 = b.toNat → UInt8.ofNat n = b := by
    intro b n hn
    apply UInt8.toNat_inj.mp
    rw [UInt8.toNat_ofNat']
    exact hn
  refine ⟨?_, hvalue.2⟩
  rw [hvalue.1, int32Bytes, hbyte b₀ _ (by omega), hbyte b₁ _ (by omega), hbyte b₂ _ (by omega),
    hbyte b₃ _ (by omega)]

theorem of_readSize (h : readSize span = some (size, rest)) (hsize : 0 ≤ size) :
    span = int32Bytes size.toNat ++ rest ∧ size.toNat ≤ int32Max := by
  unfold readSize at h
  split at h
  · simp only [Option.some.injEq, Prod.mk.injEq] at h
    obtain ⟨rfl, rfl⟩ := h
    obtain ⟨hbytes, hmax⟩ := int32Bytes_value hsize
    refine ⟨?_, hmax⟩
    rw [hbytes]
    rfl
  · cases h

theorem readStrings_of_size (h : readSize span = some (size, rest)) :
    readStrings span =
      if size = -1 then .strings []
      else if size < 0 then .invalidArgument
      else if rest.length < size then .invalidArgument
      else if rest = [] then .terminated
      else (readStrings (rest.drop size.toNat)).cons (rest.take size.toNat) := by
  rw [readStrings]
  split
  · rename_i hr
    rw [h] at hr
    cases hr
  · rename_i hr
    rw [h] at hr
    cases hr
    rfl

theorem readSize_int32Bytes {n : Nat} (h : n < 2147483648) (rest : Bytes) :
    readSize (int32Bytes n ++ rest) = some ((n : Int), rest) := by
  have hread : readSize (int32Bytes n ++ rest) = some (int32Value (.ofNat n) (.ofNat (n / 256))
      (.ofNat (n / 65536)) (.ofNat (n / 16777216)), rest) := rfl
  rw [hread, int32Value_of_lt h]

theorem readStrings_entry {string rest : Bytes} (hlen : string.length ≤ int32Max)
    (hrest : string ++ rest ≠ []) : readStrings (entry string ++ rest) = (readStrings rest).cons string := by
  have hlt : string.length < 2147483648 := by
    unfold int32Max at hlen
    omega
  have hfits : ¬ ((string ++ rest).length : Int) < string.length := by
    rw [length_append]
    omega
  rw [entry, append_assoc, readStrings_of_size (readSize_int32Bytes hlt _), if_neg (by omega),
    if_neg (by omega), if_neg hfits, if_neg hrest, Int.toNat_natCast, drop_left, take_left]

theorem readStrings_end (rest : Bytes) : readStrings (int32Bytes 4294967295 ++ rest) = .strings [] := by
  have hread : readSize (int32Bytes 4294967295 ++ rest) = some (-1, rest) := by
    rw [← int32Value_minusOne]
    rfl
  rw [readStrings_of_size hread, if_pos rfl]

theorem readStrings_entries (strings : List Bytes) (h : ∀ string ∈ strings, string.length ≤ int32Max)
    (after : Bytes) :
    readStrings (strings.flatMap entry ++ (int32Bytes 4294967295 ++ after)) = .strings strings := by
  induction strings with
  | nil => exact readStrings_end after
  | cons string strings ih =>
    have hrest := ih fun s hs => h s (mem_cons_of_mem string hs)
    rw [flatMap_cons, append_assoc, readStrings_entry (h string mem_cons_self) (by simp [int32Bytes]),
      hrest]
    rfl

def EndsInEmpty (rest : Bytes) : Prop :=
  ∃ strings : List Bytes, (∀ string ∈ strings, string.length ≤ int32Max) ∧
    rest = strings.flatMap entry ++ int32Bytes 0

theorem terminated_of_cons {string : Bytes} {r : ReadResult} (h : r.cons string = .terminated) :
    r = .terminated := by
  cases r with
  | strings list => cases h
  | invalidArgument => cases h
  | terminated => rfl

theorem EndsInEmpty.cons {string rest : Bytes} (h : EndsInEmpty rest) (hlen : string.length ≤ int32Max) :
    EndsInEmpty (entry string ++ rest) := by
  obtain ⟨strings, hstrings, rfl⟩ := h
  refine ⟨string :: strings, ?_, by simp⟩
  intro s hs
  rcases mem_cons.mp hs with rfl | hs
  · exact hlen
  · exact hstrings s hs

theorem endsInEmpty_of_terminated (span : Bytes) (h : readStrings span = .terminated) : EndsInEmpty span := by
  fun_induction readStrings span with
  | case1 span hr => cases h
  | case2 span rest hr => cases h
  | case3 span size rest hr hne hneg => cases h
  | case4 span size rest hr hne hneg hfits => cases h
  | case5 span size hne hneg hr hfits =>
    obtain ⟨hspan, -⟩ := of_readSize hr (Int.not_lt.mp hneg)
    have hzero : size.toNat = 0 := by
      simp only [length_nil] at hfits
      omega
    refine ⟨[], by simp, ?_⟩
    rw [hspan, hzero]
    rfl
  | case6 span size rest hr hne hneg hfits hnil ih =>
    obtain ⟨hspan, hmax⟩ := of_readSize hr (Int.not_lt.mp hneg)
    have htake : (rest.take size.toNat).length = size.toNat := by
      rw [length_take]
      omega
    have hcut : span = entry (rest.take size.toNat) ++ rest.drop size.toNat := by
      rw [hspan, entry, htake, append_assoc, take_append_drop]
    rw [hcut]
    exact (ih (terminated_of_cons h)).cons (by rw [htake]; exact hmax)

theorem terminated_of_endsInEmpty {span : Bytes} (h : EndsInEmpty span) : readStrings span = .terminated := by
  obtain ⟨strings, hstrings, rfl⟩ := h
  induction strings with
  | nil =>
    have hread : readSize ([].flatMap entry ++ int32Bytes 0) = some (0, []) :=
      readSize_int32Bytes (by omega) []
    rw [readStrings_of_size hread, if_neg (by omega), if_neg (by omega), if_neg (by simp), if_pos rfl]
  | cons string strings ih =>
    have hrest := ih fun s hs => hstrings s (mem_cons_of_mem string hs)
    rw [flatMap_cons, append_assoc,
      readStrings_entry (hstrings string mem_cons_self) (by simp [int32Bytes]), hrest]
    rfl

def Safe (r : ReadResult) : Prop := r ≠ .terminated

theorem arrayFromSpan_terminated_iff (span : Bytes) (offset : Nat) :
    arrayFromSpan span offset = .terminated ↔ EndsInEmpty (span.drop offset) := by
  unfold arrayFromSpan
  split
  · rename_i hlt
    constructor
    · intro h
      cases h
    · rintro ⟨strings, -, heq⟩
      rw [drop_of_length_le (Nat.le_of_lt hlt)] at heq
      have hlen := congrArg List.length heq
      simp [int32Bytes] at hlen
  · exact ⟨endsInEmpty_of_terminated _, terminated_of_endsInEmpty⟩

theorem arrayFromSpan_written {strings : List Bytes} {bytes : Bytes} (hnul : ∀ string ∈ strings, 0 ∉ string)
    (h : writeStringArray strings = some bytes) (before after : Bytes) :
    arrayFromSpan (before ++ bytes ++ after) before.length = .strings strings := by
  have hsame : ∀ string ∈ strings, cString string = string := fun s hs => cString_of_not_mem (hnul s hs)
  unfold writeStringArray at h
  split at h
  · rename_i hall
    cases h
    have hmap : strings.flatMap (fun string => entry (cString string)) = strings.flatMap entry := by
      refine flatMap_congr fun s hs => ?_
      rw [hsame s hs]
    have hlen : ∀ string ∈ strings, string.length ≤ int32Max := by
      intro s hs
      have hle := all_eq_true.mp hall s hs
      rw [hsame s hs] at hle
      exact of_decide_eq_true hle
    rw [arrayFromSpan, if_neg (by simp), append_assoc, drop_left, hmap, append_assoc]
    exact readStrings_entries strings hlen after
  · cases h

/-- What was written is read back wherever it stands, and the reader takes no element beyond the end
exactly if the span does not end in the length of an empty string behind whole entries. -/
theorem arrayFromSpan_safe_iff (span : Bytes) (offset : Nat) :
    (∀ (strings : List Bytes) (bytes before after : Bytes), (∀ string ∈ strings, 0 ∉ string) →
      writeStringArray strings = some bytes →
      arrayFromSpan (before ++ bytes ++ after) before.length = .strings strings) ∧
    (Safe (arrayFromSpan span offset) ↔ ¬ EndsInEmpty (span.drop offset)) :=
  ⟨fun _ _ before after hnul h => arrayFromSpan_written hnul h before after,
    not_congr (arrayFromSpan_terminated_iff span offset)⟩

/-- The length of an empty string and nothing behind it. -/
theorem arrayFromSpan_terminates : ¬ Safe (arrayFromSpan [0, 0, 0, 0] 0) := by
  intro h
  exact h ((arrayFromSpan_terminated_iff _ _).mpr ⟨[], by simp, rfl⟩)

def fromSpan (span : Bytes) (offset : Nat) : Option (Bytes) :=
  if span.length < offset then none
  else if 0 ∈ span.drop offset then some (CString.cString (span.drop offset)) else none

end WslPlus.Text

import Mathlib.Data.List.Basic

/-!
# The prefix and the broadcast address of an endpoint

`GetPrefix` masks an address byte by byte. `GetIpv4BroadcastMask` shifts the prefix out of a word
of ones and back. A shift by 32 or more is undefined; the processors take its amount modulo 32, so
that a prefix of 32 bits is not shifted out.
-/

namespace WslPlus.Network.EndpointPrefix

inductive Family where
  | inet
  | inet6
  | other
deriving DecidableEq

def Family.addressLength : Family → Nat
  | .inet => 4
  | .inet6 => 16
  | .other => 0

/-- An `EndpointIpAddress`, with the bytes of its address in network order. -/
structure EndpointIpAddress where
  family : Family
  bytes : List (BitVec 8)
  prefixLength : Nat
  complete : bytes.length = family.addressLength
  short : prefixLength ≤ 8 * family.addressLength

/-- The loop of `GetPrefix`, with `currPrefixLength`. -/
def maskBytes : Int → List (BitVec 8) → List (BitVec 8)
  | _, [] => []
  | currPrefixLength, byte :: rest =>
    (if currPrefixLength < 8 then
      let bitShiftAmt := (8 - max currPrefixLength 0).toNat
      byte &&& ((0xFF#32 >>> bitShiftAmt) <<< bitShiftAmt).truncate 8
    else byte) :: maskBytes (currPrefixLength - 8) rest

/-- `GetPrefix`, where `text` is `SockAddrInetToWstring`. -/
def getPrefix (text : Family → List (BitVec 8) → String) (a : EndpointIpAddress) : String :=
  if a.family = .other then ""
  else
    let addressString := text a.family (maskBytes a.prefixLength a.bytes)
    if addressString = "" then addressString else addressString ++ "/" ++ toString a.prefixLength

def ntohl : List (BitVec 8) → BitVec 32
  | [b₀, b₁, b₂, b₃] => b₀ ++ b₁ ++ b₂ ++ b₃
  | _ => 0

def htonl (word : BitVec 32) : List (BitVec 8) :=
  [word.extractLsb' 24 8, word.extractLsb' 16 8, word.extractLsb' 8 8, word.extractLsb' 0 8]

/-- The amount of a shift of an `ULONG`, as the processor takes it. -/
def shiftAmount (amount : Nat) : Nat := amount % 32

def prefixMask (prefixLength : Nat) : BitVec 32 :=
  (0xffffffff#32 <<< shiftAmount prefixLength) >>> shiftAmount prefixLength

/-- The address that `GetIpv4BroadcastMask` writes down. -/
def broadcast (a : EndpointIpAddress) : List (BitVec 8) := htonl (ntohl a.bytes ||| prefixMask a.prefixLength)

def getIpv4BroadcastMask (text : Family → List (BitVec 8) → String) (a : EndpointIpAddress) : String :=
  text .inet (broadcast a)

def bit (bytes : List (BitVec 8)) (k : Nat) : Bool := (bytes.getD (k / 8) 0).getMsbD (k % 8)

theorem bit_cons (byte : BitVec 8) (rest : List (BitVec 8)) (k : Nat) :
    bit (byte :: rest) k = if k < 8 then byte.getMsbD k else bit rest (k - 8) := by
  unfold bit
  split
  · rw [Nat.div_eq_of_lt ‹_›, Nat.mod_eq_of_lt ‹_›]
    rfl
  · rw [show k / 8 = (k - 8) / 8 + 1 by omega, show k % 8 = (k - 8) % 8 by omega]
    rfl

theorem getMsbD_shift (amount k : Nat) (h : amount ≤ 8) (hk : k < 8) :
    (((0xFF#32 >>> amount) <<< amount).truncate 8 : BitVec 8).getMsbD k = decide (k < 8 - amount) := by
  have hall : ∀ amount ∈ List.range 9, ∀ k ∈ List.range 8,
      (((0xFF#32 >>> amount) <<< amount).truncate 8 : BitVec 8).getMsbD k = decide (k < 8 - amount) := by decide
  exact hall amount (List.mem_range.mpr (by omega)) k (List.mem_range.mpr hk)

theorem bit_maskBytes (length : Int) (bytes : List (BitVec 8)) (k : Nat) :
    bit (maskBytes length bytes) k = (decide ((k : Int) < length) && bit bytes k) := by
  induction bytes generalizing length k with
  | nil => simp [maskBytes, bit]
  | cons byte rest ih =>
    rw [maskBytes, bit_cons, bit_cons, ih]
    split
    case isTrue hk =>
      split
      case isTrue hlen =>
        rw [BitVec.getMsbD_and, getMsbD_shift _ _ (by omega) hk, Bool.and_comm]
        congr 2
        apply propext
        omega
      case isFalse hlen => simp [show (k : Int) < length by omega]
    case isFalse hk =>
      congr 2
      apply propext
      omega

theorem getMsbD_prefixMask {length k : Nat} (hlen : length < 32) (hk : k < 32) :
    (prefixMask length).getMsbD k = decide (length ≤ k) := by
  have hall : ∀ length ∈ List.range 32, ∀ k ∈ List.range 32,
      (prefixMask length).getMsbD k = decide (length ≤ k) := by decide
  exact hall length (List.mem_range.mpr hlen) k (List.mem_range.mpr hk)

theorem bit_htonl (word : BitVec 32) {k : Nat} (hk : k < 32) : bit (htonl word) k = word.getMsbD k := by
  have hbyte : ∀ start j : Nat, j < 8 → start + 8 ≤ 32 →
      (word.extractLsb' start 8).getMsbD j = word.getMsbD (24 - start + j) := by
    intro start j hj hstart
    rw [BitVec.getMsbD_eq_getLsbD, BitVec.getMsbD_eq_getLsbD, BitVec.getLsbD_extractLsb']
    simp only [show j < 8 from hj, show 8 - 1 - j < 8 by omega, show 24 - start + j < 32 by omega, decide_true,
      Bool.true_and]
    congr 1
    omega
  simp only [htonl, bit_cons]
  split
  · rw [hbyte 24 k ‹_› (by decide)]
    congr 1
    omega
  split
  · rw [hbyte 16 _ ‹_› (by decide)]
    congr 1
    omega
  split
  · rw [hbyte 8 _ ‹_› (by decide)]
    congr 1
    omega
  rw [if_pos (by omega), hbyte 0 _ (by omega) (by decide)]
  congr 1
  omega

theorem htonl_ntohl (b₀ b₁ b₂ b₃ : BitVec 8) : htonl (ntohl [b₀, b₁, b₂, b₃]) = [b₀, b₁, b₂, b₃] := by
  simp only [htonl, ntohl, List.cons.injEq, and_true]
  refine ⟨?_, ?_, ?_, ?_⟩
  all_goals
    apply BitVec.eq_of_getLsbD_eq
    intro i hi
    simp only [BitVec.getLsbD_extractLsb', BitVec.getLsbD_append, hi, decide_true, Bool.true_and]
    grind

theorem length_maskBytes (length : Int) (bytes : List (BitVec 8)) :
    (maskBytes length bytes).length = bytes.length := by
  induction bytes generalizing length with
  | nil => rfl
  | cons byte rest ih => exact congrArg (· + 1) (ih (length - 8))

def BroadcastRight (a : EndpointIpAddress) : Prop :=
  ∀ k < 32, bit (broadcast a) k = if k < a.prefixLength then bit a.bytes k else true

theorem bit_eq_ntohl {bytes : List (BitVec 8)} {b₀ b₁ b₂ b₃ : BitVec 8}
    (hbytes : bytes = [b₀, b₁, b₂, b₃]) {k : Nat}
    (hk : k < 32) : bit bytes k = (ntohl bytes).getMsbD k := by
  rw [← bit_htonl _ hk, hbytes, htonl_ntohl]

theorem bit_broadcast {a : EndpointIpAddress} {b₀ b₁ b₂ b₃ : BitVec 8}
    (hbytes : a.bytes = [b₀, b₁, b₂, b₃]) {k : Nat}
    (hk : k < 32) : bit (broadcast a) k = (bit a.bytes k || (prefixMask a.prefixLength).getMsbD k) := by
  rw [broadcast, bit_htonl _ hk, BitVec.getMsbD_or, bit_eq_ntohl hbytes hk]

theorem broadcastRight_iff {a : EndpointIpAddress} {b₀ b₁ b₂ b₃ : BitVec 8}
    (hbytes : a.bytes = [b₀, b₁, b₂, b₃])
    (hshort : a.prefixLength ≤ 32) : BroadcastRight a ↔ a.prefixLength < 32 ∨
    a.bytes = List.replicate 4 0xFF := by
  constructor
  · intro h
    by_cases hlt : a.prefixLength < 32
    · exact .inl hlt
    right
    have hfull : a.prefixLength = 32 := by omega
    have hones : ntohl a.bytes = BitVec.allOnes 32 := by
      apply BitVec.eq_of_getMsbD_eq
      intro k hk
      have hset := h k hk
      rw [bit_broadcast hbytes hk, hfull, if_pos hk, show prefixMask 32 = BitVec.allOnes 32 by decide,
        BitVec.getMsbD_allOnes, decide_eq_true hk, Bool.or_true, bit_eq_ntohl hbytes hk] at hset
      rw [← hset, BitVec.getMsbD_allOnes, decide_eq_true hk]
    rw [hbytes, ← htonl_ntohl, ← hbytes, hones]
    decide
  · intro h k hk
    rw [bit_broadcast hbytes hk]
    obtain hlt | hones := h
    · rw [getMsbD_prefixMask hlt hk]
      split
      · simp [show ¬a.prefixLength ≤ k by omega]
      · simp [show a.prefixLength ≤ k by omega]
    · have hset : bit a.bytes k = true := by
        rw [hones, ← show htonl (BitVec.allOnes 32) = List.replicate 4 0xFF by decide, bit_htonl _ hk,
          BitVec.getMsbD_allOnes, decide_eq_true hk]
      simp [hset]

/-- The prefix of every address is right. The broadcast address is right if and only if the prefix
does not have all 32 bits, or there is nothing to keep that differs from what is set. -/
theorem prefix_and_broadcast (text : Family → List (BitVec 8) → String) (a : EndpointIpAddress) :
    (∃ address : List (BitVec 8), address.length = a.family.addressLength ∧
        (∀ k, bit address k = (decide (k < a.prefixLength) && bit a.bytes k)) ∧
        (a.family ≠ .other → text a.family address ≠ "" →
          getPrefix text a = text a.family address ++ "/" ++ toString a.prefixLength)) ∧
      (a.family = .inet → getIpv4BroadcastMask text a = text .inet (broadcast a) ∧
        (BroadcastRight a ↔ a.prefixLength < 32 ∨ a.bytes = List.replicate 4 0xFF)) := by
  refine ⟨⟨maskBytes a.prefixLength a.bytes, (length_maskBytes _ _).trans a.complete, ?_, ?_⟩, ?_⟩
  · intro k
    rw [bit_maskBytes]
    simp only [Int.ofNat_lt]
  · intro hfamily htext
    rw [getPrefix, if_neg hfamily, if_neg htext]
  · intro hfamily
    have hlength := a.complete
    have hshort := a.short
    rw [hfamily] at hlength hshort
    obtain ⟨b₀, b₁, b₂, b₃, hbytes⟩ := List.length_eq_four.mp hlength
    exact ⟨rfl, broadcastRight_iff hbytes hshort⟩

/-- The broadcast address of 10.0.0.1/32. -/
theorem broadcast_of_single_address : ¬∀ a : EndpointIpAddress, a.family = .inet → BroadcastRight a := by
  intro h
  have := h ⟨.inet, [10, 0, 0, 1], 32, rfl, Nat.le_refl _⟩ rfl 0 (by decide)
  revert this
  decide

end WslPlus.Network.EndpointPrefix

import Mathlib.Algebra.GroupWithZero.Nat
import Mathlib.Data.List.Basic

/-!
# The order of adapters for DNS

`GetDnsSettings` sorts the adapters of the host by a comparison of four criteria, the
most preferable adapter first. The comparison is that of a key in which the adapter of
the best interface stands right behind the VPN adapters, but it also puts an adapter of
the best interface in front of itself.
-/

namespace WslPlus.Network.DnsAdapters

section Order

variable {α : Type}

/-- What `std::sort` asks of a comparison of the elements of a list. -/
structure StrictWeak (lt : α → α → Bool) (elements : List α) : Prop where
  irreflexive : ∀ a ∈ elements, lt a a = false
  asymmetric : ∀ a ∈ elements, ∀ b ∈ elements, lt a b = true → lt b a = false
  transitive : ∀ a ∈ elements, ∀ b ∈ elements, ∀ c ∈ elements, lt a b = true → lt b c = true → lt a c = true
  incomparable : ∀ a ∈ elements, ∀ b ∈ elements, ∀ c ∈ elements,
    lt a b = false → lt b a = false → lt b c = false → lt c b = false → lt a c = false ∧ lt c a = false

theorem strictWeak_of_key {lt : α → α → Bool} {elements : List α} (key : α → Nat)
    (h : ∀ a ∈ elements, ∀ b ∈ elements, lt a b = true ↔ key a < key b) : StrictWeak lt elements := by
  have hfalse : ∀ a ∈ elements, ∀ b ∈ elements, lt a b = false ↔ key b ≤ key a := by
    intro a ha b hb
    rw [← Bool.not_eq_true, h a ha b hb, Nat.not_lt]
  constructor
  · intro a ha
    exact (hfalse a ha a ha).mpr (Nat.le_refl _)
  · intro a ha b hb hab
    exact (hfalse b hb a ha).mpr (Nat.le_of_lt ((h a ha b hb).mp hab))
  · intro a ha b hb c hc hab hbc
    exact (h a ha c hc).mpr (Nat.lt_trans ((h a ha b hb).mp hab) ((h b hb c hc).mp hbc))
  · intro a ha b hb c hc hab hba hbc hcb
    rw [hfalse a ha b hb] at hab
    rw [hfalse b hb a ha] at hba
    rw [hfalse b hb c hc] at hbc
    rw [hfalse c hc b hb] at hcb
    rw [hfalse a ha c hc, hfalse c hc a ha]
    omega

end Order

/-- An `IP_ADAPTER_ADDRESSES`, of its DNS servers the address families. -/
structure Adapter where
  ifType : UInt32
  ifIndex : UInt32
  dnsServers : List UInt16

def afInet : UInt16 := 2

/-- `IF_TYPE_PPP` and `IF_TYPE_PROP_VIRTUAL`. -/
def isInterfaceTypeVpn (type : UInt32) : Bool := type == 23 || type == 53

/-- The interface for any IPv4 address, else that for any IPv6 address, else 0, from the
answers of `GetBestInterfaceEx`. -/
def getBestInterface (ipv4 ipv6 : Option UInt32) : UInt32 := (ipv4.or ipv6).getD 0

def hasIpv4 : List UInt16 → Bool
  | [] => false
  | ipFamily :: next => if ipFamily = afInet then true else hasIpv4 next

/-- The comparison that `GetDnsSettings` sorts with. -/
def prefers (bestInterface : UInt32) (first second : Adapter) : Bool :=
  let firstIsVpn := isInterfaceTypeVpn first.ifType
  let secondIsVpn := isInterfaceTypeVpn second.ifType
  if firstIsVpn ^^ secondIsVpn then firstIsVpn
  else if first.ifIndex = bestInterface then true
  else if second.ifIndex = bestInterface then false
  else
    let firstHasIpv4 := hasIpv4 first.dnsServers
    let secondHasIpv4 := hasIpv4 second.dnsServers
    if firstHasIpv4 ^^ secondHasIpv4 then firstHasIpv4 else first.ifIndex < second.ifIndex

def rank (preferred : Bool) : Nat := if preferred then 0 else 1

def key (bestInterface : UInt32) (a : Adapter) : Nat :=
  rank (isInterfaceTypeVpn a.ifType) * 2 ^ 34 + rank (a.ifIndex = bestInterface) * 2 ^ 33 +
    if a.ifIndex = bestInterface then 0 else rank (hasIpv4 a.dnsServers) * 2 ^ 32 + a.ifIndex.toNat

theorem prefers_iff (bestInterface : UInt32) (a b : Adapter) :
    prefers bestInterface a b = true ↔ key bestInterface a < key bestInterface b ∨
      (isInterfaceTypeVpn a.ifType = isInterfaceTypeVpn b.ifType ∧ a.ifIndex = bestInterface ∧
        b.ifIndex = bestInterface) := by
  have ha := a.ifIndex.toNat_lt
  have hb := b.ifIndex.toNat_lt
  have hlt : a.ifIndex < b.ifIndex ↔ a.ifIndex.toNat < b.ifIndex.toNat := UInt32.lt_iff_toNat_lt
  unfold prefers key
  generalize isInterfaceTypeVpn a.ifType = va
  generalize isInterfaceTypeVpn b.ifType = vb
  generalize hasIpv4 a.dnsServers = ia
  generalize hasIpv4 b.dnsServers = ib
  by_cases hfirst : a.ifIndex = bestInterface
  · by_cases hsecond : b.ifIndex = bestInterface
    · cases va <;> cases vb <;> simp [hfirst, hsecond, rank]
    · cases va <;> cases vb <;> cases ib <;> simp [hfirst, hsecond, rank] <;> omega
  · by_cases hsecond : b.ifIndex = bestInterface
    · cases va <;> cases vb <;> cases ia <;> simp [hfirst, hsecond, rank] <;> omega
    · cases va <;> cases vb <;> cases ia <;> cases ib <;> simp [hfirst, hsecond, rank, hlt] <;> omega

/-- The comparison is a strict weak order exactly if no adapter is the best interface. -/
theorem prefers_strictWeak_iff (bestInterface : UInt32) (adapters : List Adapter) :
    StrictWeak (prefers bestInterface) adapters ↔ ∀ a ∈ adapters, a.ifIndex ≠ bestInterface := by
  constructor
  · intro h a ha hbest
    have hself : prefers bestInterface a a = true := (prefers_iff bestInterface a a).mpr (.inr ⟨rfl, hbest, hbest⟩)
    rw [h.irreflexive a ha] at hself
    exact absurd hself Bool.false_ne_true
  · intro h
    apply strictWeak_of_key (key bestInterface)
    intro a ha b hb
    rw [prefers_iff, or_iff_left]
    rintro ⟨-, hbest, -⟩
    exact h a ha hbest

/-- An Ethernet adapter that is the best interface stands in front of itself, and two adapters
without an IPv4 index stand in front of each other when no best interface is found. -/
theorem prefers_not_strictWeak :
    ¬ StrictWeak (prefers (getBestInterface (some 12) none)) [⟨6, 12, [afInet]⟩] ∧
      ¬ StrictWeak (prefers (getBestInterface none none)) [⟨6, 0, [23]⟩, ⟨71, 0, [23]⟩] := by
  constructor
  · intro h
    exact absurd (h.irreflexive ⟨6, 12, [afInet]⟩ (by simp)) (by decide)
  · intro h
    exact absurd (h.asymmetric ⟨6, 0, [23]⟩ (by simp) ⟨71, 0, [23]⟩ (by simp) (by decide)) (by decide)

end WslPlus.Network.DnsAdapters

import Mathlib.Logic.Basic

/-!
# Addresses and routes of an endpoint

The types that the network engines of the host share, with the comparisons that order
their sets. Each type has the fields its `operator==` compares; texts are made from
the addresses by functions of the system.
-/

namespace WslPlus.Network

inductive AddressFamily where
  | unspec
  | inet
  | inet6
  deriving DecidableEq

/-- The value of `AF_UNSPEC`, `AF_INET` or `AF_INET6`. -/
def AddressFamily.toNat : AddressFamily → Nat
  | .unspec => 0
  | .inet => 2
  | .inet6 => 23

def AddressFamily.less (a b : AddressFamily) : Bool := a.toNat < b.toNat

/-- `SOCKADDR_INET` without port and scope: an IPv6 address is compared as two `__int64`. -/
inductive SockAddrInet where
  | unspec
  | inet (sAddr : Nat)
  | inet6 (first second : Int)
  deriving DecidableEq

def SockAddrInet.family : SockAddrInet → AddressFamily
  | .unspec => .unspec
  | .inet _ => .inet
  | .inet6 _ _ => .inet6

/-- `operator<` of `SOCKADDR_INET`. -/
def SockAddrInet.less : SockAddrInet → SockAddrInet → Bool
  | .inet a, .inet b => a < b
  | .inet6 a₁ a₂, .inet6 b₁ b₂ => if a₁ = b₁ then a₂ < b₂ else a₁ < b₁
  | a, b => a.family.less b.family

/-- `EndpointIpAddress`, with the fields its `operator==` compares. -/
structure EndpointIpAddress where
  address : SockAddrInet := .unspec
  prefixLength : Nat := 0
  deriving DecidableEq

def EndpointIpAddress.less (a b : EndpointIpAddress) : Bool :=
  if a.address = b.address then a.prefixLength < b.prefixLength else a.address.less b.address

/-- `EndpointRoute`, with the fields its `operator==` compares. -/
structure EndpointRoute where
  family : AddressFamily
  destinationPrefix : SockAddrInet
  destinationPrefixLength : Nat
  nextHop : SockAddrInet
  sitePrefixLength : Nat := 0
  metric : Nat := 0
  deriving DecidableEq

def EndpointRoute.less (a b : EndpointRoute) : Bool :=
  if a.family = b.family then
    if a.nextHop = b.nextHop then
      if a.destinationPrefix = b.destinationPrefix then
        if a.destinationPrefixLength = b.destinationPrefixLength then
          if a.metric = b.metric then a.sitePrefixLength < b.sitePrefixLength
          else a.metric < b.metric
        else a.destinationPrefixLength < b.destinationPrefixLength
      else a.destinationPrefix.less b.destinationPrefix
    else a.nextHop.less b.nextHop
  else a.family.less b.family

/-- The conversions the system offers between addresses and their texts. -/
structure Winsock where
  rtlIpv4AddressToString : Nat → String
  rtlIpv6AddressToString : Int → Int → String
  stringToSockAddrInet : String → Option SockAddrInet

def Winsock.sockAddrInetToWstring (os : Winsock) : SockAddrInet → String
  | .inet a => os.rtlIpv4AddressToString a
  | .inet6 a b => os.rtlIpv6AddressToString a b
  | .unspec => "[[ADDRESS_FAMILY 0]]"

inductive ModifyRequestType where
  | add
  | remove
  | update
  deriving DecidableEq

theorem eq_of_not_less_field {α : Type} [DecidableEq α] {f : α → α → Bool} {x y : α} {r r' : Bool}
    (htotal : f x y = false → f y x = false → x = y)
    (h : (if x = y then r else f x y) = false) (h' : (if y = x then r' else f y x) = false) :
    x = y ∧ r = false ∧ r' = false := by
  by_cases hxy : x = y
  · subst hxy
    simp only [if_true] at h h'
    exact ⟨rfl, h, h'⟩
  · simp only [hxy, Ne.symm hxy, if_false] at h h'
    exact absurd (htotal h h') hxy

theorem eq_of_not_lt {m n : Nat} (h : decide (m < n) = false) (h' : decide (n < m) = false) : m = n := by
  simp only [decide_eq_false_iff_not] at h h'
  omega

theorem AddressFamily.eq_of_not_less {a b : AddressFamily} (hab : a.less b = false)
    (hba : b.less a = false) : a = b := by
  cases a with
  | unspec => cases b <;> simp_all [less, toNat]
  | inet => cases b <;> simp_all [less, toNat]
  | inet6 => cases b <;> simp_all [less, toNat]

theorem SockAddrInet.eq_of_not_less {a b : SockAddrInet} (hab : a.less b = false)
    (hba : b.less a = false) : a = b := by
  cases a with
  | unspec => cases b <;> simp_all [less, family, AddressFamily.less, AddressFamily.toNat]
  | inet x =>
    cases b with
    | inet y =>
      simp only [less, decide_eq_false_iff_not] at hab hba
      congr 1
      omega
    | unspec => simp [less, family, AddressFamily.less, AddressFamily.toNat] at hab hba
    | inet6 y z => simp [less, family, AddressFamily.less, AddressFamily.toNat] at hab hba
  | inet6 x₁ x₂ =>
    cases b with
    | inet6 y₁ y₂ =>
      simp only [less] at hab hba
      by_cases h : x₁ = y₁
      · simp only [h, if_true, decide_eq_false_iff_not] at hab hba
        have h₂ : x₂ = y₂ := by omega
        rw [h, h₂]
      · simp only [h, Ne.symm h, if_false, decide_eq_false_iff_not] at hab hba
        omega
    | unspec => simp [less, family, AddressFamily.less, AddressFamily.toNat] at hab hba
    | inet y => simp [less, family, AddressFamily.less, AddressFamily.toNat] at hab hba

theorem EndpointIpAddress.eq_of_not_less {a b : EndpointIpAddress} (hab : a.less b = false)
    (hba : b.less a = false) : a = b := by
  obtain ⟨haddress, hl, hl'⟩ := eq_of_not_less_field SockAddrInet.eq_of_not_less hab hba
  have hlen := eq_of_not_lt hl hl'
  cases a
  cases b
  simp_all

theorem EndpointRoute.eq_of_not_less {a b : EndpointRoute} (hab : a.less b = false)
    (hba : b.less a = false) : a = b := by
  unfold less at hab hba
  obtain ⟨h₁, hab, hba⟩ := eq_of_not_less_field AddressFamily.eq_of_not_less hab hba
  obtain ⟨h₂, hab, hba⟩ := eq_of_not_less_field SockAddrInet.eq_of_not_less hab hba
  obtain ⟨h₃, hab, hba⟩ := eq_of_not_less_field SockAddrInet.eq_of_not_less hab hba
  obtain ⟨h₄, hab, hba⟩ :=
    eq_of_not_less_field (f := fun (x y : Nat) => decide (x < y)) eq_of_not_lt hab hba
  obtain ⟨h₅, hab, hba⟩ :=
    eq_of_not_less_field (f := fun (x y : Nat) => decide (x < y)) eq_of_not_lt hab hba
  have h₆ := eq_of_not_lt hab hba
  cases a
  cases b
  simp_all

end WslPlus.Network

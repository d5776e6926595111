import Mathlib.Data.List.AList
import WslPlus.Lib.Path

/-!
# Distribution registrations

The keys under the user's Lxss key, one for each distribution, with the values
that the session reads from them.
-/

namespace WslPlus.Session

/-- LxssDistributionState. -/
inductive DistroState where
  | invalid
  | installed
  | running
  | installing
  | uninstalling
  | converting
  | exporting
  | compacting
deriving DecidableEq

namespace Flags

def enableInterop : BitVec 32 := 0x1#32
def appendNtPath : BitVec 32 := 0x2#32
def enableDriveMounting : BitVec 32 := 0x4#32
def vmMode : BitVec 32 := 0x8#32
def wslplusClone : BitVec 32 := 0x10#32
def all : BitVec 32 := enableInterop ||| appendNtPath ||| enableDriveMounting ||| vmMode
def defaults : BitVec 32 := enableInterop ||| appendNtPath ||| enableDriveMounting

def isSet (flags mask : BitVec 32) : Bool := flags &&& mask == mask

theorem isSet_or (flags mask : BitVec 32) : isSet (flags ||| mask) mask = true := by
  rw [isSet, beq_iff_eq]
  ext i hi
  rw [BitVec.getElem_and, BitVec.getElem_or]
  cases flags[i] <;> cases mask[i] <;> rfl

theorem isSet_and_not {mask : BitVec 32} (hmask : mask ≠ 0#32) (flags : BitVec 32) :
    isSet (flags &&& ~~~mask) mask = false := by
  have hzero : flags &&& ~~~mask &&& mask = 0#32 := by
    ext i hi
    simp
  rw [isSet, hzero, beq_eq_false_iff_ne]
  exact hmask.symm

end Flags

/-- DistributionRegistration::ApplyGlobalFlagsOverride, with the value of
DistributionFlags of the machine. -/
def applyGlobalFlagsOverride (globalFlags flags : BitVec 32) : BitVec 32 :=
  flags &&& ((globalFlags ||| Flags.vmMode) &&& Flags.all)

/-- A distribution's key. The name is missing until the guest has reported it. -/
structure Registration where
  name : Option Name
  state : DistroState
  version : Nat
  basePath : Path
  flags : BitVec 32
  packageFamilyName : List Char
  vhdFileName : Name

namespace Registration

def vhdFilePath (r : Registration) : Path := r.basePath ++ [r.vhdFileName]

def create (name : Option Name) (version : Nat) (basePath : Path) (flags : BitVec 32)
    (packageFamilyName : List Char) (vhdFileName : Name) : Registration :=
  { name, state := .installing, version, basePath, flags, packageFamilyName, vhdFileName }

end Registration

abbrev Registry := AList fun _ : Nat => Registration

structure Configuration where
  distroId : Nat
  name : Name
  state : DistroState
  version : Nat
  basePath : Path
  vhdFilePath : Path
  flags : BitVec 32
  packageFamilyName : List Char

/-- s_GetDistributionConfiguration. A key without a name cannot be read. -/
def getDistributionConfiguration (globalFlags : BitVec 32) (id : Nat) (r : Registration) :
    Option Configuration :=
  r.name.map fun name =>
    { distroId := id, name, state := r.state, version := r.version, basePath := r.basePath,
      vhdFilePath := r.vhdFilePath, flags := applyGlobalFlagsOverride globalFlags r.flags,
      packageFamilyName := r.packageFamilyName }

def distroVersionLegacy : Nat := 0

def distroVersionCurrent : Nat := 2

def distroNameMax : Nat := 256

def isNameChar (c : Char) : Bool := c.isAlphanum || c == '.' || c == '_' || c == '-'

def ValidName (name : Name) : Prop :=
  (∀ c ∈ name, isNameChar c) ∧ 0 < name.length ∧ name.length ≤ distroNameMax ∧
    Path.lower name ≠ "legacy".toList

-- The quantifier runs over the characters of the name and not over all characters.
instance (name : Name) : Decidable (ValidName name) :=
  @instDecidableAnd _ _ (List.decidableBAll _ name) inferInstance

/-- _ValidateDistributionNameAndPathNotInUse does not throw: every other key can
be read, has another name and another base path. A key that cannot be read makes
_EnumerateDistributions throw when it takes it for an orphan. -/
def notInUse (reg : Registry) (path : Option Path) (name : Option Name) (exclude : Option Nat) : Bool :=
  reg.entries.all fun e =>
    some e.1 == exclude ||
      match e.2.name with
      | none => false
      | some n =>
        !(name.any fun m => Path.lower m == Path.lower n) && !(path.any fun p => p == e.2.basePath)

theorem notInUse_spec {reg : Registry} {path : Option Path} {name : Option Name} {exclude : Option Nat}
    (h : notInUse reg path name exclude = true) {id : Nat} {r : Registration}
    (hr : reg.lookup id = some r) (hid : some id ≠ exclude) :
    ∃ n, r.name = some n ∧ (∀ m, name = some m → Path.lower m ≠ Path.lower n) ∧
      ∀ p, path = some p → p ≠ r.basePath := by
  have hmem : (⟨id, r⟩ : Sigma fun _ => Registration) ∈ reg.entries := AList.mem_lookup_iff.mp hr
  have he := List.all_eq_true.mp h ⟨id, r⟩ hmem
  cases hname : r.name with
  | none => simp [hname, hid] at he
  | some n =>
    simp only [hname, Bool.or_eq_true, beq_iff_eq, hid, false_or, Bool.and_eq_true,
      Bool.not_eq_true', Option.any_eq_false, beq_eq_false_iff_ne] at he
    exact ⟨n, rfl, he.1, he.2⟩

def DiskUnused (registry : Registry) (path : Path) : Prop :=
  ∀ e ∈ registry.entries, e.2.vhdFilePath ≠ path

instance (registry : Registry) (path : Path) : Decidable (DiskUnused registry path) :=
  inferInstanceAs (Decidable (∀ e ∈ registry.entries, _))

section Lookup

variable {registry : Registry} {id j : Nat} {r r' : Registration}

theorem lookup_insert_cases (h : (registry.insert id r).lookup j = some r') :
    (j = id ∧ r' = r) ∨ (j ≠ id ∧ registry.lookup j = some r') := by
  by_cases hji : j = id
  · subst hji
    rw [AList.lookup_insert] at h
    exact .inl ⟨rfl, (Option.some.inj h).symm⟩
  · rw [AList.lookup_insert_ne hji] at h
    exact .inr ⟨hji, h⟩

theorem lookup_of_erase (h : (registry.erase id).lookup j = some r) : registry.lookup j = some r := by
  by_cases hji : j = id
  · subst hji
    rw [AList.lookup_erase] at h
    cases h
  · rwa [AList.lookup_erase_ne hji] at h

theorem vhdFilePath_ne_of_basePath (h : r.basePath ≠ r'.basePath) : r.vhdFilePath ≠ r'.vhdFilePath := by
  intro heq
  exact h (List.append_inj_left' heq rfl)

theorem basePath_ne_of_notInUse {path : Path} {name : Option Name}
    (h : notInUse registry (some path) name none = true) (hj : registry.lookup j = some r) :
    r.basePath ≠ path := by
  obtain ⟨-, -, -, hpath⟩ := notInUse_spec h hj nofun
  exact (hpath path rfl).symm

theorem diskUnused_of_notInUse {path : Path} {name : Option Name}
    (h : notInUse registry (some path) name none = true) (file : Name) :
    DiskUnused registry (path ++ [file]) := by
  intro e he heq
  exact basePath_ne_of_notInUse h (AList.mem_lookup_iff.mpr he) (List.append_inj_left' heq rfl)

def DisksDistinct (registry : Registry) : Prop :=
  ∀ i j r r', registry.lookup i = some r → registry.lookup j = some r' → i ≠ j →
    r.vhdFilePath ≠ r'.vhdFilePath

theorem disksDistinct_of_entries
    (h : ∀ e ∈ registry.entries, ∀ e' ∈ registry.entries, e.1 ≠ e'.1 → e.2.vhdFilePath ≠ e'.2.vhdFilePath) :
    DisksDistinct registry :=
  fun i j r r' hi hj => h ⟨i, r⟩ (AList.mem_lookup_iff.mp hi) ⟨j, r'⟩ (AList.mem_lookup_iff.mp hj)

theorem DisksDistinct.insert (h : DisksDistinct registry)
    (hdisk : ∀ j r', registry.lookup j = some r' → j ≠ id → r'.vhdFilePath ≠ r.vhdFilePath) :
    DisksDistinct (registry.insert id r) := by
  intro i j r₁ r₂ h₁ h₂ hij
  rcases lookup_insert_cases h₁ with ⟨rfl, rfl⟩ | ⟨hi, h₁'⟩ <;>
    rcases lookup_insert_cases h₂ with ⟨rfl, rfl⟩ | ⟨hj, h₂'⟩
  · exact absurd rfl hij
  · exact (hdisk j r₂ h₂' hj).symm
  · exact hdisk i r₁ h₁' hi
  · exact h i j r₁ r₂ h₁' h₂' hij

theorem DisksDistinct.erase (h : DisksDistinct registry) (id : Nat) : DisksDistinct (registry.erase id) :=
  fun i j r₁ r₂ h₁ h₂ => h i j r₁ r₂ (lookup_of_erase h₁) (lookup_of_erase h₂)

end Lookup

end WslPlus.Session

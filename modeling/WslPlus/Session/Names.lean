import WslPlus.Lib.Transition
import WslPlus.Session.Clone

/-!
# Names and disks of distributions

The steps are the critical sections in which registrations appear, change and
disappear, in any order. A name that the guest reports is checked and written
outside the lock, in two steps.
-/

namespace WslPlus.Session

namespace Names

/-- The machine and the names that have passed their check and are not written. -/
structure State where
  machine : Machine
  pending : Nat → Option Name

inductive Op where
  | register (id : Nat) (name : Option Name) (path : Path) (vmMode : Bool)
      (packageFamilyName : List Char) (vhdName : Name)
  | checkGuestName (id : Nat) (name : Name)
  | writeGuestName (id : Nat)
  | setInstalled (id : Nat)
  | importInplace (id : Nat) (name : Name) (directory : Path) (file : Name) (succeeds : Bool)
  | clone (ok : Clone.Step → Bool) (globalFlags : BitVec 32) (id newId : Nat) (newName : Name) (full : Bool)
  /-- MoveDistribution, by whether the new base path stays written. The instance
  and the lock of the distribution are not part of this model. -/
  | move (id : Nat) (location : Path) (written : Bool)
  | unregister (id : Nat)
  /-- The end of UnregisterDistribution, of a failed registration or of the
  removal of an orphan. -/
  | deleteKey (id : Nat)
  | disks (files : Files)

namespace State

def withRegistry (s : State) (registry : Registry) : State :=
  { s with machine := { s.machine with registry := registry } }

def add (s : State) (id : Nat) (r : Registration) : State :=
  if id ∈ s.machine.registry then s else s.withRegistry (s.machine.registry.insert id r)

def write (s : State) (id : Nat) (f : Registration → Registration) : State :=
  match s.machine.registry.lookup id with
  | none => s
  | some r => s.withRegistry (s.machine.registry.insert id (f r))

end State

def step : Op → State → State
  | .register id name path vmMode packageFamilyName vhdName, s =>
    if (name.all fun n => decide (ValidName n)) ∧ notInUse s.machine.registry (some path) name none then
      s.add id
        (.create name distroVersionCurrent path
          (if vmMode then Flags.defaults ||| Flags.vmMode else Flags.defaults) packageFamilyName vhdName)
    else s
  | .checkGuestName id name, s =>
    if ValidName name ∧ notInUse s.machine.registry none (some name) (some id) then
      { s with pending := fun i => if i = id then some name else s.pending i }
    else s
  | .writeGuestName id, s =>
    match s.pending id with
    | none => s
    | some name => s.write id fun r => { r with name := some name }
  | .setInstalled id, s => s.write id fun r => { r with state := .installed }
  | .importInplace id name directory file succeeds, s =>
    if ValidName name ∧ notInUse s.machine.registry (some directory) (some name) none ∧ succeeds then
      s.add id
        { Registration.create (some name) distroVersionCurrent directory (Flags.defaults ||| Flags.vmMode) [] file with
          state := .installed }
    else s
  | .clone ok globalFlags id newId newName full, s =>
    if newId ∈ s.machine.registry then s
    else { s with machine := (cloneDistribution ok globalFlags id newId newName full s.machine).2 }
  | .move id location written, s =>
    if notInUse s.machine.registry (some location) none none ∧ written ∧
        (s.machine.registry.lookup id).any (fun r => Flags.isSet r.flags Flags.vmMode) then
      s.write id fun r => { r with basePath := location }
    else s
  | .unregister id, s => s.write id fun r => { r with state := .uninstalling }
  | .deleteKey id, s => s.withRegistry (s.machine.registry.erase id)
  | .disks files, s => { s with machine := { s.machine with files := files } }

/-- No two registrations have one name, up to case, or one disk, and every
recorded name is valid. -/
structure Unique (registry : Registry) : Prop where
  names : ∀ i j r r' n n', registry.lookup i = some r → registry.lookup j = some r' → i ≠ j →
    r.name = some n → r'.name = some n' → Path.lower n ≠ Path.lower n'
  disks : DisksDistinct registry
  valid : ∀ i r n, registry.lookup i = some r → r.name = some n → ValidName n

def NameUnused (registry : Registry) (id : Nat) (name : Name) : Prop :=
  ∀ e ∈ registry.entries, e.1 ≠ id → ∀ n ∈ e.2.name, Path.lower n ≠ Path.lower name

instance (registry : Registry) (id : Nat) (name : Name) : Decidable (NameUnused registry id name) :=
  inferInstanceAs (Decidable (∀ e ∈ registry.entries, _))

/-- The steps that the code does not check: a clone has a valid, unused name and
an unused disk path, and the guest's name is still unused. -/
def Checked (op : Op) (s : State) : Prop :=
  match op with
  | .clone _ globalFlags id newId newName _ =>
    ValidName newName ∧ NameUnused s.machine.registry newId newName ∧
      ∀ source ∈ (s.machine.registry.lookup id).bind (getDistributionConfiguration globalFlags id),
        DiskUnused s.machine.registry (Clone.newRegistration source newName).vhdFilePath
  | .writeGuestName id => ∀ name ∈ s.pending id, NameUnused s.machine.registry id name
  | _ => True

instance (op : Op) (s : State) : Decidable (Checked op s) :=
  match op with
  | .clone .. => inferInstanceAs (Decidable (_ ∧ _ ∧ _))
  | .writeGuestName _ => inferInstanceAs (Decidable (∀ _ ∈ _, _))
  | .register .. | .checkGuestName .. | .setInstalled _ | .importInplace .. | .move .. | .unregister _
  | .deleteKey _ | .disks _ => .isTrue trivial

variable {registry : Registry} {id : Nat} {r : Registration} {s : State}

theorem unique_empty : Unique ∅ where
  names := fun i _ _ _ _ _ h => by simp at h
  disks := fun i _ _ _ h => by simp at h
  valid := fun i _ _ h => by simp at h

theorem Unique.insert (h : Unique registry)
    (hname : ∀ n, r.name = some n → ValidName n ∧ NameUnused registry id n)
    (hdisk : ∀ j r', registry.lookup j = some r' → j ≠ id → r'.vhdFilePath ≠ r.vhdFilePath) :
    Unique (registry.insert id r) := by
  refine ⟨?_, h.disks.insert hdisk, ?_⟩
  · intro i j r₁ r₂ n₁ n₂ h₁ h₂ hij hn₁ hn₂
    rcases lookup_insert_cases h₁ with ⟨rfl, rfl⟩ | ⟨hi, h₁'⟩ <;>
      rcases lookup_insert_cases h₂ with ⟨rfl, rfl⟩ | ⟨hj, h₂'⟩
    · exact absurd rfl hij
    · exact ((hname n₁ hn₁).2 ⟨j, r₂⟩ (AList.mem_lookup_iff.mp h₂') hj n₂ hn₂).symm
    · exact (hname n₂ hn₂).2 ⟨i, r₁⟩ (AList.mem_lookup_iff.mp h₁') hi n₁ hn₁
    · exact h.names i j r₁ r₂ n₁ n₂ h₁' h₂' hij hn₁ hn₂
  · intro i r₁ n hi hn
    rcases lookup_insert_cases hi with ⟨rfl, rfl⟩ | ⟨-, hi'⟩
    · exact (hname n hn).1
    · exact h.valid i r₁ n hi' hn

theorem Unique.erase (h : Unique registry) (id : Nat) : Unique (registry.erase id) :=
  ⟨fun i j r₁ r₂ n₁ n₂ h₁ h₂ => h.names i j r₁ r₂ n₁ n₂ (lookup_of_erase h₁) (lookup_of_erase h₂),
    h.disks.erase id, fun i r₁ n h₁ => h.valid i r₁ n (lookup_of_erase h₁)⟩

/-- The registrations are unique and the names that wait to be written are valid. -/
structure Inv (s : State) : Prop where
  unique : Unique s.machine.registry
  pending : ∀ i n, s.pending i = some n → ValidName n

theorem Unique.nameUnused (h : Unique registry) (hr : registry.lookup id = some r) {n : Name}
    (hn : r.name = some n) : NameUnused registry id n := by
  intro e he hne n' hn'
  exact h.names e.1 id e.2 r n' n (AList.mem_lookup_iff.mpr he) hr hne hn' hn

theorem Inv.add (h : Inv s) (hname : ∀ n, r.name = some n → ValidName n ∧ NameUnused s.machine.registry id n)
    (hdisk : ∀ j r', s.machine.registry.lookup j = some r' → j ≠ id → r'.vhdFilePath ≠ r.vhdFilePath) :
    Inv (s.add id r) := by
  unfold State.add
  split
  · exact h
  · exact ⟨h.unique.insert hname hdisk, h.pending⟩

theorem Inv.write (h : Inv s) {f : Registration → Registration}
    (hname : ∀ r n, s.machine.registry.lookup id = some r → (f r).name = some n →
      ValidName n ∧ NameUnused s.machine.registry id n)
    (hdisk : ∀ r j r', s.machine.registry.lookup id = some r → s.machine.registry.lookup j = some r' →
      j ≠ id → r'.vhdFilePath ≠ (f r).vhdFilePath) : Inv (s.write id f) := by
  unfold State.write
  cases hr : s.machine.registry.lookup id with
  | none => exact h
  | some r =>
    exact ⟨h.unique.insert (fun n hn => hname r n hr hn) (fun j r' hj hne => hdisk r j r' hr hj hne), h.pending⟩

theorem Inv.write_state (h : Inv s) {f : Registration → Registration} (hname : ∀ r, (f r).name = r.name)
    (hdisk : ∀ r, (f r).vhdFilePath = r.vhdFilePath) : Inv (s.write id f) := by
  apply h.write
  · intro r n hr hn
    rw [hname] at hn
    exact ⟨h.unique.valid id r n hr hn, h.unique.nameUnused hr hn⟩
  · intro r j r' hr hj hne
    rw [hdisk]
    exact h.unique.disks j id r' r hj hr hne

theorem nameUnused_of_notInUse {path : Option Path} {name : Name} {exclude : Option Nat} {id : Nat}
    (h : notInUse registry path (some name) exclude = true) (hid : ∀ j, j ≠ id → some j ≠ exclude) :
    NameUnused registry id name := by
  intro e he hne n hn
  obtain ⟨n', hn', hnames, -⟩ := notInUse_spec h (AList.mem_lookup_iff.mpr he) (hid e.1 hne)
  rw [Option.mem_def, hn'] at hn
  rw [← Option.some.inj hn]
  exact (hnames name rfl).symm

theorem Inv.add_checked (h : Inv s) (path : Path) (name : Option Name)
    (hvalid : ∀ n, name = some n → ValidName n)
    (hfree : notInUse s.machine.registry (some path) name none = true) (hname : r.name = name)
    (hpath : r.basePath = path) : Inv (s.add id r) := by
  apply h.add
  · intro n hn
    rw [hname] at hn
    subst hn
    exact ⟨hvalid n rfl, nameUnused_of_notInUse hfree nofun⟩
  · intro j r' hj _
    apply vhdFilePath_ne_of_basePath
    rw [hpath]
    exact basePath_ne_of_notInUse hfree hj

theorem step_inv (op : Op) (s : State) (h : Inv s) (hop : Checked op s) : Inv (step op s) := by
  cases op with
  | register id name path vmMode packageFamilyName vhdName =>
    simp only [step]
    split
    next hcond =>
      refine h.add_checked path name ?_ hcond.2 rfl rfl
      rintro n rfl
      simpa using hcond.1
    next => exact h
  | checkGuestName id name =>
    simp only [step]
    split
    next hcond =>
      refine ⟨h.unique, ?_⟩
      intro i n hn
      by_cases hi : i = id
      · obtain rfl := Option.some.inj ((if_pos hi).symm.trans hn)
        exact hcond.1
      · exact h.pending i n ((if_neg hi).symm.trans hn)
    next => exact h
  | writeGuestName id =>
    simp only [step]
    cases hp : s.pending id with
    | none => exact h
    | some name =>
      apply h.write
      · rintro r n - hn
        obtain rfl := Option.some.inj hn
        exact ⟨h.pending id name hp, hop name hp⟩
      · intro r j r' hr hj hne
        exact h.unique.disks j id r' r hj hr hne
  | setInstalled id => exact h.write_state (fun _ => rfl) (fun _ => rfl)
  | importInplace id name directory file succeeds =>
    simp only [step]
    split
    next hcond =>
      refine h.add_checked directory (some name) ?_ hcond.2.1 rfl rfl
      rintro n hn
      obtain rfl := Option.some.inj hn
      exact hcond.1
    next => exact h
  | clone ok globalFlags id newId newName full =>
    obtain ⟨hvalid, hunused, hdisk⟩ := hop
    simp only [step]
    split
    next => exact h
    next =>
      rcases cloneDistribution_cases ok globalFlags id newId newName full s.machine with
        hm | ⟨source, hsrc, -, hm | hm⟩
      · rw [hm]
        exact h
      · rw [hm]
        exact ⟨h.unique, h.pending⟩
      · rw [hm]
        refine ⟨h.unique.insert ?_ ?_, h.pending⟩
        · intro n hn
          obtain rfl := Option.some.inj hn
          exact ⟨hvalid, hunused⟩
        · intro j r' hj _
          exact hdisk source hsrc ⟨j, r'⟩ (AList.mem_lookup_iff.mp hj)
  | move id location written =>
    simp only [step]
    split
    next hcond =>
      apply h.write
      · intro r n hr hn
        exact ⟨h.unique.valid id r n hr hn, h.unique.nameUnused hr hn⟩
      · intro r j r' hr hj _
        exact vhdFilePath_ne_of_basePath (basePath_ne_of_notInUse hcond.1 hj)
    next => exact h
  | unregister id => exact h.write_state (fun _ => rfl) (fun _ => rfl)
  | deleteKey id => exact ⟨h.unique.erase id, h.pending⟩
  | disks files => exact ⟨h.unique, h.pending⟩

/-- In every run whose clones are given valid, unused names and disk paths, and
whose guests report names that are still unused when they are written, names and
disks are unique and names are valid. -/
theorem run_unique {ops : List Op} {s : State} (hs : Inv s) (hops : Allowed step Checked ops s) :
    Unique (runSteps step ops s).machine.registry :=
  (inv_runSteps step_inv hs hops).unique

def start : State :=
  { machine :=
      { registry := ∅
        files := fun p =>
          if p = ["c:".toList, "a".toList, "ext4.vhdx".toList] then some { data := 1, parent := none }
          else none }
    pending := fun _ => none }

def cloneRun (newName : Name) : List Op :=
  [.register 0 (some "ubuntu".toList) ["c:".toList, "a".toList] true [] "ext4.vhdx".toList, .setInstalled 0,
    .register 1 none ["c:".toList, "b".toList] true [] "ext4.vhdx".toList,
    .checkGuestName 1 "debian".toList, .writeGuestName 1, .setInstalled 1,
    .clone (fun _ => true) Flags.all 0 2 newName true]

theorem run_unique_copy : Unique (runSteps step (cloneRun "copy".toList) start).machine.registry :=
  run_unique ⟨unique_empty, nofun⟩
    ⟨trivial, trivial, trivial, trivial, by decide, trivial, by decide, trivial⟩

/-- A clone can take the name of another distribution. -/
theorem clone_takes_name : ¬ Unique (runSteps step (cloneRun "Debian".toList) start).machine.registry := by
  intro h
  have hdebian : ((runSteps step (cloneRun "Debian".toList) start).machine.registry.lookup 1).map
      Registration.name = some (some "debian".toList) := by
    rfl
  have hclone : ((runSteps step (cloneRun "Debian".toList) start).machine.registry.lookup 2).map
      Registration.name = some (some "Debian".toList) := by
    rfl
  obtain ⟨r, hr, hn⟩ := Option.map_eq_some_iff.mp hdebian
  obtain ⟨r', hr', hn'⟩ := Option.map_eq_some_iff.mp hclone
  exact h.names 1 2 r r' _ _ hr hr' (by decide) hn hn' (by rfl)

end Names

end WslPlus.Session

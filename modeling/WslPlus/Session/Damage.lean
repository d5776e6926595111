import WslPlus.Lib.Transition
import WslPlus.Session.Operations

/-!
# Damage to other distributions

An operation on one distribution must leave the files that another one depends
on as they are. It stays within an area that is given by its own registration
and arguments. That areas of two distributions do not meet is only checked as
far as the base path of a new registration differs from all others.
-/

namespace WslPlus.Session.Operations

open Bool List

def LinkedTo (files : Files) : Path → Path → Prop :=
  Relation.TransGen fun p q => (files p).bind File.parent = some q

def DependsOn (m : Machine) (r : Registration) (p : Path) : Prop :=
  match r.form with
  | .vhd => p = r.vhdFilePath ∨ LinkedTo m.files r.vhdFilePath p
  | .rootfs => Path.Within r.rootfsPath p

def Undamaged (m : Machine) (op : Op) (m' : Machine) : Prop :=
  ∀ j r, m.registry.lookup j = some r → j ≠ op.target → ∀ p, DependsOn m r p → m'.files p = m.files p

def areaOf (m : Machine) (id : Nat) (f : Registration → Area) : Area :=
  ((m.registry.lookup id).map f).getD (.ofFiles [])

def sourceOf (m : Machine) (globalFlags : BitVec 32) (id : Nat) : Option Configuration :=
  (m.registry.lookup id).bind (getDistributionConfiguration globalFlags id)

def clonedFiles (op : Op) (m : Machine) : List Path :=
  match op with
  | .clone _ globalFlags id _ newName _ =>
    ((sourceOf m globalFlags id).map (Clone.targetDisk · newName)).toList
  | _ => []

def clonedPaths (op : Op) (m : Machine) : List Path :=
  match op with
  | .clone _ globalFlags id _ newName _ =>
    ((sourceOf m globalFlags id).map fun s => (Clone.newRegistration s newName).vhdFilePath).toList
  | _ => []

def area (op : Op) (m : Machine) : Area :=
  match op with
  | .register _ _ name _ path vmMode packageFamilyName vhdName =>
    importArea (newDistribution name path vmMode packageFamilyName vhdName)
  | .importInplace _ _ name directory file => importArea (importedDistribution name directory file)
  | .clone .. => .ofFiles (clonedFiles op m)
  | .move _ id location =>
    areaOf m id fun r => .ofFiles [r.vhdFilePath, location ++ [r.vhdFileName]]
  | .setVersion _ _ _ _ _ id => areaOf m id fun r => r.disk.union r.rootfs
  | .resize _ id | .compact _ id | .setSparse _ _ _ id | .snapshot _ id => areaOf m id Registration.disk
  | .start _ id => areaOf m id instanceArea
  | .unregister _ id | .removeOrphan _ id => areaOf m id (deleteArea .all)

def newPaths (op : Op) (m : Machine) : List Path :=
  match op with
  | .register _ _ _ _ path _ _ vhdName => [path ++ [vhdName]]
  | .importInplace _ _ _ directory file => [directory ++ [file]]
  | .clone .. => clonedPaths op m
  | .move _ id location => ((m.registry.lookup id).map fun r => location ++ [r.vhdFileName]).toList
  | _ => []

/-- No other distribution's disk is linked to the file, and it is not in the root
file system of another one. -/
def Unlinked (m : Machine) (id : Nat) (p : Path) : Prop :=
  ∀ j r, m.registry.lookup j = some r → j ≠ id →
    match r.form with
    | .vhd => ¬ LinkedTo m.files r.vhdFilePath p
    | .rootfs => ¬ Path.Within r.rootfsPath p

def Separate (m : Machine) (id : Nat) (directory : Path) : Prop :=
  ∀ j r, m.registry.lookup j = some r → j ≠ id → ∀ p, DependsOn m r p → ¬ Path.Within directory p

/-- What the code does not check: disks of other distributions are linked to none
of the files, the directories hold nothing of other distributions, and a clone
has a disk of its own. -/
structure Apart (op : Op) (m : Machine) : Prop where
  files : ∀ p ∈ (area op m).files, Unlinked m op.target p
  directories : ∀ d ∈ (area op m).directories, Separate m op.target d
  clonedPaths : ∀ p ∈ clonedPaths op m, DiskUnused m.registry p
  clonedFiles : ∀ p ∈ clonedFiles op m, ∀ e ∈ m.registry.entries, e.2.form = .vhd → e.2.vhdFilePath ≠ p

def Sub (a b : Area) : Prop := a.files ⊆ b.files ∧ a.directories ⊆ b.directories

section Areas

variable {a b c : Area} {r : Registration}

theorem covers_iff {p : Path} : a.covers p = true ↔ p ∈ a.files ∨ ∃ d ∈ a.directories, Path.Within d p := by
  simp [Area.covers]

theorem Sub.covers (h : Sub a b) {p : Path} (hp : b.covers p = false) : a.covers p = false := by
  rw [← not_eq_true, covers_iff] at hp ⊢
  rintro (hfile | ⟨d, hd, hin⟩)
  · exact hp (.inl (h.1 hfile))
  · exact hp (.inr ⟨d, h.2 hd, hin⟩)

theorem sub_refl (a : Area) : Sub a a := ⟨List.Subset.refl _, List.Subset.refl _⟩

theorem sub_union_left (a b : Area) : Sub a (a.union b) :=
  ⟨subset_append_left _ _, subset_append_left _ _⟩

theorem sub_union_right (a b : Area) : Sub b (a.union b) :=
  ⟨subset_append_right _ _, subset_append_right _ _⟩

theorem Sub.trans (hab : Sub a b) (hbc : Sub b c) : Sub a c :=
  ⟨List.Subset.trans hab.1 hbc.1, List.Subset.trans hab.2 hbc.2⟩

theorem union_sub (ha : Sub a c) (hb : Sub b c) : Sub (a.union b) c :=
  ⟨append_subset.mpr ⟨ha.1, hb.1⟩, append_subset.mpr ⟨ha.2, hb.2⟩⟩

theorem nothing_sub (a : Area) : Sub (.ofFiles []) a := ⟨nil_subset _, nil_subset _⟩

theorem newRootfs_sub (r : Registration) : Sub (newRootfs r) r.rootfs := by
  refine ⟨nil_subset _, ?_⟩
  intro d hd
  exact mem_of_mem_take (i := 1) hd

theorem formArea_sub (r : Registration) : Sub (r.formArea r.form) (importArea r) := sub_union_left _ _

theorem deleteArea_form_sub (r : Registration) : Sub (deleteArea (.form r.form) r) (importArea r) := by
  refine Sub.trans ?_ (formArea_sub r)
  cases r.form with
  | vhd => exact union_sub (union_sub (sub_refl _) (nothing_sub _)) (nothing_sub _)
  | rootfs => exact union_sub (union_sub (nothing_sub _) (sub_refl _)) (nothing_sub _)

end Areas

/-- An operation changes no file outside an area and no key but its own, and
registers no disk path but the old one and the given ones. -/
structure Confined (id : Nat) (a : Area) (paths : List Path) (m m' : Machine) : Prop where
  files : ∀ p, a.covers p = false → m'.files p = m.files p
  others : ∀ j, j ≠ id → m'.registry.lookup j = m.registry.lookup j
  own : ∀ r', m'.registry.lookup id = some r' →
    r'.vhdFilePath ∈ paths ∨ ∃ r, m.registry.lookup id = some r ∧ r'.vhdFilePath = r.vhdFilePath

namespace Confined

variable {id : Nat} {a b : Area} {paths : List Path} {m m₁ m₂ : Machine}

theorem refl (id : Nat) (a : Area) (paths : List Path) (m : Machine) : Confined id a paths m m where
  files := fun _ _ => rfl
  others := fun _ _ => rfl
  own := fun r' h => .inr ⟨r', h, rfl⟩

theorem trans (h₁ : Confined id a paths m m₁) (h₂ : Confined id a paths m₁ m₂) : Confined id a paths m m₂ where
  files := fun p hp => (h₂.files p hp).trans (h₁.files p hp)
  others := fun j hj => (h₂.others j hj).trans (h₁.others j hj)
  own := by
    intro r' h
    rcases h₂.own r' h with hnew | ⟨r, hr, heq⟩
    · exact .inl hnew
    · rw [heq]
      exact h₁.own r hr

theorem of_files (hreg : m₁.registry = m.registry)
    (h : ∀ p, a.covers p = false → m₁.files p = m.files p) : Confined id a paths m m₁ where
  files := h
  others := fun j _ => by rw [hreg]
  own := by
    intro r' hr'
    rw [hreg] at hr'
    exact .inr ⟨r', hr', rfl⟩

theorem write (h : Sub b a) (contents : Files) : Confined id a paths m (m.write b contents) := by
  refine of_files rfl ?_
  intro p hp
  simp only [Machine.write, h.covers hp, false_eq_true, if_false]

theorem remove (h : Sub b a) (removes : Path → Bool) : Confined id a paths m (m.remove b removes) := by
  refine of_files rfl ?_
  intro p hp
  simp only [Machine.remove, h.covers hp, Bool.false_and, false_eq_true, if_false]

theorem putFile {path : Path} (h : path ∈ a.files) (disk : Option File) :
    Confined id a paths m (m.putFile path disk) := by
  refine of_files rfl ?_
  intro p hp
  have hne : p ≠ path := by
    rintro rfl
    rw [covers_iff.mpr (.inl h)] at hp
    cases hp
  exact if_neg hne

theorem register (h₁ : Confined id a paths m m₁) {r : Registration}
    (h : r.vhdFilePath ∈ paths ∨ ∃ r₀, m.registry.lookup id = some r₀ ∧ r.vhdFilePath = r₀.vhdFilePath) :
    Confined id a paths m (m₁.register id r) where
  files := h₁.files
  others := fun j hj => (AList.lookup_insert_ne hj).trans (h₁.others j hj)
  own := by
    intro r' hr'
    rw [Machine.register_registry, AList.lookup_insert] at hr'
    rw [← Option.some.inj hr']
    exact h

theorem deleteKey : Confined id a paths m (m.deleteKey id) where
  files := fun _ _ => rfl
  others := fun j hj => AList.lookup_erase_ne hj
  own := by
    intro r' hr'
    rw [Machine.deleteKey, AList.lookup_erase] at hr'
    cases hr'

theorem cleanupKey (o : Outcome) : Confined id a paths m (cleanupKey o id m) := by
  unfold Operations.cleanupKey
  split
  · exact deleteKey
  · exact refl _ _ _ _

theorem withRegistration {f : Registration → Machine → Machine}
    (h : ∀ r, m.registry.lookup id = some r → Confined id a paths m (f r m)) :
    Confined id a paths m (withRegistration id f m) := by
  unfold Operations.withRegistration
  cases hr : m.registry.lookup id with
  | none => exact refl _ _ _ _
  | some r =>
    dsimp only
    split
    · exact h r hr
    · exact refl _ _ _ _

end Confined

section Operations

variable {m : Machine} {id : Nat} {r : Registration} {a : Area} {paths : List Path}

theorem areaOf_eq (h : m.registry.lookup id = some r) (f : Registration → Area) : areaOf m id f = f r := by
  rw [areaOf, h]
  rfl

theorem createForm_confined (o : Outcome) (r : Registration) (m : Machine) :
    Confined id (importArea r) paths m (createForm o r m).2 := by
  have hform := formArea_sub r
  unfold createForm
  cases h : r.form with
  | vhd =>
    rw [h] at hform
    dsimp only
    split
    · exact .write hform _
    · exact .refl _ _ _ _
  | rootfs =>
    rw [h] at hform
    have hnew : Sub (newRootfs r) (importArea r) := (newRootfs_sub r).trans hform
    dsimp only
    split
    · split
      · exact .write hnew _
      · exact (Confined.write hnew _).trans (.remove hnew _)
    · exact .refl _ _ _ _

theorem registerDistribution_confined (o : Outcome) (id : Nat) (name guestName : Option Name) (path : Path)
    (vmMode : Bool) (packageFamilyName : List Char) (vhdName : Name) (m : Machine) :
    Confined id (importArea (newDistribution name path vmMode packageFamilyName vhdName)) [path ++ [vhdName]] m
      (registerDistribution o id name guestName path vmMode packageFamilyName vhdName m) := by
  unfold registerDistribution
  generalize hr : newDistribution name path vmMode packageFamilyName vhdName = r
  have hpath : r.vhdFilePath ∈ [path ++ [vhdName]] := by
    rw [← hr]
    exact mem_singleton_self _
  split
  · have hkey : Confined id (importArea r) [path ++ [vhdName]] m (m.register id r) :=
      (Confined.refl _ _ _ _).register (.inl hpath)
    have hcreated := hkey.trans (createForm_confined o r (m.register id r))
    dsimp only
    split
    · have hfilled := hcreated.trans (.write (sub_refl _) o.contents)
      split
      · exact hfilled.register (.inl hpath)
      · exact (hfilled.trans (.remove (deleteArea_form_sub r) _)).trans (.cleanupKey o)
    · exact hcreated.trans (.cleanupKey o)
  · exact .refl _ _ _ _

theorem importDistributionInplace_confined (o : Outcome) (id : Nat) (name : Name) (directory : Path)
    (file : Name) (m : Machine) :
    Confined id (importArea (importedDistribution name directory file)) [directory ++ [file]] m
      (importDistributionInplace o id name directory file m) := by
  unfold importDistributionInplace
  generalize hr : importedDistribution name directory file = r
  have hpath : r.vhdFilePath ∈ [directory ++ [file]] := by
    rw [← hr]
    exact mem_singleton_self _
  split
  · have hcreated : Confined id (importArea r) [directory ++ [file]] m (m.register id r) :=
      (Confined.refl _ _ _ _).register (.inl hpath)
    dsimp only
    split
    · have hfilled := hcreated.trans (.write (sub_refl _) o.contents)
      split
      · exact hfilled.register (.inl hpath)
      · exact hfilled.trans (.cleanupKey o)
    · exact hcreated.trans (.cleanupKey o)
  · exact .refl _ _ _ _

theorem clone_confined (ok : Clone.Step → Bool) (globalFlags : BitVec 32) (id newId : Nat) (newName : Name)
    (full : Bool) (m : Machine) :
    Confined newId (.ofFiles ((sourceOf m globalFlags id).map (Clone.targetDisk · newName)).toList)
      ((sourceOf m globalFlags id).map fun s => (Clone.newRegistration s newName).vhdFilePath).toList m
      (clone ok globalFlags id newId newName full m) := by
  unfold clone
  split
  · exact .refl _ _ _ _
  · rcases cloneDistribution_cases ok globalFlags id newId newName full m with
      hm | ⟨source, hsrc, -, hm⟩
    · rw [hm]
      exact .refl _ _ _ _
    · have hsrc : sourceOf m globalFlags id = some source := hsrc
      rw [hsrc]
      have hdisk : Confined newId (.ofFiles [Clone.targetDisk source newName])
          [(Clone.newRegistration source newName).vhdFilePath] m
          (m.putFile (Clone.targetDisk source newName) (Clone.newDisk full source.vhdFilePath m)) :=
        .putFile (mem_singleton_self _) _
      rcases hm with hm | hm
      · rw [hm]
        exact hdisk
      · rw [hm]
        exact hdisk.register (.inl (mem_singleton_self _))

section

variable (o : Outcome)
include o

theorem recordMove_confined {location : Path} (disk : Option File)
    (hr : m.registry.lookup id = some r) :
    Confined id (.ofFiles [r.vhdFilePath, location ++ [r.vhdFileName]]) [location ++ [r.vhdFileName]] m
      (recordMove o id location r disk m) := by
  have hwritten : Confined id (.ofFiles [r.vhdFilePath, location ++ [r.vhdFileName]])
      [location ++ [r.vhdFileName]] m
      (if o.ok .writeBasePath then m.register id { r with basePath := location } else m) := by
    split
    · exact (Confined.refl _ _ _ _).register (.inl (mem_singleton_self _))
    · exact .refl _ _ _ _
  have hback := (hwritten.trans (.putFile mem_cons_self disk)).trans
    (.putFile (mem_cons_of_mem _ (mem_singleton_self _)) none)
  unfold recordMove
  dsimp only
  split
  · exact hwritten
  · split
    · split
      · exact hback.register (.inr ⟨r, hr, rfl⟩)
      · exact hback
    · exact hwritten

theorem moveDistribution_confined (id : Nat) (location : Path) (m : Machine) :
    Confined id (area (.move o id location) m) (newPaths (.move o id location) m) m
      (moveDistribution o id location m) := by
  refine .withRegistration ?_
  intro r hr
  rw [area, areaOf_eq hr, newPaths, hr]
  dsimp only
  split
  · have hmoved : Confined id (.ofFiles [r.vhdFilePath, location ++ [r.vhdFileName]])
        [location ++ [r.vhdFileName]] m
        ((m.putFile (location ++ [r.vhdFileName]) (m.files r.vhdFilePath)).putFile r.vhdFilePath none) :=
      (Confined.putFile (mem_cons_of_mem _ (mem_singleton_self _)) _).trans
        (.putFile mem_cons_self none)
    exact hmoved.trans (recordMove_confined o _ hr)
  · exact .refl _ _ _ _

theorem workOnDisk_confined (accepts : Registration → Bool) (id : Nat) (m : Machine) :
    Confined id (areaOf m id Registration.disk) [] m (workOnDisk o accepts id m) := by
  refine .withRegistration ?_
  intro r hr
  rw [areaOf_eq hr]
  split
  · exact .write (sub_refl _) _
  · exact .refl _ _ _ _

theorem startDistribution_confined (id : Nat) (m : Machine) :
    Confined id (areaOf m id instanceArea) [] m (startDistribution o id m) := by
  refine .withRegistration ?_
  intro r hr
  rw [areaOf_eq hr]
  split
  · exact .write (sub_refl _) _
  · exact .refl _ _ _ _

theorem leaveForm_confined (form : Form) (contents : Option Contents) (h : Sub (r.formArea form) a) :
    Confined id a paths m (leaveForm o r form contents m) := by
  cases contents with
  | none => exact .remove h _
  | some contents => exact .write h _

theorem setVersionOn_confined (outcomes : SetVersion.Outcomes) (version : Nat)
    (globalFlags : BitVec 32) (lxcoreInitialized : Bool) (id : Nat) (m : Machine) :
    Confined id (areaOf m id fun r => r.disk.union r.rootfs) [] m
      (setVersionOn o outcomes version globalFlags lxcoreInitialized id m) := by
  refine .withRegistration ?_
  intro r hr
  rw [areaOf_eq hr]
  dsimp only
  split
  · generalize hres : (setVersion outcomes version globalFlags lxcoreInitialized id
      { registration := r, storage := storage r m, deleteFlags := [] }).2 = result
    have hdisk : Confined id (r.disk.union r.rootfs) [] m (leaveForm o r .vhd (result.storage .vhd) m) :=
      leaveForm_confined o .vhd _ (sub_union_left _ _)
    refine (hdisk.trans (leaveForm_confined o .rootfs _ (sub_union_right _ _))).register (.inr ⟨r, hr, ?_⟩)
    rw [← hres, setVersion_vhdFilePath]
  · exact .refl _ _ _ _

theorem unregisterDistribution_confined (id : Nat) (m : Machine) :
    Confined id (areaOf m id (deleteArea .all)) [] m (unregisterDistribution o id m) := by
  refine .withRegistration ?_
  intro r hr
  rw [areaOf_eq hr]
  dsimp only
  split
  · have hmarked : Confined id (deleteArea .all r) [] m
        (if o.ok .writeState then m.register id { r with state := .uninstalling } else m) := by
      split
      · exact (Confined.refl _ _ _ _).register (.inr ⟨r, hr, rfl⟩)
      · exact .refl _ _ _ _
    split
    · exact (hmarked.trans (.remove (sub_refl _) _)).trans (.cleanupKey o)
    · exact hmarked.trans (.cleanupKey o)
  · exact .refl _ _ _ _

theorem removeOrphan_confined (id : Nat) (m : Machine) :
    Confined id (areaOf m id (deleteArea .all)) [] m (removeOrphan o id m) := by
  refine .withRegistration ?_
  intro r hr
  rw [areaOf_eq hr]
  split
  · exact (Confined.remove (sub_refl _) _).trans (.cleanupKey o)
  · exact .refl _ _ _ _

end

theorem step_confined (op : Op) (m : Machine) :
    Confined op.target (area op m) (newPaths op m) m (step op m) := by
  cases op with
  | register o id name guestName path vmMode packageFamilyName vhdName =>
    exact registerDistribution_confined o id name guestName path vmMode packageFamilyName vhdName m
  | importInplace o id name directory file => exact importDistributionInplace_confined o id name directory file m
  | clone ok globalFlags id newId newName full => exact clone_confined ok globalFlags id newId newName full m
  | move o id location => exact moveDistribution_confined o id location m
  | setVersion o outcomes version globalFlags lxcoreInitialized id =>
    exact setVersionOn_confined o outcomes version globalFlags lxcoreInitialized id m
  | resize o id => exact workOnDisk_confined o _ id m
  | setSparse o sparse allowUnsafe id => exact workOnDisk_confined o _ id m
  | snapshot o id => exact workOnDisk_confined o _ id m
  | compact o id => exact workOnDisk_confined o _ id m
  | start o id => exact startDistribution_confined o id m
  | unregister o id => exact unregisterDistribution_confined o id m
  | removeOrphan o id => exact removeOrphan_confined o id m

variable {op : Op}

/-- An operation that is not refused has checked its new disk paths, or the
condition on a clone holds. -/
theorem newPaths_unused (hop : ∀ p ∈ clonedPaths op m, DiskUnused m.registry p) :
    step op m = m ∨ ∀ p ∈ newPaths op m, DiskUnused m.registry p := by
  cases op with
  | register o id name guestName path vmMode packageFamilyName vhdName =>
    by_cases hfree : notInUse m.registry (some path) name none = true
    · refine .inr ?_
      intro p hp
      rw [mem_singleton.mp hp]
      exact diskUnused_of_notInUse hfree vhdName
    · exact .inl (if_neg fun h => hfree h.2.2.1)
  | importInplace o id name directory file =>
    by_cases hfree : notInUse m.registry (some directory) (some name) none = true
    · refine .inr ?_
      intro p hp
      rw [mem_singleton.mp hp]
      exact diskUnused_of_notInUse hfree file
    · exact .inl (if_neg fun h => hfree h.2.2.2.1)
  | clone ok globalFlags id newId newName full => exact .inr hop
  | move o id location =>
    by_cases hfree : notInUse m.registry (some location) none none = true
    · refine .inr ?_
      intro p hp
      obtain ⟨r, -, rfl⟩ := Option.map_eq_some_iff.mp (Option.mem_toList.mp hp)
      exact diskUnused_of_notInUse hfree r.vhdFileName
    · refine .inl ?_
      rw [step, moveDistribution, withRegistration]
      split
      · rfl
      · split
        · exact if_neg fun h => hfree h.2.1
        · rfl
  | setVersion o outcomes version globalFlags lxcoreInitialized id => exact .inr nofun
  | resize o id => exact .inr nofun
  | setSparse o sparse allowUnsafe id => exact .inr nofun
  | snapshot o id => exact .inr nofun
  | compact o id => exact .inr nofun
  | start o id => exact .inr nofun
  | unregister o id => exact .inr nofun
  | removeOrphan o id => exact .inr nofun

variable {p : Path}

theorem areaOf_files {f : Registration → Area} (hf : ∀ r, (f r).files ⊆ [r.vhdFilePath])
    (hp : p ∈ (areaOf m id f).files) : ∃ r, m.registry.lookup id = some r ∧ p = r.vhdFilePath := by
  cases hr : m.registry.lookup id with
  | none =>
    rw [areaOf, hr] at hp
    cases hp
  | some r =>
    rw [areaOf_eq hr] at hp
    exact ⟨r, rfl, mem_singleton.mp (hf r hp)⟩

theorem importArea_files (r : Registration) : (importArea r).files ⊆ [r.vhdFilePath] := by
  unfold importArea
  cases r.form with
  | vhd => exact List.Subset.refl _
  | rootfs => exact nil_subset _

theorem instanceArea_files (r : Registration) : (instanceArea r).files ⊆ [r.vhdFilePath] := by
  unfold instanceArea
  cases r.form with
  | vhd => exact List.Subset.refl _
  | rootfs =>
    dsimp only
    split <;> exact nil_subset _

theorem area_files (hp : p ∈ (area op m).files) :
    (∃ r, m.registry.lookup op.target = some r ∧ p = r.vhdFilePath) ∨ p ∈ newPaths op m ∨
      p ∈ clonedFiles op m := by
  cases op with
  | register o id name guestName path vmMode packageFamilyName vhdName =>
    exact .inr (.inl (importArea_files _ hp))
  | importInplace o id name directory file => exact .inr (.inl (importArea_files _ hp))
  | clone ok globalFlags id newId newName full => exact .inr (.inr hp)
  | move o id location =>
    cases hr : m.registry.lookup id with
    | none =>
      rw [area, areaOf, hr] at hp
      cases hp
    | some r =>
      rw [area, areaOf_eq hr] at hp
      rcases mem_cons.mp hp with rfl | hp
      · exact .inl ⟨r, hr, rfl⟩
      · refine .inr (.inl ?_)
        rw [newPaths, hr]
        exact hp
  | setVersion o outcomes version globalFlags lxcoreInitialized id =>
    exact .inl (areaOf_files (fun r => List.Subset.refl _) hp)
  | resize o id => exact .inl (areaOf_files (fun r => List.Subset.refl _) hp)
  | setSparse o sparse allowUnsafe id => exact .inl (areaOf_files (fun r => List.Subset.refl _) hp)
  | snapshot o id => exact .inl (areaOf_files (fun r => List.Subset.refl _) hp)
  | compact o id => exact .inl (areaOf_files (fun r => List.Subset.refl _) hp)
  | start o id => exact .inl (areaOf_files instanceArea_files hp)
  | unregister o id => exact .inl (areaOf_files (fun r => List.Subset.refl _) hp)
  | removeOrphan o id => exact .inl (areaOf_files (fun r => List.Subset.refl _) hp)

def NotDiskOf (m : Machine) (id : Nat) (p : Path) : Prop :=
  ∀ j r, m.registry.lookup j = some r → j ≠ id → r.form = .vhd → r.vhdFilePath ≠ p

theorem area_notDiskOf (hm : DisksDistinct m.registry) (hop : Apart op m) :
    step op m = m ∨ ∀ p ∈ (area op m).files, NotDiskOf m op.target p := by
  rcases newPaths_unused hop.clonedPaths with hsame | hnew
  · exact .inl hsame
  refine .inr ?_
  intro p hp j r hj hne hform
  rcases area_files hp with ⟨r', hr', rfl⟩ | hpath | hfile
  · exact hm j op.target r r' hj hr' hne
  · exact hnew p hpath ⟨j, r⟩ (AList.mem_lookup_iff.mp hj)
  · exact hop.clonedFiles p hfile ⟨j, r⟩ (AList.mem_lookup_iff.mp hj) hform

/-- No distribution depends on a file that is its disk for none, that no disk is
linked to and that is in no root file system. -/
theorem Unlinked.not_dependsOn (h : Unlinked m id p) (hdisk : NotDiskOf m id p) {j : Nat}
    (hj : m.registry.lookup j = some r) (hne : j ≠ id) : ¬ DependsOn m r p := by
  have hlinked := h j r hj hne
  unfold DependsOn
  cases hform : r.form with
  | vhd =>
    rw [hform] at hlinked
    rintro (rfl | hlink)
    · exact hdisk j r hj hne hform rfl
    · exact hlinked hlink
  | rootfs =>
    rw [hform] at hlinked
    exact hlinked

theorem step_distinct (hm : DisksDistinct m.registry) (hop : ∀ p ∈ clonedPaths op m, DiskUnused m.registry p) :
    DisksDistinct (step op m).registry := by
  rcases newPaths_unused hop with hsame | hnew
  · rw [hsame]
    exact hm
  have hstep := step_confined op m
  have hold : ∀ j r, j ≠ op.target → (step op m).registry.lookup j = some r → m.registry.lookup j = some r := by
    intro j r hj hr
    rwa [hstep.others j hj] at hr
  have hown : ∀ j r r', (step op m).registry.lookup op.target = some r' → m.registry.lookup j = some r →
      j ≠ op.target → r.vhdFilePath ≠ r'.vhdFilePath := by
    intro j r r' hr' hj hne
    rcases hstep.own r' hr' with hpath | ⟨r₀, hr₀, heq⟩
    · exact hnew _ hpath ⟨j, r⟩ (AList.mem_lookup_iff.mp hj)
    · rw [heq]
      exact hm j op.target r r₀ hj hr₀ hne
  intro i j r₁ r₂ h₁ h₂ hij
  by_cases hi : i = op.target
  · have hj : j ≠ op.target := fun h => hij (hi.trans h.symm)
    rw [hi] at h₁
    exact (hown j r₂ r₁ h₁ (hold j r₂ hj h₂) hj).symm
  · by_cases hj : j = op.target
    · rw [hj] at h₂
      exact hown i r₁ r₂ h₂ (hold i r₁ hi h₁) hi
    · exact hm i j r₁ r₂ (hold i r₁ hi h₁) (hold j r₂ hj h₂) hij

theorem step_undamaged (op : Op) (m : Machine) (hm : DisksDistinct m.registry) (hop : Apart op m) :
    Undamaged m op (step op m) := by
  rcases area_notDiskOf hm hop with hsame | hfiles
  · rw [hsame]
    exact fun _ _ _ _ _ _ => rfl
  intro j r hj hne p hp
  apply (step_confined op m).files
  rw [← not_eq_true, covers_iff]
  rintro (hfile | ⟨d, hd, hin⟩)
  · exact (hop.files p hfile).not_dependsOn (hfiles p hfile) hj hne hp
  · exact hop.directories d hd j r hj hne p hp hin

end Operations

variable {m : Machine}

/-- In every run whose operations are kept apart, none of them damages a
distribution other than its own. -/
theorem run_undamaged {ops : List Op} (hm : DisksDistinct m.registry)
    (hops : Allowed step Apart ops m) : Along step Undamaged ops m := by
  have hdistinct : ∀ op m, DisksDistinct m.registry → Apart op m → DisksDistinct (step op m).registry :=
    fun op m hm hop => step_distinct hm hop.clonedPaths
  exact along_of_step hdistinct step_undamaged hm hops

/-- A test whether an area is apart from a distribution whose disk is not linked
to others. -/
def otherTest (a : Area) (m : Machine) (r : Registration) : Bool :=
  match r.form with
  | .vhd =>
    (m.files r.vhdFilePath).bind File.parent == none &&
      a.directories.all fun d => !decide (Path.Within d r.vhdFilePath)
  | .rootfs =>
    a.files.all (fun p => !decide (Path.Within r.rootfsPath p)) &&
      a.directories.all fun d =>
        !decide (Path.Within d r.rootfsPath) && !decide (Path.Within r.rootfsPath d)

def othersTest (op : Op) (m : Machine) : Bool :=
  m.registry.entries.all fun e => e.1 == op.target || otherTest (area op m) m e.2

def apartTest (op : Op) (m : Machine) : Bool :=
  othersTest op m && decide (∀ p ∈ clonedPaths op m, DiskUnused m.registry p) &&
    decide (∀ p ∈ clonedFiles op m, ∀ e ∈ m.registry.entries, e.2.form = .vhd → e.2.vhdFilePath ≠ p)

theorem not_linkedTo {files : Files} {p q : Path} (h : (files p).bind File.parent = none) :
    ¬ LinkedTo files p q := by
  intro hlink
  obtain ⟨c, hc, -⟩ := Relation.TransGen.head'_iff.mp hlink
  rw [h] at hc
  cases hc

theorem othersTest_spec {op : Op} (h : othersTest op m = true) {j : Nat} {r : Registration}
    (hj : m.registry.lookup j = some r) (hne : j ≠ op.target) : otherTest (area op m) m r = true := by
  have he := all_eq_true.mp h ⟨j, r⟩ (AList.mem_lookup_iff.mp hj)
  rw [or_eq_true, beq_iff_eq] at he
  exact he.resolve_left hne

theorem apart_of_test {op : Op} (htest : apartTest op m = true) : Apart op m := by
  obtain ⟨⟨htest, hpaths⟩, hfiles⟩ := by simpa only [apartTest, and_eq_true, decide_eq_true_eq] using htest
  refine ⟨?_, ?_, hpaths, hfiles⟩
  · intro p hp j r hj hne
    have hr := othersTest_spec htest hj hne
    unfold otherTest at hr
    cases hform : r.form with
    | vhd =>
      simp only [hform, and_eq_true, beq_iff_eq] at hr
      exact not_linkedTo hr.1
    | rootfs =>
      simp only [hform, and_eq_true] at hr
      simpa using all_eq_true.mp hr.1 p hp
  · intro d hd j r hj hne p hp hin
    have hr := othersTest_spec htest hj hne
    unfold otherTest at hr
    unfold DependsOn at hp
    cases hform : r.form with
    | vhd =>
      simp only [hform, and_eq_true, beq_iff_eq] at hr hp
      rcases hp with rfl | hlink
      · exact absurd hin (by simpa using all_eq_true.mp hr.2 d hd)
      · exact not_linkedTo hr.1 hlink
    | rootfs =>
      simp only [hform, and_eq_true] at hr hp
      have hd := all_eq_true.mp hr.2 d hd
      simp only [and_eq_true, not_eq_true', decide_eq_false_iff_not] at hd
      -- both are prefixes of one path
      rcases prefix_or_prefix_of_prefix hin hp with h | h
      · exact hd.1 h
      · exact hd.2 h

def succeeds (path : Path) (file : File) : Outcome :=
  { ok := fun _ => true, removes := fun _ => true, contents := fun p => if p = path then some file else none }

def empty : Machine := { registry := ∅, files := fun _ => none }

def directoryA : Path := ["c:".toList, "a".toList]

def directoryB : Path := ["c:".toList, "b".toList]

def diskA : Path := directoryA ++ ["ext4.vhdx".toList]

def file : File := { data := 1, parent := none }

def registerA : Op :=
  .register (succeeds diskA file) 0 (some "a".toList) none directoryA true [] "ext4.vhdx".toList

/-- A WSL2 and a WSL1 distribution; a linked clone of the first one is made,
resized and deleted before its source is started. -/
def linkedRun : List Op :=
  [registerA,
    .register (succeeds (directoryB ++ [rootfsName]) file) 1 (some "b".toList) none directoryB false []
      "ext4.vhdx".toList,
    .clone (fun _ => true) Flags.all 0 2 "copy".toList false,
    .resize (succeeds (directoryA ++ ["copy.vhdx".toList]) { data := 2, parent := some diskA }) 2,
    .unregister (succeeds diskA file) 2, .start (succeeds diskA { data := 3, parent := none }) 0]

theorem run_undamaged_linked : Along step Undamaged linkedRun empty := by
  have hops : Allowed step (fun op m => apartTest op m = true) linkedRun empty := by
    decide
  exact run_undamaged (m := empty) (fun i j r r' h => by simp [empty] at h)
    (hops.imp fun _ _ h => apart_of_test h)

def sharedRun : List Op :=
  [registerA, .clone (fun _ => true) Flags.all 0 1 "copy".toList true,
    .setVersion (succeeds (directoryA ++ [rootfsName]) file) ⟨fun _ => true, fun _ => true⟩ 1 Flags.all true 0,
    .unregister (succeeds diskA file) 1]

/-- Unregistering a clone deletes the root file system of its source. -/
theorem unregister_deletes_rootfs : ¬ Along step Undamaged sharedRun empty := by
  rintro ⟨-, -, -, h, -⟩
  generalize hm : step _ (step _ (step _ empty)) = m at h
  have hfound : (m.registry.lookup 0).map (fun r => (r.form, r.rootfsPath)) =
      some (.rootfs, directoryA ++ [rootfsName]) := by
    rw [← hm]
    rfl
  have hchanged : (step (.unregister (succeeds diskA file) 1) m).files (directoryA ++ [rootfsName]) ≠
      m.files (directoryA ++ [rootfsName]) := by
    rw [← hm]
    decide
  obtain ⟨r, hr, hform⟩ := Option.map_eq_some_iff.mp hfound
  obtain ⟨hform, hpath⟩ := Prod.mk.inj hform
  refine hchanged (h 0 r hr (by decide) _ ?_)
  rw [DependsOn, hform, ← hpath]
  exact prefix_refl _

end WslPlus.Session.Operations

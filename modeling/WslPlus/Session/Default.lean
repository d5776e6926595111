import Mathlib.Data.List.TakeWhile
import WslPlus.Lib.Transition
import WslPlus.Session.Registry

/-!
# The default distribution

The value DefaultDistribution names the key of a distribution. Distributions whose package
is gone are unregistered when the keys are enumerated, and the default is looked up behind
that, which enumerates again if it finds that the default is gone as well. The default is
replaced by the routine that removes it, unless an enumeration has removed it before.
-/

namespace WslPlus.Session.Default

open List

/-- What matters of a key: whether it has a name and can be read, and whether the package of the
distribution is gone together with its file system. -/
structure Key where
  id : Nat
  state : DistroState
  named : Bool
  orphaned : Bool
deriving DecidableEq

/-- The keys in the order of the registry, the value DefaultDistribution, and the next new id. -/
structure State where
  keys : List Key
  default : Option Nat
  nextId : Nat
deriving DecidableEq

def State.open? (s : State) (id : Nat) : Option Key := s.keys.find? fun k => k.id = id

/-- `OpenDefault`, for which a value without a key is no default. -/
def State.openDefault (s : State) : Option Key := s.default.bind s.open?

/-- `_ValidateDistro`. -/
def Key.valid (k : Key) : Bool := k.named && !k.orphaned

def State.remove (s : State) (ids : List Nat) : State :=
  { s with keys := s.keys.filter fun k => !ids.contains k.id }

def State.update (s : State) (id : Nat) (f : Key → Key) : State :=
  { s with keys := s.keys.map fun k => if k.id = id then f k else k }

def State.seen (s : State) (exclude : Option Nat) : List Key := s.keys.filter fun k => some k.id ≠ exclude

def State.orphans (s : State) (exclude : Option Nat) : List Key := (s.seen exclude).filter fun k => !k.valid

def State.unregistered (s : State) (exclude : Option Nat) : List Nat :=
  ((s.orphans exclude).takeWhile Key.named).map Key.id

def State.listed (s : State) (listAll : Bool) (exclude : Option Nat) : List Key :=
  (s.seen exclude).filter fun k => k.valid && (listAll || k.state = .installed)

/-- `_EnumerateDistributions` with the lookup of the default that it calls. -/
def enumerateWith (getDefault : State → State) (listAll : Bool) (exclude : Option Nat) (s : State) :
    State × Option (List Key) :=
  let s' := s.remove (s.unregistered exclude)
  if (s.orphans exclude).all Key.named = false then (s', none)
  else (if s.orphans exclude = [] then s' else getDefault s', some (s.listed listAll exclude))

/-- `_GetDefaultDistro` with the enumeration that it calls. -/
def getDefaultWith (enumerate : State → State × Option (List Key)) (s : State) : State × Option Nat :=
  match s.openDefault with
  | none => (s, none)
  | some k =>
    if k.valid then (s, some k.id)
    else
      let s' := { s with default := none }
      if k.named = false then (s', none)
      else
        match enumerate (s'.remove [k.id]) with
        | (s'', some (distro :: _)) => ({ s'' with default := some distro.id }, some distro.id)
        | (s'', _) => (s'', none)

def getDefaultTo : Nat → State → State × Option Nat
  | 0, s => (s, none)
  | depth + 1, s => getDefaultWith (enumerateWith (fun s => (getDefaultTo depth s).1) false none) s

/-- `_GetDefaultDistro`, which a deeper recursion does not change. -/
def getDefaultDistro (s : State) : State × Option Nat := getDefaultTo 1 s

def enumerateDistributions (listAll : Bool) (exclude : Option Nat) (s : State) : State × Option (List Key) :=
  enumerateWith (fun s => (getDefaultDistro s).1) listAll exclude s

inductive End where
  | succeeds
  | nameInUse
  | fails
deriving DecidableEq

/-- A call, or a part of one between which the session is not locked. -/
inductive Op where
  /-- `EnumerateDistributions`. -/
  | enumerate
  /-- `GetDefaultDistribution`. -/
  | getDefault
  /-- `UnregisterDistribution`. -/
  | unregister (id : Nat)
  /-- A registration, with or without a name, up to the key, which has some place among the others. -/
  | registerBegin (named accepted : Bool) (place : Nat)
  | registerEnd (id : Nat) (ending : End)
  | removePackage (id : Nat)

def enumerateOp (s : State) : State :=
  match enumerateDistributions true none s with
  | (s', none) => s'
  | (s', some _) => (getDefaultDistro s').1

/-- `UnregisterDistribution`; a distribution that is being installed is locked. -/
def unregisterDistribution (id : Nat) (s : State) : State :=
  match s.open? id with
  | none => s
  | some k =>
    if k.named = false ∨ k.state = .installing then s
    else
      let s' := s.update id fun k => { k with state := .uninstalling }
      if s.openDefault = some k then
        match enumerateDistributions false none { s' with default := none } with
        | (s'', some (distro :: _)) => { s'' with default := some distro.id }.remove [id]
        | (s'', _) => s''.remove [id]
      else s'.remove [id]

def registerBegin (named accepted : Bool) (place : Nat) (s : State) : State :=
  match enumerateDistributions true none s with
  | (s', none) => s'
  | (s', some _) =>
    if accepted then
      { s' with
        keys := s'.keys.take place ++ { id := s'.nextId, state := .installing, named, orphaned := false } ::
          s'.keys.drop place
        nextId := s'.nextId + 1 }
    else s'

def setDistributionInstalled (id : Nat) (s : State) : State :=
  let s' := s.update id fun k => { k with state := .installed, named := true }
  match s'.openDefault with
  | none => { s' with default := some id }
  | some _ => s'

/-- The guest reports a name for a distribution without one, which must not be in use; the key is
deleted if the registration fails. -/
def registerEnd (id : Nat) (ending : End) (s : State) : State :=
  match s.open? id with
  | none => s
  | some k =>
    if k.state ≠ .installing then s
    else if ending = .fails then s.remove [id]
    else if k.named then if ending = .succeeds then setDistributionInstalled id s else s.remove [id]
    else
      match enumerateDistributions true (some id) s with
      | (s', none) => s'.remove [id]
      | (s', some _) => if ending = .succeeds then setDistributionInstalled id s' else s'.remove [id]

def step : Op → State → State
  | .enumerate => enumerateOp
  | .getDefault => fun s => (getDefaultDistro s).1
  | .unregister id => unregisterDistribution id
  | .registerBegin named accepted place => registerBegin named accepted place
  | .registerEnd id ending => registerEnd id ending
  | .removePackage id => fun s => s.update id fun k => { k with orphaned := true }

def State.HasInstalled (s : State) : Prop := ∃ k ∈ s.keys, k.state = .installed ∧ k.orphaned = false

def DefaultValid (s : State) : Prop :=
  s.HasInstalled → ∃ k ∈ s.keys, s.default = some k.id ∧ k.state = .installed

def Op.settles : Op → Bool
  | .enumerate | .getDefault | .unregister _ => true
  | .registerBegin .. | .registerEnd .. | .removePackage _ => false

def EnumerationKeeps (exclude : Option Nat) (s : State) : Prop :=
  s.HasInstalled → ∀ id ∈ s.unregistered exclude, s.default ≠ some id

def Replaceable (k : Key) (s : State) : Prop :=
  (∀ k' ∈ s.keys, k'.named = true) ∨ ¬ ∃ k' ∈ s.keys, k'.id ≠ k.id ∧ k'.state = .installed ∧ k'.orphaned = false

def Keeps : Op → State → Prop
  | .enumerate, s => EnumerationKeeps none s
  | .getDefault, s => ∀ k, s.openDefault = some k → k.orphaned = true → Replaceable k s
  | .unregister id, s => ∀ k, s.openDefault = some k → k.id = id → Replaceable k s
  | .registerBegin _ _ _, s => EnumerationKeeps none s
  | .registerEnd id ending, s => ∀ k, s.open? id = some k → k.state = .installing → k.named = false →
      ending = .nameInUse ∨ ending = .succeeds ∧ (s.orphans (some id)).all Key.named = false →
      EnumerationKeeps (some id) s
  | .removePackage _, _ => True

/-- The ids are all different and were given out, and an installed distribution can be read. -/
structure Wf (s : State) : Prop where
  nodup : (s.keys.map Key.id).Nodup
  fresh : ∀ k ∈ s.keys, k.id < s.nextId
  freshDefault : ∀ id, s.default = some id → id < s.nextId
  named : ∀ k ∈ s.keys, k.state = .installed → k.named = true

structure Sound (s : State) : Prop extends Wf s where
  default : ∀ k ∈ s.keys, s.default = some k.id → k.state = .installed

structure Inv (s : State) : Prop extends Sound s where
  valid : DefaultValid s

variable {s : State}

theorem eq_of_id (h : (s.keys.map Key.id).Nodup) {k k' : Key} (hk : k ∈ s.keys) (hk' : k' ∈ s.keys)
    (hid : k.id = k'.id) : k = k' := inj_on_of_nodup_map h hk hk' hid

variable {id : Nat} {k : Key}

theorem mem_of_open (h : s.open? id = some k) : k ∈ s.keys ∧ k.id = id := by
  have hid := find?_some h
  exact ⟨mem_of_find?_eq_some h, of_decide_eq_true hid⟩

theorem open_of_mem (h : (s.keys.map Key.id).Nodup) (hk : k ∈ s.keys) : s.open? k.id = some k := by
  cases hopen : s.open? k.id with
  | none =>
    have hnot := find?_eq_none.mp hopen k hk
    simp at hnot
  | some k' =>
    obtain ⟨hk', hid⟩ := mem_of_open hopen
    rw [eq_of_id h hk' hk hid]

theorem mem_of_openDefault (h : s.openDefault = some k) : k ∈ s.keys ∧ s.default = some k.id := by
  obtain ⟨id, hdef, hopen⟩ := Option.bind_eq_some_iff.mp h
  obtain ⟨hk, rfl⟩ := mem_of_open hopen
  exact ⟨hk, hdef⟩

theorem openDefault_of_mem (h : (s.keys.map Key.id).Nodup) (hk : k ∈ s.keys)
    (hdef : s.default = some k.id) : s.openDefault = some k := by
  rw [State.openDefault, hdef, Option.bind_some, open_of_mem h hk]

variable {ids : List Nat}

theorem mem_remove : k ∈ (s.remove ids).keys ↔ k ∈ s.keys ∧ k.id ∉ ids := by
  simp [State.remove]

theorem nodup_remove (h : (s.keys.map Key.id).Nodup) (ids : List Nat) :
    ((s.remove ids).keys.map Key.id).Nodup := h.sublist (filter_sublist.map Key.id)

theorem Wf.remove (h : Wf s) (ids : List Nat) : Wf (s.remove ids) where
  nodup := nodup_remove h.nodup ids
  fresh k hk := h.fresh k (mem_remove.mp hk).1
  freshDefault := h.freshDefault
  named k hk := h.named k (mem_remove.mp hk).1

theorem Sound.remove (h : Sound s) (ids : List Nat) : Sound (s.remove ids) where
  toWf := h.toWf.remove ids
  default k hk := h.default k (mem_remove.mp hk).1

theorem Inv.remove (h : Inv s)
    (hkeeps : (s.remove ids).HasInstalled → ∀ id ∈ ids, s.default ≠ some id) : Inv (s.remove ids) where
  toSound := h.toSound.remove ids
  valid hinst := by
    obtain ⟨k, hk, hstate⟩ := hinst
    obtain ⟨d, hd, hdef, hdstate⟩ := h.valid ⟨k, (mem_remove.mp hk).1, hstate⟩
    refine ⟨d, mem_remove.mpr ⟨hd, fun hid => ?_⟩, hdef, hdstate⟩
    exact hkeeps ⟨k, hk, hstate⟩ d.id hid hdef

variable {f : Key → Key}

theorem mem_update :
    k ∈ (s.update id f).keys ↔ ∃ k' ∈ s.keys, (if k'.id = id then f k' else k') = k := mem_map

theorem ids_update (hf : ∀ k, (f k).id = k.id) : (s.update id f).keys.map Key.id = s.keys.map Key.id := by
  rw [State.update, map_map]
  refine map_congr_left fun k _ => ?_
  rw [Function.comp_apply]
  split
  · exact hf k
  · rfl

theorem getDefaultTo_of_none (h : s.openDefault = none) (depth : Nat) : getDefaultTo depth s = (s, none) := by
  cases depth with
  | zero => rfl
  | succ depth => rw [getDefaultTo, getDefaultWith, h]

theorem openDefault_remove_of_none (h : s.default = none) (ids : List Nat) :
    (s.remove ids).openDefault = none := by
  rw [State.openDefault]
  change s.default.bind _ = none
  rw [h]
  rfl

theorem enumerateWith_of_none (h : s.default = none) (depth : Nat) (listAll : Bool) (exclude : Option Nat) :
    enumerateWith (fun s => (getDefaultTo depth s).1) listAll exclude s = (s.remove (s.unregistered exclude),
        if (s.orphans exclude).all Key.named = false then none else some (s.listed listAll exclude)) := by
  unfold enumerateWith
  simp only [getDefaultTo_of_none (openDefault_remove_of_none h _), ite_self]
  split
  · rfl
  · rfl

variable {exclude : Option Nat}

theorem id_mem_unregistered (h : id ∈ s.unregistered exclude) :
    ∃ k ∈ s.keys, k.id = id ∧ k.valid = false ∧ k.named = true ∧ some k.id ≠ exclude := by
  obtain ⟨k, hk, rfl⟩ := mem_map.mp h
  have horphan := takeWhile_sublist _ |>.subset hk
  obtain ⟨hseen, hvalid⟩ := mem_filter.mp horphan
  obtain ⟨hmem, hexclude⟩ := mem_filter.mp hseen
  exact ⟨k, hmem, rfl, by simpa using hvalid, mem_takeWhile_imp hk, by simpa using hexclude⟩

theorem mem_orphans (hk : k ∈ s.keys) (hexclude : some k.id ≠ exclude)
    (hvalid : k.valid = false) : k ∈ s.orphans exclude := by
  refine mem_filter.mpr ⟨mem_filter.mpr ⟨hk, ?_⟩, ?_⟩
  · simpa using hexclude
  · simpa using hvalid

theorem not_mem_unregistered (h : (s.keys.map Key.id).Nodup)
    (hk : k ∈ s.keys) (hkept : k.valid = true ∨ some k.id = exclude) : k.id ∉ s.unregistered exclude := by
  intro hmem
  obtain ⟨k', hk', hid, hvalid, -, hexclude⟩ := id_mem_unregistered hmem
  rw [eq_of_id h hk' hk hid] at hvalid hexclude
  rcases hkept with hkept | hkept
  · rw [hvalid] at hkept
    cases hkept
  · exact hexclude hkept

theorem valid_of_kept (hnamed : (s.orphans exclude).all Key.named = true)
    (hk : k ∈ (s.remove (s.unregistered exclude)).keys) (hexclude : some k.id ≠ exclude) : k.valid = true := by
  obtain ⟨hmem, hkept⟩ := mem_remove.mp hk
  cases hvalid : k.valid with
  | true => rfl
  | false =>
    have horphan := mem_orphans hmem hexclude hvalid
    have htake : (s.orphans exclude).takeWhile Key.named = s.orphans exclude :=
      takeWhile_eq_self_iff.mpr fun k' hk' => all_eq_true.mp hnamed k' hk'
    refine (hkept ?_).elim
    rw [State.unregistered, htake]
    exact mem_map_of_mem horphan

/-- The lookup behind an enumeration changes nothing: all orphans are gone, so that the default is valid if it
is still there. -/
theorem enumerateDistributions_eq (s : State) (exclude : Option Nat)
    (hexclude : ∀ k ∈ s.keys, s.default = some k.id → some k.id ≠ exclude) (listAll : Bool) :
    enumerateDistributions listAll exclude s = (s.remove (s.unregistered exclude),
      if (s.orphans exclude).all Key.named = false then none else some (s.listed listAll exclude)) := by
  unfold enumerateDistributions enumerateWith
  by_cases hall : (s.orphans exclude).all Key.named = false
  · simp only [if_pos hall]
  · simp only [if_neg hall, Prod.mk.injEq, and_true]
    have hnamed : (s.orphans exclude).all Key.named = true := by simpa using hall
    have hdef : (getDefaultDistro (s.remove (s.unregistered exclude))).1 = s.remove (s.unregistered exclude) := by
      unfold getDefaultDistro getDefaultTo getDefaultWith
      split
      · rfl
      · rename_i k hopen
        obtain ⟨hk, hid⟩ := mem_of_openDefault hopen
        rw [if_pos (valid_of_kept hnamed hk (hexclude k (mem_remove.mp hk).1 hid))]
    rw [hdef, ite_self]

theorem hasInstalled_of_remove (h : (s.remove ids).HasInstalled) : s.HasInstalled := by
  obtain ⟨k, hk, hstate⟩ := h
  exact ⟨k, (mem_remove.mp hk).1, hstate⟩

theorem Inv.enumerate (h : Inv s) (hkeeps : EnumerationKeeps exclude s) :
    Inv (s.remove (s.unregistered exclude)) :=
  h.remove fun hinst => hkeeps (hasInstalled_of_remove hinst)

theorem valid_of_installed (h : Wf s) (hk : k ∈ s.keys) (hstate : k.state = .installed)
    (horph : k.orphaned = false) : k.valid = true := by
  rw [Key.valid, h.named k hk hstate, horph]
  rfl

theorem mem_listed : k ∈ s.listed false none ↔ k ∈ s.keys ∧ k.valid = true ∧ k.state = .installed := by
  simp [State.listed, State.seen]

def choose (s : State) : State :=
  match enumerateDistributions false none s with
  | (s', some (distro :: _)) => { s' with default := some distro.id }
  | (s', _) => s'

theorem choose_inv (h : Wf s) (hdef : s.default = none)
    (hall : (∀ k ∈ s.keys, k.named = true) ∨ ¬ s.HasInstalled) : Inv (choose s) := by
  have hwf := h.remove (s.unregistered none)
  have henum := enumerateWith_of_none hdef 1 false none
  unfold choose enumerateDistributions getDefaultDistro
  rw [henum]
  split
  · -- The key that is found is installed and is not removed.
    rename_i s' distro rest heq
    obtain ⟨rfl, hlist⟩ := Prod.mk.inj heq
    have hmem : distro ∈ s.listed false none := by
      split at hlist
      · cases hlist
      · rw [Option.some.inj hlist]
        exact mem_cons_self
    obtain ⟨hkey, hvalid, hstate⟩ := mem_listed.mp hmem
    have hkept : distro ∈ (s.remove (s.unregistered none)).keys :=
      mem_remove.mpr ⟨hkey, not_mem_unregistered h.nodup hkey (.inl hvalid)⟩
    refine ⟨⟨⟨hwf.nodup, hwf.fresh, ?_, hwf.named⟩, ?_⟩, fun _ => ⟨distro, hkept, rfl, hstate⟩⟩
    · intro id hid
      rw [← Option.some.inj hid]
      exact h.fresh distro hkey
    · intro k hk hid
      rw [eq_of_id hwf.nodup hk hkept (Option.some.inj hid).symm]
      exact hstate
  · -- There is nothing to be found.
    rename_i s' found hfound heq
    obtain ⟨rfl, rfl⟩ := Prod.mk.inj heq
    refine ⟨⟨hwf, fun k _ hid => ?_⟩, fun hinst => ?_⟩
    · rw [show (s.remove (s.unregistered none)).default = none from hdef] at hid
      cases hid
    · have hinst := hasInstalled_of_remove hinst
      have hnamed := hall.resolve_right fun hnot => hnot hinst
      have horphans : ¬ (s.orphans none).all Key.named = false := by
        rw [Bool.not_eq_false, all_eq_true]
        intro k hk
        exact hnamed k (mem_filter.mp (mem_filter.mp hk).1).1
      obtain ⟨k, hk, hstate, horph⟩ := hinst
      have hlisted := mem_listed.mpr ⟨hk, valid_of_installed h hk hstate horph, hstate⟩
      obtain ⟨first, rest, hlist⟩ := exists_cons_of_ne_nil (ne_nil_of_mem hlisted)
      refine (hfound first rest ?_).elim
      rw [if_neg horphans, hlist]

theorem hall_of_replaceable {s s' : State} (h : Replaceable k s)
    (hnamed : ∀ k' ∈ s'.keys, ∃ k'' ∈ s.keys, k''.named = k'.named)
    (hinst : ∀ k' ∈ s'.keys, k'.state = .installed → k' ∈ s.keys ∧ k'.id ≠ k.id) :
    (∀ k' ∈ s'.keys, k'.named = true) ∨ ¬ s'.HasInstalled := by
  rcases h with h | h
  · refine .inl fun k' hk' => ?_
    obtain ⟨k'', hk'', hsame⟩ := hnamed k' hk'
    rw [← hsame]
    exact h k'' hk''
  · refine .inr fun ⟨k', hk', hstate, horph⟩ => h ?_
    obtain ⟨hmem, hid⟩ := hinst k' hk' hstate
    exact ⟨k', hmem, hid, hstate, horph⟩

theorem Wf.withoutDefault (h : Wf s) : Wf { s with default := none } :=
  ⟨h.nodup, h.fresh, nofun, h.named⟩

theorem getDefaultDistro_of_orphaned (hopen : s.openDefault = some k) (hvalid : ¬ k.valid = true)
    (hnamed : k.named = true) : (getDefaultDistro s).1 = choose ({ s with default := none }.remove [k.id]) := by
  have hnone : ({ s with default := none }.remove [k.id]).default = none := rfl
  have hdepth : enumerateWith (fun s => (getDefaultTo 0 s).1) false none ({ s with default := none }.remove [k.id]) =
      enumerateDistributions false none ({ s with default := none }.remove [k.id]) := by
    rw [enumerateWith_of_none hnone 0]
    exact (enumerateWith_of_none hnone 1 false none).symm
  unfold getDefaultDistro getDefaultTo getDefaultWith choose
  simp only [hopen, if_neg hvalid, hnamed, Bool.true_eq_false, if_false, hdepth]
  generalize enumerateDistributions false none ({ s with default := none }.remove [k.id]) = result
  obtain ⟨s', found⟩ := result
  cases found with
  | none => rfl
  | some found =>
    cases found with
    | nil => rfl
    | cons distro rest => rfl

theorem getDefault_inv (h : Inv s) (hkeeps : Keeps .getDefault s) : Inv (getDefaultDistro s).1 := by
  cases hopen : s.openDefault with
  | none =>
    rw [getDefaultDistro, getDefaultTo_of_none hopen]
    exact h
  | some k =>
    obtain ⟨hk, hdef⟩ := mem_of_openDefault hopen
    have hnamed := h.named k hk (h.default k hk hdef)
    by_cases hvalid : k.valid = true
    · unfold getDefaultDistro getDefaultTo getDefaultWith
      simp only [hopen, if_pos hvalid]
      exact h
    · have horph : k.orphaned = true := by
        rw [Key.valid, hnamed] at hvalid
        simpa using hvalid
      rw [getDefaultDistro_of_orphaned hopen hvalid hnamed]
      refine choose_inv (h.toWf.withoutDefault.remove [k.id]) rfl ?_
      refine hall_of_replaceable (hkeeps k hopen horph) (fun k' hk' => ?_) fun k' hk' _ => ?_
      · exact ⟨k', (mem_remove.mp hk').1, rfl⟩
      · exact ⟨(mem_remove.mp hk').1, by simpa using (mem_remove.mp hk').2⟩

theorem enumerate_inv (h : Inv s) (hkeeps : Keeps .enumerate s) : Inv (enumerateOp s) := by
  have henum := enumerateDistributions_eq s none (fun _ _ _ => nofun) true
  have hinv := h.enumerate hkeeps
  unfold enumerateOp
  rw [henum]
  split
  · rename_i heq
    rw [← (Prod.mk.inj heq).1]
    exact hinv
  · -- All keys could be read, so that what is left of the keys is valid.
    rename_i found heq
    obtain ⟨rfl, hfound⟩ := Prod.mk.inj heq
    refine getDefault_inv hinv fun k hopen horph => ?_
    have hnamed : (s.orphans none).all Key.named = true := by
      split at hfound
      · cases hfound
      · rename_i hall
        simpa using hall
    have hvalid := valid_of_kept hnamed (mem_of_openDefault hopen).1 nofun
    rw [Key.valid, horph, Bool.not_true, Bool.and_false] at hvalid
    cases hvalid

theorem Inv.removeId (h : Inv s) (hid : ∀ k ∈ s.keys, k.id = id → k.state ≠ .installed) :
    Inv (s.remove [id]) := by
  refine h.remove fun hinst id' hid' hdef => ?_
  obtain ⟨d, hd, hd', hstate⟩ := h.valid (hasInstalled_of_remove hinst)
  rw [mem_singleton.mp hid', hd'] at hdef
  exact hid d hd (Option.some.inj hdef) hstate

theorem Wf.update (h : Wf s) (hf : ∀ k, (f k).id = k.id)
    (hnamed : ∀ k ∈ s.keys, (f k).state = .installed → (f k).named = true) : Wf (s.update id f) where
  nodup := by
    rw [ids_update hf]
    exact h.nodup
  fresh k hk := by
    obtain ⟨k', hk', rfl⟩ := mem_update.mp hk
    split
    · rw [hf k']
      exact h.fresh k' hk'
    · exact h.fresh k' hk'
  freshDefault := h.freshDefault
  named k hk hstate := by
    obtain ⟨k', hk', rfl⟩ := mem_update.mp hk
    split at hstate
    · rw [if_pos ‹_›]
      exact hnamed k' hk' hstate
    · rw [if_neg ‹_›]
      exact h.named k' hk' hstate

theorem unregisterDistribution_eq (hopen : s.open? id = some k)
    (hlock : ¬ (k.named = false ∨ k.state = .installing)) : unregisterDistribution id s =
      (if s.openDefault = some k then choose { s.update id fun k => { k with state := .uninstalling } with default := none }
        else s.update id fun k => { k with state := .uninstalling }).remove [id] := by
  unfold unregisterDistribution choose
  simp only [hopen, if_neg hlock]
  split
  · generalize enumerateDistributions false none _ = result
    obtain ⟨s', found⟩ := result
    cases found with
    | none => rfl
    | some found =>
      cases found with
      | nil => rfl
      | cons distro rest => rfl
  · rfl

theorem wf_uninstalling (h : Wf s) (id : Nat) : Wf (s.update id fun k => { k with state := .uninstalling }) :=
  h.update (fun _ => rfl) fun _ _ => nofun

theorem mem_of_uninstalling
    (hk : k ∈ (s.update id fun k => { k with state := .uninstalling }).keys) (hstate : k.state = .installed) :
    k ∈ s.keys ∧ k.id ≠ id := by
  obtain ⟨k', hk', rfl⟩ := mem_update.mp hk
  split at hstate
  · cases hstate
  · rw [if_neg ‹_›]
    exact ⟨hk', ‹_›⟩

theorem choose_id (hid : ∀ k ∈ s.keys, k.id = id → k.state ≠ .installed) (hdef : s.default = none) :
    ∀ k ∈ (choose s).keys, k.id = id → k.state ≠ .installed := by
  have henum := enumerateWith_of_none hdef 1 false none
  have hkeys : (choose s).keys = (s.remove (s.unregistered none)).keys := by
    unfold choose enumerateDistributions getDefaultDistro
    rw [henum]
    split
    · rename_i heq
      rw [← (Prod.mk.inj heq).1]
    · rename_i heq
      rw [← (Prod.mk.inj heq).1]
  intro k hk
  rw [hkeys] at hk
  exact hid k (mem_remove.mp hk).1

theorem unregister_inv (h : Inv s) (hkeeps : Keeps (.unregister id) s) : Inv (unregisterDistribution id s) := by
  cases hopen : s.open? id with
  | none =>
    rw [unregisterDistribution, hopen]
    exact h
  | some k =>
    obtain ⟨hk, rfl⟩ := mem_of_open hopen
    by_cases hlock : k.named = false ∨ k.state = .installing
    · unfold unregisterDistribution
      simp only [hopen, if_pos hlock]
      exact h
    · rw [unregisterDistribution_eq hopen hlock]
      have hwf := wf_uninstalling h.toWf k.id
      have hnot : ∀ k' ∈ (s.update k.id fun k => { k with state := .uninstalling }).keys, k'.id = k.id →
          k'.state ≠ .installed := fun k' hk' hid hstate => (mem_of_uninstalling hk' hstate).2 hid
      split
      · rename_i hdef
        refine Inv.removeId (choose_inv hwf.withoutDefault rfl ?_) (choose_id hnot rfl)
        refine hall_of_replaceable (hkeeps k hdef rfl) (fun k' hk' => ?_) fun k' hk' => mem_of_uninstalling hk'
        obtain ⟨k'', hk'', rfl⟩ := mem_update.mp hk'
        refine ⟨k'', hk'', ?_⟩
        split
        · rfl
        · rfl
      · -- The default is another distribution.
        rename_i hdef
        have hother : s.default ≠ some k.id := fun hid => hdef (openDefault_of_mem h.nodup hk hid)
        have hkept : ∀ d ∈ s.keys, s.default = some d.id →
            d ∈ (s.update k.id fun k => { k with state := .uninstalling }).keys := by
          intro d hd hid
          refine mem_update.mpr ⟨d, hd, if_neg fun hsame => ?_⟩
          rw [hsame] at hid
          exact hother hid
        refine Inv.removeId ⟨⟨hwf, fun d hd hid => ?_⟩, fun hinst => ?_⟩ hnot
        · obtain ⟨d', hd', rfl⟩ := mem_update.mp hd
          split at hid
          · rename_i hsame
            rw [← hsame] at hother
            exact (hother hid).elim
          · rw [if_neg ‹_›]
            exact h.default d' hd' hid
        · obtain ⟨k', hk', hstate, horph⟩ := hinst
          obtain ⟨d, hd, hid, hdstate⟩ := h.valid ⟨k', (mem_of_uninstalling hk' hstate).1, hstate, horph⟩
          exact ⟨d, hkept d hd hid, hid, hdstate⟩

theorem Sound.default_update (h : Sound s) (id : Nat) (hf : ∀ k, (f k).id = k.id)
    (hstate : ∀ k, k.state = .installed → (f k).state = .installed) :
    ∀ k ∈ (s.update id f).keys, s.default = some k.id → k.state = .installed := by
  intro k hk hid
  obtain ⟨k', hk', rfl⟩ := mem_update.mp hk
  split at hid
  · rw [if_pos ‹_›]
    rw [hf k'] at hid
    exact hstate k' (h.default k' hk' hid)
  · rw [if_neg ‹_›]
    exact h.default k' hk' hid

theorem removePackage_inv (h : Inv s) (id : Nat) : Inv (step (.removePackage id) s) := by
  have hdef := h.toSound.default_update id (f := fun k => { k with orphaned := true }) (fun _ => rfl) fun _ h => h
  refine ⟨⟨h.toWf.update (fun _ => rfl) h.named, hdef⟩, fun hinst => ?_⟩
  -- What is not orphaned then was not orphaned before.
  have hbefore : s.HasInstalled := by
    obtain ⟨k, hk, hstate, horph⟩ := hinst
    obtain ⟨k', hk', rfl⟩ := mem_update.mp hk
    split at horph
    · cases horph
    · rw [if_neg ‹_›] at hstate
      exact ⟨k', hk', hstate, horph⟩
  obtain ⟨d, hd, hid, -⟩ := h.valid hbefore
  have hsame : (if d.id = id then { d with orphaned := true } else d).id = d.id := by
    split
    · rfl
    · rfl
  have hmem : (if d.id = id then { d with orphaned := true } else d) ∈ (step (.removePackage id) s).keys :=
    mem_update.mpr ⟨d, hd, rfl⟩
  rw [← hsame] at hid
  exact ⟨_, hmem, hid, hdef _ hmem hid⟩

theorem Inv.insert (h : Inv s) (hid : k.id = s.nextId) (hstate : k.state ≠ .installed)
    {keys : List Key} (hperm : keys.Perm (k :: s.keys)) : Inv { s with keys, nextId := s.nextId + 1 } where
  nodup := by
    refine (hperm.map Key.id).nodup_iff.mpr (nodup_cons.mpr ⟨fun hmem => ?_, h.nodup⟩)
    obtain ⟨k', hk', hsame⟩ := mem_map.mp hmem
    have hfresh := h.fresh k' hk'
    omega
  fresh k' hk' := by
    rcases mem_cons.mp (hperm.subset hk') with rfl | hk'
    · exact hid ▸ Nat.lt_succ_self _
    · exact Nat.lt_succ_of_lt (h.fresh k' hk')
  freshDefault id hdef := Nat.lt_succ_of_lt (h.freshDefault id hdef)
  named k' hk' hstate' := by
    rcases mem_cons.mp (hperm.subset hk') with rfl | hk'
    · exact (hstate hstate').elim
    · exact h.named k' hk' hstate'
  default k' hk' hdef := by
    rcases mem_cons.mp (hperm.subset hk') with rfl | hk'
    · have hfresh := h.freshDefault _ hdef
      omega
    · exact h.default k' hk' hdef
  valid hinst := by
    obtain ⟨k', hk', hstate', horph⟩ := hinst
    have hmem : k' ∈ s.keys := by
      rcases mem_cons.mp (hperm.subset hk') with rfl | hmem
      · exact (hstate hstate').elim
      · exact hmem
    obtain ⟨d, hd, hdef, hdstate⟩ := h.valid ⟨k', hmem, hstate', horph⟩
    exact ⟨d, hperm.symm.subset (mem_cons_of_mem _ hd), hdef, hdstate⟩

theorem registerBegin_inv (h : Inv s) (hkeeps : EnumerationKeeps none s) ( named accepted : Bool)
    (place : Nat) : Inv (registerBegin named accepted place s) := by
  have henum := enumerateDistributions_eq s none (fun _ _ _ => nofun) true
  have hinv := h.enumerate hkeeps
  unfold registerBegin
  rw [henum]
  split
  · rename_i heq
    rw [← (Prod.mk.inj heq).1]
    exact hinv
  · rename_i heq
    rw [← (Prod.mk.inj heq).1]
    cases accepted with
    | false => exact hinv
    | true =>
      refine hinv.insert (k := ⟨_, .installing, named, false⟩) rfl nofun ?_
      refine perm_middle.trans ?_
      rw [take_append_drop]

theorem setDistributionInstalled_inv (h : Sound s) (hk : k ∈ s.keys) :
    Inv (setDistributionInstalled k.id s) := by
  have hwf : Wf (s.update k.id fun k => { k with state := .installed, named := true }) :=
    h.toWf.update (fun _ => rfl) fun _ _ _ => rfl
  have hdef := h.default_update k.id (f := fun k => { k with state := .installed, named := true })
    (fun _ => rfl) fun _ _ => rfl
  have hmem : { k with state := .installed, named := true } ∈
      (s.update k.id fun k => { k with state := .installed, named := true }).keys :=
    mem_update.mpr ⟨k, hk, if_pos rfl⟩
  unfold setDistributionInstalled
  simp only []
  split
  · refine ⟨⟨⟨hwf.nodup, hwf.fresh, fun id hid => ?_, hwf.named⟩, fun k' hk' hid => ?_⟩, fun _ => ⟨_, hmem, rfl, rfl⟩⟩
    · rw [← Option.some.inj hid]
      exact h.fresh k hk
    · rw [eq_of_id hwf.nodup hk' hmem (Option.some.inj hid).symm]
  · rename_i d hopen
    obtain ⟨hd, hid⟩ := mem_of_openDefault hopen
    exact ⟨⟨hwf, hdef⟩, fun _ => ⟨d, hd, hid, hdef d hd hid⟩⟩

structure Installing (s : State) (k : Key) : Prop where
  mem : k ∈ s.keys
  state : k.state = .installing

theorem Installing.not_installed (h : Wf s) (hk : Installing s k) :
    ∀ k' ∈ s.keys, k'.id = k.id → k'.state ≠ .installed := by
  intro k' hk' hid
  rw [eq_of_id h.nodup hk' hk.mem hid, hk.state]
  nofun

variable {ending : End}

theorem registerEnd_of_unnamed (h : Sound s) (hk : Installing s k) (hnamed : k.named = false)
    (hending : ending ≠ .fails) : registerEnd k.id ending s =
      if ending = .nameInUse ∨ ending = .succeeds ∧ (s.orphans (some k.id)).all Key.named = false then
        (s.remove (s.unregistered (some k.id))).remove [k.id]
      else setDistributionInstalled k.id (s.remove (s.unregistered (some k.id))) := by
  have hnot := hk.not_installed h.toWf
  have henum := enumerateDistributions_eq s (some k.id)
    (fun d hd hdef hid => hnot d hd (Option.some.inj hid) (h.default d hd hdef)) true
  unfold registerEnd
  simp only [open_of_mem h.nodup hk.mem, hk.state, ne_eq, not_true_eq_false, if_false, if_neg hending, hnamed,
    Bool.false_eq_true, henum]
  by_cases hall : (s.orphans (some k.id)).all Key.named = false
  · simp only [hall, and_true]
    cases ending with
    | succeeds => rfl
    | nameInUse => rfl
    | fails => exact (hending rfl).elim
  · simp only [hall]
    cases ending with
    | succeeds => rfl
    | nameInUse => rfl
    | fails => exact (hending rfl).elim

theorem registerEnd_cases (h : Inv s) (id : Nat) (ending : End) : Inv (registerEnd id ending s) ∨
    ∃ k, Installing s k ∧ k.id = id ∧ k.named = false ∧
      (ending = .nameInUse ∨ ending = .succeeds ∧ (s.orphans (some id)).all Key.named = false) ∧
      registerEnd id ending s = (s.remove (s.unregistered (some id))).remove [id] := by
  cases hopen : s.open? id with
  | none =>
    rw [registerEnd, hopen]
    exact .inl h
  | some k =>
    obtain ⟨hmem, rfl⟩ := mem_of_open hopen
    by_cases hstate : k.state = .installing
    · have hk : Installing s k := ⟨hmem, hstate⟩
      have hgone := h.removeId (hk.not_installed h.toWf)
      by_cases hending : ending = .fails
      · unfold registerEnd
        simp only [hopen, hstate, ne_eq, not_true_eq_false, if_false, if_pos hending]
        exact .inl hgone
      · cases hnamed : k.named with
        | true =>
          unfold registerEnd
          simp only [hopen, hstate, ne_eq, not_true_eq_false, if_false, if_neg hending, hnamed, if_true]
          split
          · exact .inl (setDistributionInstalled_inv h.toSound hmem)
          · exact .inl hgone
        | false =>
          rw [registerEnd_of_unnamed h.toSound hk hnamed hending]
          split
          · exact .inr ⟨k, hk, rfl, hnamed, ‹_›, rfl⟩
          · refine .inl (setDistributionInstalled_inv (h.toSound.remove _) ?_)
            exact mem_remove.mpr ⟨hmem, not_mem_unregistered h.nodup hmem (.inr rfl)⟩
    · unfold registerEnd
      simp only [hopen, ne_eq, hstate, not_false_eq_true, if_true]
      exact .inl h

theorem registerEnd_inv (h : Inv s) (hkeeps : Keeps (.registerEnd id ending) s) :
    Inv (registerEnd id ending s) := by
  rcases registerEnd_cases h id ending with hinv | ⟨k, hk, rfl, hnamed, hending, heq⟩
  · exact hinv
  · have hinv := h.enumerate (hkeeps k (open_of_mem h.nodup hk.mem) hk.state hnamed hending)
    rw [heq]
    exact hinv.removeId fun k' hk' => hk.not_installed h.toWf k' (mem_remove.mp hk').1

theorem step_inv (op : Op) (s : State) (h : Inv s) (hkeeps : Keeps op s) : Inv (step op s) := by
  cases op with
  | enumerate => exact enumerate_inv h hkeeps
  | getDefault => exact getDefault_inv h hkeeps
  | unregister id => exact unregister_inv h hkeeps
  | registerBegin named accepted place => exact registerBegin_inv h hkeeps named accepted place
  | registerEnd id ending => exact registerEnd_inv h hkeeps
  | removePackage id => exact removePackage_inv h id

/-- The default is not registered, although a distribution could be it. -/
structure Dangling (s : State) : Prop where
  installed : s.HasInstalled
  default : ∀ k ∈ s.keys, s.default ≠ some k.id

theorem Dangling.not_valid (h : Dangling s) : ¬ DefaultValid s := by
  intro hvalid
  obtain ⟨k, hk, hdef, -⟩ := hvalid h.installed
  exact h.default k hk hdef

theorem Dangling.remove (h : Dangling s)
    (hid : ∀ k ∈ s.keys, k.id = id → k.state ≠ .installed) : Dangling (s.remove [id]) := by
  obtain ⟨k, hk, hstate, horph⟩ := h.installed
  refine ⟨⟨k, mem_remove.mpr ⟨hk, fun hmem => ?_⟩, hstate, horph⟩, fun k' hk' => h.default k' (mem_remove.mp hk').1⟩
  exact hid k hk (mem_singleton.mp hmem) hstate

theorem hasInstalled_enumerate (h : Wf s) (exclude : Option Nat) (hinst : s.HasInstalled) :
    (s.remove (s.unregistered exclude)).HasInstalled := by
  obtain ⟨k, hk, hstate, horph⟩ := hinst
  refine ⟨k, mem_remove.mpr ⟨hk, ?_⟩, hstate, horph⟩
  exact not_mem_unregistered h.nodup hk (.inl (valid_of_installed h hk hstate horph))

theorem dangling_of_enumeration (h : Wf s) (hnot : ¬ EnumerationKeeps exclude s) :
    Dangling (s.remove (s.unregistered exclude)) := by
  rw [EnumerationKeeps, Classical.not_imp] at hnot
  obtain ⟨hinst, hrem⟩ := hnot
  refine ⟨hasInstalled_enumerate h exclude hinst, fun k hk hdef => hrem fun id hid hid' => ?_⟩
  have hsame : id = k.id := Option.some.inj (hid'.symm.trans hdef)
  rw [hsame] at hid
  exact (mem_remove.mp hk).2 hid

theorem dangling_choose (h : Wf s) (hdef : s.default = none) (hk : k ∈ s.keys)
    (hnamed : k.named = false) (hinst : s.HasInstalled) : Dangling (choose s) := by
  have hall : (s.orphans none).all Key.named = false := by
    rw [all_eq_false]
    refine ⟨k, mem_orphans hk nofun ?_, by simpa using hnamed⟩
    rw [Key.valid, hnamed]
    rfl
  have hchoose : choose s = s.remove (s.unregistered none) := by
    unfold choose enumerateDistributions getDefaultDistro
    rw [enumerateWith_of_none hdef 1 false none, if_pos hall]
  rw [hchoose]
  refine ⟨hasInstalled_enumerate h none hinst, fun k' _ hid => ?_⟩
  rw [show (s.remove (s.unregistered none)).default = none from hdef] at hid
  cases hid

theorem exists_of_not_replaceable (h : Inv s) (hopen : s.openDefault = some k) (hnot : ¬ Replaceable k s) :
    ∃ hidden ∈ s.keys, hidden.named = false ∧ hidden.id ≠ k.id ∧
      ∃ other ∈ s.keys, other.id ≠ k.id ∧ other.state = .installed ∧ other.orphaned = false := by
  obtain ⟨hk, hdef⟩ := mem_of_openDefault hopen
  rw [Replaceable, not_or, not_not] at hnot
  obtain ⟨hunnamed, hother⟩ := hnot
  push Not at hunnamed
  obtain ⟨hidden, hmem, hnamed⟩ := hunnamed
  refine ⟨hidden, hmem, by simpa using hnamed, fun hid => ?_, hother⟩
  rw [eq_of_id h.nodup hmem hk hid] at hnamed
  exact hnamed (h.named k hk (h.default k hk hdef))

theorem getDefault_keeps (h : Inv s) (hvalid : DefaultValid (getDefaultDistro s).1) : Keeps .getDefault s := by
  intro k hopen horph
  by_contra hnot
  obtain ⟨hidden, hmem, hunnamed, hid, other, hother, hid', hstate⟩ := exists_of_not_replaceable h hopen hnot
  obtain ⟨hk, hdef⟩ := mem_of_openDefault hopen
  have hinvalid : ¬ k.valid = true := by
    rw [Key.valid, horph, Bool.not_true, Bool.and_false]
    nofun
  have hkept : hidden ∈ ({ s with default := none }.remove [k.id]).keys :=
    mem_remove.mpr ⟨hmem, by simpa using hid⟩
  have hinst : ({ s with default := none }.remove [k.id]).HasInstalled :=
    ⟨other, mem_remove.mpr ⟨hother, by simpa using hid'⟩, hstate⟩
  rw [getDefaultDistro_of_orphaned hopen hinvalid (h.named k hk (h.default k hk hdef))] at hvalid
  exact (dangling_choose (h.toWf.withoutDefault.remove [k.id]) rfl hkept hunnamed hinst).not_valid hvalid

theorem unregister_keeps (h : Inv s) (hvalid : DefaultValid (unregisterDistribution id s)) :
    Keeps (.unregister id) s := by
  rintro k hopen rfl
  by_contra hnot
  obtain ⟨hidden, hmem, hunnamed, hid, other, hother, hid', hstate⟩ := exists_of_not_replaceable h hopen hnot
  obtain ⟨hk, hdef⟩ := mem_of_openDefault hopen
  have hinst := h.default k hk hdef
  have hlock : ¬ (k.named = false ∨ k.state = .installing) := by
    rw [h.named k hk hinst, hinst]
    nofun
  have hnot : ∀ k' ∈ (s.update k.id fun k => { k with state := .uninstalling }).keys, k'.id = k.id →
      k'.state ≠ .installed := fun k' hk' hid hstate => (mem_of_uninstalling hk' hstate).2 hid
  have hdangling := dangling_choose (wf_uninstalling h.toWf k.id).withoutDefault rfl
    (mem_update.mpr ⟨hidden, hmem, if_neg hid⟩) hunnamed ⟨other, mem_update.mpr ⟨other, hother, if_neg hid'⟩, hstate⟩
  rw [unregisterDistribution_eq (open_of_mem h.nodup hk) hlock, if_pos hopen] at hvalid
  exact (hdangling.remove (choose_id hnot rfl)).not_valid hvalid

theorem enumerate_keeps (h : Inv s) (hvalid : DefaultValid (enumerateOp s)) : EnumerationKeeps none s := by
  by_contra hnot
  have hdangling := dangling_of_enumeration h.toWf hnot
  have hopen : (s.remove (s.unregistered none)).openDefault = none := by
    cases hopen : (s.remove (s.unregistered none)).openDefault with
    | none => rfl
    | some k =>
      obtain ⟨hk, hdef⟩ := mem_of_openDefault hopen
      exact (hdangling.default k hk hdef).elim
  refine hdangling.not_valid ?_
  unfold enumerateOp at hvalid
  rw [enumerateDistributions_eq s none (fun _ _ _ => nofun) true] at hvalid
  split at hvalid
  · rename_i heq
    rw [(Prod.mk.inj heq).1]
    exact hvalid
  · rename_i heq
    rw [← (Prod.mk.inj heq).1, getDefaultDistro, getDefaultTo_of_none hopen] at hvalid
    exact hvalid

theorem registerBegin_keeps (h : Inv s) { named accepted : Bool} {place : Nat}
    (hvalid : DefaultValid (registerBegin named accepted place s)) : EnumerationKeeps none s := by
  by_contra hnot
  have hdangling := dangling_of_enumeration h.toWf hnot
  unfold registerBegin at hvalid
  rw [enumerateDistributions_eq s none (fun _ _ _ => nofun) true] at hvalid
  split at hvalid
  · rename_i heq
    rw [← (Prod.mk.inj heq).1] at hvalid
    exact hdangling.not_valid hvalid
  · rename_i heq
    rw [← (Prod.mk.inj heq).1] at hvalid
    cases accepted with
    | false => exact hdangling.not_valid hvalid
    | true =>
      obtain ⟨k, hk, hinst⟩ := hdangling.installed
      have hperm : ∀ new : Key, ((s.remove (s.unregistered none)).keys.take place ++ new ::
          (s.remove (s.unregistered none)).keys.drop place).Perm (new :: (s.remove (s.unregistered none)).keys) := by
        intro new
        refine perm_middle.trans ?_
        rw [take_append_drop]
      obtain ⟨d, hd, hdef, -⟩ := hvalid ⟨k, (hperm _).symm.subset (mem_cons_of_mem _ hk), hinst⟩
      rcases mem_cons.mp ((hperm _).subset hd) with rfl | hd
      · exact Nat.lt_irrefl _ (h.freshDefault _ hdef)
      · exact hdangling.default d hd hdef

theorem registerEnd_keeps (h : Inv s)
    (hvalid : DefaultValid (registerEnd id ending s)) : Keeps (.registerEnd id ending) s := by
  intro k hopen hstate hnamed hending
  by_contra hnot
  obtain ⟨hmem, rfl⟩ := mem_of_open hopen
  have hk : Installing s k := ⟨hmem, hstate⟩
  have hfails : ending ≠ .fails := by
    rintro rfl
    rcases hending with hending | ⟨hending, -⟩
    · cases hending
    · cases hending
  have hdangling := dangling_of_enumeration h.toWf hnot
  rw [registerEnd_of_unnamed h.toSound hk hnamed hfails, if_pos hending] at hvalid
  refine (hdangling.remove fun k' hk' => ?_).not_valid hvalid
  exact hk.not_installed h.toWf k' (mem_remove.mp hk').1

theorem defaultValid_step_iff (op : Op) (s : State) (h : Inv s) : DefaultValid (step op s) ↔ Keeps op s := by
  refine ⟨fun hvalid => ?_, fun hkeeps => (step_inv op s h hkeeps).valid⟩
  cases op with
  | enumerate => exact enumerate_keeps h hvalid
  | getDefault => exact getDefault_keeps h hvalid
  | unregister id => exact unregister_keeps h hvalid
  | registerBegin named accepted place => exact registerBegin_keeps h hvalid
  | registerEnd id ending => exact registerEnd_keeps h hvalid
  | removePackage id => trivial

/-- A session whose default is an installed distribution. -/
structure Start where
  state : State
  wf : Wf state
  default : ∃ k ∈ state.keys, state.default = some k.id ∧ k.state = .installed

theorem Start.inv (start : Start) : Inv start.state := by
  obtain ⟨k, hk, hdef, hstate⟩ := start.default
  refine ⟨⟨start.wf, fun k' hk' hdef' => ?_⟩, fun _ => ⟨k, hk, hdef, hstate⟩⟩
  rw [eq_of_id start.wf.nodup hk' hk (Option.some.inj (hdef'.symm.trans hdef))]
  exact hstate

/-- The default is valid after each call of a run exactly if no call loses it. -/
theorem defaultValid_iff_keeps (start : Start) (ops : List Op) :
    Along step (fun _ _ s => DefaultValid s) ops start.state ↔ Allowed step Keeps ops start.state :=
  along_iff_allowed step_inv defaultValid_step_iff start.inv

def startOfTwo : Start where
  state := ⟨[⟨0, .installed, true, false⟩, ⟨1, .installed, true, false⟩], some 0, 2⟩
  wf := ⟨by decide, by decide, by decide, by decide⟩
  default := ⟨⟨0, .installed, true, false⟩, by decide, rfl, rfl⟩

theorem defaultValid_lost :
    ¬ ∀ (start : Start) (ops : List Op),
      Along step (fun _ op s => op.settles = true → DefaultValid s) ops start.state := by
  intro h
  have hrun := h startOfTwo [.removePackage 0, .enumerate]
  have hvalid := hrun.2.1 rfl
  have hstate : step .enumerate (step (.removePackage 0) startOfTwo.state) =
      ⟨[⟨1, .installed, true, false⟩], some 0, 2⟩ := by decide
  rw [hstate] at hvalid
  obtain ⟨k, hk, hdefault, -⟩ := hvalid ⟨⟨1, .installed, true, false⟩, mem_singleton.mpr rfl, rfl, rfl⟩
  rw [mem_singleton.mp hk] at hdefault
  cases hdefault

end WslPlus.Session.Default

import WslPlus.Lib.Procedure
import WslPlus.Session.Registry

/-!
# Changing the version of a distribution

SetVersion fills the other storage form of a distribution from the present one
and writes the flags. An exit handler then deletes the form that the delete
flags name. These name the form that is being filled while it is filled, and the
old form from the moment it is complete, before the flags are written.
-/

namespace WslPlus.Session

/-- The two ways in which a distribution is stored. -/
inductive Form where
  | vhd
  | rootfs
deriving DecidableEq

/-- What a storage form holds: something left from before, a part of the
distribution, or all of it. -/
inductive Contents where
  | stale
  | partly
  | complete
deriving DecidableEq

def Form.named (flags : BitVec 32) : Form := if Flags.isSet flags Flags.vmMode then .vhd else .rootfs

namespace SetVersion

inductive Step where
  | openRegistration
  | ensureNotLocked
  | userToken
  | policy
  | createDirectory
  | initRootFs
  | createVm
  | createVhd
  | utilityVmSetup
  | createPipe
  | setupMounts
  | runElf
  | exportStatus
  | importStatus
  | importResult
  | writeFlavor
  | writeOsVersion
  | writeFlags
deriving DecidableEq

/-- The deletions: of what lies in the way of a root file system, of one whose
creation failed, and the one of the exit handler. -/
inductive Removal where
  | leftover
  | attempt
  | exit

structure Outcomes where
  ok : Step → Bool
  removes : Removal → Bool

structure State where
  registration : Registration
  storage : Form → Option Contents
  deleteFlags : List Form

namespace State

def put (s : State) (form : Form) (contents : Option Contents) : State :=
  { s with storage := fun f => if f = form then contents else s.storage f }

@[simp] theorem put_registration (s : State) (form : Form) (contents : Option Contents) :
    (s.put form contents).registration = s.registration := rfl

@[simp] theorem put_deleteFlags (s : State) (form : Form) (contents : Option Contents) :
    (s.put form contents).deleteFlags = s.deleteFlags := rfl

@[simp] theorem put_storage (s : State) (form f : Form) (contents : Option Contents) :
    (s.put form contents).storage f = if f = form then contents else s.storage f := rfl

def delete (s : State) (succeeds : Bool) (form : Form) : State :=
  if succeeds then s.put form none else s

def writeFlags (s : State) (flags : BitVec 32) : State :=
  { s with registration := { s.registration with flags := flags } }

def form (s : State) : Form := .named s.registration.flags

end State

def fillRootFs : List (Stage Step State) :=
  [.check .utilityVmSetup, .check .createPipe, .check .setupMounts, .check .runElf,
    .check .exportStatus, .act .importStatus fun s => s.put .rootfs (some .complete)]

/-- CreateRootFs after what was there has been deleted; it deletes the directory
when the rest of it fails. -/
def makeRootFs (o : Outcomes) : List (Stage Step State) :=
  [.check .policy, .assign fun s => s.delete (o.removes .leftover) .rootfs,
    { step := some .createDirectory, ready := fun s => s.storage .rootfs == none,
      effect := fun s => s.put .rootfs (some .partly), undo := id },
    { step := some .initRootFs, ready := fun _ => true,
      effect := fun s => { s with deleteFlags := [.rootfs] },
      undo := fun s => s.delete (o.removes .attempt) .rootfs }]

def fillVhd : List (Stage Step State) :=
  [.check .utilityVmSetup, .check .createPipe, .check .setupMounts, .check .runElf,
    .check .importStatus, .act .importResult fun s => s.put .vhd (some .complete),
    .check .writeFlavor, .check .writeOsVersion]

def makeVhd : List (Stage Step State) :=
  [.check .createVm,
    { step := some .createVhd, ready := fun s => s.storage .vhd == none,
      effect := fun s => { s.put .vhd (some .partly) with deleteFlags := [.vhd] }, undo := id }]

def commit (old : Form) (newFlags : BitVec 32) : List (Stage Step State) :=
  [.assign fun s => { s with deleteFlags := [old] },
    .act .writeFlags fun s => s.writeFlags newFlags]

def convert (o : Outcomes) (version : Nat) (flags : BitVec 32) : List (Stage Step State) :=
  .check .userToken ::
    if version = 1 then
      makeRootFs o ++ fillRootFs ++ commit .vhd (flags &&& ~~~Flags.vmMode)
    else makeVhd ++ fillVhd ++ commit .rootfs (flags ||| Flags.vmMode)

def cleanup (o : Outcomes) (s : State) : State :=
  s.deleteFlags.foldl (fun s form => s.delete (o.removes .exit) form) s

def accepted (o : Outcomes) (version : Nat) (config : Configuration) (lxcoreInitialized : Bool) : Bool :=
  (version == 1 || version == 2) && o.ok .openRegistration && config.state == .installed &&
    (if version = 1 then Flags.isSet config.flags Flags.vmMode
      else config.version != distroVersionLegacy && !Flags.isSet config.flags Flags.vmMode) &&
    lxcoreInitialized && o.ok .ensureNotLocked

end SetVersion

open SetVersion

/-- Whether SetVersion succeeds, and the state when it has returned and its exit
handler has run. -/
def setVersion (o : Outcomes) (version : Nat) (globalFlags : BitVec 32) (lxcoreInitialized : Bool)
    (id : Nat) (s : SetVersion.State) : Bool × SetVersion.State :=
  match getDistributionConfiguration globalFlags id s.registration with
  | none => (false, s)
  | some config =>
    if accepted o version config lxcoreInitialized then
      let r := runStages o.ok (convert o version config.flags) { s with deleteFlags := [] }
      (r.1, cleanup o r.2)
    else (false, s)

namespace SetVersion

def other : Form → Form
  | .vhd => .rootfs
  | .rootfs => .vhd

/-- The distribution is whole in the form that is registered for it. -/
structure Stored (s : State) : Prop where
  complete : s.storage s.form = some .complete
  other : s.storage (other s.form) = none ∨ s.storage (SetVersion.other s.form) = some .stale

/-- The distribution is whole in the registered form; the old form is gone only
if the new one is whole and registered; a failure leaves no new form. -/
structure Kept (before : State) (success : Bool) (after : State) : Prop where
  registered : after.storage after.form = some .complete
  old : after.storage before.form ≠ some .complete →
    after.storage (other before.form) = some .complete ∧ after.form = other before.form
  new : success = false → after.storage (other before.form) ≠ some .partly ∧
    after.storage (other before.form) ≠ some .complete

def makeSteps (version : Nat) : List Step :=
  if version = 1 then [.userToken, .policy, .createDirectory] else [.userToken, .createVm, .createVhd]

def fillSteps (version : Nat) : List Step :=
  if version = 1 then
    [.utilityVmSetup, .createPipe, .setupMounts, .runElf, .exportStatus, .importStatus]
  else
    [.utilityVmSetup, .createPipe, .setupMounts, .runElf, .importStatus, .importResult, .writeFlavor,
      .writeOsVersion]

def target (version : Nat) : Form := if version = 1 then .rootfs else .vhd

def clear (o : Outcomes) (version : Nat) (s : State) : Bool :=
  s.storage (target version) == none || (version == 1 && o.removes .leftover)

def begins (o : Outcomes) (version : Nat) (s : State) : Bool :=
  (makeSteps version).all o.ok && clear o version s

/-- Once the new form is there, either every further step succeeds, or it fails
while the form is filled and what there is of it is deleted. -/
def endsWell (o : Outcomes) (version : Nat) : Bool :=
  if version = 1 ∧ o.ok .initRootFs = false then o.removes .attempt
  else if (fillSteps version).all o.ok then o.ok .writeFlags
  else o.removes .exit

/-- How the stages of a conversion can end. -/
inductive Ends (o : Outcomes) (version : Nat) (newFlags : BitVec 32) (s : State) : Bool × State → Prop
  | early (s' : State) (begins : begins o version s = false)
      (registration : s'.registration = s.registration)
      (old : s'.storage (other (target version)) = s.storage (other (target version)))
      (new : s'.storage (target version) = none ∨ s'.storage (target version) = s.storage (target version))
      (deleteFlags : s'.deleteFlags = []) : Ends o version newFlags s (false, s')
  | attempt (s' : State) (begins : begins o version s = true) (init : version = 1 ∧ o.ok .initRootFs = false)
      (registration : s'.registration = s.registration)
      (old : s'.storage (other (target version)) = s.storage (other (target version)))
      (new : s'.storage (target version) = if o.removes .attempt then none else some .partly)
      (deleteFlags : s'.deleteFlags = []) : Ends o version newFlags s (false, s')
  | filling (s' : State) (begins : begins o version s = true) (init : ¬ (version = 1 ∧ o.ok .initRootFs = false))
      (fill : (fillSteps version).all o.ok = false) (registration : s'.registration = s.registration)
      (old : s'.storage (other (target version)) = s.storage (other (target version)))
      (new : s'.storage (target version) = some .partly ∨ s'.storage (target version) = some .complete)
      (deleteFlags : s'.deleteFlags = [target version]) : Ends o version newFlags s (false, s')
  | filled (s' : State) (begins : begins o version s = true) (init : ¬ (version = 1 ∧ o.ok .initRootFs = false))
      (fill : (fillSteps version).all o.ok = true)
      (registration : s'.registration =
        if o.ok .writeFlags then { s.registration with flags := newFlags } else s.registration)
      (old : s'.storage (other (target version)) = s.storage (other (target version)))
      (new : s'.storage (target version) = some .complete)
      (deleteFlags : s'.deleteFlags = [other (target version)]) :
      Ends o version newFlags s (o.ok .writeFlags, s')

theorem run_commit (o : Outcomes) (old : Form) (newFlags : BitVec 32) (s : State) :
    runStages o.ok (commit old newFlags) s = (o.ok .writeFlags,
        if o.ok .writeFlags then { s with deleteFlags := [old] }.writeFlags newFlags
        else { s with deleteFlags := [old] }) := by
  rw [commit, runStages_assign, runStages_act, runStages_nil]
  cases o.ok .writeFlags <;> rfl

def relaySteps : List Step := [.utilityVmSetup, .createPipe, .setupMounts, .runElf]

theorem run_fillRootFs (o : Outcomes) (s : State) :
    runStages o.ok fillRootFs s =
      if (fillSteps 1).all o.ok then (true, s.put .rootfs (some .complete)) else (false, s) := by
  have hsplit : fillRootFs = (relaySteps ++ [Step.exportStatus]).map .check ++
      [.act .importStatus fun s => s.put .rootfs (some .complete)] := rfl
  have hsteps : (fillSteps 1).all o.ok =
      ((relaySteps ++ [Step.exportStatus]).all o.ok && o.ok .importStatus) := by
    simp [fillSteps, relaySteps, Bool.and_assoc]
  rw [hsplit, runStages_checks, runStages_act, runStages_nil, hsteps]
  generalize (relaySteps ++ [Step.exportStatus]).all o.ok = a
  cases a <;> cases o.ok .importStatus <;> rfl

variable {s : State}

theorem run_fillVhd (o : Outcomes) (hs : s.storage .vhd = some .partly) :
    ∃ s', runStages o.ok fillVhd s = ((fillSteps 2).all o.ok, s') ∧
      s'.registration = s.registration ∧ s'.storage .rootfs = s.storage .rootfs ∧
      s'.deleteFlags = s.deleteFlags ∧ ((fillSteps 2).all o.ok = true → s'.storage .vhd = some .complete) ∧
      (s'.storage .vhd = some .partly ∨ s'.storage .vhd = some .complete) := by
  have hsplit : fillVhd = (relaySteps ++ [Step.importStatus]).map .check ++
      .act .importResult (fun s => s.put .vhd (some .complete)) ::
        ([Step.writeFlavor, .writeOsVersion].map .check ++ []) := rfl
  have hsteps : (fillSteps 2).all o.ok =
      ((relaySteps ++ [Step.importStatus]).all o.ok &&
        (o.ok .importResult && [Step.writeFlavor, .writeOsVersion].all o.ok)) := by
    simp [fillSteps, relaySteps, Bool.and_assoc]
  rw [hsplit, runStages_checks, runStages_act, runStages_checks, runStages_nil, hsteps]
  generalize (relaySteps ++ [Step.importStatus]).all o.ok = a
  generalize [Step.writeFlavor, .writeOsVersion].all o.ok = b
  cases a with
  | false => exact ⟨s, rfl, rfl, rfl, rfl, nofun, .inl hs⟩
  | true =>
    cases o.ok .importResult with
    | false => exact ⟨s, rfl, rfl, rfl, rfl, nofun, .inl hs⟩
    | true =>
      refine ⟨s.put .vhd (some .complete), ?_, rfl, rfl, rfl, fun _ => rfl, .inr rfl⟩
      cases b <;> rfl

theorem delete_storage (s : State) (succeeds : Bool) (form : Form) :
    (s.delete succeeds form).storage form = if succeeds then none else s.storage form := by
  cases succeeds
  · rfl
  · simp [State.delete]

theorem delete_storage_ne (s : State) (succeeds : Bool) {form f : Form} (h : f ≠ form) :
    (s.delete succeeds form).storage f = s.storage f := by
  cases succeeds
  · rfl
  · simp [State.delete, h]

@[simp] theorem delete_registration (s : State) (succeeds : Bool) (form : Form) :
    (s.delete succeeds form).registration = s.registration := by
  cases succeeds <;> rfl

@[simp] theorem delete_deleteFlags (s : State) (succeeds : Bool) (form : Form) :
    (s.delete succeeds form).deleteFlags = s.deleteFlags := by
  cases succeeds <;> rfl

theorem rootfs_clear (o : Outcomes) (s : State) :
    ((s.delete (o.removes .leftover) .rootfs).storage .rootfs == none) = clear o 1 s := by
  rw [delete_storage]
  cases h : o.removes .leftover <;> simp [clear, target, h]

theorem run_makeRootFs (o : Outcomes) (s : State) (hs : s.deleteFlags = []) :
    (∃ s', runStages o.ok (.check .userToken :: makeRootFs o) s = (false, s') ∧
      s'.registration = s.registration ∧ s'.storage .vhd = s.storage .vhd ∧ s'.deleteFlags = [] ∧
      ((begins o 1 s = false ∧ (s'.storage .rootfs = none ∨ s'.storage .rootfs = s.storage .rootfs)) ∨
        (begins o 1 s = true ∧ o.ok .initRootFs = false ∧
          s'.storage .rootfs = if o.removes .attempt then none else some .partly))) ∨
    (∃ s', runStages o.ok (.check .userToken :: makeRootFs o) s = (true, s') ∧
      begins o 1 s = true ∧ o.ok .initRootFs = true ∧
      s'.registration = s.registration ∧ s'.storage .vhd = s.storage .vhd ∧
      s'.storage .rootfs = some .partly ∧ s'.deleteFlags = [.rootfs]) := by
  have hbegins : begins o 1 s =
      (o.ok .userToken && (o.ok .policy && (clear o 1 s && o.ok .createDirectory))) := by
    simp [begins, makeSteps, Bool.and_assoc, Bool.and_comm]
  rw [makeRootFs, runStages_check, runStages_check, runStages_assign, hbegins]
  cases o.ok .userToken with
  | false => exact .inl ⟨s, rfl, rfl, rfl, hs, .inl ⟨rfl, .inr rfl⟩⟩
  | true =>
    cases o.ok .policy with
    | false => exact .inl ⟨s, rfl, rfl, rfl, hs, .inl ⟨rfl, .inr rfl⟩⟩
    | true =>
      have hclear := rootfs_clear o s
      generalize hs₁ : s.delete (o.removes .leftover) .rootfs = s₁ at hclear ⊢
      have hvhd : s₁.storage .vhd = s.storage .vhd := by
        rw [← hs₁]
        exact delete_storage_ne _ _ (by decide)
      have hreg : s₁.registration = s.registration := by rw [← hs₁, delete_registration]
      have hflags : s₁.deleteFlags = [] := by rw [← hs₁, delete_deleteFlags, hs]
      simp only [if_true, Bool.true_and, runStages, Stage.succeeds, hclear, Option.all_some]
      cases hmade : clear o 1 s && o.ok .createDirectory with
      | false =>
        refine .inl ⟨s₁, rfl, hreg, hvhd, hflags, .inl ⟨rfl, ?_⟩⟩
        rw [← hs₁, delete_storage]
        cases o.removes .leftover
        · exact .inr rfl
        · exact .inl rfl
      | true =>
        cases o.ok .initRootFs with
        | false =>
          refine .inl ⟨_, rfl, ?_, ?_, ?_, .inr ⟨rfl, rfl, ?_⟩⟩
          · simpa using hreg
          · rw [delete_storage_ne _ _ (by decide)]
            simpa using hvhd
          · simpa using hflags
          · rw [delete_storage]
            simp
        | true =>
          refine .inr ⟨_, rfl, rfl, rfl, hreg, ?_, rfl, rfl⟩
          simpa using hvhd

theorem run_makeVhd (o : Outcomes) (s : State) :
    (runStages o.ok (.check .userToken :: makeVhd) s = (false, s) ∧ begins o 2 s = false) ∨
    (runStages o.ok (.check .userToken :: makeVhd) s =
        (true, { s.put .vhd (some .partly) with deleteFlags := [.vhd] }) ∧ begins o 2 s = true) := by
  have hbegins : begins o 2 s =
      (o.ok .userToken && (o.ok .createVm && (o.ok .createVhd && s.storage .vhd == none))) := by
    simp [begins, makeSteps, clear, target, Bool.and_assoc]
  rw [makeVhd, runStages_check, runStages_check, hbegins]
  cases o.ok .userToken with
  | false => exact .inl ⟨rfl, rfl⟩
  | true =>
    cases o.ok .createVm with
    | false => exact .inl ⟨rfl, rfl⟩
    | true =>
      simp only [if_true, Bool.true_and, runStages, Stage.succeeds, Option.all_some, Bool.and_comm]
      by_cases hvhd : (o.ok .createVhd && s.storage .vhd == none) = true
      · rw [if_pos hvhd]
        exact .inr ⟨rfl, hvhd⟩
      · rw [if_neg hvhd]
        exact .inl ⟨rfl, Bool.eq_false_iff.mpr hvhd⟩

theorem convert_rootfs_ends (o : Outcomes) (flags : BitVec 32) (s : State) (hs : s.deleteFlags = []) :
    Ends o 1 (flags &&& ~~~Flags.vmMode) s (runStages o.ok (convert o 1 flags) s) := by
  have hconvert : convert o 1 flags = (.check .userToken :: makeRootFs o) ++
      (fillRootFs ++ commit .vhd (flags &&& ~~~Flags.vmMode)) := by
    simp [convert]
  rw [hconvert, runStages_append]
  rcases run_makeRootFs o s hs with
    ⟨s₁, hrun, hreg, hold, hflags, ⟨hb, hnew⟩ | ⟨hb, hinit, hnew⟩⟩ | ⟨s₁, hrun, hb, hinit, hreg, hold, hnew, hflags⟩
  · rw [hrun]
    exact .early s₁ hb hreg hold hnew hflags
  · rw [hrun]
    exact .attempt s₁ hb ⟨rfl, hinit⟩ hreg hold hnew hflags
  · rw [hrun, if_pos rfl, runStages_append, run_fillRootFs]
    have hinit' : ¬ (1 = 1 ∧ o.ok .initRootFs = false) := by simp [hinit]
    cases hfill : (fillSteps 1).all o.ok with
    | false => exact .filling s₁ hb hinit' hfill hreg hold (.inl hnew) hflags
    | true =>
      simp only [if_true, run_commit]
      refine .filled _ hb hinit' hfill ?_ ?_ ?_ ?_
      all_goals cases o.ok .writeFlags <;> simp [State.writeFlags, hreg, hold, target, other]

theorem convert_vhd_ends (o : Outcomes) (flags : BitVec 32) (s : State) (hs : s.deleteFlags = []) :
    Ends o 2 (flags ||| Flags.vmMode) s (runStages o.ok (convert o 2 flags) s) := by
  have hconvert : convert o 2 flags = (.check .userToken :: makeVhd) ++
      (fillVhd ++ commit .rootfs (flags ||| Flags.vmMode)) := by
    simp [convert]
  rw [hconvert, runStages_append]
  have hinit : ¬ (2 = 1 ∧ o.ok .initRootFs = false) := by simp
  rcases run_makeVhd o s with ⟨hrun, hb⟩ | ⟨hrun, hb⟩
  · rw [hrun]
    exact .early s hb rfl rfl (.inr rfl) hs
  · obtain ⟨s₂, hfill, hreg, hold, hflags, hdone, hnew⟩ :=
      run_fillVhd o (s := { s.put .vhd (some .partly) with deleteFlags := [.vhd] }) rfl
    rw [hrun, if_pos rfl, runStages_append, hfill]
    cases hall : (fillSteps 2).all o.ok with
    | false => exact .filling s₂ hb hinit hall hreg hold hnew hflags
    | true =>
      simp only [if_true, run_commit]
      have hdone := hdone hall
      simp only [State.put_registration, State.put_storage] at hreg hold
      refine .filled _ hb hinit hall ?_ ?_ ?_ ?_
      all_goals cases o.ok .writeFlags <;>
        simp [State.writeFlags, hreg, hold, hdone, target, other]

theorem other_other (form : Form) : other (other form) = form := by
  cases form <;> rfl

theorem other_ne (form : Form) : other form ≠ form := by
  cases form <;> decide

theorem cleanup_nil (o : Outcomes) (h : s.deleteFlags = []) : cleanup o s = s := by
  rw [cleanup, h, List.foldl_nil]

theorem cleanup_singleton (o : Outcomes) {form : Form} (h : s.deleteFlags = [form]) :
    cleanup o s = s.delete (o.removes .exit) form := by
  rw [cleanup, h, List.foldl_cons, List.foldl_nil]

theorem cleanup_registration (o : Outcomes) (s : State) : (cleanup o s).registration = s.registration := by
  unfold cleanup
  induction s.deleteFlags generalizing s with
  | nil => rfl
  | cons form forms ih => rw [List.foldl_cons, ih, delete_registration]

variable {o : Outcomes} {version : Nat}

theorem Ends.vhdFilePath {newFlags : BitVec 32} {r : Bool × State} (h : Ends o version newFlags s r) :
    r.2.registration.vhdFilePath = s.registration.vhdFilePath := by
  cases h with
  | early s' hb hreg hold hnew hflags => exact congrArg _ hreg
  | attempt s' hb hinit hreg hold hnew hflags => exact congrArg _ hreg
  | filling s' hb hinit hfill hreg hold hnew hflags => exact congrArg _ hreg
  | filled s' hb hinit hfill hreg hold hnew hflags =>
    rw [hreg]
    split <;> rfl

/-- The conversion keeps the distribution exactly when it ends well, if it
creates the new form at all. -/
theorem Ends.kept_iff {newFlags : BitVec 32}
    {r : Bool × State} (h : Ends o version newFlags s r) (hs : Stored s)
    (htarget : target version = other s.form) (hnamed : Form.named newFlags = target version) :
    Kept s r.1 (cleanup o r.2) ↔ (begins o version s = true → endsWell o version = true) := by
  have hold : other (target version) = s.form := by rw [htarget, other_other]
  have hform : ∀ s' : State, s'.registration = s.registration → s'.form = s.form := by
    intro s' hreg
    rw [State.form, State.form, hreg]
  cases h with
  | early s' hb hreg hold' hnew hflags =>
    rw [hold] at hold'
    rw [htarget] at hnew
    simp only [hb, Bool.false_eq_true, false_imp_iff, iff_true, cleanup_nil o hflags]
    refine ⟨by rw [hform s' hreg, hold', hs.complete], fun h => absurd (hold'.trans hs.complete) h, fun _ => ?_⟩
    rcases hnew with h | h
    · simp [h]
    · rcases hs.other with h' | h' <;> simp [h, h']
  | attempt s' hb hinit hreg hold' hnew hflags =>
    rw [hold] at hold'
    rw [htarget] at hnew
    simp only [hb, true_imp_iff, endsWell, if_pos hinit, cleanup_nil o hflags]
    constructor
    · intro hkept
      by_contra hrm
      exact (hkept.new rfl).1 (by rw [hnew, if_neg hrm])
    · intro hrm
      refine ⟨by rw [hform s' hreg, hold', hs.complete], fun h => absurd (hold'.trans hs.complete) h, fun _ => ?_⟩
      simp [hnew, hrm]
  | filling s' hb hinit hfill hreg hold' hnew hflags =>
    rw [hold] at hold'
    rw [htarget] at hnew hflags
    have hkeep : (s'.delete (o.removes .exit) (other s.form)).storage s.form = some .complete := by
      rw [delete_storage_ne _ _ (other_ne _).symm, hold', hs.complete]
    simp only [hb, true_imp_iff, endsWell, if_neg hinit, hfill, Bool.false_eq_true, if_false,
      cleanup_singleton o hflags]
    constructor
    · intro hkept
      by_contra hrm
      have hnot := hkept.new rfl
      rw [delete_storage, if_neg hrm] at hnot
      exact hnew.elim hnot.1 hnot.2
    · intro hrm
      have hform' := hform (s'.delete (o.removes .exit) (other s.form)) (by rw [delete_registration, hreg])
      refine ⟨by rw [hform', hkeep], fun h => absurd hkeep h, fun _ => ?_⟩
      simp [delete_storage, hrm]
  | filled s' hb hinit hfill hreg hold' hnew hflags =>
    rw [htarget] at hnew
    rw [hold] at hflags
    have hkeep : (s'.delete (o.removes .exit) s.form).storage (other s.form) = some .complete := by
      rw [delete_storage_ne _ _ (other_ne _), hnew]
    simp only [hb, true_imp_iff, endsWell, if_neg hinit, hfill, if_true, cleanup_singleton o hflags]
    constructor
    · intro hkept
      by_contra hwrite
      exact (hkept.new (by simpa using hwrite)).2 hkeep
    · intro hwrite
      have hform' : (s'.delete (o.removes .exit) s.form).form = other s.form := by
        rw [State.form, delete_registration, hreg, if_pos hwrite, ← htarget, ← hnamed]
      refine ⟨by rw [hform', hkeep], fun _ => ⟨hkeep, hform'⟩, fun h => ?_⟩
      rw [hwrite] at h
      cases h

theorem isSet_override (globalFlags flags : BitVec 32) :
    Flags.isSet (applyGlobalFlagsOverride globalFlags flags) Flags.vmMode =
      Flags.isSet flags Flags.vmMode := by
  have hmask : (globalFlags ||| Flags.vmMode) &&& Flags.all &&& Flags.vmMode = Flags.vmMode := by
    have hall : Flags.all &&& Flags.vmMode = Flags.vmMode := by decide
    rw [BitVec.and_assoc, hall]
    exact beq_iff_eq.mp (Flags.isSet_or globalFlags Flags.vmMode)
  rw [Flags.isSet, applyGlobalFlagsOverride, BitVec.and_assoc, hmask, Flags.isSet]

theorem Stored.kept (hs : Stored s) : Kept s false s := by
  refine ⟨hs.complete, fun h => absurd hs.complete h, fun _ => ?_⟩
  rcases hs.other with h | h <;> simp [h]

theorem target_of_accepted {globalFlags : BitVec 32} {id : Nat}
    {lxcoreInitialized : Bool} {config : Configuration}
    (hconfig : getDistributionConfiguration globalFlags id s.registration = some config)
    (h : accepted o version config lxcoreInitialized = true) :
    (version = 1 ∧ s.form = .vhd) ∨ (version = 2 ∧ s.form = .rootfs) := by
  obtain ⟨name, -, rfl⟩ := Option.map_eq_some_iff.mp hconfig
  simp only [accepted, Bool.and_eq_true, Bool.or_eq_true, beq_iff_eq, isSet_override] at h
  obtain ⟨⟨⟨⟨⟨hversion, -⟩, -⟩, hmode⟩, -⟩, -⟩ := h
  rcases hversion with rfl | rfl
  · refine .inl ⟨rfl, ?_⟩
    rw [if_pos rfl] at hmode
    rw [State.form, Form.named, if_pos hmode]
  · refine .inr ⟨rfl, ?_⟩
    simp only [Nat.reduceEqDiff, if_false, Bool.and_eq_true, Bool.not_eq_true'] at hmode
    rw [State.form, Form.named, hmode.2]
    rfl

end SetVersion

theorem setVersion_vhdFilePath (o : Outcomes) (version : Nat) (globalFlags : BitVec 32)
    (lxcoreInitialized : Bool) (id : Nat) (s : SetVersion.State) :
    (setVersion o version globalFlags lxcoreInitialized id s).2.registration.vhdFilePath =
      s.registration.vhdFilePath := by
  rw [setVersion]
  cases hconfig : getDistributionConfiguration globalFlags id s.registration with
  | none => rfl
  | some config =>
    cases hacc : accepted o version config lxcoreInitialized with
    | false => simp [hacc]
    | true =>
      simp only [hacc, if_true, cleanup_registration]
      rcases target_of_accepted hconfig hacc with ⟨rfl, -⟩ | ⟨rfl, -⟩
      · exact (convert_rootfs_ends o config.flags { s with deleteFlags := [] } rfl).vhdFilePath
      · exact (convert_vhd_ends o config.flags { s with deleteFlags := [] } rfl).vhdFilePath

/-- SetVersion keeps the distribution exactly when a conversion that creates the
new form ends well. -/
theorem setVersion_kept_iff (o : Outcomes) (version : Nat) (globalFlags : BitVec 32)
    (lxcoreInitialized : Bool) (id : Nat) {s : SetVersion.State} (hs : Stored s) :
    Kept s (setVersion o version globalFlags lxcoreInitialized id s).1
        (setVersion o version globalFlags lxcoreInitialized id s).2 ↔
      ∀ config, getDistributionConfiguration globalFlags id s.registration = some config →
        accepted o version config lxcoreInitialized = true → begins o version s = true →
          endsWell o version = true := by
  rw [setVersion]
  cases hconfig : getDistributionConfiguration globalFlags id s.registration with
  | none => simpa using hs.kept
  | some config =>
    cases hacc : accepted o version config lxcoreInitialized with
    | false => simpa [hacc] using hs.kept
    | true =>
      simp only [if_true, Option.some.injEq, forall_eq', hacc, true_imp_iff]
      have hs' : Stored { s with deleteFlags := [] } := ⟨hs.complete, hs.other⟩
      have hkept : ∀ success after, Kept { s with deleteFlags := [] } success after ↔ Kept s success after :=
        fun _ _ => ⟨fun h => ⟨h.registered, h.old, h.new⟩, fun h => ⟨h.registered, h.old, h.new⟩⟩
      rw [← hkept]
      rcases target_of_accepted hconfig hacc with ⟨rfl, hform⟩ | ⟨rfl, hform⟩
      · refine (convert_rootfs_ends o config.flags { s with deleteFlags := [] } rfl).kept_iff hs' ?_ ?_
        · exact (congrArg other hform).symm
        · rw [Form.named, Flags.isSet_and_not (by decide)]
          rfl
      · refine (convert_vhd_ends o config.flags { s with deleteFlags := [] } rfl).kept_iff hs' ?_ ?_
        · exact (congrArg other hform).symm
        · rw [Form.named, Flags.isSet_or]
          rfl

def SetVersion.ubuntu : SetVersion.State :=
  { registration :=
      { name := some "ubuntu".toList, state := .installed, version := 2,
        basePath := ["c:".toList, "wsl".toList], flags := Flags.defaults ||| Flags.vmMode,
        packageFamilyName := [], vhdFileName := "ext4.vhdx".toList }
    storage := fun form => if form = .vhd then some .complete else none
    deleteFlags := [] }

theorem setVersion_kept_ubuntu :
    Kept ubuntu (setVersion ⟨fun _ => true, fun _ => true⟩ 1 Flags.all true 0 ubuntu).1
      (setVersion ⟨fun _ => true, fun _ => true⟩ 1 Flags.all true 0 ubuntu).2 :=
  (setVersion_kept_iff ⟨fun _ => true, fun _ => true⟩ 1 Flags.all true 0
    (s := ubuntu) ⟨by decide, .inl (by decide)⟩).mpr (by intros; decide)

/-- The flags cannot be written: the VHD is deleted, and the registration still
names it. -/
theorem setVersion_loses_vhd :
    ¬ Kept ubuntu (setVersion ⟨fun step => step != .writeFlags, fun _ => true⟩ 1 Flags.all true 0 ubuntu).1
      (setVersion ⟨fun step => step != .writeFlags, fun _ => true⟩ 1 Flags.all true 0 ubuntu).2 := by
  intro h
  have hregistered := h.registered
  revert hregistered
  decide

end WslPlus.Session

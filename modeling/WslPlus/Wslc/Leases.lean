import WslPlus.Wslc.Order

/-!
# Leases of the VM

A lease is granted under the shared lock and has it until it is released, so that nothing that
needs the lock alone happens in between. Whether the VM is needed is told by a count of activities,
which an idle stop looks at a last time before it commits.
-/

namespace WslPlus.Wslc

def Pc.tearsDown : Pc → Bool
  | .tearDown _ | .dismantle _ | .vacate _ => true
  | _ => false

structure LeaseStep (r : Runtime) (op : Op) (r' : Runtime) : Prop where
  granted : ∀ (t : Nat) (th th' : Thread), r.threads[t]? = some th → r'.threads[t]? = some th' →
    th.pc ≠ .held .acquire → th'.pc = .held .acquire →
    r'.shared.vmState = .running ∧ r'.shared.vmStopPending = false
  held : ∀ th ∈ r.threads, ∀ policy, th.pc = .held policy →
    r'.shared.vmGeneration = r.shared.vmGeneration ∧ r'.shared.vmState = r.shared.vmState ∧
      ∀ t a u, op = .thread t a → r.threads[t]? = some u → u.pc.tearsDown = false
  commits : ∀ (t : Nat) (th th' : Thread), r.threads[t]? = some th → r'.threads[t]? = some th' →
    th.pc ≠ .commit → th'.pc = .commit →
    th.pc = .idleRecheck ∧ r.shared.exclusive = true ∧ r.shared.activityCount = 0

def PendsIdle (r : Runtime) (_ : Op) (r' : Runtime) : Prop :=
  r.shared.vmStopPending = false → r'.shared.vmStopPending = true → r.shared.activityCount = 0

instance (r : Runtime) (op : Op) (r' : Runtime) : Decidable (PendsIdle r op r') :=
  inferInstanceAs (Decidable (r.shared.vmStopPending = false → r'.shared.vmStopPending = true →
    r.shared.activityCount = 0))

structure Shares (r : Runtime) : Prop where
  orderly : Orderly r
  readers : total .sharing r.threads = r.shared.readers
  alone : r.shared.exclusive = true → r.shared.readers = 0

namespace Shares

variable {r : Runtime} {t : Nat} {th u : Thread}

theorem kept (hr : Shares r) (ht : r.threads[t]? = some th) (a : Action) : Shares (after r t th a) := by
  refine ⟨hr.orderly.kept ht a, ?_, act_alone a hr.alone⟩
  have hset := total_set (m := .sharing) ht (act a r.shared th).2
  have hle := count_le_total (m := .sharing) (List.mem_of_getElem? ht)
  rw [hr.readers] at hle
  have hact := act_readers a hle
  have := hr.readers
  simp only [after]
  omega

theorem step (hr : Shares r) (op : Op) : Shares (Wslc.step op r) := by
  apply Threaded.step_cases hr
  · intro _ _
    refine ⟨hr.orderly.spawn, ?_, hr.alone⟩
    rw [Orderly.total_spawn rfl]
    exact hr.readers
  · intro t a th _ ht
    exact hr.kept ht a

theorem initial (idleTerminationEnabled : Bool) : Shares (Wslc.initial idleTerminationEnabled) :=
  ⟨Orderly.initial _, rfl, fun _ => rfl⟩

theorem not_holding (hr : Shares r) (hth : th ∈ r.threads) {policy : VmLeasePolicy} (hpc : th.pc = .held policy)
    (hu : u ∈ r.threads) : Region.holding.pc u.pc = false := by
  rw [← Bool.not_eq_true]
  intro hholding
  have hsharing : 0 < total .sharing r.threads :=
    Nat.lt_of_lt_of_le (count_pos (by rw [hpc]; rfl)) (count_le_total hth)
  have hexclusive : 0 < total .holding r.threads := Nat.lt_of_lt_of_le (count_pos hholding) (count_le_total hu)
  rw [hr.readers] at hsharing
  rw [hr.orderly.holding] at hexclusive
  cases hlock : r.shared.exclusive with
  | false =>
    rw [hlock] at hexclusive
    exact absurd hexclusive (by decide)
  | true =>
    have := hr.alone hlock
    omega

end Shares

section Act

variable {a : Action} {s : Shared} {th : Thread}

theorem came_from {pc pc' : Pc} (hentered : Region.entered ⟨(· == pc'), fun _ => false⟩ [(pc, pc')] = true)
    (hne : th.pc ≠ pc') (hpc' : (act a s th).2.pc = pc') : th.pc = pc := by
  rcases flow_enters hentered (act_flow a s th) (beq_iff_eq.mpr hpc') with hsame | hedge
  · exact absurd (beq_iff_eq.mp hsame) hne
  · exact (Prod.mk.inj (List.mem_singleton.mp hedge)).1

theorem inspect_granted (hne : th.pc ≠ .held .acquire) (hpc' : (act a s th).2.pc = .held .acquire) :
    (act a s th).1.vmState = .running ∧ (act a s th).1.vmStopPending = false := by
  have hpc : th.pc = .inspect .acquire := came_from (by decide) hne hpc'
  obtain ⟨ok, heq⟩ := act_of_moved (by rw [hpc]; exact Pc.noConfusion) (by rw [hpc']; exact Ne.symm hne)
  rw [heq, advance, hpc] at hpc' ⊢
  by_cases hrun : s.vmState = .running
  · cases hpend : s.vmStopPending with
    | false => simp [hrun, hpend]
    | true => simp [hrun, hpend, Thread.goto] at hpc'
  · simp [hrun, Thread.goto] at hpc'

end Act

section Run

variable {r : Runtime} {t : Nat} {th : Thread}

theorem Shares.leaseStep_after (hr : Shares r) (ht : r.threads[t]? = some th) (a : Action) :
    LeaseStep r (.thread t a) (after r t th a) := by
  have hmem := List.mem_of_getElem? ht
  -- Only the thread that acts can have moved.
  have hmoved : ∀ {i : Nat} {u u' : Thread} {pc : Pc}, r.threads[i]? = some u →
      (after r t th a).threads[i]? = some u' → u.pc ≠ pc → u'.pc = pc →
      u = th ∧ u' = (act a r.shared th).2 := by
    intro i u u' pc hu hu' hne hpc
    by_cases hit : t = i
    · subst hit
      rw [ht] at hu
      simp only [after] at hu'
      rw [List.getElem?_set_self (List.getElem?_eq_some_iff.mp ht).1] at hu'
      exact ⟨(Option.some.inj hu).symm, (Option.some.inj hu').symm⟩
    · simp only [after] at hu'
      rw [List.getElem?_set_ne hit, hu] at hu'
      rw [Option.some.inj hu'] at hne
      exact absurd hpc hne
  refine ⟨?_, ?_, ?_⟩
  · intro i u u' hu hu' hne hpc
    obtain ⟨rfl, rfl⟩ := hmoved hu hu' hne hpc
    exact inspect_granted hne hpc
  · intro u hu policy hpc
    have hholding := hr.not_holding hu hpc hmem
    have hnot : ∀ {pc : Pc}, Region.holding.pc pc = true → th.pc ≠ pc := by
      intro pc hpc' heq
      rw [heq, hpc'] at hholding
      cases hholding
    refine ⟨(act_frame r.shared th a).generation.resolve_right (hnot rfl), ?_, ?_⟩
    · rcases (act_frame r.shared th a).vmState with hsame | hpc' | hpc' | hpc' | ⟨_, hpc'⟩
      · exact hsame
      all_goals exact absurd hpc' (hnot rfl)
    · intro i b v hop hv
      cases hop
      rw [ht] at hv
      cases hv
      have hall : ∀ pc ∈ Pc.all, Region.holding.pc pc = false → pc.tearsDown = false := by decide
      exact hall th.pc th.pc.mem_all hholding
  · intro i u u' hu hu' hne hpc
    obtain ⟨rfl, rfl⟩ := hmoved hu hu' hne hpc
    have hrecheck : u.pc = .idleRecheck := came_from (by decide) hne hpc
    refine ⟨hrecheck, ?_, recheck_commit hrecheck hpc⟩
    have hpos := Nat.lt_of_lt_of_le (count_pos (m := .holding) (by rw [hrecheck]; rfl)) (count_le_total hmem)
    rw [hr.orderly.holding] at hpos
    cases hexclusive : r.shared.exclusive with
    | true => rfl
    | false =>
      rw [hexclusive] at hpos
      exact absurd hpos (by decide)

theorem leaseStep_idle {op : Op} {threads : List Thread}
    (hop : ∀ (t : Nat) a u, op = .thread t a → r.threads[t]? ≠ some u)
    (hthreads : ∀ (t : Nat) (th th' : Thread), r.threads[t]? = some th → threads[t]? = some th' → th' = th) :
    LeaseStep r op ⟨r.shared, threads⟩ := by
  refine ⟨?_, ?_, ?_⟩
  · intro t th th' ht ht' hne hpc
    rw [hthreads t th th' ht ht'] at hpc
    exact absurd hpc hne
  · intro th _ policy _
    exact ⟨rfl, rfl, fun t a u hop' hu => absurd hu (hop t a u hop')⟩
  · intro t th th' ht ht' hne hpc
    rw [hthreads t th th' ht ht'] at hpc
    exact absurd hpc hne

theorem Shares.leaseStep (hr : Shares r) (op : Op) : LeaseStep r op (Wslc.step op r) := by
  cases op with
  | spawn k =>
    apply leaseStep_idle
    · intro t a u hop
      cases hop
    · intro t th th' ht ht'
      rw [List.getElem?_append_left (List.getElem?_eq_some_iff.mp ht).1, ht] at ht'
      exact (Option.some.inj ht').symm
  | thread t a =>
    cases ht : r.threads[t]? with
    | some th =>
      rw [Wslc.step, Threaded.step_thread ht]
      exact hr.leaseStep_after ht a
    | none =>
      simp only [Wslc.step, Threaded.step, ht]
      apply leaseStep_idle
      · intro i b u hop hu
        cases hop
        rw [ht] at hu
        cases hu
      · intro i th th' hth hth'
        rw [hth] at hth'
        exact (Option.some.inj hth').symm

end Run

/-- A lease is granted while the VM runs and no stop of it is announced, and until it is released
the VM stays the same and is not torn down. An idle stop commits after it has found nothing active
under the lock, and the activities are the leases and the references. -/
theorem leases_safe (idleTerminationEnabled : Bool) (ops : List Op) :
    Along step LeaseStep ops (initial idleTerminationEnabled) ∧
      0 ≤ (runSteps step ops (initial idleTerminationEnabled)).shared.activityCount ∧
      (runSteps step ops (initial idleTerminationEnabled)).shared.activityCount =
        (runSteps step ops (initial idleTerminationEnabled)).shared.activityRefs +
          total .active (runSteps step ops (initial idleTerminationEnabled)).threads := by
  have hactive := (Orderly.run ops idleTerminationEnabled).active
  have hstep : ∀ op r, Shares r → True → Shares (step op r) := fun op _ hr _ => hr.step op
  refine ⟨?_, by omega, hactive⟩
  apply along_of_step hstep _ (Shares.initial idleTerminationEnabled) (allowed_of_forall (fun _ _ _ => trivial) _)
  intro op r hr _
  exact hr.leaseStep op

/-- An activity that comes in after the last look of an idle stop does not keep it from going on. -/
theorem stop_pends_busy :
    ¬∀ (idleTerminationEnabled : Bool) (ops : List Op), Along step PendsIdle ops
      (initial idleTerminationEnabled) := by
  intro h
  have hrun := h true
    ([Threaded.Op.spawn (), Threaded.Op.spawn (), Threaded.Op.thread 0 (.call (.lease .acquire))] ++
      List.replicate 22 (Threaded.Op.thread 0 (.advance true)) ++
      Threaded.Op.thread 1 (.call .idleTimer) :: List.replicate 6 (Threaded.Op.thread 1 (.advance true)) ++
      [.thread 0 (.call .addActivity), .thread 1 (.advance true)])
  revert hrun
  decide

end WslPlus.Wslc

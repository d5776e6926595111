import WslPlus.Wslc.Order

/-!
# A VM that has crashed

The exit of a VM is told to the session once. Whoever takes it has to see to the end of the VM: the
session terminates, or the stop that had claimed the VM before tears it down. A stop that gives its
claim back after the exit was told leaves a dead VM that counts as running.
-/

namespace WslPlus.Wslc

open List

/-- The VM is dead and the session was told so, but it is taken for running and nobody is about to
stop it or to end the session. -/
def Forgotten (r : Runtime) : Prop :=
  (∃ vm ∈ r.shared.vm, vm.exited = true ∧ vm.consumed = true) ∧ r.shared.vmState = .running ∧
    r.shared.vmExitDisposition = .active ∧ r.shared.terminating = false ∧
    ∀ th ∈ r.threads, th.pc = .outside ∧ th.hooks = []

instance (r : Runtime) : Decidable (Forgotten r) :=
  inferInstanceAs (Decidable ((∃ vm ∈ r.shared.vm, vm.exited = true ∧ vm.consumed = true) ∧ r.shared.vmState = .running ∧
    r.shared.vmExitDisposition = .active ∧ r.shared.terminating = false ∧
    ∀ th ∈ r.threads, th.pc = .outside ∧ th.hooks = []))

/-- The step of an idle stop that gives its claim back because of an activity is not taken after
the exit of the VM was told. -/
def Remembers (op : Op) (r : Runtime) : Prop :=
  match op with
  | .spawn _ => True
  | .thread t _ => ∀ th ∈ r.threads[t]?, th.pc = .backOut → ∀ vm ∈ r.shared.vm, vm.consumed = false

instance : (op : Op) → (r : Runtime) → Decidable (Remembers op r)
  | .spawn _, _ => .isTrue trivial
  | .thread t _, r =>
    inferInstanceAs (Decidable (∀ th ∈ r.threads[t]?, th.pc = .backOut → ∀ vm ∈ r.shared.vm, vm.consumed = false))

def Told (r : Runtime) : Prop :=
  (∃ vm, r.shared.vm = some vm ∧ vm.consumed = true) ∧ r.shared.vmState = .running

def Dying (r : Runtime) : Prop :=
  r.shared.vmExitDisposition = .exitClaimed ∧ (r.shared.terminating = true ∨ ∃ th ∈ r.threads, th.pc = .exchange)

def Stopping (r : Runtime) : Prop :=
  r.shared.vmExitDisposition = .stopRequested ∧ ∃ th ∈ r.threads, 0 < th.count .claiming

/-- A stop that has claimed the VM before its exit was told gives up its claim no sooner than the
VM is down. -/
def Completes (r : Runtime) (_ : Op) (r' : Runtime) : Prop :=
  Told r → Stopping r → r'.shared.vmState = .running → Stopping r'

/-- How the instance changes. -/
inductive Revised (s : Shared) (pc : Pc) (s' : Shared) (pc' : Pc) : Prop where
  | same (h : s'.vm = s.vm) (hpc' : pc' = .recover → pc = .recover) (hwatch : pc' = .watch → pc = .watch)
  | create (hpc : pc = .create) (hpc' : pc' = .watch) (h' : s'.vm = some {})
  | watch (hpc : pc = .watch) (hpc' : pc' = .recover) (h' : s'.vm = s.vm.map ({ · with watched := true }))
  | dismantle (stopper : Option Stopper) (hpc : pc = .dismantle stopper) (hpc' : pc' = .vacate stopper)
      (h' : s'.vm = none)
  | crash (hpc : pc = .outside) (hpc' : pc' = .outside) (h' : s'.vm = s.vm.map ({ · with exited := true }))
  | told (vm : Vm) (hpc : pc = .outside) (hpc' : pc' = .exchange ∨ pc' = .outside) (h : s.vm = some vm)
      (hwatched : vm.watched = true) (h' : s'.vm = some { vm with consumed := true })
      (hdisposition : s'.vmExitDisposition ≠ .active)

theorem advance_revised (ok : Bool) (s : Shared) (th : Thread) :
    Revised s th.pc (advance ok s th).1 (advance ok s th).2.pc := by
  obtain ⟨pc, generation, hooks⟩ := th
  cases pc with
  | outside =>
    cases hooks with
    | nil => exact .same rfl Pc.noConfusion Pc.noConfusion
    | cons hook hooks =>
      rcases hook with _ | _ | _ <;> cases ok <;> exact .same rfl Pc.noConfusion Pc.noConfusion
  | create =>
    cases ok with
    | true => exact .create rfl rfl rfl
    | false => exact .same rfl Pc.noConfusion Pc.noConfusion
  | watch =>
    cases ok with
    | true => exact .watch rfl rfl rfl
    | false => exact .same rfl Pc.noConfusion Pc.noConfusion
  | dismantle stopper => exact .dismantle stopper rfl rfl rfl
  | recover => exact .same (by cases ok <;> rfl) (fun _ => rfl) (by cases ok <;> exact Pc.noConfusion)
  | relock stopper =>
    simp only [advance]
    split
    · cases stopper <;> exact .same rfl Pc.noConfusion Pc.noConfusion
    · exact .same rfl Pc.noConfusion Pc.noConfusion
  | vacate stopper => rcases stopper with _ | _ | _ <;> exact .same rfl Pc.noConfusion Pc.noConfusion
  | _ =>
    simp only [advance, exchangeDisposition_eq]
    repeat' split
    all_goals exact .same rfl Pc.noConfusion Pc.noConfusion

variable {s : Shared} {th : Thread}

theorem call_revised (c : Call) (h : th.pc = .outside) :
    Revised s th.pc (call c s th).1 (call c s th).2.pc := by
  have hpc := call_pc c (s := s) h
  have hnext : ∀ pc ∈ .outside :: Pc.next .outside, pc ≠ .recover ∧ pc ≠ .watch := by decide
  obtain ⟨hrecover, hwatch⟩ := hnext _ (mem_cons.mpr hpc)
  cases c with
  | crash => exact .crash h h rfl
  | vmExited =>
    simp only [call]
    split
    next =>
      unfold onVmExited
      cases hvm : s.vm with
      | none => exact .same rfl (fun heq => heq) (fun heq => heq)
      | some vm =>
        simp only []
        split
        next hguard =>
          simp only [Bool.and_eq_true] at hguard
          refine .told vm h ?_ hvm hguard.1.2 rfl ?_
          · simp only [Thread.goto]
            split
            · exact .inl rfl
            · exact .inr rfl
          · simp only [exchangeDisposition_eq]
            split
            · exact VmExitDisposition.noConfusion
            · assumption
        next => exact .same rfl (fun heq => heq) (fun heq => heq)
    next => exact .same rfl (fun heq => heq) (fun heq => heq)
  | lease policy | terminate | idleTimer | triggerIdleTermination | addActivity | releaseActivity =>
    refine .same ?_ (fun heq => absurd heq hrecover) (fun heq => absurd heq hwatch)
    simp only [call]
    repeat' split
    all_goals rfl

theorem act_revised (a : Action) (s : Shared) (th : Thread) :
    Revised s th.pc (act a s th).1 (act a s th).2.pc := by
  cases a with
  | advance ok => exact advance_revised ok s th
  | call c =>
    rw [act]
    split
    next hpc => exact call_revised c hpc
    next => exact .same rfl (fun heq => heq) (fun heq => heq)

theorem Revised.consumed {s s' : Shared} {pc pc' : Pc} (h : Revised s pc s' pc')
    (hfresh : pc = .watch → ∀ vm, s.vm = some vm → vm.consumed = false) {vm' : Vm} (hvm' : s'.vm = some vm')
    (hcons : vm'.consumed = true) :
    s'.vmExitDisposition ≠ .active ∨ ∃ vm, s.vm = some vm ∧ vm.consumed = true := by
  cases h with
  | same hsame =>
    rw [hsame] at hvm'
    exact .inr ⟨vm', hvm', hcons⟩
  | create _ _ hnew =>
    rw [hnew] at hvm'
    cases hvm'
    cases hcons
  | watch hpc _ hwatched =>
    rw [hwatched, Option.map_eq_some_iff] at hvm'
    obtain ⟨vm, hvm, rfl⟩ := hvm'
    have := hfresh hpc vm hvm
    rw [hcons] at this
    cases this
  | dismantle _ _ _ hnone =>
    rw [hnone] at hvm'
    cases hvm'
  | crash _ _ hexited =>
    rw [hexited, Option.map_eq_some_iff] at hvm'
    obtain ⟨vm, hvm, rfl⟩ := hvm'
    exact .inr ⟨vm, hvm, hcons⟩
  | told _ _ _ _ _ _ hdisp => exact .inl hdisp

/-- `OnVmExited` has claimed the exit, and the session is about to terminate. -/
def Region.requesting : Region where
  pc
    | .exchange => true
    | _ => false
  hook _ := false

structure Attended (r : Runtime) : Prop where
  orderly : Orderly r
  watched : ∀ vm, r.shared.vm = some vm → vm.consumed = true → vm.watched = true
  unwatched : ∀ th ∈ r.threads, th.pc = .watch → ∀ vm, r.shared.vm = some vm → vm.watched = false
  recovering : ∀ th ∈ r.threads, th.pc = .recover → ∀ vm, r.shared.vm = some vm → vm.consumed = true →
    r.shared.vmExitDisposition ≠ .active
  told : Told r → r.shared.vmExitDisposition ≠ .active
  requested : r.shared.vmExitDisposition = .exitClaimed →
    r.shared.terminating = true ∨ 0 < total .requesting r.threads

theorem active_again {a : Action} (h : s.vmExitDisposition ≠ .active)
    (h' : (act a s th).1.vmExitDisposition = .active) : th.pc = .backOut ∨ th.pc = .restore ∨
    th.pc = .activate := by
  cases act_disposed s th a with
  | same hsame => exact absurd (hsame.symm.trans h') h
  | claimed _ hactive => exact absurd hactive h
  | returned hpc =>
    rcases hpc with hpc | hpc
    · exact .inl hpc
    · exact .inr (.inl hpc)
  | reset hpc => exact .inr (.inr hpc)
  | exited _ _ hactive => exact absurd hactive h

theorem exchange_done {a : Action} (hpc : th.pc = .exchange)
    (hmoved : (act a s th).2.pc ≠ .exchange) : (act a s th).1.terminating = true := by
  obtain ⟨ok, heq⟩ := act_of_moved (by rw [hpc]; exact Pc.noConfusion) (by rw [hpc]; exact hmoved)
  cases hterm : s.terminating with
  | true => exact act_terminating hterm
  | false =>
    rw [heq, advance, hpc]
    simp [hterm]

namespace Attended

variable {r : Runtime} {t : Nat} {th : Thread}

section Kept

variable (hr : Attended r) (ht : r.threads[t]? = some th) (a : Action)
include hr ht

theorem unconsumed (hpc : th.pc = .watch) : ∀ vm, r.shared.vm = some vm → vm.consumed = false := by
  intro vm hvm
  rw [← Bool.not_eq_true]
  intro hcons
  have hwatched := hr.watched vm hvm hcons
  rw [hr.unwatched th (mem_of_getElem? ht) hpc vm hvm] at hwatched
  cases hwatched

omit ht in
theorem watched_kept : ∀ vm, (after r t th a).shared.vm = some vm → vm.consumed = true → vm.watched = true := by
  intro vm' hvm' hcons
  simp only [after] at hvm'
  cases act_revised a r.shared th with
  | same hsame =>
    rw [hsame] at hvm'
    exact hr.watched vm' hvm' hcons
  | create _ _ hnew =>
    rw [hnew] at hvm'
    cases hvm'
    cases hcons
  | watch _ _ hwatched =>
    rw [hwatched, Option.map_eq_some_iff] at hvm'
    obtain ⟨vm, -, rfl⟩ := hvm'
    rfl
  | dismantle _ _ _ hnone =>
    rw [hnone] at hvm'
    cases hvm'
  | crash _ _ hexited =>
    rw [hexited, Option.map_eq_some_iff] at hvm'
    obtain ⟨vm, hvm, rfl⟩ := hvm'
    exact hr.watched vm hvm hcons
  | told vm _ _ _ hwatched htold =>
    rw [htold] at hvm'
    cases hvm'
    exact hwatched

theorem unwatched_kept : ∀ u ∈ (after r t th a).threads, u.pc = .watch →
    ∀ vm, (after r t th a).shared.vm = some vm → vm.watched = false := by
  intro u hu hpc vm' hvm'
  have hmem := mem_of_getElem? ht
  simp only [after] at hvm'
  rcases Threaded.of_mem_set hu with rfl | ⟨i, hne, hi⟩
  · cases act_revised a r.shared th with
    | same hsame _ hwatch =>
      rw [hsame] at hvm'
      exact hr.unwatched th hmem (hwatch hpc) vm' hvm'
    | create _ _ hnew =>
      rw [hnew] at hvm'
      cases hvm'
      rfl
    | watch _ hpc' | dismantle _ _ hpc' | crash _ hpc' => exact absurd (hpc'.symm.trans hpc) Pc.noConfusion
    | told _ _ hpc' => rcases hpc' with hpc' | hpc' <;> exact absurd (hpc'.symm.trans hpc) Pc.noConfusion
  · have hholding : Region.holding.pc th.pc = false := by
      rw [← Bool.not_eq_true]
      intro hth
      have := hr.orderly.other_not_holding ht hth hi hne
      rw [hpc] at this
      cases this
    have hbefore := hr.unwatched u (mem_of_getElem? hi) hpc
    cases act_revised a r.shared th with
    | same hsame =>
      rw [hsame] at hvm'
      exact hbefore vm' hvm'
    | create hpc' | watch hpc' | dismantle _ hpc' =>
      rw [hpc'] at hholding
      cases hholding
    | crash _ _ hexited =>
      rw [hexited, Option.map_eq_some_iff] at hvm'
      obtain ⟨vm, hvm, rfl⟩ := hvm'
      exact hbefore vm hvm
    | told vm _ _ hvm hwatched =>
      rw [hbefore vm hvm] at hwatched
      cases hwatched

theorem recovering_kept : ∀ u ∈ (after r t th a).threads, u.pc = .recover →
    ∀ vm, (after r t th a).shared.vm = some vm → vm.consumed = true →
      (after r t th a).shared.vmExitDisposition ≠ .active := by
  intro u hu hpc vm' hvm' hcons hactive
  have hmem := mem_of_getElem? ht
  have hrevised := act_revised a r.shared th
  obtain ⟨vm, hvm, hcons'⟩ :=
    (hrevised.consumed (hr.unconsumed ht) hvm' hcons).resolve_left (fun hne => hne hactive)
  rcases Threaded.of_mem_set hu with rfl | ⟨i, hne, hi⟩
  · have hrecover : th.pc = .recover := by
      cases hrevised with
      | same _ hrecover => exact hrecover hpc
      | watch hwatch =>
        have := hr.unconsumed ht hwatch vm hvm
        rw [hcons'] at this
        cases this
      | create _ hpc' | dismantle _ _ hpc' | crash _ hpc' => exact absurd (hpc'.symm.trans hpc) Pc.noConfusion
      | told _ _ hpc' => rcases hpc' with hpc' | hpc' <;> exact absurd (hpc'.symm.trans hpc) Pc.noConfusion
    have hbefore := hr.recovering th hmem hrecover vm hvm hcons'
    rcases active_again hbefore hactive with hpc' | hpc' | hpc' <;> exact absurd (hpc'.symm.trans hrecover) Pc.noConfusion
  · have hbefore := hr.recovering u (mem_of_getElem? hi) hpc vm hvm hcons'
    have hth : Region.holding.pc th.pc = true := by
      rcases active_again hbefore hactive with hpc' | hpc' | hpc' <;> rw [hpc'] <;> rfl
    have := hr.orderly.other_not_holding ht hth hi hne
    rw [hpc] at this
    cases this

theorem told_kept (hback : th.pc = .backOut → ∀ vm, r.shared.vm = some vm → vm.consumed = false)
    (htold : Told (after r t th a)) : (after r t th a).shared.vmExitDisposition ≠ .active := by
  intro hactive
  obtain ⟨⟨vm', hvm', hcons⟩, hrun⟩ := htold
  have hmem := mem_of_getElem? ht
  have hexpects := hr.orderly.expects th hmem
  obtain ⟨vm, hvm, hcons'⟩ :=
    ((act_revised a r.shared th).consumed (hr.unconsumed ht) hvm' hcons).resolve_left (fun hne => hne hactive)
  cases act_restated a r.shared th with
  | same hsame =>
    have hbefore : r.shared.vmState = .running := hsame.symm.trans hrun
    rw [hbefore] at hexpects
    rcases active_again (hr.told ⟨⟨vm, hvm, hcons'⟩, hbefore⟩) hactive with hpc | hpc | hpc
    · have := hback hpc vm hvm
      rw [hcons'] at this
      cases this
    · rw [hpc] at hexpects
      cases hexpects
    · rw [hpc] at hexpects
      cases hexpects
  | recover hpc =>
    have hbefore := hr.recovering th hmem hpc vm hvm hcons'
    rcases active_again hbefore hactive with hpc' | hpc' | hpc' <;> exact absurd (hpc'.symm.trans hpc) Pc.noConfusion
  | start _ hstate | stop _ _ hstate | vacate _ _ _ hstate => exact absurd (hstate.symm.trans hrun) VmState.noConfusion

theorem requested_kept (h : (after r t th a).shared.vmExitDisposition = .exitClaimed) :
    (after r t th a).shared.terminating = true ∨ 0 < total .requesting (after r t th a).threads := by
  have hflow := act_flow a r.shared th
  cases act_disposed r.shared th a with
  | same hsame =>
    rcases hr.requested (hsame.symm.trans h) with hterm | hpos
    · exact .inl (act_terminating hterm)
    · by_cases hedge : (th.pc, (act a r.shared th).2.pc) ∈ [(.exchange, .outside), (.exchange, .terminateLock)]
      · left
        simp only [mem_cons, Prod.mk.injEq, not_mem_nil, or_false] at hedge
        rcases hedge with ⟨hpc, hpc'⟩ | ⟨hpc, hpc'⟩ <;> exact exchange_done hpc (by rw [hpc']; exact Pc.noConfusion)
      · exact .inr (Nat.lt_of_lt_of_le hpos (le_total_set (by decide) ht hflow hedge))
  | claimed _ _ hreq => exact absurd (hreq.symm.trans h) (by decide)
  | returned _ _ _ hactive | reset _ hactive => exact absurd (hactive.symm.trans h) (by decide)
  | exited _ hpc' =>
    right
    have hset := total_set (m := .requesting) ht (act a r.shared th).2
    have hle := count_le_total (m := .requesting) (mem_of_getElem? ht)
    have hpos : 0 < (act a r.shared th).2.count .requesting := count_pos (by rw [hpc']; rfl)
    simp only [after]
    omega

omit hr in
theorem completes (hr : Orderly r)
    (hback : th.pc = .backOut → ∀ vm, r.shared.vm = some vm → vm.consumed = false)
    (htold : Told r) (hstopping : Stopping r) (hrun : (after r t th a).shared.vmState = .running) :
    Stopping (after r t th a) := by
  have hexpects := hr.expects th (mem_of_getElem? ht)
  obtain ⟨⟨vm, hvm, hcons⟩, hbefore⟩ := htold
  rw [hbefore] at hexpects
  have hreq : (after r t th a).shared.vmExitDisposition = .stopRequested := by
    cases act_disposed r.shared th a with
    | same hsame => exact hsame.trans hstopping.1
    | claimed _ _ hreq => exact hreq
    | returned hpc =>
      rcases hpc with hpc | hpc
      · have := hback hpc vm hvm
        rw [hcons] at this
        cases this
      · rw [hpc] at hexpects
        cases hexpects
    | reset hpc =>
      rw [hpc] at hexpects
      cases hexpects
    | exited _ _ hactive => exact absurd (hactive.symm.trans hstopping.1) (by decide)
  refine ⟨hreq, ?_⟩
  rcases hr.requested_kept ht a hreq with hpos | hne
  · exact exists_of_total_pos hpos
  · exact absurd hrun hne

theorem kept (hback : th.pc = .backOut → ∀ vm, r.shared.vm = some vm → vm.consumed = false) :
    Attended (after r t th a) where
  orderly := hr.orderly.kept ht a
  watched := hr.watched_kept a
  unwatched := hr.unwatched_kept ht a
  recovering := hr.recovering_kept ht a
  told := hr.told_kept ht a hback
  requested := hr.requested_kept ht a

end Kept

theorem step (hr : Attended r) {op : Op} (hop : Remembers op r) : Attended (Wslc.step op r) := by
  apply Threaded.step_cases hr
  · intro _ _
    have hmem : ∀ u ∈ r.threads ++ [({} : Thread)], u ∈ r.threads ∨ u.pc = .outside :=
    fun u hu => (Orderly.mem_spawn hu).imp_right (congrArg Thread.pc)
    refine ⟨hr.orderly.spawn, hr.watched, ?_, ?_, hr.told, ?_⟩
    · intro u hu hpc
      rcases hmem u hu with hu | hout
      · exact hr.unwatched u hu hpc
      · exact absurd (hout.symm.trans hpc) Pc.noConfusion
    · intro u hu hpc
      rcases hmem u hu with hu | hout
      · exact hr.recovering u hu hpc
      · exact absurd (hout.symm.trans hpc) Pc.noConfusion
    · rw [Orderly.total_spawn rfl]
      exact hr.requested
  · intro t a th hop' ht
    subst hop'
    exact hr.kept ht a (hop th ht)

theorem initial (idleTerminationEnabled : Bool) : Attended (Wslc.initial idleTerminationEnabled) := by
  refine ⟨Orderly.initial _, ?_, ?_, ?_, ?_, ?_⟩
  · intro vm hvm
    cases hvm
  · intro u hu
    cases hu
  · intro u hu
    cases hu
  · rintro ⟨-, hrun⟩
    cases hrun
  · intro h
    cases h

theorem dying_or_stopping (hr : Attended r) (htold : Told r) : Dying r ∨ Stopping r := by
  cases hdisp : r.shared.vmExitDisposition with
  | active => exact absurd hdisp (hr.told htold)
  | exitClaimed =>
    left
    refine ⟨hdisp, ?_⟩
    rcases hr.requested hdisp with hterm | hpos
    · exact .inl hterm
    · obtain ⟨u, hu, hcount⟩ := exists_of_total_pos hpos
      refine .inr ⟨u, hu, ?_⟩
      have hall : ∀ pc ∈ Pc.all, Region.requesting.pc pc = true → pc = .exchange := by decide
      apply hall u.pc u.pc.mem_all
      rw [count_of_hook_false rfl] at hcount
      exact toNat_le_toNat (x := true) hcount rfl
  | stopRequested =>
    right
    refine ⟨hdisp, ?_⟩
    rcases hr.orderly.requested hdisp with hpos | hne
    · exact exists_of_total_pos hpos
    · exact absurd htold.2 hne

theorem step_completes (hr : Attended r) {op : Op} (hop : Remembers op r) :
    Completes r op (Wslc.step op r) := by
  apply Threaded.step_cases (P := fun r' => Completes r op r')
  · intro _ hstopping _
    exact hstopping
  · rintro _ _ _ ⟨hreq, th, hth, hcount⟩ _
    exact ⟨hreq, th, mem_append_left _ hth, hcount⟩
  · intro t a th hop' ht htold hstopping hrun
    subst hop'
    exact completes ht a hr.orderly (hop th ht) htold hstopping hrun

end Attended

/-- In a run in which no idle stop backs out of its claim after the exit of the VM was told, a VM
that has crashed is not forgotten. -/
theorem crashed_vm_attended (idleTerminationEnabled : Bool) (ops : List Op)
    (hops : Allowed step Remembers ops (initial idleTerminationEnabled)) :
    ¬Forgotten (runSteps step ops (initial idleTerminationEnabled)) ∧
      (Told (runSteps step ops (initial idleTerminationEnabled)) →
        Dying (runSteps step ops (initial idleTerminationEnabled)) ∨
          Stopping (runSteps step ops (initial idleTerminationEnabled))) ∧
      Along step Completes ops (initial idleTerminationEnabled) := by
  have hstep : ∀ op r, Attended r → Remembers op r → Attended (step op r) := fun _ _ hr hop => hr.step hop
  have hr := inv_runSteps hstep (Attended.initial idleTerminationEnabled) hops
  refine ⟨?_, hr.dying_or_stopping, ?_⟩
  · rintro ⟨⟨vm, hvm, -, hconsumed⟩, hrunning, hactive, -⟩
    exact hr.told ⟨⟨vm, hvm, hconsumed⟩, hrunning⟩ hactive
  · apply along_of_step hstep _ (Attended.initial idleTerminationEnabled) hops
    intro op r hr hop
    exact hr.step_completes hop

def crashRun : List Op :=
  [.spawn (), .spawn (), .spawn (), .thread 0 (.call (.lease .acquire))] ++
    List.replicate 22 (.thread 0 (.advance true)) ++
    .thread 1 (.call .idleTimer) :: List.replicate 5 (.thread 1 (.advance true)) ++
    [.thread 2 (.call .crash), .thread 2 (.call .vmExited)]

theorem crashed_vm_attended_claimed :
    Told (runSteps step crashRun (initial true)) ∧
      (Dying (runSteps step crashRun (initial true)) ∨ Stopping (runSteps step crashRun (initial true))) := by
  have htold : Told (runSteps step crashRun (initial true)) :=
    ⟨⟨{ exited := true, watched := true, consumed := true }, by decide, rfl⟩, by decide⟩
  exact ⟨htold, (crashed_vm_attended true crashRun (by decide)).2.1 htold⟩

/-- An activity that comes in between makes the stop back out, and the VM is forgotten. -/
theorem crashed_vm_forgotten :
    ¬∀ (idleTerminationEnabled : Bool) (ops : List Op),
      ¬Forgotten (runSteps step ops (initial idleTerminationEnabled)) := by
  intro h
  apply h true (crashRun ++
    Threaded.Op.thread 0 (.call .addActivity) :: List.replicate 3 (Threaded.Op.thread 1 (.advance true)))
  decide

end WslPlus.Wslc

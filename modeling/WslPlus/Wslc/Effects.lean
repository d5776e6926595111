import WslPlus.Wslc.Flow

/-!
# What the actions of a session do

For each member of the runtime, the places at which it is changed, and how the locks and the
activity count follow the threads that hold them.
-/

namespace WslPlus.Wslc

open List

namespace Region

def holding : Region where
  pc
    | .recheck | .decide | .abandon => true
    | .start | .activate | .number | .create | .watch | .recover | .started | .cleanup => true
    | .idleTerminating | .idleActivity | .claim | .idleRecheck | .backOut | .commit | .leave => true
    | .stop | .endStop | .restore | .unlock => true
    | .tearDown _ | .dismantle _ | .vacate _ => true
    | .dropLock | .signal => true
    | _ => false
  hook _ := false

def sharing : Region where
  pc
    | .inspect _ | .held _ => true
    | _ => false
  hook _ := false

def active : Region where
  pc
    | .ensure | .fast | .lockExclusive | .recheck | .decide | .lockShared _ | .inspect _ | .wait | .held _ => true
    | .abandon | .release => true
    | .start | .activate | .number | .create | .watch | .recover | .started | .cleanup => true
    | .tearDown none | .dismantle none | .vacate none => true
    | .notifyStarted | .checkTerminating | .checkGeneration | .record | .announceStarted => true
    | _ => false
  hook
    | .started => true
    | _ => false

end Region

def Pc.notifies : Pc → Bool
  | .checkTerminating | .checkGeneration | .record | .announceStarted => true
  | .retire _ | .announceStopping _ => true
  | _ => false

def Thread.notifies (th : Thread) : Nat := (th.pc.notifies || !th.hooks.isEmpty).toNat

section Locks

variable {s : Shared} {th : Thread}

theorem exclusive_of_lockFree (h : s.lockFree = true) : s.exclusive = false := by
  simp only [Shared.lockFree, Bool.and_eq_true, Bool.not_eq_true'] at h
  exact h.1

theorem readers_of_lockFree (h : s.lockFree = true) : s.readers = 0 := by
  simp only [Shared.lockFree, Bool.and_eq_true, beq_iff_eq] at h
  exact h.2

theorem exchangeDisposition_eq (s : Shared) (expected desired : VmExitDisposition) :
    s.exchangeDisposition expected desired =
      { s with vmExitDisposition := if s.vmExitDisposition = expected then desired else s.vmExitDisposition } := by
  unfold Shared.exchangeDisposition
  split <;> rfl

theorem call_eq (c : Call) (s : Shared) (th : Thread) :
    (∃ disposition vm count refs, (call c s th).1 =
      { s with vmExitDisposition := disposition, vm := vm, activityCount := count, activityRefs := refs }) ∧
    (call c s th).2.hooks = th.hooks ∧ (call c s th).2.generation = th.generation := by
  cases c with
  | vmExited =>
    unfold call onVmExited
    rw [exchangeDisposition_eq]
    dsimp only
    repeat' split
    all_goals exact ⟨⟨_, _, _, _, rfl⟩, rfl, rfl⟩
  | _ =>
    unfold call
    dsimp only
    repeat' split
    all_goals exact ⟨⟨_, _, _, _, rfl⟩, rfl, rfl⟩

theorem count_of_hook_false {m : Region} (h : m.hook = fun _ => false) (th : Thread) :
    th.count m = (m.pc th.pc).toNat := by
  rw [Thread.count, h, countP_false]
  rfl

theorem toNat_le_toNat {x y : Bool} (h : x.toNat ≤ y.toNat) (hx : x = true) : y = true := by
  subst hx
  cases y
  · exact absurd h (by decide)
  · rfl

theorem advance_exclusive (ok : Bool) (h : th.count .holding ≤ s.exclusive.toNat) :
    (advance ok s th).2.count .holding + s.exclusive.toNat =
      th.count .holding + (advance ok s th).1.exclusive.toNat := by
  obtain ⟨pc, generation, hooks⟩ := th
  rw [count_of_hook_false rfl] at h ⊢
  rw [count_of_hook_false rfl]
  replace h := toNat_le_toNat h
  cases pc with
  | outside =>
    cases hooks with
    | nil => rfl
    | cons hook hooks => rcases hook with _ | _ | _ <;> cases ok <;> rfl
  | relock stopper =>
    simp only [advance]
    split
    next hfree => cases stopper <;> simp [exclusive_of_lockFree hfree, Region.holding, Thread.goto, Stopper.locked]
    next => rfl
  | vacate stopper => rcases stopper with _ | _ | _ <;> rfl
  | _ =>
    simp only [advance, exchangeDisposition_eq]
    repeat' split
    all_goals first
      | rfl
      | simp_all [Region.holding, Thread.goto, Shared.unlockExclusive, exclusive_of_lockFree]

theorem advance_readers (ok : Bool) (h : th.count .sharing ≤ s.readers) :
    (advance ok s th).2.count .sharing + s.readers = th.count .sharing + (advance ok s th).1.readers := by
  obtain ⟨pc, generation, hooks⟩ := th
  rw [count_of_hook_false rfl] at h ⊢
  rw [count_of_hook_false rfl]
  cases pc with
  | outside =>
    cases hooks with
    | nil => rfl
    | cons hook hooks => rcases hook with _ | _ | _ <;> cases ok <;> rfl
  | relock stopper =>
    simp only [advance]
    split
    · cases stopper <;> rfl
    · rfl
  | vacate stopper => rcases stopper with _ | _ | _ <;> rfl
  | inspect policy | held policy =>
    have hpos : 1 ≤ s.readers := h
    simp only [advance]
    repeat' split
    all_goals first
      | rfl
      | simp only [Region.sharing, Thread.goto, Shared.unlockShared, Bool.toNat_true, Bool.toNat_false]; omega
  | lockShared policy =>
    simp only [advance]
    split
    · rfl
    · simp only [Region.sharing, Thread.goto, Bool.toNat_true, Bool.toNat_false]
      omega
  | _ =>
    simp only [advance, exchangeDisposition_eq]
    repeat' split
    all_goals rfl

theorem advance_alone (ok : Bool) (h : s.exclusive = true → s.readers = 0) :
    (advance ok s th).1.exclusive = true → (advance ok s th).1.readers = 0 := by
  obtain ⟨pc, generation, hooks⟩ := th
  cases pc with
  | outside => cases hooks <;> exact h
  | _ =>
    simp only [advance, exchangeDisposition_eq]
    repeat' split
    all_goals first
      | exact h
      | simp_all [readers_of_lockFree, Shared.unlockExclusive, Shared.unlockShared]

theorem advance_notifies (ok : Bool) (h : th.notifies ≤ s.notifyLocked.toNat) :
    (advance ok s th).2.notifies + s.notifyLocked.toNat = th.notifies +
    (advance ok s th).1.notifyLocked.toNat := by
  obtain ⟨pc, generation, hooks⟩ := th
  unfold Thread.notifies at h ⊢
  replace h := toNat_le_toNat h
  cases pc with
  | outside =>
    cases hooks with
    | nil => rfl
    | cons hook hooks =>
      have hlock : s.notifyLocked = true := h rfl
      rcases hook with _ | _ | _ <;> cases ok <;> cases hooks <;>
        simp [advance, Hook.resume, Pc.notifies, Shared.unlockNotify, hlock]
  | relock stopper =>
    simp only [advance]
    split
    · cases stopper <;> rfl
    · rfl
  | vacate stopper => rcases stopper with _ | _ | _ <;> rfl
  | notifyStarted | notifyStopping stopper =>
    simp only [advance]
    split
    next hmay =>
      simp only [Shared.mayNotify, Bool.or_eq_true] at hmay
      cases hooks <;> simp_all [Thread.goto, Pc.notifies]
    next => rfl
  | _ =>
    simp only [advance, exchangeDisposition_eq]
    repeat' split
    all_goals first
      | rfl
      | (cases hooks <;> simp_all [Thread.goto, Pc.notifies, Shared.unlockNotify])

theorem advance_activity (ok : Bool) (s : Shared) (th : Thread) :
    (advance ok s th).1.activityCount + th.count .active = s.activityCount + (advance ok s th).2.count .active ∧
      (advance ok s th).1.activityRefs = s.activityRefs := by
  obtain ⟨pc, generation, hooks⟩ := th
  cases pc with
  | outside =>
    cases hooks with
    | nil => exact ⟨rfl, rfl⟩
    | cons hook hooks =>
      rcases hook with _ | _ | _ <;> cases ok <;>
        simp [advance, Thread.count, Region.active, Hook.resume, Shared.unlockNotify]
      all_goals omega
  | relock stopper =>
    simp only [advance]
    split
    · cases stopper <;> exact ⟨rfl, rfl⟩
    · exact ⟨rfl, rfl⟩
  | vacate stopper | tearDown stopper | dismantle stopper => rcases stopper with _ | _ | _ <;> exact ⟨rfl, rfl⟩
  | release =>
    simp only [advance, Thread.count, Region.active, Thread.goto, Bool.toNat_true, Bool.toNat_false, and_true]
    omega
  | announceStarted | announceStopping stopper =>
    simp only [advance, Thread.count, Region.active, countP_cons, Bool.toNat_true, Bool.toNat_false]
    simp
    all_goals omega
  | _ =>
    simp only [advance, exchangeDisposition_eq]
    repeat' split
    all_goals first
      | exact ⟨rfl, rfl⟩
      | exact ⟨rfl, trivial⟩

end Locks

/-- Where each member is changed. -/
structure Frame (s : Shared) (pc : Pc) (s' : Shared) : Prop where
  vmState : s'.vmState = s.vmState ∨ pc = .start ∨ pc = .recover ∨ pc = .stop ∨ ∃ stopper, pc = .vacate stopper
  disposition : s'.vmExitDisposition = s.vmExitDisposition ∨ pc = .activate ∨ pc = .claim ∨ pc = .cleanup ∨
    pc = .backOut ∨ pc = .restore ∨ pc = .outside
  vm : s'.vm = s.vm ∨ pc = .create ∨ pc = .watch ∨ pc = .outside ∨ ∃ stopper, pc = .dismantle stopper
  generation : s'.vmGeneration = s.vmGeneration ∨ pc = .number
  notified : s'.notifiedGeneration = s.notifiedGeneration ∨ pc = .record ∨ (∃ stopper, pc = .retire stopper) ∨
    ∃ stopper, pc = .tearDown stopper
  stopPending : s'.vmStopPending = s.vmStopPending ∨ pc = .commit ∨ pc = .endStop
  terminating : s'.terminating = s.terminating ∨ pc = .exchange
  terminated : s'.terminated = s.terminated ∨ pc = .signal
  notifications : s'.notifications = s.notifications ∨ pc = .announceStarted ∨ ∃ stopper, pc = .announceStopping stopper

theorem Frame.refl (s : Shared) (pc : Pc) : Frame s pc s :=
  ⟨.inl rfl, .inl rfl, .inl rfl, .inl rfl, .inl rfl, .inl rfl, .inl rfl, .inl rfl, .inl rfl⟩

section Members

variable (s : Shared) (th : Thread)

theorem advance_frame (ok : Bool) : Frame s th.pc (advance ok s th).1 := by
  obtain ⟨pc, generation, hooks⟩ := th
  cases pc with
  | outside => cases hooks <;> constructor <;> exact .inl rfl
  | _ =>
    simp only [advance, exchangeDisposition_eq]
    repeat' split
    all_goals first
      | exact Frame.refl s _
      | (constructor <;> simp [Shared.unlockExclusive, Shared.unlockShared, Shared.unlockNotify])

theorem act_frame (a : Action) : Frame s th.pc (act a s th).1 := by
  cases a with
  | advance ok => exact advance_frame s th ok
  | call c =>
    rw [act]
    split
    next hpc =>
      obtain ⟨⟨disposition, vm, count, refs, heq⟩, -⟩ := call_eq c s th
      rw [heq, hpc]
      constructor <;> simp
    next => exact Frame.refl s th.pc

theorem act_inside {th : Thread} (h : th.pc ≠ .outside) (a : Action) :
    (∃ ok, act a s th = advance ok s th) ∨ act a s th = (s, th) := by
  cases a with
  | advance ok => exact .inl ⟨ok, rfl⟩
  | call c =>
    right
    rw [act]
    exact if_neg h

end Members

section Balance

variable {s : Shared} {th : Thread}

theorem call_pc (c : Call) (h : th.pc = .outside) :
    (call c s th).2.pc = .outside ∨ (call c s th).2.pc ∈ Pc.next .outside := by
  rcases call_eq c s th with ⟨-, hhooks, -⟩
  cases call_flow (s := s) c h with
  | stay hpc => exact .inl (hpc.trans h)
  | next hpc => rw [h] at hpc; exact .inr hpc
  | enter _ _ _ hhooks' =>
    rw [hhooks] at hhooks'
    exact absurd hhooks'.symm (cons_ne_self _ _)
  | leave hook _ _ _ hhooks' =>
    rw [hhooks] at hhooks'
    exact absurd hhooks'.symm (cons_ne_self _ _)

theorem call_count (m : Region) (hm : (.outside :: Pc.next .outside).all (fun pc => !m.pc pc) = true) (c : Call)
    (h : th.pc = .outside) : (call c s th).2.count m = th.count m := by
  have hfalse : ∀ pc, pc = .outside ∨ pc ∈ Pc.next .outside → m.pc pc = false := by
    intro pc hpc
    have := all_eq_true.mp hm pc (mem_cons.mpr hpc)
    rwa [Bool.not_eq_true'] at this
  rw [Thread.count, Thread.count, (call_eq c s th).2.1, h, hfalse _ (call_pc c h), hfalse _ (.inl rfl)]

theorem act_exclusive (a : Action) (h : th.count .holding ≤ s.exclusive.toNat) :
    (act a s th).2.count .holding + s.exclusive.toNat = th.count .holding + (act a s th).1.exclusive.toNat := by
  cases a with
  | advance ok => exact advance_exclusive ok h
  | call c =>
    rw [act]
    split
    next hpc =>
      obtain ⟨⟨disposition, vm, count, refs, heq⟩, -⟩ := call_eq c s th
      rw [heq, call_count .holding (by decide) c hpc]
    next => rfl

theorem act_readers (a : Action) (h : th.count .sharing ≤ s.readers) :
    (act a s th).2.count .sharing + s.readers = th.count .sharing + (act a s th).1.readers := by
  cases a with
  | advance ok => exact advance_readers ok h
  | call c =>
    rw [act]
    split
    next hpc =>
      obtain ⟨⟨disposition, vm, count, refs, heq⟩, -⟩ := call_eq c s th
      rw [heq, call_count .sharing (by decide) c hpc]
    next => rfl

theorem act_alone (a : Action) (h : s.exclusive = true → s.readers = 0) :
    (act a s th).1.exclusive = true → (act a s th).1.readers = 0 := by
  cases a with
  | advance ok => exact advance_alone ok h
  | call c =>
    rw [act]
    split
    next hpc =>
      obtain ⟨⟨disposition, vm, count, refs, heq⟩, -⟩ := call_eq c s th
      rw [heq]
      exact h
    next => exact h

theorem act_notifies (a : Action) (h : th.notifies ≤ s.notifyLocked.toNat) :
    (act a s th).2.notifies + s.notifyLocked.toNat = th.notifies + (act a s th).1.notifyLocked.toNat := by
  cases a with
  | advance ok => exact advance_notifies ok h
  | call c =>
    rw [act]
    split
    next hpc =>
      obtain ⟨⟨disposition, vm, count, refs, heq⟩, hhooks, -⟩ := call_eq c s th
      have hfalse : ∀ pc, pc = .outside ∨ pc ∈ Pc.next .outside → pc.notifies = false := by
        rintro pc (rfl | hpc)
        · rfl
        · exact all_eq_true.mp (show (Pc.next .outside).all (fun pc => pc.notifies == false) = true by decide)
            pc hpc |> beq_iff_eq.mp
      rw [heq, Thread.notifies, Thread.notifies, hhooks, hpc, hfalse _ (call_pc c hpc), hfalse _ (.inl rfl)]
    next => rfl

theorem act_activity (a : Action) (s : Shared) (th : Thread) :
    (act a s th).1.activityCount + s.activityRefs + th.count .active =
      s.activityCount + (act a s th).1.activityRefs + (act a s th).2.count .active := by
  cases a with
  | advance ok =>
    obtain ⟨hcount, hrefs⟩ := advance_activity ok s th
    simp only [act, hrefs]
    omega
  | call c =>
    rw [act]
    split
    next hpc =>
      obtain ⟨pc, generation, hooks⟩ := th
      cases hpc
      cases c with
      | lease policy =>
        cases policy <;>
          simp only [call, Thread.count, Region.active, Thread.goto, Bool.toNat_false] <;> simp <;> omega
      | vmExited =>
        simp only [call, onVmExited, exchangeDisposition_eq]
        repeat' split
        all_goals rfl
      | crash | terminate | idleTimer | triggerIdleTermination =>
        simp only [call]
        repeat' split
        all_goals rfl
      | addActivity =>
        simp only [call]
        omega
      | releaseActivity =>
        simp only [call]
        split
        · rfl
        · dsimp only
          omega
    next => rfl

end Balance

def claimEdges : List (Pc × Pc) := [(.claim, .idleRecheck), (.cleanup, .tearDown none)]

inductive Disposed (s : Shared) (pc : Pc) (s' : Shared) (pc' : Pc) : Prop where
  | same (h : s'.vmExitDisposition = s.vmExitDisposition) (hedge : (pc, pc') ∉ claimEdges)
  | claimed (hedge : (pc, pc') ∈ claimEdges) (h : s.vmExitDisposition = .active)
      (h' : s'.vmExitDisposition = .stopRequested)
  | returned (hpc : pc = .backOut ∨ pc = .restore) (hpc' : pc' = .unlock) (h : s.vmExitDisposition = .stopRequested)
      (h' : s'.vmExitDisposition = .active)
  | reset (hpc : pc = .activate) (h' : s'.vmExitDisposition = .active)
  | exited (hpc : pc = .outside) (hpc' : pc' = .exchange) (h : s.vmExitDisposition = .active)
      (h' : s'.vmExitDisposition = .exitClaimed)

theorem not_claimEdges {pc pc' : Pc} (h : pc ≠ .claim) (h' : pc ≠ .cleanup) : (pc, pc') ∉ claimEdges := by
  intro hmem
  simp only [claimEdges, mem_cons, Prod.mk.injEq, not_mem_nil, or_false] at hmem
  rcases hmem with ⟨hpc, -⟩ | ⟨hpc, -⟩
  · exact h hpc
  · exact h' hpc

theorem Disposed.of_edge {s s' : Shared} {pc pc' : Pc} (h : Disposed s pc s' pc')
    (hedge : (pc, pc') ∈ claimEdges) :
    s.vmExitDisposition = .active ∧ s'.vmExitDisposition = .stopRequested := by
  cases h with
  | same _ hnot => exact absurd hedge hnot
  | claimed _ hactive hreq => exact ⟨hactive, hreq⟩
  | returned hpc =>
    rcases hpc with rfl | rfl <;> exact absurd hedge (not_claimEdges Pc.noConfusion Pc.noConfusion)
  | reset hpc =>
    subst hpc
    exact absurd hedge (not_claimEdges Pc.noConfusion Pc.noConfusion)
  | exited hpc =>
    subst hpc
    exact absurd hedge (not_claimEdges Pc.noConfusion Pc.noConfusion)

section Disposition

variable (s : Shared) (th : Thread)

theorem advance_disposed (ok : Bool) : Disposed s th.pc (advance ok s th).1 (advance ok s th).2.pc := by
  have hframe := (advance_frame s th ok).disposition
  obtain ⟨pc, generation, hooks⟩ := th
  cases pc with
  | outside => cases hooks <;> exact .same rfl (not_claimEdges Pc.noConfusion Pc.noConfusion)
  | activate => exact .reset rfl rfl
  | claim | cleanup =>
    simp only [advance, exchangeDisposition_eq]
    by_cases hactive : s.vmExitDisposition = .active
    · refine .claimed ?_ hactive (if_pos hactive)
      rw [if_pos hactive]
      dsimp only [Thread.goto]
      decide
    · refine .same (if_neg hactive) ?_
      rw [if_neg hactive]
      dsimp only [Thread.goto]
      decide
  | backOut | restore =>
    simp only [advance, exchangeDisposition_eq]
    by_cases hreq : s.vmExitDisposition = .stopRequested
    · exact .returned (by decide) rfl hreq (if_pos hreq)
    · exact .same (if_neg hreq) (not_claimEdges Pc.noConfusion Pc.noConfusion)
  | _ => exact .same (hframe.resolve_right (by simp)) (not_claimEdges Pc.noConfusion Pc.noConfusion)

theorem act_disposed (a : Action) : Disposed s th.pc (act a s th).1 (act a s th).2.pc := by
  cases a with
  | advance ok => exact advance_disposed s th ok
  | call c =>
    have hstay : ∀ pc', th.pc = .outside → (th.pc, pc') ∉ claimEdges := by
      intro pc' hpc
      rw [hpc]
      exact not_claimEdges Pc.noConfusion Pc.noConfusion
    rw [act]
    split
    next hpc =>
      cases c with
      | vmExited =>
        simp only [call, onVmExited, exchangeDisposition_eq]
        repeat' split
        all_goals first
          | exact .same rfl (hstay _ hpc)
          | (rename_i hactive; exact .exited hpc rfl hactive rfl)
      | _ =>
        unfold call
        dsimp only
        repeat' split
        all_goals exact .same rfl (hstay _ hpc)
    next hpc =>
      refine .same rfl ?_
      simp [claimEdges]
      constructor
      · intro h h'
        rw [h] at h'
        cases h'
      · intro h h'
        rw [h] at h'
        cases h'

variable {s th}

theorem returned_disposition {a : Action} (hpc : th.pc = .backOut ∨ th.pc = .restore)
    (hpc' : (act a s th).2.pc = .unlock) : (act a s th).1.vmExitDisposition ≠ .stopRequested := by
  have hne : th.pc ≠ .outside := by rcases hpc with hpc | hpc <;> rw [hpc] <;> exact Pc.noConfusion
  rcases act_inside s hne a with ⟨ok, heq⟩ | heq
  · have hexchange : (advance ok s th).1 = s.exchangeDisposition .stopRequested .active := by
      rcases hpc with hpc | hpc <;> rw [advance, hpc]
    rw [heq, hexchange, exchangeDisposition_eq]
    dsimp only
    split
    · exact VmExitDisposition.noConfusion
    · assumption
  · rw [heq] at hpc'
    rcases hpc with hpc | hpc <;> rw [hpc] at hpc' <;> cases hpc'

end Disposition

inductive Restated (s : Shared) (pc : Pc) (s' : Shared) (pc' : Pc) : Prop where
  | same (h : s'.vmState = s.vmState)
  | start (hpc : pc = .start) (h' : s'.vmState = .starting)
  | recover (hpc : pc = .recover) (hpc' : pc' = .started) (h' : s'.vmState = .running)
  | stop (hpc : pc = .stop) (h : s.vmState = .running) (h' : s'.vmState = .stopping)
  | vacate (stopper : Option Stopper) (hpc : pc = .vacate stopper) (hpc' : pc' = afterTearDown stopper)
      (h' : s'.vmState = .none)

theorem act_restated (a : Action) (s : Shared) (th : Thread) :
    Restated s th.pc (act a s th).1 (act a s th).2.pc := by
  rcases (act_frame s th a).vmState with hsame | hchanged
  · exact .same hsame
  · have hne : th.pc ≠ .outside := by
      rcases hchanged with h | h | h | ⟨_, h⟩ <;> rw [h] <;> exact Pc.noConfusion
    rcases act_inside s hne a with ⟨ok, heq⟩ | heq
    · rw [heq]
      rcases hchanged with h | h | h | ⟨stopper, h⟩
      · refine .start h ?_
        rw [advance, h]
      · rw [advance, h]
        cases ok
        · exact .same rfl
        · exact .recover rfl rfl rfl
      · rw [advance, h]
        dsimp only
        split
        next hrun => exact .stop rfl hrun rfl
        next => exact .same rfl
      · rw [advance, h]
        exact .vacate stopper rfl rfl rfl
    · rw [heq]
      exact .same rfl

section Guards

variable {a : Action} {s : Shared} {th : Thread}

theorem act_of_moved (hne : th.pc ≠ .outside) (hmoved : (act a s th).2.pc ≠ th.pc) :
    ∃ ok, act a s th = advance ok s th := by
  rcases act_inside s hne a with hadvance | hstay
  · exact hadvance
  · rw [hstay] at hmoved
    exact absurd rfl hmoved

theorem act_of_edge {pc pc' : Pc} (hpc : th.pc = pc) (hpc' : (act a s th).2.pc = pc')
    (hne : pc ≠ .outside ∧ pc' ≠ pc) : ∃ ok, act a s th = advance ok s th := by
  subst hpc hpc'
  exact act_of_moved hne.1 hne.2

theorem decide_start (hpc : th.pc = .decide) (hpc' : (act a s th).2.pc = .start) : s.vmState ≠ .running := by
  obtain ⟨ok, heq⟩ := act_of_edge hpc hpc' (by decide)
  rw [heq, advance, hpc] at hpc'
  intro hrun
  simp only [hrun, if_true, Thread.goto] at hpc'
  cases hpc'

theorem recheck_commit (hpc : th.pc = .idleRecheck) (hpc' : (act a s th).2.pc = .commit) :
    s.activityCount = 0 := by
  obtain ⟨ok, heq⟩ := act_of_edge hpc hpc' (by decide)
  rw [heq, advance, hpc] at hpc'
  by_contra hne
  simp only [hne, if_false, Thread.goto] at hpc'
  cases hpc'

theorem recheck_decide (hpc : th.pc = .recheck) (hpc' : (act a s th).2.pc = .decide) :
    s.terminating = false := by
  obtain ⟨ok, heq⟩ := act_of_edge hpc hpc' (by decide)
  rw [heq, advance, hpc] at hpc'
  by_contra hne
  rw [Bool.not_eq_false] at hne
  simp only [hne, Bool.true_or, if_true, Thread.goto] at hpc'
  cases hpc'

theorem check_passed (hpc : th.pc = .checkTerminating) (hpc' : (act a s th).2.pc = .checkGeneration) :
    s.terminating = false := by
  obtain ⟨ok, heq⟩ := act_of_edge hpc hpc' (by decide)
  rw [heq, advance, hpc] at hpc'
  by_contra hne
  rw [Bool.not_eq_false] at hne
  simp only [hne, if_true, Thread.goto] at hpc'
  cases hpc'

theorem terminate_locked (hpc : th.pc = .terminateLock) (hpc' : (act a s th).2.pc = .dropLock) :
    s.exclusive = false := by
  obtain ⟨ok, heq⟩ := act_of_edge hpc hpc' (by decide)
  by_cases hfree : s.lockFree = true
  · exact exclusive_of_lockFree hfree
  · have hstay : advance ok s th = (s, th) := by
      rw [advance, hpc]
      exact if_neg hfree
    rw [heq, hstay, hpc] at hpc'
    cases hpc'

end Guards

section End

variable {a : Action} {s : Shared} {th : Thread}

theorem act_terminating (h : s.terminating = true) : (act a s th).1.terminating = true := by
  rcases (act_frame s th a).terminating with hsame | hpc
  · rw [hsame, h]
  · rcases act_inside s (by rw [hpc]; exact Pc.noConfusion) a with ⟨ok, heq⟩ | heq
    · have hstay : (advance ok s th).1 = s := by
        rw [advance, hpc]
        simp only [h, if_true]
      rw [heq, hstay, h]
    · rw [heq, h]

theorem act_terminated (h : s.terminated = true) : (act a s th).1.terminated = true := by
  rcases (act_frame s th a).terminated with hsame | hpc
  · rw [hsame, h]
  · rcases act_inside s (by rw [hpc]; exact Pc.noConfusion) a with ⟨ok, heq⟩ | heq
    · rw [heq, advance, hpc]
    · rw [heq, h]

theorem signal_terminated (hpc : th.pc = .signal) (hpc' : (act a s th).2.pc = .unlock) :
    (act a s th).1.terminated = true := by
  obtain ⟨ok, heq⟩ := act_of_edge hpc hpc' (by decide)
  rw [heq, advance, hpc]

theorem exchange_terminating (h : th.pc = .terminateLock → s.terminating = true)
    (hpc' : (act a s th).2.pc = .terminateLock) : (act a s th).1.terminating = true := by
  by_cases hpc : th.pc = .terminateLock
  · exact act_terminating (h hpc)
  · have hexchange : th.pc = .exchange := by
      cases act_flow a s th with
      | stay hsame => exact absurd (hsame.symm.trans hpc') hpc
      | next hnext =>
        rw [hpc'] at hnext
        have hall : ∀ pc ∈ Pc.all, .terminateLock ∈ pc.next → pc = .exchange := by decide
        exact hall th.pc th.pc.mem_all hnext
      | enter _ _ houtside => rw [hpc'] at houtside; cases houtside
      | leave hook ok _ hresume =>
        rw [hpc'] at hresume
        rcases hook with _ | _ | _ <;> cases ok <;> cases hresume
    obtain ⟨ok, heq⟩ := act_of_moved (by rw [hexchange]; exact Pc.noConfusion) (by rw [hpc']; exact Ne.symm hpc)
    cases hterm : s.terminating with
    | true => exact act_terminating hterm
    | false =>
      rw [heq, advance, hexchange]
      simp [hterm]

end End

end WslPlus.Wslc

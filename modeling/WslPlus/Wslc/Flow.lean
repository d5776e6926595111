import WslPlus.Wslc.Runtime

/-!
# Where the threads of a session go

A thread moves along the edges of a graph, enters the handler of a notification and comes back
from it. The invariants of the runtime count the threads in some part of the graph; which edges
enter or leave such a part is computed from the graph.
-/

namespace WslPlus.Wslc

open Bool List

def Pc.next : Pc → List Pc
  | .outside => [.ensure, .lockShared .existingOnly, .exchange, .idleBegin, .idleLock]
  | .ensure => [.release, .fast]
  | .fast => [.lockShared .acquire, .lockExclusive]
  | .lockExclusive => [.recheck]
  | .recheck => [.abandon, .decide]
  | .decide => [.lockShared .acquire, .start]
  | .lockShared policy => [.inspect policy]
  | .inspect policy => [.held policy, .wait, .release, .ensure]
  | .wait => [.ensure]
  | .held _ => [.release]
  | .abandon => [.release]
  | .release => [.outside]
  | .start => [.activate]
  | .activate => [.number]
  | .number => [.create]
  | .create => [.watch, .cleanup]
  | .watch => [.recover, .cleanup]
  | .recover => [.started, .cleanup]
  | .started => [.notifyStarted]
  | .cleanup => [.tearDown none, .abandon]
  | .notifyStarted => [.checkTerminating]
  | .checkTerminating => [.lockShared .acquire, .checkGeneration]
  | .checkGeneration => [.record, .lockShared .acquire]
  | .record => [.announceStarted]
  | .announceStarted => []
  | .idleBegin => [.outside, .idleTryLock]
  | .idleTryLock => [.idleTerminating, .outside]
  | .idleLock => [.idleTerminating]
  | .idleTerminating => [.unlock, .idleActivity]
  | .idleActivity => [.claim, .unlock]
  | .claim => [.idleRecheck, .unlock]
  | .idleRecheck => [.commit, .backOut]
  | .backOut => [.unlock]
  | .commit => [.leave]
  | .leave => [.notifyStopping .idle]
  | .stop => [.tearDown (some .idle), .endStop]
  | .endStop => [.restore]
  | .restore => [.unlock]
  | .unlock => [.outside]
  | .notifyStopping stopper => [.retire stopper]
  | .retire stopper => [.announceStopping stopper, .relock stopper]
  | .announceStopping _ => []
  | .relock stopper => [stopper.locked]
  | .tearDown stopper => [.dismantle stopper]
  | .dismantle stopper => [.vacate stopper]
  | .vacate stopper => [afterTearDown stopper]
  | .exchange => [.outside, .terminateLock]
  | .terminateLock => [.dropLock]
  | .dropLock => [.load]
  | .load => [.notifyStopping .shutdown]
  | .signal => [.unlock]

def Pc.all : List Pc :=
  [.outside, .ensure, .fast, .lockExclusive, .recheck, .decide, .lockShared .acquire, .lockShared .existingOnly,
    .inspect .acquire, .inspect .existingOnly, .wait, .held .acquire, .held .existingOnly, .abandon, .release, .start, .activate, .number, .create,
    .watch, .recover, .started, .cleanup, .notifyStarted, .checkTerminating, .checkGeneration, .record,
    .announceStarted, .idleBegin, .idleTryLock, .idleLock, .idleTerminating, .idleActivity, .claim, .idleRecheck,
    .backOut, .commit, .leave, .stop, .endStop, .restore, .unlock, .notifyStopping .idle, .notifyStopping .shutdown,
    .retire .idle, .retire .shutdown, .announceStopping .idle, .announceStopping .shutdown, .relock .idle,
    .relock .shutdown, .tearDown none, .tearDown (some .idle), .tearDown (some .shutdown), .dismantle none,
    .dismantle (some .idle), .dismantle (some .shutdown), .vacate none, .vacate (some .idle), .vacate (some .shutdown),
    .exchange, .terminateLock, .dropLock, .load, .signal]

theorem Pc.mem_all (pc : Pc) : pc ∈ Pc.all := by
  cases pc with
  | lockShared policy | inspect policy | held policy => cases policy <;> decide
  | notifyStopping stopper | retire stopper | announceStopping stopper | relock stopper => cases stopper <;> decide
  | tearDown stopper | dismantle stopper | vacate stopper => rcases stopper with _ | _ | _ <;> decide
  | _ => decide

def Hook.all : List Hook := [.started, .stopping .idle, .stopping .shutdown]

theorem Hook.mem_all (hook : Hook) : hook ∈ Hook.all := by
  rcases hook with _ | _ | _ <;> decide

def Hook.announce : Hook → Pc
  | .started => .announceStarted
  | .stopping stopper => .announceStopping stopper

/-- How an action moves a thread. -/
inductive Flow (th th' : Thread) : Prop where
  | stay (pc : th'.pc = th.pc) (hooks : th'.hooks = th.hooks)
  | next (pc : th'.pc ∈ th.pc.next) (hooks : th'.hooks = th.hooks)
  | enter (hook : Hook) (announce : th.pc = hook.announce) (pc : th'.pc = .outside)
      (hooks : th'.hooks = hook :: th.hooks)
  | leave (hook : Hook) (ok : Bool) (outside : th.pc = .outside) (pc : th'.pc = hook.resume ok)
      (hooks : th.hooks = hook :: th'.hooks)

section Act

variable {s : Shared} {th : Thread}

theorem advance_flow (ok : Bool) (s : Shared) (th : Thread) : Flow th (advance ok s th).2 := by
  obtain ⟨pc, generation, hooks⟩ := th
  cases pc with
  | outside =>
    cases hooks with
    | nil => exact .stay rfl rfl
    | cons hook hooks => exact .leave hook ok rfl rfl rfl
  | announceStarted => exact .enter .started rfl rfl rfl
  | announceStopping stopper => exact .enter (.stopping stopper) rfl rfl rfl
  | _ =>
    simp only [advance]
    repeat' split
    all_goals first
      | exact .stay rfl rfl
      | exact .next (by simp [Pc.next, Thread.goto]) rfl

theorem call_flow (c : Call) (h : th.pc = .outside) : Flow th (call c s th).2 := by
  have hnext : ∀ pc ∈ Pc.next .outside, Flow th (th.goto pc) := by
    intro pc hpc
    rw [← h] at hpc
    exact .next hpc rfl
  cases c with
  | lease policy => cases policy <;> exact hnext _ (by decide)
  | terminate => exact hnext _ (by decide)
  | idleTimer | triggerIdleTermination =>
    simp only [call]
    split
    · exact hnext _ (by decide)
    · exact .stay rfl rfl
  | vmExited =>
    simp only [call, onVmExited]
    repeat' split
    all_goals first
      | exact .stay rfl rfl
      | exact hnext _ (by decide)
      | exact .stay h.symm rfl
  | crash | addActivity => exact .stay rfl rfl
  | releaseActivity =>
    simp only [call]
    split <;> exact .stay rfl rfl

theorem act_flow (a : Action) (s : Shared) (th : Thread) : Flow th (act a s th).2 := by
  cases a with
  | advance ok => exact advance_flow ok s th
  | call c =>
    simp only [act]
    split
    · exact call_flow c (by assumption)
    · exact .stay rfl rfl

end Act

/-- A part of the graph, and the handlers that belong to it. -/
structure Region where
  pc : Pc → Bool
  hook : Hook → Bool

def Thread.count (m : Region) (th : Thread) : Nat := (m.pc th.pc).toNat + th.hooks.countP m.hook

namespace Region

def entered (m : Region) (edges : List (Pc × Pc)) : Bool :=
  !m.pc .outside &&
    Pc.all.all (fun pc => pc.next.all fun pc' => !m.pc pc' || m.pc pc || edges.contains (pc, pc')) &&
    Hook.all.all fun hook => (!m.hook hook || m.pc hook.announce || edges.contains (hook.announce, .outside)) &&
      (!m.pc (hook.resume true) || m.hook hook) && (!m.pc (hook.resume false) || m.hook hook)

def left (m : Region) (edges : List (Pc × Pc)) : Bool :=
  !m.pc .outside &&
    Pc.all.all (fun pc => pc.next.all fun pc' => !m.pc pc || m.pc pc' || edges.contains (pc, pc')) &&
    Hook.all.all fun hook => (!m.pc hook.announce || m.hook hook) &&
      (!m.hook hook || m.pc (hook.resume true)) && (!m.hook hook || m.pc (hook.resume false))

def within (m m' : Region) : Bool :=
  Pc.all.all (fun pc => !m.pc pc || m'.pc pc) && Hook.all.all fun hook => !m.hook hook || m'.hook hook

variable {m m' : Region} {edges : List (Pc × Pc)} {th th' : Thread}

theorem toNat_le {x y : Bool} (h : (!x || y) = true) : x.toNat ≤ y.toNat := by
  cases x <;> cases y <;> first | decide | exact absurd h (by decide)

theorem countP_cons_toNat (p : Hook → Bool) (hook : Hook) (hooks : List Hook) :
    (hook :: hooks).countP p = hooks.countP p + (p hook).toNat := by
  rw [countP_cons]
  cases p hook <;> rfl

theorem toNat_outside (h : (!m.pc .outside) = true) : (m.pc .outside).toNat = 0 := by
  rw [not_eq_true'] at h
  rw [h]
  rfl

theorem count_le (hm : m.entered edges = true) (hf : Flow th th') :
    th'.count m ≤ th.count m ∨ (th.pc, th'.pc) ∈ edges := by
  simp only [entered, and_eq_true, all_eq_true] at hm
  obtain ⟨⟨houtside, hnext⟩, hhooks⟩ := hm
  have houtside := toNat_outside houtside
  cases hf with
  | stay hpc hhook =>
    left
    simp only [Thread.count, hpc, hhook, Nat.le_refl]
  | next hpc hhook =>
    have h := hnext th.pc th.pc.mem_all th'.pc hpc
    rw [or_eq_true] at h
    rcases h with h | h
    · left
      rw [Thread.count, Thread.count, hhook]
      exact Nat.add_le_add_right (toNat_le h) _
    · right
      exact contains_iff_mem.mp h
  | enter hook hannounce hpc hhook =>
    have h := (hhooks hook hook.mem_all).1.1
    rw [or_eq_true] at h
    rcases h with h | h
    · left
      have := toNat_le h
      rw [Thread.count, Thread.count, hpc, hhook, hannounce, countP_cons_toNat]
      omega
    · right
      rw [hannounce, hpc]
      exact contains_iff_mem.mp h
  | leave hook ok houtside' hpc hhook =>
    left
    obtain ⟨⟨-, htrue⟩, hfalse⟩ := hhooks hook hook.mem_all
    rw [Thread.count, Thread.count, hpc, houtside', hhook, countP_cons_toNat]
    cases ok with
    | true =>
      have := toNat_le htrue
      omega
    | false =>
      have := toNat_le hfalse
      omega

theorem le_count (hm : m.left edges = true) (hf : Flow th th') :
    th.count m ≤ th'.count m ∨ (th.pc, th'.pc) ∈ edges := by
  simp only [left, and_eq_true, all_eq_true] at hm
  obtain ⟨⟨houtside, hnext⟩, hhooks⟩ := hm
  have houtside := toNat_outside houtside
  cases hf with
  | stay hpc hhook =>
    left
    simp only [Thread.count, hpc, hhook, Nat.le_refl]
  | next hpc hhook =>
    have h := hnext th.pc th.pc.mem_all th'.pc hpc
    rw [or_eq_true] at h
    rcases h with h | h
    · left
      rw [Thread.count, Thread.count, hhook]
      exact Nat.add_le_add_right (toNat_le h) _
    · right
      exact contains_iff_mem.mp h
  | enter hook hannounce hpc hhook =>
    left
    have h := toNat_le (hhooks hook hook.mem_all).1.1
    rw [Thread.count, Thread.count, hpc, hhook, hannounce, countP_cons_toNat]
    omega
  | leave hook ok houtside' hpc hhook =>
    left
    obtain ⟨⟨-, htrue⟩, hfalse⟩ := hhooks hook hook.mem_all
    rw [Thread.count, Thread.count, hpc, houtside', hhook, countP_cons_toNat]
    cases ok with
    | true =>
      have := toNat_le htrue
      omega
    | false =>
      have := toNat_le hfalse
      omega

theorem count_le_succ (h : m.pc .outside = false) (hf : Flow th th') : th'.count m ≤ th.count m + 1 := by
  have hle : ∀ x : Bool, x.toNat ≤ 1 := Bool.toNat_le
  cases hf with
  | stay hpc hhook =>
    simp only [Thread.count, hpc, hhook]
    omega
  | next _ hhook =>
    have := hle (m.pc th'.pc)
    rw [Thread.count, Thread.count, hhook]
    omega
  | enter hook _ hpc hhook =>
    have := hle (m.hook hook)
    rw [Thread.count, Thread.count, hpc, hhook, countP_cons_toNat, h, toNat_false]
    omega
  | leave hook _ houtside _ hhook =>
    have := hle (m.pc th'.pc)
    rw [Thread.count, Thread.count, hhook, countP_cons_toNat]
    omega

theorem count_le_of_within (h : m.within m' = true) (th : Thread) : th.count m ≤ th.count m' := by
  simp only [within, and_eq_true, all_eq_true] at h
  refine Nat.add_le_add (toNat_le (h.1 th.pc th.pc.mem_all)) ?_
  apply countP_mono_left
  intro hook _ hhook
  have := h.2 hook hook.mem_all
  rw [hhook] at this
  exact this

end Region

end WslPlus.Wslc

import WslPlus.Lib.Threads

/-!
# The coroutine scheduler

Coroutines wait in a queue that a thread works through which has claimed it. A thread that
runs blocking code gives the queue up and tries to claim it again afterwards. An action is one
critical section of the lock, one exchange of the flag of a task, or a step that a thread
makes on its own; the threads take them in any order. A release build does not check the
assertions, and neither does the model.
-/

namespace WslPlus.Plan9.Scheduler

open List

/-- Where a thread is. A task that runs has been called by the first of its callers, and so on;
only the last one was resumed from the queue or started by the thread itself. -/
inductive Mode where
  | outside
  | worker
  | donating (coroutine : Nat) (run : Bool)
  | loop
  | coding (task : Nat) (callers : List Nat)
  | blocking (task : Nat) (callers : List Nat)
  | refused (task : Nat) (callers : List Nat)
  | leaving (task : Nat) (callers : List Nat)
  | returned
deriving DecidableEq

/-- A thread with its two thread-local flags. It has yet to call `Submit` if `kick` is set. -/
structure Thread where
  mode : Mode := .outside
  kick : Bool := false
  blocked : Bool := false
  schedulerThread : Bool := false
deriving DecidableEq

/-- The members of the scheduler, the callbacks in the thread pool, the waiter or the completion
of the tasks, and what has been scheduled and resumed so far. -/
structure Shared where
  queue : List Nat := []
  running : Bool := false
  enqueued : Bool := false
  submitted : Nat := 0
  nextTask : Nat := 0
  waiters : List (Nat × Nat) := []
  done : List Nat := []
  scheduled : List Nat := []
  resumed : List Nat := []

/-- The critical section of `Schedule`. -/
def schedule (coroutine : Nat) (s : Shared) (th : Thread) : Shared × Thread :=
  let kick := !s.running && !s.enqueued
  ({ s with
      queue := s.queue ++ [coroutine]
      enqueued := s.enqueued || kick
      scheduled := s.scheduled ++ [coroutine] },
    { th with kick := kick })

/-- The critical section of `Block`, which only a scheduler thread enters. -/
def block (s : Shared) (th : Thread) : Shared × Thread :=
  let kick := !s.queue.isEmpty && !s.enqueued
  if th.schedulerThread then
    ({ s with running := false, enqueued := s.enqueued || kick }, { th with blocked := true, kick := kick })
  else (s, th)

def claim (fromKick : Bool) (s : Shared) : Bool × Shared :=
  let s := if fromKick then { s with enqueued := false } else s
  if s.running then (false, s) else (true, { s with running := true })

/-- `Resume` of a task that has completed: its waiter is scheduled if it has one. -/
def complete (task : Nat) (s : Shared) (th : Thread) : Shared × Thread :=
  match s.waiters.find? fun w => w.1 = task with
  | some w => schedule w.2 { s with waiters := s.waiters.erase w } th
  | none => ({ s with done := task :: s.done }, th)

inductive Action where
  | enter
  | schedule (coroutine : Nat)
  | donate (coroutine : Nat)
  | call
  | block
  | submit
  | start
  | claim
  | donated
  | next
  | finish
  | suspend
  | unblock
  | throws
  | reschedule
  | check
  | leave
deriving DecidableEq

/-- A thread that is in code which may call `Schedule`. -/
def Mode.mayCall : Mode → Bool
  | .outside => true
  | .coding _ _ => true
  | .blocking _ _ => true
  | _ => false

/-- What a thread does that has no call of `Submit` to make. -/
def perform : Action → Shared → Thread → Shared × Thread
  | .enter, s, th =>
    match th.mode with
    | .outside => ({ s with nextTask := s.nextTask + 1 }, { th with mode := .coding s.nextTask [] })
    | _ => (s, th)
  | .schedule coroutine, s, th => if th.mode.mayCall then schedule coroutine s th else (s, th)
  | .donate coroutine, s, th =>
    match th.mode with
    | .outside =>
      let (run, s') := claim false s
      (s', { th with mode := .donating coroutine run })
    | _ => (s, th)
  | .call, s, th =>
    match th.mode with
    | .coding task callers =>
      ({ s with nextTask := s.nextTask + 1 }, { th with mode := .coding s.nextTask (task :: callers) })
    | _ => (s, th)
  | .block, s, th =>
    match th.mode with
    | .coding task callers =>
      block { s with nextTask := s.nextTask + 1 } { th with mode := .blocking s.nextTask (task :: callers) }
    | _ => (s, th)
  | .submit, s, th => (s, th)
  | .start, s, th =>
    match th.mode with
    | .outside =>
      if 0 < s.submitted then ({ s with submitted := s.submitted - 1 }, { th with mode := .worker })
      else (s, th)
    | _ => (s, th)
  | .claim, s, th =>
    match th.mode with
    | .worker =>
      let (run, s') := claim true s
      (s', if run then { th with mode := .loop, schedulerThread := true } else { th with mode := .outside })
    | _ => (s, th)
  | .donated, s, th =>
    match th.mode with
    | .donating coroutine run =>
      schedule coroutine s
        (if run then { th with mode := .loop, schedulerThread := true } else { th with mode := .outside })
    | _ => (s, th)
  | .next, s, th =>
    match th.mode with
    | .loop =>
      match s.queue with
      | coroutine :: queue =>
        ({ s with queue := queue, resumed := s.resumed ++ [coroutine] }, { th with mode := .coding coroutine [] })
      | [] => ({ s with running := false }, { th with mode := .outside, schedulerThread := false })
    | _ => (s, th)
  | .finish, s, th =>
    match th.mode with
    | .coding task callers => complete task s { th with mode := .leaving task callers }
    | _ => (s, th)
  | .suspend, s, th =>
    match th.mode with
    | .coding task callers => (s, { th with mode := .leaving task callers })
    | _ => (s, th)
  | .unblock, s, th =>
    match th.mode with
    | .blocking task callers =>
      if th.schedulerThread then
        let (run, s') := claim false s
        (s', if run then { th with mode := .coding task callers, blocked := false }
          else { th with mode := .refused task callers })
      else (s, { th with mode := .coding task callers })
    | _ => (s, th)
  -- The exception is kept in the promise of the task, and there is no call of `Unblock`.
  | .throws, s, th =>
    match th.mode with
    | .blocking task callers => complete task s { th with mode := .leaving task callers }
    | _ => (s, th)
  | .reschedule, s, th =>
    match th.mode with
    | .refused task callers => schedule task s { th with mode := .leaving task callers }
    | _ => (s, th)
  -- The caller awaits the task: it goes on if the task has completed, else it waits and is left too.
  | .check, s, th =>
    match th.mode with
    | .leaving task (caller :: callers) =>
      if task ∈ s.done then (s, { th with mode := .coding caller callers })
      else ({ s with waiters := (task, caller) :: s.waiters }, { th with mode := .leaving caller callers })
    | .leaving _ [] => (s, { th with mode := .returned })
    | _ => (s, th)
  | .leave, s, th =>
    match th.mode with
    | .returned =>
      (s, if !th.schedulerThread then { th with mode := .outside }
        else if th.blocked then { th with mode := .outside, blocked := false, schedulerThread := false }
        else { th with mode := .loop })
    | _ => (s, th)

def act (a : Action) (s : Shared) (th : Thread) : Shared × Thread :=
  if th.kick then
    if a = .submit then ({ s with submitted := s.submitted + 1 }, { th with kick := false }) else (s, th)
  else perform a s th

abbrev State := Threaded Shared Thread

abbrev Op := Threaded.Op Unit Action

def initial : State := ⟨{}, []⟩

def step : Op → State → State := Threaded.step (fun _ => {}) act

section Effects

variable {s : Shared} {th : Thread} {a : Action}

/-- What an action does if it does anything. -/
inductive Effect (s : Shared) (th : Thread) : Action → Shared × Thread → Prop where
  | submitted (hkick : th.kick = true) :
      Effect s th .submit ({ s with submitted := s.submitted + 1 }, { th with kick := false })
  | entered (hkick : th.kick = false) (hmode : th.mode = .outside) :
      Effect s th .enter ({ s with nextTask := s.nextTask + 1 }, { th with mode := .coding s.nextTask [] })
  | scheduled (coroutine : Nat) (hkick : th.kick = false) (hmode : th.mode.mayCall = true) :
      Effect s th (.schedule coroutine) (schedule coroutine s th)
  | donated (coroutine : Nat) (hkick : th.kick = false) (hmode : th.mode = .outside) :
      Effect s th (.donate coroutine)
        ({ s with running := true }, { th with mode := .donating coroutine (!s.running) })
  | called (task : Nat) (callers : List Nat) (hkick : th.kick = false) (hmode : th.mode = .coding task callers) :
      Effect s th .call
        ({ s with nextTask := s.nextTask + 1 }, { th with mode := .coding s.nextTask (task :: callers) })
  | blocked (task : Nat) (callers : List Nat) (hkick : th.kick = false) (hmode : th.mode = .coding task callers) :
      Effect s th .block
        (block { s with nextTask := s.nextTask + 1 } { th with mode := .blocking s.nextTask (task :: callers) })
  | started (hkick : th.kick = false) (hmode : th.mode = .outside) (hpos : 0 < s.submitted) :
      Effect s th .start ({ s with submitted := s.submitted - 1 }, { th with mode := .worker })
  | claimed (hkick : th.kick = false) (hmode : th.mode = .worker) :
      Effect s th .claim ({ s with running := true, enqueued := false },
        if s.running then { th with mode := .outside } else { th with mode := .loop, schedulerThread := true })
  | delivered (coroutine : Nat) (run : Bool) (hkick : th.kick = false) (hmode : th.mode = .donating coroutine run) :
      Effect s th .donated (schedule coroutine s
        (if run then { th with mode := .loop, schedulerThread := true } else { th with mode := .outside }))
  | resumed (coroutine : Nat) (queue : List Nat) (hkick : th.kick = false) (hmode : th.mode = .loop)
      (hqueue : s.queue = coroutine :: queue) :
      Effect s th .next ({ s with queue := queue, resumed := s.resumed ++ [coroutine] },
        { th with mode := .coding coroutine [] })
  | emptied (hkick : th.kick = false) (hmode : th.mode = .loop) (hqueue : s.queue = []) :
      Effect s th .next ({ s with running := false }, { th with mode := .outside, schedulerThread := false })
  | finished (task : Nat) (callers : List Nat) (hkick : th.kick = false) (hmode : th.mode = .coding task callers) :
      Effect s th .finish (complete task s { th with mode := .leaving task callers })
  | suspended (task : Nat) (callers : List Nat) (hkick : th.kick = false) (hmode : th.mode = .coding task callers) :
      Effect s th .suspend (s, { th with mode := .leaving task callers })
  | unblocked (task : Nat) (callers : List Nat) (hkick : th.kick = false)
      (hmode : th.mode = .blocking task callers) (hthread : th.schedulerThread = true) :
      Effect s th .unblock ({ s with running := true },
        if s.running then { th with mode := .refused task callers }
        else { th with mode := .coding task callers, blocked := false })
  | unbothered (task : Nat) (callers : List Nat) (hkick : th.kick = false)
      (hmode : th.mode = .blocking task callers) (hthread : th.schedulerThread = false) :
      Effect s th .unblock (s, { th with mode := .coding task callers })
  | threw (task : Nat) (callers : List Nat) (hkick : th.kick = false) (hmode : th.mode = .blocking task callers) :
      Effect s th .throws (complete task s { th with mode := .leaving task callers })
  | rescheduled (task : Nat) (callers : List Nat) (hkick : th.kick = false)
      (hmode : th.mode = .refused task callers) :
      Effect s th .reschedule (schedule task s { th with mode := .leaving task callers })
  | joined (task caller : Nat) (callers : List Nat) (hkick : th.kick = false)
      (hmode : th.mode = .leaving task (caller :: callers)) (hdone : task ∈ s.done) :
      Effect s th .check (s, { th with mode := .coding caller callers })
  | waited (task caller : Nat) (callers : List Nat) (hkick : th.kick = false)
      (hmode : th.mode = .leaving task (caller :: callers)) (hdone : task ∉ s.done) :
      Effect s th .check
        ({ s with waiters := (task, caller) :: s.waiters }, { th with mode := .leaving caller callers })
  | unwound (task : Nat) (hkick : th.kick = false) (hmode : th.mode = .leaving task []) :
      Effect s th .check (s, { th with mode := .returned })
  | left (hkick : th.kick = false) (hmode : th.mode = .returned) :
      Effect s th .leave (s, if !th.schedulerThread then { th with mode := .outside }
        else if th.blocked then { th with mode := .outside, blocked := false, schedulerThread := false }
        else { th with mode := .loop })

theorem claim_eq (fromKick : Bool) (s : Shared) :
    claim fromKick s = (!s.running, { s with running := true, enqueued := s.enqueued && !fromKick }) := by
  rcases s with ⟨queue, running, enqueued⟩
  cases fromKick <;> cases running <;> simp [claim]

theorem act_effect (a : Action) (s : Shared) (th : Thread) :
    act a s th = (s, th) ∨ Effect s th a (act a s th) := by
  by_cases hkick : th.kick = true
  · rw [act, if_pos hkick]
    split
    · rename_i ha
      exact .inr (ha ▸ .submitted hkick)
    · exact .inl rfl
  · rw [act, if_neg hkick]
    have hkick : th.kick = false := by simpa using hkick
    cases a with
    | submit => exact .inl rfl
    | schedule coroutine =>
      simp only [perform]
      split
      · rename_i hmode
        exact .inr (.scheduled coroutine hkick hmode)
      · exact .inl rfl
    | enter =>
      cases hmode : th.mode with
      | outside => exact .inr (by simpa only [perform, hmode] using .entered hkick hmode)
      | _ => exact .inl (by simp only [perform, hmode])
    | donate coroutine =>
      cases hmode : th.mode with
      | outside =>
        refine .inr ?_
        simpa [perform, hmode, claim_eq] using Effect.donated (s := s) coroutine hkick hmode
      | _ => exact .inl (by simp only [perform, hmode])
    | call =>
      cases hmode : th.mode with
      | coding task callers => exact .inr (by simpa only [perform, hmode] using .called task callers hkick hmode)
      | _ => exact .inl (by simp only [perform, hmode])
    | block =>
      cases hmode : th.mode with
      | coding task callers => exact .inr (by simpa only [perform, hmode] using .blocked task callers hkick hmode)
      | _ => exact .inl (by simp only [perform, hmode])
    | start =>
      cases hmode : th.mode with
      | outside =>
        simp only [perform, hmode]
        split
        · rename_i hpos
          exact .inr (.started hkick hmode hpos)
        · exact .inl rfl
      | _ => exact .inl (by simp only [perform, hmode])
    | claim =>
      cases hmode : th.mode with
      | worker =>
        refine .inr ?_
        cases hrun : s.running <;>
          simpa [perform, hmode, claim_eq, hrun] using Effect.claimed (s := s) hkick hmode
      | _ => exact .inl (by simp only [perform, hmode])
    | donated =>
      cases hmode : th.mode with
      | donating coroutine run =>
        exact .inr (by simpa only [perform, hmode] using .delivered coroutine run hkick hmode)
      | _ => exact .inl (by simp only [perform, hmode])
    | next =>
      cases hmode : th.mode with
      | loop =>
        simp only [perform, hmode]
        split
        · rename_i coroutine queue hqueue
          exact .inr (.resumed coroutine queue hkick hmode hqueue)
        · rename_i hqueue
          exact .inr (.emptied hkick hmode hqueue)
      | _ => exact .inl (by simp only [perform, hmode])
    | finish =>
      cases hmode : th.mode with
      | coding task callers => exact .inr (by simpa only [perform, hmode] using .finished task callers hkick hmode)
      | _ => exact .inl (by simp only [perform, hmode])
    | suspend =>
      cases hmode : th.mode with
      | coding task callers => exact .inr (by simpa only [perform, hmode] using .suspended task callers hkick hmode)
      | _ => exact .inl (by simp only [perform, hmode])
    | unblock =>
      cases hmode : th.mode with
      | blocking task callers =>
        refine .inr ?_
        cases hthr : th.schedulerThread with
        | false =>
          simpa [perform, hmode, hthr] using Effect.unbothered (s := s) task callers hkick hmode hthr
        | true =>
          cases hrun : s.running <;>
            simpa [perform, hmode, hthr, claim_eq, hrun] using
              Effect.unblocked (s := s) task callers hkick hmode hthr
      | _ => exact .inl (by simp only [perform, hmode])
    | throws =>
      cases hmode : th.mode with
      | blocking task callers => exact .inr (by simpa only [perform, hmode] using .threw task callers hkick hmode)
      | _ => exact .inl (by simp only [perform, hmode])
    | reschedule =>
      cases hmode : th.mode with
      | refused task callers =>
        exact .inr (by simpa only [perform, hmode] using .rescheduled task callers hkick hmode)
      | _ => exact .inl (by simp only [perform, hmode])
    | check =>
      cases hmode : th.mode with
      | leaving task callers =>
        refine .inr ?_
        cases callers with
        | nil => simpa only [perform, hmode] using .unwound task hkick hmode
        | cons caller callers =>
          by_cases hdone : task ∈ s.done
          · simpa only [perform, hmode, if_pos hdone] using .joined task caller callers hkick hmode hdone
          · simpa only [perform, hmode, if_neg hdone] using .waited task caller callers hkick hmode hdone
      | _ => exact .inl (by simp only [perform, hmode])
    | leave =>
      cases hmode : th.mode with
      | returned => exact .inr (by simpa only [perform, hmode] using .left hkick hmode)
      | _ => exact .inl (by simp only [perform, hmode])

end Effects

section Sound

variable {s : Shared} {th : Thread} {a : Action} {r : Shared × Thread}

def Thread.Clean (th : Thread) : Prop :=
  match th.mode with
  | .outside => th.blocked = false ∧ th.schedulerThread = false
  | .worker => th.kick = false ∧ th.blocked = false ∧ th.schedulerThread = false
  | .donating _ _ => th.kick = false ∧ th.blocked = false ∧ th.schedulerThread = false
  | .loop => th.blocked = false ∧ th.schedulerThread = true
  | .blocking _ _ => th.blocked = th.schedulerThread
  | .refused _ _ => th.blocked = true ∧ th.schedulerThread = true
  | .coding _ _ => th.schedulerThread = false → th.blocked = false
  | .leaving _ _ => th.schedulerThread = false → th.blocked = false
  | .returned => th.schedulerThread = false → th.blocked = false

/-- A call of `Submit` to come, or a callback to come. -/
def Thread.tokens (th : Thread) : Nat := th.kick.toNat + (decide (th.mode = .worker)).toNat

def Thread.active (th : Thread) : Bool :=
  match th.mode with
  | .donating _ run => run
  | .loop => true
  | .coding _ _ => th.schedulerThread && !th.blocked
  | .leaving _ _ => th.schedulerThread && !th.blocked
  | .returned => th.schedulerThread && !th.blocked
  | _ => false

theorem complete_cases (task : Nat) (s : Shared) (th : Thread) :
    (∃ w ∈ s.waiters, complete task s th = schedule w.2 { s with waiters := s.waiters.erase w } th) ∨
      complete task s th = ({ s with done := task :: s.done }, th) := by
  rw [complete]
  split
  · rename_i w hfind
    exact .inl ⟨w, mem_of_find?_eq_some hfind, rfl⟩
  · exact .inr rfl

theorem complete_snd (task : Nat) (s : Shared) (th : Thread) :
    ∃ kick, (complete task s th).2 = { th with kick := kick } := by
  rcases complete_cases task s th with ⟨w, -, heq⟩ | heq
  · rw [heq]
    exact ⟨_, rfl⟩
  · rw [heq]
    exact ⟨th.kick, rfl⟩

theorem complete_running (task : Nat) (s : Shared) (th : Thread) :
    (complete task s th).1.running = s.running := by
  rcases complete_cases task s th with ⟨w, -, heq⟩ | heq
  · rw [heq]
    rfl
  · rw [heq]

theorem Effect.clean (he : Effect s th a r) (h : th.Clean) : r.2.Clean := by
  cases he with
  | submitted hkick => cases hmode : th.mode <;> simp_all [Thread.Clean]
  | finished task callers hkick hmode =>
    obtain ⟨kick, heq⟩ := complete_snd task s { th with mode := .leaving task callers }
    rw [heq]
    simpa [Thread.Clean, hmode] using h
  | threw task callers hkick hmode =>
    obtain ⟨kick, heq⟩ := complete_snd task s { th with mode := .leaving task callers }
    rw [heq]
    simp only [Thread.Clean, hmode] at h ⊢
    exact fun hthr => h.trans hthr
  | scheduled coroutine hkick hmode =>
    cases hth : th.mode <;> simp_all [Thread.Clean, schedule, Mode.mayCall]
  | blocked task callers hkick hmode =>
    cases hthr : th.schedulerThread <;> simp_all [Thread.Clean, block]
  | claimed hkick hmode =>
    cases hrun : s.running <;> simp_all [Thread.Clean]
  | delivered coroutine run hkick hmode =>
    cases run <;> simp_all [Thread.Clean, schedule]
  | unblocked task callers hkick hmode hthr =>
    cases hrun : s.running <;> simp_all [Thread.Clean]
  | left hkick hmode =>
    cases hthr : th.schedulerThread <;> cases hblocked : th.blocked <;> simp_all [Thread.Clean]
  | _ => simp_all [Thread.Clean, schedule]

/-- An action keeps the number of tokens, the cover of the queue and its history. -/
structure Sustains (s : Shared) (th : Thread) (r : Shared × Thread) : Prop where
  tokens : r.1.submitted + r.2.tokens + s.enqueued.toNat = s.submitted + th.tokens + r.1.enqueued.toNat
  covered : (s.queue ≠ [] → s.running = true ∨ s.enqueued = true) →
    r.1.queue ≠ [] → r.1.running = true ∨ r.1.enqueued = true
  history : s.scheduled = s.resumed ++ s.queue → r.1.scheduled = r.1.resumed ++ r.1.queue

theorem schedule_sustains (coroutine : Nat) (s : Shared) {th th' : Thread} (hkick : th'.kick = false)
    (htokens : th'.tokens = th.tokens) : Sustains s th (schedule coroutine s th') where
  tokens := by
    rw [← htokens]
    cases hrun : s.running <;> cases henq : s.enqueued <;>
      simp [schedule, Thread.tokens, hkick, hrun, henq]
    omega
  covered := by
    intro _ _
    cases hrun : s.running <;> cases henq : s.enqueued <;> simp [schedule, hrun, henq]
  history := by
    intro h
    simp only [schedule, h, append_assoc]

theorem complete_sustains (task : Nat) (s : Shared) {th th' : Thread} (hkick : th'.kick = false)
    (htokens : th'.tokens = th.tokens) : Sustains s th (complete task s th') := by
  rcases complete_cases task s th' with ⟨w, -, heq⟩ | heq
  · rw [heq]
    obtain ⟨h₁, h₂, h₃⟩ := schedule_sustains w.2 { s with waiters := s.waiters.erase w } hkick htokens
    exact ⟨h₁, h₂, h₃⟩
  · rw [heq]
    exact ⟨by rw [htokens], id, id⟩

theorem Effect.sustains (he : Effect s th a r) (hle : th.tokens ≤ s.enqueued.toNat) : Sustains s th r := by
  have hlocal {r : Shared × Thread} (hshared : r.1.queue = s.queue ∧ r.1.running = s.running ∧
      r.1.enqueued = s.enqueued ∧ r.1.scheduled = s.scheduled ∧ r.1.resumed = s.resumed)
      (htokens : r.1.submitted + r.2.tokens = s.submitted + th.tokens) : Sustains s th r := by
    obtain ⟨hqueue, hrun, henq, hsched, hresumed⟩ := hshared
    refine ⟨by rw [htokens, henq], ?_, ?_⟩
    · rw [hqueue, hrun, henq]
      exact id
    · rw [hqueue, hsched, hresumed]
      exact id
  cases he with
  | scheduled coroutine hkick hmode => exact schedule_sustains coroutine s hkick rfl
  | delivered coroutine run hkick hmode =>
    cases run <;> exact schedule_sustains coroutine s hkick (by simp [Thread.tokens, hmode])
  | rescheduled task callers hkick hmode =>
    exact schedule_sustains task s hkick (by simp [Thread.tokens, hmode])
  | finished task callers hkick hmode =>
    exact complete_sustains task s hkick (by simp [Thread.tokens, hmode])
  | threw task callers hkick hmode =>
    exact complete_sustains task s hkick (by simp [Thread.tokens, hmode])
  | blocked task callers hkick hmode =>
    cases hthr : th.schedulerThread with
    | false => exact hlocal (by simp [block]) (by simp [block, Thread.tokens, hmode])
    | true =>
      refine ⟨?_, ?_, ?_⟩
      · cases hempty : s.queue.isEmpty <;> cases henq : s.enqueued <;>
          simp [block, Thread.tokens, hmode, hkick, hempty]
      · intro _ hqueue
        cases henq : s.enqueued <;> simp_all [block]
      · intro hhistory
        simp only [block, if_true]
        exact hhistory
  | donated coroutine hkick hmode =>
    refine ⟨?_, fun _ _ => .inl rfl, id⟩
    simp [Thread.tokens, hkick, hmode]
  | claimed hkick hmode =>
    refine ⟨?_, fun _ _ => .inl rfl, id⟩
    have henq : s.enqueued.toNat = 1 := by
      have := s.enqueued.toNat_le
      simp [Thread.tokens, hmode] at hle
      omega
    cases hrun : s.running <;> simp [Thread.tokens, hkick, hmode, henq]
  | unblocked task callers hkick hmode hthr =>
    refine ⟨?_, fun _ _ => .inl rfl, id⟩
    cases hrun : s.running <;> simp [Thread.tokens, hkick, hmode]
  | resumed coroutine queue hkick hmode hqueue =>
    refine ⟨?_, ?_, ?_⟩
    · simp [Thread.tokens, hkick, hmode]
    · intro hcov _
      exact hcov (by simp [hqueue])
    · intro hhistory
      simp [hhistory, hqueue]
  | emptied hkick hmode hqueue =>
    refine ⟨?_, fun _ hne => absurd hqueue hne, id⟩
    simp [Thread.tokens, hkick, hmode]
  | started hkick hmode hpos =>
    refine hlocal (by simp) ?_
    simp [Thread.tokens, hkick, hmode]
    omega
  | left hkick hmode =>
    refine hlocal (by simp) ?_
    cases hthr : th.schedulerThread <;> cases hblocked : th.blocked <;> simp [Thread.tokens, hmode]
  | _ => exact hlocal (by simp) (by simp_all [Thread.tokens]; try omega)

theorem Effect.owner (he : Effect s th a r) (h : th.Clean) (hrunning : r.1.running = true) :
    r.2.active = true ∨ (s.running = true ∧ th.active = false) := by
  cases he with
  | finished task callers hkick hmode =>
    rw [complete_running] at hrunning
    obtain ⟨kick, heq⟩ := complete_snd task s { th with mode := .leaving task callers }
    rw [heq]
    cases hactive : th.active <;> simp_all [Thread.active]
  | threw task callers hkick hmode =>
    rw [complete_running] at hrunning
    exact .inr ⟨hrunning, by simp [Thread.active, hmode]⟩
  | scheduled coroutine hkick hmode =>
    cases hactive : th.active <;> simp_all [Thread.active, schedule]
  | blocked task callers hkick hmode =>
    cases hthr : th.schedulerThread <;> simp_all [Thread.active, block]
  | delivered coroutine run hkick hmode =>
    cases run <;> simp_all [Thread.active, schedule]
  | claimed hkick hmode =>
    cases hrun : s.running <;> simp_all [Thread.active]
  | donated coroutine hkick hmode =>
    cases hrun : s.running <;> simp_all [Thread.active]
  | unblocked task callers hkick hmode hthr =>
    cases hrun : s.running <;> simp_all [Thread.active]
  | left hkick hmode =>
    cases hthr : th.schedulerThread <;> cases hblocked : th.blocked <;> simp_all [Thread.active]
  | rescheduled task callers hkick hmode => simp_all [Thread.active, schedule]
  | resumed coroutine queue hkick hmode hqueue => simp_all [Thread.active, Thread.Clean]
  | _ => cases hactive : th.active <;> simp_all [Thread.active]

/-- A nonempty queue is claimed or has a submission to come, of which there is at most one, and
whoever has claimed the queue is still at it. -/
structure Sound (s : State) : Prop where
  clean : ∀ th ∈ s.threads, th.Clean
  tokens : s.shared.submitted + Threaded.weight Thread.tokens s.threads = s.shared.enqueued.toNat
  covered : s.shared.queue ≠ [] → s.shared.running = true ∨ s.shared.enqueued = true
  history : s.shared.scheduled = s.shared.resumed ++ s.shared.queue
  owner : s.shared.running = true → ∃ th ∈ s.threads, th.active = true
  peopled : s.threads = [] → s.shared.queue = []

theorem Sound.initial : Sound initial where
  clean := by intro th hth; cases hth
  tokens := rfl
  covered := fun hne => absurd rfl hne
  history := rfl
  owner := by intro h; cases h
  peopled := fun _ => rfl

variable {state : State}

theorem Sound.spawn (h : Sound state) : Sound { state with threads := state.threads ++ [{}] } where
  clean := by
    intro th hth
    rcases mem_append.mp hth with hth | hth
    · exact h.clean th hth
    · rw [mem_singleton.mp hth]
      exact ⟨rfl, rfl⟩
  tokens := by
    rw [Threaded.weight_append]
    exact h.tokens
  covered := h.covered
  history := h.history
  owner := by
    intro hrun
    obtain ⟨th, hth, hactive⟩ := h.owner hrun
    exact ⟨th, mem_append_left _ hth, hactive⟩
  peopled := by
    intro hempty
    simp at hempty

theorem Sound.effect (h : Sound state) {t : Nat} (ht : state.threads[t]? = some th)
    (he : Effect state.shared th a r) : Sound ⟨r.1, state.threads.set t r.2⟩ := by
  have hmem : th ∈ state.threads := mem_of_getElem? ht
  have hclean := h.clean th hmem
  have htokens := h.tokens
  have hle : th.tokens ≤ state.shared.enqueued.toNat := by
    have := Threaded.le_weight Thread.tokens hmem
    omega
  have hsustains := he.sustains hle
  have hlt : t < state.threads.length := (List.getElem?_eq_some_iff.mp ht).1
  refine ⟨Threaded.forall_mem_set h.clean (he.clean hclean), ?_, hsustains.covered h.covered,
    hsustains.history h.history, ?_, ?_⟩
  · have hweight := Threaded.weight_set Thread.tokens ht r.2
    have := hsustains.tokens
    simp only at *
    omega
  · intro hrun
    rcases he.owner hclean hrun with hactive | ⟨hbefore, hidle⟩
    · exact ⟨r.2, mem_set hlt r.2, hactive⟩
    · obtain ⟨u, hu, hactive⟩ := h.owner hbefore
      refine ⟨u, Threaded.mem_set_of_ne ht hu ?_, hactive⟩
      rintro rfl
      rw [hidle] at hactive
      cases hactive
  · intro hempty
    rw [set_eq_nil_iff] at hempty
    rw [hempty] at hmem
    cases hmem

theorem Sound.kept (h : Sound state) (op : Op) : Sound (step op state) := by
  refine Threaded.step_cases h (fun _ _ => h.spawn) ?_
  intro t a th _ ht
  rcases act_effect a state.shared th with heq | he
  · rw [heq, Threaded.set_self ht]
    exact h
  · exact h.effect ht he

end Sound

end WslPlus.Plan9.Scheduler

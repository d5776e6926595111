import WslPlus.Plan9.Scheduler

/-!
# One thread at a time runs coroutine code

A thread that has claimed the queue is the only one. A thread that runs blocking code has given
the queue up, and is marked as blocked until it has claimed the queue again or has left the
coroutine. If its caller is resumed before that, then there may be two threads in coroutine code.
-/

namespace WslPlus.Plan9.Scheduler

def Thread.codes (th : Thread) : Bool :=
  match th.mode with
  | .coding _ _ => true
  | _ => false

/-- At most one scheduler thread runs coroutine code, and none does that is marked as blocked. -/
structure Exclusive (s : State) : Prop where
  unique : ∀ (t u : Nat) (th uh : Thread), s.threads[t]? = some th → s.threads[u]? = some uh → th.schedulerThread = true →
    uh.schedulerThread = true → th.codes = true → uh.codes = true → t = u
  unblocked : ∀ th ∈ s.threads, th.blocked = true → th.codes = false

def Thread.overtaken (s : Shared) (th : Thread) : Bool :=
  match th.mode with
  | .leaving task (_ :: _) => !th.kick && th.blocked && s.done.contains task
  | _ => false

def CallerWaits : Op → State → Prop
  | .thread t .check, s => ∀ th, s.threads[t]? = some th → th.overtaken s.shared = false
  | _, _ => True

section Owner

variable {s : Shared} {th : Thread} {a : Action} {r : Shared × Thread}

theorem Effect.active (he : Effect s th a r) (h : th.Clean) (hcodes : th.codes = true → th.blocked = false)
    (hle : th.active.toNat ≤ s.running.toNat) :
    r.2.active.toNat + s.running.toNat = th.active.toNat + r.1.running.toNat := by
  have hlocal {r : Shared × Thread} (hrun : r.1.running = s.running) (hactive : r.2.active = th.active) :
      r.2.active.toNat + s.running.toNat = th.active.toNat + r.1.running.toNat := by
    rw [hrun, hactive]
  have hclaimed (hactive : th.active = true) : s.running = true := by
    cases hrun : s.running with
    | true => rfl
    | false => simp [hactive, hrun] at hle
  cases he with
  | finished task callers hkick hmode =>
    obtain ⟨kick, heq⟩ := complete_snd task s { th with mode := .leaving task callers }
    refine hlocal (complete_running _ _ _) ?_
    rw [heq]
    simp [Thread.active, hmode]
  | threw task callers hkick hmode =>
    obtain ⟨kick, heq⟩ := complete_snd task s { th with mode := .leaving task callers }
    refine hlocal (complete_running _ _ _) ?_
    rw [heq]
    simp_all [Thread.active, Thread.Clean]
  | blocked task callers hkick hmode =>
    have hblocked := hcodes (by simp [Thread.codes, hmode])
    cases hthr : th.schedulerThread with
    | false => exact hlocal (by simp [block]) (by simp [Thread.active, hmode, block, hthr])
    | true =>
      have hactive : th.active = true := by simp [Thread.active, hmode, hthr, hblocked]
      rw [hactive, hclaimed hactive]
      simp [Thread.active, block]
  | claimed hkick hmode => cases hrun : s.running <;> simp [Thread.active, hmode]
  | donated coroutine hkick hmode => cases hrun : s.running <;> simp [Thread.active, hmode]
  | delivered coroutine run hkick hmode =>
    refine hlocal rfl ?_
    cases run <;> simp [Thread.active, hmode, schedule]
  | resumed coroutine queue hkick hmode hqueue =>
    refine hlocal rfl ?_
    simp_all [Thread.active, Thread.Clean]
  | emptied hkick hmode hqueue =>
    have hactive : th.active = true := by simp [Thread.active, hmode]
    rw [hactive, hclaimed hactive]
    simp [Thread.active]
  | unblocked task callers hkick hmode hthr =>
    cases hrun : s.running <;> simp [Thread.active, hmode, hthr]
  | left hkick hmode =>
    refine hlocal rfl ?_
    cases hthr : th.schedulerThread <;> cases hblocked : th.blocked <;>
      simp [Thread.active, hmode, hthr, hblocked]
  | _ => exact hlocal rfl (by simp_all [Thread.active, Thread.Clean, schedule])

theorem Effect.codes (he : Effect s th a r) (h : th.Clean) (hcodes : th.codes = true → th.blocked = false)
    (hcheck : a = .check → th.overtaken s = false) : r.2.codes = true → r.2.blocked = false := by
  cases he with
  | finished task callers hkick hmode =>
    obtain ⟨kick, heq⟩ := complete_snd task s { th with mode := .leaving task callers }
    rw [heq]
    simp [Thread.codes]
  | threw task callers hkick hmode =>
    obtain ⟨kick, heq⟩ := complete_snd task s { th with mode := .leaving task callers }
    rw [heq]
    simp [Thread.codes]
  | joined task caller callers hkick hmode hdone =>
    intro _
    have hnot := hcheck rfl
    simpa [Thread.overtaken, hmode, hkick, hdone] using hnot
  | blocked task callers hkick hmode => cases hthr : th.schedulerThread <;> simp [Thread.codes, block]
  | claimed hkick hmode => cases hrun : s.running <;> simp [Thread.codes]
  | unblocked task callers hkick hmode hthr => cases hrun : s.running <;> simp [Thread.codes]
  | delivered coroutine run hkick hmode => cases run <;> simp [Thread.codes, schedule]
  | left hkick hmode =>
    cases hthr : th.schedulerThread <;> cases hblocked : th.blocked <;> simp [Thread.codes]
  | _ => simp_all [Thread.codes, Thread.Clean, schedule]

/-- The thread that has claimed the queue is the only one, and no thread runs coroutine code while
it is marked as blocked. -/
structure Owned (s : State) : Prop extends Sound s where
  active : Threaded.weight (fun th => th.active.toNat) s.threads = s.shared.running.toNat
  codes : ∀ th ∈ s.threads, th.codes = true → th.blocked = false

variable {state : State}

theorem Owned.initial : Owned initial where
  toSound := Sound.initial
  active := rfl
  codes := by intro th hth; cases hth

theorem Owned.kept (h : Owned state) {op : Op} (hop : CallerWaits op state) : Owned (step op state) := by
  refine Threaded.step_cases (P := Owned) h ?_ ?_
  · intro _ _
    refine ⟨h.toSound.spawn, ?_, ?_⟩
    · rw [Threaded.weight_append]
      exact h.active
    · intro th hth
      rcases List.mem_append.mp hth with hth | hth
      · exact h.codes th hth
      · rw [List.mem_singleton.mp hth]
        exact fun _ => rfl
  · intro t a th hopa ht
    rcases act_effect a state.shared th with heq | he
    · rw [heq, Threaded.set_self ht]
      exact h
    · have hmem : th ∈ state.threads := List.mem_of_getElem? ht
      have hclean := h.clean th hmem
      have hcodes := h.codes th hmem
      have hcheck : a = .check → th.overtaken state.shared = false := by
        rintro rfl
        rw [hopa] at hop
        exact hop th ht
      refine ⟨h.toSound.effect ht he, ?_, Threaded.forall_mem_set h.codes (he.codes hclean hcodes hcheck)⟩
      have hactive := h.active
      have hweight := Threaded.weight_set (fun th => th.active.toNat) ht (act a state.shared th).2
      have hle := Threaded.le_weight (fun th : Thread => th.active.toNat) hmem
      have := he.active hclean hcodes (by omega)
      simp only at *
      omega

theorem Owned.exclusive (h : Owned state) : Exclusive state where
  unique := by
    intro t u th uh ht hu hthr huthread hcodes hucodes
    have hactive {th : Thread} {t : Nat} (ht : state.threads[t]? = some th) (hthr : th.schedulerThread = true)
        (hcodes : th.codes = true) : th.active = true := by
      have hblocked := h.codes th (List.mem_of_getElem? ht) hcodes
      rw [Thread.codes] at hcodes
      split at hcodes
      · rename_i hmode
        simp [Thread.active, hmode, hthr, hblocked]
      · cases hcodes
    by_cases hne : t = u
    · exact hne
    · have hle := Threaded.add_le_weight (fun th : Thread => th.active.toNat) ht hu hne
      rw [h.active, hactive ht hthr hcodes, hactive hu huthread hucodes, Bool.toNat_true] at hle
      have := state.shared.running.toNat_le
      omega
  unblocked := by
    intro th hth hblocked
    cases hcodes : th.codes with
    | false => rfl
    | true =>
      rw [h.codes th hth hcodes] at hblocked
      cases hblocked

theorem callerWaits_of_exclusive {op : Op} (h : Exclusive (step op state)) : CallerWaits op state := by
  cases op with
  | spawn k => trivial
  | thread t a =>
    cases a with
    | check =>
      intro th ht
      cases hovertaken : th.overtaken state.shared with
      | false => rfl
      | true =>
        rw [Thread.overtaken] at hovertaken
        split at hovertaken
        · rename_i task caller callers hmode
          simp only [Bool.and_eq_true, Bool.not_eq_true', List.contains_eq_mem, decide_eq_true_eq] at hovertaken
          obtain ⟨⟨hkick, hblocked⟩, hdone⟩ := hovertaken
          have hact : act .check state.shared th = (state.shared, { th with mode := .coding caller callers }) := by
            simp [act, perform, hkick, hmode, hdone]
          have hlt : t < state.threads.length := (List.getElem?_eq_some_iff.mp ht).1
          have hcodes := h.unblocked { th with mode := .coding caller callers } (by
            rw [step, Threaded.step_thread ht, hact]
            exact List.mem_set hlt _) hblocked
          cases hcodes
        · cases hovertaken
    | _ => trivial

end Owner

/-- At most one thread runs coroutine code, and none that is marked as blocked, after every step of
a run if and only if no caller finds its task completed on a thread that is marked as blocked. -/
theorem scheduler_exclusive_iff (ops : List Op) :
    Along step (fun _ _ s => Exclusive s) ops initial ↔ Allowed step CallerWaits ops initial := by
  constructor
  · exact allowed_of_along fun op s h => callerWaits_of_exclusive h
  · exact along_of_step (fun op s hs hop => hs.kept hop) (fun op s hs hop => (hs.kept hop).exclusive) Owned.initial

def throwingRun : List Op :=
  [.spawn (), .spawn (), .spawn (), .thread 0 (.schedule 100), .thread 0 .submit, .thread 1 .start, .thread 1 .claim,
    .thread 1 .next, .thread 1 .block, .thread 0 (.schedule 101), .thread 0 .submit, .thread 2 .start, .thread 2 .claim,
    .thread 2 .next, .thread 1 .throws, .thread 1 .check]

theorem throwingRun_not_exclusive : ¬Exclusive (runSteps step throwingRun initial) := by
  intro h
  have hfirst : (runSteps step throwingRun initial).threads[1]? = some ⟨.coding 100 [], false, true, true⟩ := by decide
  have hsecond : (runSteps step throwingRun initial).threads[2]? = some ⟨.coding 101 [], false, false, true⟩ := by
    decide
  have heq : 1 = 2 := h.unique 1 2 _ _ hfirst hsecond rfl rfl rfl rfl
  cases heq

end WslPlus.Plan9.Scheduler

import WslPlus.Plan9.Scheduler

/-!
# Every scheduled coroutine is resumed

A queue that is not empty is claimed by a thread or has a callback to come. When nothing more is
scheduled from outside or called by the coroutines, the threads come to rest, and only with an
empty queue.
-/

namespace WslPlus.Plan9.Scheduler

open List

def Action.Brings : Action → Prop
  | .enter => True
  | .schedule _ => True
  | .donate _ => True
  | .call => True
  | .block => True
  | _ => False

def Own : Op → Prop
  | .spawn _ => False
  | .thread _ a => ¬a.Brings

/-- What a thread may still do; it can schedule a coroutine at most once on the way. -/
def Mode.cost : Mode → Nat
  | .outside => 0
  | .worker => 2
  | .donating _ _ => 10
  | .loop => 1
  | .coding _ callers => 4 + 9 * callers.length
  | .blocking _ callers => 13 + 9 * callers.length
  | .refused _ callers => 12 + 9 * callers.length
  | .leaving _ callers => 3 + 9 * callers.length
  | .returned => 2

def Thread.cost (th : Thread) : Nat := 4 * th.kick.toNat + th.mode.cost

def Shared.cost (s : Shared) : Nat := 4 * s.queue.length + 3 * s.submitted + 8 * s.waiters.length

def cost (s : State) : Nat := s.shared.cost + Threaded.weight Thread.cost s.threads

section Measure

variable {s : Shared} {th : Thread} {a : Action} {r : Shared × Thread}

theorem schedule_cost (coroutine : Nat) (s : Shared) {th : Thread} (hkick : th.kick = false) :
    (schedule coroutine s th).1.cost + (schedule coroutine s th).2.cost ≤ s.cost + 8 + th.cost := by
  have hle := (!s.running && !s.enqueued).toNat_le
  simp only [schedule, Shared.cost, Thread.cost, hkick, length_append, length_singleton, Bool.toNat_false]
  omega

theorem complete_cost (task : Nat) (s : Shared) {th : Thread} (hkick : th.kick = false) :
    (complete task s th).1.cost + (complete task s th).2.cost ≤ s.cost + th.cost := by
  rcases complete_cases task s th with ⟨w, hw, heq⟩ | heq
  · rw [heq]
    have hle := schedule_cost w.2 { s with waiters := s.waiters.erase w } hkick
    have hlen := length_erase_of_mem hw
    have hpos := length_pos_of_mem hw
    simp only [Shared.cost] at hle ⊢
    omega
  · rw [heq]
    exact Nat.le_refl _

theorem Effect.lower (he : Effect s th a r) (ha : ¬a.Brings) : r.1.cost + r.2.cost < s.cost + th.cost := by
  cases he with
  | entered => exact absurd trivial ha
  | scheduled => exact absurd trivial ha
  | donated => exact absurd trivial ha
  | called => exact absurd trivial ha
  | blocked => exact absurd trivial ha
  | submitted hkick =>
    simp only [Shared.cost, Thread.cost, hkick, Bool.toNat_true, Bool.toNat_false]
    omega
  | started hkick hmode hpos =>
    simp only [Shared.cost, Thread.cost, hmode, Mode.cost]
    omega
  | claimed hkick hmode =>
    cases hrun : s.running <;> simp [Shared.cost, Thread.cost, hmode, Mode.cost]
  | delivered coroutine run hkick hmode =>
    refine Nat.lt_of_le_of_lt (schedule_cost coroutine s ?_) ?_
    · cases run with
      | false => exact hkick
      | true => exact hkick
    · cases run with
      | false =>
        simp only [Thread.cost, hmode, Mode.cost, Bool.false_eq_true, if_false]
        omega
      | true =>
        simp only [Thread.cost, hmode, Mode.cost, if_true]
        omega
  | resumed coroutine queue hkick hmode hqueue =>
    simp only [Shared.cost, Thread.cost, hmode, hqueue, Mode.cost, length_cons, length_nil]
    omega
  | emptied hkick hmode hqueue =>
    simp only [Shared.cost, Thread.cost, hmode, Mode.cost]
    omega
  | finished task callers hkick hmode =>
    refine Nat.lt_of_le_of_lt (complete_cost task s hkick) ?_
    simp only [Thread.cost, hmode, Mode.cost]
    omega
  | suspended task callers hkick hmode =>
    simp only [Thread.cost, hmode, Mode.cost]
    omega
  | unblocked task callers hkick hmode hthr =>
    cases hrun : s.running <;> simp [Shared.cost, Thread.cost, hmode, Mode.cost]
  | unbothered task callers hkick hmode hthr =>
    simp only [Thread.cost, hmode, Mode.cost]
    omega
  | threw task callers hkick hmode =>
    refine Nat.lt_of_le_of_lt (complete_cost task s hkick) ?_
    simp only [Thread.cost, hmode, Mode.cost]
    omega
  | rescheduled task callers hkick hmode =>
    refine Nat.lt_of_le_of_lt (schedule_cost task s hkick) ?_
    simp only [Thread.cost, hmode, Mode.cost]
    omega
  | joined task caller callers hkick hmode hdone =>
    simp only [Thread.cost, hmode, Mode.cost, length_cons]
    omega
  | waited task caller callers hkick hmode hdone =>
    simp only [Shared.cost, Thread.cost, hmode, Mode.cost, length_cons]
    omega
  | unwound task hkick hmode =>
    simp only [Thread.cost, hmode, Mode.cost, length_nil]
    omega
  | left hkick hmode =>
    cases hthr : th.schedulerThread <;> cases hblocked : th.blocked <;> simp [Thread.cost, hmode, Mode.cost]

end Measure

section Progress

variable {s : State} {t : Nat} {th : Thread} {a : Action}

theorem cost_effect (ht : s.threads[t]? = some th) (he : Effect s.shared th a (act a s.shared th))
    (ha : ¬a.Brings) : cost (step (.thread t a) s) < cost s := by
  have hlower := he.lower ha
  have hweight := Threaded.weight_set Thread.cost ht (act a s.shared th).2
  rw [step, Threaded.step_thread ht]
  simp only [cost]
  omega

theorem step_ne (ht : s.threads[t]? = some th) (he : Effect s.shared th a (act a s.shared th))
    (ha : ¬a.Brings) : ∃ op, Own op ∧ step op s ≠ s := by
  refine ⟨.thread t a, ha, ?_⟩
  intro heq
  have hlt := cost_effect ht he ha
  rw [heq] at hlt
  exact Nat.lt_irrefl _ hlt

theorem busy_acts (s : Shared) {th : Thread} (hbusy : th.kick = true ∨ th.mode ≠ .outside) :
    ∃ a : Action, ¬a.Brings ∧ Effect s th a (act a s th) := by
  have hmoves (a : Action) (ha : ¬a.Brings) (hne : (act a s th).2 ≠ th) :
      ∃ a : Action, ¬a.Brings ∧ Effect s th a (act a s th) := by
    refine ⟨a, ha, (act_effect a s th).resolve_left ?_⟩
    intro heq
    rw [heq] at hne
    exact hne rfl
  by_cases hkick : th.kick = true
  · refine hmoves .submit id ?_
    intro heq
    have := congrArg Thread.kick heq
    simp [act, hkick] at this
  · have hne := hbusy.resolve_left hkick
    have hact (a : Action) : act a s th = perform a s th := by rw [act, if_neg hkick]
    have hmode (a : Action) (ha : ¬a.Brings) (hne : (perform a s th).2.mode ≠ th.mode) :
        ∃ a : Action, ¬a.Brings ∧ Effect s th a (act a s th) := by
      refine hmoves a ha ?_
      rw [hact]
      intro heq
      exact hne (congrArg Thread.mode heq)
    cases hth : th.mode with
    | outside => exact absurd hth hne
    | worker =>
      refine hmode .claim id ?_
      cases hrun : s.running <;> simp [perform, hth, claim_eq, hrun]
    | donating coroutine run =>
      refine hmode .donated id ?_
      cases run <;> simp [perform, hth, schedule]
    | loop =>
      refine hmode .next id ?_
      cases hqueue : s.queue <;> simp [perform, hth, hqueue]
    | coding task callers => exact hmode .suspend id (by simp [perform, hth])
    | blocking task callers =>
      refine hmode .unblock id ?_
      cases hthr : th.schedulerThread <;> cases hrun : s.running <;>
        simp [perform, hth, hthr, claim_eq, hrun]
    | refused task callers => exact hmode .reschedule id (by simp [perform, hth, schedule])
    | leaving task callers =>
      refine hmode .check id ?_
      cases callers with
      | nil => simp [perform, hth]
      | cons caller callers =>
        by_cases hdone : task ∈ s.done <;> simp [perform, hth, hdone]
    | returned =>
      refine hmode .leave id ?_
      cases hthr : th.schedulerThread <;> cases hblocked : th.blocked <;> simp [perform, hth, hthr, hblocked]

theorem progress_of_busy (hth : th ∈ s.threads) (hbusy : th.kick = true ∨ th.mode ≠ .outside) :
    ∃ op, Own op ∧ step op s ≠ s := by
  obtain ⟨t, ht⟩ := mem_iff_getElem?.mp hth
  obtain ⟨a, ha, he⟩ := busy_acts s.shared hbusy
  exact step_ne ht he ha

theorem active_busy (hactive : th.active = true) : th.mode ≠ .outside := by
  intro hmode
  simp [Thread.active, hmode] at hactive

theorem tokens_busy (hpos : 0 < th.tokens) : th.kick = true ∨ th.mode ≠ .outside := by
  by_cases hkick : th.kick = true
  · exact .inl hkick
  · refine .inr ?_
    intro hmode
    simp [Thread.tokens, hkick, hmode] at hpos

theorem Sound.progress (h : Sound s) : s.shared.queue = [] ∨ ∃ op, Own op ∧ step op s ≠ s := by
  by_cases hempty : s.shared.queue = []
  · exact .inl hempty
  · refine .inr ?_
    rcases h.covered hempty with hrun | henq
    · obtain ⟨th, hth, hactive⟩ := h.owner hrun
      exact progress_of_busy hth (.inr (active_busy hactive))
    · have htokens := h.tokens
      rw [henq, Bool.toNat_true] at htokens
      by_cases hsubmitted : s.shared.submitted = 0
      · have hweight : 0 < Threaded.weight Thread.tokens s.threads := by omega
        obtain ⟨th, hth, hpos⟩ := Threaded.exists_of_weight_pos Thread.tokens hweight
        exact progress_of_busy hth (tokens_busy hpos)
      · -- Any thread can take the callback, or is busy and becomes free.
        cases hthreads : s.threads with
        | nil => exact absurd (h.peopled hthreads) hempty
        | cons th rest =>
          have hth : th ∈ s.threads := by
            rw [hthreads]
            exact mem_cons_self
          by_cases hbusy : th.kick = true ∨ th.mode ≠ .outside
          · exact progress_of_busy hth hbusy
          · have ht : s.threads[0]? = some th := by rw [hthreads]; rfl
            have hkick : ¬th.kick = true := fun hkick => hbusy (.inl hkick)
            have hmode : th.mode = .outside := Decidable.not_not.mp fun hne => hbusy (.inr hne)
            refine step_ne (a := .start) ht ?_ id
            refine (act_effect .start s.shared th).resolve_left ?_
            intro heq
            have := congrArg (fun r => r.2.mode) heq
            simp [act, perform, hkick, hmode, Nat.pos_of_ne_zero hsubmitted] at this

def Drained (s : State) : Prop := s.shared.queue = [] ∧ s.shared.resumed = s.shared.scheduled

theorem Sound.drained (h : Sound s) (hempty : s.shared.queue = []) : Drained s := by
  refine ⟨hempty, ?_⟩
  rw [h.history, hempty, append_nil]

theorem Sound.settles (h : Sound s) : Settles step Own Drained s := by
  refine settles_of_measure Sound cost (fun op s hs _ => hs.kept op) ?_ (fun s hs => hs.progress.imp_left hs.drained) h
  intro op s hs hop hne
  cases op with
  | spawn => exact hop.elim
  | thread t a =>
    cases ht : s.threads[t]? with
    | none =>
      refine absurd ?_ hne
      simp only [step, Threaded.step, ht]
    | some th =>
      rcases act_effect a s.shared th with heq | he
      · refine absurd ?_ hne
        rw [step, Threaded.step_thread ht, heq, Threaded.set_self ht]
      · exact cost_effect ht he hop

end Progress

/-- No wake-up is lost: a nonempty queue is claimed or has a submission outstanding, and a callback
that is in the pool or about to claim finds the flag of the submission set. Coroutines are resumed
in the order in which they were scheduled, and all of them are if no new work comes. -/
structure Lossless (s : State) : Prop where
  covered : s.shared.queue ≠ [] → s.shared.running = true ∨ s.shared.enqueued = true
  callbacks : (0 < s.shared.submitted ∨ ∃ th ∈ s.threads, th.mode = .worker) → s.shared.enqueued = true
  inOrder : s.shared.scheduled = s.shared.resumed ++ s.shared.queue
  all : Settles step Own Drained s

theorem Sound.callbacks {s : State} (h : Sound s)
    (hcallback : 0 < s.shared.submitted ∨ ∃ th ∈ s.threads, th.mode = .worker) : s.shared.enqueued = true := by
  have htokens := h.tokens
  have hpos : 0 < s.shared.enqueued.toNat := by
    rcases hcallback with hsubmitted | ⟨th, hth, hmode⟩
    · omega
    · have hle := Threaded.le_weight Thread.tokens hth
      have hone : 0 < th.tokens := by simp [Thread.tokens, hmode]
      omega
  cases henq : s.shared.enqueued with
  | true => rfl
  | false => simp [henq] at hpos

theorem scheduler_lossless (ops : List Op) : Lossless (runSteps step ops initial) := by
  have h : Sound (runSteps step ops initial) := inv_runSteps_of_step (fun op s hs => hs.kept op) Sound.initial
  exact ⟨h.covered, h.callbacks, h.history, h.settles⟩

end WslPlus.Plan9.Scheduler

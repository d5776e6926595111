import WslPlus.Wslc.Order

/-!
# The notifications of a session

A VM is announced at most once, and its stop is announced if it was. The generation that is
recorded as announced changes under the lock of the notifications and, when a VM is torn down,
without it. The argument is that who tears down has announced the stop before, and that nobody can
announce the VM in between.
-/

namespace WslPlus.Wslc

open List

def unmatched (log : List Notification) : Option Nat :=
  match log.getLast? with
  | some (.started generation) => some generation
  | _ => none

def lastGeneration (log : List Notification) : Nat :=
  match log.getLast? with
  | some (.started generation) | some (.stopping generation) => generation
  | none => 0

/-- Starts and stops take turns. A stop is of the generation that was started, and a start is of a
later generation than all before. -/
inductive Paired : List Notification → Prop where
  | nil : Paired []
  | started {log : List Notification} {generation : Nat} (h : Paired log) (hmatched : unmatched log = none)
      (hlast : lastGeneration log < generation) : Paired (log ++ [Notification.started generation])
  | stopping {log : List Notification} {generation : Nat} (h : Paired log)
      (hunmatched : unmatched log = some generation) : Paired (log ++ [Notification.stopping generation])

def recorded (generation : Nat) : Option Nat := if generation = 0 then none else some generation

def starts (log : List Notification) : Nat :=
  log.countP fun
    | .started _ => true
    | .stopping _ => false

section Log

variable {log : List Notification} {generation : Nat}

@[simp] theorem unmatched_started : unmatched (log ++ [Notification.started generation]) = some generation := by
  simp [unmatched]

@[simp] theorem unmatched_stopping :
    unmatched (log ++ [Notification.stopping generation]) = none := by simp [unmatched]

@[simp] theorem lastGeneration_started :
    lastGeneration (log ++ [Notification.started generation]) = generation := by
  simp [lastGeneration]

@[simp] theorem lastGeneration_stopping :
    lastGeneration (log ++ [Notification.stopping generation]) = generation := by
  simp [lastGeneration]

theorem lastGeneration_of_unmatched (h : unmatched log = some generation) :
    lastGeneration log = generation := by
  unfold unmatched at h
  unfold lastGeneration
  split at h
  next heq =>
    rw [heq]
    exact Option.some.inj h
  next => cases h

theorem recorded_zero : recorded 0 = none := rfl

theorem recorded_of_ne_zero (h : generation ≠ 0) : recorded generation = some generation := if_neg h

end Log

def Pc.announces : Pc → Bool
  | .announceStarted | .announceStopping _ => true
  | _ => false

inductive Notified (s : Shared) (pc : Pc) (generation : Nat) (s' : Shared) (pc' : Pc) : Prop where
  | same (hnotified : s'.notifiedGeneration = s.notifiedGeneration) (hlog : s'.notifications = s.notifications)
      (hannounces : pc'.announces = true ∨ pc.announces = true → pc' = pc)
      (hretire : ∀ stopper, pc = .retire stopper → pc' = pc)
  | record (hpc : pc = .record) (hpc' : pc' = .announceStarted) (hnotified : s'.notifiedGeneration = generation)
      (hlog : s'.notifications = s.notifications)
  | started (hpc : pc = .announceStarted) (hpc' : pc' = .outside)
      (hnotified : s'.notifiedGeneration = s.notifiedGeneration)
      (hlog : s'.notifications = s.notifications ++ [Notification.started generation])
  | retire (stopper : Stopper) (hpc : pc = .retire stopper) (hpc' : pc' = .announceStopping stopper)
      (hgeneration : generation ≠ 0) (h : s.notifiedGeneration = generation) (hnotified : s'.notifiedGeneration = 0)
      (hlog : s'.notifications = s.notifications)
  | decline (stopper : Stopper) (hpc : pc = .retire stopper) (hpc' : pc' = .relock stopper)
      (h : generation = 0 ∨ s.notifiedGeneration ≠ generation)
      (hnotified : s'.notifiedGeneration = s.notifiedGeneration) (hlog : s'.notifications = s.notifications)
  | stopping (stopper : Stopper) (hpc : pc = .announceStopping stopper) (hpc' : pc' = .outside)
      (hnotified : s'.notifiedGeneration = s.notifiedGeneration)
      (hlog : s'.notifications = s.notifications ++ [Notification.stopping generation])
  | tearDown (stopper : Option Stopper) (hpc : pc = .tearDown stopper) (hpc' : pc' = .dismantle stopper)
      (hnotified : s'.notifiedGeneration = 0) (hlog : s'.notifications = s.notifications)

theorem advance_notified (ok : Bool) (s : Shared) (th : Thread) :
    Notified s th.pc th.generation (advance ok s th).1 (advance ok s th).2.pc := by
  obtain ⟨pc, generation, hooks⟩ := th
  have hsame : ∀ {s' : Shared} {pc' : Pc}, s'.notifiedGeneration = s.notifiedGeneration →
      s'.notifications = s.notifications → pc'.announces = false → pc.announces = false →
      (∀ stopper, pc ≠ .retire stopper) → Notified s pc generation s' pc' := by
    intro s' pc' hnote hlog hpc' hpc hretire
    refine .same hnote hlog ?_ (fun stopper heq => absurd heq (hretire stopper))
    rw [hpc, hpc']
    rintro (h | h) <;> cases h
  cases pc with
  | outside =>
    cases hooks with
    | nil => exact hsame rfl rfl rfl rfl (fun _ => Pc.noConfusion)
    | cons hook hooks =>
      rcases hook with _ | _ | _ <;> cases ok <;> exact hsame rfl rfl rfl rfl (fun _ => Pc.noConfusion)
  | record => exact .record rfl rfl rfl rfl
  | announceStarted => exact .started rfl rfl rfl rfl
  | retire stopper =>
    simp only [advance]
    split
    next h => exact .retire stopper rfl rfl h.1 h.2 rfl rfl
    next h =>
      refine .decline stopper rfl rfl ?_ rfl rfl
      by_cases hzero : generation = 0
      · exact .inl hzero
      · exact .inr (fun heq => h ⟨hzero, heq⟩)
  | announceStopping stopper => exact .stopping stopper rfl rfl rfl rfl
  | tearDown stopper => exact .tearDown stopper rfl rfl rfl rfl
  | relock stopper =>
    simp only [advance]
    split
    · cases stopper <;> exact hsame rfl rfl rfl rfl (fun _ => Pc.noConfusion)
    · exact hsame rfl rfl rfl rfl (fun _ => Pc.noConfusion)
  | vacate stopper => rcases stopper with _ | _ | _ <;> exact hsame rfl rfl rfl rfl (fun _ => Pc.noConfusion)
  | _ =>
    simp only [advance, exchangeDisposition_eq]
    repeat' split
    all_goals exact hsame rfl rfl rfl rfl (fun _ => Pc.noConfusion)

theorem act_notified (a : Action) (s : Shared) (th : Thread) :
    Notified s th.pc th.generation (act a s th).1 (act a s th).2.pc := by
  cases a with
  | advance ok => exact advance_notified ok s th
  | call c =>
    rw [act]
    split
    next hpc =>
      obtain ⟨⟨disposition, vm, count, refs, heq⟩, -, -⟩ := call_eq c s th
      have hall : ∀ pc ∈ .outside :: Pc.next .outside, pc.announces = false := by decide
      have hpc' := hall _ (mem_cons.mpr (call_pc c (s := s) hpc))
      refine .same (by rw [heq]) (by rw [heq]) ?_ (fun stopper h => absurd (hpc.symm.trans h) Pc.noConfusion)
      rw [hpc', hpc]
      rintro (h | h) <;> cases h
    next => exact .same rfl rfl (fun _ => rfl) (fun _ _ => rfl)

theorem act_generation_le (a : Action) (s : Shared) (th : Thread) : s.vmGeneration ≤
    (act a s th).1.vmGeneration := by
  rcases (act_frame s th a).generation with hsame | hpc
  · exact Nat.le_of_eq hsame.symm
  · rcases act_inside s (by rw [hpc]; exact Pc.noConfusion) a with ⟨ok, heq⟩ | heq
    · rw [heq, advance, hpc]
      exact Nat.le_succ _
    · exact Nat.le_of_eq (by rw [heq])

namespace Region

def silent : Region where
  pc
    | .announceStopping _ | .relock _ | .stop | .endStop | .restore | .signal => true
    | .tearDown stopper | .dismantle stopper | .vacate stopper => stopper != none
    | _ => false
  hook
    | .stopping _ => true
    | .started => false

/-- `Shutdown` is done with its notification. -/
def finished : Region where
  pc
    | .relock .shutdown | .signal => true
    | .tearDown stopper | .dismantle stopper | .vacate stopper => stopper == some .shutdown
    | _ => false
  hook
    | .stopping .shutdown => true
    | _ => false

end Region

def Pc.unannounced : Pc → Bool
  | .create | .watch | .recover | .started | .cleanup => true
  | .tearDown none | .dismantle none | .vacate none => true
  | .notifyStarted | .checkTerminating | .checkGeneration | .record => true
  | _ => false

structure Notifying (r : Runtime) : Prop where
  orderly : Orderly r
  paired : Paired r.shared.notifications
  last : lastGeneration r.shared.notifications ≤ r.shared.vmGeneration
  current : r.shared.notifiedGeneration = 0 ∨ r.shared.notifiedGeneration = r.shared.vmGeneration
  running : r.shared.notifiedGeneration ≠ 0 → r.shared.vmState = .running
  silent : 0 < total .silent r.threads ∨ r.shared.terminated = true → r.shared.notifiedGeneration = 0
  finished : 0 < total .finished r.threads ∨ r.shared.terminated = true →
    ∀ th ∈ r.threads, ∀ stopper, th.pc ≠ .announceStopping stopper
  unannounced : ∀ th ∈ r.threads, th.pc.unannounced = true →
    r.shared.notifiedGeneration = 0 ∧ lastGeneration r.shared.notifications < r.shared.vmGeneration
  starting : ∀ th ∈ r.threads, th.pc = .announceStarted →
    r.shared.notifiedGeneration = r.shared.vmGeneration ∧ unmatched r.shared.notifications = none ∧
      lastGeneration r.shared.notifications < r.shared.vmGeneration
  stopping : ∀ th ∈ r.threads, ∀ stopper, th.pc = .announceStopping stopper →
    unmatched r.shared.notifications = some r.shared.vmGeneration
  settled : (∀ th ∈ r.threads, th.pc.announces = false) →
    unmatched r.shared.notifications = recorded r.shared.notifiedGeneration

namespace Notifying

variable {r : Runtime} {t : Nat} {th u : Thread}

section Kept

variable (hr : Notifying r) (ht : r.threads[t]? = some th) (a : Action)
include hr ht

theorem settled_of_notifies (hth : th.pc.notifies = true) (hann : th.pc.announces = false) :
    unmatched r.shared.notifications = recorded r.shared.notifiedGeneration := by
  apply hr.settled
  intro u hu
  rw [← Bool.not_eq_true]
  intro hannounce
  have hall : ∀ pc ∈ Pc.all, pc.announces = true → pc.notifies = true := by decide
  have heq := hr.orderly.notifier ht hu hth (hall u.pc u.pc.mem_all hannounce)
  rw [heq, hann] at hannounce
  cases hannounce

theorem tearDown_zero {stopper : Option Stopper} (hpc : th.pc = .tearDown stopper) :
    r.shared.notifiedGeneration = 0 := by
  have hmem := mem_of_getElem? ht
  cases stopper with
  | none => exact (hr.unannounced th hmem (by rw [hpc]; rfl)).1
  | some stopper =>
    apply hr.silent
    left
    exact Nat.lt_of_lt_of_le (count_pos (by rw [hpc]; cases stopper <;> rfl)) (count_le_total hmem)

theorem record_alone (hpc : th.pc = .record) :
    total .silent r.threads = 0 ∧ r.shared.terminated = false ∧ r.shared.vmState = .running := by
  have hmem := mem_of_getElem? ht
  have hpassed : 0 < total .passed r.threads :=
    Nat.lt_of_lt_of_le (count_pos (by rw [hpc]; rfl)) (count_le_total hmem)
  have hopen : ¬Closed r := by
    intro hclose
    have := hr.orderly.closed hclose
    omega
  have hcommitted := hr.orderly.rising_alone hmem (by rw [hpc]; rfl)
  refine ⟨?_, ?_, ?_⟩
  · by_contra hne
    obtain ⟨u, hu, hcount⟩ := exists_of_total_pos (Nat.pos_of_ne_zero hne)
    have hcov := Region.count_le_of_covered (m := .silent) (show Region.silent.covered .committed .ended = true by decide) u
    have hle := count_le_total (m := .committed) hu
    have hle' := count_le_total (m := .ended) hu
    apply hopen
    left
    omega
  · rw [← Bool.not_eq_true]
    intro hterm
    exact hopen (.inr hterm)
  · have hannouncing : 0 < total .announcing r.threads :=
      Nat.lt_of_lt_of_le (count_pos (by rw [hpc]; rfl)) (count_le_total hmem)
    exact (hr.orderly.alive (by omega)).resolve_right hopen

theorem generation_eq (hpc : th.pc.compares = true) : th.generation = r.shared.vmGeneration :=
  hr.orderly.generation th (mem_of_getElem? ht) hpc

theorem paired_kept : Paired (after r t th a).shared.notifications := by
  have hmem := mem_of_getElem? ht
  cases act_notified a r.shared th with
  | same _ hlog | record _ _ _ hlog | retire _ _ _ _ _ _ hlog | decline _ _ _ _ _ hlog | tearDown _ _ _ _ hlog =>
    simp only [after, hlog]
    exact hr.paired
  | started hpc _ _ hlog =>
    obtain ⟨-, hmatch, hlast⟩ := hr.starting th hmem hpc
    simp only [after, hlog, hr.generation_eq ht (by rw [hpc]; rfl)]
    exact .started hr.paired hmatch hlast
  | stopping stopper hpc _ _ hlog =>
    simp only [after, hlog, hr.generation_eq ht (by rw [hpc]; rfl)]
    exact .stopping hr.paired (hr.stopping th hmem stopper hpc)

theorem last_kept : lastGeneration (after r t th a).shared.notifications ≤
    (after r t th a).shared.vmGeneration := by
  have hle : r.shared.vmGeneration ≤ (act a r.shared th).1.vmGeneration := act_generation_le a r.shared th
  have hlast := hr.last
  simp only [after]
  cases act_notified a r.shared th with
  | same _ hlog | record _ _ _ hlog | retire _ _ _ _ _ _ hlog | decline _ _ _ _ _ hlog | tearDown _ _ _ _ hlog =>
    rw [hlog]
    omega
  | started hpc _ _ hlog =>
    rw [hlog, lastGeneration_started, hr.generation_eq ht (by rw [hpc]; rfl)]
    exact hle
  | stopping stopper hpc _ _ hlog =>
    rw [hlog, lastGeneration_stopping, hr.generation_eq ht (by rw [hpc]; rfl)]
    exact hle

omit ht in
theorem number_zero (hth : th ∈ r.threads) (hpc : th.pc = .number) : r.shared.notifiedGeneration = 0 := by
  by_contra hne
  have hexpects := hr.orderly.expects th hth
  rw [hpc, hr.running hne] at hexpects
  cases hexpects

omit hr ht in
theorem generation_same (hpc : th.pc ≠ .number) : (act a r.shared th).1.vmGeneration = r.shared.vmGeneration :=
  (act_frame r.shared th a).generation.resolve_right hpc

theorem current_kept : (after r t th a).shared.notifiedGeneration = 0 ∨
    (after r t th a).shared.notifiedGeneration = (after r t th a).shared.vmGeneration := by
  have hmem := mem_of_getElem? ht
  simp only [after]
  cases act_notified a r.shared th with
  | same hnote =>
    rw [hnote]
    by_cases hpc : th.pc = .number
    · exact .inl (hr.number_zero hmem hpc)
    · rw [generation_same a hpc]
      exact hr.current
  | record hpc _ hnote =>
    right
    rw [hnote, generation_same a (by rw [hpc]; exact Pc.noConfusion)]
    exact hr.generation_eq ht (by rw [hpc]; rfl)
  | started hpc _ hnote | decline _ hpc _ _ hnote | stopping _ hpc _ hnote =>
    rw [hnote, generation_same a (by rw [hpc]; exact Pc.noConfusion)]
    exact hr.current
  | retire _ _ _ _ _ hnote | tearDown _ _ _ hnote => exact .inl hnote

theorem running_same (hne : r.shared.notifiedGeneration ≠ 0) : (act a r.shared th).1.vmState = .running := by
  have hmem := mem_of_getElem? ht
  have hexpects := hr.orderly.expects th hmem
  have hrun := hr.running hne
  have hsilent : Region.silent.pc th.pc = false := by
    rw [← Bool.not_eq_true]
    intro hin
    exact hne (hr.silent (.inl (Nat.lt_of_lt_of_le (count_pos hin) (count_le_total hmem))))
  cases act_restated a r.shared th with
  | same hsame => exact hsame.trans hrun
  | recover _ _ hstate => exact hstate
  | start hpc =>
    rw [hpc, hrun] at hexpects
    cases hexpects
  | stop hpc =>
    rw [hpc] at hsilent
    cases hsilent
  | vacate stopper hpc =>
    rcases stopper with _ | stopper
    · rw [hpc, hrun] at hexpects
      cases hexpects
    · rw [hpc] at hsilent
      cases stopper <;> cases hsilent

theorem running_kept (hne : (after r t th a).shared.notifiedGeneration ≠ 0) :
    (after r t th a).shared.vmState = .running := by
  simp only [after] at hne ⊢
  cases act_notified a r.shared th with
  | same hnote | started _ _ hnote | decline _ _ _ _ hnote | stopping _ _ _ hnote =>
    rw [hnote] at hne
    exact hr.running_same ht a hne
  | record hpc =>
    have hrun := (hr.record_alone ht hpc).2.2
    cases act_restated a r.shared th with
    | same hsame => exact hsame.trans hrun
    | recover _ _ hstate => exact hstate
    | start hpc' | stop hpc' | vacate _ hpc' => exact absurd (hpc'.symm.trans hpc) Pc.noConfusion
  | retire _ _ _ _ _ hnote | tearDown _ _ _ hnote => exact absurd hnote hne

omit hr in
/-- A session is silent, or its `Shutdown` is done with the notification, no sooner than the edges
of the region allow. -/
theorem before_of_after {m : Region} {edges : List (Pc × Pc)} (hm : m.entered edges = true)
    (hsignal : m.pc .signal = true) (hedge : (th.pc, (act a r.shared th).2.pc) ∉ edges)
    (h : 0 < total m (after r t th a).threads ∨ (after r t th a).shared.terminated = true) :
    0 < total m r.threads ∨ r.shared.terminated = true := by
  rcases h with hpos | hterm
  · exact .inl (Nat.lt_of_lt_of_le hpos (total_set_le hm ht (act_flow a r.shared th) hedge))
  · rcases (act_frame r.shared th a).terminated with hsame | hpc
    · right
      rw [← hsame]
      exact hterm
    · left
      exact Nat.lt_of_lt_of_le (count_pos (by rw [hpc]; exact hsignal)) (count_le_total (mem_of_getElem? ht))

theorem silent_kept (h : 0 < total .silent (after r t th a).threads ∨ (after r t th a).shared.terminated = true) :
    (after r t th a).shared.notifiedGeneration = 0 := by
  have hentered : Region.silent.entered
      [(.retire .idle, .announceStopping .idle), (.retire .shutdown, .announceStopping .shutdown),
        (.retire .idle, .relock .idle), (.retire .shutdown, .relock .shutdown)] = true := by decide
  have hbefore : ((∀ stopper, th.pc ≠ .retire stopper) ∨ (act a r.shared th).2.pc = th.pc) →
      0 < total .silent r.threads ∨ r.shared.terminated = true := by
    intro hpc
    apply before_of_after ht a hentered rfl _ h
    intro hedge
    simp only [mem_cons, Prod.mk.injEq, not_mem_nil, or_false] at hedge
    rcases hpc with hpc | hstay
    · rcases hedge with ⟨hretire, -⟩ | ⟨hretire, -⟩ | ⟨hretire, -⟩ | ⟨hretire, -⟩ <;> exact hpc _ hretire
    · rw [hstay] at hedge
      rcases hedge with ⟨hretire, hpc'⟩ | ⟨hretire, hpc'⟩ | ⟨hretire, hpc'⟩ | ⟨hretire, hpc'⟩ <;>
        exact absurd (hretire.symm.trans hpc') Pc.noConfusion
  simp only [after]
  cases act_notified a r.shared th with
  | same hnote _ _ hretire =>
    rw [hnote]
    apply hr.silent (hbefore _)
    by_cases hpc : ∃ stopper, th.pc = .retire stopper
    · obtain ⟨stopper, hpc⟩ := hpc
      exact .inr (hretire stopper hpc)
    · exact .inl (fun stopper hpc' => hpc ⟨stopper, hpc'⟩)
  | started hpc _ hnote | stopping _ hpc _ hnote =>
    rw [hnote]
    exact hr.silent (hbefore (.inl (fun _ => by rw [hpc]; exact Pc.noConfusion)))
  | record hpc =>
    obtain ⟨hzero, hterm, -⟩ := hr.record_alone ht hpc
    rcases hbefore (.inl (fun _ => by rw [hpc]; exact Pc.noConfusion)) with hpos | htrue
    · omega
    · rw [hterm] at htrue
      cases htrue
  | retire _ _ _ _ _ hnote | tearDown _ _ _ hnote => exact hnote
  | decline stopper hpc _ hdeclined hnote =>
    rw [hnote]
    have hgeneration := hr.generation_eq ht (by rw [hpc]; rfl)
    have hcurrent := hr.current
    omega

theorem finished_kept
    (h : 0 < total .finished (after r t th a).threads ∨ (after r t th a).shared.terminated = true) :
    ∀ u ∈ (after r t th a).threads, ∀ stopper, u.pc ≠ .announceStopping stopper := by
  intro u hu stopper hpc
  have hmem := mem_of_getElem? ht
  by_cases hedge : (th.pc, (act a r.shared th).2.pc) ∈
      [(.announceStopping .shutdown, .outside), (.retire .shutdown, .relock .shutdown)]
  · simp only [mem_cons, Prod.mk.injEq, not_mem_nil, or_false] at hedge
    have hth : th.pc.notifies = true := by rcases hedge with ⟨hpc', -⟩ | ⟨hpc', -⟩ <;> rw [hpc'] <;> rfl
    rcases Threaded.of_mem_set hu with rfl | ⟨i, hne, hi⟩
    · rcases hedge with ⟨-, hpc'⟩ | ⟨-, hpc'⟩ <;> exact absurd (hpc'.symm.trans hpc) Pc.noConfusion
    · have := hr.orderly.other_not_notifying ht hth hi hne
      rw [hpc] at this
      cases this
  · have hbefore := before_of_after ht a (m := .finished) (by decide) rfl hedge h
    rcases Threaded.of_mem_set hu with rfl | ⟨i, -, hi⟩
    · cases act_notified a r.shared th with
      | same _ _ hann =>
        have hstay := hann (.inl (by rw [hpc]; rfl))
        exact hr.finished hbefore th hmem stopper (hstay.symm.trans hpc)
      | retire _ _ _ hgeneration heq =>
        have hsilent : 0 < total .silent r.threads ∨ r.shared.terminated = true := by
          rcases hbefore with hpos | hterm
          · exact .inl (Nat.lt_of_lt_of_le hpos (total_mono (by decide) _))
          · exact .inr hterm
        have := hr.silent hsilent
        omega
      | record _ hpc' | started _ hpc' | decline _ _ hpc' | stopping _ _ hpc' | tearDown _ _ hpc' =>
        exact absurd (hpc'.symm.trans hpc) Pc.noConfusion
    · exact hr.finished hbefore u (mem_of_getElem? hi) stopper hpc

theorem unannounced_kept : ∀ u ∈ (after r t th a).threads, u.pc.unannounced = true →
    (after r t th a).shared.notifiedGeneration = 0 ∧
      lastGeneration (after r t th a).shared.notifications < (after r t th a).shared.vmGeneration := by
  intro u hu hunann
  have hmem := mem_of_getElem? ht
  have hle : r.shared.vmGeneration ≤ (act a r.shared th).1.vmGeneration := act_generation_le a r.shared th
  have hrising : ∀ pc ∈ Pc.all, pc.unannounced = true → Region.rising.pc pc = true := by decide
  simp only [after]
  rcases Threaded.of_mem_set hu with rfl | ⟨i, hne, hi⟩
  · have hentered : Region.entered ⟨Pc.unannounced, fun _ => false⟩ [(.number, .create)] = true := by decide
    rcases flow_enters hentered (act_flow a r.shared th) hunann with hbefore | hedge
    · obtain ⟨hzero, hlast⟩ := hr.unannounced th hmem hbefore
      cases act_notified a r.shared th with
      | same hnote hlog =>
        rw [hnote, hlog]
        exact ⟨hzero, by omega⟩
      | tearDown _ _ _ hnote hlog =>
        rw [hlog]
        exact ⟨hnote, by omega⟩
      | record _ hpc' =>
        rw [hpc'] at hunann
        cases hunann
      | started hpc | retire _ hpc | decline _ hpc | stopping _ hpc =>
        rw [hpc] at hbefore
        cases hbefore
    · obtain ⟨hpc, hpc'⟩ := Prod.mk.inj (mem_singleton.mp hedge)
      have hlast := hr.last
      have hsucc : (act a r.shared th).1.vmGeneration = r.shared.vmGeneration + 1 := by
        obtain ⟨ok, heq⟩ := act_of_moved (by rw [hpc]; exact Pc.noConfusion) (by rw [hpc, hpc']; exact Pc.noConfusion)
        rw [heq, advance, hpc]
      cases act_notified a r.shared th with
      | same hnote hlog =>
        rw [hnote, hlog]
        exact ⟨hr.number_zero hmem hpc, by omega⟩
      | record hpc' | started hpc' | retire _ hpc' | decline _ hpc' | stopping _ hpc' | tearDown _ hpc' =>
        exact absurd (hpc'.symm.trans hpc) Pc.noConfusion
  · obtain ⟨hzero, hlast⟩ := hr.unannounced u (mem_of_getElem? hi) hunann
    have hnot : Region.rising.pc th.pc = false := by
      rw [← Bool.not_eq_true]
      intro hth
      have := not_in_of_total_le_one hr.orderly.rising ht hi hne hth
      rw [hrising u.pc u.pc.mem_all hunann] at this
      cases this
    cases act_notified a r.shared th with
    | same hnote hlog | decline _ _ _ _ hnote hlog =>
      rw [hnote, hlog]
      exact ⟨hzero, by omega⟩
    | tearDown _ _ _ hnote hlog =>
      rw [hlog]
      exact ⟨hnote, by omega⟩
    | record hpc | started hpc =>
      rw [hpc] at hnot
      cases hnot
    | retire _ _ _ hgeneration heq => omega
    | stopping stopper hpc =>
      have := lastGeneration_of_unmatched (hr.stopping th hmem stopper hpc)
      omega

theorem starting_kept : ∀ u ∈ (after r t th a).threads, u.pc = .announceStarted →
    (after r t th a).shared.notifiedGeneration = (after r t th a).shared.vmGeneration ∧
      unmatched (after r t th a).shared.notifications = none ∧
      lastGeneration (after r t th a).shared.notifications < (after r t th a).shared.vmGeneration := by
  intro u hu hpc
  have hmem := mem_of_getElem? ht
  simp only [after]
  rcases Threaded.of_mem_set hu with rfl | ⟨i, hne, hi⟩
  · cases act_notified a r.shared th with
    | same hnote hlog hann =>
      have hbefore := (hann (.inl (by rw [hpc]; rfl))).symm.trans hpc
      rw [hnote, hlog, generation_same a (by rw [hbefore]; exact Pc.noConfusion)]
      exact hr.starting th hmem hbefore
    | record hpc' _ hnote hlog =>
      obtain ⟨hzero, hlast⟩ := hr.unannounced th hmem (by rw [hpc']; rfl)
      have hsettled := hr.settled_of_notifies ht (by rw [hpc']; rfl) (by rw [hpc']; rfl)
      rw [hzero, recorded_zero] at hsettled
      rw [hnote, hlog, generation_same a (by rw [hpc']; exact Pc.noConfusion)]
      exact ⟨hr.generation_eq ht (by rw [hpc']; rfl), hsettled, hlast⟩
    | started _ hpc' | retire _ _ hpc' | decline _ _ hpc' | stopping _ _ hpc' | tearDown _ _ hpc' =>
      exact absurd (hpc'.symm.trans hpc) Pc.noConfusion
  · have hu' := mem_of_getElem? hi
    have hbefore := hr.starting u hu' hpc
    have hnumber : th.pc ≠ .number := by
      intro hth
      have := not_in_of_total_le_one hr.orderly.rising ht hi hne (by rw [hth]; rfl)
      rw [hpc] at this
      cases this
    have hnotifies : th.pc.notifies = false := by
      rw [← Bool.not_eq_true]
      intro hth
      have := hr.orderly.other_not_notifying ht hth hi hne
      rw [hpc] at this
      cases this
    rw [generation_same a hnumber]
    cases act_notified a r.shared th with
    | same hnote hlog =>
      rw [hnote, hlog]
      exact hbefore
    | tearDown stopper hpc' =>
      have := hr.tearDown_zero ht hpc'
      omega
    | record hpc' | started hpc' | retire _ hpc' | decline _ hpc' | stopping _ hpc' =>
      rw [hpc'] at hnotifies
      cases hnotifies

theorem stopping_kept : ∀ u ∈ (after r t th a).threads, ∀ stopper, u.pc = .announceStopping stopper →
    unmatched (after r t th a).shared.notifications = some (after r t th a).shared.vmGeneration := by
  intro u hu stopper hpc
  have hmem := mem_of_getElem? ht
  simp only [after]
  rcases Threaded.of_mem_set hu with rfl | ⟨i, hne, hi⟩
  · cases act_notified a r.shared th with
    | same _ hlog hann =>
      have hbefore := (hann (.inl (by rw [hpc]; rfl))).symm.trans hpc
      rw [hlog, generation_same a (by rw [hbefore]; exact Pc.noConfusion)]
      exact hr.stopping th hmem stopper hbefore
    | retire _ hpc' _ hgeneration heq _ hlog =>
      have hsettled := hr.settled_of_notifies ht (by rw [hpc']; rfl) (by rw [hpc']; rfl)
      rw [recorded_of_ne_zero (by omega), heq, hr.generation_eq ht (by rw [hpc']; rfl)] at hsettled
      rw [hlog, generation_same a (by rw [hpc']; exact Pc.noConfusion)]
      exact hsettled
    | record _ hpc' | started _ hpc' | decline _ _ hpc' | stopping _ _ hpc' | tearDown _ _ hpc' =>
      exact absurd (hpc'.symm.trans hpc) Pc.noConfusion
  · have hbefore := hr.stopping u (mem_of_getElem? hi) stopper hpc
    have hnumber : th.pc ≠ .number := by
      intro hth
      have := hr.orderly.compares_number ht hth hi hne
      rw [hpc] at this
      cases this
    have hnotifies : th.pc.notifies = false := by
      rw [← Bool.not_eq_true]
      intro hth
      have := hr.orderly.other_not_notifying ht hth hi hne
      rw [hpc] at this
      cases this
    rw [generation_same a hnumber]
    cases act_notified a r.shared th with
    | same _ hlog | tearDown _ _ _ _ hlog =>
      rw [hlog]
      exact hbefore
    | record hpc' | started hpc' | retire _ hpc' | decline _ hpc' | stopping _ hpc' =>
      rw [hpc'] at hnotifies
      cases hnotifies

theorem settled_kept (h : ∀ u ∈ (after r t th a).threads, u.pc.announces = false) :
    unmatched (after r t th a).shared.notifications = recorded (after r t th a).shared.notifiedGeneration := by
  have hmem := mem_of_getElem? ht
  have hth' : (act a r.shared th).2.pc.announces = false := by
    apply h
    apply mem_of_getElem?
    exact getElem?_set_self (List.getElem?_eq_some_iff.mp ht).1
  have hbefore : th.pc.announces = false → ∀ u ∈ r.threads, u.pc.announces = false := by
    intro hth u hu
    by_cases heq : u = th
    · rw [heq]
      exact hth
    · exact h u (Threaded.mem_set_of_ne ht hu heq)
  simp only [after]
  cases act_notified a r.shared th with
  | same hnote hlog hann =>
    rw [hnote, hlog]
    apply hr.settled (hbefore _)
    rw [← Bool.not_eq_true]
    intro hth
    rw [hann (.inr hth), hth] at hth'
    cases hth'
  | record _ hpc' | retire _ _ hpc' =>
    rw [hpc'] at hth'
    cases hth'
  | started hpc _ hnote hlog =>
    obtain ⟨heq, -, hlast⟩ := hr.starting th hmem hpc
    rw [hnote, hlog, unmatched_started, hr.generation_eq ht (by rw [hpc]; rfl), heq, recorded_of_ne_zero (by omega)]
  | decline _ hpc _ _ hnote hlog =>
    rw [hnote, hlog]
    exact hr.settled_of_notifies ht (by rw [hpc]; rfl) (by rw [hpc]; rfl)
  | stopping _ hpc _ hnote hlog =>
    have hzero := hr.silent (.inl (Nat.lt_of_lt_of_le (count_pos (by rw [hpc]; rfl)) (count_le_total hmem)))
    rw [hnote, hlog, unmatched_stopping, hzero, recorded_zero]
  | tearDown _ hpc _ hnote hlog =>
    have hsettled := hr.settled (hbefore (by rw [hpc]; rfl))
    rw [hr.tearDown_zero ht hpc] at hsettled
    rw [hlog, hnote]
    exact hsettled

theorem kept : Notifying (after r t th a) where
  orderly := hr.orderly.kept ht a
  paired := hr.paired_kept ht a
  last := hr.last_kept ht a
  current := hr.current_kept ht a
  running := hr.running_kept ht a
  silent := hr.silent_kept ht a
  finished := hr.finished_kept ht a
  unannounced := hr.unannounced_kept ht a
  starting := hr.starting_kept ht a
  stopping := hr.stopping_kept ht a
  settled := hr.settled_kept ht a

end Kept

theorem spawn (hr : Notifying r) : Notifying { r with threads := r.threads ++ [{}] } := by
  have hspawn : ∀ m : Region, m.pc .outside = false → total m (r.threads ++ [({} : Thread)]) = total m r.threads :=
    fun m hm => Orderly.total_spawn hm r.threads
  have hmem : ∀ u ∈ r.threads ++ [({} : Thread)], u ∈ r.threads ∨ u.pc = .outside :=
    fun u hu => (Orderly.mem_spawn hu).imp_right (congrArg Thread.pc)
  constructor
  case orderly => exact hr.orderly.spawn
  case paired => exact hr.paired
  case last => exact hr.last
  case current => exact hr.current
  case running => exact hr.running
  case silent => rw [hspawn _ rfl]; exact hr.silent
  case finished =>
    rw [hspawn _ rfl]
    intro h u hu stopper hpc
    rcases hmem u hu with hu | hout
    · exact hr.finished h u hu stopper hpc
    · exact absurd (hout.symm.trans hpc) Pc.noConfusion
  case unannounced =>
    intro u hu hunann
    rcases hmem u hu with hu | hout
    · exact hr.unannounced u hu hunann
    · rw [hout] at hunann
      cases hunann
  case starting =>
    intro u hu hpc
    rcases hmem u hu with hu | hout
    · exact hr.starting u hu hpc
    · exact absurd (hout.symm.trans hpc) Pc.noConfusion
  case stopping =>
    intro u hu stopper hpc
    rcases hmem u hu with hu | hout
    · exact hr.stopping u hu stopper hpc
    · exact absurd (hout.symm.trans hpc) Pc.noConfusion
  case settled => exact fun h => hr.settled (fun u hu => h u (mem_append_left _ hu))

theorem step (hr : Notifying r) (op : Op) : Notifying (Wslc.step op r) := by
  apply Threaded.step_cases hr
  · intro _ _
    exact hr.spawn
  · intro t a th _ ht
    exact hr.kept ht a

theorem initial (idleTerminationEnabled : Bool) : Notifying (Wslc.initial idleTerminationEnabled) := by
  constructor
  case orderly => exact Orderly.initial _
  case paired => exact .nil
  case last | silent => first | exact Nat.le_refl _ | exact fun _ => rfl
  case current => exact .inl rfl
  case running => exact fun hne => absurd rfl hne
  case finished => exact fun _ u hu => absurd hu not_mem_nil
  case unannounced | starting | stopping => exact fun u hu => absurd hu not_mem_nil
  case settled => exact fun _ => rfl

theorem run (ops : List Op) (idleTerminationEnabled : Bool) :
    Notifying (runSteps Wslc.step ops (Wslc.initial idleTerminationEnabled)) := by
  apply inv_runSteps_of_step _ (Notifying.initial idleTerminationEnabled)
  intro op r hr
  exact hr.step op

theorem matched (hr : Notifying r) (hterm : r.shared.terminated = true) :
    unmatched r.shared.notifications = none := by
  rw [hr.settled, hr.silent (.inr hterm), recorded_zero]
  intro u hu
  rw [← Bool.not_eq_true]
  intro hann
  have hall : ∀ pc ∈ Pc.all, pc.announces = true → Region.passed.pc pc = true ∨ pc = .announceStopping .idle ∨
      pc = .announceStopping .shutdown := by decide
  rcases hall u.pc u.pc.mem_all hann with hpassed | hpc | hpc
  · have hzero := hr.orderly.closed (.inr hterm)
    have := Nat.lt_of_lt_of_le (count_pos hpassed) (count_le_total hu)
    omega
  · exact hr.finished (.inr hterm) u hu _ hpc
  · exact hr.finished (.inr hterm) u hu _ hpc

end Notifying

def StartsWithin (n : Nat) (r : Runtime) : Prop :=
  r.shared.terminating = true ∧ starts r.shared.notifications + total .passed r.threads ≤ n

theorem starts_kept {r : Runtime} {t n : Nat} {th : Thread} (hr : StartsWithin n r)
    (ht : r.threads[t]? = some th)
    (a : Action) : StartsWithin n (after r t th a) := by
  obtain ⟨hterm, hle⟩ := hr
  refine ⟨act_terminating hterm, ?_⟩
  have hpassed : total .passed (after r t th a).threads ≤ total .passed r.threads := by
    have hentered : Region.passed.entered [(.checkTerminating, .checkGeneration)] = true := by decide
    apply total_set_le hentered ht (act_flow a r.shared th)
    intro hedge
    obtain ⟨hpc, hpc'⟩ := Prod.mk.inj (mem_singleton.mp hedge)
    rw [check_passed hpc hpc'] at hterm
    cases hterm
  simp only [after] at hpassed ⊢
  cases act_notified a r.shared th with
  | same _ hlog | record _ _ _ hlog | retire _ _ _ _ _ _ hlog | decline _ _ _ _ _ hlog | tearDown _ _ _ _ hlog =>
    rw [hlog]
    omega
  | stopping _ _ _ _ hlog =>
    have hstarts :
        starts (r.shared.notifications ++ [Notification.stopping th.generation]) = starts r.shared.notifications := by
      simp [starts]
    rw [hlog, hstarts]
    omega
  | started hpc hpc' _ hlog =>
    have hstarts :
        starts (r.shared.notifications ++ [Notification.started th.generation]) = starts r.shared.notifications + 1 := by
      simp [starts]
    have hset := total_set (m := .passed) ht (act a r.shared th).2
    rw [count_of_pc rfl hpc, count_of_pc rfl hpc'] at hset
    have hone : (Region.passed.pc .announceStarted).toNat = 1 := rfl
    have hzero : (Region.passed.pc .outside).toNat = 0 := rfl
    rw [hlog, hstarts]
    omega

theorem starts_step {r : Runtime} {n : Nat} (hr : StartsWithin n r) (op : Op) : StartsWithin n (step op r) := by
  apply Threaded.step_cases hr
  · intro _ _
    refine ⟨hr.1, ?_⟩
    rw [Orderly.total_spawn rfl]
    exact hr.2
  · intro t a th _ ht
    exact starts_kept hr ht a

theorem starts_run {r : Runtime} (hterm : r.shared.terminating = true) (ops : List Op) :
    starts (runSteps step ops r).shared.notifications ≤
      starts r.shared.notifications + total .passed r.threads := by
  have hrun : StartsWithin (starts r.shared.notifications + total .passed r.threads) (runSteps step ops r) := by
    apply inv_runSteps_of_step _ ⟨hterm, Nat.le_refl _⟩
    intro op r' hr'
    exact starts_step hr' op
  exact Nat.le_trans (Nat.le_add_right _ _) hrun.2

/-- The starts and stops that a session announces pair up, a session that has ended has announced
the stop of what it had started, and while it ends it announces at most the one VM whose
announcement has passed the check for the end before. -/
theorem notifications_paired (idleTerminationEnabled : Bool) (ops : List Op) :
    Paired (runSteps step ops (initial idleTerminationEnabled)).shared.notifications ∧
      ((runSteps step ops (initial idleTerminationEnabled)).shared.terminated = true →
        unmatched (runSteps step ops (initial idleTerminationEnabled)).shared.notifications = none) ∧
      total .passed (runSteps step ops (initial idleTerminationEnabled)).threads ≤ 1 ∧
      ((runSteps step ops (initial idleTerminationEnabled)).shared.terminating = true →
        ∀ ops', starts (runSteps step ops' (runSteps step ops (initial idleTerminationEnabled))).shared.notifications ≤
          starts (runSteps step ops (initial idleTerminationEnabled)).shared.notifications +
            total .passed (runSteps step ops (initial idleTerminationEnabled)).threads) := by
  have hr := Notifying.run ops idleTerminationEnabled
  refine ⟨hr.paired, hr.matched, ?_, starts_run⟩
  exact Nat.le_trans (total_mono (by decide) _) hr.orderly.rising

/-- A lease has passed the check for the end when the session begins to terminate. -/
theorem started_after_terminating :
    ¬∀ (idleTerminationEnabled : Bool) (ops ops' : List Op),
      (runSteps step ops (initial idleTerminationEnabled)).shared.terminating = true →
        starts (runSteps step ops' (runSteps step ops (initial idleTerminationEnabled))).shared.notifications ≤
          starts (runSteps step ops (initial idleTerminationEnabled)).shared.notifications := by
  intro h
  have hle := h true
    ([Threaded.Op.spawn (), Threaded.Op.spawn (), Threaded.Op.thread 0 (.call (.lease .acquire))] ++
      List.replicate 14 (Threaded.Op.thread 0 (.advance true)) ++
      [.thread 1 (.call .terminate), .thread 1 (.advance true)])
    (List.replicate 3 (Threaded.Op.thread 0 (.advance true))) (by decide)
  exact absurd hle (by decide)

end WslPlus.Wslc

import WslPlus.Wslc.Effects

/-!
# How the threads of a session exclude each other

One thread at most brings up a VM and announces it, and one at most has claimed the stop. Whoever
is committed to stop a VM leaves no room for another to start one, and once a session ends there
are no more starts.
-/

namespace WslPlus.Wslc

open List

namespace Region

def claiming : Region where
  pc
    | .idleRecheck | .backOut | .commit | .leave | .stop | .endStop | .restore => true
    | .notifyStopping .idle | .retire .idle | .announceStopping .idle | .relock .idle => true
    | .tearDown stopper | .dismantle stopper | .vacate stopper => stopper != some .shutdown
    | _ => false
  hook
    | .stopping .idle => true
    | _ => false

def committed : Region where
  pc
    | .commit | .leave | .stop | .endStop | .restore => true
    | .notifyStopping .idle | .retire .idle | .announceStopping .idle | .relock .idle => true
    | .tearDown stopper | .dismantle stopper | .vacate stopper => stopper == some .idle
    | _ => false
  hook
    | .stopping .idle => true
    | _ => false

def unlocked : Region where
  pc
    | .notifyStopping .idle | .retire .idle | .announceStopping .idle | .relock .idle => true
    | _ => false
  hook
    | .stopping .idle => true
    | _ => false

def rising : Region where
  pc
    | .start | .activate | .number | .create | .watch | .recover | .started | .cleanup => true
    | .tearDown none | .dismantle none | .vacate none => true
    | .notifyStarted | .checkTerminating | .checkGeneration | .record | .announceStarted => true
    | _ => false
  hook _ := false

def starting : Region where
  pc
    | .decide | .start | .activate | .number | .create | .watch | .recover | .started | .cleanup => true
    | .tearDown none | .dismantle none | .vacate none => true
    | _ => false
  hook _ := false

def announcing : Region where
  pc
    | .notifyStarted | .checkTerminating | .checkGeneration | .record | .announceStarted => true
    | _ => false
  hook _ := false

/-- `NotifyVmStarted` has seen that the session does not end. -/
def passed : Region where
  pc
    | .checkGeneration | .record | .announceStarted => true
    | _ => false
  hook _ := false

/-- `Shutdown`. -/
def ending : Region where
  pc
    | .dropLock | .load | .signal => true
    | .notifyStopping .shutdown | .retire .shutdown | .announceStopping .shutdown | .relock .shutdown => true
    | .tearDown stopper | .dismantle stopper | .vacate stopper => stopper == some .shutdown
    | _ => false
  hook
    | .stopping .shutdown => true
    | _ => false

/-- `Shutdown` has retired the generation. -/
def ended : Region where
  pc
    | .signal | .announceStopping .shutdown | .relock .shutdown => true
    | .tearDown stopper | .dismantle stopper | .vacate stopper => stopper == some .shutdown
    | _ => false
  hook
    | .stopping .shutdown => true
    | _ => false

def covered (m m₁ m₂ : Region) :
    Bool := m.within ⟨fun pc => m₁.pc pc || m₂.pc pc, fun hook => m₁.hook hook || m₂.hook hook⟩

theorem toNat_or_le (x y : Bool) : (x || y).toNat ≤ x.toNat + y.toNat := by
  cases x <;> cases y <;> decide

theorem count_le_of_covered {m m₁ m₂ : Region} (h : m.covered m₁ m₂ = true) (th : Thread) :
    th.count m ≤ th.count m₁ + th.count m₂ := by
  have hpc := toNat_or_le (m₁.pc th.pc) (m₂.pc th.pc)
  have hhooks : th.hooks.countP (fun hook => m₁.hook hook || m₂.hook hook) ≤
      th.hooks.countP m₁.hook + th.hooks.countP m₂.hook := by
    induction th.hooks with
    | nil => exact Nat.le_refl _
    | cons hook hooks ih =>
      have := toNat_or_le (m₁.hook hook) (m₂.hook hook)
      simp only [countP_cons_toNat]
      omega
  have hle := count_le_of_within h th
  simp only [Thread.count] at hle ⊢
  omega

end Region

theorem count_of_pc {m : Region} (h : m.hook = fun _ => false) {th : Thread} {pc : Pc} (hpc : th.pc = pc) :
    th.count m = (m.pc pc).toNat := by
  rw [count_of_hook_false h, hpc]

theorem count_pos {m : Region} {th : Thread} (h : m.pc th.pc = true) : 0 < th.count m := by
  rw [Thread.count, h]
  exact Nat.lt_of_lt_of_le Nat.zero_lt_one (Nat.le_add_right _ _)

def total (m : Region) (threads : List Thread) : Nat := Threaded.weight (Thread.count m) threads

section Total

variable {m m' : Region} {edges : List (Pc × Pc)} {threads : List Thread} {t : Nat} {th th' u : Thread}

theorem total_set (ht : threads[t]? = some th) (th' : Thread) :
    total m (threads.set t th') + th.count m = total m threads + th'.count m :=
  Threaded.weight_set (Thread.count m) ht th'

theorem count_le_total (hu : u ∈ threads) : u.count m ≤ total m threads := Threaded.le_weight _ hu

theorem total_mono (h : m.within m' = true) (threads : List Thread) : total m threads ≤ total m' threads :=
  Threaded.weight_mono (Region.count_le_of_within h) threads

theorem eq_of_total_le_one (h : total m threads ≤ 1) (ht : th ∈ threads) (hu : u ∈ threads)
    (hth : 0 < th.count m) (hcount : 0 < u.count m) : u = th := by
  by_contra hne
  have := Threaded.weight_pair (Thread.count m) ht hu (Ne.symm hne)
  have : total m threads = Threaded.weight (Thread.count m) threads := rfl
  omega

theorem not_in_of_total_le_one {i : Nat} (h : total m threads ≤ 1) (ht : threads[t]? = some th)
    (hu : threads[i]? = some u) (hne : i ≠ t) (hth : m.pc th.pc = true) : m.pc u.pc = false := by
  have hle := Threaded.add_le_weight (Thread.count m) ht hu (Ne.symm hne)
  have htotal : total m threads = Threaded.weight (Thread.count m) threads := rfl
  have hpos := count_pos hth
  rw [← Bool.not_eq_true]
  intro hin
  have := count_pos hin
  omega

theorem exists_of_total_pos (h : 0 < total m threads) : ∃ u ∈ threads, 0 < u.count m :=
  Threaded.exists_of_weight_pos (Thread.count m) h

theorem total_set_le (hm : m.entered edges = true) (ht : threads[t]? = some th) (hf : Flow th th')
    (hedge : (th.pc, th'.pc) ∉ edges) : total m (threads.set t th') ≤ total m threads := by
  have hset := total_set (m := m) ht th'
  have := (Region.count_le hm hf).resolve_right hedge
  omega

theorem le_total_set (hm : m.left edges = true) (ht : threads[t]? = some th) (hf : Flow th th')
    (hedge : (th.pc, th'.pc) ∉ edges) : total m threads ≤ total m (threads.set t th') := by
  have hset := total_set (m := m) ht th'
  have := (Region.le_count hm hf).resolve_right hedge
  omega

end Total

def Pc.expects : Pc → VmState → Bool
  | .start, state => state != .running
  | .activate, state | .number, state | .create, state | .watch, state | .recover, state => state == .starting
  | .cleanup, state | .tearDown none, state | .dismantle none, state | .vacate none, state => state == .starting
  | .started, state | .claim, state | .idleRecheck, state | .backOut, state => state == .running
  | .commit, state | .leave, state => state == .running
  | .tearDown (some .idle), state | .dismantle (some .idle), state | .vacate (some .idle), state => state == .stopping
  | .endStop, state | .restore, state => state != .running
  | _, _ => true

def Pc.fresh : Pc → Bool
  | .number | .create | .watch | .recover => true
  | _ => false

def Pc.compares : Pc → Bool
  | .notifyStarted | .checkTerminating | .checkGeneration | .record | .announceStarted => true
  | .notifyStopping _ | .retire _ | .announceStopping _ => true
  | _ => false

/-- `Shutdown` has retired the generation, or it is done. -/
def Closed (r : Runtime) : Prop := 0 < total .ended r.threads ∨ r.shared.terminated = true

structure Orderly (r : Runtime) : Prop where
  holding : total .holding r.threads = r.shared.exclusive.toNat
  notifying : Threaded.weight Thread.notifies r.threads = r.shared.notifyLocked.toNat
  active : r.shared.activityCount = r.shared.activityRefs + total .active r.threads
  claiming : total .claiming r.threads ≤ 1
  claimed : 0 < total .claiming r.threads → r.shared.vmExitDisposition = .stopRequested
  requested : r.shared.vmExitDisposition = .stopRequested →
    0 < total .claiming r.threads ∨ r.shared.vmState ≠ .running
  rising : total .rising r.threads ≤ 1
  committed : 0 < total .committed r.threads → total .rising r.threads = 0
  ending : 0 < total .ending r.threads ∨ r.shared.terminated = true →
    r.shared.terminating = true ∧ total .starting r.threads = 0
  closed : Closed r → total .passed r.threads = 0
  alive : 0 < total .announcing r.threads + total .unlocked r.threads → r.shared.vmState = .running ∨ Closed r
  expects : ∀ th ∈ r.threads, th.pc.expects r.shared.vmState = true
  fresh : ∀ th ∈ r.threads, th.pc.fresh = true → r.shared.vmExitDisposition ≠ .stopRequested
  generation : ∀ th ∈ r.threads, th.pc.compares = true → th.generation = r.shared.vmGeneration
  terminating : ∀ th ∈ r.threads, th.pc = .terminateLock → r.shared.terminating = true

section Knows

variable {a : Action} {s : Shared} {th : Thread}

theorem expects_of_not_holding {pc : Pc} (h : Region.holding.pc pc = false) (state : VmState) :
    pc.expects state = true := by
  have hall : ∀ pc ∈ Pc.all, Region.holding.pc pc = false →
      pc.expects .none = true ∧ pc.expects .starting = true ∧ pc.expects .running = true ∧
        pc.expects .stopping = true := by decide
  obtain ⟨hnone, hstarting, hrun, hstopping⟩ := hall pc pc.mem_all h
  cases state <;> assumption

theorem not_holding_of_outside {pc : Pc} (h : pc = .outside ∨ pc ∈ Pc.next .outside) :
    Region.holding.pc pc = false := by
  rcases h with rfl | h
  · rfl
  · have hall : ∀ pc ∈ Pc.next .outside, Region.holding.pc pc = false := by decide
    exact hall pc h

theorem act_expects (h : th.pc.expects s.vmState = true) :
    (act a s th).2.pc.expects (act a s th).1.vmState = true := by
  cases a with
  | call c =>
    rw [act]
    split
    next hpc => exact expects_of_not_holding (not_holding_of_outside (call_pc c hpc)) _
    next => exact h
  | advance ok =>
    obtain ⟨pc, generation, hooks⟩ := th
    cases pc with
    | outside =>
      cases hooks with
      | nil => rfl
      | cons hook hooks => rcases hook with _ | _ | _ <;> cases ok <;> rfl
    | relock stopper =>
      simp only [act, advance]
      split
      · cases stopper <;> rfl
      · rfl
    | vacate stopper | tearDown stopper | dismantle stopper =>
      rcases stopper with _ | _ | _ <;> first | rfl | exact h
    | idleActivity =>
      simp only [act, advance]
      split
      next hguard =>
        simp only [Bool.and_eq_true, decide_eq_true_eq] at hguard
        simp only [Thread.goto, Pc.expects, hguard.1.1, beq_self_eq_true]
      next => rfl
    | stop =>
      simp only [act, advance]
      split
      · rfl
      next hstate => simp [Thread.goto, Pc.expects, hstate]
    | decide =>
      simp only [act, advance]
      split
      · rfl
      next hstate => simp [Thread.goto, Pc.expects, hstate]
    | _ =>
      simp only [act, advance, exchangeDisposition_eq]
      repeat' split
      all_goals first
        | rfl
        | exact h

theorem flow_enters {th th' : Thread} {p : Pc → Bool} {edges : List (Pc × Pc)}
    (hp : Region.entered ⟨p, fun _ => false⟩ edges = true) (hf : Flow th th') (h : p th'.pc = true) :
    p th.pc = true ∨ (th.pc, th'.pc) ∈ edges := by
  rcases Region.count_le hp hf with hle | hedge
  · left
    rw [count_of_hook_false rfl, count_of_hook_false rfl] at hle
    exact toNat_le_toNat hle h
  · exact .inr hedge

theorem act_fresh (h : th.pc.fresh = true → s.vmExitDisposition ≠ .stopRequested)
    (hfresh : (act a s th).2.pc.fresh = true) : (act a s th).1.vmExitDisposition ≠ .stopRequested := by
  have hentered : Region.entered ⟨Pc.fresh, fun _ => false⟩ [(.activate, .number)] = true := by decide
  rcases flow_enters hentered (act_flow a s th) hfresh with hbefore | hedge
  · cases act_disposed s th a with
    | same hsame =>
      rw [hsame]
      exact h hbefore
    | claimed hedge =>
      simp only [claimEdges, mem_cons, Prod.mk.injEq, not_mem_nil, or_false] at hedge
      rcases hedge with ⟨hpc, -⟩ | ⟨hpc, -⟩ <;> rw [hpc] at hbefore <;> cases hbefore
    | returned _ _ _ hactive | reset _ hactive | exited _ _ _ hactive =>
      rw [hactive]
      exact VmExitDisposition.noConfusion
  · obtain ⟨hpc, hpc'⟩ := Prod.mk.inj (mem_singleton.mp hedge)
    obtain ⟨ok, heq⟩ := act_of_moved (by rw [hpc]; exact Pc.noConfusion) (by rw [hpc, hpc']; exact Pc.noConfusion)
    rw [heq, advance, hpc]
    exact VmExitDisposition.noConfusion

theorem act_generation (h : th.pc.compares = true → th.generation = s.vmGeneration)
    (hcmp : (act a s th).2.pc.compares = true) : (act a s th).2.generation =
    (act a s th).1.vmGeneration := by
  cases a with
  | call c =>
    have hall : ∀ pc ∈ .outside :: Pc.next .outside, pc.compares = false := by decide
    rw [act] at hcmp ⊢
    split at hcmp
    next hpc =>
      rw [hall _ (mem_cons.mpr (call_pc c hpc))] at hcmp
      cases hcmp
    next hpc =>
      rw [if_neg hpc]
      exact h hcmp
  | advance ok =>
    obtain ⟨pc, generation, hooks⟩ := th
    cases pc with
    | started | leave | load => rfl
    | notifyStarted | checkTerminating | checkGeneration | record | announceStarted =>
      have := h rfl
      simp only [act, advance]
      repeat' split
      all_goals exact this
    | notifyStopping stopper | retire stopper | announceStopping stopper =>
      have := h rfl
      simp only [act, advance]
      repeat' split
      all_goals exact this
    | outside =>
      cases hooks with
      | nil => cases hcmp
      | cons hook hooks => rcases hook with _ | _ | _ <;> cases ok <;> cases hcmp
    | relock stopper =>
      simp only [act, advance] at hcmp
      split at hcmp
      · cases stopper <;> cases hcmp
      · cases hcmp
    | vacate stopper => rcases stopper with _ | _ | _ <;> cases hcmp
    | _ =>
      simp only [act, advance] at hcmp
      repeat' split at hcmp
      all_goals cases hcmp

end Knows

def after (r : Runtime) (t : Nat) (th : Thread) (a : Action) : Runtime :=
  ⟨(act a r.shared th).1, r.threads.set t (act a r.shared th).2⟩

namespace Orderly

variable {r : Runtime} {t : Nat} {th u : Thread}

theorem holder (hr : Orderly r) (ht : th ∈ r.threads) (hu : u ∈ r.threads)
    (hth : Region.holding.pc th.pc = true)
    (hcount : 0 < u.count .holding) : u = th := by
  apply eq_of_total_le_one _ ht hu (count_pos hth) hcount
  rw [hr.holding]
  exact Bool.toNat_le _

theorem closed_ending (h : Closed r) : 0 < total .ending r.threads ∨ r.shared.terminated = true := by
  rcases h with h | h
  · exact .inl (Nat.lt_of_lt_of_le h (total_mono (by decide) _))
  · exact .inr h

section

variable (hr : Orderly r)
include hr

section

variable (ht : th ∈ r.threads)
include ht

theorem room (hdecide : th.pc = .decide) (hstate : r.shared.vmState ≠ .running) :
    total .announcing r.threads = 0 ∧ total .unlocked r.threads = 0 := by
  by_contra hne
  rcases hr.alive (by omega) with hrun | hclose
  · exact hstate hrun
  · have hzero := (hr.ending (closed_ending hclose)).2
    have hle := count_le_total (m := .starting) ht
    rw [count_of_pc rfl hdecide, hzero] at hle
    exact absurd hle (by decide)

theorem rising_eq_zero (hdecide : th.pc = .decide)
    (hstate : r.shared.vmState ≠ .running) : total .rising r.threads = 0 := by
  by_contra hne
  obtain ⟨u, hu, hcount⟩ := exists_of_total_pos (Nat.pos_of_ne_zero hne)
  have hcov := Region.count_le_of_covered (m := .rising) (show Region.rising.covered .holding .announcing = true by decide) u
  have hannouncing := count_le_total (m := .announcing) hu
  rw [(hr.room ht hdecide hstate).1] at hannouncing
  have heq := hr.holder ht hu (by rw [hdecide]; rfl) (by omega)
  subst heq
  rw [count_of_pc rfl hdecide] at hcount
  exact absurd hcount (by decide)

theorem committed_eq_zero (hdecide : th.pc = .decide)
    (hstate : r.shared.vmState ≠ .running) : total .committed r.threads = 0 := by
  by_contra hne
  obtain ⟨u, hu, hcount⟩ := exists_of_total_pos (Nat.pos_of_ne_zero hne)
  have hcov := Region.count_le_of_covered (m := .committed) (show Region.committed.covered .holding .unlocked = true by decide) u
  have hunlock := count_le_total (m := .unlocked) hu
  rw [(hr.room ht hdecide hstate).2] at hunlock
  have heq := hr.holder ht hu (by rw [hdecide]; rfl) (by omega)
  subst heq
  rw [Thread.count, hdecide] at hcount hunlock
  exact absurd (Nat.lt_of_lt_of_le hcount hunlock) (by decide)

theorem rising_alone (hth : Region.rising.pc th.pc = true) :
    total .committed r.threads = 0 := by
  by_contra hne
  have hzero := hr.committed (Nat.pos_of_ne_zero hne)
  have := Nat.lt_of_lt_of_le (count_pos hth) (count_le_total ht)
  omega

theorem claiming_eq_zero (hpc : th.pc = .activate) :
    total .claiming r.threads = 0 := by
  by_contra hne
  obtain ⟨u, hu, hcount⟩ := exists_of_total_pos (Nat.pos_of_ne_zero hne)
  have hcov := Region.count_le_of_covered (m := .claiming) (show Region.claiming.covered .holding .unlocked = true by decide) u
  have hunlock : u.count .unlocked ≤ total .committed r.threads :=
    Nat.le_trans (count_le_total hu) (total_mono (by decide) _)
  rw [hr.rising_alone ht (by rw [hpc]; rfl)] at hunlock
  have heq := hr.holder ht hu (by rw [hpc]; rfl) (by omega)
  subst heq
  rw [Thread.count, hpc] at hcount hunlock
  exact absurd (Nat.lt_of_lt_of_le hcount hunlock) (by decide)

end

end

section Kept

variable (hr : Orderly r) (ht : r.threads[t]? = some th) (a : Action)
include hr ht

theorem holding_kept : total .holding (after r t th a).threads = (after r t th a).shared.exclusive.toNat := by
  have hset := total_set (m := .holding) ht (act a r.shared th).2
  have hle := count_le_total (m := .holding) (mem_of_getElem? ht)
  rw [hr.holding] at hle
  have hact := act_exclusive a hle
  have := hr.holding
  simp only [after]
  omega

theorem notifying_kept :
    Threaded.weight Thread.notifies (after r t th a).threads = (after r t th a).shared.notifyLocked.toNat := by
  have hset := Threaded.weight_set Thread.notifies ht (act a r.shared th).2
  have hle := Threaded.le_weight Thread.notifies (mem_of_getElem? ht)
  rw [hr.notifying] at hle
  have hact := act_notifies a hle
  have := hr.notifying
  simp only [after]
  omega

theorem active_kept :
    (after r t th a).shared.activityCount =
      (after r t th a).shared.activityRefs + total .active (after r t th a).threads := by
  have hset := total_set (m := .active) ht (act a r.shared th).2
  have hact := act_activity a r.shared th
  have := hr.active
  simp only [after]
  omega

theorem claiming_kept : total .claiming (after r t th a).threads ≤ 1 := by
  have hflow := act_flow a r.shared th
  by_cases hedge : (th.pc, (act a r.shared th).2.pc) ∈ claimEdges
  · have hset := total_set (m := .claiming) ht (act a r.shared th).2
    have hsucc := Region.count_le_succ (m := .claiming) rfl hflow
    have hzero : total .claiming r.threads = 0 := by
      by_contra hne
      have hreq := hr.claimed (Nat.pos_of_ne_zero hne)
      have hactive := ((act_disposed r.shared th a).of_edge hedge).1
      exact absurd (hactive.symm.trans hreq) (by decide)
    simp only [after]
    omega
  · exact Nat.le_trans (total_set_le (by decide) ht hflow hedge) hr.claiming

theorem claiming_returned (hpc : th.pc = .backOut ∨ th.pc = .restore)
    (hpc' : (act a r.shared th).2.pc = .unlock) :
    total .claiming (after r t th a).threads = 0 := by
  have hset := total_set (m := .claiming) ht (act a r.shared th).2
  have hle := hr.claiming
  have hclaims : Region.claiming.pc th.pc = true := by rcases hpc with hpc | hpc <;> rw [hpc] <;> rfl
  have hcount : (act a r.shared th).2.count .claiming < th.count .claiming := by
    cases act_flow a r.shared th with
    | stay hsame =>
      rw [hpc'] at hsame
      rcases hpc with hpc | hpc <;> rw [hpc] at hsame <;> cases hsame
    | next _ hhooks =>
      rw [Thread.count, Thread.count, hhooks, hpc', hclaims]
      exact Nat.add_lt_add_right (by decide) _
    | enter hook hannounce =>
      rcases hpc with hpc | hpc <;> rw [hpc] at hannounce <;> cases hook <;> cases hannounce
    | leave _ _ houtside => rcases hpc with hpc | hpc <;> rw [hpc] at houtside <;> cases houtside
  simp only [after]
  omega

theorem claimed_kept (hpos : 0 < total .claiming (after r t th a).threads) :
    (after r t th a).shared.vmExitDisposition = .stopRequested := by
  have hflow := act_flow a r.shared th
  by_cases hedge : (th.pc, (act a r.shared th).2.pc) ∈ claimEdges
  · exact ((act_disposed r.shared th a).of_edge hedge).2
  · have hbefore := hr.claimed (Nat.lt_of_lt_of_le hpos (total_set_le (by decide) ht hflow hedge))
    cases act_disposed r.shared th a with
    | same hsame => exact hsame.trans hbefore
    | claimed hin => exact absurd hin hedge
    | returned hpc hpc' =>
      have hzero := hr.claiming_returned ht a hpc hpc'
      omega
    | reset hpc =>
      have hzero := hr.claiming_eq_zero (mem_of_getElem? ht) hpc
      have hle := total_set_le (m := .claiming) (show Region.claiming.entered claimEdges = true by decide) ht hflow hedge
      simp only [after] at hpos
      omega
    | exited _ _ hactive => exact absurd (hactive.symm.trans hbefore) (by decide)

theorem requested_kept (hrequested : (after r t th a).shared.vmExitDisposition = .stopRequested) :
    0 < total .claiming (after r t th a).threads ∨ (after r t th a).shared.vmState ≠ .running := by
  have hmem := mem_of_getElem? ht
  have hflow := act_flow a r.shared th
  by_cases hedge : (th.pc, (act a r.shared th).2.pc) ∈ claimEdges
  · left
    have hset := total_set (m := .claiming) ht (act a r.shared th).2
    have hle := count_le_total (m := .claiming) hmem
    have hpos : 0 < (act a r.shared th).2.count .claiming := by
      apply count_pos
      simp only [claimEdges, mem_cons, Prod.mk.injEq, not_mem_nil, or_false] at hedge
      rcases hedge with ⟨-, hpc⟩ | ⟨-, hpc⟩ <;> rw [hpc] <;> rfl
    simp only [after]
    omega
  · have hbefore : r.shared.vmExitDisposition = .stopRequested := by
      cases act_disposed r.shared th a with
      | same hsame => exact hsame.symm.trans hrequested
      | claimed hin => exact absurd hin hedge
      | returned _ _ hreq => exact hreq
      | reset _ hactive => exact absurd (hactive.symm.trans hrequested) (by decide)
      | exited _ _ _ hclaimed => exact absurd (hclaimed.symm.trans hrequested) (by decide)
    cases act_restated a r.shared th with
    | start _ hstate => exact .inr (by simp only [after, hstate]; exact VmState.noConfusion)
    | stop _ _ hstate => exact .inr (by simp only [after, hstate]; exact VmState.noConfusion)
    | vacate _ _ _ hstate => exact .inr (by simp only [after, hstate]; exact VmState.noConfusion)
    | recover hpc => exact absurd hbefore (hr.fresh th hmem (by rw [hpc]; rfl))
    | same hstate =>
      rcases hr.requested hbefore with hpos | hne
      · by_cases hleft : (th.pc, (act a r.shared th).2.pc) ∈
            [(.backOut, .unlock), (.restore, .unlock), (.vacate none, .abandon)]
        · simp only [mem_cons, Prod.mk.injEq, not_mem_nil, or_false] at hleft
          rcases hleft with ⟨hpc, hpc'⟩ | ⟨hpc, hpc'⟩ | ⟨hpc, hpc'⟩
          · exact absurd hrequested (returned_disposition (.inl hpc) hpc')
          · exact absurd hrequested (returned_disposition (.inr hpc) hpc')
          · right
            have hexpects := hr.expects th hmem
            rw [hpc] at hexpects
            simp only [after, hstate, beq_iff_eq.mp hexpects]
            exact VmState.noConfusion
        · exact .inl (Nat.lt_of_lt_of_le hpos (le_total_set (by decide) ht hflow hleft))
      · right
        simp only [after, hstate]
        exact hne

theorem rising_kept : total .rising (after r t th a).threads ≤ 1 := by
  have hmem := mem_of_getElem? ht
  have hflow := act_flow a r.shared th
  by_cases hedge : (th.pc, (act a r.shared th).2.pc) ∈ [(.decide, .start)]
  · obtain ⟨hpc, hpc'⟩ := Prod.mk.inj (mem_singleton.mp hedge)
    have hset := total_set (m := .rising) ht (act a r.shared th).2
    have hsucc := Region.count_le_succ (m := .rising) rfl hflow
    have hzero := hr.rising_eq_zero hmem hpc (decide_start hpc hpc')
    simp only [after]
    omega
  · exact Nat.le_trans (total_set_le (by decide) ht hflow hedge) hr.rising

theorem committed_kept (hpos : 0 < total .committed (after r t th a).threads) :
    total .rising (after r t th a).threads = 0 := by
  have hmem := mem_of_getElem? ht
  have hflow := act_flow a r.shared th
  by_cases hcommit : (th.pc, (act a r.shared th).2.pc) ∈ [(.idleRecheck, .commit)]
  · obtain ⟨hpc, hpc'⟩ := Prod.mk.inj (mem_singleton.mp hcommit)
    have hactive : total .active r.threads = 0 := by
      have := hr.active
      have := recheck_commit hpc hpc'
      omega
    have hrising : total .rising r.threads ≤ total .active r.threads := total_mono (by decide) _
    have hle : total .rising (after r t th a).threads ≤ total .rising r.threads := by
      apply total_set_le (show Region.rising.entered [(.decide, .start)] = true by decide) ht hflow
      rw [hpc]
      simp
    omega
  · have hbefore := Nat.lt_of_lt_of_le hpos (total_set_le (by decide) ht hflow hcommit)
    by_cases hedge : (th.pc, (act a r.shared th).2.pc) ∈ [(.decide, .start)]
    · obtain ⟨hpc, hpc'⟩ := Prod.mk.inj (mem_singleton.mp hedge)
      have := hr.committed_eq_zero hmem hpc (decide_start hpc hpc')
      omega
    · have hle : total .rising (after r t th a).threads ≤ total .rising r.threads :=
        total_set_le (by decide) ht hflow hedge
      have := hr.committed hbefore
      omega

omit hr in
theorem ending_before (hedge : (th.pc, (act a r.shared th).2.pc) ∉ [(.terminateLock, .dropLock)])
    (h : 0 < total .ending (after r t th a).threads ∨ (after r t th a).shared.terminated = true) :
    0 < total .ending r.threads ∨ r.shared.terminated = true := by
  rcases h with hpos | hterm
  · exact .inl (Nat.lt_of_lt_of_le hpos (total_set_le (by decide) ht (act_flow a r.shared th) hedge))
  · rcases (act_frame r.shared th a).terminated with hsame | hpc
    · right
      rw [← hsame]
      exact hterm
    · left
      exact Nat.lt_of_lt_of_le (count_pos (by rw [hpc]; rfl)) (count_le_total (mem_of_getElem? ht))

theorem ending_kept (h : 0 < total .ending (after r t th a).threads ∨ (after r t th a).shared.terminated = true) :
    (after r t th a).shared.terminating = true ∧ total .starting (after r t th a).threads = 0 := by
  have hmem := mem_of_getElem? ht
  have hflow := act_flow a r.shared th
  have hstarting : (th.pc, (act a r.shared th).2.pc) ∉ [(.recheck, .decide)] →
      total .starting (after r t th a).threads ≤ total .starting r.threads :=
    total_set_le (by decide) ht hflow
  by_cases hedge : (th.pc, (act a r.shared th).2.pc) ∈ [(.terminateLock, .dropLock)]
  · obtain ⟨hpc, hpc'⟩ := Prod.mk.inj (mem_singleton.mp hedge)
    have hfree : total .holding r.threads = 0 := by
      rw [hr.holding, terminate_locked hpc hpc']
      rfl
    have hholding : total .starting r.threads ≤ total .holding r.threads := total_mono (by decide) _
    have hle := hstarting (by rw [hpc]; simp)
    exact ⟨act_terminating (hr.terminating th hmem hpc), by omega⟩
  · obtain ⟨hterm, hzero⟩ := hr.ending (ending_before ht a hedge h)
    refine ⟨act_terminating hterm, ?_⟩
    by_cases hdecide : (th.pc, (act a r.shared th).2.pc) ∈ [(.recheck, .decide)]
    · obtain ⟨hpc, hpc'⟩ := Prod.mk.inj (mem_singleton.mp hdecide)
      rw [recheck_decide hpc hpc'] at hterm
      cases hterm
    · have := hstarting hdecide
      omega

theorem notifier {u : Thread} (hu : u ∈ r.threads) (hth : th.pc.notifies = true)
    (hcount : u.pc.notifies = true) :
    u = th := by
  by_contra hne
  have hpair := Threaded.weight_pair Thread.notifies (mem_of_getElem? ht) hu (Ne.symm hne)
  have hle := Bool.toNat_le r.shared.notifyLocked
  rw [hr.notifying, Thread.notifies, Thread.notifies, hth, hcount] at hpair
  simp only [Bool.true_or, Bool.toNat_true] at hpair
  omega

theorem passed_eq_zero (hpc : th.pc = .retire .shutdown) : total .passed r.threads = 0 := by
  by_contra hne
  obtain ⟨u, hu, hcount⟩ := exists_of_total_pos (Nat.pos_of_ne_zero hne)
  rw [count_of_hook_false rfl] at hcount
  have hpassed : Region.passed.pc u.pc = true := by
    cases hp : Region.passed.pc u.pc with
    | true => rfl
    | false => rw [hp] at hcount; exact absurd hcount (by decide)
  have hall : ∀ pc ∈ Pc.all, Region.passed.pc pc = true → pc.notifies = true := by decide
  have heq := hr.notifier ht hu (by rw [hpc]; rfl) (hall u.pc u.pc.mem_all hpassed)
  rw [heq, hpc] at hpassed
  cases hpassed

theorem closed_kept (h : Closed (after r t th a)) : total .passed (after r t th a).threads = 0 := by
  have hflow := act_flow a r.shared th
  have hpassed : (th.pc, (act a r.shared th).2.pc) ∉ [(.checkTerminating, .checkGeneration)] →
      total .passed (after r t th a).threads ≤ total .passed r.threads :=
    total_set_le (by decide) ht hflow
  by_cases hedge : (th.pc, (act a r.shared th).2.pc) ∈
      [(.retire .shutdown, .announceStopping .shutdown), (.retire .shutdown, .relock .shutdown)]
  · have hpc : th.pc = .retire .shutdown := by
      simp only [mem_cons, Prod.mk.injEq, not_mem_nil, or_false] at hedge
      rcases hedge with ⟨hpc, -⟩ | ⟨hpc, -⟩ <;> exact hpc
    have hzero := hr.passed_eq_zero ht hpc
    have hle := hpassed (by rw [hpc]; simp)
    omega
  · have hbefore : Closed r := by
      rcases h with hpos | hterminated
      · exact .inl (Nat.lt_of_lt_of_le hpos (total_set_le (by decide) ht hflow hedge))
      · rcases (act_frame r.shared th a).terminated with hsame | hpc
        · right
          rw [← hsame]
          exact hterminated
        · left
          exact Nat.lt_of_lt_of_le (count_pos (by rw [hpc]; rfl)) (count_le_total (mem_of_getElem? ht))
    have hzero := hr.closed hbefore
    by_cases hcheck : (th.pc, (act a r.shared th).2.pc) ∈ [(.checkTerminating, .checkGeneration)]
    · obtain ⟨hpc, hpc'⟩ := Prod.mk.inj (mem_singleton.mp hcheck)
      have hterm := (hr.ending (closed_ending hbefore)).1
      rw [check_passed hpc hpc'] at hterm
      cases hterm
    · have := hpassed hcheck
      omega

omit hr in
theorem closed_mono (h : Closed r) : Closed (after r t th a) := by
  rcases h with hpos | hterm
  · by_cases hedge : (th.pc, (act a r.shared th).2.pc) ∈ [(.signal, .unlock)]
    · obtain ⟨hpc, hpc'⟩ := Prod.mk.inj (mem_singleton.mp hedge)
      exact .inr (signal_terminated hpc hpc')
    · exact .inl (Nat.lt_of_lt_of_le hpos (le_total_set (by decide) ht (act_flow a r.shared th) hedge))
  · exact .inr (act_terminated hterm)

theorem stop_alone (hpc : th.pc = .stop) : total .announcing r.threads = 0 ∧ total .unlocked r.threads = 0 := by
  have hmem := mem_of_getElem? ht
  constructor
  · have hrising := hr.committed (Nat.lt_of_lt_of_le (count_pos (by rw [hpc]; rfl)) (count_le_total hmem))
    have hle : total .announcing r.threads ≤ total .rising r.threads := total_mono (by decide) _
    omega
  · by_contra hne
    obtain ⟨u, hu, hcount⟩ := exists_of_total_pos (Nat.pos_of_ne_zero hne)
    have hclaims : u.count .unlocked ≤ u.count .claiming := Region.count_le_of_within (by decide) u
    have heq := eq_of_total_le_one hr.claiming hmem hu (count_pos (by rw [hpc]; rfl)) (by omega)
    subst heq
    have hle := Nat.le_trans (count_le_total hmem) hr.claiming
    rw [Thread.count, hpc] at hcount hle
    have hclaiming : (Region.claiming.pc .stop).toNat = 1 := rfl
    have hunlock : (Region.unlocked.pc .stop).toNat = 0 := rfl
    have hhook : Region.claiming.hook = Region.unlocked.hook := rfl
    rw [hhook] at hle
    omega

theorem alive_kept (h : 0 < total .announcing (after r t th a).threads + total .unlocked (after r t th a).threads) :
    (after r t th a).shared.vmState = .running ∨ Closed (after r t th a) := by
  have hmem := mem_of_getElem? ht
  have hflow := act_flow a r.shared th
  have hexpects := hr.expects th hmem
  by_cases hedge : (th.pc, (act a r.shared th).2.pc) ∈ [(.started, .notifyStarted), (.leave, .notifyStopping .idle)]
  · left
    simp only [mem_cons, Prod.mk.injEq, not_mem_nil, or_false] at hedge
    have hrun : r.shared.vmState = .running := by
      rcases hedge with ⟨hpc, -⟩ | ⟨hpc, -⟩ <;> rw [hpc] at hexpects <;> exact beq_iff_eq.mp hexpects
    cases act_restated a r.shared th with
    | same hsame => exact hsame.trans hrun
    | start hpc | recover hpc | stop hpc | vacate _ hpc =>
      rcases hedge with ⟨hpc', -⟩ | ⟨hpc', -⟩ <;> rw [hpc] at hpc' <;> cases hpc'
  · simp only [mem_cons, not_mem_nil, or_false, not_or] at hedge
    have hannouncing : total .announcing (after r t th a).threads ≤ total .announcing r.threads :=
      total_set_le (show Region.announcing.entered [(.started, .notifyStarted)] = true by decide) ht hflow
        (by rw [mem_singleton]; exact hedge.1)
    have hunlock : total .unlocked (after r t th a).threads ≤ total .unlocked r.threads :=
      total_set_le (show Region.unlocked.entered [(.leave, .notifyStopping .idle)] = true by decide) ht hflow
        (by rw [mem_singleton]; exact hedge.2)
    rcases hr.alive (by omega) with hrun | hclose
    · cases act_restated a r.shared th with
      | same hsame => exact .inl (hsame.trans hrun)
      | recover _ _ hstate => exact .inl hstate
      | start hpc =>
        rw [hpc, hrun] at hexpects
        cases hexpects
      | stop hpc =>
        have := hr.stop_alone ht hpc
        omega
      | vacate stopper hpc hpc' =>
        rcases stopper with _ | _ | _
        · rw [hpc, hrun] at hexpects
          cases hexpects
        · rw [hpc, hrun] at hexpects
          cases hexpects
        · right
          left
          have hset := total_set (m := .ended) ht (act a r.shared th).2
          have hle := count_le_total (m := .ended) hmem
          have hpos : 0 < (act a r.shared th).2.count .ended := count_pos (by rw [hpc']; rfl)
          simp only [after]
          omega
    · exact .inr (closed_mono ht a hclose)

theorem other_not_holding {i : Nat} (hth : Region.holding.pc th.pc = true) (hu : r.threads[i]? = some u)
    (hne : i ≠ t) : Region.holding.pc u.pc = false := by
  apply not_in_of_total_le_one _ ht hu hne hth
  rw [hr.holding]
  exact Bool.toNat_le _

theorem other_not_notifying {i : Nat} (hth : th.pc.notifies = true) (hu : r.threads[i]? = some u)
    (hne : i ≠ t) :
    u.pc.notifies = false := by
  have hle := Threaded.add_le_weight Thread.notifies ht hu (Ne.symm hne)
  have hone := Bool.toNat_le r.shared.notifyLocked
  rw [hr.notifying, Thread.notifies, Thread.notifies, hth] at hle
  rw [← Bool.not_eq_true]
  intro hnotifies
  rw [hnotifies] at hle
  simp only [Bool.true_or, Bool.toNat_true] at hle
  omega

theorem expects_kept : ∀ u ∈ (after r t th a).threads, u.pc.expects (after r t th a).shared.vmState = true := by
  intro u hu
  have hmem := mem_of_getElem? ht
  rcases Threaded.of_mem_set hu with rfl | ⟨i, hne, hi⟩
  · exact act_expects (hr.expects th hmem)
  · cases act_restated a r.shared th with
    | same hsame =>
      simp only [after, hsame]
      exact hr.expects u (mem_of_getElem? hi)
    | start hpc | recover hpc | stop hpc | vacate _ hpc =>
      apply expects_of_not_holding
      apply hr.other_not_holding ht _ hi hne
      rw [hpc]
      rfl

theorem fresh_kept : ∀ u ∈ (after r t th a).threads, u.pc.fresh = true →
    (after r t th a).shared.vmExitDisposition ≠ .stopRequested := by
  intro u hu hfresh
  have hmem := mem_of_getElem? ht
  rcases Threaded.of_mem_set hu with rfl | ⟨i, hne, hi⟩
  · exact act_fresh (hr.fresh th hmem) hfresh
  · cases act_disposed r.shared th a with
    | same hsame =>
      simp only [after, hsame]
      exact hr.fresh u (mem_of_getElem? hi) hfresh
    | claimed hedge =>
      have hth : Region.holding.pc th.pc = true := by
        simp only [claimEdges, mem_cons, Prod.mk.injEq, not_mem_nil, or_false] at hedge
        rcases hedge with ⟨hpc, -⟩ | ⟨hpc, -⟩ <;> rw [hpc] <;> rfl
      have hall : ∀ pc ∈ Pc.all, pc.fresh = true → Region.holding.pc pc = true := by decide
      have hholding := hall u.pc u.pc.mem_all hfresh
      rw [hr.other_not_holding ht hth hi hne] at hholding
      cases hholding
    | returned _ _ _ hactive | reset _ hactive | exited _ _ _ hactive =>
      simp only [after, hactive]
      exact VmExitDisposition.noConfusion

theorem compares_number {i : Nat} (hpc : th.pc = .number) (hu : r.threads[i]? = some u) (hne : i ≠ t) :
    u.pc.compares = false := by
  have hmem := mem_of_getElem? ht
  have hall : ∀ pc ∈ Pc.all, pc.compares = true →
      Region.rising.pc pc = true ∨ Region.committed.pc pc = true ∨ Region.ending.pc pc = true := by decide
  have hrises : Region.rising.pc th.pc = true := by rw [hpc]; rfl
  rw [← Bool.not_eq_true]
  intro hcmp
  rcases hall u.pc u.pc.mem_all hcmp with hrising | hcommitted | hending
  · rw [not_in_of_total_le_one hr.rising ht hu hne hrises] at hrising
    cases hrising
  · have hzero := hr.rising_alone hmem hrises
    have := Nat.lt_of_lt_of_le (count_pos hcommitted) (count_le_total (mem_of_getElem? hu))
    omega
  · have hpos := Nat.lt_of_lt_of_le (count_pos hending) (count_le_total (mem_of_getElem? hu))
    have hzero := (hr.ending (.inl hpos)).2
    have hstarting : 0 < total .starting r.threads :=
      Nat.lt_of_lt_of_le (count_pos (by rw [hpc]; rfl)) (count_le_total hmem)
    omega

theorem generation_kept : ∀ u ∈ (after r t th a).threads, u.pc.compares = true →
    u.generation = (after r t th a).shared.vmGeneration := by
  intro u hu hcmp
  rcases Threaded.of_mem_set hu with rfl | ⟨i, hne, hi⟩
  · exact act_generation (hr.generation th (mem_of_getElem? ht)) hcmp
  · rcases (act_frame r.shared th a).generation with hsame | hpc
    · simp only [after, hsame]
      exact hr.generation u (mem_of_getElem? hi) hcmp
    · rw [hr.compares_number ht hpc hi hne] at hcmp
      cases hcmp

theorem terminating_kept : ∀ u ∈ (after r t th a).threads, u.pc = .terminateLock →
    (after r t th a).shared.terminating = true := by
  intro u hu hpc
  rcases Threaded.of_mem_set hu with rfl | ⟨i, -, hi⟩
  · exact exchange_terminating (hr.terminating th (mem_of_getElem? ht)) hpc
  · exact act_terminating (hr.terminating u (mem_of_getElem? hi) hpc)

theorem kept : Orderly (after r t th a) where
  holding := hr.holding_kept ht a
  notifying := hr.notifying_kept ht a
  active := hr.active_kept ht a
  claiming := hr.claiming_kept ht a
  claimed := hr.claimed_kept ht a
  requested := hr.requested_kept ht a
  rising := hr.rising_kept ht a
  committed := hr.committed_kept ht a
  ending := hr.ending_kept ht a
  closed := hr.closed_kept ht a
  alive := hr.alive_kept ht a
  expects := hr.expects_kept ht a
  fresh := hr.fresh_kept ht a
  generation := hr.generation_kept ht a
  terminating := hr.terminating_kept ht a

end Kept

theorem total_spawn {m : Region} (hm : m.pc .outside = false) (threads : List Thread) :
    total m (threads ++ [({} : Thread)]) = total m threads := by
  have hcount : Thread.count m {} = 0 := by rw [Thread.count, hm]; rfl
  rw [total, total, Threaded.weight_append, hcount]
  rfl

theorem mem_spawn {u : Thread} (hu : u ∈ r.threads ++ [({} : Thread)]) : u ∈ r.threads ∨ u = ({} : Thread) :=
  (mem_append.mp hu).imp_right mem_singleton.mp

theorem spawn (hr : Orderly r) : Orderly { r with threads := r.threads ++ [{}] } := by
  have hspawn : ∀ m : Region, m.pc .outside = false → total m (r.threads ++ [({} : Thread)]) = total m r.threads :=
    fun m hm => total_spawn hm r.threads
  constructor
  case holding => rw [hspawn _ rfl]; exact hr.holding
  case notifying => rw [Threaded.weight_append]; exact hr.notifying
  case active => rw [hspawn _ rfl]; exact hr.active
  case claiming => rw [hspawn _ rfl]; exact hr.claiming
  case claimed => rw [hspawn _ rfl]; exact hr.claimed
  case requested => rw [hspawn _ rfl]; exact hr.requested
  case rising => rw [hspawn _ rfl]; exact hr.rising
  case committed => rw [hspawn _ rfl, hspawn _ rfl]; exact hr.committed
  case ending => rw [hspawn _ rfl, hspawn _ rfl]; exact hr.ending
  case closed => rw [Closed, hspawn _ rfl, hspawn _ rfl]; exact hr.closed
  case alive => rw [Closed, hspawn _ rfl, hspawn _ rfl, hspawn _ rfl]; exact hr.alive
  case expects =>
    intro u hu
    rcases mem_spawn hu with hu | rfl
    · exact hr.expects u hu
    · rfl
  case fresh =>
    intro u hu hfresh
    rcases mem_spawn hu with hu | rfl
    · exact hr.fresh u hu hfresh
    · cases hfresh
  case generation =>
    intro u hu hcmp
    rcases mem_spawn hu with hu | rfl
    · exact hr.generation u hu hcmp
    · cases hcmp
  case terminating =>
    intro u hu hpc
    rcases mem_spawn hu with hu | rfl
    · exact hr.terminating u hu hpc
    · cases hpc

theorem step (hr : Orderly r) (op : Op) : Orderly (Wslc.step op r) := by
  apply Threaded.step_cases hr
  · intro _ _
    exact hr.spawn
  · intro t a th _ ht
    exact hr.kept ht a

theorem initial (idleTerminationEnabled : Bool) : Orderly (Wslc.initial idleTerminationEnabled) := by
  constructor
  case requested => intro h; cases h
  case ending => rintro (h | h) <;> cases h
  case closed => rintro (h | h) <;> cases h
  case expects | fresh | generation | terminating => intro u hu; cases hu
  case alive | claimed | committed => intro h; cases h
  case holding | notifying | active | claiming | rising => first | rfl | exact Nat.zero_le _

theorem run (ops : List Op) (idleTerminationEnabled : Bool) :
    Orderly (runSteps Wslc.step ops (Wslc.initial idleTerminationEnabled)) := by
  apply inv_runSteps_of_step _ (Orderly.initial idleTerminationEnabled)
  intro op r hr
  exact hr.step op

end Orderly

end WslPlus.Wslc

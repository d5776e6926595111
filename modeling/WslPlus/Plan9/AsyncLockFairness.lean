import WslPlus.Lib.LeadsTo
import WslPlus.Plan9.AsyncLock

/-!
# Waiting for the lock

A waiter gets the lock after those that were put on the list before it. The owner of the
lock reaches the first waiter in finitely many of its own steps: no other task moves the
owner or the waiters, and the list that is reversed gets shorter.
-/

namespace WslPlus.Plan9

open List

variable {τ : Type}

def LockPc.unlocks : LockPc τ → Bool
  | .idle | .suspending _ | .waiting | .holding => false
  | .releasing | .stealing | .reversing _ _ | .waking | .scheduling _ => true

namespace AsyncLock

def Op.task : Op τ → τ
  | .suspend task | .attempt task _ | .tryLock task | .unlock task | .advance task => task

def helper (task : τ) (pc : LockPc τ) : Op τ := if pc.unlocks then .advance task else .unlock task

variable [DecidableEq τ] {s s' : AsyncLock τ} {task t : τ} {op : Op τ} {pc : LockPc τ}

/-- What a step of another task leaves as it is while `t` owns the lock. -/
structure Frame (s s' : AsyncLock τ) (t : τ) : Prop where
  pc : s'.pc t = s.pc t
  handed : s'.handed = s.handed
  enqueued : s.enqueued <+: s'.enqueued
  next : ∀ u, s.pc u = .waiting → s'.next u = s.next u

omit [DecidableEq τ] in
theorem Frame.refl (s : AsyncLock τ) (t : τ) : Frame s s t := ⟨rfl, rfl, prefix_rfl, fun _ _ => rfl⟩

theorem Frame.setPc (hne : t ≠ task) (pc : LockPc τ) : Frame s (s.setPc task pc) t :=
  ⟨setPc_pc_of_ne hne, rfl, prefix_rfl, fun _ _ => rfl⟩

theorem frame_attempt (hne : t ≠ task) {seen : LockState τ} (hpc : s.pc task = .suspending seen)
    (spurious : Bool) :
    Frame s (s.attempt task seen spurious) t := by
  have hnext (u : τ) (hu : s.pc u = .waiting) : Function.update s.next task seen.link u = s.next u := by
    apply Function.update_of_ne
    rintro rfl
    rw [hpc] at hu
    cases hu
  rw [AsyncLock.attempt]
  split
  · split
    · exact ⟨setPc_pc_of_ne hne, rfl, prefix_rfl, fun _ _ => rfl⟩
    · exact Frame.setPc hne _
  · dsimp only
    split
    · exact ⟨setPc_pc_of_ne hne, rfl, prefix_append _ _, hnext⟩
    · exact ⟨setPc_pc_of_ne hne, rfl, prefix_rfl, hnext⟩

theorem advance_of_not_owns (h : (s.pc task).owns = false) : s.advance task = s := by
  rw [AsyncLock.advance]
  split <;> first | rfl | (rename_i hpc; rw [hpc] at h; cases h)

theorem frame_step (h : s.Sound) (howns : (s.pc t).owns = true) (hop : op.task ≠ t) :
    Frame s (step op s) t := by
  obtain ⟨owner, front, fresh, h⟩ := h
  have hother : (s.pc op.task).owns = false := by
    cases hcase : (s.pc op.task).owns with
    | false => rfl
    | true => exact absurd (h.owner_unique hcase howns) hop
  cases op with
  | suspend task =>
    simp only [AsyncLock.step]
    split
    · exact ⟨setPc_pc_of_ne (Ne.symm hop), rfl, prefix_rfl, fun _ _ => rfl⟩
    · exact .refl s t
  | attempt task spurious =>
    simp only [AsyncLock.step]
    split
    · rename_i seen hpc
      exact frame_attempt (Ne.symm hop) hpc spurious
    · exact .refl s t
  | tryLock task =>
    simp only [AsyncLock.step, AsyncLock.tryLock]
    split
    · split
      · exact ⟨setPc_pc_of_ne (Ne.symm hop), rfl, prefix_rfl, fun _ _ => rfl⟩
      · exact .refl s t
    · exact .refl s t
  | unlock task =>
    simp only [AsyncLock.step]
    split
    · rename_i hpc
      rw [Op.task, hpc] at hother
      cases hother
    · exact .refl s t
  | advance task =>
    have hstay : s.advance task = s := advance_of_not_owns hother
    rw [AsyncLock.step, hstay]
    exact .refl s t

theorem step_of_ne_helper (howns : (s.pc t).owns = true) (hop : op.task = t) (hne : op ≠ helper t (s.pc t)) :
    step op s = s := by
  subst hop
  cases op with
  | suspend task =>
    simp only [AsyncLock.step]
    split
    · rename_i hpc
      rw [Op.task, hpc] at howns
      cases howns
    · rfl
  | attempt task spurious =>
    simp only [AsyncLock.step]
    split
    · rename_i seen hpc
      rw [Op.task, hpc] at howns
      cases howns
    · rfl
  | tryLock task =>
    simp only [AsyncLock.step]
    split
    · rename_i hpc
      rw [Op.task, hpc] at howns
      cases howns
    · rfl
  | unlock task =>
    simp only [AsyncLock.step]
    split
    · rename_i hpc
      exact absurd (by rw [Op.task, hpc]; rfl) hne
    · rfl
  | advance task =>
    rw [AsyncLock.step, AsyncLock.advance]
    split <;> first | rfl | (rename_i hpc; exact absurd (by rw [Op.task, hpc]; rfl) hne)

/-- Every holder unlocks, and a task in `Unlock` takes its next step. -/
structure Fair (op : Nat → Op τ) : Prop where
  unlocks : ∀ t, Eventually step op {} (fun s => s.pc t = .holding) (· = .unlock t)
  proceeds : ∀ t, Eventually step op {} (fun s => (s.pc t).unlocks = true) (· = .advance t)

theorem Fair.helper {ops : Nat → Op τ} (hfair : Fair ops) (howns : pc.owns = true) :
    Eventually step ops {} (fun s => s.pc t = pc) (· = helper t pc) := by
  cases hpc : pc.unlocks with
  | false =>
    have hholding : pc = .holding := by
      cases pc <;> first | rfl | cases howns; done | cases hpc
    rw [AsyncLock.helper, hpc, hholding]
    exact hfair.unlocks t
  | true =>
    intro n hn
    have hunlocks : ((trace step ops {} n).pc t).unlocks = true := by rw [hn, hpc]
    rw [AsyncLock.helper, hpc]
    exact hfair.proceeds t n hunlocks

/-- An owner stands at a place in the code, with a waiter before which so many have got the lock. -/
structure Active (t : τ) (pc : LockPc τ) (n count : Nat) (s : AsyncLock τ) : Prop where
  pc : s.pc t = pc
  handed : s.handed.length = count
  enqueued : n < s.enqueued.length
  ahead : count ≤ n

omit [DecidableEq τ] in
theorem Active.frame {n count : Nat} (h : Active t pc n count s) (hframe : Frame s s' t) :
    Active t pc n count s' :=
  ⟨hframe.pc.trans h.pc, by rw [hframe.handed]; exact h.handed, Nat.lt_of_lt_of_le h.enqueued hframe.enqueued.length_le,
    h.ahead⟩

section Leads

variable {ops : Nat → Op τ} {n count : Nat}

theorem sound_trace (ops : Nat → Op τ) (m : Nat) : (trace step ops {} m).Sound :=
  inv_trace (fun op _ h => h.step op) Sound.initial m

theorem leads_of_helper (hfair : Fair ops) (howns : pc.owns = true) {P Q : AsyncLock τ → Prop}
    (hP : ∀ s, P s → Active t pc n count s) (hkeep : ∀ s s', s.Sound → P s → Frame s s' t → P s')
    (hhelp : ∀ s, s.Sound → P s → Q (step (helper t pc) s)) : LeadsTo step ops {} P Q := by
  have heventually : Eventually step ops {} P (· = helper t pc) :=
    fun m hm => hfair.helper howns m (hP _ hm).pc
  refine LeadsTo.of_helpful (sound_trace ops) heventually ?_ ?_
  · intro op s hsound hs
    have hpc := (hP s hs).pc
    by_cases hop : op.task = t
    · by_cases hhelper : op = helper t pc
      · exact .inr (hhelper ▸ hhelp s hsound hs)
      · left
        rw [step_of_ne_helper (by rw [hpc]; exact howns) hop (by rw [hpc]; exact hhelper)]
        exact hs
    · exact .inl (hkeep s _ hsound hs (frame_step hsound (by rw [hpc]; exact howns) hop))
  · rintro op s hsound rfl hs
    exact hhelp s hsound hs

theorem leads_of_active (hfair : Fair ops) (howns : pc.owns = true) {Q : AsyncLock τ → Prop}
    (hhelp : ∀ s front fresh, s.Queues (some t) front fresh → Active t pc n count s → Q (step (helper t pc) s)) :
    LeadsTo step ops {} (Active t pc n count) Q := by
  refine leads_of_helper hfair howns (fun _ h => h) (fun _ _ _ h hframe => h.frame hframe) ?_
  rintro s ⟨owner, front, fresh, hsound⟩ h
  obtain rfl := hsound.owner_eq h.pc howns
  exact hhelp s front fresh hsound h

def Handed (n count : Nat) (s : AsyncLock τ) : Prop := n < s.enqueued.length ∧ count < s.handed.length

theorem leads_scheduling (hfair : Fair ops) (head : τ) :
    LeadsTo step ops {} (Active t (.scheduling head) n count) (Handed n count) := by
  refine leads_of_active hfair rfl fun s front fresh hsound h => ?_
  change Handed n count (s.advance t)
  simp only [AsyncLock.advance, h.pc, hsound.schedule_eq h.pc]
  refine ⟨h.enqueued, ?_⟩
  simp only [length_append, length_singleton, h.handed]
  exact Nat.lt_succ_self count

theorem leads_waking (hfair : Fair ops) : LeadsTo step ops {} (Active t .waking n count) (Handed n count) := by
  refine LeadsTo.trans ?_ (LeadsTo.of_exists (leads_scheduling (t := t) hfair))
  refine leads_of_active hfair rfl fun s front fresh hsound h => ?_
  obtain ⟨head, hwake, -⟩ := hsound.wake h.pc
  refine ⟨head, ?_⟩
  change Active t (.scheduling head) n count (s.advance t)
  simp only [AsyncLock.advance, h.pc, hwake]
  exact ⟨setPc_pc_self, h.handed, h.enqueued, h.ahead⟩

/-- The owner reverses the list, with `old` still to be gone through. -/
structure Reversing (t : τ) (n count : Nat) (current previous : Option τ) (old : List τ)
    (s : AsyncLock τ) : Prop
    extends Active t (.reversing current previous) n count s where
  old : Linked s.next current old

def Reverses (t : τ) (n count size : Nat) (s : AsyncLock τ) : Prop :=
  ∃ current previous old, old.length = size ∧ Reversing t n count current previous old s

omit [DecidableEq τ] in
theorem Reversing.frame {current previous : Option τ} {old : List τ} (hsound : s.Sound)
    (h : Reversing t n count current previous old s) (hframe : Frame s s' t) :
    Reversing t n count current previous old s' := by
  obtain ⟨owner, front, fresh, hsound⟩ := hsound
  obtain rfl := hsound.owner_eq h.pc rfl
  refine ⟨h.toActive.frame hframe, h.old.congr ?_⟩
  intro u hu
  have htaken := hsound.taken t rfl
  rw [h.pc] at htaken
  obtain ⟨-, -, old', done, rfl, hold, -⟩ := htaken
  obtain rfl := hold.unique h.old
  apply hframe.next u
  rw [← hsound.waiting u]
  simp [hu]

theorem leads_reversing (hfair : Fair ops) (size : Nat) :
    LeadsTo step ops {} (Reverses t n count size) (Active t .waking n count) := by
  refine LeadsTo.of_measure (A := Reverses t n count) (fun size => ?_) size
  refine LeadsTo.of_exists fun current => LeadsTo.of_exists fun previous => LeadsTo.of_exists fun old => ?_
  refine leads_of_helper hfair rfl (fun _ h => h.2.toActive)
    (fun _ _ hsound h hframe => ⟨h.1, h.2.frame hsound hframe⟩) ?_
  rintro s ⟨owner, front, fresh, hsound⟩ ⟨rfl, h⟩
  obtain rfl := hsound.owner_eq h.pc rfl
  have hstep : step (helper t (.reversing current previous)) s = s.reverse t current previous := by
    change s.advance t = _
    simp only [AsyncLock.advance, h.pc]
  rw [hstep]
  cases current with
  | none => exact .inl ⟨setPc_pc_self, h.handed, h.enqueued, h.ahead⟩
  | some node =>
    obtain ⟨rest, rfl, hrest⟩ := Linked.some_iff.mp h.old
    exact .inr ⟨rest.length, Nat.lt_succ_self _, s.next node, some node, rest, rfl,
      ⟨setPc_pc_self, h.handed, h.enqueued, h.ahead⟩, hrest.update h.old.not_mem_tail previous⟩

theorem leads_stealing (hfair : Fair ops) :
    LeadsTo step ops {} (Active t .stealing n count) (Handed n count) := by
  refine LeadsTo.trans ?_ ((LeadsTo.of_exists (leads_reversing hfair)).trans (leads_waking (t := t) hfair))
  refine leads_of_active hfair rfl fun s front fresh hsound h => ?_
  obtain ⟨newest, hsteal, hqueues⟩ := hsound.steal h.pc
  have hstep : step (helper t .stealing) s = s.steal t := by
    change s.advance t = _
    simp only [AsyncLock.advance, h.pc]
  have hpc : (s.steal t).pc t = .reversing (some newest) none := by rw [hsteal, setPc_pc_self]
  have htaken := hqueues.taken t rfl
  rw [hpc] at htaken
  obtain ⟨-, -, old, done, -, hold, -⟩ := htaken
  rw [hstep]
  refine ⟨old.length, some newest, none, old, rfl, ⟨hpc, ?_, ?_, h.ahead⟩, hold⟩
  · rw [hsteal]
    exact h.handed
  · rw [hsteal]
    exact h.enqueued

omit [DecidableEq τ] in
theorem queue_ne_nil {owner : Option τ} {front fresh : List τ} (hsound : s.Queues owner front fresh)
    (henq : n < s.enqueued.length) (hahead : s.handed.length ≤ n) : front ++ fresh.reverse ≠ [] := by
  intro hnil
  have horder := hsound.order
  rw [hnil, append_nil] at horder
  rw [horder] at henq
  omega

theorem leads_releasing (hfair : Fair ops) :
    LeadsTo step ops {} (Active t .releasing n count) (Handed n count) := by
  refine LeadsTo.trans ?_ (leads_stealing (t := t) hfair)
  refine leads_of_active hfair rfl fun s front fresh hsound h => ?_
  have htaken := hsound.taken t rfl
  rw [h.pc] at htaken
  have hlock : s.state ≠ .locked := by
    intro hstate
    have hlink := hsound.linked
    rw [hstate] at hlink
    apply queue_ne_nil hsound h.enqueued (h.handed ▸ h.ahead)
    rw [htaken.1, Linked.none_iff.mp hlink]
    rfl
  have hstep : step (helper t .releasing) s = s.setPc t .stealing := by
    change s.advance t = _
    simp only [AsyncLock.advance, h.pc, AsyncLock.release, if_neg hlock]
  rw [hstep]
  exact ⟨setPc_pc_self, h.handed, h.enqueued, h.ahead⟩

theorem leads_holding (hfair : Fair ops) :
    LeadsTo step ops {} (Active t .holding n count) (Handed n count) := by
  refine LeadsTo.trans ?_ (LeadsTo.of_or (leads_releasing (t := t) hfair) (leads_waking (t := t) hfair))
  refine leads_of_active hfair rfl fun s _ _ _ h => ?_
  have hstep : step (helper t .holding) s = s.unlock t := if_pos h.pc
  rw [hstep, AsyncLock.unlock]
  split
  · exact .inl ⟨setPc_pc_self, h.handed, h.enqueued, h.ahead⟩
  · exact .inr ⟨setPc_pc_self, h.handed, h.enqueued, h.ahead⟩

theorem leads_owner (hfair : Fair ops) (howns : pc.owns = true) :
    LeadsTo step ops {} (Active t pc n count) (Handed n count) := by
  cases pc with
  | idle => cases howns
  | suspending seen => cases howns
  | waiting => cases howns
  | holding => exact leads_holding hfair
  | releasing => exact leads_releasing hfair
  | stealing => exact leads_stealing hfair
  | reversing current previous =>
    intro m hm
    obtain ⟨owner, front, fresh, hsound⟩ := sound_trace ops m
    obtain rfl := hsound.owner_eq hm.pc rfl
    have htaken := hsound.taken t rfl
    rw [hm.pc] at htaken
    obtain ⟨-, -, old, done, -, hold, -⟩ := htaken
    exact (leads_reversing hfair old.length).trans (leads_waking hfair) m
      ⟨current, previous, old, rfl, hm, hold⟩
  | waking => exact leads_waking hfair
  | scheduling head => exact leads_scheduling hfair head

omit [DecidableEq τ] in
theorem Sound.exists_active (hsound : s.Sound) (henq : n < s.enqueued.length)
    (hahead : s.handed.length ≤ n) :
    ∃ t pc, pc.owns = true ∧ Active t pc n s.handed.length s := by
  obtain ⟨owner, front, fresh, hsound⟩ := hsound
  cases owner with
  | none =>
    have hlink := hsound.linked
    rw [hsound.unlocked.mpr rfl] at hlink
    apply absurd _ (queue_ne_nil hsound henq hahead)
    rw [(hsound.free rfl).1, Linked.none_iff.mp hlink]
    rfl
  | some t => exact ⟨t, s.pc t, (hsound.owns t).mpr rfl, rfl, rfl, henq, hahead⟩

theorem leads_handed (hfair : Fair ops) (n : Nat) :
    LeadsTo step ops {} (fun s => n < s.enqueued.length) (fun s => n < s.handed.length) := by
  -- The measure is the number of tasks that are still to get the lock, up to this one.
  let ahead (k : Nat) (s : AsyncLock τ) : Prop := n < s.enqueued.length ∧ n + 1 - s.handed.length = k
  have hmeasure (k : Nat) : LeadsTo step ops {} (ahead k) (fun s => n < s.handed.length) := by
    refine LeadsTo.of_measure (fun k => ?_) k
    rintro m ⟨henq, hk⟩
    by_cases hahead : (trace step ops {} m).handed.length ≤ n
    · obtain ⟨t, pc, howns, hactive⟩ := (sound_trace ops m).exists_active henq hahead
      obtain ⟨m', hle, henq', hhanded⟩ := leads_owner hfair howns m hactive
      exact ⟨m', hle, .inr ⟨_, by omega, henq', rfl⟩⟩
    · exact ⟨m, Nat.le_refl m, .inl (by omega)⟩
  intro m hm
  exact hmeasure _ m ⟨hm, rfl⟩

end Leads

/-- What holds in every state of a lock whose waiters are in a queue. -/
structure Mutex (s : AsyncLock τ) : Prop where
  exclusive : ∀ t u, (s.pc t).owns = true → (s.pc u).owns = true → t = u
  fifo : s.handed <+: s.enqueued
  waiting : ∀ t, s.pc t = .waiting ↔ t ∈ s.enqueued.drop s.handed.length
  once : (s.enqueued.drop s.handed.length).Nodup
  safe : s.failed = false

def HandsOver (s : AsyncLock τ) (_ : Op τ) (s' : AsyncLock τ) : Prop :=
  s'.handed = s.handed ∨ ∃ t, s'.handed = s.handed ++ [t] ∧ s.pc t = .waiting ∧ s'.pc t = .holding

omit [DecidableEq τ] in
theorem Sound.mutex (h : s.Sound) : s.Mutex := by
  obtain ⟨owner, front, fresh, h⟩ := h
  have hrest : s.enqueued.drop s.handed.length = front ++ fresh.reverse := by
    rw [h.order, drop_left]
  refine ⟨fun t u => h.owner_unique, ?_, ?_, ?_, h.safe⟩
  · rw [h.order]
    exact prefix_append _ _
  · intro t
    rw [hrest, h.waiting t]
  · rw [hrest]
    exact h.nodup

theorem handsOver_advance (h : s.Sound) (task : τ) : HandsOver s (.advance task) (s.advance task) := by
  obtain ⟨owner, front, fresh, h⟩ := h
  cases hpc : s.pc task with
  | scheduling head =>
    obtain rfl := h.owner_eq hpc rfl
    have htaken := h.taken task rfl
    rw [hpc] at htaken
    obtain ⟨rest, rfl, -⟩ := htaken
    right
    simp only [AsyncLock.advance, hpc, h.schedule_eq hpc]
    exact ⟨head, rfl, (h.waiting head).mp (mem_append_left _ mem_cons_self), setPc_pc_self⟩
  | reversing current previous =>
    left
    cases current <;> simp only [AsyncLock.advance, hpc, AsyncLock.reverse] <;> rfl
  | releasing =>
    left
    simp only [AsyncLock.advance, hpc, AsyncLock.release]
    split <;> rfl
  | stealing =>
    left
    simp only [AsyncLock.advance, hpc, AsyncLock.steal]
    split <;> rfl
  | waking =>
    left
    simp only [AsyncLock.advance, hpc, AsyncLock.wake]
    split <;> rfl
  | idle => exact .inl (by simp only [AsyncLock.advance, hpc])
  | suspending seen => exact .inl (by simp only [AsyncLock.advance, hpc])
  | waiting => exact .inl (by simp only [AsyncLock.advance, hpc])
  | holding => exact .inl (by simp only [AsyncLock.advance, hpc])

theorem handsOver_step (h : s.Sound) (op : Op τ) : HandsOver s op (step op s) := by
  cases op with
  | advance task => exact handsOver_advance h task
  | suspend task =>
    left
    simp only [AsyncLock.step]
    split <;> rfl
  | attempt task spurious =>
    left
    simp only [AsyncLock.step, AsyncLock.attempt]
    split
    · split <;> split <;> rfl
    · rfl
  | tryLock task =>
    left
    simp only [AsyncLock.step, AsyncLock.tryLock]
    split
    · split <;> rfl
    · rfl
  | unlock task =>
    left
    simp only [AsyncLock.step]
    split <;> rfl

/-- In every run the lock is a mutex that is handed over in the order of the queue, and if every
holder unlocks, every task in the queue gets its turn. -/
theorem async_lock_fair :
    (∀ ops : List (Op τ), Mutex (runSteps step ops {}) ∧ Along step HandsOver ops {}) ∧
      ∀ schedule : Nat → Op τ, Fair schedule → ∀ n,
        LeadsTo step schedule {} (fun s => n < s.enqueued.length) (fun s => n < s.handed.length) := by
  refine ⟨fun ops => ⟨?_, ?_⟩, fun schedule hfair n => leads_handed hfair n⟩
  · exact (inv_runSteps_of_step (fun op _ h => h.step op) Sound.initial).mutex
  · exact along_of_step (fun op _ h _ => h.step op) (fun op _ h _ => handsOver_step h op) Sound.initial
      (allowed_of_forall (fun _ _ _ => trivial) _)

def turns (n : Nat) : Op Bool :=
  match n % 8 with
  | 0 => .suspend false
  | 1 => .attempt false false
  | 2 => .suspend true
  | 3 => .attempt true false
  | 4 => .unlock false
  | 5 => .advance false
  | 6 => .unlock true
  | _ => .advance true

theorem turns_add (n k : Nat) : turns (8 * n + k) = turns k := by
  unfold turns
  rw [Nat.mul_add_mod]

theorem fair_turns : Fair turns := by
  constructor
  · rintro (_ | _) n -
    · exact ⟨8 * n + 4, by omega, turns_add n 4⟩
    · exact ⟨8 * n + 6, by omega, turns_add n 6⟩
  · rintro (_ | _) n -
    · exact ⟨8 * n + 5, by omega, turns_add n 5⟩
    · exact ⟨8 * n + 7, by omega, turns_add n 7⟩

theorem async_lock_fair_turns :
    0 < (trace step turns {} 4).enqueued.length ∧ ∃ m, 4 ≤ m ∧ 0 < (trace step turns {} m).handed.length :=
  ⟨by decide, async_lock_fair.2 turns fair_turns 0 4 (by decide)⟩

end AsyncLock

end WslPlus.Plan9

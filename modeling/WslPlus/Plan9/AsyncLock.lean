import Mathlib.Data.List.Nodup
import WslPlus.Lib.Linked
import WslPlus.Lib.Transition

/-!
# The lock of the coroutines

The state of an `AsyncLock` is one word: unlocked, locked, or a pointer to the newest of the
tasks that wait. A task that finds the lock held links itself in front of these. The holder
that unlocks takes the whole list, reverses it and wakes its first task; the others of the
list are woken, one by one, by the holders after it.

The tasks are addresses, which may be used again once a task has unlocked.
-/

namespace WslPlus.Plan9

open Function List

variable {τ : Type}

/-- `m_State`. A pointer is never equal to one of the two constants. -/
inductive LockState (τ : Type) where
  | unlocked
  | locked
  | waiters (newest : τ)
  deriving DecidableEq

def LockState.link : LockState τ → Option τ
  | .waiters newest => some newest
  | _ => none

/-- Where a task stands. -/
inductive LockPc (τ : Type) where
  | idle
  /-- In the loop of `await_suspend`, with the state it has seen. -/
  | suspending (state : LockState τ)
  /-- `await_suspend` has returned true. -/
  | waiting
  | holding
  /-- In `Unlock`, before the compare-exchange. -/
  | releasing
  /-- In `Unlock`, before the exchange. -/
  | stealing
  | reversing (current previous : Option τ)
  /-- In `Unlock`, before the first waiter is taken. -/
  | waking
  | scheduling (head : τ)
  deriving DecidableEq

def LockPc.owns : LockPc τ → Bool
  | .idle | .suspending _ | .waiting => false
  | .holding | .releasing | .stealing | .reversing _ _ | .waking | .scheduling _ => true

def LockPc.awaits : LockPc τ → Bool
  | .suspending _ | .waiting => true
  | _ => false

/-- With `enqueued`, the tasks whose compare-exchange has put them on the list, and `handed`,
those that were woken, in their order, and `failed`, whether the process was ended by a fast
failure or a null pointer. -/
structure AsyncLock (τ : Type) where
  state : LockState τ := .unlocked
  waitList : Option τ := none
  next : τ → Option τ := fun _ => none
  awaiter : τ → Option τ := fun _ => none
  pc : τ → LockPc τ := fun _ => .idle
  enqueued : List τ := []
  handed : List τ := []
  failed : Bool := false

namespace AsyncLock

inductive Op (τ : Type) where
  /-- `await_suspend` reads the state. -/
  | suspend (task : τ)
  /-- A round of the loop; the compare-exchange may fail without a reason. -/
  | attempt (task : τ) (spurious : Bool)
  | tryLock (task : τ)
  /-- `Unlock` looks at the list of the waiters. -/
  | unlock (task : τ)
  /-- The next step of `Unlock`. -/
  | advance (task : τ)
  deriving DecidableEq

variable [DecidableEq τ]

def setPc (s : AsyncLock τ) (task : τ) (pc : LockPc τ) : AsyncLock τ :=
  { s with pc := update s.pc task pc }

def suspend (s : AsyncLock τ) (task : τ) : AsyncLock τ :=
  { s with awaiter := update s.awaiter task (some task) }.setPc task (.suspending s.state)

def acquire (s : AsyncLock τ) (task : τ) : AsyncLock τ :=
  { s with state := .locked }.setPc task .holding

def enqueue (s : AsyncLock τ) (task : τ) : AsyncLock τ :=
  { s with state := .waiters task, enqueued := s.enqueued ++ [task] }.setPc task .waiting

def attempt (s : AsyncLock τ) (task : τ) (seen : LockState τ) (spurious : Bool) : AsyncLock τ :=
  if seen = .unlocked then
    if s.state = seen ∧ ¬ spurious then s.acquire task else s.setPc task (.suspending s.state)
  else
    let s := { s with next := update s.next task seen.link }
    if s.state = seen ∧ ¬ spurious then s.enqueue task else s.setPc task (.suspending s.state)

def tryLock (s : AsyncLock τ) (task : τ) : AsyncLock τ :=
  if s.state = .unlocked then s.acquire task else s

def unlock (s : AsyncLock τ) (task : τ) : AsyncLock τ :=
  s.setPc task (if s.waitList = none then .releasing else .waking)

def release (s : AsyncLock τ) (task : τ) : AsyncLock τ :=
  if s.state = .locked then { s with state := .unlocked }.setPc task .idle else s.setPc task .stealing

def steal (s : AsyncLock τ) (task : τ) : AsyncLock τ :=
  match s.state with
  | .waiters newest => { s with state := .locked }.setPc task (.reversing (some newest) none)
  | _ => { s with state := .locked, failed := true }

def reverse (s : AsyncLock τ) (task : τ) (current previous : Option τ) : AsyncLock τ :=
  match current with
  | some node =>
    { s with next := update s.next node previous }.setPc task (.reversing (s.next node) current)
  | none => { s with waitList := previous }.setPc task .waking

def wake (s : AsyncLock τ) (task : τ) : AsyncLock τ :=
  match s.waitList with
  | some head => { s with waitList := s.next head }.setPc task (.scheduling head)
  | none => { s with failed := true }

def schedule (s : AsyncLock τ) (task head : τ) : AsyncLock τ :=
  match s.awaiter head with
  | some coroutine => { (s.setPc task .idle).setPc coroutine .holding with handed := s.handed ++ [head] }
  | none => { s with failed := true }

def advance (s : AsyncLock τ) (task : τ) : AsyncLock τ :=
  match s.pc task with
  | .releasing => s.release task
  | .stealing => s.steal task
  | .reversing current previous => s.reverse task current previous
  | .waking => s.wake task
  | .scheduling head => s.schedule task head
  | _ => s

def step : Op τ → AsyncLock τ → AsyncLock τ
  | .suspend task, s => if s.pc task = .idle then s.suspend task else s
  | .attempt task spurious, s =>
    match s.pc task with
    | .suspending seen => s.attempt task seen spurious
    | _ => s
  | .tryLock task, s => if s.pc task = .idle then s.tryLock task else s
  | .unlock task, s => if s.pc task = .holding then s.unlock task else s
  | .advance task, s => s.advance task

/-- The waiters that are no longer linked to the state, as the owner's place in `Unlock` has
them. -/
def Front (s : AsyncLock τ) : LockPc τ → List τ → Prop
  | .holding, front => Linked s.next s.waitList front
  | .releasing, front => front = [] ∧ s.waitList = none
  | .stealing, front => front = [] ∧ s.waitList = none ∧ s.state ≠ .locked
  | .reversing current previous, front => s.waitList = none ∧ front ≠ [] ∧
      ∃ old done, front = old.reverse ++ done ∧ Linked s.next current old ∧ Linked s.next previous done
  | .waking, front => front ≠ [] ∧ Linked s.next s.waitList front
  | .scheduling head, front => ∃ rest, front = head :: rest ∧ Linked s.next s.waitList rest
  | _, _ => False

/-- The lock is that of a queue: `front` was taken from the state already, `fresh` is still
linked to it, the newest first. -/
structure Queues (s : AsyncLock τ) (owner : Option τ) (front fresh : List τ) : Prop where
  safe : s.failed = false
  unlocked : s.state = .unlocked ↔ owner = none
  owns : ∀ t, (s.pc t).owns = true ↔ owner = some t
  linked : Linked s.next s.state.link fresh
  taken : ∀ t, owner = some t → s.Front (s.pc t) front
  free : owner = none → front = [] ∧ s.waitList = none
  nodup : (front ++ fresh.reverse).Nodup
  waiting : ∀ t, t ∈ front ++ fresh.reverse ↔ s.pc t = .waiting
  resumes : ∀ t, (s.pc t).awaits = true → s.awaiter t = some t
  order : s.enqueued = s.handed ++ (front ++ fresh.reverse)

def Sound (s : AsyncLock τ) : Prop := ∃ owner front fresh, s.Queues owner front fresh

section Facts

omit [DecidableEq τ]

variable {s s' : AsyncLock τ} {owner : Option τ} {front fresh : List τ} {task : τ} {pc : LockPc τ}

theorem Front.congr (h : s.Front pc front) (hnext : s'.next = s.next) (hlist : s'.waitList = s.waitList)
    (hstate : s'.state = s.state) : s'.Front pc front := by
  cases pc <;> simp only [Front, hnext, hlist, hstate] at h ⊢ <;> exact h

theorem Queues.initial : Queues ({} : AsyncLock τ) none [] [] where
  safe := rfl
  unlocked := by simp
  owns := by simp [LockPc.owns]
  linked := .nil
  taken := by simp
  free := by simp
  nodup := by simp
  waiting := by simp
  resumes := by simp [LockPc.awaits]
  order := rfl

section

variable (h : s.Queues owner front fresh)
include h

theorem Queues.owner_unique {t u : τ} (ht : (s.pc t).owns = true)
    (hu : (s.pc u).owns = true) : t = u :=
  Option.some.inj (((h.owns t).mp ht).symm.trans ((h.owns u).mp hu))

theorem Queues.not_mem (hpc : s.pc task ≠ .waiting) : task ∉ front ∧ task ∉ fresh := by
  have hout := mt (h.waiting task).mp hpc
  rw [mem_append, mem_reverse, not_or] at hout
  exact hout

theorem Queues.owner_eq (hpc : s.pc task = pc) (howns : pc.owns = true) :
    owner = some task := (h.owns task).mp (hpc ▸ howns)

end

theorem Queues.front_at (h : s.Queues (some task) front fresh) (hpc : s.pc task = pc) :
    s.Front pc front := hpc ▸ h.taken task rfl

theorem Sound.initial : Sound ({} : AsyncLock τ) := ⟨none, [], [], .initial⟩

end Facts

variable {s s' : AsyncLock τ} {owner : Option τ} {front fresh front' fresh' : List τ} {task : τ} {pc : LockPc τ}

@[simp]
theorem setPc_pc_self : (s.setPc task pc).pc task = pc := update_self ..

theorem setPc_pc_of_ne {t : τ} (h : t ≠ task) : (s.setPc task pc).pc t = s.pc t := update_of_ne h ..

theorem Front.relink {q : Option τ} (h : s.Front pc front) (hout : task ∉ front)
    (hnext : s'.next = update s.next task q) (hlist : s'.waitList = s.waitList)
    (hstate : s.state ≠ .locked → s'.state ≠ .locked) : s'.Front pc front := by
  cases pc with
  | idle => exact h
  | suspending _ => exact h
  | waiting => exact h
  | holding =>
    simp only [Front, hnext, hlist] at h ⊢
    exact h.update hout q
  | releasing =>
    simp only [Front, hlist] at h ⊢
    exact h
  | stealing =>
    simp only [Front, hlist] at h ⊢
    exact ⟨h.1, h.2.1, hstate h.2.2⟩
  | reversing current previous =>
    obtain ⟨hnone, hne, old, done, rfl, hold, hdone⟩ := h
    rw [mem_append, mem_reverse, not_or] at hout
    simp only [Front, hnext, hlist]
    exact ⟨hnone, hne, old, done, rfl, hold.update hout.1 q, hdone.update hout.2 q⟩
  | waking =>
    simp only [Front, hnext, hlist] at h ⊢
    exact ⟨h.1, h.2.update hout q⟩
  | scheduling head =>
    obtain ⟨rest, rfl, hrest⟩ := h
    simp only [Front, hnext, hlist]
    exact ⟨rest, rfl, hrest.update (not_mem_of_not_mem_cons hout) q⟩

namespace Queues

section

variable (h : s.Queues owner front fresh)
include h

theorem setPc (hbefore : (s.pc task).owns = false ∧ s.pc task ≠ .waiting)
    (hafter : pc.owns = false ∧ pc ≠ .waiting) (hawaits : pc.awaits = true → s.awaiter task = some task) :
    (s.setPc task pc).Queues owner front fresh := by
  have hown : owner ≠ some task := by
    intro heq
    rw [(h.owns task).mpr heq] at hbefore
    exact Bool.noConfusion hbefore.1
  have hwait (t : τ) : (s.setPc task pc).pc t = .waiting ↔ s.pc t = .waiting := by
    by_cases ht : t = task
    · subst ht
      simp [hbefore.2, hafter.2]
    · rw [setPc_pc_of_ne ht]
  refine { h with owns := ?_, taken := ?_, waiting := ?_, resumes := ?_ }
  · intro t
    by_cases ht : t = task
    · subst ht
      simp [hafter.1, hown]
    · rw [setPc_pc_of_ne ht]
      exact h.owns t
  · intro t ht
    rw [setPc_pc_of_ne (by rintro rfl; exact hown ht)]
    exact (h.taken t ht).congr rfl rfl rfl
  · intro t
    rw [h.waiting t, hwait t]
  · intro t hpc
    by_cases ht : t = task
    · subst ht
      rw [setPc_pc_self] at hpc
      exact hawaits hpc
    · rw [setPc_pc_of_ne ht] at hpc
      exact h.resumes t hpc

theorem record (task : τ) :
    Queues { s with awaiter := update s.awaiter task (some task) } owner front fresh := by
  refine { h with taken := ?_, resumes := ?_ }
  · intro t ht
    exact (h.taken t ht).congr rfl rfl rfl
  · intro t hpc
    change update s.awaiter task (some task) t = some t
    by_cases ht : t = task
    · subst ht
      exact update_self ..
    · rw [update_of_ne ht]
      exact h.resumes t hpc

theorem relink (hpc : s.pc task ≠ .waiting) (q : Option τ) :
    Queues { s with next := update s.next task q } owner front fresh := by
  obtain ⟨hfront, hfresh⟩ := h.not_mem hpc
  refine { h with linked := h.linked.update hfresh q, taken := ?_ }
  intro t ht
  exact (h.taken t ht).relink hfront rfl rfl id

theorem acquire (hstate : s.state = .unlocked)
    (hpc : (s.pc task).owns = false ∧ s.pc task ≠ .waiting) :
    (s.acquire task).Queues (some task) front fresh := by
  obtain rfl := h.unlocked.mp hstate
  obtain ⟨rfl, hlist⟩ := h.free rfl
  have hother {t : τ} (ht : t ≠ task) : (s.acquire task).pc t = s.pc t := setPc_pc_of_ne ht
  have hself : (s.acquire task).pc task = .holding := setPc_pc_self
  have hlink := h.linked
  rw [hstate] at hlink
  refine { h with
    unlocked := by simp [AsyncLock.acquire, AsyncLock.setPc], owns := ?_, linked := hlink, taken := ?_
    free := nofun, waiting := ?_, resumes := ?_ }
  · intro t
    by_cases ht : t = task
    · subst ht
      simp [hself, LockPc.owns]
    · rw [hother ht, h.owns t]
      simp [Ne.symm ht]
  · rintro t ⟨rfl⟩
    rw [hself]
    change Linked s.next s.waitList []
    rw [hlist]
    exact .nil
  · intro t
    rw [h.waiting t]
    by_cases ht : t = task
    · subst ht
      simp [hself, hpc.2]
    · rw [hother ht]
  · intro t ht
    by_cases heq : t = task
    · subst heq
      rw [hself] at ht
      cases ht
    · rw [hother heq] at ht
      exact h.resumes t ht

theorem enqueue (hstate : s.state ≠ .unlocked)
    (hpc : (s.pc task).owns = false ∧ s.pc task ≠ .waiting) (hnext : s.next task = s.state.link)
    (hawaiter : s.awaiter task = some task) : (s.enqueue task).Queues owner front (task :: fresh) := by
  obtain ⟨hfront, hfresh⟩ := h.not_mem hpc.2
  have hown : owner ≠ some task := by
    intro heq
    rw [(h.owns task).mpr heq] at hpc
    exact Bool.noConfusion hpc.1
  have hother {t : τ} (ht : t ≠ task) : (s.enqueue task).pc t = s.pc t := setPc_pc_of_ne ht
  have hself : (s.enqueue task).pc task = .waiting := setPc_pc_self
  have hqueue : front ++ (task :: fresh).reverse = (front ++ fresh.reverse) ++ [task] := by
    rw [reverse_cons, append_assoc]
  refine { h with
    unlocked := ?_, owns := ?_, linked := ?_, taken := ?_, nodup := ?_, waiting := ?_, resumes := ?_, order := ?_ }
  · constructor
    · intro heq
      cases heq
    · intro heq
      exact absurd (h.unlocked.mpr heq) hstate
  · intro t
    by_cases ht : t = task
    · subst ht
      simp [hself, LockPc.owns, hown]
    · rw [hother ht]
      exact h.owns t
  · apply Linked.cons
    change Linked s.next (s.next task) fresh
    rw [hnext]
    exact h.linked
  · intro t ht
    rw [hother (by rintro rfl; exact hown ht)]
    have hrelink : s.next = update s.next task (s.next task) := (update_eq_self task s.next).symm
    exact (h.taken t ht).relink hfront hrelink rfl fun _ => nofun
  · rw [hqueue, nodup_append]
    refine ⟨h.nodup, nodup_singleton task, ?_⟩
    rintro t ht u hu rfl
    rw [mem_singleton.mp hu] at ht
    exact hpc.2 ((h.waiting task).mp ht)
  · intro t
    rw [hqueue, mem_append, h.waiting t, mem_singleton]
    by_cases ht : t = task
    · subst ht
      simp [hself]
    · simp [hother ht, ht]
  · intro t ht
    by_cases heq : t = task
    · subst heq
      exact hawaiter
    · rw [hother heq] at ht
      exact h.resumes t ht
  · change s.enqueued ++ [task] = s.handed ++ _
    rw [hqueue, h.order, append_assoc]

end

section

variable (h : s.Queues (some task) front fresh)
include h

theorem advance (hpc : s'.pc = update s.pc task pc)
    (howns : pc.owns = true) (hlog : s'.enqueued = s.enqueued ∧ s'.handed = s.handed)
    (hawaiter : s'.awaiter = s.awaiter) (hsafe : s'.failed = false) (hstate : s'.state ≠ .unlocked)
    (hlink : Linked s'.next s'.state.link fresh') (hfront : s'.Front pc front')
    (hqueue : front' ++ fresh'.reverse = front ++ fresh.reverse) : s'.Queues (some task) front' fresh' := by
  have hself : s'.pc task = pc := by rw [hpc, update_self]
  have hother {t : τ} (ht : t ≠ task) : s'.pc t = s.pc t := by rw [hpc, update_of_ne ht]
  have hbefore := (h.owns task).mpr rfl
  have hnot : s.pc task ≠ .waiting := by
    intro heq
    rw [heq] at hbefore
    cases hbefore
  have hnot' : pc ≠ .waiting := by
    rintro rfl
    cases howns
  have hwait (t : τ) : s'.pc t = .waiting ↔ s.pc t = .waiting := by
    by_cases ht : t = task
    · subst ht
      simp [hself, hnot, hnot']
    · rw [hother ht]
  refine ⟨hsafe, by simp [hstate], ?_, hlink, ?_, nofun, ?_, ?_, ?_, ?_⟩
  · intro t
    by_cases ht : t = task
    · subst ht
      simp [hself, howns]
    · rw [hother ht]
      exact h.owns t
  · rintro t ⟨rfl⟩
    rw [hself]
    exact hfront
  · rw [hqueue]
    exact h.nodup
  · intro t
    rw [hqueue, h.waiting t, hwait t]
  · intro t hawaits
    rw [hawaiter]
    by_cases ht : t = task
    · rw [ht, hself] at hawaits
      cases pc <;> cases howns <;> cases hawaits
    · rw [hother ht] at hawaits
      exact h.resumes t hawaits
  · rw [hqueue, hlog.1, hlog.2]
    exact h.order

theorem release (hpc : s.pc task = .releasing) (hstate : s.state = .locked) :
    Queues ({ s with state := .unlocked }.setPc task .idle) none front fresh := by
  obtain ⟨rfl, hlist⟩ := h.front_at hpc
  have hlink := h.linked
  rw [hstate] at hlink
  obtain rfl := Linked.none_iff.mp hlink
  have hother {t : τ} (ht : t ≠ task) :
      (AsyncLock.setPc { s with state := .unlocked } task .idle).pc t = s.pc t := setPc_pc_of_ne ht
  have hself : (AsyncLock.setPc { s with state := .unlocked } task .idle).pc task = .idle := setPc_pc_self
  refine { h with
    unlocked := by simp [AsyncLock.setPc], owns := ?_, linked := .nil, taken := nofun, free := fun _ => ⟨rfl, hlist⟩
    waiting := ?_, resumes := ?_ }
  · intro t
    by_cases ht : t = task
    · subst ht
      simp [LockPc.owns]
    · rw [hother ht, h.owns t]
      simp [Ne.symm ht]
  · intro t
    rw [h.waiting t]
    by_cases ht : t = task
    · subst ht
      simp [hpc]
    · rw [hother ht]
  · intro t ht
    by_cases heq : t = task
    · subst heq
      rw [hself] at ht
      cases ht
    · rw [hother heq] at ht
      exact h.resumes t ht

theorem schedule_eq {head : τ} (hpc : s.pc task = .scheduling head) :
    s.schedule task head = { (s.setPc task .idle).setPc head .holding with handed := s.handed ++ [head] } := by
  obtain ⟨rest, rfl, -⟩ := h.front_at hpc
  have hhead : s.pc head = .waiting := (h.waiting head).mp (mem_append_left _ mem_cons_self)
  simp only [AsyncLock.schedule, h.resumes head (by rw [hhead]; rfl)]

theorem schedule {head : τ} (hpc : s.pc task = .scheduling head) :
    ∃ rest, front = head :: rest ∧ (s.schedule task head).Queues (some head) rest fresh := by
  obtain ⟨rest, rfl, hrest⟩ := h.front_at hpc
  have hhead : s.pc head = .waiting := (h.waiting head).mp (mem_append_left _ mem_cons_self)
  have hne : head ≠ task := by
    rintro rfl
    rw [hpc] at hhead
    cases hhead
  have hnodup : (head :: (rest ++ fresh.reverse)).Nodup := h.nodup
  obtain ⟨hout, hnodup⟩ := nodup_cons.mp hnodup
  refine ⟨rest, rfl, ?_⟩
  rw [h.schedule_eq hpc]
  have hself : (AsyncLock.setPc (s.setPc task .idle) head .holding).pc head = .holding := setPc_pc_self
  have hold : (AsyncLock.setPc (s.setPc task .idle) head .holding).pc task = .idle := by
    rw [setPc_pc_of_ne hne.symm, setPc_pc_self]
  have hother {t : τ} (ht : t ≠ head) (htask : t ≠ task) :
      (AsyncLock.setPc (s.setPc task .idle) head .holding).pc t = s.pc t := by
    rw [setPc_pc_of_ne ht, setPc_pc_of_ne htask]
  have hunlock : s.state ≠ .unlocked := by simp [h.unlocked]
  refine ⟨h.safe, by simp [AsyncLock.setPc, hunlock], ?_, h.linked, ?_, nofun, hnodup, ?_, ?_, ?_⟩
  · intro t
    by_cases ht : t = head
    · subst ht
      simp [LockPc.owns]
    · by_cases htask : t = task
      · subst htask
        simp [hold, LockPc.owns, hne]
      · simp only [hother ht htask, h.owns t, Option.some.injEq, Ne.symm ht, Ne.symm htask]
  · rintro t ⟨rfl⟩
    simp only [hself]
    exact hrest
  · intro t
    by_cases ht : t = head
    · subst ht
      simp only [hself, hout, reduceCtorEq]
    · have hmem := h.waiting t
      rw [cons_append, mem_cons, or_iff_right ht] at hmem
      rw [hmem]
      by_cases htask : t = task
      · subst htask
        simp [hold, hpc]
      · simp only [hother ht htask]
  · intro t ht
    by_cases hthead : t = head
    · subst hthead
      simp only [hself] at ht
      cases ht
    · by_cases htask : t = task
      · subst htask
        simp only [hold] at ht
        cases ht
      · simp only [hother hthead htask] at ht
        exact h.resumes t ht
  · change s.enqueued = (s.handed ++ [head]) ++ (rest ++ fresh.reverse)
    rw [h.order, append_assoc]
    rfl

theorem unlock (hpc : s.pc task = .holding) :
    (s.unlock task).Queues (some task) front fresh := by
  have htaken := h.front_at hpc
  refine h.advance rfl ?_ ⟨rfl, rfl⟩ rfl h.safe (by simp [AsyncLock.unlock, AsyncLock.setPc, h.unlocked]) h.linked ?_ rfl
  · split <;> rfl
  · split
    · rename_i hlist
      have hfront : Linked s.next s.waitList front := htaken
      rw [hlist, Linked.none_iff] at hfront
      exact ⟨hfront, hlist⟩
    · rename_i hlist
      refine ⟨?_, htaken⟩
      rintro rfl
      exact hlist (Linked.nil_iff.mp htaken)

theorem fail (hpc : s.pc task = .releasing) (hstate : s.state ≠ .locked) :
    (s.setPc task .stealing).Queues (some task) front fresh := by
  have htaken := h.front_at hpc
  exact h.advance rfl rfl ⟨rfl, rfl⟩ rfl h.safe (by simp [AsyncLock.setPc, h.unlocked]) h.linked
    ⟨htaken.1, htaken.2, hstate⟩ rfl

theorem steal (hpc : s.pc task = .stealing) :
    ∃ newest, s.steal task = { s with state := .locked }.setPc task (.reversing (some newest) none) ∧
      (s.steal task).Queues (some task) fresh.reverse [] := by
  obtain ⟨rfl, hlist, hlock⟩ := h.front_at hpc
  have hunlock : s.state ≠ .unlocked := by simp [h.unlocked]
  cases hstate : s.state with
  | unlocked => exact absurd hstate hunlock
  | locked => exact absurd hstate hlock
  | waiters newest =>
    have hsteal : s.steal task = { s with state := .locked }.setPc task (.reversing (some newest) none) := by
      simp only [AsyncLock.steal, hstate]
    have hlink := h.linked
    rw [hstate] at hlink
    obtain ⟨rest, rfl, -⟩ := Linked.some_iff.mp hlink
    refine ⟨newest, hsteal, ?_⟩
    rw [hsteal]
    refine h.advance rfl rfl ⟨rfl, rfl⟩ rfl h.safe nofun .nil ⟨hlist, by simp, newest :: rest, [], ?_, hlink, .nil⟩ ?_
    · rw [append_nil]
    · simp

theorem reverse {node : τ} {previous : Option τ}
    (hpc : s.pc task = .reversing (some node) previous) :
    (s.reverse task (some node) previous).Queues (some task) front fresh := by
  obtain ⟨hlist, hne, old, done, rfl, hold, hdone⟩ := h.front_at hpc
  obtain ⟨rest, rfl, hrest⟩ := Linked.some_iff.mp hold
  have hnodup := h.nodup
  simp only [reverse_cons, append_assoc, nodup_append, nodup_reverse, mem_append,
    mem_reverse, mem_cons, not_mem_nil, or_false] at hnodup
  have houtrest : node ∉ rest := fun hmem => hnodup.2.2 node hmem node (.inl rfl) rfl
  have houtdone : node ∉ done := fun hmem => hnodup.2.1.2.2 node rfl node (.inl hmem) rfl
  have houtfresh : node ∉ fresh := fun hmem => hnodup.2.1.2.2 node rfl node (.inr hmem) rfl
  refine h.advance rfl rfl ⟨rfl, rfl⟩ rfl h.safe (by simp [AsyncLock.reverse, AsyncLock.setPc, h.unlocked])
    (h.linked.update houtfresh previous) ⟨hlist, hne, rest, node :: done, ?_, hrest.update houtrest previous, ?_⟩ rfl
  · rw [reverse_cons, append_assoc]
    rfl
  · exact hdone.push houtdone

theorem finish {previous : Option τ}
    (hpc : s.pc task = .reversing none previous) :
    (s.reverse task none previous).Queues (some task) front fresh := by
  obtain ⟨-, hne, old, done, rfl, hold, hdone⟩ := h.front_at hpc
  obtain rfl := Linked.none_iff.mp hold
  exact h.advance rfl rfl ⟨rfl, rfl⟩ rfl h.safe (by simp [AsyncLock.reverse, AsyncLock.setPc, h.unlocked]) h.linked
    ⟨hne, hdone⟩ rfl

theorem wake (hpc : s.pc task = .waking) :
    ∃ head, s.wake task = { s with waitList := s.next head }.setPc task (.scheduling head) ∧
      (s.wake task).Queues (some task) front fresh := by
  obtain ⟨hne, hfront⟩ := h.front_at hpc
  cases hlist : s.waitList with
  | none =>
    rw [hlist, Linked.none_iff] at hfront
    exact absurd hfront hne
  | some head =>
    have hwake : s.wake task = { s with waitList := s.next head }.setPc task (.scheduling head) := by
      simp only [AsyncLock.wake, hlist]
    rw [hlist] at hfront
    refine ⟨head, hwake, ?_⟩
    rw [hwake]
    exact h.advance rfl rfl ⟨rfl, rfl⟩ rfl h.safe (by simp [AsyncLock.setPc, h.unlocked]) h.linked
      (Linked.some_iff.mp hfront) rfl

end

end Queues

theorem Sound.attempt (h : s.Sound) {seen : LockState τ} (hpc : s.pc task = .suspending seen)
    (spurious : Bool) :
    (s.attempt task seen spurious).Sound := by
  obtain ⟨owner, front, fresh, h⟩ := h
  have hplace : (s.pc task).owns = false ∧ s.pc task ≠ .waiting := by simp [hpc, LockPc.owns]
  have hawaiter : s.awaiter task = some task := h.resumes task (by rw [hpc]; rfl)
  rw [AsyncLock.attempt]
  split
  · rename_i hseen
    split
    · rename_i hstate
      exact ⟨_, _, _, h.acquire (hstate.1.trans hseen) hplace⟩
    · exact ⟨_, _, _, h.setPc hplace (by simp [LockPc.owns]) fun _ => hawaiter⟩
  · rename_i hseen
    have hlink := h.relink hplace.2 seen.link
    dsimp only
    split
    · rename_i hstate
      have hnext : update s.next task seen.link task = s.state.link := by
        rw [update_self, ← hstate.1]
      exact ⟨_, _, _, hlink.enqueue (fun hunlock => hseen (hstate.1.symm.trans hunlock)) hplace hnext hawaiter⟩
    · exact ⟨_, _, _, hlink.setPc hplace (by simp [LockPc.owns]) fun _ => hawaiter⟩

theorem Sound.advance (h : s.Sound) (task : τ) : (s.advance task).Sound := by
  obtain ⟨owner, front, fresh, h⟩ := h
  cases hpc : s.pc task with
  | idle => simpa only [AsyncLock.advance, hpc] using ⟨_, _, _, h⟩
  | suspending seen => simpa only [AsyncLock.advance, hpc] using ⟨_, _, _, h⟩
  | waiting => simpa only [AsyncLock.advance, hpc] using ⟨_, _, _, h⟩
  | holding => simpa only [AsyncLock.advance, hpc] using ⟨_, _, _, h⟩
  | releasing =>
    obtain rfl := h.owner_eq hpc rfl
    simp only [AsyncLock.advance, hpc, AsyncLock.release]
    split
    · rename_i hstate
      exact ⟨_, _, _, h.release hpc hstate⟩
    · rename_i hstate
      exact ⟨_, _, _, h.fail hpc hstate⟩
  | stealing =>
    obtain rfl := h.owner_eq hpc rfl
    obtain ⟨-, -, h⟩ := h.steal hpc
    simp only [AsyncLock.advance, hpc]
    exact ⟨_, _, _, h⟩
  | reversing current previous =>
    obtain rfl := h.owner_eq hpc rfl
    simp only [AsyncLock.advance, hpc]
    cases current with
    | none => exact ⟨_, _, _, h.finish hpc⟩
    | some node => exact ⟨_, _, _, h.reverse hpc⟩
  | waking =>
    obtain rfl := h.owner_eq hpc rfl
    obtain ⟨-, -, h⟩ := h.wake hpc
    simp only [AsyncLock.advance, hpc]
    exact ⟨_, _, _, h⟩
  | scheduling head =>
    obtain rfl := h.owner_eq hpc rfl
    obtain ⟨rest, -, h⟩ := h.schedule hpc
    simp only [AsyncLock.advance, hpc]
    exact ⟨_, _, _, h⟩

theorem Sound.step (h : s.Sound) (op : Op τ) : (step op s).Sound := by
  cases op with
  | suspend task =>
    simp only [AsyncLock.step]
    split
    · rename_i hpc
      obtain ⟨owner, front, fresh, h⟩ := h
      refine ⟨owner, front, fresh, (h.record task).setPc ?_ (by simp [LockPc.owns]) fun _ => update_self ..⟩
      exact ⟨by rw [hpc]; rfl, by rw [hpc]; nofun⟩
    · exact h
  | attempt task spurious =>
    simp only [AsyncLock.step]
    split
    · rename_i seen hpc
      exact h.attempt hpc spurious
    · exact h
  | tryLock task =>
    simp only [AsyncLock.step]
    split
    · rename_i hpc
      rw [AsyncLock.tryLock]
      split
      · rename_i hstate
        obtain ⟨owner, front, fresh, h⟩ := h
        exact ⟨_, _, _, h.acquire hstate (by simp [hpc, LockPc.owns])⟩
      · exact h
    · exact h
  | unlock task =>
    simp only [AsyncLock.step]
    split
    · rename_i hpc
      obtain ⟨owner, front, fresh, h⟩ := h
      obtain rfl := h.owner_eq hpc rfl
      exact ⟨_, _, _, h.unlock hpc⟩
    · exact h
  | advance task => exact h.advance task

end AsyncLock

end WslPlus.Plan9

import Mathlib.Algebra.GroupWithZero.Nat
import WslPlus.Lib.Transition

/-!
# Threads over shared data

A step is an action of one thread, which reads and changes the shared data and the thread's own
state, or the start of another thread. What holds of all threads together is kept by showing what
an action does to the one that takes it.
-/

namespace WslPlus

open List

structure Threaded (σ τ : Type) where
  shared : σ
  threads : List τ

namespace Threaded

variable {σ τ κ ι : Type}

/-- A new thread of some kind, or an action of a thread. -/
inductive Op (κ ι : Type) where
  | spawn (k : κ)
  | thread (t : Nat) (a : ι)

def step (fresh : κ → τ) (act : ι → σ → τ → σ × τ) : Op κ ι → Threaded σ τ → Threaded σ τ
  | .spawn k, s => { s with threads := s.threads ++ [fresh k] }
  | .thread t a, s =>
    match s.threads[t]? with
    | some th => ⟨(act a s.shared th).1, s.threads.set t (act a s.shared th).2⟩
    | none => s

variable {fresh : κ → τ} {act : ι → σ → τ → σ × τ} {s : Threaded σ τ}

variable {t : Nat} {th : τ}

theorem step_thread (ht : s.threads[t]? = some th) (a : ι) :
    step fresh act (.thread t a) s = ⟨(act a s.shared th).1, s.threads.set t (act a s.shared th).2⟩ := by
  simp only [step, ht]

theorem step_cases {P : Threaded σ τ → Prop} {op : Op κ ι} (hs : P s)
    (hspawn : ∀ k, op = .spawn k → P { s with threads := s.threads ++ [fresh k] })
    (hact : ∀ t a th, op = .thread t a → s.threads[t]? = some th →
      P ⟨(act a s.shared th).1, s.threads.set t (act a s.shared th).2⟩) : P (step fresh act op s) := by
  cases op with
  | spawn k => exact hspawn k rfl
  | thread t a =>
    cases ht : s.threads[t]? with
    | none =>
      simp only [step, ht]
      exact hs
    | some th =>
      rw [step_thread ht]
      exact hact t a th rfl ht

def weight (w : τ → Nat) (threads : List τ) : Nat := (threads.map w).sum

theorem weight_append (w : τ → Nat) (threads : List τ) (th : τ) :
    weight w (threads ++ [th]) = weight w threads + w th := by
  simp [weight]

variable {threads : List τ}

theorem weight_set (w : τ → Nat) (ht : threads[t]? = some th) (th' : τ) :
    weight w (threads.set t th') + w th = weight w threads + w th' := by
  induction threads generalizing t with
  | nil => cases ht
  | cons u threads ih =>
    cases t with
    | zero =>
      cases ht
      simp only [weight, set_cons_zero, map_cons, sum_cons]
      omega
    | succ t =>
      have := ih ht
      simp only [weight, set_cons_succ, map_cons, sum_cons] at this ⊢
      omega

theorem le_weight (w : τ → Nat) (hth : th ∈ threads) : w th ≤ weight w threads := by
  induction threads with
  | nil => cases hth
  | cons u threads ih =>
    simp only [weight, map_cons, sum_cons]
    rcases mem_cons.mp hth with rfl | hth
    · omega
    · have := ih hth
      simp only [weight] at this
      omega

theorem add_le_weight (w : τ → Nat) {t u : Nat} {th uh : τ} (ht : threads[t]? = some th)
    (hu : threads[u]? = some uh) (hne : t ≠ u) : w th + w uh ≤ weight w threads := by
  induction threads generalizing t u with
  | nil => cases ht
  | cons v threads ih =>
    simp only [weight, map_cons, sum_cons]
    cases t with
    | zero =>
      cases u with
      | zero => exact absurd rfl hne
      | succ u =>
        cases ht
        have hu : threads[u]? = some uh := hu
        have := le_weight w (mem_of_getElem? hu)
        simp only [weight] at this
        omega
    | succ t =>
      cases u with
      | zero =>
        cases hu
        have ht : threads[t]? = some th := ht
        have := le_weight w (mem_of_getElem? ht)
        simp only [weight] at this
        omega
      | succ u =>
        have := ih ht hu (fun heq => hne (congrArg Nat.succ heq))
        simp only [weight] at this
        omega

theorem weight_mono {w w' : τ → Nat} (h : ∀ th, w th ≤ w' th) (threads : List τ) :
    weight w threads ≤ weight w' threads := by
  induction threads with
  | nil => exact Nat.le_refl _
  | cons th threads ih =>
    have := h th
    simp only [weight, map_cons, sum_cons] at ih ⊢
    omega

theorem weight_pair (w : τ → Nat) {th u : τ} (ht : th ∈ threads) (hu : u ∈ threads)
    (hne : th ≠ u) : w th + w u ≤ weight w threads := by
  obtain ⟨i, hi⟩ := mem_iff_getElem?.mp ht
  obtain ⟨j, hj⟩ := mem_iff_getElem?.mp hu
  apply add_le_weight w hi hj
  rintro rfl
  rw [hi] at hj
  exact hne (Option.some.inj hj)

theorem exists_of_weight_pos (w : τ → Nat) (hpos : 0 < weight w threads) : ∃ th ∈ threads, 0 < w th := by
  induction threads with
  | nil => simp [weight] at hpos
  | cons u threads ih =>
    by_cases hu : 0 < w u
    · exact ⟨u, mem_cons_self, hu⟩
    · simp only [weight, map_cons, sum_cons] at hpos
      obtain ⟨th, hth, hw⟩ := ih (by simp only [weight]; omega)
      exact ⟨th, mem_cons_of_mem u hth, hw⟩

theorem forall_mem_set {P : τ → Prop} (h : ∀ th ∈ threads, P th) {th' : τ}
    (hth' : P th') : ∀ th ∈ threads.set t th', P th := by
  intro th hth
  rcases mem_or_eq_of_mem_set hth with hth | rfl
  · exact h th hth
  · exact hth'

theorem of_mem_set {th' u : τ} (hu : u ∈ threads.set t th') : u = th' ∨ ∃ i, i ≠ t ∧ threads[i]? = some u := by
  obtain ⟨i, hi⟩ := mem_iff_getElem?.mp hu
  by_cases hit : t = i
  · subst hit
    rw [getElem?_set] at hi
    split at hi
    · split at hi
      · left
        exact (Option.some.inj hi).symm
      · cases hi
    · exact absurd rfl (by assumption)
  · rw [getElem?_set_ne hit] at hi
    exact .inr ⟨i, fun h => hit h.symm, hi⟩

theorem mem_set_of_ne {th u : τ} (ht : threads[t]? = some th) (hu : u ∈ threads)
    (hne : u ≠ th) {th' : τ} : u ∈ threads.set t th' := by
  obtain ⟨i, hi⟩ := mem_iff_getElem?.mp hu
  refine mem_iff_getElem?.mpr ⟨i, ?_⟩
  rw [getElem?_set_ne, hi]
  rintro rfl
  rw [ht] at hi
  exact hne (Option.some.inj hi).symm

theorem set_self (ht : threads[t]? = some th) : threads.set t th = threads := by
  refine ext_getElem? fun i => ?_
  by_cases hi : t = i
  · subst hi
    rw [getElem?_set_self (List.getElem?_eq_some_iff.mp ht).1, ht]
  · rw [getElem?_set_ne hi]

end Threaded

end WslPlus

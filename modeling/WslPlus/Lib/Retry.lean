import Mathlib.Logic.Basic

/-!
# Attempts within a window of time

An attempt that throws is repeated after a pause, as long as its exception allows it and the window has not
passed when it ends. An attempt that returns is the last one.
-/

namespace WslPlus

/-- How an attempt ends, and the time it takes. -/
structure TimedAttempt (ε α : Type) where
  result : Except ε α
  elapsed : Nat

section Retry

variable {ε α : Type} (attempt : Nat → TimedAttempt ε α) (period timeout : Nat) (retryPred : ε → Bool)

def endTime : Nat → Nat
  | 0 => (attempt 0).elapsed
  | k + 1 => endTime k + period + (attempt (k + 1)).elapsed

def retryFrom (hperiod : 0 < period) (k now : Nat) : Nat × Except ε α :=
  let ended := now + (attempt k).elapsed
  match (attempt k).result with
  | .ok a => (k + 1, .ok a)
  | .error e =>
    if retryPred e = false ∨ timeout < ended then (k + 1, .error e)
    else retryFrom hperiod (k + 1) (ended + period)
termination_by timeout + 1 - now
decreasing_by omega

def retryWithTimeout (hperiod : 0 < period) :
    Nat × Except ε α := retryFrom attempt period timeout retryPred hperiod 0 0

/-- The last attempt of a series that starts with a given one. -/
structure LastFrom (k last : Nat) : Prop where
  first_le : k ≤ last
  before : ∀ j, k ≤ j → j < last →
    ∃ e, (attempt j).result = .error e ∧ retryPred e = true ∧ endTime attempt period j ≤ timeout
  final : ∀ e, (attempt last).result = .error e → retryPred e = false ∨ timeout < endTime attempt period last

variable {attempt period timeout retryPred}

theorem retryFrom_spec (hperiod : 0 < period) {k now : Nat}
    (hnow : now + (attempt k).elapsed = endTime attempt period k) :
    ∃ last, LastFrom attempt period timeout retryPred k last ∧
      retryFrom attempt period timeout retryPred hperiod k now = (last + 1, (attempt last).result) := by
  fun_induction retryFrom attempt period timeout retryPred hperiod k now with
  | case1 k now a hok =>
    refine ⟨k, ⟨Nat.le_refl k, ?_, ?_⟩, by rw [hok]⟩
    · intro j hj hlt
      omega
    · intro e herror
      rw [hok] at herror
      cases herror
  | case2 k now ended e herror hstop =>
    refine ⟨k, ⟨Nat.le_refl k, ?_, ?_⟩, by rw [herror]⟩
    · intro j hj hlt
      omega
    · intro e' herror'
      obtain rfl : e = e' := by
        rw [herror] at herror'
        exact Except.error.inj herror'
      rw [← hnow]
      exact hstop
  | case3 k now ended e herror hgo ih =>
    obtain ⟨hpred, hended⟩ := not_or.mp hgo
    have hended : endTime attempt period k ≤ timeout := by
      rw [← hnow]
      exact Nat.le_of_not_lt hended
    have hnext : ended + period + (attempt (k + 1)).elapsed = endTime attempt period (k + 1) := by
      rw [endTime, ← hnow]
    obtain ⟨last, hlast, hres⟩ := ih hnext
    refine ⟨last, ⟨Nat.le_of_succ_le hlast.first_le, ?_, hlast.final⟩, hres⟩
    intro j hj hlt
    rcases Nat.lt_or_eq_of_le hj with hj | rfl
    · exact hlast.before j hj hlt
    · exact ⟨e, herror, eq_true_of_ne_false hpred, hended⟩

theorem retryWithTimeout_spec (hperiod : 0 < period) :
    ∃ last, LastFrom attempt period timeout retryPred 0 last ∧
      retryWithTimeout attempt period timeout retryPred hperiod = (last + 1, (attempt last).result) :=
  retryFrom_spec hperiod (Nat.zero_add _)

theorem retryWithTimeout_of_ok (hperiod : 0 < period) {a : α} (hok : (attempt 0).result = .ok a) :
    retryWithTimeout attempt period timeout retryPred hperiod = (1, .ok a) := by
  obtain ⟨last, hlast, hres⟩ := retryWithTimeout_spec hperiod
  cases last with
  | zero => rw [hres, hok]
  | succ last =>
    obtain ⟨e, herror, _⟩ := hlast.before 0 (Nat.zero_le 0) (Nat.succ_pos last)
    rw [hok] at herror
    cases herror

end Retry

end WslPlus

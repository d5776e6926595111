import Mathlib.Logic.Basic

/-!
# Runs without an end

What must happen at some time is shown by steps that help: a state stays good until a
helpful step is taken, and the helpful step leads to what was to be shown.
-/

namespace WslPlus

section Trace

variable {σ ι : Type} (step : ι → σ → σ) (op : Nat → ι) (s : σ)

def trace : Nat → σ
  | 0 => s
  | n + 1 => step (op n) (trace n)

def LeadsTo (P Q : σ → Prop) : Prop :=
  ∀ n, P (trace step op s n) → ∃ m, n ≤ m ∧ Q (trace step op s m)

def Eventually (P : σ → Prop) (helpful : ι → Prop) : Prop :=
  ∀ n, P (trace step op s n) → ∃ m, n ≤ m ∧ helpful (op m)

variable {step op s} {P Q R inv : σ → Prop} {helpful : ι → Prop}

theorem inv_trace (hinv : ∀ i s, inv s → inv (step i s)) (hs : inv s) (n : Nat) : inv (trace step op s n) := by
  induction n with
  | zero => exact hs
  | succ n ih => exact hinv _ _ ih

namespace LeadsTo

theorem trans (hPQ : LeadsTo step op s P Q) (hQR : LeadsTo step op s Q R) : LeadsTo step op s P R := by
  intro n hn
  obtain ⟨m, hnm, hm⟩ := hPQ n hn
  obtain ⟨k, hmk, hk⟩ := hQR m hm
  exact ⟨k, Nat.le_trans hnm hmk, hk⟩

theorem of_exists {α : Type} {A : α → σ → Prop} (h : ∀ a, LeadsTo step op s (A a) Q) :
    LeadsTo step op s (fun s => ∃ a, A a s) Q := by
  rintro n ⟨a, hn⟩
  exact h a n hn

theorem of_or (hP : LeadsTo step op s P R) (hQ : LeadsTo step op s Q R) :
    LeadsTo step op s (fun s => P s ∨ Q s) R := by
  rintro n (hn | hn)
  · exact hP n hn
  · exact hQ n hn

theorem of_helpful (hinv : ∀ n, inv (trace step op s n)) (hfair : Eventually step op s P helpful)
    (hkeep : ∀ i s, inv s → P s → P (step i s) ∨ Q (step i s))
    (hhelp : ∀ i s, inv s → helpful i → P s → Q (step i s)) : LeadsTo step op s P Q := by
  intro n hn
  obtain ⟨m, hnm, hm⟩ := hfair n hn
  -- The induction is on the steps up to the helpful one.
  obtain ⟨k, rfl⟩ := Nat.exists_eq_add_of_le hnm
  clear hnm
  induction k generalizing n with
  | zero => exact ⟨n + 1, Nat.le_succ n, hhelp _ _ (hinv n) hm hn⟩
  | succ k ih =>
    rcases hkeep (op n) _ (hinv n) hn with hnext | hnext
    · obtain ⟨m', hle, hm'⟩ := ih (n + 1) hnext (by rwa [Nat.add_right_comm, Nat.add_assoc])
      exact ⟨m', Nat.le_trans (Nat.le_succ n) hle, hm'⟩
    · exact ⟨n + 1, Nat.le_succ n, hnext⟩

theorem of_measure {A : Nat → σ → Prop} (h : ∀ k, LeadsTo step op s (A k) fun s => Q s ∨ ∃ j < k, A j s)
    (k : Nat) : LeadsTo step op s (A k) Q := by
  induction k using Nat.strongRecOn with
  | ind k ih =>
    intro n hn
    obtain ⟨m, hnm, hm | ⟨j, hjk, hm⟩⟩ := h k n hn
    · exact ⟨m, hnm, hm⟩
    · obtain ⟨l, hml, hl⟩ := ih j hjk m hm
      exact ⟨l, Nat.le_trans hnm hml, hl⟩

end LeadsTo

end Trace

end WslPlus

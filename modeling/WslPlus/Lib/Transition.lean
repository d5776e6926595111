import Mathlib.Data.List.Basic

/-!
# Runs of a transition system

Steps are labelled and total; a step that is refused leaves the state as it is.
An invariant may depend on a condition under which the steps are taken.
-/

namespace WslPlus

section Run

variable {σ ι : Type} (step : ι → σ → σ)

def runSteps (ops : List ι) (s : σ) : σ := ops.foldl (fun s i => step i s) s

def Allowed (cond : ι → σ → Prop) : List ι → σ → Prop
  | [], _ => True
  | i :: ops, s => cond i s ∧ Allowed cond ops (step i s)

instance Allowed.decidable (cond : ι → σ → Prop) [∀ i s, Decidable (cond i s)] :
    (ops : List ι) → (s : σ) → Decidable (Allowed step cond ops s)
  | [], _ => .isTrue trivial
  | i :: ops, s =>
    have := Allowed.decidable cond ops (step i s)
    inferInstanceAs (Decidable (cond i s ∧ Allowed step cond ops (step i s)))

def Along (P : σ → ι → σ → Prop) : List ι → σ → Prop
  | [], _ => True
  | i :: ops, s => P s i (step i s) ∧ Along P ops (step i s)

instance Along.decidable (P : σ → ι → σ → Prop) [∀ s i s', Decidable (P s i s')] :
    (ops : List ι) → (s : σ) → Decidable (Along step P ops s)
  | [], _ => .isTrue trivial
  | i :: ops, s =>
    have := Along.decidable P ops (step i s)
    inferInstanceAs (Decidable (P s i (step i s) ∧ Along step P ops (step i s)))

variable {step} {cond : ι → σ → Prop} {inv : σ → Prop} {P : σ → ι → σ → Prop}

variable {ops : List ι} {s : σ}

theorem Allowed.imp {cond' : ι → σ → Prop} (himp : ∀ i s, cond i s → cond' i s)
    (hops : Allowed step cond ops s) : Allowed step cond' ops s := by
  induction ops generalizing s with
  | nil => trivial
  | cons i ops ih => exact ⟨himp i s hops.1, ih hops.2⟩

variable (step) in
theorem runSteps_append (ops ops' : List ι) (s : σ) :
    runSteps step (ops ++ ops') s = runSteps step ops' (runSteps step ops s) := List.foldl_append

theorem allowed_append {ops ops' : List ι} (hops : Allowed step cond ops s)
    (hops' : Allowed step cond ops' (runSteps step ops s)) : Allowed step cond (ops ++ ops') s := by
  induction ops generalizing s with
  | nil => exact hops'
  | cons i ops ih => exact ⟨hops.1, ih hops.2 hops'⟩

theorem Allowed.split {ops ops' : List ι} (h : Allowed step cond (ops ++ ops') s) :
    Allowed step cond ops s ∧ Allowed step cond ops' (runSteps step ops s) := by
  induction ops generalizing s with
  | nil => exact ⟨trivial, h⟩
  | cons i ops ih => exact ⟨⟨h.1, (ih h.2).1⟩, (ih h.2).2⟩

theorem allowed_of_forall (h : ∀ i ∈ ops, ∀ s, cond i s) (s : σ) : Allowed step cond ops s := by
  induction ops generalizing s with
  | nil => trivial
  | cons i ops ih =>
    exact ⟨h i List.mem_cons_self s, ih (fun j hj => h j (List.mem_cons_of_mem i hj)) (step i s)⟩

theorem inv_runSteps (hstep : ∀ i s, inv s → cond i s → inv (step i s))
    (hs : inv s) (hops : Allowed step cond ops s) : inv (runSteps step ops s) := by
  induction ops generalizing s with
  | nil => exact hs
  | cons i ops ih => exact ih (hstep i s hs hops.1) hops.2

theorem inv_runSteps_of_step (hstep : ∀ i s, inv s → inv (step i s)) (hs : inv s) :
    inv (runSteps step ops s) := by
  induction ops generalizing s with
  | nil => exact hs
  | cons i ops ih => exact ih (hstep i s hs)

theorem along_of_step (hstep : ∀ i s, inv s → cond i s → inv (step i s))
    (hP : ∀ i s, inv s → cond i s → P s i (step i s))
    (hs : inv s) (hops : Allowed step cond ops s) : Along step P ops s := by
  induction ops generalizing s with
  | nil => trivial
  | cons i ops ih => exact ⟨hP i s hs hops.1, ih (hstep i s hs hops.1) hops.2⟩

theorem along_iff_allowed (hstep : ∀ i s, inv s → cond i s → inv (step i s))
    (hP : ∀ i s, inv s → (P s i (step i s) ↔ cond i s)) (hs : inv s) :
    Along step P ops s ↔ Allowed step cond ops s := by
  induction ops generalizing s with
  | nil => exact Iff.rfl
  | cons i ops ih =>
    constructor
    · rintro ⟨hi, hops⟩
      have hcond := (hP i s hs).mp hi
      exact ⟨hcond, (ih (hstep i s hs hcond)).mp hops⟩
    · rintro ⟨hcond, hops⟩
      exact ⟨(hP i s hs).mpr hcond, (ih (hstep i s hs hcond)).mpr hops⟩

/-- What a step against its condition leads to, and no step undoes, every run has at its end
that is not allowed. -/
theorem inv_of_not_allowed {bad : σ → Prop} (hstep : ∀ i s, inv s → inv (step i s))
    (hbad : ∀ i s, inv s → ¬ cond i s → bad (step i s))
    (hkeep : ∀ i s, inv s → bad s → bad (step i s)) (hs : inv s)
    (hops : ¬ Allowed step cond ops s) : bad (runSteps step ops s) := by
  induction ops generalizing s with
  | nil => exact absurd trivial hops
  | cons i ops ih =>
    by_cases hcond : cond i s
    · exact ih (hstep i s hs) fun hrest => hops ⟨hcond, hrest⟩
    · have hboth : ∀ i s, inv s ∧ bad s → inv (step i s) ∧ bad (step i s) :=
        fun i s h => ⟨hstep i s h.1, hkeep i s h.1 h.2⟩
      exact (inv_runSteps_of_step hboth ⟨hstep i s hs, hbad i s hs hcond⟩).2

theorem allowed_of_along (himp : ∀ i s, P s i (step i s) → cond i s)
    (h : Along step P ops s) : Allowed step cond ops s := by
  induction ops generalizing s with
  | nil => trivial
  | cons i ops ih => exact ⟨himp i s h.1, ih h.2⟩

end Run

section Refine

variable {σ α ι : Type} {step : ι → σ → σ} {astep : ι → α → α} {R : σ → α → Prop} {inv : σ → Prop}
  {cond : ι → σ → Prop}

/-- If a step keeps the agreement with an abstract step exactly under its condition, a run agrees
with the abstract run at each of its states exactly if it is allowed. -/
theorem refines_iff_allowed (hinv : ∀ i s, inv s → inv (step i s))
    (hstep : ∀ i s a, inv s → R s a → (R (step i s) (astep i a) ↔ cond i s)) {ops : List ι} {s : σ} {a : α}
    (hs : inv s) (ha : R s a) :
    (∀ n, R (runSteps step (ops.take n) s) (runSteps astep (ops.take n) a)) ↔ Allowed step cond ops s := by
  induction ops generalizing s a with
  | nil =>
    refine ⟨fun _ => trivial, fun _ n => ?_⟩
    rw [List.take_nil]
    exact ha
  | cons i ops ih =>
    constructor
    · intro h
      have hfirst : R (step i s) (astep i a) := h 1
      exact ⟨(hstep i s a hs ha).mp hfirst, (ih (hinv i s hs) hfirst).mp fun n => h (n + 1)⟩
    · rintro ⟨hcond, hops⟩ n
      cases n with
      | zero => exact ha
      | succ n => exact (ih (hinv i s hs) ((hstep i s a hs ha).mpr hcond)).mpr hops n

end Refine

section Settle

variable {σ ι : Type} {step : ι → σ → σ} {own : ι → Prop} {final : σ → Prop}

/-- Whichever of its own steps a system takes, they come to an end, and only in a final state. -/
inductive Settles (step : ι → σ → σ) (own : ι → Prop) (final : σ → Prop) : σ → Prop where
  | intro {s : σ} (progress : final s ∨ ∃ i, own i ∧ step i s ≠ s)
      (next : ∀ i, own i → step i s ≠ s → Settles step own final (step i s)) : Settles step own final s

theorem settles_of_measure (inv : σ → Prop) (μ : σ → Nat) (hinv : ∀ i s, inv s → own i → inv (step i s))
    (hlower : ∀ i s, inv s → own i → step i s ≠ s → μ (step i s) < μ s)
    (hprogress : ∀ s, inv s → final s ∨ ∃ i, own i ∧ step i s ≠ s) {s : σ} (hs : inv s) :
    Settles step own final s := by
  induction hn : μ s using Nat.strongRecOn generalizing s with
  | ind n ih =>
    refine .intro (hprogress s hs) fun i hi hne => ?_
    have hlt := hlower i s hs hi hne
    rw [hn] at hlt
    exact ih _ hlt (hinv i s hs hi) rfl

/-- Whichever of its own steps a system takes, they lead to a final state. -/
inductive Leads (step : ι → σ → σ) (own : ι → Prop) (final : σ → Prop) : σ → Prop where
  | here {s : σ} (h : final s) : Leads step own final s
  | next {s : σ} (progress : ∃ i, own i ∧ step i s ≠ s)
      (next : ∀ i, own i → step i s ≠ s → Leads step own final (step i s)) : Leads step own final s

theorem leads_of_measure (inv : σ → Prop) (μ : σ → Nat) (hinv : ∀ i s, inv s → own i → inv (step i s))
    (hlower : ∀ i s, inv s → own i → step i s ≠ s → final s ∨ μ (step i s) < μ s)
    (hprogress : ∀ s, inv s → final s ∨ ∃ i, own i ∧ step i s ≠ s) {s : σ} (hs : inv s) :
    Leads step own final s := by
  induction hn : μ s using Nat.strongRecOn generalizing s with
  | ind n ih =>
    by_cases hfinal : final s
    · exact .here hfinal
    · refine .next ((hprogress s hs).resolve_left hfinal) fun i hi hne => ?_
      have hlt := (hlower i s hs hi hne).resolve_left hfinal
      rw [hn] at hlt
      exact ih _ hlt (hinv i s hs hi) rfl

end Settle

end WslPlus

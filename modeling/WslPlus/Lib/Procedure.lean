import Mathlib.Data.List.Basic

/-!
# Procedures whose stages can fail

A procedure is a list of stages. A stage that fails ends the procedure; what it
had begun it takes back itself, and the stages before it stay done.
-/

namespace WslPlus

structure Stage (ι σ : Type) where
  step : Option ι
  ready : σ → Bool
  effect : σ → σ
  undo : σ → σ

namespace Stage

variable {ι σ : Type}

def check (step : ι) : Stage ι σ :=
  { step := some step, ready := fun _ => true, effect := id, undo := id }

def act (step : ι) (effect : σ → σ) : Stage ι σ :=
  { step := some step, ready := fun _ => true, effect := effect, undo := id }

def assign (effect : σ → σ) : Stage ι σ :=
  { step := none, ready := fun _ => true, effect := effect, undo := id }

def succeeds (ok : ι → Bool) (g : Stage ι σ) (s : σ) : Bool := g.ready s && g.step.all ok

end Stage

section Run

variable {ι σ : Type} (ok : ι → Bool)

/-- The state in which a procedure ends and whether it came to its end. -/
def runStages : List (Stage ι σ) → σ → Bool × σ
  | [], s => (true, s)
  | g :: gs, s => if g.succeeds ok s then runStages gs (g.effect s) else (false, g.undo s)

theorem runStages_append (gs hs : List (Stage ι σ)) (s : σ) :
    runStages ok (gs ++ hs) s =
      if (runStages ok gs s).1 then runStages ok hs (runStages ok gs s).2 else runStages ok gs s := by
  induction gs generalizing s with
  | nil => rfl
  | cons g gs ih =>
    simp only [List.cons_append, runStages]
    by_cases h : g.succeeds ok s
    · simp only [h, if_true]
      exact ih _
    · simp only [h, Bool.false_eq_true, if_false]

@[simp] theorem runStages_nil (s : σ) : runStages ok [] s = (true, s) := rfl

@[simp] theorem runStages_check (i : ι) (gs : List (Stage ι σ)) (s : σ) :
    runStages ok (.check i :: gs) s = if ok i then runStages ok gs s else (false, s) := by
  simp [runStages, Stage.succeeds, Stage.check]

@[simp] theorem runStages_act (i : ι) (f : σ → σ) (gs : List (Stage ι σ)) (s : σ) :
    runStages ok (.act i f :: gs) s = if ok i then runStages ok gs (f s) else (false, s) := by
  simp [runStages, Stage.succeeds, Stage.act]

@[simp] theorem runStages_assign (f : σ → σ) (gs : List (Stage ι σ)) (s : σ) :
    runStages ok (.assign f :: gs) s = runStages ok gs (f s) := by
  simp [runStages, Stage.succeeds, Stage.assign]

theorem runStages_checks (steps : List ι) (gs : List (Stage ι σ)) (s : σ) :
    runStages ok (steps.map .check ++ gs) s =
      if steps.all ok then runStages ok gs s else (false, s) := by
  induction steps with
  | nil => rfl
  | cons i steps ih =>
    rw [List.map_cons, List.cons_append, runStages_check, ih, List.all_cons]
    cases ok i <;> rfl

end Run

end WslPlus

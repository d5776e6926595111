import Mathlib.Data.List.Basic

/-!
# Steps in another order

A run takes the elements of a list one by one and stops at the first failure. If two elements
may always change places, up to a relation between states and one between errors, then so may
all the elements of a list.
-/

namespace WslPlus.Reorder

open List

variable {α ε σ : Type} {q : ε → ε → Prop} {r : σ → σ → Prop}

/-- Both results are states that `r` relates, or both are errors that `q` relates. -/
def Alike (q : ε → ε → Prop) (r : σ → σ → Prop) : Except ε σ → Except ε σ → Prop
  | .error e, .error e' => q e e'
  | .ok s, .ok s' => r s s'
  | _, _ => False

theorem Alike.trans (hq : ∀ e e' e'', q e e' → q e' e'' → q e e'') (hr : Equivalence r) {x y z : Except ε σ}
    (hxy : Alike q r x y) (hyz : Alike q r y z) : Alike q r x z := by
  cases y with
  | error e =>
    cases x with
    | ok s => exact hxy.elim
    | error e₁ =>
      cases z with
      | ok s => exact hyz.elim
      | error e₂ => exact hq e₁ e e₂ hxy hyz
  | ok s =>
    cases x with
    | error e => exact hxy.elim
    | ok s₁ =>
      cases z with
      | error e => exact hyz.elim
      | ok s₂ => exact hr.trans hxy hyz

theorem Alike.bind {τ : Type} {t : τ → τ → Prop} {x y : Except ε σ} {f g : σ → Except ε τ}
    (h : Alike q r x y) (hstep : ∀ s s', r s s' → Alike q t (f s) (g s')) : Alike q t (x >>= f) (y >>= g) := by
  cases x with
  | error e =>
    cases y with
    | ok s => exact h.elim
    | error e' => exact h
  | ok s =>
    cases y with
    | error e => exact h.elim
    | ok s' => exact hstep s s' h

section Steps

variable {step : σ → α → Except ε σ} {apart : α → α → Prop}

section

variable (hstep : ∀ s s' a, r s s' → Alike q r (step s a) (step s' a))
include hstep

theorem alike_foldlM (elements : List α)
    {s s' : σ} (h : r s s') : Alike q r (elements.foldlM step s) (elements.foldlM step s') := by
  induction elements generalizing s s' with
  | nil => exact h
  | cons a elements ih =>
    rw [foldlM_cons, foldlM_cons]
    apply (hstep s s' a h).bind
    intro t t' ht
    exact ih ht

theorem alike_foldlM_swap
    (hswap : ∀ s a b, apart a b → Alike q r (step s a >>= (step · b)) (step s b >>= (step · a)))
    {a b : α} (h : apart a b) (elements : List α) (s : σ) :
    Alike q r ((a :: b :: elements).foldlM step s) ((b :: a :: elements).foldlM step s) := by
  simp only [foldlM_cons, ← bind_assoc]
  apply (hswap s a b h).bind
  intro t t' ht
  exact alike_foldlM hstep elements ht

end

theorem alike_foldlM_perm (hq : ∀ e e' e'', q e e' → q e' e'' → q e e'') (hr : Equivalence r)
    (hsymm : ∀ a b, apart a b → apart b a) (hstep : ∀ s s' a, r s s' → Alike q r (step s a) (step s' a))
    (hswap : ∀ s a b, apart a b → Alike q r (step s a >>= (step · b)) (step s b >>= (step · a)))
    {elements elements' : List α} (hperm : elements.Perm elements') (hapart : elements.Pairwise apart) (s : σ) :
    Alike q r (elements.foldlM step s) (elements'.foldlM step s) := by
  induction hperm generalizing s with
  | nil => exact hr.refl s
  | cons a _ ih =>
    rw [pairwise_cons] at hapart
    rw [foldlM_cons, foldlM_cons]
    have hsame : Alike q r (step s a) (step s a) := hstep s s a (hr.refl s)
    cases hres : step s a with
    | error e =>
      rw [hres] at hsame
      exact hsame
    | ok t => exact ih hapart.2 t
  | swap a b elements =>
    rw [pairwise_cons] at hapart
    exact alike_foldlM_swap hstep hswap (hapart.1 a mem_cons_self) elements s
  | trans hfirst _ ih ih' =>
    have hmiddle := hfirst.pairwise hapart (fun {a b} h => hsymm a b h)
    exact (ih hapart s).trans hq hr (ih' hmiddle s)

end Steps

end WslPlus.Reorder

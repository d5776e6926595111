import Mathlib.Logic.Basic

/-!
# Programs that may stop

A program changes a state and ends with a value or with a reason for stopping; the
state it has reached is kept in both cases. A program over a part of a state is run
inside the whole state. A triple speaks about both ways to end.
-/

namespace WslPlus

abbrev Program (σ ε : Type) := ExceptT ε (StateM σ)

namespace Program

variable {σ τ ε α β : Type}

def exec (m : Program σ ε α) (s : σ) : Except ε α × σ := Id.run ((ExceptT.run m).run s)

def ofFunction (f : σ → Except ε α × σ) : Program σ ε α := ExceptT.mk fun s => pure (f s)

def when (c : Bool) (m : Program σ ε Unit) : Program σ ε Unit := if c then m else pure ()

def andThen (r : Except ε α × σ) (f : α → Program σ ε β) : Except ε β × σ :=
  match r with
  | (.ok a, s) => exec (f a) s
  | (.error e, s) => (.error e, s)

@[simp] theorem exec_ofFunction (f : σ → Except ε α × σ) (s : σ) : exec (ofFunction f) s = f s := rfl

@[simp] theorem exec_pure (a : α) (s : σ) : exec (pure a : Program σ ε α) s = (.ok a, s) := rfl

@[simp] theorem exec_throw (e : ε) (s : σ) : exec (throw e : Program σ ε α) s = (.error e, s) := rfl

@[simp] theorem exec_get (s : σ) : exec (get : Program σ ε σ) s = (.ok s, s) := rfl

@[simp] theorem exec_modify (f : σ → σ) (s : σ) :
    exec (modify f : Program σ ε PUnit) s = (.ok ⟨⟩, f s) := rfl

theorem exec_bind (m : Program σ ε α) (f : α → Program σ ε β) (s : σ) :
    exec (m >>= f) s = andThen (exec m s) f := by
  unfold exec andThen ExceptT.run StateT.run Id.run
  simp only [bind, ExceptT.bind, ExceptT.mk, StateT.bind, ExceptT.bindCont]
  rcases m s with ⟨r, s'⟩
  cases r with
  | ok a => rfl
  | error e => rfl

/-- A part of a state that can be replaced. -/
structure Part (σ τ : Type) where
  get : σ → τ
  set : τ → σ → σ

def zoom (p : Part σ τ) (m : Program τ ε α) : Program σ ε α :=
  ofFunction fun s =>
    let r := exec m (p.get s)
    (r.1, p.set r.2 s)

@[simp] theorem exec_zoom (p : Part σ τ) (m : Program τ ε α) (s : σ) :
    exec (zoom p m) s = ((exec m (p.get s)).1, p.set (exec m (p.get s)).2 s) := rfl

def mapError {ε' : Type} (g : ε → ε') (m : Program σ ε α) : Program σ ε' α :=
  ofFunction fun s =>
    match exec m s with
    | (.ok a, s') => (.ok a, s')
    | (.error e, s') => (.error (g e), s')

def attempt (m : Program σ ε α) : Program σ ε (Option α) :=
  ofFunction fun s =>
    match exec m s with
    | (.ok a, s') => (.ok (some a), s')
    | (.error _, s') => (.ok none, s')

/-- What was set is read back, and the last of two replacements counts. -/
structure Part.Lawful (p : Part σ τ) : Prop where
  get_set : ∀ t s, p.get (p.set t s) = t
  set_set : ∀ t t' s, p.set t (p.set t' s) = p.set t s

theorem ext_exec {m n : Program σ ε α} (h : ∀ s, exec m s = exec n s) : m = n := funext h

theorem zoom_bind {p : Part σ τ} (hp : p.Lawful) (m : Program τ ε α) (f : α → Program τ ε β) :
    zoom p (m >>= f) = zoom p m >>= fun a => zoom p (f a) := by
  refine ext_exec fun s => ?_
  rw [exec_bind, exec_zoom, exec_zoom, exec_bind]
  rcases hr : exec m (p.get s) with ⟨r, t⟩
  cases r with
  | ok a =>
    change _ = exec (zoom p (f a)) (p.set t s)
    rw [exec_zoom, hp.get_set, hp.set_set]
    rfl
  | error e => rfl

/-- What a program has reached: `Q` of its value or `E` of its reason for stopping. -/
def Ends (Q : α → σ → Prop) (E : ε → σ → Prop) : Except ε α × σ → Prop
  | (.ok a, s) => Q a s
  | (.error e, s) => E e s

def Triple (P : σ → Prop) (m : Program σ ε α) (Q : α → σ → Prop) (E : ε → σ → Prop) : Prop :=
  ∀ s, P s → Ends Q E (exec m s)

section Rules

variable {P P' : σ → Prop} {Q Q' : α → σ → Prop} {R : β → σ → Prop} {E E' : ε → σ → Prop}
variable {m : Program σ ε α} {f : α → Program σ ε β}

theorem Triple.pure {a : α} (h : ∀ s, P s → Q a s) : Triple P (Pure.pure a : Program σ ε α) Q E := h

theorem Triple.throw {e : ε} (h : ∀ s, P s → E e s) :
    Triple P (MonadExcept.throw e : Program σ ε α) Q E := h

theorem Triple.bind (hm : Triple P m Q E) (hf : ∀ a, Triple (Q a) (f a) R E) : Triple P (m >>= f) R E := by
  intro s hs
  have hm' := hm s hs
  rw [exec_bind]
  rcases hr : exec m s with ⟨r, s'⟩
  rw [hr] at hm'
  cases r with
  | ok a => exact hf a s' hm'
  | error e => exact hm'

theorem Triple.imp (h : Triple P m Q E) (hP : ∀ s, P' s → P s) (hQ : ∀ a s, Q a s → Q' a s)
    (hE : ∀ e s, E e s → E' e s) : Triple P' m Q' E' := by
  intro s hs
  have h' := h s (hP s hs)
  rcases hr : exec m s with ⟨r, s'⟩
  rw [hr] at h'
  cases r with
  | ok a => exact hQ a s' h'
  | error e => exact hE e s' h'

theorem Triple.state {Q : σ → Prop} (h : Triple P m (fun _ => Q) fun _ => Q) {s : σ} (hs : P s) :
    Q (exec m s).2 := by
  have h' := h s hs
  rcases hr : exec m s with ⟨r, s'⟩
  rw [hr] at h'
  cases r with
  | ok a => exact h'
  | error e => exact h'

theorem Triple.never {P₂ : σ → Prop} {Q₂ : α → σ → Prop} (h : Triple P m Q E)
    (hnever : Triple P₂ m Q₂ fun _ _ => False) (hP : ∀ s, P₂ s → P s) :
    Triple P₂ m (fun a s => Q a s ∧ Q₂ a s) fun _ _ => False := by
  intro s hs
  have h' := h s (hP s hs)
  have hnever' := hnever s hs
  rcases hr : exec m s with ⟨r, s'⟩
  rw [hr] at h' hnever'
  cases r with
  | ok a => exact ⟨h', hnever'⟩
  | error e => exact hnever'

theorem Triple.when {c : Bool} {m : Program σ ε Unit} {Q : Unit → σ → Prop}
    (hm : c = true → Triple P m Q E) (hs : ∀ s, P s → Q () s) : Triple P (when c m) Q E := by
  cases c with
  | true => exact hm rfl
  | false => exact hs

theorem Triple.of_fact {p : Prop} (h : p → Triple P m Q E) : Triple (fun s => p ∧ P s) m Q E :=
  fun s hs => h hs.1 s hs.2

theorem Triple.zoom {p : Part σ τ} {m : Program τ ε α} {P' : τ → Prop} {Q' : α → τ → Prop}
    {E' : ε → τ → Prop} (h : Triple P' m Q' E') (hP : ∀ s, P s → P' (p.get s))
    (hQ : ∀ s t a, P s → Q' a t → Q a (p.set t s)) (hE : ∀ s t e, P s → E' e t → E e (p.set t s)) :
    Triple P (Program.zoom p m) Q E := by
  intro s hs
  have h' := h (p.get s) (hP s hs)
  rw [exec_zoom]
  rcases hr : exec m (p.get s) with ⟨r, t⟩
  rw [hr] at h'
  cases r with
  | ok a => exact hQ s t a hs h'
  | error e => exact hE s t e hs h'

theorem Triple.mapError {ε' : Type} {g : ε → ε'} {E' : ε' → σ → Prop} (h : Triple P m Q E)
    (hE : ∀ e s, E e s → E' (g e) s) : Triple P (Program.mapError g m) Q E' := by
  intro s hs
  have h' := h s hs
  simp only [Program.mapError, exec_ofFunction]
  rcases hr : exec m s with ⟨r, s'⟩
  rw [hr] at h'
  cases r with
  | ok a => exact h'
  | error e => exact hE e s' h'

def Keeps (I : σ → Prop) (m : Program σ ε α) (Q : α → Prop) : Prop :=
  Triple I m (fun a s => Q a ∧ I s) fun _ s => I s

variable {I : σ → Prop} {A A' : α → Prop} {B : β → Prop}

theorem Keeps.pure {a : α} (h : A a) : Keeps I (Pure.pure a : Program σ ε α) A := fun _ hs => ⟨h, hs⟩

theorem Keeps.throw {e : ε} : Keeps I (MonadExcept.throw e : Program σ ε α) A := fun _ hs => hs

theorem Keeps.nothing (m : Program σ ε α) : Keeps (fun _ => True) m fun _ => True := by
  intro s _
  rcases exec m s with ⟨r, s'⟩
  cases r with
  | ok a => exact ⟨trivial, trivial⟩
  | error e => exact trivial

theorem Keeps.bind (hm : Keeps I m A) (hf : ∀ a, A a → Keeps I (f a) B) : Keeps I (m >>= f) B :=
  Triple.bind hm fun a => Triple.of_fact (hf a)

theorem Keeps.imp (h : Keeps I m A) (himp : ∀ a, A a → A' a) : Keeps I m A' :=
  Triple.imp h (fun _ hs => hs) (fun a _ ha => ⟨himp a ha.1, ha.2⟩) fun _ _ hs => hs

theorem Keeps.ite {c : Prop} [Decidable c] {m n : Program σ ε α} (hm : c → Keeps I m A)
    (hn : ¬c → Keeps I n A) : Keeps I (if c then m else n) A := by
  by_cases hc : c
  · rw [if_pos hc]
    exact hm hc
  · rw [if_neg hc]
    exact hn hc

theorem Keeps.when {c : Bool} {m : Program σ ε Unit} (hm : Keeps I m fun _ => True) :
    Keeps I (when c m) fun _ => True :=
  Triple.when (fun _ => hm) fun _ hs => ⟨trivial, hs⟩

theorem Keeps.mapError {ε' : Type} {g : ε → ε'} (h : Keeps I m A) : Keeps I (Program.mapError g m) A :=
  Triple.mapError h fun _ _ hs => hs

theorem Keeps.zoom {p : Part σ τ} {m : Program τ ε α} {J : τ → Prop} (h : Keeps J m A)
    (hget : ∀ s, I s → J (p.get s)) (hset : ∀ s t, I s → J t → I (p.set t s)) : Keeps I (Program.zoom p m) A :=
  Triple.zoom h hget (fun s t _ hs ht => ⟨ht.1, hset s t hs ht.2⟩) fun s t _ hs ht => hset s t hs ht

theorem Triple.and {P₂ : σ → Prop} {Q₂ : α → σ → Prop} {E₂ : ε → σ → Prop} (h : Triple P m Q E)
    (h₂ : Triple P₂ m Q₂ E₂) :
    Triple (fun s => P s ∧ P₂ s) m (fun a s => Q a s ∧ Q₂ a s) fun e s => E e s ∧ E₂ e s := by
  rintro s ⟨hs, hs₂⟩
  have h' := h s hs
  have h₂' := h₂ s hs₂
  rcases hr : exec m s with ⟨r, s'⟩
  rw [hr] at h' h₂'
  cases r with
  | ok a => exact ⟨h', h₂'⟩
  | error e => exact ⟨h', h₂'⟩

end Rules

section Observe

variable {obs : σ → τ} {t : τ} {m : Program σ ε α} {f : α → Program σ ε β}
variable {Q Q' : α → τ → Prop} {R : β → τ → Prop} {E E' : ε → τ → Prop}

def Observes (obs : σ → τ) (t : τ) (m : Program σ ε α) (Q : α → τ → Prop) (E : ε → τ → Prop) : Prop :=
  Triple (fun s => obs s = t) m (fun a s => Q a (obs s)) fun e s => E e (obs s)

theorem Observes.pure {a : α} (h : Q a t) : Observes obs t (Pure.pure a : Program σ ε α) Q E := by
  rintro s rfl
  exact h

theorem Observes.throw {e : ε} (h : E e t) : Observes obs t (MonadExcept.throw e : Program σ ε α) Q E := by
  rintro s rfl
  exact h

theorem Observes.bind (hm : Observes obs t m Q E) (hf : ∀ a u, Q a u → Observes obs u (f a) R E) :
    Observes obs t (m >>= f) R E :=
  Triple.bind hm fun a s hs => hf a (obs s) hs s rfl

theorem Observes.imp (h : Observes obs t m Q E) (hQ : ∀ a u, Q a u → Q' a u) (hE : ∀ e u, E e u → E' e u) :
    Observes obs t m Q' E' :=
  Triple.imp h (fun _ hs => hs) (fun a s => hQ a (obs s)) fun e s => hE e (obs s)

theorem Observes.ite {c : Prop} [Decidable c] {n : Program σ ε α} (hm : c → Observes obs t m Q E)
    (hn : ¬c → Observes obs t n Q E) : Observes obs t (if c then m else n) Q E := by
  by_cases hc : c
  · rw [if_pos hc]
    exact hm hc
  · rw [if_neg hc]
    exact hn hc

def Ignores (obs : σ → τ) (m : Program σ ε α) : Prop :=
  ∀ t, Observes obs t m (fun _ u => u = t) fun _ u => u = t

theorem Ignores.pure (a : α) : Ignores obs (Pure.pure a : Program σ ε α) := fun _ => Observes.pure rfl

theorem Ignores.throw (e : ε) : Ignores obs (MonadExcept.throw e : Program σ ε α) := fun _ => Observes.throw rfl

theorem Ignores.bind (hm : Ignores obs m) (hf : ∀ a, Ignores obs (f a)) : Ignores obs (m >>= f) := by
  refine fun t => Observes.bind (hm t) ?_
  rintro a u rfl
  exact hf a u

theorem Ignores.ite {c : Prop} [Decidable c] {n : Program σ ε α} (hm : Ignores obs m) (hn : Ignores obs n) :
    Ignores obs (if c then m else n) := fun t => Observes.ite (fun _ => hm t) fun _ => hn t

theorem Ignores.when {c : Bool} {m : Program σ ε Unit} (hm : Ignores obs m) : Ignores obs (when c m) :=
  Ignores.ite hm (Ignores.pure ())

theorem Ignores.zoom {υ : Type} {p : Part σ υ} {m : Program υ ε α} (h : ∀ u s, obs (p.set u s) = obs s) :
    Ignores obs (Program.zoom p m) := by
  rintro t s rfl
  rw [exec_zoom]
  cases (exec m (p.get s)).1 with
  | ok a => exact h _ s
  | error e => exact h _ s

end Observe

end Program

end WslPlus

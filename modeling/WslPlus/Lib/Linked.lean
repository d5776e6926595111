import Mathlib.Data.List.Basic

/-!
# Singly linked lists

The nodes of a list are linked by a function that gives the next node. A node that is not
in the list may be linked anew without changing the list.
-/

namespace WslPlus

variable {α : Type}

/-- The nodes from a pointer on, up to the null pointer. -/
inductive Linked (next : α → Option α) : Option α → List α → Prop where
  | nil : Linked next none []
  | cons {a : α} {rest : List α} (h : Linked next (next a) rest) : Linked next (some a) (a :: rest)

namespace Linked

variable {next : α → Option α} {p : Option α} {nodes : List α} {a : α}

theorem nil_iff : Linked next p [] ↔ p = none := by
  constructor
  · intro h
    cases h
    rfl
  · rintro rfl
    exact .nil

theorem none_iff : Linked next none nodes ↔ nodes = [] := by
  constructor
  · intro h
    cases h
    rfl
  · rintro rfl
    exact .nil

theorem some_iff : Linked next (some a) nodes ↔ ∃ rest, nodes = a :: rest ∧ Linked next (next a) rest := by
  constructor
  · intro h
    cases h with
    | cons h => exact ⟨_, rfl, h⟩
  · rintro ⟨rest, rfl, h⟩
    exact .cons h

theorem unique {nodes' : List α} (h : Linked next p nodes) (h' : Linked next p nodes') : nodes = nodes' := by
  induction h generalizing nodes' with
  | nil => exact (none_iff.mp h').symm
  | cons _ ih =>
    obtain ⟨rest, rfl, hrest⟩ := some_iff.mp h'
    rw [ih hrest]

theorem of_append {before after : List α} (h : Linked next p (before ++ a :: after)) :
    Linked next (some a) (a :: after) := by
  induction before generalizing p with
  | nil =>
    cases h with
    | cons h => exact .cons h
  | cons b before ih =>
    cases h with
    | cons h => exact ih h

theorem not_mem_tail {rest : List α} (h : Linked next p (a :: rest)) : a ∉ rest := by
  intro hmem
  obtain ⟨before, after, rfl⟩ := List.append_of_mem hmem
  have htail : Linked next (some a) (a :: after) :=
    of_append (show Linked next p ((a :: before) ++ a :: after) from h)
  have hwhole : Linked next (some a) (a :: (before ++ a :: after)) :=
    of_append (show Linked next p ([] ++ a :: (before ++ a :: after)) from h)
  have hlen := congrArg List.length (htail.unique hwhole)
  simp only [List.length_cons, List.length_append] at hlen
  omega

theorem congr {next' : α → Option α} (h : Linked next p nodes) (heq : ∀ a ∈ nodes, next' a = next a) :
    Linked next' p nodes := by
  induction h with
  | nil => exact .nil
  | cons _ ih =>
    apply Linked.cons
    rw [heq _ List.mem_cons_self]
    exact ih fun a ha => heq a (List.mem_cons_of_mem _ ha)

variable [DecidableEq α]

theorem update (h : Linked next p nodes) (hout : a ∉ nodes) (q : Option α) :
    Linked (Function.update next a q) p nodes := by
  apply h.congr
  intro b hb
  apply Function.update_of_ne
  rintro rfl
  exact hout hb

theorem push (h : Linked next p nodes) (hout : a ∉ nodes) :
    Linked (Function.update next a p) (some a) (a :: nodes) := by
  apply Linked.cons
  rw [Function.update_self]
  exact h.update hout p

end Linked

end WslPlus

import Mathlib.Data.List.Basic

/-!
# Lexical resolution of paths

A path is a list of moves from the root: into a directory, up to the parent, or nowhere. A
position is the list of the names that lead to it. Above the root there is nothing, so a
move up from it either fails or stays.
-/

namespace WslPlus.Lexical

open List

variable {α : Type}

inductive Move (α : Type) where
  | stay
  | up
  | down (name : α)

def within (position : List α) : Move α → Option (List α)
  | .stay => some position
  | .up => if position = [] then none else some position.dropLast
  | .down name => some (position ++ [name])

def clamped (position : List α) : Move α → List α
  | .stay => position
  | .up => position.dropLast
  | .down name => position ++ [name]

def resolveWithin (moves : List (Move α)) : Option (List α) := moves.foldlM within []

def resolve (moves : List (Move α)) : List α := moves.foldl clamped []

def Move.isUp : Move α → Bool
  | .up => true
  | _ => false

def Move.isDown : Move α → Bool
  | .down _ => true
  | _ => false

variable {moves : List (Move α)}

theorem length_foldlM_within {position result : List α} (h : moves.foldlM within position = some result) :
    result.length + moves.countP Move.isUp = position.length + moves.countP Move.isDown := by
  induction moves generalizing position with
  | nil =>
    cases h
    rfl
  | cons move moves ih =>
    rw [foldlM_cons] at h
    obtain ⟨next, hstep, hrest⟩ := Option.bind_eq_some_iff.mp h
    have hlen := ih hrest
    rw [countP_cons, countP_cons]
    cases move with
    | stay =>
      cases hstep
      simpa [Move.isUp, Move.isDown] using hlen
    | up =>
      simp only [within] at hstep
      split at hstep
      · cases hstep
      · rename_i hne
        cases hstep
        have hpos := length_pos_iff.mpr hne
        rw [length_dropLast] at hlen
        simp only [Move.isUp, Move.isDown, if_true, Bool.false_eq_true, if_false]
        omega
    | down name =>
      cases hstep
      rw [length_append, length_singleton] at hlen
      simp only [Move.isUp, Move.isDown, if_true, Bool.false_eq_true, if_false]
      omega

theorem foldl_clamped_of_within {position result : List α}
    (h : moves.foldlM within position = some result) : moves.foldl clamped position = result := by
  induction moves generalizing position with
  | nil => exact Option.some.inj h
  | cons move moves ih =>
    rw [foldlM_cons] at h
    obtain ⟨next, hstep, hrest⟩ := Option.bind_eq_some_iff.mp h
    have hnext : clamped position move = next := by
      cases move with
      | stay => exact Option.some.inj hstep
      | up =>
        simp only [within] at hstep
        split at hstep
        · cases hstep
        · exact Option.some.inj hstep
      | down name => exact Option.some.inj hstep
    rw [foldl_cons, hnext]
    exact ih hrest

theorem foldl_clamped_down (names position : List α) :
    (names.map Move.down).foldl clamped position = position ++ names := by
  induction names generalizing position with
  | nil => exact (append_nil position).symm
  | cons name names ih =>
    rw [map_cons, foldl_cons, ih]
    exact append_assoc position [name] names

theorem mem_foldl_clamped {position : List α} {name : α}
    (h : name ∈ moves.foldl clamped position) : name ∈ position ∨ Move.down name ∈ moves := by
  induction moves generalizing position with
  | nil => exact .inl h
  | cons move moves ih =>
    rcases ih h with hpos | hmoves
    · cases move with
      | stay => exact .inl hpos
      | up => exact .inl (dropLast_subset _ hpos)
      | down other =>
        rcases mem_append.mp hpos with hold | hnew
        · exact .inl hold
        · rw [mem_singleton] at hnew
          subst hnew
          exact .inr mem_cons_self
    · exact .inr (mem_cons_of_mem _ hmoves)

end WslPlus.Lexical

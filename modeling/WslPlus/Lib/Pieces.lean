import WslPlus.Lib.Segments
import Mathlib.Data.List.Infix

/-!
# The pieces of a stream

A stream is read element by element and cut behind each terminator. The terminators are
not part of the pieces. What is behind the last terminator is a piece as well.
-/

namespace WslPlus

open List

/-- What was read of a stream: the pieces that are ended and the one that is not. -/
structure Pieces (α : Type) where
  ended : List (List α) := []
  last : List α := []

namespace Pieces

variable {α : Type} [DecidableEq α] {sep stream last : List α} {ended : List (List α)} {p : Pieces α}

def read (sep : List α) (p : Pieces α) (a : α) : Pieces α :=
  let last := p.last ++ [a]
  if sep <:+ last then ⟨p.ended ++ [last.take (last.length - sep.length)], []⟩
  else { p with last := last }

def all (p : Pieces α) : List (List α) := p.ended ++ [p.last]

def ofStream (sep stream : List α) : Pieces α := stream.foldl (read sep) {}

theorem read_of_suffix {a : α} {piece : List α} (h : p.last ++ [a] = piece ++ sep) :
    p.read sep a = ⟨p.ended ++ [piece], []⟩ := by
  have hsuffix : sep <:+ p.last ++ [a] := ⟨piece, h.symm⟩
  unfold read
  simp only [if_pos hsuffix]
  rw [h, length_append, Nat.add_sub_cancel, take_left' rfl]

theorem read_of_not_suffix {a : α} (h : ¬ sep <:+ p.last ++ [a]) :
    p.read sep a = { p with last := p.last ++ [a] } := if_neg h

theorem foldl_read_of_not_suffix {part : List α} (h : ∀ l, l ≠ [] → l <+: part → ¬ sep <:+ p.last ++ l) :
    part.foldl (read sep) p = { p with last := p.last ++ part } := by
  induction part using List.reverseRecOn with
  | nil => simp
  | append_singleton part a ih =>
    have hpart : part.foldl (read sep) p = { p with last := p.last ++ part } := by
      apply ih
      intro l hne hl
      exact h l hne (hl.trans (prefix_append part [a]))
    rw [foldl_concat, hpart, read_of_not_suffix]
    · simp only [append_assoc]
    · have hlast := h (part ++ [a]) (by simp) (prefix_refl _)
      rwa [← append_assoc] at hlast

/-- The pieces make up what was read, and no terminator is in any of them. -/
structure Of (sep stream : List α) (p : Pieces α) : Prop where
  joined : stream = sep.intercalate p.all
  free : ∀ piece ∈ p.all, ¬ sep <:+: piece

omit [DecidableEq α] in
theorem intercalate_concat_append (ended : List (List α)) (last more : List α) :
    sep.intercalate (ended ++ [last ++ more]) = sep.intercalate (ended ++ [last]) ++ more := by
  by_cases hended : ended = []
  · simp [hended]
  · rw [Segments.intercalate_concat hended, Segments.intercalate_concat hended]
    simp only [append_assoc]

omit [DecidableEq α] in
theorem intercalate_concat_nil (ended : List (List α)) (last : List α) :
    sep.intercalate (ended ++ [last] ++ [[]]) = sep.intercalate (ended ++ [last]) ++ sep := by
  rw [Segments.intercalate_concat (by simp), append_nil]

omit [DecidableEq α] in
theorem prefix_of_concat_eq {a : α} {piece : List α} (hsep : sep ≠ []) (h : last ++ [a] = piece ++ sep) :
    piece <+: last := by
  obtain ⟨front, b, rfl⟩ := eq_nil_or_concat sep |>.resolve_left hsep
  rw [concat_eq_append, ← append_assoc] at h
  exact ⟨front, (append_inj' h rfl).1.symm⟩

theorem Of.read (hsep : sep ≠ []) (hp : Of sep stream p) (a : α) : Of sep (stream ++ [a]) (p.read sep a) := by
  have hjoined : stream ++ [a] = sep.intercalate (p.ended ++ [p.last ++ [a]]) := by
    rw [intercalate_concat_append, hp.joined, all]
  have hended : ∀ piece ∈ p.ended, ¬ sep <:+: piece := by
    intro piece hpiece
    exact hp.free piece (mem_append_left _ hpiece)
  have hlast : ¬ sep <:+: p.last := hp.free p.last (by simp [all])
  by_cases hsuffix : sep <:+ p.last ++ [a]
  · obtain ⟨piece, hpiece⟩ := hsuffix
    rw [read_of_suffix hpiece.symm]
    constructor
    · rw [hjoined, ← hpiece, intercalate_concat_append, all, intercalate_concat_nil]
    · intro piece' hmem
      simp only [all, mem_append, mem_singleton] at hmem
      obtain (hmem | rfl) | rfl := hmem
      · exact hended piece' hmem
      · intro hfound
        exact hlast (hfound.trans (prefix_of_concat_eq hsep hpiece.symm).isInfix)
      · intro hfound
        exact hsep (infix_nil.mp hfound)
  · rw [read_of_not_suffix hsuffix]
    constructor
    · exact hjoined
    · intro piece' hmem
      simp only [all, mem_append, mem_singleton] at hmem
      obtain hmem | rfl := hmem
      · exact hended piece' hmem
      · rw [infix_concat_iff]
        rintro (hfound | hfound)
        · exact hsuffix hfound
        · exact hlast hfound

theorem of_ofStream (hsep : sep ≠ []) (stream : List α) : Of sep stream (ofStream sep stream) := by
  induction stream using List.reverseRecOn with
  | nil =>
    constructor
    · rfl
    · intro piece hmem hfound
      simp only [ofStream, all, foldl_nil, nil_append, mem_singleton] at hmem
      subst hmem
      exact hsep (infix_nil.mp hfound)
  | append_singleton stream a ih =>
    rw [ofStream, foldl_concat]
    exact ih.read hsep a

end Pieces

end WslPlus

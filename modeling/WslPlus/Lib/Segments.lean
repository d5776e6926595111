import Mathlib.Data.List.Basic
import Mathlib.Data.List.TakeWhile

/-!
# Lists of segments between separators

A joined list is empty or consists of good segments with one separator between each two
of them. Appending a segment and cutting at the last separator keep it joined.
-/

namespace WslPlus.Segments

open List

variable {α : Type} [DecidableEq α] {sep : α} {good : List α → Prop}

/-- A separator is put in between unless there is nothing before it or one already. -/
def append (sep : α) (base name : List α) : List α :=
  if base = [] then name
  else if base.getLast? = some sep then base ++ name
  else base ++ sep :: name

def cutAtLast (sep : α) (l : List α) : List α := ((l.reverse.dropWhile (· != sep)).drop 1).reverse

def Joined (sep : α) (good : List α → Prop) (l : List α) : Prop :=
  ∃ cs : List (List α), (∀ c ∈ cs, good c) ∧ l = [sep].intercalate cs

omit [DecidableEq α] in
theorem joined_nil : Joined sep good [] := ⟨[], by simp, rfl⟩

omit [DecidableEq α] in
theorem intercalate_concat {glue : List α} {cs : List (List α)} (hne : cs ≠ []) (c : List α) :
    glue.intercalate (cs ++ [c]) = glue.intercalate cs ++ (glue ++ c) := by
  induction cs with
  | nil => exact absurd rfl hne
  | cons d cs ih =>
    cases cs with
    | nil => simp [List.intercalate]
    | cons e cs =>
      have hrest := ih (cons_ne_nil e cs)
      rw [cons_append, cons_append, intercalate_cons_cons, ← cons_append, hrest,
        intercalate_cons_cons]
      simp

theorem length_lt_append {base name : List α} (hname : name ≠ []) :
    base.length < (append sep base name).length := by
  have hpos := length_pos_iff.mpr hname
  unfold append
  split
  · rename_i hbase
    rw [hbase]
    exact hpos
  · split
    · rw [length_append]
      omega
    · rw [length_append, length_cons]
      omega

section Good

variable (hgood : ∀ c, good c → c ≠ [] ∧ sep ∉ c)
include hgood

omit [DecidableEq α] in
theorem getLast_joined {cs : List (List α)} (hcs : ∀ c ∈ cs, good c) (hne : cs ≠ []) :
    [sep].intercalate cs ≠ [] ∧ ([sep].intercalate cs).getLast? ≠ some sep := by
  obtain ⟨ds, c, rfl⟩ : ∃ ds c, cs = ds ++ [c] := ⟨_, _, (dropLast_append_getLast hne).symm⟩
  obtain ⟨hc, hsep⟩ := hgood c (hcs c (by simp))
  obtain ⟨pre, hpre⟩ : ∃ pre, [sep].intercalate (ds ++ [c]) = pre ++ c := by
    by_cases hds : ds = []
    · exact ⟨[], by simp [hds]⟩
    · exact ⟨[sep].intercalate ds ++ [sep], by rw [intercalate_concat hds]; simp⟩
  rw [hpre]
  refine ⟨by simp [hc], ?_⟩
  rw [getLast?_append_of_ne_nil _ hc, getLast?_eq_some_getLast hc]
  intro h
  exact hsep ((Option.some.inj h) ▸ getLast_mem hc)

theorem append_joined {cs : List (List α)} (hcs : ∀ c ∈ cs, good c) (c : List α) :
    append sep ([sep].intercalate cs) c = [sep].intercalate (cs ++ [c]) := by
  by_cases hne : cs = []
  · simp [hne, append]
  · obtain ⟨h1, h2⟩ := getLast_joined hgood hcs hne
    rw [append, if_neg h1, if_neg h2, intercalate_concat hne, singleton_append]

theorem Joined.append {l c : List α} (h : Joined sep good l) (hc : good c) :
    Joined sep good (append sep l c) := by
  obtain ⟨cs, hcs, rfl⟩ := h
  refine ⟨cs ++ [c], ?_, append_joined hgood hcs c⟩
  intro d hd
  rcases mem_append.mp hd with hd | hd
  · exact hcs d hd
  · rw [mem_singleton.mp hd]
    exact hc

omit hgood in
theorem dropWhile_ne {l : List α} (h : sep ∉ l) : l.dropWhile (· != sep) = [] := by
  rw [dropWhile_eq_nil_iff]
  intro x hx
  simp only [bne_iff_ne, ne_eq]
  rintro rfl
  exact h hx

theorem cutAtLast_concat (cs : List (List α)) {c : List α} (hc : good c) :
    cutAtLast sep ([sep].intercalate (cs ++ [c])) = [sep].intercalate cs := by
  obtain ⟨-, hsep⟩ := hgood c hc
  have hrev : sep ∉ c.reverse := by simpa using hsep
  by_cases hne : cs = []
  · simp [hne, cutAtLast, dropWhile_ne hrev]
  · rw [intercalate_concat hne, singleton_append, cutAtLast, reverse_append,
      reverse_cons, append_assoc,
      dropWhile_append_of_pos (by
        intro x hx
        simp only [bne_iff_ne, ne_eq]
        rintro rfl
        exact hrev hx)]
    simp

theorem Joined.cutAtLast {l : List α} (h : Joined sep good l) : Joined sep good (cutAtLast sep l) := by
  obtain ⟨cs, hcs, rfl⟩ := h
  by_cases hne : cs = []
  · exact ⟨[], by simp, by simp [hne, Segments.cutAtLast]⟩
  · have hsplit := dropLast_append_getLast hne
    have hinit : ∀ c ∈ cs.dropLast, good c := fun c hc => hcs c (dropLast_subset cs hc)
    refine ⟨cs.dropLast, hinit, ?_⟩
    have hcut := cutAtLast_concat hgood cs.dropLast (hcs _ (getLast_mem hne))
    rwa [hsplit] at hcut

end Good

end WslPlus.Segments

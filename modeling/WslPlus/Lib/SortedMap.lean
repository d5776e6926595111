import Mathlib.Data.List.Basic
import Mathlib.Order.Lattice

/-!
# Maps that are gone through in the order of their keys

The entries of a map are a list with increasing keys. Putting the entries of a map into
an empty one, in their order, gives the map back.
-/

namespace WslPlus

open List

structure SortedMap (κ ν : Type) [LinearOrder κ] where
  entries : List (κ × ν)
  sorted : entries.Pairwise fun a b => a.1 < b.1

namespace SortedMap

variable {κ ν : Type} [LinearOrder κ]

/-- A new entry goes in front of the first greater key, a known key gets the new value. -/
def putEntry (k : κ) (v : ν) : List (κ × ν) → List (κ × ν)
  | [] => [(k, v)]
  | e :: es =>
    if k = e.1 then (k, v) :: es
    else if k < e.1 then (k, v) :: e :: es
    else e :: putEntry k v es

theorem mem_putEntry {k : κ} {v : ν} {es : List (κ × ν)} {e : κ × ν} (h : e ∈ putEntry k v es) :
    e = (k, v) ∨ e ∈ es := by
  induction es with
  | nil => exact Or.inl (mem_singleton.mp h)
  | cons d es ih =>
    unfold putEntry at h
    split at h
    · rcases mem_cons.mp h with h | h
      · exact Or.inl h
      · exact Or.inr (mem_cons_of_mem d h)
    · split at h
      · exact mem_cons.mp h
      · rcases mem_cons.mp h with h | h
        · exact Or.inr (h ▸ mem_cons_self)
        · exact (ih h).imp_right (mem_cons_of_mem d)

theorem sorted_putEntry {es : List (κ × ν)} (k : κ) (v : ν) (h : es.Pairwise fun a b => a.1 < b.1) :
    (putEntry k v es).Pairwise fun a b => a.1 < b.1 := by
  induction es with
  | nil => exact pairwise_singleton _ _
  | cons d es ih =>
    obtain ⟨hd, hes⟩ := pairwise_cons.mp h
    unfold putEntry
    split
    · rename_i heq
      exact pairwise_cons.mpr ⟨fun e he => heq ▸ hd e he, hes⟩
    · rename_i hne
      split
      · rename_i hlt
        refine pairwise_cons.mpr ⟨fun e he => ?_, h⟩
        rcases mem_cons.mp he with rfl | he
        · exact hlt
        · exact lt_trans hlt (hd e he)
      · rename_i hnlt
        refine pairwise_cons.mpr ⟨fun e he => ?_, ih hes⟩
        rcases mem_putEntry he with rfl | he
        · exact lt_of_le_of_ne (not_lt.mp hnlt) (Ne.symm hne)
        · exact hd e he

theorem putEntry_of_greatest {es : List (κ × ν)} {k : κ} (v : ν) (h : ∀ e ∈ es, e.1 < k) :
    putEntry k v es = es ++ [(k, v)] := by
  induction es with
  | nil => rfl
  | cons d es ih =>
    have hd := h d mem_cons_self
    have hes := ih fun e he => h e (mem_cons_of_mem d he)
    rw [putEntry, if_neg (ne_of_gt hd), if_neg (not_lt_of_gt hd), hes]
    rfl

def empty : SortedMap κ ν := ⟨[], List.Pairwise.nil⟩

def put (k : κ) (v : ν) (m : SortedMap κ ν) : SortedMap κ ν :=
  ⟨putEntry k v m.entries, sorted_putEntry k v m.sorted⟩

def find (k : κ) (m : SortedMap κ ν) : Option ν := (m.entries.find? fun e => e.1 = k).map Prod.snd

theorem mem_put {k : κ} {v : ν} {m : SortedMap κ ν} {e : κ × ν} (h : e ∈ (m.put k v).entries) :
    e = (k, v) ∨ e ∈ m.entries := mem_putEntry h

theorem ext {m m' : SortedMap κ ν} (h : m.entries = m'.entries) : m = m' := by
  cases m
  cases m'
  cases h
  rfl

theorem foldl_put_entries (es rest : List (κ × ν)) (hes : es.Pairwise fun a b => a.1 < b.1)
    (h : (es ++ rest).Pairwise fun a b => a.1 < b.1) :
    (rest.foldl (fun m e => put e.1 e.2 m) (⟨es, hes⟩ : SortedMap κ ν)).entries = es ++ rest := by
  induction rest generalizing es with
  | nil => simp
  | cons e rest ih =>
    have hgreatest : ∀ d ∈ es, d.1 < e.1 := by
      intro d hd
      exact (pairwise_append.mp h).2.2 d hd e mem_cons_self
    have hput : put e.1 e.2 (⟨es, hes⟩ : SortedMap κ ν) = ⟨es ++ [e], by
        have hsorted := sorted_putEntry e.1 e.2 hes
        rwa [putEntry_of_greatest e.2 hgreatest] at hsorted⟩ :=
      ext (putEntry_of_greatest e.2 hgreatest)
    have hassoc : es ++ e :: rest = es ++ [e] ++ rest := by simp
    rw [hassoc] at h ⊢
    rw [foldl_cons, hput]
    exact ih (es ++ [e]) _ h

theorem foldl_put_self (m : SortedMap κ ν) : m.entries.foldl (fun m e => put e.1 e.2 m) empty = m :=
  ext (foldl_put_entries [] m.entries List.Pairwise.nil m.sorted)

end SortedMap

end WslPlus

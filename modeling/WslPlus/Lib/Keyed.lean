import Mathlib.Data.List.Nodup

/-!
# Lists of entries by key

An entry is put at the end of the list in place of the one with its key, so that the list
is a map from its keys.
-/

namespace WslPlus.Keyed

open Function List

variable {κ α : Type} [DecidableEq κ] (key : α → κ)

def lookup (l : List α) (k : κ) : Option α := l.find? fun x => decide (key x = k)

def erase (k : κ) (l : List α) : List α := l.filter fun x => decide (key x ≠ k)

def put (x : α) (l : List α) : List α := erase key (key x) l ++ [x]

def Distinct (l : List α) : Prop := (l.map key).Nodup

variable {key} {l : List α} {k : κ} {x : α}

theorem key_of_lookup (h : lookup key l k = some x) : key x = k := by
  have hdecide := find?_some h
  exact of_decide_eq_true hdecide

theorem mem_of_lookup (h : lookup key l k = some x) : x ∈ l := mem_of_find?_eq_some h

theorem lookup_eq_none_iff : lookup key l k = none ↔ ∀ x ∈ l, key x ≠ k := by
  simp [lookup]

theorem lookup_of_mem (hl : Distinct key l) (hx : x ∈ l) : lookup key l (key x) = some x := by
  induction l with
  | nil => cases hx
  | cons y l ih =>
    obtain ⟨hnot, hl⟩ := nodup_cons.mp hl
    rcases mem_cons.mp hx with rfl | hx
    · simp [lookup]
    · have hne : key y ≠ key x := fun heq => hnot (heq ▸ mem_map_of_mem hx)
      have hskip : lookup key (y :: l) (key x) = lookup key l (key x) := by simp [lookup, hne]
      rw [hskip, ih hl hx]

theorem mem_erase : x ∈ erase key k l ↔ x ∈ l ∧ key x ≠ k := by
  simp [erase]

theorem lookup_erase (k' : κ) : lookup key (erase key k l) k' = if k' = k then none else lookup key l k' := by
  induction l with
  | nil => simp [erase, lookup]
  | cons y l ih =>
    have hcons : ∀ l' : List α, lookup key (y :: l') k' = if key y = k' then some y else lookup key l' k' := by
      intro l'
      by_cases hy : key y = k' <;> simp [lookup, hy]
    by_cases hk : key y = k
    · have herase : erase key k (y :: l) = erase key k l := by simp [erase, hk]
      rw [herase, ih, hcons]
      split
      · rfl
      · rename_i hne
        rw [if_neg fun heq => hne (heq.symm.trans hk)]
    · have herase : erase key k (y :: l) = y :: erase key k l := by simp [erase, hk]
      rw [herase, hcons, hcons, ih]
      by_cases hy : key y = k'
      · rw [if_pos hy, if_pos hy, if_neg fun heq => hk (hy.trans heq)]
      · rw [if_neg hy, if_neg hy]

theorem lookup_put (k : κ) : lookup key (put key x l) k = if k = key x then some x else lookup key l k := by
  have happ : lookup key (put key x l) k = (lookup key (erase key (key x) l) k).or (lookup key [x] k) := by
    simp [put, lookup]
  rw [happ, lookup_erase]
  by_cases hk : k = key x
  · simp [hk, lookup]
  · have hne : key x ≠ k := fun heq => hk heq.symm
    simp [hk, hne, lookup]

theorem lookup_map {f : α → α} (hf : ∀ x, key (f x) = key x) (k : κ) :
    lookup key (l.map f) k = (lookup key l k).map f := by
  simp [lookup, find?_map, comp_def, hf]

theorem distinct_erase (h : Distinct key l) : Distinct key (erase key k l) :=
  h.sublist (filter_sublist.map key)

omit [DecidableEq κ] in
theorem distinct_concat (h : Distinct key l) (hx : ∀ y ∈ l, key y ≠ key x) : Distinct key (l ++ [x]) := by
  have hnot : key x ∉ l.map key := by
    intro hmem
    obtain ⟨y, hy, heq⟩ := mem_map.mp hmem
    exact hx y hy heq
  rw [Distinct, map_append]
  exact h.append (nodup_singleton _) (by simpa using hnot)

theorem distinct_put (h : Distinct key l) : Distinct key (put key x l) :=
  distinct_concat (distinct_erase h) fun _ hy => (mem_erase.mp hy).2

omit [DecidableEq κ] in
theorem distinct_map {f : α → α} (hf : ∀ x, key (f x) = key x) (h : Distinct key l) :
    Distinct key (l.map f) := by
  rw [Distinct, map_map]
  simpa [comp_def, hf, Distinct] using h

theorem put_ne_nil : put key x l ≠ [] := by simp [put]

theorem length_erase_iff : (erase key k l).length = l.length ↔ lookup key l k = none := by
  rw [lookup_eq_none_iff, erase, length_filter_eq_length_iff]
  simp

theorem countP_erase (hl : Distinct key l) (hx : lookup key l k = some x) (p : α → Bool) :
    l.countP p = (erase key k l).countP p + if p x then 1 else 0 := by
  induction l with
  | nil => cases hx
  | cons y l ih =>
    obtain ⟨hnot, hl⟩ := nodup_cons.mp hl
    by_cases hy : key y = k
    · have hxy : x = y := by simpa [lookup, hy] using hx.symm
      have hrest : erase key k l = l := by
        apply filter_eq_self.mpr
        intro z hz
        have hne : key z ≠ k := fun heq => hnot (hy ▸ heq ▸ mem_map_of_mem hz)
        exact decide_eq_true hne
      have herase : erase key k (y :: l) = erase key k l := by simp [erase, hy]
      rw [herase, hrest, hxy, countP_cons]
    · have hlook : lookup key l k = some x := by simpa [lookup, hy] using hx
      have herase : erase key k (y :: l) = y :: erase key k l := by simp [erase, hy]
      rw [herase, countP_cons, countP_cons, ih hl hlook]
      omega

theorem lookup_put_eq_update : lookup key (put key x l) = update (lookup key l) (key x) (some x) := by
  funext k
  rw [lookup_put, update_apply]

theorem lookup_kept_iff {f : α → α} (hf : ∀ x, key (f x) = key x) (hl : Distinct key l) :
    lookup key ((erase key k l).map f) = update (lookup key l) k none ↔ ∀ x ∈ l, key x ≠ k → f x = x := by
  constructor
  · intro h x hx hne
    have hlookup := congrFun h (key x)
    rw [lookup_map hf, lookup_erase, if_neg hne, update_of_ne hne, lookup_of_mem hl hx] at hlookup
    exact Option.some.inj hlookup
  · intro h
    funext k'
    rw [lookup_map hf, lookup_erase]
    by_cases heq : k' = k
    · simp [heq]
    · rw [if_neg heq, update_of_ne heq]
      cases hlookup : lookup key l k' with
      | none => rfl
      | some x =>
        have hkey := key_of_lookup hlookup
        rw [Option.map_some, h x (mem_of_lookup hlookup) (hkey ▸ heq)]

theorem exists_key_iff : (∃ x ∈ l, key x = k) ↔ lookup key l k ≠ none := by
  rw [ne_eq, lookup_eq_none_iff]
  simp

variable {β γ : Type}

def value (k : κ) : List (κ × β) → Option β
  | [] => none
  | (k', v) :: entries => if k' = k then some v else value k entries

/-- The value of a key is replaced where it stands, or the key is new at the end. -/
def assign (k : κ) (v : β) : List (κ × β) → List (κ × β)
  | [] => [(k, v)]
  | (k', v') :: entries => if k' = k then (k, v) :: entries else (k', v') :: assign k v entries

theorem value_assign (k k' : κ) (v : β) (entries : List (κ × β)) :
    value k' (assign k v entries) = if k' = k then some v else value k' entries := by
  induction entries with
  | nil =>
    by_cases h : k' = k
    · simp [assign, value, h]
    · simp [assign, value, h, Ne.symm h]
  | cons entry entries ih =>
    obtain ⟨k'', v'⟩ := entry
    by_cases h : k'' = k
    · subst h
      by_cases h' : k' = k''
      · simp [assign, value, h']
      · simp [assign, value, h', Ne.symm h']
    · rw [assign, if_neg h, value, ih, value]
      by_cases h' : k'' = k'
      · subst h'
        simp [h]
      · rw [if_neg h', if_neg h']

theorem value_append (k : κ) (entries entries' : List (κ × β)) :
    value k (entries ++ entries') = (value k entries).or (value k entries') := by
  induction entries with
  | nil => rfl
  | cons entry entries ih =>
    rw [cons_append, value, value, ih]
    split
    · rfl
    · rfl

theorem value_map (f : β → γ) (k : κ) (entries : List (κ × β)) :
    value k (entries.map fun e => (e.1, f e.2)) = (value k entries).map f := by
  induction entries with
  | nil => rfl
  | cons entry entries ih =>
    rw [map_cons, value, value, ih]
    split
    · rfl
    · rfl

theorem assign_map (f : β → γ) (k : κ) (v : β) (entries : List (κ × β)) :
    assign k (f v) (entries.map fun e => (e.1, f e.2)) = (assign k v entries).map fun e => (e.1, f e.2) := by
  induction entries with
  | nil => rfl
  | cons entry entries ih =>
    rw [map_cons, assign, assign, ih]
    split
    · rfl
    · rfl

end WslPlus.Keyed

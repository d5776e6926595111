import WslPlus.ConfigFile.Invalid

/-!
# A copy and its values

Update mode copies its own output as it is. A value that was accepted behind a key is
passed over again up to a comment in it or to the end of what was written, so that a
second write of the same value over it gives the same text when the value is bare.
-/

namespace WslPlus.ConfigFile

open List Reader

variable {k : ConfigKey} {r r' : Reader} {c d : WChar} {text before rest v post : List WChar}
  {sect : List UInt8} {q e : Bool}

section Copies

theorem whole_append (r : Reader) (t u : List WChar) :
    r.whole (t ++ u) = (r.whole t && (r.after t).whole u) := by
  induction t generalizing r with
  | nil => simp [whole]
  | cons c t ih => simp [whole, ih, Bool.and_assoc]

theorem copied_append (r : Reader) (t u : List WChar) :
    r.copied (t ++ u) = r.copied t ++ (r.after t).copied u := by
  induction t generalizing r with
  | nil => simp [copied]
  | cons c t ih => simp [copied, ih]

theorem away_append (r : Reader) (t u : List WChar) :
    r.away k (t ++ u) ↔ r.away k t ∧ (r.after t).away k u := by
  induction t generalizing r with
  | nil => simp [away]
  | cons c t ih => simp [away, ih, and_assoc]

abbrev Alike (r r' : Reader) : Prop := Like (fun _ => false) r r'

theorem Like.quotedHash {keep : List UInt8 → Bool} (h : Like keep r r') (c : WChar) :
    r.quotedHash c = r'.quotedHash c := by cases h <;> rfl

theorem Like.atPlace {keep : List UInt8 → Bool} (h : Like keep r r') (k : ConfigKey) (c : WChar) :
    r.atKey k c = r'.atKey k c ∧ r.atHeader k c = r'.atHeader k c := by
  cases h with
  | same => exact ⟨rfl, rfl⟩
  | value => exact ⟨rfl, rfl⟩
  | escape => exact ⟨rfl, rfl⟩

theorem alike_quotedHash (h : Alike r r') (hq : r.quotedHash c = true) : Alike (r.next c) r' := by
  have hnone : (r.valueName.any fun _ => false) = false := by cases r.valueName <;> rfl
  exact (like_quotedHash hq hnone).1.trans h

theorem copied_copied (h : Alike r r') (text : List WChar) : r'.copied (r.copied text) = r.copied text := by
  induction text generalizing r r' with
  | nil => rfl
  | cons c text ih =>
    cases hq : r.quotedHash c with
    | true => simpa [copied, hq] using ih (alike_quotedHash h hq)
    | false =>
      have hq' := (h.quotedHash c).symm.trans hq
      simp [copied, hq, hq', ih (h.next c)]

theorem whole_copied (h : Alike r r') (hw : r.whole text = true) : r'.whole (r.copied text) = true := by
  induction text generalizing r r' with
  | nil => rfl
  | cons c text ih =>
    simp only [whole, Bool.and_eq_true] at hw
    obtain ⟨hc, hw⟩ := hw
    cases hq : r.quotedHash c with
    | true => simpa [copied, hq] using ih (alike_quotedHash h hq) hw
    | false =>
      rw [h.cutOff c] at hc
      simp only [copied, hq, Bool.false_eq_true, if_false, singleton_append, whole,
        Bool.and_eq_true]
      exact ⟨hc, ih (h.next c) hw⟩

theorem away_copied (h : Alike r r') (ha : r.away k text) : r'.away k (r.copied text) := by
  induction text generalizing r r' with
  | nil => trivial
  | cons c text ih =>
    obtain ⟨hkey, hheader, ha⟩ := ha
    cases hq : r.quotedHash c with
    | true => simpa [copied, hq] using ih (alike_quotedHash h hq) ha
    | false =>
      obtain ⟨h1, h2⟩ := h.atPlace k c
      simp only [copied, hq, Bool.false_eq_true, if_false, singleton_append, away]
      exact ⟨h1 ▸ hkey, h2 ▸ hheader, ih (h.next c) ha⟩

/-- A text that update mode copies as it is. -/
structure Stays (r : Reader) (text : List WChar) : Prop where
  whole : r.whole text = true
  copied : r.copied text = text

theorem Stays.append {t u : List WChar} (h : Stays r t) (h' : Stays (r.after t) u) : Stays r (t ++ u) := by
  refine ⟨?_, ?_⟩
  · rw [whole_append, h.whole, h'.whole]
    rfl
  · rw [copied_append, h.copied, h'.copied]

theorem stays_copied (h : Alike r r') (hw : r.whole text = true) : Stays r' (r.copied text) :=
  ⟨whole_copied h hw, copied_copied h text⟩

theorem length_copied_le (r : Reader) (text : List WChar) : (r.copied text).length ≤ text.length := by
  induction text generalizing r with
  | nil => exact Nat.le_refl _
  | cons c text ih =>
    have hrest := ih (r.next c)
    rw [Reader.copied, length_append]
    split <;> simp <;> omega

theorem Stays.of_append {t u : List WChar} (h : Stays r (t ++ u)) : Stays r t ∧ Stays (r.after t) u := by
  have hw := h.whole
  have hc := h.copied
  rw [whole_append, Bool.and_eq_true] at hw
  rw [copied_append] at hc
  have hlen := congrArg List.length hc
  rw [length_append, length_append] at hlen
  have h1 := length_copied_le r t
  have h2 := length_copied_le (r.after t) u
  obtain ⟨ht, hu⟩ := append_inj hc (by omega)
  exact ⟨⟨hw.1, ht⟩, ⟨hw.2, hu⟩⟩

theorem stays_of_whole (hw : r.whole text = true) (hh : L '#' ∉ text) : Stays r text := by
  refine ⟨hw, ?_⟩
  induction text generalizing r with
  | nil => rfl
  | cons c text ih =>
    simp only [mem_cons, not_or] at hh
    simp only [Reader.whole, Bool.and_eq_true] at hw
    rw [Reader.copied, quotedHash_eq_false (Ne.symm hh.1), ih hw.2 hh.2]
    simp

end Copies

section Values

/-- The value is well formed up to its end: an unquoted `#` ends it, and no quote and no
escape stays open. -/
def closes (inQuote escaped : Bool) : List WChar → Bool
  | [] => !inQuote && !escaped
  | c :: v =>
    if escaped then (escapeText c).isSome && closes inQuote false v
    else if c = L '"' then closes (!inQuote) false v
    else if c = L '\\' then closes inQuote true v
    else if c = L '#' ∧ !inQuote then true
    else closes inQuote false v

def InValueOf (r : Reader) (q e : Bool) : Prop :=
  ∃ name, (e = false ∧ r.valueAt name q) ∨ (e = true ∧ ∃ v, r.phase = .escape name v q)

theorem InValueOf.escaped (h : InValueOf r q true) (hj : r.jumps c = false) :
    InValueOf (r.next c) q false ∧ (r.next c).sect = r.sect ∧ (escapeText c).isSome = true := by
  obtain ⟨sect, phase⟩ := r
  obtain ⟨name, ⟨hf, -⟩ | ⟨-, v, rfl⟩⟩ := h
  · cases hf
  · have hsome : (escapeText c).isSome = true := by simpa [jumps] using hj
    obtain ⟨bs, hbs⟩ := Option.isSome_iff_exists.mp hsome
    have hn : Reader.next ⟨sect, .escape name v q⟩ c = ⟨sect, .value name (v ++ bs) [] q⟩ := by
      simp [Reader.next, hbs]
    rw [hn]
    exact ⟨⟨name, .inl ⟨rfl, .inr ⟨_, _, rfl⟩⟩⟩, rfl, hsome⟩

theorem InValueOf.plain (h : InValueOf r q false) (he : isEol c = false)
    (hh : ¬ (c = L '#' ∧ !q)) : (r.next c).sect = r.sect ∧
      InValueOf (r.next c) (if c = L '"' then !q else q) (c == L '\\') := by
  obtain ⟨name, ⟨-, hat⟩ | ⟨hf, -⟩⟩ := h
  · obtain ⟨hsect, hnext⟩ := valueAt_next hat he hh
    refine ⟨hsect, name, ?_⟩
    by_cases hq : c = L '"'
    · subst hq
      exact .inl ⟨rfl, by simpa using hnext⟩
    rw [if_neg hq] at hnext ⊢
    by_cases hs : c = L '\\'
    · subst hs
      exact .inr ⟨rfl, by simpa using hnext⟩
    · rw [if_neg hs] at hnext
      exact .inl ⟨by simpa using hs, hnext⟩
  · cases hf

theorem InValueOf.ended (h : InValueOf r q false) (hd : d = L '\n' ∨ (d = L '#' ∧ !q)) :
    r.next d = ⟨r.sect, if d = L '#' then .comment else .lineStart⟩ := by
  obtain ⟨name, ⟨-, hat⟩ | ⟨hf, -⟩⟩ := h
  · obtain ⟨h1, h2⟩ := valueAt_end hat
    have hne : L '\n' ≠ L '#' := by decide
    rcases hd with rfl | ⟨rfl, hq⟩
    · rw [h1, if_neg hne]
    · rw [h2 (by simpa using hq), if_pos rfl]
  · cases hf

theorem accepts_oldValue (h : InValueOf r q e) (ha : r.accepts text = true) (hw : weof ∉ text)
    (hold : oldValue q e text = d :: rest) :
    accepts ⟨r.sect, if d = L '#' then .comment else .lineStart⟩ rest = true := by
  induction text generalizing r q e with
  | nil => cases hold
  | cons c text ih =>
    simp only [accepts, Bool.and_eq_true, Bool.not_eq_true'] at ha
    simp only [mem_cons, not_or] at hw
    rw [oldValue] at hold
    cases e with
    | true =>
      obtain ⟨hin, hsect, -⟩ := h.escaped ha.1
      rw [if_pos rfl] at hold
      rw [← hsect]
      exact ih hin ha.2 hw.2 hold
    | false =>
      rw [if_neg (by simp)] at hold
      by_cases hd : c = L '\n' ∨ (c = L '#' ∧ !q)
      · rw [if_pos hd] at hold
        obtain ⟨rfl, rfl⟩ := List.cons.inj hold
        rw [← h.ended hd]
        exact ha.2
      · rw [if_neg hd] at hold
        simp only [not_or] at hd
        have heol : isEol c = false := by simp [isEol, hd.1, Ne.symm hw.1]
        obtain ⟨hsect, hin⟩ := h.plain heol hd.2
        rw [← hsect]
        refine ih hin ha.2 hw.2 ?_
        by_cases hq : c = L '"'
        · subst hq
          have hne : (L '"' == L '\\') = false := by decide
          simpa [hne] using hold
        · simpa [hq] using hold

theorem closes_of_accepts (h : InValueOf r q e) (ha : r.accepts v = true)
    (hv : ∀ c ∈ v, isEol c = false) : closes q e v = true := by
  induction v generalizing r q e with
  | nil =>
    simp only [accepts, Bool.not_eq_true'] at ha
    obtain ⟨sect, phase⟩ := r
    have heof : isEol weof = true := by decide
    obtain ⟨name, ⟨rfl, ⟨rfl, rfl⟩ | ⟨kp, b, rfl⟩⟩ | ⟨rfl, w, rfl⟩⟩ := h
    · rfl
    · simpa [jumps, closes, heof] using ha
    · exact absurd ha (by simp [jumps]; decide)
  | cons c v ih =>
    simp only [accepts, Bool.and_eq_true, Bool.not_eq_true'] at ha
    have hrest : ∀ x ∈ v, isEol x = false := fun x hx => hv x (mem_cons_of_mem _ hx)
    have heol := hv c mem_cons_self
    rw [closes]
    cases e with
    | true =>
      obtain ⟨hin, -, hsome⟩ := h.escaped ha.1
      rw [if_pos rfl, hsome, ih hin ha.2 hrest]
      rfl
    | false =>
      rw [if_neg (by simp)]
      by_cases hh : c = L '#' ∧ !q
      · have hne : L '#' ≠ L '"' ∧ L '#' ≠ L '\\' := by decide
        obtain ⟨rfl, hq⟩ := hh
        rw [if_neg hne.1, if_neg hne.2, if_pos ⟨rfl, hq⟩]
      · obtain ⟨-, hin⟩ := h.plain heol hh
        have hclose := ih hin ha.2 hrest
        split
        · rename_i hq
          subst hq
          have hne : (L '"' == L '\\') = false := by decide
          simpa [hne] using hclose
        rename_i hq
        split
        · rename_i hs
          subst hs
          simpa [hq] using hclose
        rename_i hs
        have hs' : (c == L '\\') = false := by simpa using hs
        simpa [hq, hs'] using hclose

end Values

section Passing

theorem pass_value (hc : closes q e v = true) (hold : oldValue q e v = []) (blanks u : List WChar) :
    oldValue q e (v ++ u) = oldValue false false u ∧
      oldBlanks q e blanks (v ++ u) = oldBlanks false false (oldBlanks q e blanks v) u := by
  induction v generalizing q e blanks with
  | nil =>
    simp only [closes, Bool.and_eq_true, Bool.not_eq_true'] at hc
    obtain ⟨rfl, rfl⟩ := hc
    exact ⟨rfl, rfl⟩
  | cons c v ih =>
    rw [cons_append]
    rw [closes] at hc
    rw [oldValue] at hold
    simp only [oldValue, oldBlanks]
    cases e with
    | true =>
      simp only [if_true, Bool.and_eq_true] at hc hold ⊢
      exact ih hc.2 hold []
    | false =>
      simp only [Bool.false_eq_true, if_false] at hc hold ⊢
      by_cases hd : c = L '\n' ∨ (c = L '#' ∧ (!q) = true)
      · rw [if_pos hd] at hold
        cases hold
      rw [if_neg hd] at hold
      rw [if_neg hd, if_neg hd, if_neg hd]
      split
      · rename_i hq
        rw [if_pos hq] at hc hold
        exact ih hc hold []
      rename_i hq
      rw [if_neg hq] at hc hold
      split
      · rename_i hs
        rw [if_pos hs] at hc
        have hs' : (c == L '\\') = true := by simpa using hs
        rw [hs'] at hold ⊢
        exact ih hc hold blanks
      · rename_i hs
        have hs' : (c == L '\\') = false := by simpa using hs
        rw [if_neg hs, if_neg fun h => hd (.inr h)] at hc
        rw [hs'] at hold ⊢
        exact ih hc hold _

theorem pass_ended (hold : oldValue q e v = d :: rest) (u : List WChar) :
    oldValue q e (v ++ u) = d :: (rest ++ u) := by
  induction v generalizing q e with
  | nil => cases hold
  | cons c v ih =>
    rw [cons_append]
    rw [oldValue] at hold ⊢
    split
    · rename_i he
      rw [if_pos he] at hold
      exact ih hold
    rename_i he
    rw [if_neg he] at hold
    split
    · rename_i hd
      rw [if_pos hd] at hold
      obtain ⟨rfl, rfl⟩ := List.cons.inj hold
      rfl
    rename_i hd
    rw [if_neg hd] at hold
    split
    · rename_i hq
      rw [if_pos hq] at hold
      exact ih hold
    · rename_i hq
      rw [if_neg hq] at hold
      exact ih hold

theorem oldValue_head (hold : oldValue q e v = d :: rest) : d = L '\n' ∨ d = L '#' := by
  induction v generalizing q e with
  | nil => cases hold
  | cons c v ih =>
    rw [oldValue] at hold
    split at hold
    · exact ih hold
    split at hold
    · rename_i hd
      obtain ⟨rfl, rfl⟩ := List.cons.inj hold
      exact hd.imp id And.left
    split at hold
    · exact ih hold
    · exact ih hold

theorem pass_blanks {bs : List WChar} (hb : bs.all isHSpace = true) (blanks u : List WChar) :
    oldValue false false (bs ++ u) = oldValue false false u ∧
      oldBlanks false false blanks (bs ++ u) = oldBlanks false false (blanks ++ bs) u := by
  induction bs generalizing blanks with
  | nil => simp
  | cons c bs ih =>
    rw [all_cons, Bool.and_eq_true] at hb
    obtain ⟨hsp, hb⟩ := hb
    have hne : c ≠ L '\n' ∧ c ≠ L '#' ∧ c ≠ L '"' ∧ c ≠ L '\\' := by
      rcases (isHSpace_iff c).mp hsp with rfl | rfl <;> decide
    obtain ⟨h1, h2⟩ := ih hb (blanks ++ [c])
    have hs : (c == L '\\') = false := by simpa using hne.2.2.2
    simp only [cons_append, oldValue, oldBlanks, hne, hs, hsp, false_and, or_false, if_false,
      if_true, Bool.false_eq_true, h1, h2, append_assoc, nil_append, and_self]

theorem pass_end {w : List WChar} (hw : AtEnd w) (blanks : List WChar) :
    oldValue false false w = w ∧ oldBlanks false false blanks w = blanks := by
  rcases hw with rfl | ⟨d, w', rfl, rfl | rfl⟩
  · exact ⟨rfl, rfl⟩
  · exact ⟨rfl, rfl⟩
  · exact ⟨rfl, rfl⟩

theorem not_blank_of_escape (h : (escapeText c).isSome = true) : isHSpace c = false := by
  cases hsp : isHSpace c with
  | false => rfl
  | true => rcases (isHSpace_iff c).mp hsp with rfl | rfl <;> exact absurd h (by decide)

theorem oldBlanks_eq_nil_iff (hc : closes q e v = true) (hold : oldValue q e v = []) (hne : v ≠ [])
    (blanks : List WChar) : oldBlanks q e blanks v = [] ↔ v.getLast?.any isHSpace = false := by
  induction v generalizing q e blanks with
  | nil => exact absurd rfl hne
  | cons c v ih =>
    have hlast : v ≠ [] → (c :: v).getLast?.any isHSpace = v.getLast?.any isHSpace := by
      intro h
      obtain ⟨x, xs, rfl⟩ := exists_cons_of_ne_nil h
      rw [getLast?_cons_cons]
    rw [closes] at hc
    rw [oldValue] at hold
    rw [oldBlanks]
    cases e with
    | true =>
      simp only [if_true, Bool.and_eq_true] at hc hold ⊢
      by_cases hv : v = []
      · subst hv
        simp [oldBlanks, not_blank_of_escape hc.1]
      · rw [hlast hv]
        exact ih hc.2 hold hv []
    | false =>
      simp only [Bool.false_eq_true, if_false] at hc hold ⊢
      by_cases hd : c = L '\n' ∨ (c = L '#' ∧ (!q) = true)
      · rw [if_pos hd] at hold
        cases hold
      rw [if_neg hd] at hold ⊢
      by_cases hq : c = L '"'
      · rw [if_pos hq] at hc hold ⊢
        by_cases hv : v = []
        · subst hv hq
          exact ⟨fun _ => by decide, fun _ => rfl⟩
        · rw [hlast hv]
          exact ih hc hold hv []
      rw [if_neg hq] at hc hold ⊢
      by_cases hs : c = L '\\'
      · have hs' : (c == L '\\') = true := by simpa using hs
        rw [if_pos hs] at hc ⊢
        rw [hs'] at hold
        by_cases hv : v = []
        · subst hv
          simp [closes] at hc
        · rw [hlast hv]
          exact ih hc hold hv blanks
      have hs' : (c == L '\\') = false := by simpa using hs
      rw [if_neg hs, if_neg fun h => hd (.inr h)] at hc
      rw [if_neg hs]
      rw [hs'] at hold
      by_cases hv : v = []
      · subst hv
        simp only [oldBlanks, Bool.false_eq_true, if_false, getLast?_singleton, Option.any_some]
        cases hsp : isHSpace c <;> simp
      · rw [hlast hv]
        exact ih hc hold hv _

end Passing

section FixedPoint

def bareValue (v : List WChar) : Bool :=
  !v.head?.any isHSpace && !v.getLast?.any isHSpace && (oldValue false false v).isEmpty

theorem atEnd_head {w : List WChar} (hw : AtEnd w) : w.dropWhile isHSpace = w := by
  rcases hw with rfl | ⟨d, w', rfl, rfl | rfl⟩
  · rfl
  · exact dropWhile_cons_of_neg (by decide)
  · exact dropWhile_cons_of_neg (by decide)

theorem rewrite_eq_iff {bs w : List WChar} (hc : closes false false v = true)
    (hb : bs.all isHSpace = true) (hw : AtEnd w) :
    v ++ oldBlanks false false [] ((v ++ (bs ++ w)).dropWhile isHSpace) ++
        oldValue false false ((v ++ (bs ++ w)).dropWhile isHSpace) =
      (v ++ (bs ++ w)).dropWhile isHSpace ↔ bareValue v = true := by
  obtain ⟨hbv, hbb⟩ := pass_blanks hb [] w
  obtain ⟨hwv, hwb⟩ := pass_end hw bs
  cases v with
  | nil =>
    have hdrop : (bs ++ w).dropWhile isHSpace = w := by
      rw [dropWhile_append_of_pos (all_eq_true.mp hb), atEnd_head hw]
    have hempty := (pass_end hw []).2
    rw [nil_append, nil_append, hdrop, hwv, hempty]
    simp [bareValue, oldValue]
  | cons c v =>
    cases hsp : isHSpace c with
    | true =>
      -- the value as it is read does not begin with a blank
      constructor
      · intro heq
        have hhead := congrArg (fun t => t.head?.any isHSpace) heq
        have hnot : (((c :: v) ++ (bs ++ w)).dropWhile isHSpace).head?.any isHSpace = false := by
          have h := head?_dropWhile_not isHSpace ((c :: v) ++ (bs ++ w))
          cases hh : (((c :: v) ++ (bs ++ w)).dropWhile isHSpace).head? with
          | none => rfl
          | some x =>
            rw [hh] at h
            simpa using h
        simp only [hnot] at hhead
        simp [hsp] at hhead
      · intro hbare
        simp [bareValue, hsp] at hbare
    | false =>
      have hdrop : ((c :: v) ++ (bs ++ w)).dropWhile isHSpace = (c :: v) ++ (bs ++ w) :=
        dropWhile_cons_of_neg (by simp [hsp])
      rw [hdrop]
      cases hold : oldValue false false (c :: v) with
      | cons d rest =>
        rw [pass_ended hold (bs ++ w)]
        constructor
        · intro heq
          have hlen := congrArg List.length heq
          simp only [length_append, length_cons] at hlen
          omega
        · intro hbare
          simp [bareValue, hold] at hbare
      | nil =>
        obtain ⟨h1, h2⟩ := pass_value hc hold [] (bs ++ w)
        obtain ⟨-, hbb'⟩ := pass_blanks hb (oldBlanks false false [] (c :: v)) w
        have hwb' := (pass_end hw (oldBlanks false false [] (c :: v) ++ bs)).2
        have hlast := oldBlanks_eq_nil_iff hc hold (by simp) []
        rw [h1, h2, hbv, hbb', hwv, hwb']
        have hassoc : c :: v ++ (oldBlanks false false [] (c :: v) ++ bs) ++ w = c :: v ++ (bs ++ w) ↔
            oldBlanks false false [] (c :: v) = [] := by
          rw [append_assoc, append_assoc, append_right_inj]
          simp
        rw [hassoc, hlast]
        simp [bareValue, hsp, hold]

end FixedPoint

end WslPlus.ConfigFile

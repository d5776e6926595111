import WslPlus.Paths.Escape
import Mathlib.Data.List.Chain

/-!
# Edits in place

A path that is canonicalised in its buffer keeps its length unless separators are doubled in
it. A path that is unescaped in its buffer gets a NUL exactly when a character of it is
unescaped.
-/

namespace WslPlus.Paths

open List CString

def Single (separator : UInt8) (path : Bytes) : Prop :=
  path.IsChain fun a b => ¬ (a = separator ∧ b = separator)

variable {separator : UInt8} {path : Bytes}

theorem Single.drop (h : Single separator path) (n : Nat) :
    Single separator (path.drop n) := List.IsChain.drop h n

theorem Single.drop_of_pos (h : Single separator (path.drop 1)) {n : Nat}
    (hn : 0 < n) : Single separator (path.drop n) := by
  have hdrop := h.drop (n - 1)
  rw [drop_drop, Nat.add_sub_cancel' hn] at hdrop
  exact hdrop

theorem Single.append {first second : Bytes} (h : Single separator first)
    (h' : Single separator second) (hjoin : first.getLast? = some separator → second.head? ≠ some separator) :
    Single separator (first ++ second) := by
  apply List.IsChain.append h h'
  intro a ha b hb
  rintro ⟨rfl, rfl⟩
  exact hjoin (Option.mem_def.mp ha) (Option.mem_def.mp hb)

theorem single_of_not_mem (h : separator ∉ path) : Single separator path := by
  induction path with
  | nil => exact isChain_nil
  | cons b path ih =>
    rw [mem_cons, not_or] at h
    apply isChain_cons.mpr
    refine ⟨?_, ih h.2⟩
    rintro a - ⟨rfl, -⟩
    exact h.1 rfl

theorem mem_canonicalise {separator b : UInt8} (h : b ∈ canonicalise separator path) :
    b = separator ∨ b ∈ path ∧ isSeparator b = false := by
  suffices hall : ∀ dest, b ∈ path.foldl (canonicaliseStep separator) dest →
      b ∈ dest ∨ b = separator ∨ b ∈ path ∧ isSeparator b = false from
    (hall [] h).resolve_left not_mem_nil
  clear h
  induction path with
  | nil => exact fun dest h => .inl h
  | cons c path ih =>
    intro dest h
    rcases ih _ h with hdest | hsep | ⟨hmem, hnot⟩
    · unfold canonicaliseStep at hdest
      split at hdest
      · split at hdest
        · exact .inl hdest
        · rcases mem_append.mp hdest with hdest | hdest
          · exact .inl hdest
          · exact .inr (.inl (mem_singleton.mp hdest))
      case isFalse hc =>
        rcases mem_append.mp hdest with hdest | hdest
        · exact .inl hdest
        · rw [mem_singleton.mp hdest]
          exact .inr (.inr ⟨mem_cons_self, Bool.eq_false_iff.mpr hc⟩)
    · exact .inr (.inl hsep)
    · exact .inr (.inr ⟨mem_cons_of_mem _ hmem, hnot⟩)

theorem zero_not_mem_canonicalise (hsep : separator ≠ 0) (hzero : 0 ∉ path) :
    0 ∉ canonicalise separator path := by
  intro h
  rcases mem_canonicalise h with h | ⟨h, -⟩
  · exact hsep h.symm
  · exact hzero h

theorem count_canonicalise {c separator : UInt8} (hsep : isSeparator separator = true)
    (hc : isSeparator c = false)
    (path : Bytes) : (canonicalise separator path).count c = path.count c := by
  have hne : separator ≠ c := by
    rintro rfl
    rw [hsep] at hc
    exact absurd hc (by decide)
  suffices h : ∀ dest, (path.foldl (canonicaliseStep separator) dest).count c = dest.count c + path.count c by
    rw [canonicalise, h, count_nil, Nat.zero_add]
  induction path with
  | nil => exact fun dest => rfl
  | cons b path ih =>
    intro dest
    rw [foldl_cons, ih, canonicaliseStep, count_cons]
    split
    case isTrue hb =>
      have hbc : b ≠ c := by
        rintro rfl
        rw [hb] at hc
        exact absurd hc (by decide)
      split
      · simp [hbc]
      · simp [hbc, hne]
    case isFalse =>
      rw [count_append, count_singleton]
      omega

theorem mem_canonicalise_iff {c separator : UInt8} (hsep : isSeparator separator = true)
    (hc : isSeparator c = false)
    (path : Bytes) : c ∈ canonicalise separator path ↔ c ∈ path := by
  rw [← count_pos_iff, count_canonicalise hsep hc, count_pos_iff]

theorem canonicalise_single (hsep : isSeparator separator = true) (path : Bytes) :
    Single separator ((canonicalise separator path).drop 1) := by
  suffices h : ∀ dest, Single separator (dest.drop 1) →
      Single separator ((path.foldl (canonicaliseStep separator) dest).drop 1) from h [] isChain_nil
  induction path with
  | nil => exact fun dest h => h
  | cons b path ih =>
    intro dest hdest
    apply ih
    have hadd : ∀ c, (c = separator → ¬ (1 < dest.length ∧ dest.getLast? = some separator)) →
        Single separator ((dest ++ [c]).drop 1) := by
      intro c hc
      cases dest with
      | nil => exact isChain_nil
      | cons d dest =>
        apply hdest.append (isChain_singleton c)
        intro hlast hhead
        cases dest with
        | nil => exact absurd hlast (by simp)
        | cons e dest =>
          refine hc (Option.some.inj hhead) ⟨?_, hlast⟩
          rw [length_cons, length_cons]
          omega
    unfold canonicaliseStep
    split
    · split
      · exact hdest
      case isFalse hskip => exact hadd separator fun _ => hskip
    case isFalse hb =>
      apply hadd b
      rintro rfl
      exact absurd hsep hb

theorem foldl_extends (separator : UInt8) (path dest : Bytes) :
    dest <+: path.foldl (canonicaliseStep separator) dest := by
  induction path generalizing dest with
  | nil => exact prefix_rfl
  | cons b path ih =>
    refine List.IsPrefix.trans ?_ (ih _)
    unfold canonicaliseStep
    split
    · split
      · exact prefix_rfl
      · exact prefix_append _ _
    · exact prefix_append _ _

theorem length_foldl_canonicalise (hsep : isSeparator separator = true) {path dest : Bytes}
    (h : path.IsChain fun a b => ¬ (isSeparator a = true ∧ isSeparator b = true))
    (hdest : dest.getLast? = some separator → ∀ b ∈ path.head?, isSeparator b = false) :
    (path.foldl (canonicaliseStep separator) dest).length = dest.length + path.length := by
  induction path generalizing dest with
  | nil => rfl
  | cons b path ih =>
    obtain ⟨hnext, htail⟩ := isChain_cons.mp h
    rw [foldl_cons, canonicaliseStep]
    split
    case isTrue hb =>
      have hlast : ¬ (1 < dest.length ∧ dest.getLast? = some separator) := by
        rintro ⟨-, hlast⟩
        have hnot := hdest hlast b rfl
        rw [hb] at hnot
        exact absurd hnot (by decide)
      rw [if_neg hlast, ih htail, length_append, length_cons, length_cons, length_nil]
      · omega
      · intro _ c hc
        rw [← Bool.not_eq_true]
        exact fun hcs => hnext c hc ⟨hb, hcs⟩
    case isFalse hb =>
      rw [ih htail, length_append, length_cons, length_cons, length_nil]
      · omega
      · intro hlast
        rw [getLast?_concat, Option.some.injEq] at hlast
        rw [hlast] at hb
        exact absurd hsep hb

theorem canonicalise_kept (separator : UInt8) {one other : UInt8} (hsep : isSeparator separator = true)
    (hnul : separator ≠ 0)
    (hkinds : ∀ b, isSeparator b = true → b = one ∨ b = other) (hsingle : Single one path)
    (hother : other ∉ path) (hzero : 0 ∉ path) :
    (canonicalise separator path).length = path.length ∧ 0 ∉ canonicalise separator path ∧
      utilCanonicalisePathSeparator separator (path ++ [0]) = canonicalise separator path ++ [0] := by
  have hchain : path.IsChain fun a b => ¬ (isSeparator a = true ∧ isSeparator b = true) := by
    apply hsingle.imp_of_mem_imp
    intro a b ha hb hab hboth
    apply hab
    constructor
    · exact (hkinds a hboth.1).resolve_right fun h => hother (h ▸ ha)
    · exact (hkinds b hboth.2).resolve_right fun h => hother (h ▸ hb)
  have hlen : (canonicalise separator path).length = path.length := by
    rw [canonicalise, length_foldl_canonicalise hsep hchain (by simp)]
    exact Nat.zero_add _
  exact ⟨hlen, zero_not_mem_canonicalise hnul hzero, canonicalise_buffer hzero rfl hlen⟩

def HasEscape (path : Bytes) : Prop :=
  ∃ before b0 b1 b2 after, path = before ++ b0 :: b1 :: b2 :: after ∧ isEscaped b0 b1 b2 = true

theorem hasEscape_cons_iff (b : UInt8) (path : Bytes) :
    HasEscape (b :: path) ↔ (∃ b1 b2 after, path = b1 :: b2 :: after ∧ isEscaped b b1 b2 = true) ∨
    HasEscape path := by
  constructor
  · rintro ⟨before, b0, b1, b2, after, heq, hesc⟩
    cases before with
    | nil =>
      obtain ⟨rfl, rfl⟩ := List.cons.inj heq
      exact .inl ⟨b1, b2, after, rfl, hesc⟩
    | cons c before =>
      obtain ⟨-, rfl⟩ := List.cons.inj heq
      exact .inr ⟨before, b0, b1, b2, after, rfl, hesc⟩
  · rintro (⟨b1, b2, after, rfl, hesc⟩ | ⟨before, b0, b1, b2, after, rfl, hesc⟩)
    · exact ⟨[], b, b1, b2, after, rfl, hesc⟩
    · exact ⟨b :: before, b0, b1, b2, after, rfl, hesc⟩

theorem isEscaped_ne_zero {b0 b1 b2 : UInt8} (h : isEscaped b0 b1 b2 = true) : b1 ≠ 0 ∧ b2 ≠ 0 := by
  unfold isEscaped at h
  simp only [Bool.and_eq_true] at h
  obtain ⟨⟨⟨-, h1⟩, h2⟩, -⟩ := h
  constructor
  · rintro rfl
    exact absurd h1 (by decide)
  · rintro rfl
    exact absurd h2 (by decide)

variable {text : Bytes}

/-- One character of a C string in its buffer: it stays, or three bytes become one and the C
string behind it moves up. -/
theorem unescapeStep_cases (b : UInt8) (hzero : 0 ∉ text) (extra : Bytes) :
    (unescapeStep b (text ++ 0 :: extra) = (b, text ++ 0 :: extra) ∧
        ¬ ∃ b1 b2 after, text = b1 :: b2 :: after ∧ isEscaped b b1 b2 = true) ∨
      ∃ b1 b2 after extra', text = b1 :: b2 :: after ∧ isEscaped b b1 b2 = true ∧
        unescapeStep b (text ++ 0 :: extra) = (unescapeChar b1 b2, after ++ 0 :: extra') := by
  rcases text with _ | ⟨b1, _ | ⟨b2, after⟩⟩
  case nil =>
    refine .inl ⟨?_, by simp⟩
    unfold unescapeStep
    split
    case h_1 b1 b2 after heq =>
      have hb1 : b1 = 0 := (List.cons.inj heq).1.symm
      rw [if_neg]
      intro hesc
      exact (isEscaped_ne_zero hesc).1 hb1
    case h_2 => rfl
  case cons.nil =>
    refine .inl ⟨?_, by simp⟩
    have hno : isEscaped b b1 0 = false := by
      rw [← Bool.not_eq_true]
      exact fun hesc => (isEscaped_ne_zero hesc).2 rfl
    simp only [unescapeStep, cons_append, nil_append, hno, Bool.false_eq_true, if_false]
  case cons.cons =>
    cases hesc : isEscaped b b1 b2 with
    | false =>
      refine .inl ⟨?_, ?_⟩
      · simp only [unescapeStep, cons_append, hesc, Bool.false_eq_true, if_false]
      · rintro ⟨c1, c2, rest, heq, htrue⟩
        simp only [List.cons.injEq] at heq
        obtain ⟨rfl, rfl, rfl⟩ := heq
        rw [hesc] at htrue
        exact absurd htrue (by decide)
    | true =>
      have hafter : 0 ∉ after := fun h => hzero (mem_cons_of_mem _ (mem_cons_of_mem _ h))
      refine .inr ⟨b1, b2, after, (b1 :: b2 :: (after ++ 0 :: extra)).drop (0 + (after ++ [0]).length), rfl, hesc, ?_⟩
      simp only [unescapeStep, cons_append, hesc, if_true, cString_append_zero hafter, Window.overwrite,
        take_zero, nil_append, append_assoc]

theorem zero_mem_unescape (count : Nat) (hzero : 0 ∉ text) (extra : Bytes) :
    0 ∈ (unescapeFrom count (text ++ 0 :: extra)).take (text.length + 1) := by
  induction count generalizing text extra with
  | zero =>
    rw [unescapeFrom, take_length_add_append]
    simp
  | succ count ih =>
    cases text with
    | nil => simp [unescapeFrom]
    | cons b text =>
      rw [mem_cons, not_or] at hzero
      rw [cons_append, unescapeFrom, if_neg (Ne.symm hzero.1), length_cons, take_succ_cons]
      apply mem_cons_of_mem
      rcases unescapeStep_cases b hzero.2 extra with ⟨hstep, -⟩ | ⟨b1, b2, after, extra', rfl, -, hstep⟩
      · rw [hstep]
        exact ih hzero.2 extra
      · rw [hstep]
        have hafter : 0 ∉ after := fun h => hzero.2 (mem_cons_of_mem _ (mem_cons_of_mem _ h))
        apply take_subset_take_left _ _ (ih hafter extra')
        simp only [length_cons]
        omega

/-- A NUL comes into a C string that is unescaped in place exactly when something is
unescaped. -/
theorem zero_mem_unescape_iff (count : Nat) (hzero : 0 ∉ text) (hcount : text.length ≤ count) (extra : Bytes) :
    0 ∈ (unescapeFrom count (text ++ 0 :: extra)).take text.length ↔ HasEscape text := by
  induction count generalizing text extra with
  | zero =>
    have hnil := eq_nil_of_length_eq_zero (Nat.le_zero.mp hcount)
    subst hnil
    simp [HasEscape]
  | succ count ih =>
    cases text with
    | nil => simp [HasEscape]
    | cons b text =>
      rw [mem_cons, not_or] at hzero
      rw [length_cons] at hcount
      rw [cons_append, unescapeFrom, if_neg (Ne.symm hzero.1), length_cons, take_succ_cons,
        mem_cons, hasEscape_cons_iff]
      rcases unescapeStep_cases b hzero.2 extra with ⟨hstep, hno⟩ | ⟨b1, b2, after, extra', rfl, hesc, hstep⟩
      · rw [hstep, ih hzero.2 (by omega) extra]
        simp only [hno, false_or, hzero.1]
      · apply iff_of_true
        · rw [hstep]
          have hafter : 0 ∉ after := fun h => hzero.2 (mem_cons_of_mem _ (mem_cons_of_mem _ h))
          apply Or.inr
          apply take_subset_take_left _ _ (zero_mem_unescape count hafter extra')
          simp only [length_cons]
          omega
        · exact .inl ⟨b1, b2, after, rfl, hesc⟩

end WslPlus.Paths

import Mathlib.Data.List.DropRight
import WslPlus.ConfigFile.Parse

/-!
# Edited texts through the reader

Update mode copies the text except for quoted `#` characters, cuts newlines
off the end of what it has written, and adds headers and settings of its own.
This module says what the reader makes of each.
-/

namespace WslPlus.ConfigFile

open Bool List Reader

variable {r r' : Reader} {c : WChar} {keep : List UInt8 → Bool}

/-- The text as update mode copies it: quoted `#` characters are left out. -/
def Reader.copied (r : Reader) : List WChar → List WChar
  | [] => []
  | c :: text => (if r.quotedHash c then [] else [c]) ++ (r.next c).copied text

/-- No line stops inside a header or a key name, and no carriage return or
end-of-file value occurs. -/
def Reader.whole (r : Reader) : List WChar → Bool
  | [] => true
  | c :: text => c != L '\r' && c != weof && !r.cutOff c && (r.next c).whole text

def Reader.valueName (r : Reader) : Option (List UInt8) :=
  match r.phase with
  | .valueSpace name => some (cstr (r.qualify name))
  | .value name _ _ _ => some (cstr (r.qualify name))
  | .escape name _ _ => some (cstr (r.qualify name))
  | _ => none

/-- Quoted `#` characters occur only in the values that are not kept. -/
def Reader.unquoted (keep : List UInt8 → Bool) (r : Reader) : List WChar → Bool
  | [] => true
  | c :: text => !(r.quotedHash c && r.valueName.any keep) && (r.next c).unquoted keep text

/-- Two readers at the same place that agree on the values of the kept names. -/
inductive Like (keep : List UInt8 → Bool) : Reader → Reader → Prop where
  | same (r : Reader) : Like keep r r
  | value {sect name : List UInt8} {inQuote : Bool} (k b k' b' : List UInt8)
      (h : keep (cstr (qualify ⟨sect, .lineStart⟩ name)) = false) :
      Like keep ⟨sect, .value name k b inQuote⟩ ⟨sect, .value name k' b' inQuote⟩
  | escape {sect name : List UInt8} {inQuote : Bool} (v v' : List UInt8)
      (h : keep (cstr (qualify ⟨sect, .lineStart⟩ name)) = false) :
      Like keep ⟨sect, .escape name v inQuote⟩ ⟨sect, .escape name v' inQuote⟩

def kept (keep : List UInt8 → Bool) (pairs : List Pair) : List Pair :=
  pairs.filter fun p => keep p.1

@[simp] theorem kept_append (xs ys : List Pair) :
    kept keep (xs ++ ys) = kept keep xs ++ kept keep ys := by simp [kept]

def names (pairs : List Pair) : List (List UInt8) := pairs.map Prod.fst

@[simp] theorem names_append (xs ys : List Pair) : names (xs ++ ys) = names xs ++ names ys := by
  simp [names]

theorem like_nextValue {sect name : List UInt8} {inQuote : Bool} (k b k' b' : List UInt8)
    (p p' : Phase) (h : keep (cstr (qualify ⟨sect, .lineStart⟩ name)) = false) :
    Like keep (nextValue ⟨sect, p⟩ name k b inQuote c) (nextValue ⟨sect, p'⟩ name k' b' inQuote c) := by
  unfold nextValue
  split
  · exact .same _
  split
  · exact .value _ _ _ _ h
  split
  · exact .escape _ _ h
  split
  · exact .same _
  split
  · exact .value _ _ _ _ h
  · exact .value _ _ _ _ h

theorem Like.next (h : Like keep r r') (c : WChar) : Like keep (r.next c) (r'.next c) := by
  cases h with
  | same => exact .same _
  | value k b k' b' h => exact like_nextValue k b k' b' _ _ h
  | escape v v' h =>
    simp only [Reader.next]
    cases escapeText c with
    | none => exact .same _
    | some text => exact .value _ _ _ _ h

theorem Like.trans {r₁ r₂ r₃ : Reader} (h : Like keep r₁ r₂) (h' : Like keep r₂ r₃) : Like keep r₁ r₃ := by
  cases h with
  | same => exact h'
  | value k b k' b' hk =>
    cases h' with
    | same => exact .value _ _ _ _ hk
    | value => exact .value _ _ _ _ hk
  | escape v v' hk =>
    cases h' with
    | same => exact .escape _ _ hk
    | escape => exact .escape _ _ hk

section

variable (h : Like keep r r')
include h

theorem Like.pending :
    kept keep r.pending.toList = kept keep r'.pending.toList ∧
      names r.pending.toList = names r'.pending.toList := by
  cases h with
  | same => exact ⟨rfl, rfl⟩
  | @value sect name inQuote k b k' b' h =>
    cases inQuote with
    | true => exact ⟨rfl, rfl⟩
    | false =>
      have hq : keep (cstr (qualify ⟨sect, .value name k b false⟩ name)) = false := h
      have hq' : keep (cstr (qualify ⟨sect, .value name k' b' false⟩ name)) = false := h
      exact ⟨by simp [kept, Reader.pending, hq, hq'], by simp [names, Reader.pending]; rfl⟩
  | escape v v' h => exact ⟨rfl, rfl⟩

theorem Like.emit (c : WChar) :
    kept keep (r.emit c) = kept keep (r'.emit c) ∧ names (r.emit c) = names (r'.emit c) := by
  unfold Reader.emit
  split
  · exact h.pending
  · exact ⟨rfl, rfl⟩

end

theorem like_quotedHash (hq : r.quotedHash c = true) (hk : r.valueName.any keep = false) :
    Like keep (r.next c) r ∧ r.emit c = [] := by
  obtain ⟨sect, phase⟩ := r
  cases phase with
  | value name k b inQuote =>
    simp only [quotedHash, and_eq_true, beq_iff_eq] at hq
    obtain ⟨rfl, rfl⟩ := hq
    simp only [valueName, Option.any_some] at hk
    have hn : Reader.next ⟨sect, .value name k b true⟩ (L '#') =
        ⟨sect, .value name (k ++ b ++ [narrow (L '#')]) [] true⟩ := rfl
    rw [hn]
    exact ⟨.value _ _ _ _ hk, emit_of_pending rfl⟩
  | _ => exact absurd hq (by simp [quotedHash])

theorem copied_like (h : Like keep r r') (text : List WChar) (hu : r.unquoted keep text = true) :
    Like keep (r.after text) (r'.after (r.copied text)) ∧
      kept keep (r.emits text) = kept keep (r'.emits (r.copied text)) ∧
      names (r.emits text) = names (r'.emits (r.copied text)) := by
  induction text generalizing r r' with
  | nil => exact ⟨h, rfl, rfl⟩
  | cons c text ih =>
    simp only [unquoted, and_eq_true, not_eq_true'] at hu
    obtain ⟨hc, hu⟩ := hu
    by_cases hq : r.quotedHash c = true
    · rw [hq, Bool.true_and] at hc
      obtain ⟨hl, he⟩ := like_quotedHash hq hc
      simpa [Reader.copied, hq, he] using ih (hl.trans h) hu
    · obtain ⟨h1, h2, h3⟩ := ih (h.next c) hu
      refine ⟨?_, ?_, ?_⟩
      · simpa [Reader.copied, hq] using h1
      · simp [Reader.copied, hq, h2, (h.emit c).1]
      · simp [Reader.copied, hq, h3, (h.emit c).2]

section Newlines

def trimNewlines (text : List WChar) : List WChar := text.rdropWhile (· == L '\n')

theorem trimNewlines_append (text : List WChar) :
    ∃ n, text = trimNewlines text ++ List.replicate n (L '\n') := by
  have hall : ∀ c ∈ text.rtakeWhile (· == L '\n'), c = L '\n' := by
    intro c hc
    simpa using mem_rtakeWhile_imp hc
  refine ⟨(text.rtakeWhile (· == L '\n')).length, ?_⟩
  rw [← eq_replicate_of_mem hall, trimNewlines, rdropWhile_append_rtakeWhile]

theorem rdropWhile_append_cons {q : WChar → Bool} (h : q c = false) (xs t : List WChar) :
    (xs ++ c :: t).rdropWhile q = xs ++ c :: t.rdropWhile q := by
  induction t using List.reverseRecOn with
  | nil => rw [rdropWhile_concat_neg _ _ _ (by simp [h]), rdropWhile_nil]
  | append_singleton t d ih =>
    have hassoc : xs ++ c :: (t ++ [d]) = (xs ++ c :: t) ++ [d] := by simp
    rw [hassoc]
    by_cases hd : q d = true
    · rw [rdropWhile_concat_pos _ _ _ hd, rdropWhile_concat_pos _ _ _ hd, ih]
    · rw [rdropWhile_concat_neg _ _ _ hd, rdropWhile_concat_neg _ _ _ hd, hassoc]

theorem after_newlines (sect : List UInt8) (n : Nat) :
    Reader.after ⟨sect, .lineStart⟩ (List.replicate n (L '\n')) = ⟨sect, .lineStart⟩ ∧
      Reader.emits ⟨sect, .lineStart⟩ (List.replicate n (L '\n')) = [] := by
  have hn : Reader.next ⟨sect, .lineStart⟩ (L '\n') = ⟨sect, .lineStart⟩ := rfl
  have he : Reader.emit ⟨sect, .lineStart⟩ (L '\n') = [] := rfl
  induction n with
  | zero => exact ⟨rfl, rfl⟩
  | succ n ih => simp [replicate_succ, hn, he, ih]

def Reader.inEscape (r : Reader) : Bool :=
  match r.phase with
  | .escape _ _ _ => true
  | _ => false

theorem next_newline (h : r.inEscape = false) :
    r.next (L '\n') = ⟨(r.next weof).sect, .lineStart⟩ ∧ r.next weof = r.next (L '\n') := by
  obtain ⟨sect, phase⟩ := r
  cases phase with
  | escape => exact absurd h (by simp [inEscape])
  | _ => exact ⟨rfl, rfl⟩

/-- Cutting newlines off and ending the line once gives the reader back,
unless the text left over ends in a continuation. -/
theorem after_trimNewlines {sect : List UInt8} {text : List WChar} (ht : r.after text = ⟨sect, .lineStart⟩)
    (hesc : (r.after (trimNewlines text)).inEscape = false) :
    r.after (trimNewlines text ++ [L '\n']) = ⟨sect, .lineStart⟩ ∧
      r.emits (trimNewlines text ++ [L '\n']) = r.emits text := by
  obtain ⟨n, hn⟩ := trimNewlines_append text
  obtain ⟨hnl, -⟩ := next_newline hesc
  rw [hn] at ht
  cases n with
  | zero =>
    have heq : trimNewlines text = text := by simpa using hn.symm
    rw [replicate_zero, append_nil] at ht
    rw [heq] at ht ⊢
    have he : Reader.emit ⟨sect, .lineStart⟩ (L '\n') = [] := rfl
    simp only [after_append, emits_append, ht, after_cons, after_nil, emits_cons, emits_nil, he]
    exact ⟨rfl, by simp⟩
  | succ n =>
    rw [replicate_succ, after_append, after_cons, hnl, (after_newlines _ n).1] at ht
    have hsect : r.emits text = r.emits (trimNewlines text ++ L '\n' :: List.replicate n (L '\n')) := by
      rw [← replicate_succ, ← hn]
    rw [hsect]
    simp only [after_append, emits_append, after_cons, after_nil, emits_cons, emits_nil, hnl, ht,
      (after_newlines _ n).2]
    exact ⟨trivial, trivial⟩

end Newlines

section NewText

def isIdent : List UInt8 → Bool
  | [] => false
  | b :: bs => isalpha b.toUInt16 && bs.all fun b => isalnum b.toUInt16

/-- Every name is `section.key` of two identifiers. -/
def ConfigKey.wellFormed (k : ConfigKey) : Prop :=
  k.names ≠ [] ∧ ∀ name ∈ k.names, ∃ sectionName keyName,
    name = sectionName ++ narrow (L '.') :: keyName ∧ isIdent sectionName ∧ isIdent keyName

/-- A value that can be written bare: it is kept by the narrowing, and no
character of it ends, quotes, escapes or trims the value. -/
def readsBack (v : List WChar) : Bool :=
  v.all (fun c => c < 256 && c != 0 && c != L '#' && c != L '"' && c != L '\\' && c != L '\n' &&
    c != L '\r') &&
  !v.head?.any isHSpace && !v.getLast?.any isHSpace

@[simp] theorem narrow_toUInt16 (b : UInt8) : narrow b.toUInt16 = b := UInt8.toUInt8_toUInt16 b

theorem after_keyName (sect name key : List UInt8) (hk : ∀ b ∈ key, isalnum b.toUInt16 = true) :
    Reader.after ⟨sect, .keyName name⟩ (widen key) = ⟨sect, .keyName (name ++ key)⟩ ∧
      Reader.emits ⟨sect, .keyName name⟩ (widen key) = [] := by
  induction key generalizing name with
  | nil => simp [widen]
  | cons b key ih =>
    have hb := hk b mem_cons_self
    have hn : Reader.next ⟨sect, .keyName name⟩ b.toUInt16 = ⟨sect, .keyName (name ++ [b])⟩ := by
      simp [Reader.next, hb]
    obtain ⟨h1, h2⟩ := ih (name ++ [b]) fun x hx => hk x (mem_cons_of_mem _ hx)
    simp only [widen] at h1 h2
    simp [widen, hn, h1, h2, emit_of_pending (r := ⟨sect, .keyName name⟩) rfl]

theorem after_sectionName (sect name rest : List UInt8) (hk : ∀ b ∈ rest, isalnum b.toUInt16 = true) :
    Reader.after ⟨sect, .sectionName name⟩ (widen rest) = ⟨sect, .sectionName (name ++ rest)⟩ ∧
      Reader.emits ⟨sect, .sectionName name⟩ (widen rest) = [] := by
  induction rest generalizing name with
  | nil => simp [widen]
  | cons b rest ih =>
    have hb := hk b mem_cons_self
    have hn : Reader.next ⟨sect, .sectionName name⟩ b.toUInt16 =
        ⟨sect, .sectionName (name ++ [b])⟩ := by
      simp [Reader.next, hb]
    obtain ⟨h1, h2⟩ := ih (name ++ [b]) fun x hx => hk x (mem_cons_of_mem _ hx)
    simp only [widen] at h1 h2
    simp [widen, hn, h1, h2, emit_of_pending (r := ⟨sect, .sectionName name⟩) rfl]

theorem isIdent_cons {key : List UInt8} (hk : isIdent key = true) :
    ∃ b bs, key = b :: bs ∧ isalpha b.toUInt16 = true ∧ ∀ x ∈ bs, isalnum x.toUInt16 = true := by
  cases key with
  | nil => exact absurd hk (by simp [isIdent])
  | cons b bs =>
    simp only [isIdent, and_eq_true, all_eq_true] at hk
    exact ⟨b, bs, rfl, hk.1, hk.2⟩

theorem after_key {key : List UInt8} (sect : List UInt8) (hk : isIdent key = true) :
    Reader.after ⟨sect, .lineStart⟩ (widen key ++ [L '=']) = ⟨sect, .valueSpace key⟩ ∧
      Reader.emits ⟨sect, .lineStart⟩ (widen key ++ [L '=']) = [] := by
  obtain ⟨b, bs, rfl, hb, hbs⟩ := isIdent_cons hk
  have hnum := isalnum_of_isalpha hb
  have hn : Reader.next ⟨sect, .lineStart⟩ b.toUInt16 = ⟨sect, .keyName [b]⟩ := by
    have h1 : b.toUInt16 ≠ L '#' := hash_of_isalnum hnum
    have h2 : b.toUInt16 ≠ L '[' := ne_of_test hnum (by decide)
    simp [Reader.next, isHSpace_of_isalnum hnum, isEol_of_isalnum hnum, h1, h2, hb]
  have heq : Reader.next ⟨sect, .keyName (b :: bs)⟩ (L '=') = ⟨sect, .valueSpace (b :: bs)⟩ := rfl
  obtain ⟨h1, h2⟩ := after_keyName sect [b] bs hbs
  rw [singleton_append] at h1
  have hw : widen (b :: bs) = b.toUInt16 :: widen bs := rfl
  simp [hw, after_append, emits_append, hn, h1, h2, heq,
    emit_of_pending (r := ⟨sect, .lineStart⟩) rfl,
    emit_of_pending (r := ⟨sect, .keyName (b :: bs)⟩) rfl]

theorem after_header {sectionName : List UInt8} (sect : List UInt8) (hs : isIdent sectionName = true) :
    Reader.after ⟨sect, .lineStart⟩ (L '[' :: widen sectionName ++ [L ']', L '\n']) =
        ⟨sectionName, .lineStart⟩ ∧
      Reader.emits ⟨sect, .lineStart⟩ (L '[' :: widen sectionName ++ [L ']', L '\n']) = [] := by
  obtain ⟨b, bs, rfl, hb, hbs⟩ := isIdent_cons hs
  have hopen : Reader.next ⟨sect, .lineStart⟩ (L '[') = ⟨sect, .sectionFirst⟩ := rfl
  have hn : Reader.next ⟨sect, .sectionFirst⟩ b.toUInt16 = ⟨sect, .sectionName [b]⟩ := by
    simp [Reader.next, hb]
  have hclose : Reader.next ⟨sect, .sectionName (b :: bs)⟩ (L ']') =
      ⟨sect, .sectionSpace (b :: bs)⟩ := rfl
  have hend : Reader.next ⟨sect, .sectionSpace (b :: bs)⟩ (L '\n') = ⟨b :: bs, .lineStart⟩ := rfl
  obtain ⟨h1, h2⟩ := after_sectionName sect [b] bs hbs
  rw [singleton_append] at h1
  have hw : widen (b :: bs) = b.toUInt16 :: widen bs := rfl
  simp [hw, after_append, emits_append, hopen, hn, h1, h2, hclose, hend,
    emit_of_pending (r := ⟨sect, .lineStart⟩) rfl,
    emit_of_pending (r := ⟨sect, .sectionFirst⟩) rfl,
    emit_of_pending (r := ⟨sect, .sectionName (b :: bs)⟩) rfl,
    emit_of_pending (r := ⟨sect, .sectionSpace (b :: bs)⟩) rfl]

def isPlain (c : WChar) : Bool :=
  c != L '#' && c != L '"' && c != L '\\' && c != L '\n' && c != weof

theorem after_plain (sect name k b : List UInt8) (text : List WChar) (ht : text.all isPlain = true) :
    ∃ k' b', Reader.after ⟨sect, .value name k b false⟩ text = ⟨sect, .value name k' b' false⟩ ∧
      k' ++ b' = k ++ b ++ text.map narrow ∧ (text.getLast?.any isHSpace = false → text ≠ [] → b' = []) ∧
      (text.all isHSpace = true → k' = k) ∧
      Reader.emits ⟨sect, .value name k b false⟩ text = [] := by
  induction text generalizing k b with
  | nil => exact ⟨k, b, rfl, by simp, fun _ h => absurd rfl h, fun _ => rfl, rfl⟩
  | cons c text ih =>
    simp only [all_cons, and_eq_true] at ht
    obtain ⟨hc, ht⟩ := ht
    simp only [isPlain, and_eq_true, bne_iff_ne] at hc
    obtain ⟨⟨⟨⟨hhash, hquote⟩, hslash⟩, hnl⟩, heof⟩ := hc
    have heol : isEol c = false := by simp [isEol, hnl, heof]
    have hemit : Reader.emit ⟨sect, .value name k b false⟩ c = [] := emit_eq_nil heol hhash
    by_cases hsp : isHSpace c = true
    · have hn : Reader.next ⟨sect, .value name k b false⟩ c =
          ⟨sect, .value name k (b ++ [narrow c]) false⟩ := by
        simp [Reader.next, nextValue, heol, hquote, hslash, hhash, hsp]
      obtain ⟨k', b', h1, h2, h3, h4, h5⟩ := ih k (b ++ [narrow c]) ht
      refine ⟨k', b', by rw [after_cons, hn, h1], by simp [h2], ?_, ?_, by simp [hn, hemit, h5]⟩
      · intro hlast _
        cases text with
        | nil => simp [hsp] at hlast
        | cons d text => exact h3 (by simpa [getLast?_cons_cons] using hlast) (by simp)
      · intro hall
        simp only [all_cons, and_eq_true] at hall
        exact h4 hall.2
    · have hn : Reader.next ⟨sect, .value name k b false⟩ c =
          ⟨sect, .value name (k ++ b ++ [narrow c]) [] false⟩ := by
        simp [Reader.next, nextValue, heol, hquote, hslash, hhash, hsp]
      obtain ⟨k', b', h1, h2, h3, -, h5⟩ := ih (k ++ b ++ [narrow c]) [] ht
      refine ⟨k', b', by rw [after_cons, hn, h1], by simp [h2], ?_, ?_, ?_⟩
      · intro hlast _
        cases text with
        | nil =>
          simp only [after_nil, Reader.mk.injEq, Phase.value.injEq] at h1
          exact h1.2.2.2.1.symm
        | cons d text => exact h3 (by simpa [getLast?_cons_cons] using hlast) (by simp)
      · intro hall
        simp [hsp] at hall
      · rw [emits_cons, hn, hemit, h5]
        rfl

theorem isPlain_of_isHSpace (h : isHSpace c = true) : isPlain c = true := by
  rcases (isHSpace_iff c).mp h with rfl | rfl <;> decide

theorem after_blanks (sect name : List UInt8) {blanks : List WChar} (hb : blanks.all isHSpace = true) :
    Reader.after ⟨sect, .valueSpace name⟩ blanks = ⟨sect, .valueSpace name⟩ ∧
      Reader.emits ⟨sect, .valueSpace name⟩ blanks = [] := by
  induction blanks with
  | nil => exact ⟨rfl, rfl⟩
  | cons c blanks ih =>
    simp only [all_cons, and_eq_true] at hb
    have hn : Reader.next ⟨sect, .valueSpace name⟩ c = ⟨sect, .valueSpace name⟩ := by
      simp [Reader.next, hb.1]
    have he : Reader.emit ⟨sect, .valueSpace name⟩ c = [] :=
      emit_eq_nil (isEol_of_isHSpace hb.1) (hash_of_isHSpace hb.1)
    simp [hn, he, ih hb.2]

theorem readsBack_all {v : List WChar} (hv : readsBack v = true) : ∀ c ∈ v,
    isPlain c = true ∧ c < 256 ∧ c ≠ 0 ∧ c ≠ L '\r' := by
  intro c hc
  simp only [readsBack, and_eq_true, all_eq_true] at hv
  have h := hv.1.1 c hc
  simp only [bne_iff_ne, ne_eq, decide_eq_true_eq] at h
  obtain ⟨⟨⟨⟨⟨⟨h1, h2⟩, h3⟩, h4⟩, h5⟩, h6⟩, h7⟩ := h
  refine ⟨?_, h1, h2, h7⟩
  have h8 : c ≠ weof := by
    rintro rfl
    exact absurd h1 (by decide)
  simp [isPlain, h3, h4, h5, h6, h8]

theorem cstr_readsBack {v : List WChar} (hv : readsBack v = true) : cstr (v.map narrow) = v.map narrow := by
  rw [cstr, takeWhile_eq_self_iff]
  intro b hb
  obtain ⟨c, hc, rfl⟩ := mem_map.mp hb
  obtain ⟨-, hlt, hne, -⟩ := readsBack_all hv c hc
  have hz : narrow c ≠ 0 := by
    intro h
    apply hne
    have h' := congrArg UInt8.toNat h
    simp only [narrow, UInt16.toNat_toUInt8, UInt8.toNat_zero] at h'
    have hlt' := UInt16.lt_iff_toNat_lt.mp hlt
    apply UInt16.toNat_inj.mp
    simp only [UInt16.toNat_zero]
    have h256 : UInt16.toNat 256 = 256 := rfl
    omega
  simp [hz]

def Holds (r : Reader) (sect name value : List UInt8) : Prop :=
  (r = ⟨sect, .valueSpace name⟩ ∧ value = []) ∨ ∃ b, r = ⟨sect, .value name value b false⟩

theorem after_value (sect name : List UInt8) {v blanks : List WChar} (hv : readsBack v = true)
    (hb : blanks.all isHSpace = true) :
    Holds (Reader.after ⟨sect, .valueSpace name⟩ (v ++ blanks)) sect name (v.map narrow) ∧
      Reader.emits ⟨sect, .valueSpace name⟩ (v ++ blanks) = [] := by
  cases v with
  | nil =>
    obtain ⟨h1, h2⟩ := after_blanks sect name hb
    exact ⟨.inl ⟨h1, rfl⟩, h2⟩
  | cons c v =>
    have hplain : (c :: v).all isPlain = true :=
      all_eq_true.mpr fun x hx => (readsBack_all hv x hx).1
    have hbplain : blanks.all isPlain = true :=
      all_eq_true.mpr fun x hx => isPlain_of_isHSpace (all_eq_true.mp hb x hx)
    have hedge := hv
    simp only [readsBack, and_eq_true, not_eq_true', head?_cons, Option.any_some] at hedge
    obtain ⟨⟨-, hfirst⟩, hlast⟩ := hedge
    -- the first character is no blank, so the value starts with it
    have hskip : Reader.next ⟨sect, .valueSpace name⟩ c =
        Reader.next ⟨sect, .value name [] [] false⟩ c := by
      simp [Reader.next, hfirst, nextValue]
    have hemit : Reader.emit ⟨sect, .valueSpace name⟩ c =
        Reader.emit ⟨sect, .value name [] [] false⟩ c := rfl
    have hafter : Reader.after ⟨sect, .valueSpace name⟩ (c :: v ++ blanks) =
        Reader.after ⟨sect, .value name [] [] false⟩ (c :: v ++ blanks) := by
      simp [hskip]
    have hemits : Reader.emits ⟨sect, .valueSpace name⟩ (c :: v ++ blanks) =
        Reader.emits ⟨sect, .value name [] [] false⟩ (c :: v ++ blanks) := by
      simp [hskip, hemit]
    obtain ⟨k, b, h1, h2, h3, -, h5⟩ := after_plain sect name [] [] (c :: v) hplain
    obtain rfl := h3 hlast (by simp)
    obtain ⟨k', b', h1', -, -, h4', h5'⟩ := after_plain sect name k [] blanks hbplain
    obtain rfl := h4' hb
    rw [hafter, hemits, after_append, emits_append, h1, h1', h5, h5']
    have hk : k' = (c :: v).map narrow := by simpa using h2
    exact ⟨.inr ⟨b', by rw [hk]⟩, rfl⟩

theorem Holds.pending {sect name value : List UInt8} (h : Holds r sect name value) (hz : cstr value = value) :
    r.pending = some (cstr (qualify ⟨sect, .lineStart⟩ name), value) := by
  rcases h with ⟨rfl, rfl⟩ | ⟨b, rfl⟩
  · rfl
  · simp only [Reader.pending, hz]
    rfl

theorem Holds.next {sect name value : List UInt8} (h : Holds r sect name value) :
    r.next (L '\n') = ⟨sect, .lineStart⟩ ∧ r.next (L '#') = ⟨sect, .comment⟩ := by
  rcases h with ⟨rfl, rfl⟩ | ⟨b, rfl⟩ <;> exact ⟨rfl, rfl⟩

end NewText

end WslPlus.ConfigFile

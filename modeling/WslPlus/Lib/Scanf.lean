import Mathlib.Algebra.GroupWithZero.Nat
import Mathlib.Data.List.TakeWhile
import WslPlus.Lib.CharType

/-!
# Scanning hexadecimal fields

The conversions of sscanf for hexadecimal numbers of a limited width, with literals between
them. A conversion skips white space and takes a sign, a base and fewer digits than its
width as well. The texts it reads are described apart from the scanner.
-/

namespace WslPlus.Scanf

open Bool List CharType

inductive Directive where
  | hex (width : Nat)
  | literal (c : Char)
deriving DecidableEq

/-- The white space of a locale, by code; no graphic character of ASCII is one. -/
structure CharLocale where
  isSpace : Nat → Bool
  isSpace_graphic : ∀ n, 33 ≤ n → n ≤ 126 → isSpace n = false

def cLocale : CharLocale where
  isSpace n := (9 ≤ n && n ≤ 13) || n == 32
  isSpace_graphic n hlow hhigh := by
    simp only [or_eq_false_iff, and_eq_false_iff, decide_eq_false_iff_not, beq_eq_false_iff_ne]
    omega

variable {T : Type} [CharType T]

def hexValue (c : T) : Option Nat :=
  if 48 ≤ code c ∧ code c ≤ 57 then some (code c - 48)
  else if 65 ≤ code c ∧ code c ≤ 70 then some (code c - 55)
  else if 97 ≤ code c ∧ code c ≤ 102 then some (code c - 87)
  else none

def isHexDigit (c : T) : Bool := (hexValue c).isSome

def number (digits : List T) : Nat := digits.foldl (fun n c => 16 * n + (hexValue c).getD 0) 0

variable [DecidableEq T]

def readSign : Nat → List T → Bool × Nat × List T
  | width + 1, c :: rest =>
    if c = ofChar '-' then (true, width, rest)
    else if c = ofChar '+' then (false, width, rest)
    else (false, width + 1, c :: rest)
  | width, input => (false, width, input)

def readBase : Nat → List T → Nat × List T
  | width + 2, c :: d :: rest =>
    if c = ofChar '0' ∧ (d = ofChar 'x' ∨ d = ofChar 'X') then (width, rest) else (width + 2, c :: d :: rest)
  | width, input => (width, input)

def scanHex (l : CharLocale) (width : Nat) (input : List T) : Option (Nat × List T) :=
  let afterSign := readSign width (input.dropWhile fun c => l.isSpace (code c))
  let afterBase := readBase afterSign.2.1 afterSign.2.2
  let digits := (afterBase.2.take afterBase.1).takeWhile isHexDigit
  if digits = [] then none
  else
    some (if afterSign.1 then (16 ^ width - number digits) % 16 ^ width else number digits,
      afterBase.2.drop digits.length)

def sscanf (l : CharLocale) : List Directive → List T → List Nat
  | [], _ => []
  | .literal c :: format, d :: rest => if d = ofChar c then sscanf l format rest else []
  | .literal _ :: _, [] => []
  | .hex width :: format, input =>
    match scanHex l width input with
    | none => []
    | some (value, rest) => value :: sscanf l format rest

structure Numeral (T : Type) where
  sign : List T
  base : List T
  digits : List T

def Numeral.text (n : Numeral T) : List T := n.sign ++ (n.base ++ n.digits)

/-- What a conversion takes in front of the rest. It stops at its width, or where neither a digit nor
the `x` of a base follows. -/
structure Numeral.Taken (n : Numeral T) (width : Nat) (rest : List T) : Prop where
  sign : n.sign = [] ∨ n.sign = [ofChar '+'] ∨ n.sign = [ofChar '-']
  base : n.base = [] ∨ n.base = [ofChar '0', ofChar 'x'] ∨ n.base = [ofChar '0', ofChar 'X']
  nonempty : n.digits ≠ []
  hex : ∀ c ∈ n.digits, isHexDigit c = true
  fits : n.text.length ≤ width
  stops : n.text.length = width ∨ ∀ c, rest.head? = some c → isHexDigit c = false ∧
    (n.base = [] → n.digits = [ofChar '0'] → c ≠ ofChar 'x' ∧ c ≠ ofChar 'X')

/-- A text from which every conversion of a format is made. -/
inductive Reads (l : CharLocale) : List Directive → List T → Prop where
  | done (rest : List T) : Reads l [] rest
  | literal {c : Char} {format : List Directive} {rest : List T} (next : Reads l format rest) :
      Reads l (.literal c :: format) (ofChar c :: rest)
  | numeral {width : Nat} {format : List Directive} {blanks rest : List T} {n : Numeral T}
      (blank : ∀ c ∈ blanks, l.isSpace (code c) = true) (taken : n.Taken width rest)
      (next : Reads l format rest) : Reads l (.hex width :: format) (blanks ++ (n.text ++ rest))

def conversions : List Directive → Nat
  | [] => 0
  | .hex _ :: format => conversions format + 1
  | .literal _ :: format => conversions format

def endsInHex : List Directive → Bool
  | [] => true
  | [.literal _] => false
  | _ :: format => endsInHex format

variable {c : T}

omit [DecidableEq T] in
theorem code_of_isHexDigit (h : isHexDigit c = true) :
    (48 ≤ code c ∧ code c ≤ 57) ∨ (65 ≤ code c ∧ code c ≤ 70) ∨ (97 ≤ code c ∧ code c ≤ 102) := by
  unfold isHexDigit hexValue at h
  split at h
  · exact Or.inl ‹_›
  · split at h
    · exact Or.inr (Or.inl ‹_›)
    · split at h
      · exact Or.inr (Or.inr ‹_›)
      · cases h

omit [DecidableEq T] in
theorem ne_of_isHexDigit (h : isHexDigit c = true) {a : Char} (ha : a.toNat < 128)
    (hnot : ¬ ((48 ≤ a.toNat ∧ a.toNat ≤ 57) ∨ (65 ≤ a.toNat ∧ a.toNat ≤ 70) ∨ (97 ≤ a.toNat ∧ a.toNat ≤ 102))) :
    c ≠ ofChar a := by
  intro heq
  have hcode := code_of_isHexDigit h
  rw [(eq_ofChar_iff ha).mp heq] at hcode
  exact hnot hcode

omit [DecidableEq T] in
theorem not_x_of_isHexDigit (h : isHexDigit c = true) : ¬ (c = ofChar 'x' ∨ c = ofChar 'X') := by
  rintro (heq | heq)
  · exact ne_of_isHexDigit h (by decide) (by decide) heq
  · exact ne_of_isHexDigit h (by decide) (by decide) heq

variable {width : Nat}

omit [DecidableEq T] in
theorem takeWhile_digits {digits rest : List T} (hhex : ∀ c ∈ digits, isHexDigit c = true)
    (hfits : digits.length ≤ width)
    (hstops : digits.length = width ∨ ∀ c, rest.head? = some c → isHexDigit c = false) :
    ((digits ++ rest).take width).takeWhile isHexDigit = digits := by
  have htake : (digits ++ rest).take width = digits ++ rest.take (width - digits.length) := by
    rw [take_append, take_of_length_le hfits]
  rw [htake, takeWhile_append_of_pos hhex]
  have hnone : (rest.take (width - digits.length)).takeWhile isHexDigit = [] := by
    rcases hstops with hfull | hstops
    · simp [hfull]
    · cases rest with
      | nil => simp
      | cons c rest =>
        have hc := hstops c rfl
        cases width - digits.length with
        | zero => simp
        | succ k => simp [hc]
  rw [hnone, append_nil]

variable {n : Numeral T} {rest : List T}

theorem readSign_taken (h : n.Taken width rest) :
    ∃ negative, readSign width (n.text ++ rest) =
    (negative, width - n.sign.length, n.base ++ n.digits ++ rest) ∧
      (n.sign = [] → negative = false) := by
  obtain ⟨k, rfl⟩ : ∃ k, width = k + 1 := by
    have hpos := length_pos_iff.mpr h.nonempty
    have hfits := h.fits
    simp only [Numeral.text, length_append] at hfits
    exact ⟨width - 1, by omega⟩
  rcases h.sign with hs | hs | hs
  · -- Without a sign the text starts with a digit or with the base.
    obtain ⟨c, more, hstart, hc⟩ : ∃ c more, n.base ++ n.digits ++ rest = c :: more ∧ isHexDigit c = true := by
      have hzero : isHexDigit (ofChar '0' : T) = true := by
        simp [isHexDigit, hexValue, code_ofChar '0' (by decide)]
      rcases h.base with hb | hb | hb
      · obtain ⟨c, ds, hd⟩ := exists_cons_of_ne_nil h.nonempty
        exact ⟨c, ds ++ rest, by simp [hb, hd], h.hex c (by simp [hd])⟩
      · exact ⟨_, ofChar 'x' :: (n.digits ++ rest), by simp [hb], hzero⟩
      · exact ⟨_, ofChar 'X' :: (n.digits ++ rest), by simp [hb], hzero⟩
    have hminus : c ≠ ofChar '-' := ne_of_isHexDigit hc (by decide) (by decide)
    have hplus : c ≠ ofChar '+' := ne_of_isHexDigit hc (by decide) (by decide)
    refine ⟨false, ?_, fun _ => rfl⟩
    have htext : n.text ++ rest = n.base ++ n.digits ++ rest := by simp [Numeral.text, hs]
    rw [htext, hstart]
    simp [readSign, hminus, hplus, hs]
  · refine ⟨false, ?_, fun _ => rfl⟩
    have hne : (ofChar '+' : T) ≠ ofChar '-' := ofChar_ne (by decide) (by decide) (by decide)
    simp [Numeral.text, hs, readSign, hne]
  · exact ⟨true, by simp [Numeral.text, hs, readSign], fun hnil => by simp [hs] at hnil⟩

theorem readBase_taken (h : n.Taken width rest) :
    readBase (width - n.sign.length) (n.base ++ n.digits ++ rest) =
      (width - n.sign.length - n.base.length, n.digits ++ rest) := by
  have hfits := h.fits
  simp only [Numeral.text, length_append] at hfits
  have hpos := length_pos_iff.mpr h.nonempty
  have hbased : ∀ x : Char, x = 'x' ∨ x = 'X' → n.base = [ofChar '0', ofChar x] →
      readBase (width - n.sign.length) (n.base ++ n.digits ++ rest) =
        (width - n.sign.length - n.base.length, n.digits ++ rest) := by
    intro x hx hb
    obtain ⟨k, hk⟩ : ∃ k, width - n.sign.length = k + 2 := by
      rw [hb] at hfits
      simp only [length_cons, length_nil] at hfits
      exact ⟨width - n.sign.length - 2, by omega⟩
    have hcond : (ofChar x : T) = ofChar 'x' ∨ (ofChar x : T) = ofChar 'X' := by
      rcases hx with rfl | rfl
      · exact Or.inl rfl
      · exact Or.inr rfl
    rw [hk, hb]
    simp [readBase, hcond]
  rcases h.base with hb | hb | hb
  · rw [hb, nil_append, length_nil, Nat.sub_zero]
    unfold readBase
    split
    · rename_i k c d more hwidth hinput
      have hnot : ¬ (c = ofChar '0' ∧ (d = ofChar 'x' ∨ d = ofChar 'X')) := by
        rintro ⟨rfl, hx⟩
        cases hds : n.digits with
        | nil => exact h.nonempty hds
        | cons e ds =>
          rw [hds, cons_append] at hinput
          obtain ⟨rfl, hmore⟩ := List.cons.inj hinput
          cases ds with
          | nil =>
            -- One digit is not the width, so that the character behind it has stopped the number.
            have hhead : rest.head? = some d := by
              rw [nil_append] at hmore
              rw [hmore]
              rfl
            rcases h.stops with hfull | hstops
            · rw [hb, hds] at hfits
              simp only [Numeral.text, length_append, hb, hds, length_cons, length_nil] at hfull
              omega
            · have hboth := (hstops d hhead).2 hb hds
              exact hx.elim hboth.1 hboth.2
          | cons e' ds =>
            obtain ⟨rfl, -⟩ := List.cons.inj hmore
            exact not_x_of_isHexDigit (h.hex e' (by simp [hds])) hx
      rw [if_neg hnot, hwidth, hinput]
    · rfl
  · exact hbased 'x' (Or.inl rfl) hb
  · exact hbased 'X' (Or.inr rfl) hb

omit [DecidableEq T] in
theorem graphic_of_taken (h : n.Taken width rest) :
    ∃ c more, n.text ++ rest = c :: more ∧ 33 ≤ code c ∧ code c ≤ 126 := by
  have hofChar : ∀ a : Char, 33 ≤ a.toNat ∧ a.toNat ≤ 126 →
      33 ≤ code (ofChar a : T) ∧ code (ofChar a : T) ≤ 126 := by
    intro a ha
    rw [code_ofChar a (by omega)]
    exact ha
  rcases h.sign with hs | hs | hs
  · rcases h.base with hb | hb | hb
    · obtain ⟨c, ds, hd⟩ := exists_cons_of_ne_nil h.nonempty
      have hcode := code_of_isHexDigit (h.hex c (by simp [hd]))
      exact ⟨c, ds ++ rest, by simp [Numeral.text, hs, hb, hd], by omega, by omega⟩
    · exact ⟨_, ofChar 'x' :: (n.digits ++ rest), by simp [Numeral.text, hs, hb], hofChar '0' (by decide)⟩
    · exact ⟨_, ofChar 'X' :: (n.digits ++ rest), by simp [Numeral.text, hs, hb], hofChar '0' (by decide)⟩
  · exact ⟨_, n.base ++ (n.digits ++ rest), by simp [Numeral.text, hs], hofChar '+' (by decide)⟩
  · exact ⟨_, n.base ++ (n.digits ++ rest), by simp [Numeral.text, hs], hofChar '-' (by decide)⟩

variable {l : CharLocale}

theorem scanHex_taken {blanks rest : List T}
    (hblank : ∀ c ∈ blanks, l.isSpace (code c) = true) (h : n.Taken width rest) :
    ∃ value, scanHex l width (blanks ++ (n.text ++ rest)) = some (value, rest) ∧
      (n.sign = [] → value = number n.digits) := by
  obtain ⟨c, more, hstart, hlow, hhigh⟩ := graphic_of_taken h
  have hskip : (blanks ++ (n.text ++ rest)).dropWhile (fun c => l.isSpace (code c)) = n.text ++ rest := by
    rw [dropWhile_append_of_pos hblank, hstart]
    simp [l.isSpace_graphic _ hlow hhigh]
  obtain ⟨negative, hsign, hpositive⟩ := readSign_taken h
  have hbase := readBase_taken h
  have hfits := h.fits
  have hstops := h.stops
  simp only [Numeral.text, length_append] at hfits hstops
  have hdigits : ((n.digits ++ rest).take (width - n.sign.length - n.base.length)).takeWhile isHexDigit =
      n.digits := by
    refine takeWhile_digits h.hex (by omega) ?_
    rcases hstops with hfull | hstops
    · exact Or.inl (by omega)
    · exact Or.inr fun c hc => (hstops c hc).1
  unfold scanHex
  rw [hskip, hsign]
  simp only [hbase, hdigits, if_neg h.nonempty, drop_left]
  refine ⟨_, rfl, fun hs => ?_⟩
  rw [hpositive hs]
  rfl

theorem readSign_text (width : Nat) (input : List T) :
    ∃ sign : List T, (sign = [] ∨ sign = [ofChar '+'] ∨ sign = [ofChar '-']) ∧
      input = sign ++ (readSign width input).2.2 ∧ width = sign.length + (readSign width input).2.1 := by
  unfold readSign
  split
  · rename_i k c rest
    split
    · rename_i hc
      exact ⟨[ofChar '-'], Or.inr (Or.inr rfl), by simp [hc], by simp [Nat.add_comm]⟩
    · split
      · rename_i hc
        exact ⟨[ofChar '+'], Or.inr (Or.inl rfl), by simp [hc], by simp [Nat.add_comm]⟩
      · exact ⟨[], Or.inl rfl, rfl, by simp⟩
  · exact ⟨[], Or.inl rfl, rfl, by simp⟩

theorem readBase_text (width : Nat) (input : List T) :
    ∃ base : List T, (base = [] ∨ base = [ofChar '0', ofChar 'x'] ∨ base = [ofChar '0', ofChar 'X']) ∧
      input = base ++ (readBase width input).2 ∧ width = base.length + (readBase width input).1 ∧
      (base = [] → 2 ≤ width → ∀ d rest, input = ofChar '0' :: d :: rest → d ≠ ofChar 'x' ∧ d ≠ ofChar 'X') := by
  unfold readBase
  split
  · rename_i k c d rest
    split
    · rename_i hcond
      obtain ⟨rfl, rfl | rfl⟩ := hcond
      · exact ⟨_, Or.inr (Or.inl rfl), rfl, Nat.add_comm k 2, fun h => by cases h⟩
      · exact ⟨_, Or.inr (Or.inr rfl), rfl, Nat.add_comm k 2, fun h => by cases h⟩
    · rename_i hcond
      refine ⟨[], Or.inl rfl, rfl, by simp, fun _ _ d' rest' heq => ?_⟩
      obtain ⟨rfl, hrest⟩ := List.cons.inj heq
      obtain ⟨rfl, -⟩ := List.cons.inj hrest
      exact not_or.mp fun hx => hcond ⟨rfl, hx⟩
  · rename_i hnot
    refine ⟨[], Or.inl rfl, rfl, by simp, fun _ hwidth d rest heq => ?_⟩
    exact (hnot (width - 2) _ d rest (by omega) heq).elim

theorem taken_of_scanHex {width value : Nat} {input rest : List T}
    (h : scanHex l width input = some (value, rest)) :
    ∃ (blanks : List T) (n : Numeral T), (∀ c ∈ blanks, l.isSpace (code c) = true) ∧ n.Taken width rest ∧
      input = blanks ++ (n.text ++ rest) := by
  obtain ⟨sign, hsign, hinput, hwidth⟩ := readSign_text width (input.dropWhile fun c => l.isSpace (code c))
  obtain ⟨base, hbase, hinput', hwidth', hzero⟩ := readBase_text
    (readSign width (input.dropWhile fun c => l.isSpace (code c))).2.1
    (readSign width (input.dropWhile fun c => l.isSpace (code c))).2.2
  unfold scanHex at h
  simp only at h
  generalize hs : readSign width (input.dropWhile fun c => l.isSpace (code c)) = s at *
  generalize hb : readBase s.2.1 s.2.2 = b at *
  generalize hd : (b.2.take b.1).takeWhile isHexDigit = digits at *
  split at h
  · cases h
  · rename_i hne
    simp only [Option.some.injEq, Prod.mk.injEq] at h
    have hle : digits.length ≤ b.1 := by
      rw [← hd]
      exact ( takeWhile_prefix _).length_le.trans (by simp [Nat.min_le_left])
    have hstart : b.2.take digits.length = digits := by
      have h₁ : digits <+: b.2.take b.1 := hd ▸ takeWhile_prefix _
      have h₂ : digits <+: b.2 := h₁.trans ( take_prefix _ _)
      exact (prefix_iff_eq_take.mp h₂).symm
    have hcut : b.2 = digits ++ rest := by
      have hall := take_append_drop digits.length b.2
      rw [hstart, h.2] at hall
      exact hall.symm
    refine ⟨input.takeWhile fun c => l.isSpace (code c), ⟨sign, base, digits⟩, ?_, ?_, ?_⟩
    · exact fun c hc => mem_takeWhile_imp (p := fun c => l.isSpace (code c)) hc
    · refine
        { sign := hsign
          base := hbase
          nonempty := hne
          hex := fun c hc => mem_takeWhile_imp (hd ▸ hc)
          fits := by
            simp only [Numeral.text, length_append]
            omega
          stops := ?_ }
      simp only [Numeral.text, length_append]
      rcases Nat.lt_or_eq_of_le hle with hlt | heq
      · refine Or.inr fun c hc => ?_
        obtain ⟨more, rfl⟩ : ∃ more, rest = c :: more := by
          cases rest with
          | nil => cases hc
          | cons c' more =>
            cases hc
            exact ⟨more, rfl⟩
        constructor
        · -- A digit here would have been taken.
          cases hdigit : isHexDigit c with
          | false => rfl
          | true =>
            exfalso
            obtain ⟨k, hk⟩ : ∃ k, b.1 - digits.length = k + 1 := ⟨b.1 - digits.length - 1, by omega⟩
            have hall : ∀ e ∈ digits, isHexDigit e = true := fun e he => mem_takeWhile_imp (hd ▸ he)
            rw [hcut, take_append, take_of_length_le hle, hk, takeWhile_append_of_pos hall,
              take_succ_cons, takeWhile_cons_of_pos hdigit] at hd
            have hlen := congrArg List.length hd
            simp at hlen
        · intro hbnil hdzero
          have hwide : 2 ≤ s.2.1 := by
            rw [hdzero] at hlt
            simp only [length_cons, length_nil] at hlt
            omega
          refine hzero hbnil hwide c more ?_
          rw [hinput', hbnil, hcut, hdzero]
          rfl
      · exact Or.inl (by omega)
    · have hall := takeWhile_append_dropWhile (p := fun c => l.isSpace (code c)) (l := input)
      rw [hinput, hinput', hcut] at hall
      rw [Numeral.text]
      simpa using hall.symm

variable {format : List Directive}

theorem conversions_pos {d : Directive} (h : endsInHex (d :: format) = true) :
    0 < conversions (d :: format) := by
  induction format generalizing d with
  | nil =>
    cases d with
    | hex width => exact Nat.succ_pos _
    | literal c => cases h
  | cons e format ih =>
    have hrest : 0 < conversions (e :: format) := ih (by cases d <;> exact h)
    cases d with
    | hex width => exact Nat.succ_pos _
    | literal c => exact hrest

theorem endsInHex_tail {d : Directive} (h : endsInHex (d :: format) = true) : endsInHex format = true := by
  cases format with
  | nil => rfl
  | cons e format => cases d <;> exact h

theorem length_sscanf_iff (hformat : endsInHex format = true)
    (input : List T) : (sscanf l format input).length = conversions format ↔ Reads l format input := by
  induction format generalizing input with
  | nil => exact ⟨fun _ => .done input, fun _ => rfl⟩
  | cons d format ih =>
    have ih' := ih (endsInHex_tail hformat)
    cases d with
    | literal c =>
      have hpos : 0 < conversions format := conversions_pos (d := .literal c) hformat
      constructor
      · intro h
        cases input with
        | nil =>
          simp only [sscanf, length_nil, conversions] at h
          omega
        | cons e rest =>
          unfold sscanf at h
          split at h
          · rename_i he
            rw [he]
            exact .literal ((ih' rest).mp h)
          · simp only [length_nil, conversions] at h
            omega
      · intro h
        cases h with
        | literal next =>
          rw [sscanf, if_pos rfl]
          exact (ih' _).mpr next
    | hex width =>
      constructor
      · intro h
        unfold sscanf at h
        split at h
        · simp [conversions] at h
        · rename_i value rest hscan
          obtain ⟨blanks, n, hblank, htaken, rfl⟩ := taken_of_scanHex hscan
          refine .numeral hblank htaken ((ih' rest).mp ?_)
          simpa [conversions] using h
      · intro h
        cases h with
        | numeral hblank htaken next =>
          obtain ⟨value, hscan, -⟩ := scanHex_taken hblank htaken
          rw [sscanf, hscan]
          simpa [conversions] using (ih' _).mpr next

theorem sscanf_append_literal (l : CharLocale) (format : List Directive) (c : Char) (input : List T) :
    sscanf l (format ++ [Directive.literal c]) input = sscanf l format input := by
  induction format generalizing input with
  | nil =>
    cases input with
    | nil => rfl
    | cons d rest => simp [sscanf]
  | cons d format ih =>
    cases d with
    | literal e =>
      cases input with
      | nil => rfl
      | cons f rest => simp only [cons_append, sscanf, ih]
    | hex width => simp only [cons_append, sscanf, ih]

def exactly : List Directive → List T → Bool
  | [], input => input.isEmpty
  | .literal c :: format, d :: rest => d = ofChar c && exactly format rest
  | .literal _ :: _, [] => false
  | .hex width :: format, input =>
    (input.take width).length = width && (input.take width).all isHexDigit && exactly format (input.drop width)

def exactValues : List Directive → List T → List Nat
  | [], _ => []
  | .literal _ :: format, input => exactValues format (input.drop 1)
  | .hex width :: format, input => number (input.take width) :: exactValues format (input.drop width)

def textLength : List Directive → Nat
  | [] => 0
  | .literal _ :: format => textLength format + 1
  | .hex width :: format => textLength format + width

variable {input : List T}

theorem length_of_exactly (h : exactly format input = true) : input.length = textLength format := by
  induction format generalizing input with
  | nil =>
    simp only [exactly, List.isEmpty_iff] at h
    rw [h]
    rfl
  | cons d format ih =>
    cases d with
    | literal c =>
      cases input with
      | nil => cases h
      | cons e rest =>
        simp only [exactly, and_eq_true] at h
        simp [textLength, ih h.2]
    | hex width =>
      simp only [exactly, and_eq_true, decide_eq_true_eq] at h
      have hrest := ih h.2
      rw [length_take] at h
      rw [List.length_drop] at hrest
      simp only [textLength]
      omega

theorem exactly_append_literal {c : Char} (h : exactly (format ++ [Directive.literal c]) input = true) :
    ∃ body, exactly format body = true ∧ input = body ++ [ofChar c] := by
  induction format generalizing input with
  | nil =>
    cases input with
    | nil => cases h
    | cons d rest =>
      simp only [nil_append, exactly, and_eq_true, decide_eq_true_eq, List.isEmpty_iff] at h
      exact ⟨[], rfl, by simp [h.1, h.2]⟩
  | cons d format ih =>
    cases d with
    | literal e =>
      cases input with
      | nil => cases h
      | cons f rest =>
        simp only [cons_append, exactly, and_eq_true, decide_eq_true_eq] at h
        obtain ⟨body, hbody, rfl⟩ := ih h.2
        exact ⟨f :: body, by simp [exactly, h.1, hbody], rfl⟩
    | hex width =>
      simp only [cons_append, exactly, and_eq_true, decide_eq_true_eq] at h
      obtain ⟨body, hbody, hdrop⟩ := ih h.2
      refine ⟨input.take width ++ body, ?_, ?_⟩
      · have htake : (input.take width ++ body).take width = input.take width := take_left' h.1.1
        have hrest : (input.take width ++ body).drop width = body := drop_left' h.1.1
        simp only [exactly, htake, hrest, h.1.1, h.1.2, hbody, decide_true, Bool.and_self]
      · rw [append_assoc, ← hdrop, take_append_drop]

theorem mem_of_exactly (h : exactly format input = true)
    (hc : c ∈ input) : isHexDigit c = true ∨ ∃ a, .literal a ∈ format ∧ c = ofChar a := by
  induction format generalizing input with
  | nil =>
    simp only [exactly, List.isEmpty_iff] at h
    rw [h] at hc
    cases hc
  | cons d format ih =>
    have hrest : ∀ rest, exactly format rest = true → c ∈ rest →
        isHexDigit c = true ∨ ∃ a, .literal a ∈ d :: format ∧ c = ofChar a := by
      intro rest hexact hmem
      rcases ih hexact hmem with hdigit | ⟨a, ha, heq⟩
      · exact Or.inl hdigit
      · exact Or.inr ⟨a, mem_cons_of_mem d ha, heq⟩
    cases d with
    | literal a =>
      cases input with
      | nil => cases hc
      | cons e rest =>
        simp only [exactly, and_eq_true, decide_eq_true_eq] at h
        rcases mem_cons.mp hc with rfl | hc
        · exact Or.inr ⟨a, mem_cons_self, h.1⟩
        · exact hrest rest h.2 hc
    | hex width =>
      simp only [exactly, and_eq_true] at h
      rw [← take_append_drop width input] at hc
      rcases mem_append.mp hc with hc | hc
      · exact Or.inl (all_eq_true.mp h.1.2 c hc)
      · exact hrest _ h.2 hc

theorem sscanf_of_exactly (l : CharLocale) (hwidth : .hex 0 ∉ format)
    (h : exactly format input = true) (more : List T) :
    sscanf l format (input ++ more) = exactValues format input := by
  induction format generalizing input with
  | nil => rfl
  | cons d format ih =>
    have ih' : ∀ {input : List T}, exactly format input = true →
        sscanf l format (input ++ more) = exactValues format input :=
      ih fun hmem => hwidth (mem_cons_of_mem d hmem)
    cases d with
    | literal c =>
      cases input with
      | nil => cases h
      | cons e rest =>
        simp only [exactly, and_eq_true, decide_eq_true_eq] at h
        rw [cons_append, sscanf, if_pos h.1, ih' h.2]
        rfl
    | hex width =>
      simp only [exactly, and_eq_true, decide_eq_true_eq] at h
      obtain ⟨⟨hlen, hhex⟩, hexact⟩ := h
      have hne : input.take width ≠ [] := by
        intro hnil
        rw [hnil] at hlen
        exact hwidth (by simp [← hlen])
      have htaken : (⟨[], [], input.take width⟩ : Numeral T).Taken width (input.drop width ++ more) :=
        { sign := Or.inl rfl
          base := Or.inl rfl
          nonempty := hne
          hex := fun c hc => all_eq_true.mp hhex c hc
          fits := by simp [Numeral.text, Nat.min_le_left]
          stops := Or.inl (by simpa [Numeral.text] using hlen) }
      have hblank : ∀ c ∈ ([] : List T), l.isSpace (code c) = true := by simp
      obtain ⟨value, hscan, hvalue⟩ := scanHex_taken hblank htaken
      have htext : [] ++ ((⟨[], [], input.take width⟩ : Numeral T).text ++ (input.drop width ++ more)) =
          input ++ more := by
        rw [nil_append, ← append_assoc]
        exact congrArg (· ++ more) (take_append_drop width input)
      rw [htext] at hscan
      rw [sscanf, hscan, exactValues]
      simp only [ih' hexact, hvalue rfl]

def hexDigits : Nat → Nat → List T
  | 0, _ => []
  | width + 1, value => hexDigits width (value / 16) ++ [ofChar (Nat.digitChar (value % 16))]

def print : List Directive → List Nat → List T
  | [], _ => []
  | .literal c :: format, values => ofChar c :: print format values
  | .hex width :: format, value :: values => hexDigits width value ++ print format values
  | .hex _ :: _, [] => []

def Fits : List Directive → List Nat → Prop
  | [], values => values = []
  | .literal _ :: format, values => Fits format values
  | .hex width :: format, value :: values => value < 16 ^ width ∧ Fits format values
  | .hex _ :: _, [] => False

omit [DecidableEq T] in
theorem hexValue_digitChar {d : Nat} (hd : d < 16) : hexValue (ofChar (Nat.digitChar d) : T) = some d := by
  have hcode : ∀ d < 16, (Nat.digitChar d).toNat = if d < 10 then 48 + d else 87 + d := by decide
  have hnat := hcode d hd
  unfold hexValue
  split at hnat
  · rw [code_ofChar _ (by omega), hnat, if_pos (by omega)]
    simp
  · rw [code_ofChar _ (by omega), hnat, if_neg (by omega), if_neg (by omega), if_pos (by omega)]
    simp

omit [DecidableEq T] in
theorem length_hexDigits (width value : Nat) : (hexDigits width value : List T).length = width := by
  induction width generalizing value with
  | zero => rfl
  | succ width ih => simp [hexDigits, ih]

omit [DecidableEq T] in
theorem take_hexDigits (width value : Nat) (rest : List T) :
    (hexDigits width value ++ rest).take width = hexDigits width value :=
  take_left' (length_hexDigits width value)

omit [DecidableEq T] in
theorem drop_hexDigits (width value : Nat) (rest : List T) :
    (hexDigits width value ++ rest).drop width = rest :=
  drop_left' (length_hexDigits width value)

omit [DecidableEq T] in
theorem isHexDigit_hexDigits (width value : Nat) : (hexDigits width value : List T).all isHexDigit = true := by
  induction width generalizing value with
  | zero => rfl
  | succ width ih =>
    simp [hexDigits, ih, isHexDigit, hexValue_digitChar (Nat.mod_lt value (by decide : 0 < 16))]

omit [DecidableEq T] in
theorem number_hexDigits {width value : Nat} (h : value < 16 ^ width) :
    number (hexDigits width value : List T) = value := by
  induction width generalizing value with
  | zero =>
    rw [Nat.pow_zero] at h
    have hzero : value = 0 := by omega
    rw [hzero]
    rfl
  | succ width ih =>
    have hdiv : value / 16 < 16 ^ width := by
      rw [Nat.pow_succ] at h
      omega
    have hrest : List.foldl (fun n c => 16 * n + (hexValue c).getD 0) 0 (hexDigits width (value / 16) : List T) =
        value / 16 := ih hdiv
    rw [number, hexDigits, foldl_append, hrest]
    simp only [foldl_cons, foldl_nil, hexValue_digitChar (Nat.mod_lt value (by decide : 0 < 16)),
      Option.getD_some]
    omega

variable {values : List Nat}

theorem exactly_print (h : Fits format values) : exactly format (print format values : List T) = true := by
  induction format generalizing values with
  | nil => rfl
  | cons d format ih =>
    cases d with
    | literal c => simpa [print, exactly] using ih h
    | hex width =>
      cases values with
      | nil => cases h
      | cons value values =>
        simp only [print, exactly, take_hexDigits, drop_hexDigits, length_hexDigits, isHexDigit_hexDigits, ih h.2,
          decide_true, Bool.and_self]

omit [DecidableEq T] in
theorem exactValues_print (h : Fits format values) :
    exactValues format (print format values : List T) = values := by
  induction format generalizing values with
  | nil => exact (show values = [] from h).symm
  | cons d format ih =>
    cases d with
    | literal c => exact ih h
    | hex width =>
      cases values with
      | nil => cases h
      | cons value values =>
        simp only [print, exactValues, take_hexDigits, drop_hexDigits, number_hexDigits h.1, ih h.2]

omit [DecidableEq T] in
theorem print_append_literal (h : Fits format values) (c : Char) :
    (print (format ++ [Directive.literal c]) values : List T) = print format values ++ [ofChar c] := by
  induction format generalizing values with
  | nil => rfl
  | cons d format ih =>
    cases d with
    | literal e => simpa [print] using ih h
    | hex width =>
      cases values with
      | nil => cases h
      | cons value values => simp [print, ih h.2]

end WslPlus.Scanf

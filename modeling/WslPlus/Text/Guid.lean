import WslPlus.Lib.Scanf
import Mathlib.Data.Fintype.Basic
import Mathlib.Tactic.FinCases

/-!
# GUIDs as text

`GuidToString` prints the eleven numbers of a GUID and `ToGuid` scans them. A text is
accepted by its length, the braces at its ends and the number of conversions that succeed,
which are made from looser texts than those that are printed.
-/

namespace WslPlus.Text

open List CharType Scanf

structure Guid where
  data1 : UInt32
  data2 : UInt16
  data3 : UInt16
  data4 : Fin 8 → UInt8

/-- `GUID_SSCANF_STRING`. -/
def guidFormat : List Directive :=
  [.hex 8, .literal '-', .hex 4, .literal '-', .hex 4, .literal '-', .hex 2, .hex 2, .literal '-',
    .hex 2, .hex 2, .hex 2, .hex 2, .hex 2, .hex 2]

/-- `GUID_BRACES_SSCANF_STRING`, and `GUID_FORMAT_STRING` with zeros in front of the numbers. -/
def guidBracesFormat : List Directive := .literal '{' :: (guidFormat ++ [Directive.literal '}'])

def Guid.values (g : Guid) : List Nat :=
  [g.data1.toNat, g.data2.toNat, g.data3.toNat, (g.data4 0).toNat, (g.data4 1).toNat, (g.data4 2).toNat,
    (g.data4 3).toNat, (g.data4 4).toNat, (g.data4 5).toNat, (g.data4 6).toNat, (g.data4 7).toNat]

def Guid.ofValues : List Nat → Option Guid
  | [a, b, c, d₀, d₁, d₂, d₃, d₄, d₅, d₆, d₇] =>
    some ⟨.ofNat a, .ofNat b, .ofNat c, fun i => .ofNat ([d₀, d₁, d₂, d₃, d₄, d₅, d₆, d₇].getD i 0)⟩
  | _ => none

structure GuidToStringFlags where
  addBraces : Bool
  uppercase : Bool

variable {T : Type} [CharType T]

def toUpper (c : T) : T := if 97 ≤ code c ∧ code c ≤ 122 then ofChar (Char.ofNat (code c - 32)) else c

def guidToString (g : Guid) (flags : GuidToStringFlags) : List T :=
  let output := print guidBracesFormat g.values
  let output := if flags.addBraces then output else (output.drop 1).dropLast
  if flags.uppercase then output.map toUpper else output

variable [DecidableEq T]

/-- What `sscanf` sees of the memory behind a pointer. -/
def scanned (text : List T) : List T := text.takeWhile fun c => code c ≠ 0

/-- `ToGuid` of the memory behind a pointer, which ends in a NUL. The length is that of the string
if none is given, and a view may be shorter than the memory. -/
def toGuid (l : CharLocale) (string : Option (List T)) (length : Option Nat) : Option Guid :=
  match string with
  | none => none
  | some text =>
    let length := length.getD (scanned text).length
    if length = 38 ∧ text[0]? = some (ofChar '{') ∧ text[37]? = some (ofChar '}') then
      Guid.ofValues (sscanf l guidBracesFormat (scanned text))
    else if length = 36 then Guid.ofValues (sscanf l guidFormat (scanned text))
    else none

def IsGuid (text : List T) : Prop := exactly guidFormat text = true ∨ exactly guidBracesFormat text = true

instance (text : List T) : Decidable (IsGuid text) := inferInstanceAs (Decidable (_ ∨ _))

def guidOf (text : List T) : Option Guid :=
  if exactly guidFormat text then Guid.ofValues (exactValues guidFormat text)
  else if exactly guidBracesFormat text then Guid.ofValues (exactValues guidBracesFormat text)
  else none

def PassesAsGuid (l : CharLocale) (text : List T) (length : Nat) : Prop :=
  (length = 36 ∧ Reads l guidFormat (scanned text)) ∨
    (length = 38 ∧ text[0]? = some (ofChar '{') ∧ text[37]? = some (ofChar '}') ∧
      Reads l guidFormat (scanned text).tail)

omit [CharType T] [DecidableEq T] in
theorem Guid.ofValues_values (g : Guid) : Guid.ofValues g.values = some g := by
  have hdata4 : (fun i : Fin 8 => UInt8.ofNat ([(g.data4 0).toNat, (g.data4 1).toNat, (g.data4 2).toNat,
      (g.data4 3).toNat, (g.data4 4).toNat, (g.data4 5).toNat, (g.data4 6).toNat,
      (g.data4 7).toNat].getD i 0)) = g.data4 := by
    funext i
    fin_cases i <;> simp
  simp only [Guid.values, Guid.ofValues, UInt32.ofNat_toNat, UInt16.ofNat_toNat, hdata4]

theorem fits_values (g : Guid) : Fits guidFormat g.values := by
  have h₁ : g.data1.toNat < 16 ^ 8 := g.data1.toNat_lt
  have h₂ : g.data2.toNat < 16 ^ 4 := g.data2.toNat_lt
  have h₃ : g.data3.toNat < 16 ^ 4 := g.data3.toNat_lt
  have h₄ : ∀ i, (g.data4 i).toNat < 16 ^ 2 := fun i => (g.data4 i).toNat_lt
  exact ⟨h₁, h₂, h₃, h₄ 0, h₄ 1, h₄ 2, h₄ 3, h₄ 4, h₄ 5, h₄ 6, h₄ 7, rfl⟩

omit [DecidableEq T] in
theorem code_toUpper (c : T) : code (toUpper c) = if 97 ≤ code c ∧
    code c ≤ 122 then code c - 32 else code c := by
  unfold toUpper
  split
  · rename_i hlower
    have hvalid : (Char.ofNat (code c - 32)).toNat = code c - 32 := by
      rw [Char.ofNat, dif_pos (Or.inl (by omega))]
      rfl
    rw [code_ofChar _ (by omega), hvalid]
  · rfl

omit [DecidableEq T] in
theorem hexValue_toUpper (c : T) : hexValue (toUpper c) = hexValue c := by
  unfold hexValue
  rw [code_toUpper]
  split_ifs <;> first | omega | exact congrArg some (by omega) | rfl

omit [DecidableEq T] in
theorem exactValues_map_toUpper (format : List Directive) (input : List T) :
    exactValues format (input.map toUpper) = exactValues format input := by
  induction format generalizing input with
  | nil => rfl
  | cons d format ih =>
    cases d with
    | literal c => simp only [exactValues, ← map_drop, ih]
    | hex width =>
      simp only [exactValues, ← map_drop, ← map_take, ih, number, foldl_map, hexValue_toUpper]

theorem exactly_map_toUpper {format : List Directive} (hliteral : ∀ a, .literal a ∈ format → a.toNat < 128 ∧
    ¬ (97 ≤ a.toNat ∧ a.toNat ≤ 122)) {input : List T} (h : exactly format input = true) :
    exactly format (input.map toUpper) = true := by
  induction format generalizing input with
  | nil =>
    simp only [exactly, List.isEmpty_iff] at h
    rw [h]
    rfl
  | cons d format ih =>
    have ih' : ∀ {input : List T}, exactly format input = true → exactly format (input.map toUpper) = true :=
      ih fun a ha => hliteral a (mem_cons_of_mem d ha)
    cases d with
    | literal a =>
      cases input with
      | nil => cases h
      | cons c rest =>
        simp only [exactly, Bool.and_eq_true, decide_eq_true_eq] at h
        obtain ⟨hascii, hupper⟩ := hliteral a mem_cons_self
        have hkept : toUpper c = ofChar a := by
          rw [toUpper, if_neg, h.1]
          rw [h.1, code_ofChar a hascii]
          exact hupper
        simp [exactly, hkept, ih' h.2]
    | hex width =>
      simp only [exactly, Bool.and_eq_true, decide_eq_true_eq] at h
      have hdigit : ∀ c : T, isHexDigit (toUpper c) = isHexDigit c := fun c => by
        rw [isHexDigit, hexValue_toUpper, isHexDigit]
      have hall : ((input.take width).map toUpper).all isHexDigit = true := by
        rw [all_map]
        simpa [Function.comp_def, hdigit] using h.1.2
      simp only [exactly, ← map_take, ← map_drop, length_map, h.1.1, hall, ih' h.2, decide_true,
        Bool.and_self]

theorem literal_guidFormat {a : Char} (h : .literal a ∈ guidBracesFormat) :
    a.toNat < 128 ∧ ¬ (97 ≤ a.toNat ∧ a.toNat ≤ 122) ∧ a.toNat ≠ 0 ∧ a.toNat ≠ 47 := by
  simp only [guidBracesFormat, guidFormat, cons_append, nil_append, mem_cons, Directive.literal.injEq,
    reduceCtorEq, not_mem_nil, or_false, false_or] at h
  rcases h with rfl | rfl | rfl | rfl | rfl | rfl <;> decide

theorem mem_guidBracesFormat {d : Directive} (h : d ∈ guidFormat) : d ∈ guidBracesFormat :=
  mem_cons_of_mem _ (mem_append_left _ h)

theorem exactly_guidToString (g : Guid) (flags : GuidToStringFlags) (hbraces : flags.addBraces = false) :
    exactly guidFormat (guidToString g flags : List T) = true ∧
      exactValues guidFormat (guidToString g flags : List T) = g.values := by
  have hprint : ((print guidBracesFormat g.values : List T).drop 1).dropLast = print guidFormat g.values := by
    rw [guidBracesFormat, print, print_append_literal (fits_values g)]
    simp
  have hexact : exactly guidFormat (print guidFormat g.values : List T) = true := exactly_print (fits_values g)
  have hvalues : exactValues guidFormat (print guidFormat g.values : List T) = g.values :=
    exactValues_print (fits_values g)
  unfold guidToString
  simp only [hbraces, Bool.false_eq_true, if_false, hprint]
  split
  · refine ⟨exactly_map_toUpper (fun a ha => ?_) hexact, (exactValues_map_toUpper _ _).trans hvalues⟩
    have hliteral := literal_guidFormat (mem_guidBracesFormat ha)
    exact ⟨hliteral.1, hliteral.2.1⟩
  · exact ⟨hexact, hvalues⟩

theorem exactly_guidToString_braces (g : Guid) (flags : GuidToStringFlags) (hbraces : flags.addBraces = true) :
    exactly guidBracesFormat (guidToString g flags : List T) = true ∧
      exactValues guidBracesFormat (guidToString g flags : List T) = g.values := by
  have hfits : Fits guidBracesFormat g.values := fits_values g
  have hexact : exactly guidBracesFormat (print guidBracesFormat g.values : List T) = true := exactly_print hfits
  have hvalues : exactValues guidBracesFormat (print guidBracesFormat g.values : List T) = g.values :=
    exactValues_print hfits
  unfold guidToString
  simp only [hbraces, if_true]
  split
  · refine ⟨exactly_map_toUpper (fun a ha => ?_) hexact, (exactValues_map_toUpper _ _).trans hvalues⟩
    have hliteral := literal_guidFormat ha
    exact ⟨hliteral.1, hliteral.2.1⟩
  · exact ⟨hexact, hvalues⟩

variable {text : List T}

theorem length_of_guid (h : exactly guidFormat text = true) : text.length = 36 := length_of_exactly h

theorem length_of_braces (h : exactly guidBracesFormat text = true) : text.length = 38 :=
  length_of_exactly h

theorem braces_of_exactly (h : exactly guidBracesFormat text = true) :
    ∃ body, exactly guidFormat body = true ∧ text = ofChar '{' :: (body ++ [ofChar '}']) := by
  cases text with
  | nil => cases h
  | cons c rest =>
    simp only [guidBracesFormat, exactly, Bool.and_eq_true, decide_eq_true_eq] at h
    obtain ⟨body, hbody, rfl⟩ := exactly_append_literal h.2
    exact ⟨body, hbody, by rw [h.1]⟩

theorem guidOf_guidToString (g : Guid) (flags : GuidToStringFlags) :
    guidOf (guidToString g flags : List T) = some g ∧ IsGuid (guidToString g flags : List T) := by
  cases hbraces : flags.addBraces with
  | false =>
    obtain ⟨hexact, hvalues⟩ := exactly_guidToString (T := T) g flags hbraces
    refine ⟨?_, Or.inl hexact⟩
    rw [guidOf, if_pos hexact, hvalues, Guid.ofValues_values]
  | true =>
    obtain ⟨hexact, hvalues⟩ := exactly_guidToString_braces (T := T) g flags hbraces
    refine ⟨?_, Or.inr hexact⟩
    have hnot : ¬ exactly guidFormat (guidToString g flags : List T) = true := fun h => by
      have h₁ := length_of_guid h
      have h₂ := length_of_braces hexact
      omega
    rw [guidOf, if_neg hnot, if_pos hexact, hvalues, Guid.ofValues_values]

theorem code_of_isGuid (h : IsGuid text) {c : T} (hc : c ∈ text) : code c ≠ 0 ∧ code c ≠ 47 := by
  have hmem : isHexDigit c = true ∨ ∃ a, .literal a ∈ guidBracesFormat ∧ c = ofChar a := by
    rcases h with h | h
    · rcases mem_of_exactly h hc with hdigit | ⟨a, ha, heq⟩
      · exact Or.inl hdigit
      · exact Or.inr ⟨a, mem_guidBracesFormat ha, heq⟩
    · exact mem_of_exactly h hc
  rcases hmem with hdigit | ⟨a, ha, rfl⟩
  · have hcode := code_of_isHexDigit hdigit
    omega
  · obtain ⟨hascii, -, hzero, hsep⟩ := literal_guidFormat ha
    rw [code_ofChar a hascii]
    exact ⟨hzero, hsep⟩

theorem hex_zero_not_mem : .hex 0 ∉ guidBracesFormat := by decide

omit [DecidableEq T] in
theorem scanned_append (h : ∀ c ∈ text, code c ≠ 0) (more : List T) :
    scanned (text ++ more) = text ++ scanned more := by
  rw [scanned, takeWhile_append_of_pos fun c hc => decide_eq_true (h c hc)]
  rfl

theorem toGuid_of_isGuid (l : CharLocale) {length : Nat} (hlen : length ≤ text.length)
    (h : IsGuid (text.take length)) : toGuid l (some text) (some length) = guidOf (text.take length) := by
  obtain ⟨string, more, rfl, rfl⟩ : ∃ string more, text = string ++ more ∧ length = string.length :=
    ⟨text.take length, text.drop length, (take_append_drop _ _).symm, (length_take_of_le hlen).symm⟩
  rw [take_left] at h ⊢
  have hscan := scanned_append (fun c hc => (code_of_isGuid h hc).1) more
  simp only [toGuid, Option.getD_some, hscan]
  rcases h with h | h
  · have hsize := length_of_guid h
    have hread := sscanf_of_exactly l (fun hmem => hex_zero_not_mem (mem_guidBracesFormat hmem)) h (scanned more)
    rw [if_neg (by omega), if_pos hsize, hread, guidOf, if_pos h]
  · have hsize := length_of_braces h
    have hread := sscanf_of_exactly l hex_zero_not_mem h (scanned more)
    have hnot : ¬ exactly guidFormat string = true := fun hbare => by
      have hbare := length_of_guid hbare
      omega
    have hends : (string ++ more)[0]? = some (ofChar '{') ∧ (string ++ more)[37]? = some (ofChar '}') := by
      obtain ⟨body, hbody, rfl⟩ := braces_of_exactly h
      have hbody := length_of_guid hbody
      simp [hbody]
    rw [if_pos ⟨hsize, hends⟩, hread, guidOf, if_neg hnot, if_pos h]

theorem ofValues_isSome (values : List Nat) : (Guid.ofValues values).isSome = true ↔ values.length = 11 := by
  rcases values with _ | ⟨a, _ | ⟨b, _ | ⟨c, _ | ⟨d₀, _ | ⟨d₁, _ | ⟨d₂, _ | ⟨d₃, _ | ⟨d₄, _ | ⟨d₅, _ | ⟨d₆, _ | ⟨d₇,
    _ | ⟨e, rest⟩⟩⟩⟩⟩⟩⟩⟩⟩⟩⟩⟩ <;> simp [Guid.ofValues]

theorem toGuid_isSome_iff (l : CharLocale) (text : List T) (length : Nat) :
    (toGuid l (some text) (some length)).isSome = true ↔ PassesAsGuid l text length := by
  have hreads : ∀ input : List T, (Guid.ofValues (sscanf l guidFormat input)).isSome = true ↔ Reads l guidFormat input :=
    fun input => (ofValues_isSome _).trans (length_sscanf_iff rfl input)
  unfold toGuid PassesAsGuid
  simp only [Option.getD_some]
  split
  · rename_i hbraces
    obtain ⟨hsize, hopen, hclose⟩ := hbraces
    obtain ⟨rest, rfl⟩ : ∃ rest, text = ofChar '{' :: rest := by
      cases text with
      | nil => cases hopen
      | cons c rest => exact ⟨rest, by rw [Option.some.inj hopen]⟩
    have hcode : code (ofChar '{' : T) ≠ 0 := by
      rw [code_ofChar '{' (by decide)]
      decide
    have hscan : scanned (ofChar '{' :: rest) = ofChar '{' :: scanned rest :=
      takeWhile_cons_of_pos (decide_eq_true hcode)
    rw [hscan, guidBracesFormat, sscanf, if_pos rfl, sscanf_append_literal, hreads, tail_cons]
    constructor
    · intro h
      exact Or.inr ⟨hsize, hopen, hclose, h⟩
    · rintro (⟨hbare, -⟩ | ⟨-, -, -, h⟩)
      · omega
      · exact h
  · rename_i hbraces
    split
    · rename_i hsize
      rw [hreads]
      constructor
      · intro h
        exact Or.inl ⟨hsize, h⟩
      · rintro (⟨-, h⟩ | ⟨hlong, -⟩)
        · exact h
        · omega
    · rename_i hsize
      constructor
      · intro h
        cases h
      · rintro (⟨hbare, -⟩ | ⟨hlong, hopen, hclose, -⟩)
        · exact (hsize hbare).elim
        · exact (hbraces ⟨hlong, hopen, hclose⟩).elim

theorem guidOf_isSome_iff (text : List T) : (guidOf text).isSome = true ↔ IsGuid text := by
  have hbare : (Guid.ofValues (exactValues guidFormat text)).isSome = true := (ofValues_isSome _).mpr rfl
  have hbraces : (Guid.ofValues (exactValues guidBracesFormat text)).isSome = true := (ofValues_isSome _).mpr rfl
  unfold guidOf IsGuid
  split
  · rename_i h
    exact ⟨fun _ => Or.inl h, fun _ => hbare⟩
  · rename_i hnot
    split
    · rename_i h
      exact ⟨fun _ => Or.inr h, fun _ => hbraces⟩
    · rename_i hnot'
      constructor
      · intro h
        cases h
      · intro h
        exact (h.elim hnot hnot').elim

theorem toGuid_eq_guidOf_iff (l : CharLocale) (string more : List T) :
    toGuid l (some (string ++ more)) (some string.length) = guidOf string ↔
      IsGuid string ∨ ¬ PassesAsGuid l (string ++ more) string.length := by
  have hguid : IsGuid string → toGuid l (some (string ++ more)) (some string.length) = guidOf string := by
    intro h
    have htake : (string ++ more).take string.length = string := take_left
    have hlen : string.length ≤ (string ++ more).length := by simp
    have heq := toGuid_of_isGuid l hlen (by rwa [htake])
    rwa [htake] at heq
  rw [← toGuid_isSome_iff, ← guidOf_isSome_iff]
  constructor
  · intro heq
    rw [heq]
    exact em _
  · rintro (h | h)
    · exact hguid ((guidOf_isSome_iff string).mp h)
    · have hnot : ¬ (guidOf string).isSome = true := fun hsome => by
        rw [hguid ((guidOf_isSome_iff string).mp hsome)] at h
        exact h hsome
      rw [Bool.not_eq_true, Option.isSome_eq_false_iff, Option.isNone_iff_eq_none] at h hnot
      rw [h, hnot]

theorem toGuid_guidToString (l : CharLocale) (g : Guid) (flags : GuidToStringFlags) :
    toGuid l (some (guidToString g flags : List T)) (some (guidToString g flags : List T).length) = some g := by
  obtain ⟨hvalue, hguid⟩ := guidOf_guidToString (T := T) g flags
  have heq := (toGuid_eq_guidOf_iff l (guidToString g flags : List T) []).mpr (Or.inl hguid)
  rw [append_nil] at heq
  rw [heq, hvalue]

end WslPlus.Text

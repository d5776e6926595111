import Mathlib.Data.List.Basic
import WslPlus.Lib.CharType

/-!
# CSV records

The functions of stringshared.h that write a list of fields as one record and read it
back. They are templates over the character type, into which their literals are cast.
-/

namespace WslPlus.Text

open List

section Csv

variable {T : Type} [CharType T]

def quote : T := CharType.ofChar '"'

def comma : T := CharType.ofChar ','

theorem comma_ne_quote : (comma : T) ≠ quote :=
  CharType.ofChar_ne (by decide) (by decide) (by decide)

variable [DecidableEq T]

def readQuoted : List T → Option (List T × List T)
  | [] => none
  | [c] => if c = quote then some ([], []) else none
  | c :: d :: rest =>
    if c = quote then
      if d = quote then (readQuoted rest).map fun r => (quote :: r.1, r.2)
      else some ([], d :: rest)
    else (readQuoted (d :: rest)).map fun r => (c :: r.1, r.2)

def readBare : List T → Option (List T × List T)
  | [] => some ([], [])
  | c :: rest =>
    if c = comma then some ([], c :: rest)
    else if c = quote then none
    else (readBare rest).map fun r => (c :: r.1, r.2)

def readField : List T → Option (List T × List T)
  | [] => readBare []
  | c :: rest =>
    if c = quote then
      match readQuoted rest with
      | none => none
      | some (field, []) => some (field, [])
      | some (field, d :: rest') => if d = comma then some (field, d :: rest') else none
    else readBare (c :: rest)

variable {field rest : List T}

theorem readQuoted_length (record : List T)
    (h : readQuoted record = some (field, rest)) : rest.length ≤ record.length := by
  fun_induction readQuoted record generalizing field with
  | case1 => cases h
  | case2 =>
    cases h
    simp
  | case3 c hc => cases h
  | case4 record' ih =>
    obtain ⟨⟨field', rest'⟩, hr, heq⟩ := Option.map_eq_some_iff.mp h
    cases heq
    have hle := ih hr
    simp only [length_cons] at hle ⊢
    omega
  | case5 d record' hd =>
    cases h
    simp
  | case6 c d record' hc ih =>
    obtain ⟨⟨field', rest'⟩, hr, heq⟩ := Option.map_eq_some_iff.mp h
    cases heq
    have hle := ih hr
    simp only [length_cons] at hle ⊢
    omega

theorem readBare_length (record : List T)
    (h : readBare record = some (field, rest)) : rest.length ≤ record.length := by
  induction record generalizing field with
  | nil =>
    cases h
    exact Nat.le_refl _
  | cons c record ih =>
    unfold readBare at h
    split at h
    · cases h
      exact Nat.le_refl _
    · split at h
      · cases h
      · obtain ⟨⟨field', rest'⟩, hr, heq⟩ := Option.map_eq_some_iff.mp h
        cases heq
        exact Nat.le_succ_of_le (ih hr)

theorem readField_length (record : List T)
    (h : readField record = some (field, rest)) : rest.length ≤ record.length := by
  cases record with
  | nil => exact readBare_length [] h
  | cons c record =>
    simp only [readField] at h
    split at h
    · split at h
      · cases h
      · cases h
        simp
      · rename_i hq
        have hle := readQuoted_length record hq
        split at h
        · cases h
          exact Nat.le_succ_of_le hle
        · cases h
    · exact readBare_length (c :: record) h

def splitCsvFields (record : List T) : Option (List (List T)) :=
  match _hr : readField record with
  | none => none
  | some (field, []) => some [field]
  | some (field, _ :: rest) => (splitCsvFields rest).map (field :: ·)
termination_by record.length
decreasing_by
  have hle := readField_length record _hr
  simp only [length_cons] at hle
  omega

def needsQuote (field : List T) : Bool :=
  (field.any fun c => c = comma || c = quote || c = CharType.ofChar '\r' || c = CharType.ofChar '\n') ||
    field.head? = some (CharType.ofChar ' ') || field.getLast? = some (CharType.ofChar ' ')

def doubleQuotes (field : List T) : List T := field.flatMap fun c => if c = quote then [quote, c] else [c]

def csvEscapeField (field : List T) : List T :=
  if needsQuote field then quote :: (doubleQuotes field ++ [quote]) else field

def joinCsvFields (fields : List (List T)) : List T := [comma].intercalate (fields.map csvEscapeField)

def Ended (rest : List T) : Prop := rest = [] ∨ ∃ more, rest = comma :: more

omit [DecidableEq T] in
theorem Ended.head {rest : List T} (h : Ended rest) : rest.head? ≠ some quote := by
  rcases h with rfl | ⟨more, rfl⟩
  · simp
  · simp [comma_ne_quote]

theorem readQuoted_close {rest : List T} (h : Ended rest) : readQuoted (quote :: rest) = some ([], rest) := by
  cases rest with
  | nil => simp [readQuoted]
  | cons d rest =>
    have hd : d ≠ quote := by simpa using h.head
    simp [readQuoted, hd]

theorem readQuoted_cons {c : T} (hc : c ≠ quote) {record field rest : List T}
    (h : readQuoted record = some (field, rest)) : readQuoted (c :: record) = some (c :: field, rest) := by
  cases record with
  | nil => cases h
  | cons d record => simp [readQuoted, hc, h]

theorem readQuoted_doubleQuotes (field : List T) {rest : List T} (h : Ended rest) :
    readQuoted (doubleQuotes field ++ quote :: rest) = some (field, rest) := by
  induction field with
  | nil => exact readQuoted_close h
  | cons c field ih =>
    by_cases hc : c = quote
    · have hstep : doubleQuotes (c :: field) ++ quote :: rest =
          quote :: quote :: (doubleQuotes field ++ quote :: rest) := by
        simp [doubleQuotes, hc]
      rw [hstep, readQuoted, if_pos rfl, if_pos rfl, ih, hc]
      rfl
    · have hstep : doubleQuotes (c :: field) ++ quote :: rest =
          c :: (doubleQuotes field ++ quote :: rest) := by
        simp [doubleQuotes, hc]
      rw [hstep]
      exact readQuoted_cons hc ih

theorem readBare_append (hfield : ∀ c ∈ field, c ≠ comma ∧ c ≠ quote)
    (h : Ended rest) : readBare (field ++ rest) = some (field, rest) := by
  induction field with
  | nil =>
    rcases h with rfl | ⟨more, rfl⟩
    · rfl
    · simp [readBare]
  | cons c field ih =>
    obtain ⟨hcomma, hquote⟩ := hfield c mem_cons_self
    have hrest := ih fun d hd => hfield d (mem_cons_of_mem c hd)
    simp [readBare, hcomma, hquote, hrest]

theorem plain_of_not_needsQuote {field : List T} (h : needsQuote field = false) :
    ∀ c ∈ field, c ≠ comma ∧ c ≠ quote := by
  intro c hc
  simp only [needsQuote, Bool.or_eq_false_iff, any_eq_false] at h
  have hthis := h.1.1 c hc
  simp only [Bool.or_eq_true, decide_eq_true_eq, not_or] at hthis
  exact ⟨hthis.1.1.1, hthis.1.1.2⟩

theorem readField_bare {record : List T} (h : record.head? ≠ some quote) :
    readField record = readBare record := by
  cases record with
  | nil => rfl
  | cons c record =>
    have hc : c ≠ quote := by simpa using h
    rw [readField, if_neg hc]

theorem readField_csvEscapeField (field : List T) {rest : List T} (h : Ended rest) :
    readField (csvEscapeField field ++ rest) = some (field, rest) := by
  unfold csvEscapeField
  cases hneeds : needsQuote field with
  | true =>
    have hstep : quote :: (doubleQuotes field ++ [quote]) ++ rest =
        quote :: (doubleQuotes field ++ quote :: rest) := by simp
    rw [if_pos rfl, hstep, readField, if_pos rfl, readQuoted_doubleQuotes field h]
    rcases h with rfl | ⟨more, rfl⟩
    · rfl
    · simp
  | false =>
    have hplain := plain_of_not_needsQuote hneeds
    rw [if_neg Bool.false_ne_true, readField_bare, readBare_append hplain h]
    cases field with
    | nil => exact h.head
    | cons c field =>
      have hc := (hplain c mem_cons_self).2
      simpa using hc

theorem splitCsvFields_last {record field : List T} (h : readField record = some (field, [])) :
    splitCsvFields record = some [field] := by
  rw [splitCsvFields]
  split
  · rename_i hr
    rw [h] at hr
    cases hr
  · rename_i hr
    rw [h] at hr
    cases hr
    rfl
  · rename_i hr
    rw [h] at hr
    cases hr

theorem splitCsvFields_next {record field rest : List T} {c : T}
    (h : readField record = some (field, c :: rest)) :
    splitCsvFields record = (splitCsvFields rest).map (field :: ·) := by
  rw [splitCsvFields]
  split
  · rename_i hr
    rw [h] at hr
    cases hr
  · rename_i hr
    rw [h] at hr
    cases hr
  · rename_i hr
    rw [h] at hr
    cases hr
    rfl

theorem splitCsvFields_join_cons (field : List T) (fields : List (List T)) :
    splitCsvFields (joinCsvFields (field :: fields)) = some (field :: fields) := by
  induction fields generalizing field with
  | nil =>
    have hread := readField_csvEscapeField field (Or.inl rfl : Ended ([] : List T))
    rw [append_nil] at hread
    have hjoin : joinCsvFields [field] = csvEscapeField field := by simp [joinCsvFields]
    rw [hjoin]
    exact splitCsvFields_last hread
  | cons next fields ih =>
    have hjoin : joinCsvFields (field :: next :: fields) =
        csvEscapeField field ++ comma :: joinCsvFields (next :: fields) := by
      simp [joinCsvFields, intercalate_cons_cons]
    have hread := readField_csvEscapeField field (Or.inr ⟨joinCsvFields (next :: fields), rfl⟩)
    rw [hjoin, splitCsvFields_next hread, ih next]
    rfl

/-- Every list of fields that is not empty survives joining and splitting. -/
theorem splitCsvFields_joinCsvFields {fields : List (List T)} (h : fields ≠ []) :
    splitCsvFields (joinCsvFields fields) = some fields := by
  cases fields with
  | nil => exact absurd rfl h
  | cons field fields => exact splitCsvFields_join_cons field fields

end Csv

theorem splitCsvFields_joinCsvFields_special :
    ["a,\"b\"".toList, " c\r\n".toList, []] ≠ ([] : List (List Char)) ∧
      splitCsvFields (joinCsvFields ["a,\"b\"".toList, " c\r\n".toList, []]) =
        some ["a,\"b\"".toList, " c\r\n".toList, []] :=
  ⟨by decide, splitCsvFields_joinCsvFields (by decide)⟩

end WslPlus.Text

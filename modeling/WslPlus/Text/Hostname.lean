import Mathlib.Data.List.Chain
import Mathlib.Data.List.DropRight

/-!
# Host names

`CleanHostname` leaves out what a host name may not have. A character is kept if and only if the
name so far stays the beginning of a valid one.
-/

namespace WslPlus.Text

open List

/-- The body of the loop, with `dot` and `result`. -/
def cleanStep (s : Bool × List Char) (e : Char) : Bool × List Char :=
  if e = '.' then
    if s.1 ∨ s.2 = [] ∨ s.2.getLast? = some '-' then s else (true, s.2 ++ [e])
  else if e = '-' then
    if s.2 = [] ∨ s.2.getLast? = some '-' ∨ s.2.getLast? = some '.' then s else (s.1, s.2 ++ [e])
  else if e.isAlphanum then (s.1, s.2 ++ [e])
  else s

def isMark (c : Char) : Bool := c = '.' || c = '-'

def defaultHostName : List Char := ['l', 'o', 'c', 'a', 'l', 'h', 'o', 's', 't']

def cleanHostname (hostname : List Char) : List Char :=
  let result := (hostname.foldl cleanStep (false, [])).2
  let result := if result.length > 64 then result.take 64 else result
  let result := result.rdropWhile isMark
  if result = [] then defaultHostName else result

/-- The rules that the beginning of a host name keeps. -/
structure HostnameStart (name : List Char) : Prop where
  characters : ∀ c ∈ name, c.isAlphanum = true ∨ isMark c = true
  dots : name.count '.' ≤ 1
  first : ∀ c ∈ name.head?, isMark c = false
  apart : name.IsChain fun c d => ¬(isMark c = true ∧ isMark d = true)

/-- The rules in the comment of the source. -/
structure ValidHostname (name : List Char) : Prop extends HostnameStart name where
  nonempty : name ≠ []
  short : name.length ≤ 64
  last : ∀ c ∈ name.getLast?, isMark c = false

theorem HostnameStart.left {name rest : List Char} (h : HostnameStart (name ++ rest)) : HostnameStart name := by
  refine ⟨fun c hc => h.characters c (mem_append_left rest hc), ?_, ?_, h.apart.left_of_append⟩
  · have := h.dots
    rw [count_append] at this
    omega
  · cases name with
    | nil => exact fun c hc => nomatch hc
    | cons c name => exact h.first

/-- When a character may be added. -/
theorem hostnameStart_concat_iff {name : List Char} (h : HostnameStart name) (e : Char) :
    HostnameStart (name ++ [e]) ↔ (e.isAlphanum = true ∨ isMark e = true) ∧ (e = '.' → '.' ∉ name) ∧
      (isMark e = true → ∃ c, name.getLast? = some c ∧ isMark c = false) := by
  constructor
  · intro hnew
    refine ⟨hnew.characters e (by simp), ?_, ?_⟩
    · intro he hmem
      have hdots := hnew.dots
      have hpos := count_pos_iff.mpr hmem
      rw [count_append, he] at hdots
      simp only [count_singleton_self] at hdots
      omega
    · intro hmark
      cases hlast : name.getLast? with
      | none =>
        rw [getLast?_eq_none_iff.mp hlast] at hnew
        have := hnew.first e rfl
        rw [hmark] at this
        cases this
      | some c =>
        have hapart := (isChain_append.mp hnew.apart).2.2 c hlast e rfl
        exact ⟨c, rfl, by simpa [hmark] using hapart⟩
  · intro ⟨hchar, hdot, hmark⟩
    refine ⟨?_, ?_, ?_, ?_⟩
    · intro c hc
      obtain hc | hc := mem_append.mp hc
      · exact h.characters c hc
      · rwa [mem_singleton.mp hc]
    · rw [count_append]
      by_cases he : e = '.'
      · rw [count_eq_zero_of_not_mem (hdot he), he, count_singleton_self]
      · have := h.dots
        simpa [count_singleton, he] using this
    · cases name with
      | nil =>
        intro c hc
        cases hc
        by_contra hne
        obtain ⟨c, hc, -⟩ := hmark ((Bool.not_eq_false _).mp hne)
        cases hc
      | cons c name => exact h.first
    · refine h.apart.append (isChain_singleton e) ?_
      intro c hc d hd hboth
      cases hd
      obtain ⟨b, hb, hplain⟩ := hmark hboth.2
      cases hb.symm.trans hc
      rw [hboth.1] at hplain
      cases hplain

theorem cleanStep_spec {s : Bool × List Char} (h : HostnameStart s.2) (hdot : s.1 = true ↔ '.' ∈ s.2)
    (e : Char) :
    (HostnameStart (s.2 ++ [e]) ∧ (cleanStep s e).2 = s.2 ++ [e] ∨ ¬HostnameStart (s.2 ++ [e]) ∧ cleanStep s e = s) ∧
      ((cleanStep s e).1 = true ↔ '.' ∈ (cleanStep s e).2) := by
  rw [hostnameStart_concat_iff h]
  unfold cleanStep
  by_cases hperiod : e = '.'
  · have hmark : isMark e = true := by simp [isMark, hperiod]
    rw [if_pos hperiod]
    cases hlast : s.2.getLast? with
    | none =>
      have hnil := getLast?_eq_none_iff.mp hlast
      simp [hnil, hmark, hdot]
    | some b =>
      have hmem := mem_of_getLast? hlast
      have hne : s.2 ≠ [] := ne_nil_of_mem hmem
      by_cases hin : '.' ∈ s.2
      · simp [hdot, hin, hperiod]
      · have hb : b ≠ '.' := fun heq => hin (heq ▸ hmem)
        by_cases hhyphen : b = '-' <;> simp [hdot, hin, hne, hhyphen, hperiod, isMark, hb]
  by_cases hhyphen : e = '-'
  · have hmark : isMark e = true := by simp [isMark, hhyphen]
    rw [if_neg hperiod, if_pos hhyphen]
    cases hlast : s.2.getLast? with
    | none =>
      have hnil := getLast?_eq_none_iff.mp hlast
      simp [hnil, hmark, hdot]
    | some b =>
      have hne : s.2 ≠ [] := ne_nil_of_mem (mem_of_getLast? hlast)
      by_cases hb : b = '-' ∨ b = '.'
      · have hb' : isMark b = true := by simp [isMark, hb.symm]
        simp [hne, hb, hmark, hb', hdot]
      · have hb' : isMark b = false := by simp [isMark, not_or.mp hb]
        simp [hne, hb, hb', hdot, hhyphen, show isMark '-' = true from rfl]
  have hmark : isMark e = false := by simp [isMark, hperiod, hhyphen]
  rw [if_neg hperiod, if_neg hhyphen]
  split
  case isTrue hkeep => simp [hmark, hkeep, hdot, hperiod, Ne.symm hperiod]
  case isFalse hskip => simp [hmark, hskip, hdot]

/-- The loop over a name of which `rest` is still to come. -/
theorem foldl_cleanStep {s : Bool × List Char} (h : HostnameStart s.2) (hdot : s.1 = true ↔ '.' ∈ s.2)
    (rest : List Char) : HostnameStart (rest.foldl cleanStep s).2 ∧
      (HostnameStart (s.2 ++ rest) → (rest.foldl cleanStep s).2 = s.2 ++ rest) := by
  induction rest generalizing s with
  | nil => exact ⟨h, fun _ => (append_nil _).symm⟩
  | cons e rest ih =>
    rw [foldl_cons]
    obtain ⟨⟨hnew, hkeep⟩ | ⟨hnot, hskip⟩, hnext⟩ := cleanStep_spec h hdot e
    · obtain ⟨hstart, hall⟩ := ih (hkeep ▸ hnew) hnext
      refine ⟨hstart, fun hvalid => ?_⟩
      rw [hkeep, append_assoc] at hall
      exact hall hvalid
    · rw [hskip]
      refine ⟨(ih h hdot).1, fun hvalid => absurd ?_ hnot⟩
      rw [show s.2 ++ e :: rest = s.2 ++ [e] ++ rest by simp] at hvalid
      exact hvalid.left

theorem cleanLoop (name : List Char) : HostnameStart (name.foldl cleanStep (false, [])).2 ∧
    (HostnameStart name → (name.foldl cleanStep (false, [])).2 = name) := by
  apply foldl_cleanStep
  · exact ⟨by simp, by simp, by simp, .nil⟩
  · simp

theorem validHostname_trimmed {name : List Char} (h : HostnameStart name) (hshort : name.length ≤ 64) :
    ValidHostname (if name.rdropWhile isMark = [] then defaultHostName else name.rdropWhile isMark) := by
  have happ : name.rdropWhile isMark ++ name.rtakeWhile isMark = name := rdropWhile_append_rtakeWhile
  split
  case isTrue =>
    refine ⟨⟨by simp [defaultHostName, isMark, Char.isAlphanum], by decide, ?_, by decide⟩, by decide, by decide, ?_⟩
    all_goals
      intro c hc
      cases hc
      rfl
  case isFalse hne =>
    rw [← happ] at h
    refine ⟨h.left, hne, ?_, ?_⟩
    · have := congrArg List.length happ
      rw [length_append] at this
      omega
    · intro c hc
      rw [getLast?_eq_some_getLast hne] at hc
      cases hc
      exact (Bool.not_eq_true _).mp (rdropWhile_last_not isMark name hne)

theorem cleanHostname_of_valid {name : List Char} (h : ValidHostname name) : cleanHostname name = name := by
  have hloop : (name.foldl cleanStep (false, [])).2 = name :=
    (cleanLoop name).2 h.toHostnameStart
  have htrim : name.rdropWhile isMark = name := by
    rw [rdropWhile_eq_self_iff]
    intro hne
    rw [h.last _ (getLast?_eq_some_getLast hne)]
    exact Bool.false_ne_true
  have hshort : ¬name.length > 64 := Nat.not_lt.mpr h.short
  simp only [cleanHostname, hloop, if_neg hshort, htrim, if_neg h.nonempty]

theorem validHostname_clean (hostname : List Char) : ValidHostname (cleanHostname hostname) := by
  have hstart := (cleanLoop hostname).1
  generalize hres : (hostname.foldl cleanStep (false, [])).2 = result at hstart
  simp only [cleanHostname, hres]
  split
  case isTrue =>
    rw [← take_append_drop 64 result] at hstart
    exact validHostname_trimmed hstart.left (length_take_le 64 result)
  case isFalse hle => exact validHostname_trimmed hstart (Nat.le_of_not_lt hle)

/-- A name that was cleaned keeps the rules, a name that keeps them is not changed, and cleaning
twice does nothing more. -/
theorem clean_hostname_valid (hostname : List Char) :
    ValidHostname (cleanHostname hostname) ∧ (ValidHostname hostname → cleanHostname hostname = hostname) ∧
      cleanHostname (cleanHostname hostname) = cleanHostname hostname :=
  ⟨validHostname_clean hostname, cleanHostname_of_valid, cleanHostname_of_valid (validHostname_clean hostname)⟩

end WslPlus.Text

import WslPlus.Paths.WslPath

/-!
# The source of a Plan 9 mount

drvfs.cpp writes the Windows source of a mount into the options of the mount, and util.cpp looks
for it in the options of the super block. The source stands in an option that ends at a comma,
between parts that end at a semicolon, and nothing in it is escaped.
-/

namespace WslPlus.Paths.Plan9Mount

open List CString

def comma : UInt8 := 0x2c

def semicolon : UInt8 := 0x3b

/-- The tokens that `UtilStringNextToken` cuts off until nothing is left. -/
def optionTokens (options : Bytes) : List Bytes :=
  let parts := options.splitOn comma
  if parts.getLast? = some [] then parts.dropLast else parts

def plan9CaseOption : Bytes := utf8 ['c', 'a', 's', 'e', '=']

def plan9CaseOptionDir : Bytes := plan9CaseOption ++ utf8 ['d', 'i', 'r']

def plan9CaseOptionForce : Bytes := plan9CaseOption ++ utf8 ['f', 'o', 'r', 'c', 'e']

def plan9SymlinkRootOption : Bytes := utf8 ['s', 'y', 'm', 'l', 'i', 'n', 'k', 'r', 'o', 'o', 't', '=']

def drvfsOptions : List Bytes :=
  [plan9CaseOption, utf8 ['u', 'i', 'd', '='], utf8 ['g', 'i', 'd', '='], utf8 ['u', 'm', 'a', 's', 'k', '='],
    utf8 ['d', 'm', 'a', 's', 'k', '='], utf8 ['f', 'm', 'a', 's', 'k', '='], plan9SymlinkRootOption]

def isDrvfsOption (option : Bytes) : Bool :=
  option = utf8 ['m', 'e', 't', 'a', 'd', 'a', 't', 'a'] || drvfsOptions.any (startsWith option · false)

def convertOption (converted : Bytes × Bytes) (option : Bytes) : Bytes × Bytes :=
  if isDrvfsOption option then
    (converted.1 ++ semicolon :: if option = plan9CaseOptionForce then plan9CaseOptionDir else option, converted.2)
  else if startsWith option (utf8 ['f', 'a', 'l', 'l', 'b', 'a', 'c', 'k', '=']) false then converted
  else (converted.1, converted.2 ++ option ++ [comma])

def convertDrvfsMountOptionsToPlan9 (options drvFsPrefix : Bytes) : Bytes × Bytes :=
  let converted := (optionTokens options).foldl convertOption ([], [])
  (converted.1 ++ semicolon :: plan9SymlinkRootOption ++ drvFsPrefix, converted.2)

def isUnc (source : Bytes) : Bool := source.head?.any isSeparator && (source.drop 1).head?.any isSeparator

/-- The text that is passed to mount: the options in front, each with its comma, and behind them the
option that names the share and the source. -/
structure MountOptions where
  front : Bytes
  aname : Bytes

def mountPlan9 (source options drvFsPrefix : Bytes) : MountOptions :=
  let plan9Source := if isUnc source then plan9UncTranslated ++ source.drop 2 else source
  let converted := convertDrvfsMountOptionsToPlan9 options drvFsPrefix
  { front := utf8 ['c', 'a', 'c', 'h', 'e', '=', 'm', 'm', 'a', 'p', ','] ++ converted.2
    aname := plan9AnameDrvfs ++ semicolon :: plan9AnamePathOption ++ plan9Source ++ converted.1 }

/-- The other options that the kernel shows, in front of the aname option and behind it. -/
structure Echo where
  before : List Bytes
  after : List Bytes
  whole : ∀ option ∈ before, comma ∉ option
  other : ∀ option ∈ before, startsWith option plan9AnameDrvfs false = false

def Echo.superOptions (echo : Echo) (aname : Bytes) : Bytes :=
  echo.before.flatMap (· ++ [comma]) ++ (aname ++ echo.after.flatMap (comma :: ·))

structure Source where
  path : Bytes
  drive_or_share :
    (1 < path.length ∧ isAlpha (path.getD 0 0) = true ∧ path.getD 1 0 = 0x3a) ∨ isUnc path = true

def untilSeparator (text : Bytes) : Bytes := text.takeWhile fun b => b ≠ comma && b ≠ semicolon

theorem splitOn_before {before : List Bytes} (h : ∀ option ∈ before, comma ∉ option) (rest : Bytes) :
    (before.flatMap (· ++ [comma]) ++ rest).splitOn comma = before ++ rest.splitOn comma := by
  induction before with
  | nil => rfl
  | cons option before ih =>
    obtain ⟨hopt, hbefore⟩ := forall_mem_cons.mp h
    have hsplit := splitOn_append_cons_self_of_not_mem hopt (before.flatMap (· ++ [comma]) ++ rest)
    rw [ih hbefore] at hsplit
    rw [flatMap_cons, cons_append, ← hsplit]
    simp

theorem takeWhile_append_stop {p : UInt8 → Bool} {stop : UInt8} (hstop : p stop = false) (text rest : Bytes) :
    (text ++ stop :: rest).takeWhile p = text.takeWhile p := by
  induction text with
  | nil => rw [nil_append, takeWhile_cons, hstop, if_neg Bool.false_ne_true, takeWhile_nil]
  | cons b text ih => rw [cons_append, takeWhile_cons, takeWhile_cons, ih]

theorem splitOn_eq_cons (text : Bytes) : ∃ rest, text.splitOn comma = text.takeWhile (· ≠ comma) :: rest := by
  have hself {part : Bytes} (h : comma ∉ part) : part.takeWhile (· ≠ comma) = part := by
    rw [takeWhile_eq_self_iff]
    intro b hb
    simpa using ne_of_mem_of_not_mem hb h
  by_cases h : comma ∈ text
  · obtain ⟨before, after, rfl, hbefore⟩ := eq_append_cons_of_mem h
    refine ⟨after.splitOn comma, ?_⟩
    rw [splitOn_append_cons_self_of_not_mem hbefore, takeWhile_append_stop (by simp), hself hbefore]
  · exact ⟨[], by rw [splitOn_eq_singleton h, hself h]⟩

def anameKey : Bytes := plan9AnameDrvfs ++ semicolon :: plan9AnamePathOption

theorem takeWhile_anameKey (rest : Bytes) :
    (anameKey ++ rest).takeWhile (· ≠ comma) = anameKey ++ rest.takeWhile (· ≠ comma) := by
  have hall : anameKey.all (· ≠ comma) = true := by decide
  exact takeWhile_append_of_pos (all_eq_true.mp hall)

theorem afterFirst_anameKey (rest : Bytes) :
    afterFirst plan9AnamePathOption (anameKey ++ rest) = some rest := by
  rfl

theorem parse_aname (echo : Echo) (value rest : Bytes) :
    utilParsePlan9MountSource (echo.superOptions (anameKey ++ (value ++ semicolon :: rest))) =
      plan9Source (untilSeparator value) := by
  obtain ⟨others, hothers⟩ := splitOn_eq_cons
    (anameKey ++ (value ++ semicolon :: rest) ++ echo.after.flatMap (comma :: ·))
  rw [append_assoc, takeWhile_anameKey] at hothers
  have hbefore : echo.before.find? (startsWith · plan9AnameDrvfs false) = none := by
    rw [find?_eq_none]
    intro option hopt
    rw [echo.other option hopt]
    exact Bool.false_ne_true
  have hstarts (text : Bytes) : startsWith (anameKey ++ text) plan9AnameDrvfs false = true := by
    rw [anameKey, append_assoc]
    exact startsWith_append plan9AnameDrvfs _ false
  have hvalue : (((value ++ semicolon :: rest) ++ echo.after.flatMap (comma :: ·)).takeWhile (· ≠ comma)).takeWhile
      (· ≠ semicolon) = untilSeparator value := by
    rw [takeWhile_takeWhile, append_assoc, cons_append, takeWhile_append_stop (by simp)]
    simp [untilSeparator, and_comm]
  unfold utilParsePlan9MountSource Echo.superOptions
  rw [append_assoc]
  change (match ((_ : Bytes).splitOn comma).find? _ with | none => _ | some option => _) = _
  rw [splitOn_before echo.whole, hothers, find?_append, hbefore, Option.none_or, find?_cons, hstarts]
  simp only [afterFirst_anameKey]
  exact congrArg plan9Source hvalue

theorem mem_untilSeparator {text : Bytes} {b : UInt8} (h : b ∈ untilSeparator text) :
    b ∈ text ∧ b ≠ comma ∧ b ≠ semicolon := by
  have hp := mem_takeWhile_imp h
  rw [Bool.and_eq_true, decide_eq_true_eq, decide_eq_true_eq] at hp
  exact ⟨( takeWhile_prefix _).subset h, hp⟩

theorem convert_eq_cons (options drvFsPrefix : Bytes) :
    ∃ rest, (convertDrvfsMountOptionsToPlan9 options drvFsPrefix).1 = semicolon :: rest := by
  have hfold (tokens : List Bytes) (converted : Bytes × Bytes)
      (h : ∀ tail, ∃ rest, converted.1 ++ semicolon :: tail = semicolon :: rest) (tail : Bytes) :
      ∃ rest, (tokens.foldl convertOption converted).1 ++ semicolon :: tail = semicolon :: rest := by
    induction tokens generalizing converted with
    | nil => exact h tail
    | cons option tokens ih =>
      apply ih
      intro tail
      unfold convertOption
      split
      · obtain ⟨rest, hrest⟩ :=
          h ((if option = plan9CaseOptionForce then plan9CaseOptionDir else option) ++ semicolon :: tail)
        refine ⟨rest, ?_⟩
        rw [← hrest]
        simp
      · split
        · exact h tail
        · exact h tail
  simp only [convertDrvfsMountOptionsToPlan9, append_assoc, cons_append]
  exact hfold (optionTokens options) ([], []) (fun tail => ⟨tail, rfl⟩) (plan9SymlinkRootOption ++ drvFsPrefix)

/-- The value of the part `path` that is written. -/
def pathValue (source : Bytes) : Bytes := if isUnc source then plan9UncTranslated ++ source.drop 2 else source

theorem parse_mountPlan9 (echo : Echo) (source options drvFsPrefix : Bytes) :
    utilParsePlan9MountSource (echo.superOptions (mountPlan9 source options drvFsPrefix).aname) =
      plan9Source (untilSeparator (pathValue source)) := by
  obtain ⟨rest, hrest⟩ := convert_eq_cons options drvFsPrefix
  rw [← parse_aname echo (pathValue source) rest]
  unfold mountPlan9 anameKey pathValue
  simp only [hrest, append_assoc]

theorem mem_plan9Source {value : Bytes} {b : UInt8} (h : b ∈ plan9Source value) : b = pathSepNt ∨
    b ∈ value := by
  have hsrc {path : Bytes} (hmem : b ∈ canonicalise pathSepNt path) : b = pathSepNt ∨ b ∈ path := by
    rcases mem_canonicalise hmem with hsep | ⟨hpath, -⟩
    · exact .inl hsep
    · exact .inr hpath
  unfold plan9Source at h
  split at h
  · exact hsrc h
  split at h
  · rcases hsrc h with hsep | hpath
    · exact .inl hsep
    · rcases mem_append.mp hpath with hunc | hrest
      · have hall : ∀ c ∈ plan9Unc, c = pathSepNt := forall_mem_of_all (by decide)
        exact .inl (hall b hunc)
      · exact .inr (mem_of_mem_drop hrest)
  · exact absurd h not_mem_nil

theorem not_mem_plan9Source {value : Bytes} {b : UInt8} (h : b = comma ∨ b = semicolon) :
    b ∉ plan9Source (untilSeparator value) := by
  intro hmem
  rcases mem_plan9Source hmem with hsep | hvalue
  · rw [hsep] at h
    revert h
    decide
  · obtain ⟨_, hcomma, hsemicolon⟩ := mem_untilSeparator hvalue
    exact h.elim hcomma hsemicolon

theorem untilSeparator_eq_self {text : Bytes} (hcomma : comma ∉ text) (hsemicolon : semicolon ∉ text) :
    untilSeparator text = text := by
  rw [untilSeparator, takeWhile_eq_self_iff]
  intro b hb
  rw [Bool.and_eq_true, decide_eq_true_eq, decide_eq_true_eq]
  exact ⟨ne_of_mem_of_not_mem hb hcomma, ne_of_mem_of_not_mem hb hsemicolon⟩

theorem not_mem_pathValue {source : Bytes} {b : UInt8} (hb : b = comma ∨ b = semicolon) (h : b ∉ source) :
    b ∉ pathValue source := by
  unfold pathValue
  split
  · rw [mem_append, not_or]
    constructor
    · rcases hb with rfl | rfl
      · decide
      · decide
    · exact fun hmem => h (mem_of_mem_drop hmem)
  · exact h

theorem isUnc_eq_true {source : Bytes} (h : isUnc source = true) :
    ∃ one other rest, source = one :: other :: rest ∧ isSeparator one = true ∧ isSeparator other = true := by
  rw [isUnc, Bool.and_eq_true] at h
  match source, h with
  | [], h => exact absurd h.1 Bool.false_ne_true
  | [one], h => exact absurd h.2 Bool.false_ne_true
  | one :: other :: rest, h => exact ⟨one, other, rest, rfl, h.1, h.2⟩

theorem canonicalise_unc {one other : UInt8} (hone : isSeparator one = true) (hother : isSeparator other = true)
    (rest : Bytes) :
    canonicalise pathSepNt (one :: other :: rest) = rest.foldl (canonicaliseStep pathSepNt) plan9Unc := by
  have hfirst : canonicaliseStep pathSepNt [] one = [pathSepNt] := by
    rw [canonicaliseStep, if_pos hone]
    rfl
  have hsecond : canonicaliseStep pathSepNt [pathSepNt] other = plan9Unc := by
    rw [canonicaliseStep, if_pos hother]
    rfl
  rw [canonicalise, foldl_cons, foldl_cons, hfirst, hsecond]

theorem isUnc_drive {path : Bytes} (h : isAlpha (path.getD 0 0) = true) : isUnc path = false := by
  cases path with
  | nil => rfl
  | cons c rest =>
    obtain ⟨_, hsep, hsepNt⟩ := isAlpha_plain h
    rw [getD_cons_zero] at hsep hsepNt
    simp [isUnc, isSeparator, hsep, hsepNt]

theorem plan9Source_pathValue {path : Bytes}
    (h : (1 < path.length ∧ isAlpha (path.getD 0 0) = true ∧ path.getD 1 0 = 0x3a) ∨ isUnc path = true) :
    plan9Source (pathValue path) = canonicalise pathSepNt path := by
  rcases h with hdrive | hunc
  · rw [pathValue, isUnc_drive hdrive.2.1, if_neg Bool.false_ne_true, plan9Source, if_pos hdrive]
  · obtain ⟨one, other, rest, rfl, hone, hother⟩ := isUnc_eq_true hunc
    have hsecond : ¬ (plan9UncTranslated ++ rest).getD 1 0 = 0x3a := by
      change ¬ (0x4e : UInt8) = 0x3a
      decide
    have hvalue : pathValue (one :: other :: rest) = plan9UncTranslated ++ rest := by
      rw [pathValue, hunc, if_pos rfl]
      rfl
    rw [hvalue, plan9Source, if_neg fun hdrive => hsecond hdrive.2.2, startsWith_append, if_pos rfl,
      drop_left, canonicalise_unc hone hother]
    exact canonicalise_unc (by decide) (by decide) rest

/-- The source is found again if and only if it holds no separator of the options. -/
theorem plan9Source_recovered_iff (echo : Echo) (source : Source) (options drvFsPrefix : Bytes) :
    utilParsePlan9MountSource (echo.superOptions (mountPlan9 source.path options drvFsPrefix).aname) =
        canonicalise pathSepNt source.path ↔
      comma ∉ source.path ∧ semicolon ∉ source.path := by
  rw [parse_mountPlan9]
  constructor
  · intro heq
    have hnot {b : UInt8} (hb : b = comma ∨ b = semicolon) (hsep : isSeparator b = false) : b ∉ source.path := by
      intro hmem
      apply not_mem_plan9Source hb
      rw [heq]
      exact (mem_canonicalise_iff rfl hsep _).mpr hmem
    exact ⟨hnot (.inl rfl) (by decide), hnot (.inr rfl) (by decide)⟩
  · rintro ⟨hcomma, hsemicolon⟩
    rw [untilSeparator_eq_self (not_mem_pathValue (.inl rfl) hcomma) (not_mem_pathValue (.inr rfl) hsemicolon)]
    exact plan9Source_pathValue source.drive_or_share

def dataFolder : Source where
  path := utf8 ['C', ':', '\\', 'a', ';', 'b']
  drive_or_share := .inl (by decide)

theorem plan9Source_cut_off :
    utilParsePlan9MountSource ((⟨[utf8 ['r', 'w']], [], by decide, by decide⟩ : Echo).superOptions
          (mountPlan9 dataFolder.path [] (utf8 ['/', 'm', 'n', 't', '/'])).aname) =
      utf8 ['C', ':', '\\', 'a'] ∧
    utf8 ['C', ':', '\\', 'a'] ≠ canonicalise pathSepNt dataFolder.path := by
  decide

end WslPlus.Paths.Plan9Mount

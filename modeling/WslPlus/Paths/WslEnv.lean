import WslPlus.Paths.WslPath

/-!
# The block of WSLENV

The variables that WSLENV lists are put into a block of strings, each with its NUL, and the
block ends with one NUL more. A variable can be listed with flags, for the direction in which
it is passed on and for the translation of its value.
-/

namespace WslPlus.Paths

open List CString

/-- The strings of an environment block in front of the empty one. -/
structure Environment where
  strings : List Bytes
  nonempty : ∀ s ∈ strings, s ≠ []
  terminated : ∀ s ∈ strings, 0 ∉ s

def equalSign : UInt8 := 0x3d

/-- The environment of the process, or the one that Windows passes on. `getenv` finds no
name that is empty or has an equal sign. -/
def utilGetEnv (environment : Environment) (reverse : Bool) (name : Bytes) : Option Bytes :=
  if reverse = false ∧ (name = [] ∨ equalSign ∈ name) then none
  else
    (environment.strings.find? fun s => (name ++ [equalSign]).isPrefixOf s).map fun s => s.drop (name.length + 1)

/-- What `strtok_r` finds one after another. -/
def tokens (separator : UInt8) (text : Bytes) : List Bytes := (text.splitOn separator).filter (· ≠ [])

def isSpace (c : UInt8) : Bool := c == 0x20 || (0x09 ≤ c && c ≤ 0x0d)

def trimEnd (text : Bytes) : Bytes := (text.reverse.dropWhile isSpace).reverse

def appendPath (separator : UInt8) (list path : Bytes) : Bytes :=
  if list = [] then path else list ++ [separator] ++ path

def sourceSeparator (isNtPathList : Bool) : UInt8 := if isNtPathList then 0x3b else 0x3a

def targetSeparator (isNtPathList : Bool) : UInt8 := if isNtPathList then 0x3a else 0x3b

namespace Machine

variable (m : Machine)

def translateElement (isNtPathList : Bool) (path : Bytes) : Option Bytes :=
  if isNtPathList ∧ utilIsAbsoluteWindowsPath path = false then none
  else if m.wslPathTranslate path isNtPathList = [] then none
  else some (m.wslPathTranslate path isNtPathList)

def translatedElements (pathList : Bytes) (isNtPathList : Bool) : List Bytes :=
  (tokens (sourceSeparator isNtPathList) pathList).filterMap (m.translateElement isNtPathList)

def utilTranslatePathList (pathList : Bytes) (isNtPathList : Bool) : Option Bytes :=
  let translatedList := (m.translatedElements pathList isNtPathList).foldl (appendPath (targetSeparator isNtPathList)) []
  if translatedList = [] then none else some translatedList

end Machine

def entryName (entry : Bytes) : Bytes := entry.takeWhile (· ≠ pathSep)

def entryFlags (entry : Bytes) : Bytes := (entry.dropWhile (· ≠ pathSep)).drop 1

def flagPath : UInt8 := 0x70

def flagList : UInt8 := 0x6c

def flagUnix : UInt8 := 0x75

def flagWindows : UInt8 := 0x77

structure Flags where
  mode : UInt8
  skipTranslation : Bool

def flagStep (reverse : Bool) (s : Flags) (flag : UInt8) : Flags :=
  if flag = flagPath ∨ flag = flagList then
    if s.mode ≠ 0 ∧ s.mode ≠ flagPath ∧ s.mode ≠ flagList then { s with skipTranslation := true }
    else { s with mode := flag }
  else if flag = flagUnix then if reverse = false then { s with skipTranslation := true } else s
  else if flag = flagWindows then if reverse then { s with skipTranslation := true } else s
  else { s with skipTranslation := true }

def parseFlags (reverse : Bool) (flags : Bytes) : Flags := flags.foldl (flagStep reverse) ⟨0, false⟩

namespace Machine

variable (m : Machine)

def parseEntry (environment : Environment) (reverse : Bool) (entry : Bytes) : Option Bytes :=
  let flags := parseFlags reverse (entryFlags entry)
  if flags.skipTranslation then none
  else
    match utilGetEnv environment reverse (entryName entry) with
    | none => some (entryName entry ++ [equalSign])
    | some value =>
      if flags.mode = flagPath ∨ flags.mode = flagList then
        (m.utilTranslatePathList value reverse).map fun list => entryName entry ++ [equalSign] ++ list
      else some (entryName entry ++ [equalSign] ++ value)

def wslEnvName : Bytes := utf8 ['W', 'S', 'L', 'E', 'N', 'V']

def listedEntries (environment : Environment) (reverse : Bool) : List Bytes :=
  tokens 0x3a (trimEnd ((utilGetEnv environment reverse wslEnvName).getD []))

def wslEnvString (environment : Environment) (reverse : Bool) : Bytes :=
  wslEnvName ++ [equalSign] ++ (utilGetEnv environment reverse wslEnvName).getD []

def utilParseWslEnv (environment : Environment) (reverse : Bool) : Bytes :=
  wslEnvString environment reverse ++ [(0 : UInt8)] ++
    (listedEntries environment reverse).flatMap (fun entry =>
      match m.parseEntry environment reverse entry with
      | none => []
      | some string => string ++ [(0 : UInt8)]) ++
    [(0 : UInt8)]

def flagApplies (reverse : Bool) (flag : UInt8) : Bool :=
  flag == flagPath || flag == flagList || (flag == flagUnix && reverse) || (flag == flagWindows && !reverse)

def asksTranslation (entry : Bytes) : Bool :=
  (entryFlags entry).any fun flag => flag == flagPath || flag == flagList

def pathTranslation (pathList : Bytes) (isNtPathList : Bool) : Option Bytes :=
  if m.translatedElements pathList isNtPathList = [] then none
  else
    some (((m.translatedElements pathList isNtPathList).map cString).foldl
      (appendPath (targetSeparator isNtPathList)) [])

def expectedValue (environment : Environment) (reverse : Bool) (entry : Bytes) : Option Bytes :=
  match utilGetEnv environment reverse (entryName entry) with
  | none => some []
  | some value => if asksTranslation entry then m.pathTranslation value reverse else some value

def expectedString (environment : Environment) (reverse : Bool) (entry : Bytes) : Option Bytes :=
  if entryName entry ≠ [] ∧ (entryFlags entry).all (flagApplies reverse) = true then
    (m.expectedValue environment reverse entry).map fun value => entryName entry ++ [equalSign] ++ value
  else none

end Machine

theorem flagStep_spec (reverse : Bool) {s : Flags} (hmode : s.mode = 0 ∨ s.mode = flagPath ∨ s.mode = flagList)
    (flag : UInt8) :
    ((flagStep reverse s flag).mode = 0 ∨ (flagStep reverse s flag).mode = flagPath ∨
        (flagStep reverse s flag).mode = flagList) ∧
      (flagStep reverse s flag).skipTranslation = (s.skipTranslation || !Machine.flagApplies reverse flag) ∧
      (((flagStep reverse s flag).mode = flagPath ∨ (flagStep reverse s flag).mode = flagList) ↔
        (s.mode = flagPath ∨ s.mode = flagList) ∨ (flag == flagPath || flag == flagList) = true) := by
  by_cases hpath : flag = flagPath ∨ flag = flagList
  · -- a mode that is set is one of the two, so that they never exclude each other
    have hset : ¬ (s.mode ≠ 0 ∧ s.mode ≠ flagPath ∧ s.mode ≠ flagList) := by
      rintro ⟨hzero, hp, hl⟩
      exact hmode.elim hzero fun h => h.elim hp hl
    have hstep : flagStep reverse s flag = { s with mode := flag } := by
      rw [flagStep, if_pos hpath, if_neg hset]
    have hbool : (flag == flagPath || flag == flagList) = true := by
      simpa using hpath
    rw [hstep, Machine.flagApplies, hbool]
    refine ⟨.inr hpath, by simp, ?_⟩
    exact iff_of_true hpath (.inr rfl)
  · have hbool : (flag == flagPath || flag == flagList) = false := by
      simpa using hpath
    have hkeep : (flagStep reverse s flag).mode = s.mode := by
      rw [flagStep, if_neg hpath]
      split
      · split <;> rfl
      · split
        · split <;> rfl
        · rfl
    have hskip : (flagStep reverse s flag).skipTranslation = (s.skipTranslation || !Machine.flagApplies reverse flag) := by
      rw [flagStep, if_neg hpath, Machine.flagApplies, hbool]
      by_cases hunix : flag = flagUnix
      · subst hunix
        cases reverse <;> simp [flagUnix, flagWindows]
      · by_cases hwindows : flag = flagWindows
        · subst hwindows
          cases reverse <;> simp [flagUnix, flagWindows]
        · simp [hunix, hwindows]
    rw [hkeep, hbool]
    exact ⟨hmode, hskip, by simp⟩

/-- An entry is skipped exactly when one of its flags does not apply, and its value is translated
exactly when one of its flags asks for it. -/
theorem parseFlags_spec (reverse : Bool) (flags : Bytes) :
    (parseFlags reverse flags).skipTranslation = !flags.all (Machine.flagApplies reverse) ∧
      (((parseFlags reverse flags).mode = flagPath ∨ (parseFlags reverse flags).mode = flagList) ↔
        (flags.any fun flag => flag == flagPath || flag == flagList) = true) := by
  suffices h : ∀ s : Flags, (s.mode = 0 ∨ s.mode = flagPath ∨ s.mode = flagList) →
      (flags.foldl (flagStep reverse) s).skipTranslation =
          (s.skipTranslation || !flags.all (Machine.flagApplies reverse)) ∧
        (((flags.foldl (flagStep reverse) s).mode = flagPath ∨ (flags.foldl (flagStep reverse) s).mode = flagList) ↔
          (s.mode = flagPath ∨ s.mode = flagList) ∨
            (flags.any fun flag => flag == flagPath || flag == flagList) = true) by
    obtain ⟨hskip, hmode⟩ := h ⟨0, false⟩ (.inl rfl)
    refine ⟨hskip, hmode.trans (or_iff_right ?_)⟩
    decide
  induction flags with
  | nil =>
    intro s _
    simp
  | cons flag flags ih =>
    intro s hs
    obtain ⟨hmode, hskip, hasks⟩ := flagStep_spec reverse hs flag
    obtain ⟨hskip', hasks'⟩ := ih _ hmode
    rw [foldl_cons]
    constructor
    · rw [hskip', hskip, all_cons, Bool.not_and, Bool.or_assoc]
    · rw [hasks', hasks, any_cons]
      simp only [Bool.or_eq_true, or_assoc]

theorem zero_not_mem_utilGetEnv {environment : Environment} {reverse : Bool} {name value : Bytes}
    (h : utilGetEnv environment reverse name = some value) : 0 ∉ value := by
  unfold utilGetEnv at h
  split at h
  · exact absurd h.symm (Option.some_ne_none _)
  · rw [Option.map_eq_some_iff] at h
    obtain ⟨s, hfind, rfl⟩ := h
    have hclean := environment.terminated s (mem_of_find?_eq_some hfind)
    exact fun hzero => hclean (mem_of_mem_drop hzero)

theorem zero_not_mem_token {separator : UInt8} {text token : Bytes} (hzero : 0 ∉ text)
    (h : token ∈ tokens separator text) : 0 ∉ token := by
  have hmem := (mem_splitOn (mem_filter.mp h).1).2
  exact fun hz => hzero (hmem 0 hz)

theorem zero_not_mem_trimEnd {text : Bytes} (hzero : 0 ∉ text) : 0 ∉ trimEnd text := by
  intro h
  apply hzero
  rw [trimEnd, mem_reverse] at h
  exact mem_reverse.mp ((dropWhile_sublist _).mem h)

theorem zero_not_mem_entryName {entry : Bytes} (hzero : 0 ∉ entry) : 0 ∉ entryName entry :=
  fun h => hzero ((takeWhile_sublist _).mem h)

theorem foldl_appendPath_eq_nil_iff (separator : UInt8) {elements : List Bytes}
    (hne : ∀ element ∈ elements, element ≠ []) (list : Bytes) :
    elements.foldl (appendPath separator) list = [] ↔ elements = [] ∧ list = [] := by
  induction elements generalizing list with
  | nil => simp
  | cons element elements ih =>
    obtain ⟨hfirst, htail⟩ := forall_mem_cons.mp hne
    have happ : appendPath separator list element ≠ [] := by
      unfold appendPath
      split
      · exact hfirst
      · simp
    rw [foldl_cons, ih htail]
    simp [happ]

theorem zero_mem_foldl_appendPath {separator : UInt8} (hsep : separator ≠ 0) (elements : List Bytes)
    (list : Bytes) :
    0 ∈ elements.foldl (appendPath separator) list ↔ 0 ∈ list ∨ ∃ element ∈ elements, 0 ∈ element := by
  induction elements generalizing list with
  | nil => simp
  | cons element elements ih =>
    have hmem : 0 ∈ appendPath separator list element ↔ 0 ∈ list ∨ 0 ∈ element := by
      unfold appendPath
      split
      case isTrue hlist => simp [hlist]
      case isFalse => simp [hsep.symm]
    rw [foldl_cons, ih, hmem, exists_mem_cons_iff, or_assoc]

theorem targetSeparator_ne_zero (isNtPathList : Bool) : targetSeparator isNtPathList ≠ 0 := by
  cases isNtPathList <;> decide

namespace Machine

variable (m : Machine) {environment : Environment} {reverse : Bool}

def UnescapedList (pathList : Bytes) : Prop :=
  ∃ path ∈ tokens (sourceSeparator true) pathList, utilIsAbsoluteWindowsPath path = true ∧ m.UnescapedPath path

theorem translatedElements_ne_nil (pathList : Bytes) (isNtPathList : Bool) :
    ∀ element ∈ m.translatedElements pathList isNtPathList, element ≠ [] := by
  intro element helement
  obtain ⟨path, -, hpath⟩ := mem_filterMap.mp helement
  unfold translateElement at hpath
  split at hpath
  · exact absurd hpath.symm (Option.some_ne_none _)
  split at hpath
  · exact absurd hpath.symm (Option.some_ne_none _)
  case isFalse hne =>
    rw [← Option.some.inj hpath]
    exact hne

theorem zero_mem_translatedElements_iff {pathList : Bytes} (hzero : 0 ∉ pathList) (isNtPathList : Bool) :
    (∃ element ∈ m.translatedElements pathList isNtPathList, 0 ∈ element) ↔
      isNtPathList = true ∧ m.UnescapedList pathList := by
  cases isNtPathList with
  | false =>
    apply iff_of_false _ (by simp)
    rintro ⟨element, helement, hz⟩
    obtain ⟨path, hpath, htrans⟩ := mem_filterMap.mp helement
    have hclean := m.zero_not_mem_wslPathTranslate (zero_not_mem_token hzero hpath)
    unfold translateElement at htrans
    rw [if_neg (by simp)] at htrans
    split at htrans
    · exact absurd htrans.symm (Option.some_ne_none _)
    · rw [← Option.some.inj htrans] at hz
      exact hclean hz
  | true =>
    rw [and_iff_right rfl]
    constructor
    · rintro ⟨element, helement, hz⟩
      obtain ⟨path, hpath, htrans⟩ := mem_filterMap.mp helement
      unfold translateElement at htrans
      split at htrans
      · exact absurd htrans.symm (Option.some_ne_none _)
      case isFalse habsolute =>
        split at htrans
        · exact absurd htrans.symm (Option.some_ne_none _)
        · rw [← Option.some.inj htrans] at hz
          have habs : utilIsAbsoluteWindowsPath path = true := by simpa using habsolute
          exact ⟨path, hpath, habs, (m.zero_mem_wslPathTranslate_iff (zero_not_mem_token hzero hpath) habs).mp hz⟩
    · rintro ⟨path, hpath, habsolute, hunescaped⟩
      have hz := (m.zero_mem_wslPathTranslate_iff (zero_not_mem_token hzero hpath) habsolute).mpr hunescaped
      refine ⟨_, mem_filterMap.mpr ⟨path, hpath, ?_⟩, hz⟩
      rw [translateElement, if_neg (by simp [habsolute]), if_neg]
      intro hnil
      rw [hnil] at hz
      exact absurd hz not_mem_nil

theorem utilTranslatePathList_eq (pathList : Bytes) (isNtPathList : Bool) :
    m.utilTranslatePathList pathList isNtPathList =
      if m.translatedElements pathList isNtPathList = [] then none
      else
        some ((m.translatedElements pathList isNtPathList).foldl (appendPath (targetSeparator isNtPathList)) []) := by
  have hnil := foldl_appendPath_eq_nil_iff (targetSeparator isNtPathList)
    (m.translatedElements_ne_nil pathList isNtPathList) []
  rw [utilTranslatePathList]
  simp only [hnil, and_true]

def value (environment : Environment) (reverse : Bool) (entry : Bytes) : Option Bytes :=
  match utilGetEnv environment reverse (entryName entry) with
  | none => some []
  | some value => if asksTranslation entry then m.utilTranslatePathList value reverse else some value

theorem parseEntry_eq (entry : Bytes) :
    m.parseEntry environment reverse entry =
      if (entryFlags entry).all (flagApplies reverse) = true then
        (m.value environment reverse entry).map fun value => entryName entry ++ [equalSign] ++ value
      else none := by
  obtain ⟨hskip, hmode⟩ := parseFlags_spec reverse (entryFlags entry)
  rw [← asksTranslation] at hmode
  unfold parseEntry value
  simp only [hskip, hmode]
  cases hall : (entryFlags entry).all (flagApplies reverse) with
  | false => rfl
  | true =>
    simp only [Bool.not_true, Bool.false_eq_true, if_false, if_true]
    cases utilGetEnv environment reverse (entryName entry) with
    | none => simp
    | some value =>
      cases asksTranslation entry with
      | false => rfl
      | true => rfl

theorem utilTranslatePathList_spec {text : Bytes} (hzero : 0 ∉ text) :
    (m.utilTranslatePathList text reverse).isSome = (m.pathTranslation text reverse).isSome ∧
      (∀ list, m.pathTranslation text reverse = some list → 0 ∉ list) ∧
      ∀ list, m.utilTranslatePathList text reverse = some list →
        (0 ∈ list ↔ reverse = true ∧ m.UnescapedList text) ∧
        (0 ∉ list → m.pathTranslation text reverse = some list) := by
  have hsep := targetSeparator_ne_zero reverse
  rw [utilTranslatePathList_eq, pathTranslation]
  split
  · exact ⟨rfl, fun list h => absurd h.symm (Option.some_ne_none _), fun list h => absurd h.symm (Option.some_ne_none _)⟩
  · refine ⟨rfl, ?_, ?_⟩
    · intro list hlist
      rw [← Option.some.inj hlist, zero_mem_foldl_appendPath hsep]
      rintro (h | ⟨element, helement, h⟩)
      · exact absurd h not_mem_nil
      · obtain ⟨other, -, rfl⟩ := mem_map.mp helement
        exact zero_not_mem_cString other h
    · intro list hlist
      have hmem : 0 ∈ list ↔ ∃ element ∈ m.translatedElements text reverse, 0 ∈ element := by
        rw [← Option.some.inj hlist, zero_mem_foldl_appendPath hsep, or_iff_right not_mem_nil]
      refine ⟨hmem.trans (m.zero_mem_translatedElements_iff hzero reverse), ?_⟩
      intro hclean
      have hsame : (m.translatedElements text reverse).map cString = m.translatedElements text reverse := by
        have hid : ∀ element ∈ m.translatedElements text reverse, cString element = id element := by
          intro element helement
          exact cString_of_not_mem fun h => hclean (hmem.mpr ⟨element, helement, h⟩)
        rw [map_congr_left hid, map_id]
      rw [hsame, hlist]

def Garbled (environment : Environment) (reverse : Bool) (entry : Bytes) : Prop :=
  reverse = true ∧ asksTranslation entry = true ∧
    ∃ text, utilGetEnv environment reverse (entryName entry) = some text ∧ m.UnescapedList text

/-- Both values are there together, and the one that is returned has a NUL exactly when a listed
path has a character that is unescaped. -/
theorem value_spec (entry : Bytes) :
    (m.value environment reverse entry).isSome = (m.expectedValue environment reverse entry).isSome ∧
      (∀ value, m.expectedValue environment reverse entry = some value → 0 ∉ value) ∧
      ∀ value, m.value environment reverse entry = some value →
        (0 ∈ value ↔ m.Garbled environment reverse entry) ∧
        (0 ∉ value → m.expectedValue environment reverse entry = some value) := by
  unfold value expectedValue Garbled
  cases hget : utilGetEnv environment reverse (entryName entry) with
  | none =>
    refine ⟨rfl, ?_, ?_⟩
    · intro value hvalue
      rw [← Option.some.inj hvalue]
      exact not_mem_nil
    · intro value hvalue
      rw [← Option.some.inj hvalue]
      simp
  | some text =>
    have hzero := zero_not_mem_utilGetEnv hget
    cases hasks : asksTranslation entry with
    | false =>
      refine ⟨rfl, ?_, ?_⟩
      · rintro value hvalue
        rw [← Option.some.inj hvalue]
        exact hzero
      · intro value hvalue
        rw [← Option.some.inj hvalue]
        simp [hzero]
    | true =>
      simp only [if_true, true_and, Option.some.injEq, exists_eq_left']
      exact m.utilTranslatePathList_spec hzero

/-- An entry that gets a string has a name, and no path of it has a character that is
unescaped. -/
def Clean (environment : Environment) (reverse : Bool) : Prop :=
  ∀ entry ∈ listedEntries environment reverse, (entryFlags entry).all (flagApplies reverse) = true →
    (m.expectedValue environment reverse entry).isSome = true →
      entryName entry ≠ [] ∧ ¬ m.Garbled environment reverse entry

def strings (environment : Environment) (reverse : Bool) : List Bytes :=
  (listedEntries environment reverse).filterMap (m.parseEntry environment reverse)

def expectedStrings (environment : Environment) (reverse : Bool) : List Bytes :=
  (listedEntries environment reverse).filterMap (m.expectedString environment reverse)

theorem intercalate_block (first : Bytes) (strings : List Bytes) :
    [0].intercalate (first :: strings ++ [[], []]) = first ++ [0] ++ strings.flatMap (· ++ [0]) ++ [0] := by
  induction strings generalizing first with
  | nil => simp [List.intercalate]
  | cons string strings ih =>
    rw [cons_append, cons_append, intercalate_cons_cons, ← cons_append, ih, flatMap_cons]
    simp only [append_assoc]

theorem utilParseWslEnv_eq :
    m.utilParseWslEnv environment reverse =
      [0].intercalate (wslEnvString environment reverse :: m.strings environment reverse ++ [[], []]) := by
  rw [intercalate_block, utilParseWslEnv, strings]
  congr 2
  induction listedEntries environment reverse with
  | nil => rfl
  | cons entry entries ih =>
    rw [flatMap_cons, ih, filterMap_cons]
    cases m.parseEntry environment reverse entry with
    | none => rfl
    | some string => rfl

theorem count_intercalate (first : Bytes) (strings : List Bytes) :
    ([0].intercalate (first :: strings)).count 0 = first.count 0 +
    (strings.map fun s => s.count 0 + 1).sum := by
  induction strings generalizing first with
  | nil => simp [List.intercalate]
  | cons string strings ih =>
    rw [intercalate_cons_cons, count_append, count_append, ih, map_cons, sum_cons]
    simp only [count_singleton_self]
    omega

/-- The NULs of some strings with their ends are as many as the strings exactly when no string
holds one. -/
theorem sum_count_le_iff (strings : List Bytes) :
    strings.length ≤ (strings.map fun s => s.count 0 + 1).sum ∧
      ((strings.map fun s => s.count 0 + 1).sum ≤ strings.length ↔ ∀ s ∈ strings, 0 ∉ s) := by
  induction strings with
  | nil => simp
  | cons string strings ih =>
    obtain ⟨hle, hiff⟩ := ih
    rw [map_cons, sum_cons, length_cons, forall_mem_cons, ← hiff, ← count_eq_zero]
    omega

theorem length_filterMap_of_imp {f g : Bytes → Option Bytes}
    (h : ∀ e, (g e).isSome = true → (f e).isSome = true)
    (l : List Bytes) :
    (l.filterMap g).length ≤ (l.filterMap f).length ∧
      ((l.filterMap f).length ≤ (l.filterMap g).length → ∀ e ∈ l, (f e).isSome = true → (g e).isSome = true) := by
  induction l with
  | nil => simp
  | cons e l ih =>
    obtain ⟨hle, hall⟩ := ih
    have himp := h e
    rw [filterMap_cons, filterMap_cons]
    cases hf : f e with
    | none =>
      cases hg : g e with
      | none =>
        refine ⟨hle, fun hge => forall_mem_cons.mpr ⟨?_, hall hge⟩⟩
        rw [hf, hg]
        exact id
      | some b =>
        rw [hf, hg] at himp
        exact absurd (himp rfl) (by decide)
    | some a =>
      cases hg : g e with
      | none =>
        simp only [length_cons]
        exact ⟨by omega, fun hge => by omega⟩
      | some b =>
        simp only [length_cons]
        refine ⟨by omega, fun hge => forall_mem_cons.mpr ⟨?_, hall (by omega)⟩⟩
        rw [hg]
        exact fun _ => rfl

theorem zero_not_mem_listed {entry : Bytes} (h : entry ∈ listedEntries environment reverse) : 0 ∉ entry := by
  apply zero_not_mem_token (zero_not_mem_trimEnd _) h
  cases hget : utilGetEnv environment reverse wslEnvName with
  | none => exact not_mem_nil
  | some value => exact zero_not_mem_utilGetEnv hget

theorem zero_not_mem_wslEnvString : 0 ∉ wslEnvString environment reverse := by
  rw [wslEnvString, mem_append, not_or]
  refine ⟨by decide, ?_⟩
  cases hget : utilGetEnv environment reverse wslEnvName with
  | none => exact not_mem_nil
  | some value => exact zero_not_mem_utilGetEnv hget

theorem zero_not_mem_named {entry value : Bytes} (hentry : 0 ∉ entry) (hvalue : 0 ∉ value) :
    0 ∉ entryName entry ++ [equalSign] ++ value := by
  simp only [mem_append, not_or]
  exact ⟨⟨zero_not_mem_entryName hentry, by decide⟩, hvalue⟩

theorem zero_not_mem_expectedStrings : ∀ s ∈ m.expectedStrings environment reverse, 0 ∉ s := by
  intro s hs
  obtain ⟨entry, hentry, hstring⟩ := mem_filterMap.mp hs
  unfold expectedString at hstring
  split at hstring
  · rw [Option.map_eq_some_iff] at hstring
    obtain ⟨value, hvalue, rfl⟩ := hstring
    exact zero_not_mem_named (zero_not_mem_listed hentry) ((m.value_spec entry).2.1 value hvalue)
  · exact absurd hstring.symm (Option.some_ne_none _)

theorem isSome_parseEntry_iff (entry : Bytes) :
    (m.parseEntry environment reverse entry).isSome = true ↔
      (entryFlags entry).all (flagApplies reverse) = true ∧
        (m.expectedValue environment reverse entry).isSome = true := by
  rw [parseEntry_eq, ← (m.value_spec entry).1]
  split
  case isTrue hall => simp [hall]
  case isFalse hall => simp [hall]

theorem isSome_expectedString_iff (entry : Bytes) :
    (m.expectedString environment reverse entry).isSome = true ↔
      entryName entry ≠ [] ∧ (m.parseEntry environment reverse entry).isSome = true := by
  rw [isSome_parseEntry_iff, expectedString]
  split
  case isTrue h => simp [h.1, h.2]
  case isFalse h =>
    rw [not_and] at h
    apply iff_of_false (by simp)
    rintro ⟨hname, hall, -⟩
    exact h hname hall

theorem parseEntry_of_clean {entry : Bytes} (h : (entryFlags entry).all (flagApplies reverse) = true →
      (m.expectedValue environment reverse entry).isSome = true →
        entryName entry ≠ [] ∧ ¬ m.Garbled environment reverse entry) :
    m.parseEntry environment reverse entry = m.expectedString environment reverse entry := by
  obtain ⟨hboth, -, hvalue⟩ := @value_spec m environment reverse entry
  rw [parseEntry_eq, expectedString]
  by_cases hall : (entryFlags entry).all (flagApplies reverse) = true
  · rw [if_pos hall]
    cases hreturned : m.value environment reverse entry with
    | none =>
      rw [hreturned] at hboth
      rw [Option.isSome_eq_false_iff.mp hboth.symm |> Option.isNone_iff_eq_none.mp]
      simp
    | some value =>
      rw [hreturned, Option.isSome_some] at hboth
      obtain ⟨hname, hnot⟩ := h hall hboth.symm
      obtain ⟨hgarbled, hexpected⟩ := hvalue value hreturned
      rw [if_pos ⟨hname, hall⟩, hexpected fun hz => hnot (hgarbled.mp hz)]
  · rw [if_neg hall, if_neg fun hand => hall hand.2]

/-- The block splits at its NULs into the string of WSLENV, the strings of the listed entries and
the empty string at its end exactly when every entry that gets a string has a name and no
listed path has a character that is unescaped. -/
theorem block_splits_iff (environment : Environment) (reverse : Bool) :
    (m.utilParseWslEnv environment reverse).splitOn 0 =
        wslEnvString environment reverse :: m.expectedStrings environment reverse ++ [[], []] ↔
      m.Clean environment reverse := by
  rw [utilParseWslEnv_eq]
  constructor
  · intro hsplit
    have hblock := congrArg (List.count 0 ∘ List.intercalate [0]) hsplit
    simp only [Function.comp_apply, intercalate_splitOn] at hblock
    simp only [cons_append, count_intercalate, map_append, sum_append] at hblock
    obtain ⟨hle, hnul⟩ := sum_count_le_iff (m.strings environment reverse)
    have hexpected := (sum_count_le_iff (m.expectedStrings environment reverse)).2.mpr m.zero_not_mem_expectedStrings
    obtain ⟨hfew, hall⟩ := length_filterMap_of_imp
      (fun entry h => ((@isSome_expectedString_iff m environment reverse entry).mp h).2)
      (listedEntries environment reverse)
    rw [← strings, ← expectedStrings] at hfew hall
    intro entry hentry hflags hvalue
    have hsome := (m.isSome_parseEntry_iff entry).mpr ⟨hflags, hvalue⟩
    constructor
    · exact ((m.isSome_expectedString_iff entry).mp (hall (by omega) entry hentry hsome)).1
    · intro hgarbled
      obtain ⟨string, hstring⟩ := Option.isSome_iff_exists.mp hsome
      have hclean := hnul.mp (by omega) string (mem_filterMap.mpr ⟨entry, hentry, hstring⟩)
      rw [parseEntry_eq, if_pos hflags, Option.map_eq_some_iff] at hstring
      obtain ⟨value, hvalue', rfl⟩ := hstring
      apply hclean
      exact mem_append_right _ ((((m.value_spec entry).2.2 value hvalue').1).mpr hgarbled)
  · intro hclean
    have hsame : m.strings environment reverse = m.expectedStrings environment reverse := by
      apply filterMap_congr
      intro entry hentry
      exact m.parseEntry_of_clean (hclean entry hentry)
    rw [hsame]
    apply splitOn_intercalate
    · intro s hs
      simp only [cons_append, mem_cons, mem_append, not_mem_nil, or_false] at hs
      rcases hs with rfl | hs | rfl | rfl
      · exact zero_not_mem_wslEnvString
      · exact m.zero_not_mem_expectedStrings s hs
      · exact not_mem_nil
      · exact not_mem_nil
    · simp

end Machine

def ubuntuMachine : Machine :=
  ⟨oneTag, [rootMount], ubuntu, some [pathSep], by decide, by decide⟩

/-- `P` holds the path of the file `/a:b` in the share, and is listed as a path. -/
def colonEnvironment : Environment where
  strings := [utf8 ['W', 'S', 'L', 'E', 'N', 'V', '=', 'P', '/', 'p'],
    utf8 ['P', '='] ++ plan9Rdr ++ ubuntu ++ utf8 ['\\', 'a', Char.ofNat 0xf03a, 'b']]
  nonempty := by decide
  terminated := by decide

/-- The string of `P` is cut off at a NUL, and a string follows that nothing lists. -/
theorem block_with_stray_string :
    ubuntuMachine.expectedStrings colonEnvironment true = [utf8 ['P', '=', '/', 'a', ':', 'b']] ∧
      (ubuntuMachine.utilParseWslEnv colonEnvironment true).splitOn 0 ≠
        Machine.wslEnvString colonEnvironment true ::
    ubuntuMachine.expectedStrings colonEnvironment true ++ [[], []] ∧
      (ubuntuMachine.utilParseWslEnv colonEnvironment true).splitOn 0 =
        [utf8 ['W', 'S', 'L', 'E', 'N', 'V', '=', 'P', '/', 'p'], utf8 ['P', '=', '/', 'a', ':', 'b'], utf8 ['b'], [],
          []] := by
  decide

end WslPlus.Paths

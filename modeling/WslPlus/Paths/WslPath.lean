import WslPlus.Paths.InPlace
import WslPlus.Paths.Translate

/-!
# Paths as they are given

A path from a list is made absolute and its `.` and `..` are taken out before it is
translated, and a relative path that stays below the current directory is made relative
again. Only one kind of path comes out with a NUL in it: a Windows path of the share of the
distribution in which a character is unescaped.
-/

namespace WslPlus.Paths

open List Option CString

/-- What a translation depends on besides the path. -/
structure Machine where
  system : System
  entries : List MountEntry
  distributionName : Bytes
  cwd : Option Bytes
  named : 0 ∉ distributionName
  located : ∀ dir ∈ cwd, 0 ∉ dir

def dot : Bytes := [0x2e]

def dotDot : Bytes := [0x2e, 0x2e]

/-- The loop of `CollapsePath` from the last segment on: how many segments are still to be
removed, and the segments behind `LastSegment`. -/
structure Collapse where
  removeSegmentCount : Nat
  kept : List Bytes

def collapseStep (s : Collapse) (segment : Bytes) : Collapse :=
  if segment = dotDot then { s with removeSegmentCount := s.removeSegmentCount + 1 }
  else if s.removeSegmentCount = 0 ∧ segment ≠ [] ∧ segment ≠ dot then { s with kept := segment :: s.kept }
  -- the path ends behind a separator when its last segment is removed
  else ⟨s.removeSegmentCount - 1, if s.kept = [] then [[]] else s.kept⟩

def collapsePath (separator : UInt8) (path : Bytes) : Option Bytes :=
  match path.splitOn separator with
  | [] => some path
  | first :: segments =>
    let s := segments.reverse.foldl collapseStep ⟨0, []⟩
    if s.removeSegmentCount = 0 then some (first ++ joined separator s.kept) else none

def absolutePath (cwd path : Bytes) : Option (Bytes × Bool) :=
  if path.head? = some pathSep then (collapsePath pathSep path).map (·, false)
  else (collapsePath pathSep (cwd ++ [pathSep] ++ path)).map (·, true)

def absoluteWindowsPath (relativePath cwd : Bytes) : Option Bytes :=
  if relativePath.head? = some pathSepNt then
    if isAlpha (cwd.getD 0 0) = false ∨ cwd.getD 1 0 ≠ 0x3a then none
    else some ([cwd.getD 0 0, 0x3a] ++ relativePath)
  else some (cwd ++ [pathSepNt] ++ relativePath)

def utilIsAbsoluteWindowsPath (path : Bytes) : Bool :=
  if path.length < 3 then false
  else (isSeparator (path.getD 0 0) && isSeparator (path.getD 1 0)) || (isAlpha (path.getD 0 0) && path.getD 1 0 == 0x3a)

def collapseWindowsPath (path : Bytes) : Option Bytes :=
  if path.length < 2 then none
  else if path.getD 1 0 = 0x3a ∧ path.getD 2 0 = pathSepNt then collapsePath pathSepNt path
  else if path.getD 0 0 = pathSepNt ∧ path.getD 1 0 = pathSepNt then
    if path.getD 2 0 = 0x3f ∧ path.getD 3 0 = pathSepNt then collapsePath pathSepNt (path.drop 4)
    else (collapsePath pathSepNt (path.drop 2)).map (path.take 2 ++ ·)
  else none

namespace Machine

variable (m : Machine)

def translate (path : Bytes) (reverse : Bool) : Bytes :=
  utilWinPathTranslate m.system m.entries m.distributionName path reverse

def dosToCanonicalPath (unixCwd path : Bytes) : Option (Bytes × Bool) :=
  if utilIsAbsoluteWindowsPath path then (collapseWindowsPath path).map (·, false)
  else if m.translate unixCwd false = [] then none
  else
    ((absoluteWindowsPath path (cString (m.translate unixCwd false))).bind collapseWindowsPath).map (·, true)

def relativise (outputCwd translatedPath : Bytes) : Bytes :=
  if outputCwd.isPrefixOf (cString translatedPath) then
    if isSeparator (translatedPath.getD outputCwd.length 0) then
      if outputCwd.length + 1 = translatedPath.length then dot else translatedPath.drop (outputCwd.length + 1)
    else if translatedPath.getD outputCwd.length 0 = 0 then translatedPath.drop outputCwd.length
    else translatedPath
  else translatedPath

def wslPathTranslate (path : Bytes) (isNtPath : Bool) : Bytes :=
  match m.cwd with
  | none => []
  | some unixCwd =>
    if isNtPath then
      match m.dosToCanonicalPath unixCwd (canonicalise pathSepNt path) with
      | none => []
      | some (canonicalPath, relative) =>
        if canonicalPath = [] then []
        else if relative then relativise unixCwd (m.translate canonicalPath true)
        else m.translate canonicalPath true
    else
      match absolutePath unixCwd path with
      | none => []
      | some (canonicalPath, relative) =>
        if canonicalPath = [] then []
        else if relative ∧ m.translate unixCwd false ≠ [] then
          relativise (cString (m.translate unixCwd false)) (m.translate canonicalPath false)
        else m.translate canonicalPath false

end Machine

variable {separator : UInt8}

theorem single_joined {segments : List Bytes} (hsep : ∀ segment ∈ segments, separator ∉ segment)
    (hne : ∀ segment ∈ segments.dropLast, segment ≠ []) : Single separator (joined separator segments) := by
  induction segments with
  | nil => exact isChain_nil
  | cons segment segments ih =>
    obtain ⟨hfirst, htail⟩ := forall_mem_cons.mp hsep
    have hseg : Single separator (separator :: segment) := by
      apply isChain_cons.mpr
      refine ⟨?_, single_of_not_mem hfirst⟩
      rintro b hb ⟨-, rfl⟩
      exact hfirst (mem_of_mem_head? hb)
    cases segments with
    | nil =>
      rw [joined_cons, joined_nil, append_nil]
      exact hseg
    | cons next segments =>
      rw [dropLast_cons_of_ne_nil (cons_ne_nil _ _), forall_mem_cons] at hne
      rw [joined_cons]
      apply hseg.append (ih htail hne.2)
      intro hlast
      obtain ⟨b, segment, rfl⟩ := exists_cons_of_ne_nil hne.1
      rw [getLast?_cons_cons] at hlast
      exact absurd (mem_of_getLast? hlast) hfirst

theorem mem_splitOn {path segment : Bytes} (h : segment ∈ path.splitOn separator) :
    separator ∉ segment ∧ ∀ b ∈ segment, b ∈ path := by
  induction path generalizing segment with
  | nil =>
    rw [splitOn_nil, mem_singleton] at h
    subst h
    simp
  | cons b path ih =>
    have htail : ∀ other ∈ path.splitOn separator, separator ∉ other ∧ ∀ c ∈ other, c ∈ b :: path := by
      intro other hother
      obtain ⟨hsep, hmem⟩ := ih hother
      exact ⟨hsep, fun c hc => mem_cons_of_mem _ (hmem c hc)⟩
    rw [splitOn_cons_eq_if_modifyHead] at h
    split at h
    · rcases mem_cons.mp h with rfl | h
      · simp
      · exact htail segment h
    case isFalse hb =>
      obtain ⟨first, rest, hsplit⟩ := exists_cons_of_ne_nil (splitOn_ne_nil separator path)
      rw [hsplit, forall_mem_cons] at htail
      rw [hsplit, modifyHead_cons] at h
      rcases mem_cons.mp h with rfl | h
      · constructor
        · rw [mem_cons, not_or]
          refine ⟨?_, htail.1.1⟩
          rintro rfl
          exact hb (beq_self_eq_true _)
        · exact forall_mem_cons.mpr ⟨mem_cons_self, htail.1.2⟩
      · exact htail.2 segment h

/-- The segments that are kept hold no separator and only bytes of the path, and only the last
one can be empty. -/
structure Collapse.Tidy (separator : UInt8) (path : Bytes) (s : Collapse) : Prop where
  noSeparator : ∀ segment ∈ s.kept, separator ∉ segment
  nonempty : ∀ segment ∈ s.kept.dropLast, segment ≠ []
  within : ∀ segment ∈ s.kept, ∀ b ∈ segment, b ∈ path

variable {path : Bytes}

theorem Collapse.Tidy.step {s : Collapse} (h : s.Tidy separator path)
    {segment : Bytes} (hseg : segment ∈ path.splitOn separator) :
    (collapseStep s segment).Tidy separator path := by
  obtain ⟨hsep, hmem⟩ := mem_splitOn hseg
  unfold collapseStep
  split
  · exact ⟨h.noSeparator, h.nonempty, h.within⟩
  split
  case isTrue hkeep =>
    refine ⟨forall_mem_cons.mpr ⟨hsep, h.noSeparator⟩, ?_, forall_mem_cons.mpr ⟨hmem, h.within⟩⟩
    by_cases hkept : s.kept = []
    · rw [hkept]
      intro other hother
      exact absurd hother not_mem_nil
    · rw [dropLast_cons_of_ne_nil hkept]
      exact forall_mem_cons.mpr ⟨hkeep.2.1, h.nonempty⟩
  case isFalse =>
    by_cases hkept : s.kept = []
    · simp only [hkept, if_true]
      exact ⟨by simp, by simp, by simp⟩
    · simp only [hkept, if_false]
      exact ⟨h.noSeparator, h.nonempty, h.within⟩

theorem tidy_collapse {segments : List Bytes}
    (hsegments : ∀ segment ∈ segments, segment ∈ path.splitOn separator) {s : Collapse}
    (hs : s.Tidy separator path) :
    (segments.foldl collapseStep s).Tidy separator path := by
  induction segments generalizing s with
  | nil => exact hs
  | cons segment segments ih =>
    obtain ⟨hfirst, htail⟩ := forall_mem_cons.mp hsegments
    exact ih htail (hs.step hfirst)

/-- A collapsed path has no doubled separators and only bytes of the path, and it starts with the
first segment of the path. -/
theorem collapsePath_single {path result : Bytes} (h : collapsePath separator path = some result) :
    Single separator result ∧ (∀ b ∈ result, b = separator ∨ b ∈ path) ∧
      (path.head? ≠ some separator → result.head? ≠ some separator) := by
  unfold collapsePath at h
  obtain ⟨first, segments, hsplit⟩ := exists_cons_of_ne_nil (splitOn_ne_nil separator path)
  have hfirst : first ∈ path.splitOn separator := by
    rw [hsplit]
    exact mem_cons_self
  have htidy : (segments.reverse.foldl collapseStep ⟨0, []⟩).Tidy separator path := by
    apply tidy_collapse
    · intro segment hs
      rw [hsplit]
      exact mem_cons_of_mem _ (mem_reverse.mp hs)
    · exact ⟨by simp, by simp, by simp⟩
  obtain ⟨hnot, hmem⟩ := mem_splitOn hfirst
  rw [hsplit] at h
  simp only at h
  split at h
  case isFalse => exact absurd h (by simp)
  case isTrue =>
    rw [Option.some.injEq] at h
    subst h
    refine ⟨?_, ?_, ?_⟩
    · apply (single_of_not_mem hnot).append (single_joined htidy.noSeparator htidy.nonempty)
      intro hlast
      exact absurd (mem_of_getLast? hlast) hnot
    · intro b hb
      rcases mem_append.mp hb with hb | hb
      · exact .inr (hmem b hb)
      · obtain ⟨segment, hseg, hb⟩ := mem_flatMap.mp hb
        rcases mem_cons.mp hb with hb | hb
        · exact .inl hb
        · exact .inr (htidy.within segment hseg b hb)
    · intro hhead
      cases path with
      | nil =>
        rw [splitOn_nil, List.cons.injEq] at hsplit
        rw [← hsplit.1, ← hsplit.2]
        exact hhead
      | cons b path =>
        have hb : b ≠ separator := fun heq => hhead (congrArg some heq)
        obtain ⟨next, rest, htail⟩ := exists_cons_of_ne_nil (splitOn_ne_nil separator path)
        rw [splitOn_cons_eq_if_modifyHead, if_neg (by simpa using hb), htail, modifyHead_cons,
          List.cons.injEq] at hsplit
        rw [← hsplit.1]
        exact hhead

def behindShare (distributionName path : Bytes) : Option Bytes :=
  if distributionName = [] then none
  else if matchesShare path (plan9Rdr ++ distributionName) then
    some (path.drop (plan9Rdr ++ distributionName).length)
  else if matchesShare path (plan9RdrCompat ++ distributionName) then
    some (path.drop (plan9RdrCompat ++ distributionName).length)
  else none

theorem behindShare_drop {distributionName path rest : Bytes}
    (h : behindShare distributionName path = some rest) :
    ∃ n, 0 < n ∧ rest = path.drop n := by
  unfold behindShare at h
  split at h
  · exact absurd h.symm (some_ne_none _)
  split at h
  · refine ⟨_, ?_, (Option.some.inj h).symm⟩
    rw [length_append]
    exact Nat.add_pos_left (by decide) _
  split at h
  · refine ⟨_, ?_, (Option.some.inj h).symm⟩
    rw [length_append]
    exact Nat.add_pos_left (by decide) _
  · exact absurd h.symm (some_ne_none _)

theorem translateInternal_reverse (distributionName path : Bytes) :
    utilWinPathTranslateInternal distributionName path true =
    ((behindShare distributionName path).map fromShare).getD [] := by
  unfold utilWinPathTranslateInternal behindShare
  split
  · rfl
  · rw [if_neg (by decide)]
    split
    · rfl
    · split <;> rfl

theorem separator_kinds (b : UInt8) (h : isSeparator b = true) : b = pathSepNt ∨ b = pathSep := by
  rw [isSeparator, Bool.or_eq_true, beq_iff_eq, beq_iff_eq] at h
  exact h.symm

theorem zero_mem_fromShare_iff {rest : Bytes} (hsingle : Single pathSepNt rest) (hsep : pathSep ∉ rest)
    (hzero : 0 ∉ rest) : 0 ∈ fromShare rest ↔ HasEscape (canonicalise pathSep rest) := by
  obtain ⟨hlen, hclean, hbuf⟩ :=
    canonicalise_kept pathSep rfl (by decide) separator_kinds hsingle hsep hzero
  unfold fromShare
  split
  case isTrue hnil =>
    have hrest := eq_nil_of_length_eq_zero hnil
    subst hrest
    apply iff_of_false
    · decide
    · simp [HasEscape, canonicalise]
  case isFalse =>
    rw [editData, hbuf, ← hlen, unescapePathInplace]
    exact zero_mem_unescape_iff _ hclean (by rw [length_append]; omega) []

theorem replaceStart_cases (replacement suffix : Bytes) :
    (suffix = [] ∧ replaceStart replacement suffix false = replacement ++ [pathSepNt]) ∨
      replaceStart replacement suffix false = replacement ++ escapePathForNt suffix ∨
      ((∀ b ∈ suffix, escapeCharNeedsEscape b = false) ∧
        replaceStart replacement suffix false =
          replacement ++ editData (utilCanonicalisePathSeparator pathSepNt) suffix) := by
  have hlen : ¬ (suffix.length = 0 ∧ translatedSuffixLength replacement suffix false = 1) →
      translatedSuffixLength replacement suffix false = escapePathForNtLength suffix := by
    intro h
    unfold translatedSuffixLength at h ⊢
    rw [if_pos rfl] at h ⊢
    split
    case isTrue hdrive => exact absurd ⟨hdrive.1, if_pos hdrive⟩ h
    case isFalse => rfl
  unfold replaceStart
  split
  · split
    case isTrue hdrive => exact .inl ⟨eq_nil_of_length_eq_zero hdrive.1, rfl⟩
    case isFalse hother =>
      right
      left
      rw [hlen hother, ← length_escapePathForNt, overwrite_replicate]
  case isFalse hsame =>
    rw [not_not] at hsame
    refine .inr (.inr ⟨(escapeLength_eq_iff suffix).mp ?_, rfl⟩)
    rw [← hlen (by omega)]
    exact hsame

theorem zero_not_mem_replaceStart {replacement suffix : Bytes} (hrepl : 0 ∉ replacement)
    (hsingle : Single pathSep suffix) (hzero : 0 ∉ suffix) : 0 ∉ replaceStart replacement suffix false := by
  rcases replaceStart_cases replacement suffix with ⟨-, heq⟩ | heq | ⟨hlegal, heq⟩
  · rw [heq, mem_append, not_or]
    exact ⟨hrepl, by decide⟩
  · rw [heq, mem_append, not_or]
    exact ⟨hrepl, zero_not_mem_escape hzero⟩
  · have hnone : pathSepNt ∉ suffix := fun hmem => absurd (hlegal _ hmem) (by decide)
    obtain ⟨hkept, hclean, hbuf⟩ := canonicalise_kept pathSepNt rfl (by decide)
      (fun b h => (separator_kinds b h).symm) hsingle hnone hzero
    rw [heq, editData_of_eq hbuf hkept, mem_append, not_or]
    exact ⟨hrepl, hclean⟩

namespace Machine

variable (m : Machine)

theorem zero_not_mem_replacement (path : Bytes) (reverse : Bool) :
    0 ∉ (utilFindMount m.system m.entries path reverse).replacement := by
  cases reverse with
  | false =>
    rw [findMount_linux]
    cases hfind : (lastCovering m.entries path).bind (windowsSource m.system) with
    | none => exact not_mem_nil
    | some source =>
      rw [bind_eq_some_iff] at hfind
      obtain ⟨entry, -, hsrc⟩ := hfind
      exact zero_not_mem_source hsrc
  | true =>
    have hscan := @scanned_findMount m.system path m.entries
    generalize utilFindMount m.system m.entries path true = found at hscan ⊢
    cases hscan with
    | nothing _ => exact not_mem_nil
    | hidden _ _ _ _ => exact not_mem_nil
    | @visible before after entry source hsplit hmatch _ _ => exact entry.terminated

variable {path : Bytes}

theorem zero_not_mem_translate (hsingle : Single pathSep path) (hzero : 0 ∉ path) :
    0 ∉ m.translate path false := by
  unfold translate utilWinPathTranslate
  simp only
  split
  · rw [utilWinPathTranslateInternal]
    split
    · exact not_mem_nil
    · rw [if_pos rfl, ← length_escapePathForNt, overwrite_replicate]
      simp only [mem_append, not_or]
      exact ⟨⟨by decide, m.named⟩, zero_not_mem_escape hzero⟩
  · apply zero_not_mem_replaceStart (m.zero_not_mem_replacement path false) (hsingle.drop _)
    exact fun h => hzero (mem_of_mem_drop h)

theorem translate_mount (hsingle : Single pathSepNt (path.drop 1)) (hsep : pathSep ∉ path)
    (hzero : 0 ∉ path) (hfound : (utilFindMount m.system m.entries path true).replacement ≠ []) :
    m.translate path true = (utilFindMount m.system m.entries path true).replacement ++
        canonicalise pathSep (path.drop (utilFindMount m.system m.entries path true).length) := by
  unfold translate utilWinPathTranslate
  simp only
  rw [if_neg hfound]
  have hscan := @scanned_findMount m.system path m.entries
  generalize utilFindMount m.system m.entries path true = found at hscan hfound ⊢
  cases hscan with
  | nothing _ => exact absurd rfl hfound
  | hidden _ _ _ _ => exact absurd rfl hfound
  | @visible before after entry source hsplit hmatch _ _ =>
    have hpos := length_pos_iff.mpr hmatch.nonempty
    obtain ⟨hkept, -, hbuf⟩ := canonicalise_kept pathSep rfl (by decide) separator_kinds (hsingle.drop_of_pos hpos)
      (fun h => hsep (mem_of_mem_drop h)) (fun h => hzero (mem_of_mem_drop h))
    have hlen : translatedSuffixLength entry.mountPoint (path.drop source.length) true =
        (path.drop source.length).length := rfl
    rw [replaceStart, if_neg (not_not.mpr hlen), if_pos rfl, editData_of_eq hbuf hkept]

theorem translate_share (hfound : (utilFindMount m.system m.entries path true).replacement = []) :
    m.translate path true = ((behindShare m.distributionName path).map fromShare).getD [] := by
  unfold translate utilWinPathTranslate
  simp only
  rw [if_pos hfound, translateInternal_reverse]

def UnescapedInShare (path : Bytes) : Prop :=
  (utilFindMount m.system m.entries path true).replacement = [] ∧
    ∃ rest, behindShare m.distributionName path = some rest ∧ HasEscape (canonicalise pathSep rest)

theorem zero_mem_translate_iff (hsingle : Single pathSepNt (path.drop 1)) (hsep : pathSep ∉ path)
    (hzero : 0 ∉ path) : 0 ∈ m.translate path true ↔ m.UnescapedInShare path := by
  unfold UnescapedInShare
  by_cases hfound : (utilFindMount m.system m.entries path true).replacement = []
  · rw [m.translate_share hfound, and_iff_right hfound]
    cases hshare : behindShare m.distributionName path with
    | none => simp
    | some rest =>
      obtain ⟨n, hn, rfl⟩ := behindShare_drop hshare
      rw [map_some, getD_some, zero_mem_fromShare_iff (hsingle.drop_of_pos hn)
        (fun h => hsep (mem_of_mem_drop h)) (fun h => hzero (mem_of_mem_drop h))]
      simp
  · apply iff_of_false _ (fun h => hfound h.1)
    rw [m.translate_mount hsingle hsep hzero hfound, mem_append, not_or]
    refine ⟨m.zero_not_mem_replacement path true, zero_not_mem_canonicalise (by decide) ?_⟩
    exact fun h => hzero (mem_of_mem_drop h)

end Machine

theorem absolutePath_tidy {unixCwd path canonicalPath : Bytes} {relative : Bool} (hunix : 0 ∉ unixCwd)
    (hzero : 0 ∉ path) (h : absolutePath unixCwd path = some (canonicalPath, relative)) :
    Single pathSep canonicalPath ∧ 0 ∉ canonicalPath := by
  have hcollapsed {whole : Bytes} (hwhole : 0 ∉ whole) (hcoll : collapsePath pathSep whole = some canonicalPath) :
      Single pathSep canonicalPath ∧ 0 ∉ canonicalPath := by
    obtain ⟨hsingle, hbytes, -⟩ := collapsePath_single hcoll
    exact ⟨hsingle, fun h => (hbytes 0 h).elim (by decide) hwhole⟩
  unfold absolutePath at h
  split at h
  · rw [map_eq_some_iff] at h
    obtain ⟨collapsed, hcoll, heq⟩ := h
    obtain ⟨rfl, -⟩ := Prod.mk.inj heq
    exact hcollapsed hzero hcoll
  · rw [map_eq_some_iff] at h
    obtain ⟨collapsed, hcoll, heq⟩ := h
    obtain ⟨rfl, -⟩ := Prod.mk.inj heq
    apply hcollapsed _ hcoll
    simp only [mem_append, not_or]
    exact ⟨⟨hunix, by decide⟩, hzero⟩

theorem absolute_canonicalise (h : utilIsAbsoluteWindowsPath path = true) :
    (canonicalise pathSepNt path).head? = some pathSepNt ∨
      utilIsAbsoluteWindowsPath (canonicalise pathSepNt path) = true := by
  rcases path with _ | ⟨a, _ | ⟨b, _ | ⟨c, path⟩⟩⟩
  · exact absurd h (by decide)
  · exact absurd h (by simp [utilIsAbsoluteWindowsPath])
  · exact absurd h (by simp [utilIsAbsoluteWindowsPath])
  by_cases ha : isSeparator a = true
  · left
    have hfirst : canonicaliseStep pathSepNt [] a = [pathSepNt] := by
      rw [canonicaliseStep, if_pos ha, if_neg (by simp)]
      rfl
    obtain ⟨rest, hrest⟩ := foldl_extends pathSepNt (b :: c :: path) [pathSepNt]
    rw [canonicalise, foldl_cons, hfirst, ← hrest]
    rfl
  · right
    have hdrive : isAlpha a = true ∧ b = 0x3a := by
      simp only [utilIsAbsoluteWindowsPath, length_cons, getD_cons_zero, getD_cons_succ] at h
      rw [if_neg (by omega), Bool.eq_false_iff.mpr ha] at h
      simpa using h
    obtain ⟨halpha, rfl⟩ := hdrive
    -- the third character is kept, since the second is no separator
    obtain ⟨d, hthree⟩ : ∃ d, canonicaliseStep pathSepNt [a, 0x3a] c = [a, 0x3a, d] := by
      unfold canonicaliseStep
      split
      · rw [if_neg (by simp [pathSepNt])]
        exact ⟨pathSepNt, rfl⟩
      · exact ⟨c, rfl⟩
    have htwo : canonicaliseStep pathSepNt (canonicaliseStep pathSepNt [] a) 0x3a = [a, 0x3a] := by
      rw [canonicaliseStep, if_neg (by decide), canonicaliseStep, if_neg ha]
      rfl
    obtain ⟨rest, hrest⟩ := foldl_extends pathSepNt path [a, 0x3a, d]
    rw [canonicalise, foldl_cons, foldl_cons, foldl_cons, htwo, hthree, ← hrest]
    simp [utilIsAbsoluteWindowsPath, halpha]

theorem collapseWindowsPath_tidy {path result : Bytes} (hzero : 0 ∉ path) (hsep : pathSep ∉ path)
    (hstart : path.getD 0 0 = pathSepNt → path.getD 1 0 = pathSepNt → path.getD 2 0 ≠ pathSepNt)
    (h : collapseWindowsPath path = some result) :
    Single pathSepNt (result.drop 1) ∧ pathSep ∉ result ∧ 0 ∉ result := by
  -- what is collapsed is some part of the path
  have hpart : ∀ {part collapsed : Bytes}, (∀ b ∈ part, b ∈ path) → collapsePath pathSepNt part = some collapsed →
      pathSep ∉ collapsed ∧ 0 ∉ collapsed := by
    intro part collapsed hmem hcoll
    have hbytes := (collapsePath_single hcoll).2.1
    constructor
    · intro hb
      exact (hbytes _ hb).elim (by decide) fun h => hsep (hmem _ h)
    · intro hb
      exact (hbytes _ hb).elim (by decide) fun h => hzero (hmem _ h)
  unfold collapseWindowsPath at h
  split at h
  · exact absurd h.symm (some_ne_none _)
  split at h
  · exact ⟨(collapsePath_single h).1.drop 1, hpart (fun b hb => hb) h⟩
  split at h
  case isTrue hunc =>
    split at h
    · exact ⟨(collapsePath_single h).1.drop 1, hpart (fun b hb => mem_of_mem_drop hb) h⟩
    · rw [map_eq_some_iff] at h
      obtain ⟨collapsed, hcoll, rfl⟩ := h
      obtain ⟨hclean, hclean'⟩ := hpart (fun b hb => mem_of_mem_drop hb) hcoll
      obtain ⟨hsingle, -, hhead⟩ := collapsePath_single hcoll
      rcases path with _ | ⟨a, _ | ⟨b, path⟩⟩
      · exact absurd hunc.1 (by decide)
      · exact absurd hunc.2 (by simp [pathSepNt])
      · have hnext : path.head? ≠ some pathSepNt := by
          intro heq
          apply hstart hunc.1 hunc.2
          rw [getD_eq_getElem?_getD, getElem?_cons_succ, getElem?_cons_succ, ← List.head?_eq_getElem?, heq]
          rfl
        simp only [mem_cons, not_or] at hsep hzero
        refine ⟨?_, ?_, ?_⟩
        · apply Single.append (isChain_singleton b) hsingle
          exact fun _ => hhead hnext
        · simp only [take_succ_cons, take_zero, cons_append, nil_append, mem_cons, not_or]
          exact ⟨hsep.1, hsep.2.1, hclean⟩
        · simp only [take_succ_cons, take_zero, cons_append, nil_append, mem_cons, not_or]
          exact ⟨hzero.1, hzero.2.1, hclean'⟩
  · exact absurd h.symm (some_ne_none _)

def Covered (outputCwd translatedPath : Bytes) : Prop :=
  outputCwd.isPrefixOf (cString translatedPath) = true ∧
    (isSeparator (translatedPath.getD outputCwd.length 0) = true ∨ translatedPath.getD outputCwd.length 0 = 0)

instance (outputCwd translatedPath : Bytes) : Decidable (Covered outputCwd translatedPath) :=
  inferInstanceAs (Decidable (_ ∧ _))

theorem mem_relativise_iff {c : UInt8} (hc : isSeparator c = false) (hdot : c ∉ dot)
    (outputCwd translatedPath : Bytes) :
    c ∈ Machine.relativise outputCwd translatedPath ↔
      (if Covered outputCwd translatedPath then outputCwd.count c else 0) < translatedPath.count c := by
  have hcut (rest : Bytes) : c ∈ rest ↔ outputCwd.count c < (outputCwd ++ rest).count c := by
    rw [count_append, ← count_pos_iff]
    omega
  unfold Machine.relativise
  split
  case isFalse hnot =>
    rw [if_neg fun h => hnot h.1, count_pos_iff]
  case isTrue hstart =>
    obtain ⟨rest, hrest⟩ := ( isPrefixOf_iff_prefix.mp hstart).trans ( takeWhile_prefix _)
    subst hrest
    split
    case isTrue hsep =>
      have hcov : Covered outputCwd (outputCwd ++ rest) := ⟨hstart, .inl hsep⟩
      rw [if_pos hcov, ← hcut]
      rw [getD_eq_getElem?_getD, getElem?_append_right (Nat.le_refl _), Nat.sub_self] at hsep
      cases rest with
      | nil => exact absurd hsep (by decide)
      | cons b rest =>
        rw [getElem?_cons_zero, getD_some] at hsep
        have hb : c ≠ b := by
          rintro rfl
          rw [hsep] at hc
          exact absurd hc (by decide)
        rw [mem_cons, or_iff_right hb]
        split
        case isTrue hlen =>
          rw [length_append, length_cons] at hlen
          have hnil := eq_nil_of_length_eq_zero (show rest.length = 0 by omega)
          subst hnil
          exact iff_of_false hdot not_mem_nil
        case isFalse =>
          rw [drop_append, drop_of_length_le (by omega), Nat.add_sub_cancel_left]
          rfl
    case isFalse hsep =>
      split
      case isTrue hend =>
        have hcov : Covered outputCwd (outputCwd ++ rest) := ⟨hstart, .inr hend⟩
        rw [if_pos hcov, ← hcut, drop_left]
      case isFalse hend =>
        rw [if_neg fun h => h.2.elim hsep hend, count_pos_iff]

theorem zero_mem_relativise_iff {outputCwd : Bytes} (hcwd : 0 ∉ outputCwd) (translatedPath : Bytes) :
    0 ∈ Machine.relativise outputCwd translatedPath ↔ 0 ∈ translatedPath := by
  have hnone : (if Covered outputCwd translatedPath then outputCwd.count 0 else 0) = 0 := by
    rw [count_eq_zero.mpr hcwd, ite_self]
  rw [mem_relativise_iff rfl (by decide), hnone, count_pos_iff]

theorem isAlpha_plain {c : UInt8} (h : isAlpha c = true) : c ≠ 0 ∧ c ≠ pathSep ∧ c ≠ pathSepNt := by
  refine ⟨?_, ?_, ?_⟩
  · rintro rfl
    exact absurd h (by decide)
  · rintro rfl
    exact absurd h (by decide)
  · rintro rfl
    exact absurd h (by decide)

namespace Machine

variable (m : Machine)

theorem zero_not_mem_wslPathTranslate {path : Bytes} (hzero : 0 ∉ path) :
    0 ∉ m.wslPathTranslate path false := by
  unfold wslPathTranslate
  cases hcwd : m.cwd with
  | none => exact not_mem_nil
  | some unixCwd =>
    have hunix : 0 ∉ unixCwd := m.located unixCwd hcwd
    simp only [Bool.false_eq_true, if_false]
    cases habs : absolutePath unixCwd path with
    | none => exact not_mem_nil
    | some result =>
      obtain ⟨canonicalPath, relative⟩ := result
      obtain ⟨hsingle, hcanonical⟩ := absolutePath_tidy hunix hzero habs
      have hclean := m.zero_not_mem_translate hsingle hcanonical
      simp only
      split
      · exact not_mem_nil
      split
      · rw [zero_mem_relativise_iff (zero_not_mem_cString _)]
        exact hclean
      · exact hclean

def UnescapedPath (path : Bytes) : Prop :=
  ∃ unixCwd ∈ m.cwd, ∃ canonicalPath relative,
    m.dosToCanonicalPath unixCwd (canonicalise pathSepNt path) = some (canonicalPath, relative) ∧
      m.UnescapedInShare canonicalPath

theorem dosToCanonicalPath_cases {path unixCwd canonicalPath : Bytes} {relative : Bool}
    (habs : utilIsAbsoluteWindowsPath path = true)
    (h : m.dosToCanonicalPath unixCwd (canonicalise pathSepNt path) = some (canonicalPath, relative)) :
    (relative = false ∧ collapseWindowsPath (canonicalise pathSepNt path) = some canonicalPath) ∨
      ∃ drive, isAlpha drive = true ∧
        collapseWindowsPath (drive :: 0x3a :: canonicalise pathSepNt path) = some canonicalPath := by
  unfold dosToCanonicalPath at h
  split at h
  · rw [map_eq_some_iff] at h
    obtain ⟨collapsed, hcoll, heq⟩ := h
    obtain ⟨rfl, rfl⟩ := Prod.mk.inj heq
    exact .inl ⟨rfl, hcoll⟩
  case isFalse hrelative =>
    split at h
    · exact absurd h.symm (some_ne_none _)
    rw [map_eq_some_iff] at h
    obtain ⟨collapsed, hbind, heq⟩ := h
    obtain ⟨rfl, -⟩ := Prod.mk.inj heq
    obtain ⟨absolute, hmade, hcoll⟩ := bind_eq_some_iff.mp hbind
    have hhead := (absolute_canonicalise habs).resolve_right hrelative
    rw [absoluteWindowsPath, if_pos hhead] at hmade
    split at hmade
    · exact absurd hmade.symm (some_ne_none _)
    case isFalse hdrive =>
      rw [not_or, Bool.not_eq_false] at hdrive
      rw [Option.some.injEq] at hmade
      subst hmade
      exact .inr ⟨_, hdrive.1, hcoll⟩

theorem dosToCanonicalPath_tidy {path unixCwd canonicalPath : Bytes} {relative : Bool} (hzero : 0 ∉ path)
    (habs : utilIsAbsoluteWindowsPath path = true)
    (h : m.dosToCanonicalPath unixCwd (canonicalise pathSepNt path) = some (canonicalPath, relative)) :
    Single pathSepNt (canonicalPath.drop 1) ∧ pathSep ∉ canonicalPath ∧ 0 ∉ canonicalPath := by
  have hclean : 0 ∉ canonicalise pathSepNt path := zero_not_mem_canonicalise (by decide) hzero
  have hsep : pathSep ∉ canonicalise pathSepNt path := by
    intro hmem
    exact (mem_canonicalise hmem).elim (by decide) fun h => absurd h.2 (by decide)
  have hsingle := @canonicalise_single pathSepNt rfl path
  rcases m.dosToCanonicalPath_cases habs h with ⟨-, hcoll⟩ | ⟨drive, halpha, hcoll⟩
  · refine collapseWindowsPath_tidy hclean hsep ?_ hcoll
    intro _ hsecond hthird
    generalize canonicalise pathSepNt path = canonical at hsecond hthird hsingle
    rcases canonical with _ | ⟨a, _ | ⟨b, _ | ⟨c, rest⟩⟩⟩
    · exact absurd hsecond (by decide)
    · exact absurd hsecond (by simp [pathSepNt])
    · exact absurd hthird (by simp [pathSepNt])
    · exact (isChain_cons.mp hsingle).1 c rfl ⟨hsecond, hthird⟩
  · obtain ⟨hnul, hslash, hback⟩ := isAlpha_plain halpha
    refine collapseWindowsPath_tidy ?_ ?_ ?_ hcoll
    · simp only [mem_cons, not_or]
      exact ⟨hnul.symm, by decide, hclean⟩
    · simp only [mem_cons, not_or]
      exact ⟨hslash.symm, by decide, hsep⟩
    · intro hfirst
      exact absurd hfirst hback

theorem zero_mem_wslPathTranslate_iff {path : Bytes} (hzero : 0 ∉ path)
    (habs : utilIsAbsoluteWindowsPath path = true) : 0 ∈ m.wslPathTranslate path true ↔
    m.UnescapedPath path := by
  unfold wslPathTranslate UnescapedPath
  cases hcwd : m.cwd with
  | none => simp
  | some unixCwd =>
    have hunix : 0 ∉ unixCwd := m.located unixCwd hcwd
    simp only [if_true, mem_def, Option.some.injEq, exists_eq_left']
    cases hcanonical : m.dosToCanonicalPath unixCwd (canonicalise pathSepNt path) with
    | none => simp
    | some result =>
      obtain ⟨canonicalPath, relative⟩ := result
      obtain ⟨hsingle, hsep, hclean⟩ := m.dosToCanonicalPath_tidy hzero habs hcanonical
      have hiff := m.zero_mem_translate_iff hsingle hsep hclean
      have hspec : (∃ c r, some (canonicalPath, relative) = some (c, r) ∧ m.UnescapedInShare c) ↔
          m.UnescapedInShare canonicalPath := by
        constructor
        · rintro ⟨c, r, heq, h⟩
          obtain ⟨rfl, -⟩ := Prod.mk.inj (Option.some.inj heq)
          exact h
        · exact fun h => ⟨canonicalPath, relative, rfl, h⟩
      rw [hspec, ← hiff]
      simp only
      split
      case isTrue hnil =>
        apply iff_of_false not_mem_nil
        rw [hiff, hnil]
        rintro ⟨-, rest, hshare, before, b0, b1, b2, after, heq, -⟩
        obtain ⟨n, -, rfl⟩ := behindShare_drop hshare
        rw [drop_nil] at heq
        exact absurd heq (by simp [canonicalise])
      split
      · exact zero_mem_relativise_iff hunix _
      · rfl

end Machine

end WslPlus.Paths

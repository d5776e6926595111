import WslPlus.Paths.FindMount

/-!
# Paths on mounted Windows drives

The part of a path that its mount covers is replaced by the other side of the mount. What is
below it is escaped on the way to Windows, and only its separators are changed on the way
back.
-/

namespace WslPlus.Paths

open List CString

variable {system : System} {path : Bytes}

def translatedSuffixLength (replacement suffix : Bytes) (reverse : Bool) : Nat :=
  if reverse = false then
    if suffix.length = 0 ∧ replacement.length = 2 ∧ replacement.getD 1 0 = 0x3a then 1
    else escapePathForNtLength suffix
  else suffix.length

def replaceStart (replacement suffix : Bytes) (reverse : Bool) : Bytes :=
  if translatedSuffixLength replacement suffix reverse ≠ suffix.length then
    if suffix.length = 0 ∧ translatedSuffixLength replacement suffix reverse = 1 then replacement ++ [pathSepNt]
    else
      replacement ++
        Window.overwrite (List.replicate (translatedSuffixLength replacement suffix reverse) 0) 0 (escapePathForNt suffix)
  else
    replacement ++ editData (utilCanonicalisePathSeparator (if reverse then pathSep else pathSepNt)) suffix

def utilWinPathTranslate (system : System) (entries : List MountEntry) (distributionName path : Bytes)
    (reverse : Bool) : Bytes :=
  let found := utilFindMount system entries path reverse
  if found.replacement = [] then utilWinPathTranslateInternal distributionName path reverse
  else replaceStart found.replacement (path.drop found.length) reverse

theorem findStep_uncovered {found : Found} {entry : MountEntry} (h : ¬ Covers entry path) :
    findStep system path false found entry = found := by
  have hzero : utilIsPathPrefix path entry.mountPoint false = 0 := by
    by_contra hne
    exact h (covers_of_pos (Nat.pos_of_ne_zero hne))
  have hdiscard : discard path false found entry = found := by
    rw [discard, if_neg]
    rintro ⟨-, hpos⟩
    simp only [Bool.false_eq_true, if_false, hzero] at hpos
    exact absurd hpos (Nat.lt_irrefl 0)
  rw [findStep, if_neg (by simp)]
  split
  · exact hdiscard
  · simp only [Bool.false_eq_true, if_false, hzero, true_or, if_true]
    exact hdiscard

variable {mount : MountEntry} {source : Bytes}

theorem findMount_covered {before after : List MountEntry}
    (hsrc : windowsSource system mount = some source) (hstart : ComponentPrefix false mount.mountPoint path)
    (hlast : ∀ later ∈ after, ¬ Covers later path) :
    utilFindMount system (before ++ mount :: after) path false = ⟨source, mount.mountPoint.length⟩ := by
  have hpos := (utilIsPathPrefix_pos_iff path mount.mountPoint false).mpr ⟨mount.mounted, hstart⟩
  have hlen : utilIsPathPrefix path mount.mountPoint false = mount.mountPoint.length := by
    rcases utilIsPathPrefix_cases path mount.mountPoint false with hzero | hlen
    · omega
    · exact hlen
  have hstep : ∀ found, findStep system path false found mount = ⟨source, mount.mountPoint.length⟩ := by
    intro found
    rw [findStep, if_neg (by simp), hsrc]
    simp only [Bool.false_eq_true, if_false, false_and, or_false, hlen]
    rw [if_neg (by omega)]
  rw [utilFindMount, foldl_append, foldl_cons, hstep]
  clear hstart hpos hlen hstep
  induction after with
  | nil => rfl
  | cons later after ih =>
    obtain ⟨hlater, htail⟩ := forall_mem_cons.mp hlast
    rw [foldl_cons, findStep_uncovered hlater]
    exact ih htail

theorem findMount_only {entries before after : List MountEntry}
    (hsplit : entries = before ++ mount :: after) (hmatch : Matches system path mount source)
    (hother : ∀ other ∈ before ++ after, ∀ s, ¬ Matches system path other s)
    (hkept : ∀ later ∈ after, ¬ Discards later mount) :
    utilFindMount system entries path true = ⟨mount.mountPoint, source.length⟩ := by
  have honly : ∀ {b a : List MountEntry} {entry : MountEntry} {s : Bytes}, entries = b ++ entry :: a →
      Matches system path entry s → b = before ∧ entry = mount ∧ a = after ∧ s = source := by
    intro b a entry s heq hs
    rw [hsplit] at heq
    have hbefore : mount ∉ before := fun h => hother mount (mem_append_left _ h) source hmatch
    have hafter : mount ∉ after := fun h => hother mount (mem_append_right _ h) source hmatch
    have hentry : entry = mount := by
      have hmem : entry ∈ before ++ mount :: after := by rw [heq]; simp
      rcases mem_append.mp hmem with h | h
      · exact absurd hs (hother entry (mem_append_left _ h) s)
      · rcases mem_cons.mp h with h | h
        · exact h
        · exact absurd hs (hother entry (mem_append_right _ h) s)
    subst hentry
    obtain ⟨hb, -, ha⟩ := (append_cons_inj_of_notMem hbefore hafter).mp heq
    exact ⟨hb.symm, rfl, ha.symm, Option.some.inj (hs.known.symm.trans hmatch.known)⟩
  have hscan := @scanned_findMount system path entries
  generalize utilFindMount system entries path true = found at hscan ⊢
  cases hscan with
  | nothing hnone => exact absurd hmatch (hnone mount (by rw [hsplit]; simp) source)
  | visible heq hs _ _ =>
    obtain ⟨-, rfl, -, rfl⟩ := honly heq hs
    rfl
  | hidden heq hs _ hover =>
    obtain ⟨-, rfl, rfl, rfl⟩ := honly heq hs
    obtain ⟨later, hlater, hdiscards⟩ := hover
    exact absurd hdiscards (hkept later hlater)

theorem utf8_append_text {point : LinuxPath} (hpoint : point ≠ []) (rest : LinuxPath) :
    utf8 (LinuxPath.text (point ++ rest)) = utf8 point.text ++ joined pathSep (rest.map LinuxName.bytes) := by
  rw [utf8_text (append_ne_nil_of_left_ne_nil hpoint rest), utf8_text hpoint, map_append, joined,
    flatMap_append]
  rfl

variable {names : List Bytes}

theorem head_joined (h : names ≠ []) (separator : UInt8) : (joined separator names).head? = some separator := by
  obtain ⟨name, names, rfl⟩ := exists_cons_of_ne_nil h
  rfl

theorem length_joined_pos (h : names ≠ []) (separator : UInt8) : 0 < (joined separator names).length := by
  obtain ⟨name, names, rfl⟩ := exists_cons_of_ne_nil h
  rw [joined_cons, cons_append, length_cons]
  omega

variable {rest : LinuxPath}

theorem isComponent_legal (hlegal : ∀ name ∈ rest, ∀ c ∈ name.text, ¬ Escaped c) :
    ∀ name ∈ rest.map LinuxName.bytes, IsComponent name ∧ ∀ b ∈ name, escapeCharNeedsEscape b = false := by
  intro name hname
  obtain ⟨n, hn, rfl⟩ := mem_map.mp hname
  have hall := (legal_utf8_iff n.text).mpr (hlegal n hn)
  have hescape : escapePathForNt n.bytes = n.bytes := escapePathForNt_of_legal hall n.sep_not_mem
  have hcomponent := isComponent_escape n.bytes_ne_nil n.sep_not_mem
  rw [hescape] at hcomponent
  exact ⟨hcomponent, hall⟩

theorem editData_joined {separator source : UInt8} (hsep : isSeparator separator = true)
    (hsrc : isSeparator source = true) (h : ∀ name ∈ names, IsComponent name)
    (hzero : 0 ∉ joined source names) :
    editData (utilCanonicalisePathSeparator separator) (joined source names) = joined separator names :=
  editData_of_eq (canonicalise_buffer hzero (canonicalise_joined hsep hsrc h) (length_joined _ _ _))
    (length_joined _ _ _)

theorem zero_not_mem_joined {separator : UInt8} (hsep : separator ≠ 0) (rest : LinuxPath) :
    0 ∉ joined separator (rest.map LinuxName.bytes) := by
  intro hmem
  obtain ⟨name, hname, hzero⟩ := mem_flatMap.mp hmem
  obtain ⟨n, -, rfl⟩ := mem_map.mp hname
  rcases mem_cons.mp hzero with h | h
  · exact hsep h.symm
  · exact n.zero_not_mem h

theorem replaceStart_linux (hrest : rest ≠ [])
    (hlegal : ∀ name ∈ rest, ∀ c ∈ name.text, ¬ Escaped c) (replacement : Bytes) :
    replaceStart replacement (joined pathSep (rest.map LinuxName.bytes)) false =
      replacement ++ joined pathSepNt (rest.map LinuxName.bytes) := by
  have hnames := isComponent_legal hlegal
  have hne : rest.map LinuxName.bytes ≠ [] := by simpa using hrest
  have hpos := length_joined_pos hne pathSep
  have hbytes : ∀ b ∈ joined pathSep (rest.map LinuxName.bytes), escapeCharNeedsEscape b = false := by
    intro b hb
    obtain ⟨name, hname, hmem⟩ := mem_flatMap.mp hb
    rcases mem_cons.mp hmem with rfl | hmem
    · rfl
    · exact (hnames name hname).2 b hmem
  have hlen : translatedSuffixLength replacement (joined pathSep (rest.map LinuxName.bytes)) false =
      (joined pathSep (rest.map LinuxName.bytes)).length := by
    rw [translatedSuffixLength, if_pos rfl, if_neg (by omega)]
    exact (escapeLength_eq_iff _).mpr hbytes
  rw [replaceStart, if_neg (not_not.mpr hlen), if_neg Bool.false_ne_true,
    editData_joined rfl rfl (fun name h => (hnames name h).1) (zero_not_mem_joined (by decide) rest)]

theorem replaceStart_windows (hlegal : ∀ name ∈ rest, ∀ c ∈ name.text, ¬ Escaped c) (replacement : Bytes) :
    replaceStart replacement (joined pathSepNt (rest.map LinuxName.bytes)) true =
      replacement ++ joined pathSep (rest.map LinuxName.bytes) := by
  have hnames := isComponent_legal hlegal
  have hlen : translatedSuffixLength replacement (joined pathSepNt (rest.map LinuxName.bytes)) true =
      (joined pathSepNt (rest.map LinuxName.bytes)).length := rfl
  rw [replaceStart, if_neg (not_not.mpr hlen), if_pos rfl,
    editData_joined rfl rfl (fun name h => (hnames name h).1) (zero_not_mem_joined (by decide) rest)]

theorem zero_not_mem_source (h : windowsSource system mount = some source) : 0 ∉ source := by
  rw [windowsSource, Option.map_eq_some_iff] at h
  obtain ⟨s, -, rfl⟩ := h
  exact zero_not_mem_cString _

/-- A path below the mount point of a drive comes back. The mount covers the path, it is not
an internal one, no other Windows mount has a source that matches what the path becomes, and
nothing below the mount point is escaped. -/
theorem drive_path_returns {entries before after : List MountEntry}
    (hsplit : entries = before ++ mount :: after) (hsource : windowsSource system mount = some source)
    (hknown : source ≠ []) (hlisted : isInternal mount = false) {point rest : LinuxPath} (hpoint : point ≠ [])
    (hmounted : mount.mountPoint = utf8 point.text) (hrest : rest ≠ [])
    (hlast : ∀ later ∈ after, ¬ Covers later (utf8 (LinuxPath.text (point ++ rest))))
    (hother : ∀ other ∈ before ++ after, ∀ s, windowsSource system other = some s →
      ¬ ComponentPrefix true s (source ++ joined pathSepNt (rest.map LinuxName.bytes)))
    (hlegal : ∀ name ∈ rest, ∀ c ∈ name.text, ¬ Escaped c) (distributionName : Bytes) :
    utilWinPathTranslate system entries distributionName
        (cString (utilWinPathTranslate system entries distributionName (utf8 (LinuxPath.text (point ++ rest))) false))
        true =
      utf8 (LinuxPath.text (point ++ rest)) := by
  have hne : rest.map LinuxName.bytes ≠ [] := by simpa using hrest
  have htext := utf8_append_text hpoint rest
  have hstart : ComponentPrefix false mount.mountPoint (utf8 (LinuxPath.text (point ++ rest))) := by
    rw [componentPrefix_linux_iff, htext, hmounted]
    exact ⟨_, rfl, .inr (head_joined hne pathSep)⟩
  -- to Windows
  have hforward : utilWinPathTranslate system entries distributionName (utf8 (LinuxPath.text (point ++ rest))) false =
      source ++ joined pathSepNt (rest.map LinuxName.bytes) := by
    rw [utilWinPathTranslate, hsplit, findMount_covered hsource hstart hlast]
    simp only [if_neg hknown]
    rw [htext, hmounted, drop_left, replaceStart_linux hrest hlegal]
  have hclean : 0 ∉ source ++ joined pathSepNt (rest.map LinuxName.bytes) := by
    rw [mem_append, not_or]
    exact ⟨zero_not_mem_source hsource, zero_not_mem_joined (by decide) rest⟩
  -- and back
  have hmatches : Matches system (source ++ joined pathSepNt (rest.map LinuxName.bytes)) mount source := by
    refine ⟨hlisted, hsource, hknown, source, _, rfl, ?_, .inr (head_joined hne pathSepNt)⟩
    rw [forall₂_same]
    intro b _
    exact beq_self_eq_true _
  have hkept : ∀ later ∈ after, ¬ Discards later mount := by
    rintro later hlater ⟨-, hpos⟩
    exact hlast later hlater (.inl (((utilIsPathPrefix_pos_iff _ _ _).mp hpos).2.trans hstart))
  have hfound := findMount_only hsplit hmatches (fun other h s hs => hother other h s hs.known hs.within) hkept
  rw [hforward, cString_of_not_mem hclean, utilWinPathTranslate, hfound]
  simp only [if_neg mount.mounted]
  rw [drop_left, replaceStart_windows hlegal, htext, hmounted]

def driveName : LinuxName := ⟨['c'], by decide, by decide, by decide, by decide⟩

theorem drive_path_returns_home :
    utilWinPathTranslate oneTag [rootMount, driveMount] ubuntu
        (cString (utilWinPathTranslate oneTag [rootMount, driveMount] ubuntu
          (utf8 (LinuxPath.text ([driveName] ++ [homeName]))) false)) true =
      utf8 (LinuxPath.text ([driveName] ++ [homeName])) := by
  apply drive_path_returns (show [rootMount, driveMount] = [rootMount] ++ driveMount :: [] from rfl)
    (show windowsSource oneTag driveMount = some (utf8 ['C', ':']) by decide)
  · decide
  · decide
  · exact cons_ne_nil _ _
  · decide
  · exact cons_ne_nil _ _
  · intro later hlater
    exact absurd hlater not_mem_nil
  · intro other hother s hs
    have hnone : windowsSource oneTag rootMount = none := by decide
    rw [mem_singleton.mp hother, hnone] at hs
    exact absurd hs.symm (Option.some_ne_none s)
  · intro name hname
    rw [mem_singleton.mp hname]
    exact forall_mem_of_all (by decide)

/-- The path of the file `f` of the internal mount. -/
def internalFile : LinuxPath :=
  [⟨['r', 'u', 'n'], by decide, by decide, by decide, by decide⟩,
    ⟨['w', 's', 'l'], by decide, by decide, by decide, by decide⟩,
    ⟨['v', 'i', 'r', 't', 'i', 'o', 'f', 's', '-', 'm', 'o', 'u', 'n', 't', 's'], by decide, by decide, by decide,
      by decide⟩,
    ⟨['x'], by decide, by decide, by decide, by decide⟩, ⟨['f'], by decide, by decide, by decide, by decide⟩]

/-- A file of an internal mount is translated to the drive and is not found there again. The
file `/c/a:b` comes back with its character still escaped. -/
theorem drive_path_changed :
    (utilWinPathTranslate oneTag [internalMount] ubuntu (utf8 internalFile.text) false = utf8 ['C', ':', '\\', 'f'] ∧
      utilWinPathTranslate oneTag [internalMount] ubuntu (utf8 ['C', ':', '\\', 'f']) true = []) ∧
    utilWinPathTranslate oneTag [driveMount] ubuntu
        (cString (utilWinPathTranslate oneTag [driveMount] ubuntu (utf8 (LinuxPath.text [driveName, colonName])) false))
        true =
      utf8 ['/', 'c', '/', 'a', Char.ofNat 0xf03a, 'b'] := by
  decide

end WslPlus.Paths

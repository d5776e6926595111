import WslPlus.Paths.Mounts

/-!
# Which mount is found

What the scan of mountinfo holds after some lines is said in terms of these lines: for a
Linux path the last one that covers it, for a Windows path the last one with the longest
source that matches it, and whether a later line is mounted over that one.
-/

namespace WslPlus.Paths

open List CString

variable {system : System} {path : Bytes}

def Covers (entry : MountEntry) (path : Bytes) : Prop :=
  ComponentPrefix false entry.mountPoint path ∨ entry.mountPoint = [pathSep] ∧ path.head? = some pathSep

/-- A Windows mount that is not one of the internal mounts of virtiofs and whose source is a
component prefix of the path. -/
structure Matches (system : System) (path : Bytes) (entry : MountEntry) (source : Bytes) : Prop where
  listed : isInternal entry = false
  known : windowsSource system entry = some source
  nonempty : source ≠ []
  within : ComponentPrefix true source path

def lastCovering (entries : List MountEntry) (path : Bytes) : Option MountEntry :=
  entries.reverse.find? fun entry => 0 < utilIsPathPrefix path entry.mountPoint false

theorem findStep_linux (found : Found) (entry : MountEntry) :
    (findStep system path false found entry).replacement =
      if 0 < utilIsPathPrefix path entry.mountPoint false then (windowsSource system entry).getD []
      else found.replacement := by
  have hdiscard : (discard path false found entry).replacement =
      if 0 < utilIsPathPrefix path entry.mountPoint false then [] else found.replacement := by
    unfold discard
    by_cases hfound : found.replacement = []
    · rw [if_neg (by simp [hfound]), hfound, ite_self]
    · simp only [Bool.false_eq_true, if_false, ne_eq, hfound, not_false_eq_true, true_and]
      split <;> rfl
  unfold findStep
  rw [if_neg (by simp)]
  cases hsrc : windowsSource system entry with
  | none => exact hdiscard
  | some source =>
    simp only [Bool.false_eq_true, if_false, false_and, or_false]
    by_cases hzero : utilIsPathPrefix path entry.mountPoint false = 0
    · rw [if_pos hzero, hdiscard, hzero, if_neg (Nat.lt_irrefl 0), if_neg (Nat.lt_irrefl 0)]
    · rw [if_neg hzero, if_pos (Nat.pos_of_ne_zero hzero)]
      rfl

theorem findMount_linux (entries : List MountEntry) :
    (utilFindMount system entries path false).replacement =
      ((lastCovering entries path).bind (windowsSource system)).getD [] := by
  induction entries using List.reverseRecOn with
  | nil => rfl
  | append_singleton entries entry ih =>
    rw [utilFindMount, foldl_concat, findStep_linux, lastCovering, reverse_concat, find?_cons]
    split
    case isTrue hpos =>
      simp only [hpos, decide_true, Option.bind_some]
    case isFalse hzero =>
      simp only [hzero, decide_false]
      exact ih

variable {entry : MountEntry}

theorem covers_of_pos (h : 0 < utilIsPathPrefix path entry.mountPoint false) : Covers entry path :=
  .inl ((utilIsPathPrefix_pos_iff _ _ _).mp h).2

variable {entries : List MountEntry}

def Discards (entry found : MountEntry) : Prop :=
  isInternal entry = false ∧ 0 < utilIsPathPrefix found.mountPoint entry.mountPoint false

/-- What the scan holds after some lines. Of the lines with the longest source that matches
it is about the last one. -/
inductive Scanned (system : System) (path : Bytes) (entries : List MountEntry) : Found → Prop
  | nothing (hnone : ∀ entry ∈ entries, ∀ source, ¬ Matches system path entry source) :
    Scanned system path entries ⟨[], 0⟩
  | visible {before after : List MountEntry} {entry : MountEntry} {source : Bytes}
    (hsplit : entries = before ++ entry :: after) (hmatches : Matches system path entry source)
    (hlongest : ∀ other ∈ entries, ∀ s, Matches system path other s → s.length ≤ source.length)
    (hkept : ∀ later ∈ after, ¬ Discards later entry) :
    Scanned system path entries ⟨entry.mountPoint, source.length⟩
  | hidden {before after : List MountEntry} {entry : MountEntry} {source : Bytes}
    (hsplit : entries = before ++ entry :: after) (hmatches : Matches system path entry source)
    (hlongest : ∀ other ∈ entries, ∀ s, Matches system path other s → s.length ≤ source.length)
    (hover : ∃ later ∈ after, Discards later entry) :
    Scanned system path entries ⟨[], source.length⟩

variable {source : Bytes}

theorem Matches.length_eq (h : Matches system path entry source) :
    utilIsPathPrefix path source true = source.length := by
  have hpos := (utilIsPathPrefix_pos_iff path source true).mpr ⟨h.nonempty, h.within⟩
  rcases utilIsPathPrefix_cases path source true with hzero | hlen
  · omega
  · exact hlen

theorem matches_of_pos (hlisted : isInternal entry = false)
    (hknown : windowsSource system entry = some source) (hpos : 0 < utilIsPathPrefix path source true) :
    Matches system path entry source := by
  obtain ⟨hne, hwithin⟩ := (utilIsPathPrefix_pos_iff path source true).mp hpos
  exact ⟨hlisted, hknown, hne, hwithin⟩

/-- One line either replaces what was found, or it matches with no longer source. Then it may
take away what was found, unless it is an internal mount. -/
theorem findStep_windows (found : Found) (entry : MountEntry) :
    (∃ source, Matches system path entry source ∧ found.length ≤ source.length ∧
      findStep system path true found entry = ⟨entry.mountPoint, source.length⟩) ∨
    (∀ source, Matches system path entry source → source.length ≤ found.length) ∧
      (isInternal entry = true ∧ findStep system path true found entry = found ∨
        isInternal entry = false ∧ findStep system path true found entry = discard path true found entry) := by
  cases hint : isInternal entry with
  | true =>
    refine .inr ⟨?_, .inl ⟨rfl, ?_⟩⟩
    · intro source hmatch
      rw [hmatch.listed] at hint
      exact absurd hint (by decide)
    · rw [findStep, if_pos ⟨rfl, hint⟩]
  | false =>
    cases hsrc : windowsSource system entry with
    | none =>
      refine .inr ⟨?_, .inr ⟨rfl, ?_⟩⟩
      · intro source hmatch
        exact absurd (hmatch.known.symm.trans hsrc) (Option.some_ne_none _)
      · rw [findStep, if_neg (by simp [hint]), hsrc]
    | some source =>
      have hstep : findStep system path true found entry =
          if utilIsPathPrefix path source true = 0 ∨ utilIsPathPrefix path source true < found.length then
            discard path true found entry
          else ⟨entry.mountPoint, utilIsPathPrefix path source true⟩ := by
        rw [findStep, if_neg (by simp [hint]), hsrc]
        simp only [if_true, true_and]
      by_cases hskip : utilIsPathPrefix path source true = 0 ∨ utilIsPathPrefix path source true < found.length
      · refine .inr ⟨?_, .inr ⟨rfl, by rw [hstep, if_pos hskip]⟩⟩
        intro other hmatch
        have hother : other = source := Option.some.inj (hmatch.known.symm.trans hsrc)
        have hlen := hmatch.length_eq
        have hpos := length_pos_iff.mpr hmatch.nonempty
        rw [← hother] at hskip
        omega
      · rw [not_or] at hskip
        have hmatch := matches_of_pos hint hsrc (Nat.pos_of_ne_zero hskip.1)
        have hlen := hmatch.length_eq
        refine .inl ⟨source, hmatch, by omega, ?_⟩
        rw [hstep, if_neg (not_or.mpr hskip), hlen]

theorem forall_concat {bound : Nat} (h : ∀ other ∈ entries, ∀ s, Matches system path other s → s.length ≤ bound)
    (hlast : ∀ s, Matches system path entry s → s.length ≤ bound) :
    ∀ other ∈ entries ++ [entry], ∀ s, Matches system path other s → s.length ≤ bound := by
  intro other hother s hs
  rcases mem_append.mp hother with hmem | hmem
  · exact h other hmem s hs
  · rw [mem_singleton.mp hmem] at hs
    exact hlast s hs

variable {found : Found}

theorem Scanned.bound (h : Scanned system path entries found) :
    ∀ other ∈ entries, ∀ s, Matches system path other s → s.length ≤ found.length := by
  cases h with
  | nothing hnone => exact fun other hother s hs => absurd hs (hnone other hother s)
  | visible _ _ hlongest _ => exact hlongest
  | hidden _ _ hlongest _ => exact hlongest

theorem split_concat {entries before after : List MountEntry} {kept : MountEntry}
    (h : entries = before ++ kept :: after) (entry : MountEntry) :
    entries ++ [entry] = before ++ kept :: (after ++ [entry]) := by
  rw [h, append_assoc, cons_append]

section

variable (h : Scanned system path entries found)
include h

section

variable (hlast : ∀ s, Matches system path entry s → s.length ≤ found.length)
include hlast

theorem Scanned.keep
    (hkeep : ∀ kept : MountEntry, found.replacement = kept.mountPoint → ¬ Discards entry kept) :
    Scanned system path (entries ++ [entry]) found := by
  have hbound := forall_concat h.bound hlast
  cases h with
  | nothing hnone =>
    apply Scanned.nothing
    intro other hother s hs
    have hpos := length_pos_iff.mpr hs.nonempty
    have hle := hbound other hother s hs
    exact absurd hpos (Nat.not_lt.mpr hle)
  | visible hsplit hmatch hlongest hkept =>
    apply Scanned.visible (split_concat hsplit entry) hmatch hbound
    intro later hlater
    rcases mem_append.mp hlater with hmem | hmem
    · exact hkept later hmem
    · rw [mem_singleton.mp hmem]
      exact hkeep _ rfl
  | hidden hsplit hmatch hlongest hover =>
    obtain ⟨later, hlater, hdiscards⟩ := hover
    exact .hidden (split_concat hsplit entry) hmatch hbound ⟨later, mem_append_left _ hlater, hdiscards⟩

theorem Scanned.discard
    (hlisted : isInternal entry = false) :
    Scanned system path (entries ++ [entry]) (discard path true found entry) := by
  have hbound := forall_concat h.bound hlast
  simp only [Paths.discard, if_true]
  split
  case isTrue hover =>
    obtain ⟨hfound, hover⟩ := hover
    cases h with
    | nothing _ => exact absurd rfl hfound
    | visible hsplit hmatch _ _ =>
      exact .hidden (split_concat hsplit entry) hmatch hbound
        ⟨entry, mem_append_right _ (mem_singleton_self _), hlisted, hover⟩
    | hidden _ _ _ _ => exact absurd rfl hfound
  case isFalse hover =>
    apply h.keep hlast
    rintro kept hrepl ⟨-, hpos⟩
    apply hover
    rw [hrepl]
    exact ⟨kept.mounted, hpos⟩

end

theorem Scanned.step
    (entry : MountEntry) :
    Scanned system path (entries ++ [entry]) (findStep system path true found entry) := by
  rcases @findStep_windows system path found entry with
    ⟨source, hmatch, hle, hstep⟩ | ⟨hlast, ⟨hint, hstep⟩ | ⟨hlisted, hstep⟩⟩
  · rw [hstep]
    refine .visible (show entries ++ [entry] = entries ++ entry :: [] from rfl) hmatch ?_ ?_
    · apply forall_concat
      · intro other hother s hs
        exact Nat.le_trans (h.bound other hother s hs) hle
      · intro s hs
        rw [Option.some.inj (hs.known.symm.trans hmatch.known)]
    · intro later hlater
      exact absurd hlater not_mem_nil
  · rw [hstep]
    apply h.keep hlast
    rintro kept - ⟨hlisted, -⟩
    rw [hint] at hlisted
    exact absurd hlisted (by decide)
  · rw [hstep]
    exact h.discard hlast hlisted

end

theorem scanned_findMount (entries : List MountEntry) :
    Scanned system path entries (utilFindMount system entries path true) := by
  induction entries using List.reverseRecOn with
  | nil =>
    apply Scanned.nothing
    intro entry hentry
    exact absurd hentry not_mem_nil
  | append_singleton entries entry ih =>
    rw [utilFindMount, foldl_concat]
    exact ih.step entry

def zeroTag : Bytes :=
  List.replicate 8 0x30 ++ [0x2d] ++ List.replicate 4 0x30 ++ [0x2d] ++ List.replicate 4 0x30 ++ [0x2d] ++
    List.replicate 4 0x30 ++ [0x2d] ++ List.replicate 12 0x30

def oneTag : System :=
  ⟨true, fun tag => tag == zeroTag, fun tag => if tag = zeroTag then some (utf8 ['C', ':']) else none⟩

def plainMount (mountPoint : Bytes) (mounted : mountPoint ≠ []) (terminated : 0 ∉ mountPoint) : MountEntry :=
  ⟨[pathSep], mountPoint, utf8 ['e', 'x', 't', '4'], utf8 ['s', 'd', 'a'], utf8 ['r', 'w'], mounted, terminated⟩

def drvfsMount (source mountPoint : Bytes) (mounted : mountPoint ≠ []) (terminated : 0 ∉ mountPoint) :
    MountEntry :=
  ⟨[pathSep], mountPoint, drvfsFsType, source, utf8 ['r', 'w'], mounted, terminated⟩

def rootMount : MountEntry := plainMount [pathSep] (by decide) (by decide)

/-- The drive on `/c`. -/
def driveMount : MountEntry := drvfsMount (utf8 ['C', ':', '\\']) (utf8 ['/', 'c']) (by decide) (by decide)

def internalMount : MountEntry :=
  ⟨[pathSep], virtioFsMountDir ++ utf8 ['/', 'x'], virtioFsType, zeroTag, utf8 ['r', 'w'], by decide, by decide⟩

end WslPlus.Paths

import WslPlus.Paths.Redirector
import Mathlib.Data.List.Forall2
import Mathlib.Data.List.Induction

/-!
# The mount of a path

The lines of mountinfo are read one after another, with one mount found so far and the
length of what it matched. A line can replace the mount that was found, and a line that is
mounted over it, or over the path, takes it away.
-/

namespace WslPlus.Paths

open List CString

/-- The fields that the scan reads. The mount point is a C string that is not empty. -/
structure MountEntry where
  root : Bytes
  mountPoint : Bytes
  fileSystemType : Bytes
  source : Bytes
  superOptions : Bytes
  mounted : mountPoint ≠ []
  terminated : 0 ∉ mountPoint

/-- What the scan asks for besides the lines: the features of the machine, whether a text is
a GUID, and the symbolic links that map the tags of virtiofs. -/
structure System where
  useVirtioFs : Bool
  toGuid : Bytes → Bool
  readSymlink : Bytes → Option Bytes

def plan9FsType : Bytes := utf8 ['9', 'p']

def virtioFsType : Bytes := utf8 ['v', 'i', 'r', 't', 'i', 'o', 'f', 's']

def drvfsFsType : Bytes := utf8 ['d', 'r', 'v', 'f', 's']

def drvfsVirtioTag : Bytes := utf8 ['d', 'r', 'v', 'f', 's']

def drvfsAdminVirtioTag : Bytes := utf8 ['d', 'r', 'v', 'f', 's', 'a']

def plan9AnameDrvfs : Bytes := utf8 ['a', 'n', 'a', 'm', 'e', '=', 'd', 'r', 'v', 'f', 's']

def plan9AnamePathOption : Bytes := utf8 ['p', 'a', 't', 'h', '=']

def plan9Unc : Bytes := utf8 ['\\', '\\']

def plan9UncTranslated : Bytes := utf8 ['U', 'N', 'C', '\\']

def virtioFsMountDir : Bytes :=
  utf8 ['/', 'r', 'u', 'n', '/', 'w', 's', 'l', '/', 'v', 'i', 'r', 't', 'i', 'o', 'f', 's', '-', 'm', 'o', 'u', 'n',
    't', 's']

def isAlpha (c : UInt8) : Bool := (0x41 ≤ c && c ≤ 0x5a) || (0x61 ≤ c && c ≤ 0x7a)

def afterFirst (pattern : Bytes) : Bytes → Option Bytes
  | [] => if pattern = [] then some [] else none
  | c :: text => if pattern.isPrefixOf (c :: text) then some ((c :: text).drop pattern.length) else afterFirst pattern text

def plan9Source (value : Bytes) : Bytes :=
  if 1 < value.length ∧ isAlpha (value.getD 0 0) ∧ value.getD 1 0 = 0x3a then canonicalise pathSepNt value
  else if startsWith value plan9UncTranslated false then
    canonicalise pathSepNt (plan9Unc ++ value.drop plan9UncTranslated.length)
  else []

def utilParsePlan9MountSource (mountOptions : Bytes) : Bytes :=
  match (mountOptions.splitOn 0x2c).find? fun option => startsWith option plan9AnameDrvfs false with
  | none => []
  | some option =>
    match afterFirst plan9AnamePathOption option with
    | none => []
    | some value => plan9Source (value.takeWhile (· ≠ 0x3b))

def parseAggregateVirtioFsMountRoot (system : System) (tag root : Bytes) : Option (Bytes × Bytes) :=
  if (tag ≠ drvfsVirtioTag ∧ tag ≠ drvfsAdminVirtioTag) ∨ root.length < 2 ∨ root.head? ≠ some pathSep then none
  else if system.toGuid ((root.drop 1).takeWhile (· ≠ pathSep)) = false then none
  else
    some ((root.drop 1).takeWhile (· ≠ pathSep),
      if pathSep ∈ root.drop 1 then (root.drop 1).dropWhile (· ≠ pathSep) else [pathSep])

def queryVirtiofsMountSource (system : System) (tag root : Bytes) : Bytes :=
  if system.useVirtioFs = false then []
  else
    let mappingName := ((parseAggregateVirtioFsMountRoot system tag root).map Prod.fst).getD tag
    if system.toGuid mappingName = false then [] else (system.readSymlink mappingName).getD []

def mountSource (system : System) (entry : MountEntry) : Option (Bytes × Bytes) :=
  if entry.fileSystemType = plan9FsType then
    if utilParsePlan9MountSource entry.superOptions = [] then none
    else some (utilParsePlan9MountSource entry.superOptions, entry.root)
  else if entry.fileSystemType = virtioFsType then
    if queryVirtiofsMountSource system entry.source entry.root = [] then none
    else
      some (queryVirtiofsMountSource system entry.source entry.root,
        ((parseAggregateVirtioFsMountRoot system entry.source entry.root).map Prod.snd).getD entry.root)
  else if entry.fileSystemType = drvfsFsType then some (canonicalise pathSepNt entry.source, entry.root)
  else none

def stripSeparator (source : Bytes) : Bytes :=
  if source.getLast? = some pathSepNt then source.dropLast else source

def combinedSource (source root : Bytes) : Bytes :=
  if root = [pathSep] then stripSeparator source
  else canonicalise pathSepNt (stripSeparator source ++ root)

/-- The field `Source` of the line, a C string, when it is compared with the path. -/
def windowsSource (system : System) (entry : MountEntry) : Option Bytes :=
  (mountSource system entry).map fun s => cString (combinedSource s.1 s.2)

def separatorOf (winPath : Bool) : UInt8 := if winPath then pathSepNt else pathSep

def utilIsPathPrefix (path start : Bytes) (winPath : Bool) : Nat :=
  if path.length < start.length ∨ (start.length < path.length ∧ path.getD start.length 0 ≠ separatorOf winPath) then 0
  else if startsWith path start winPath = false then 0
  else start.length

structure Found where
  replacement : Bytes
  length : Nat
  deriving DecidableEq

def discard (path : Bytes) (winPath : Bool) (found : Found) (entry : MountEntry) : Found :=
  if found.replacement ≠ [] ∧
      0 < utilIsPathPrefix (if winPath then found.replacement else path) entry.mountPoint false then
    { found with replacement := [] }
  else found

def isInternal (entry : MountEntry) : Bool := 0 < utilIsPathPrefix entry.mountPoint virtioFsMountDir false

def findStep (system : System) (path : Bytes) (winPath : Bool) (found : Found) (entry : MountEntry) : Found :=
  if winPath ∧ isInternal entry then found
  else
    match windowsSource system entry with
    | none => discard path winPath found entry
    | some source =>
      let length := utilIsPathPrefix path (if winPath then source else entry.mountPoint) winPath
      if length = 0 ∨ (winPath ∧ length < found.length) then discard path winPath found entry
      else ⟨if winPath then entry.mountPoint else source, length⟩

def utilFindMount (system : System) (entries : List MountEntry) (path : Bytes) (winPath : Bool) : Found :=
  entries.foldl (findStep system path winPath) ⟨[], 0⟩

def ComponentPrefix (winPath : Bool) (start path : Bytes) : Prop :=
  ∃ head rest, path = head ++ rest ∧ List.Forall₂ (fun a b => sameChar winPath a b = true) head start ∧
    (rest = [] ∨ rest.head? = some (separatorOf winPath))

theorem startsWith_nil (text : Bytes) (caseInsensitive : Bool) : startsWith text [] caseInsensitive = true := by
  simp [startsWith, compare]

theorem startsWith_cons (c d : UInt8) (text start : Bytes) (caseInsensitive : Bool) :
    startsWith (c :: text) (d :: start) caseInsensitive =
      (sameChar caseInsensitive c d && startsWith text start caseInsensitive) := by
  unfold startsWith compare
  simp only [length_cons, Nat.add_lt_add_iff_right, take_succ_cons, zip_cons_cons, takeWhile_cons]
  cases hsame : sameChar caseInsensitive c d with
  | false => simp
  | true => simp

theorem startsWith_iff (text start : Bytes) (caseInsensitive : Bool) :
    startsWith text start caseInsensitive = true ↔
      ∃ head rest, text = head ++ rest ∧ List.Forall₂
    (fun a b => sameChar caseInsensitive a b = true) head start := by
  induction start generalizing text with
  | nil =>
    rw [startsWith_nil]
    exact iff_of_true rfl ⟨[], text, rfl, .nil⟩
  | cons d start ih =>
    cases text with
    | nil =>
      apply iff_of_false
      · simp [startsWith]
      · rintro ⟨head, rest, heq, hsame⟩
        rw [(append_eq_nil_iff.mp heq.symm).1] at hsame
        cases hsame
    | cons c text =>
      rw [startsWith_cons, Bool.and_eq_true, ih]
      constructor
      · rintro ⟨hsame, head, rest, rfl, htail⟩
        exact ⟨c :: head, rest, rfl, .cons hsame htail⟩
      · rintro ⟨head, rest, heq, hsame⟩
        cases hsame with
        | cons hcd htail =>
          rw [cons_append, List.cons.injEq] at heq
          obtain ⟨rfl, rfl⟩ := heq
          exact ⟨hcd, _, rest, rfl, htail⟩

theorem utilIsPathPrefix_cases (path start : Bytes) (winPath : Bool) :
    utilIsPathPrefix path start winPath = 0 ∨ utilIsPathPrefix path start winPath = start.length := by
  unfold utilIsPathPrefix
  split
  · exact .inl rfl
  · split
    · exact .inl rfl
    · exact .inr rfl

/-- The length of a prefix is not zero exactly when it is a component prefix that is not
empty. -/
theorem utilIsPathPrefix_pos_iff (path start : Bytes) (winPath : Bool) :
    0 < utilIsPathPrefix path start winPath ↔ start ≠ [] ∧ ComponentPrefix winPath start path := by
  constructor
  · intro hpos
    unfold utilIsPathPrefix at hpos
    split at hpos
    case isTrue => exact absurd hpos (Nat.lt_irrefl 0)
    case isFalse hlen =>
      split at hpos
      case isTrue => exact absurd hpos (Nat.lt_irrefl 0)
      case isFalse hstarts =>
        rw [Bool.not_eq_false, startsWith_iff] at hstarts
        obtain ⟨head, rest, rfl, hsame⟩ := hstarts
        have hhead := hsame.length_eq
        refine ⟨length_pos_iff.mp hpos, head, rest, rfl, hsame, ?_⟩
        cases rest with
        | nil => exact .inl rfl
        | cons c rest =>
          rw [← hhead, length_append, length_cons, not_or, not_and, not_not] at hlen
          have hnext := hlen.2 (by omega)
          rw [getD_eq_getElem?_getD, getElem?_append_right (Nat.le_refl _), Nat.sub_self] at hnext
          exact .inr (congrArg some hnext)
  · rintro ⟨hne, head, rest, rfl, hsame, hrest⟩
    have hhead := hsame.length_eq
    have hstarts : startsWith (head ++ rest) start winPath = true := (startsWith_iff _ _ _).mpr ⟨head, rest, rfl, hsame⟩
    have hlen : ¬ ((head ++ rest).length < start.length ∨
        (start.length < (head ++ rest).length ∧ (head ++ rest).getD start.length 0 ≠ separatorOf winPath)) := by
      rw [← hhead, length_append]
      rintro (hlt | ⟨hlt, hnext⟩)
      · omega
      · rcases hrest with rfl | hsep
        · exact absurd hlt (by simp)
        · apply hnext
          rw [getD_eq_getElem?_getD, getElem?_append_right (Nat.le_refl _), Nat.sub_self,
            ← List.head?_eq_getElem?, hsep]
          rfl
    rw [utilIsPathPrefix, if_neg hlen, hstarts, if_neg Bool.true_eq_false.mp]
    exact length_pos_iff.mpr hne

theorem componentPrefix_linux_iff (start path : Bytes) :
    ComponentPrefix false start path ↔
      ∃ rest, path = start ++ rest ∧ (rest = [] ∨ rest.head? = some pathSep) := by
  constructor
  · rintro ⟨head, rest, rfl, hsame, hrest⟩
    have hhead : head = start := by
      rw [← forall₂_eq_eq_eq]
      exact hsame.imp fun a b h => eq_of_beq h
    exact ⟨rest, by rw [hhead], hrest⟩
  · rintro ⟨rest, rfl, hrest⟩
    refine ⟨start, rest, rfl, ?_, hrest⟩
    rw [forall₂_same]
    intro b _
    exact beq_self_eq_true b

theorem ComponentPrefix.trans {first second third : Bytes} (h : ComponentPrefix false first second)
    (h' : ComponentPrefix false second third) : ComponentPrefix false first third := by
  rw [componentPrefix_linux_iff] at h h' ⊢
  obtain ⟨rest, rfl, hrest⟩ := h
  obtain ⟨rest', rfl, hrest'⟩ := h'
  refine ⟨rest ++ rest', by rw [append_assoc], ?_⟩
  rcases hrest with rfl | hsep
  · exact hrest'
  · obtain ⟨tail, rfl⟩ : ∃ tail, rest = pathSep :: tail := by
      cases rest with
      | nil => exact absurd hsep (by simp)
      | cons b tail => exact ⟨tail, by rw [Option.some.inj hsep]⟩
    exact .inr rfl

end WslPlus.Paths

import WslPlus.Text.Guid
import WslPlus.Paths.Mounts

/-!
# Tags of virtiofs shares

The Windows path of a share is kept in a symbolic link that is named by its tag. A tag is
checked to be a GUID before it becomes a part of a path, so that it cannot leave the
directory of the links.
-/

namespace WslPlus.Paths.VirtioFs

open CharType Scanf Text

def virtiofsTagDir : Bytes := "/run/wsl/virtiofs".toList.map ofChar

def linkPath (tag : Bytes) : Bytes := virtiofsTagDir ++ [pathSep] ++ tag

/-- The link that `SaveVirtiofsTagMapping` makes and what it points to. -/
def saveVirtiofsTagMapping (l : CharLocale) (tag source : Bytes) : Option (Bytes × Bytes) :=
  match toGuid l (some tag) none with
  | none => none
  | some _ => some (linkPath (scanned tag), canonicalise pathSepNt (scanned source))

def parseAggregateVirtioFsMountRoot (l : CharLocale) (tag root : Bytes) : Option (Bytes × Bytes) :=
  if (tag ≠ drvfsVirtioTag ∧ tag ≠ drvfsAdminVirtioTag) ∨ root.length < 2 ∨ root.head? ≠ some pathSep then none
  else
    let root := root.tail
    let childName := root.takeWhile (· ≠ pathSep)
    match toGuid l (some root) (some childName.length) with
    | none => none
    | some _ => some (childName, if childName = root then [pathSep] else root.drop childName.length)

/-- The tag under which `QueryVirtiofsMountSource` looks for the source. -/
def mappingName (l : CharLocale) (tag : Bytes) (root : Option Bytes) : Bytes :=
  match root.bind fun root => parseAggregateVirtioFsMountRoot l (scanned tag) (scanned root) with
  | some (childName, _) => childName
  | none => scanned tag

def queryVirtiofsMountSource (l : CharLocale) (useVirtioFs : Bool) (readSymlink : Bytes → Option Bytes)
    (tag : Bytes)
    (root : Option Bytes) : Bytes :=
  if useVirtioFs = false then []
  else
    match toGuid l (some (mappingName l tag root)) (some (mappingName l tag root).length) with
    | none => []
    | some _ => (readSymlink (linkPath (mappingName l tag root))).getD []

def TagSafe (l : CharLocale) (tag : Bytes) : Prop :=
  (∀ source, (saveVirtiofsTagMapping l tag source).isSome = true → pathSep ∉ scanned tag) ∧
    ∀ root, (toGuid l (some (mappingName l tag root)) (some (mappingName l tag root).length)).isSome = true →
      pathSep ∉ mappingName l tag root

theorem scanned_scanned (text : Bytes) : scanned (scanned text) = scanned text := by
  rw [scanned, List.takeWhile_eq_self_iff]
  exact fun c hc => List.mem_takeWhile_imp (p := fun c : UInt8 => decide (code c ≠ 0)) hc

theorem mappingName_cases (l : CharLocale) (tag : Bytes) (root : Option Bytes) :
    mappingName l tag root = scanned tag ∨ pathSep ∉ mappingName l tag root := by
  unfold mappingName
  split
  · rename_i childName subPath h
    right
    obtain ⟨root', -, hparse⟩ := Option.bind_eq_some_iff.mp h
    unfold parseAggregateVirtioFsMountRoot at hparse
    split at hparse
    · cases hparse
    · simp only at hparse
      split at hparse
      · cases hparse
      · cases hparse
        intro hmem
        have hne := List.mem_takeWhile_imp hmem
        simp at hne
  · exact Or.inl rfl

theorem passes_scanned (l : CharLocale) (tag : Bytes) :
    PassesAsGuid l (scanned tag) (scanned tag).length ↔ PassesAsGuid l tag (scanned tag).length := by
  have hcut : scanned tag ++ tag.dropWhile (fun c => decide (code c ≠ 0)) = tag := List.takeWhile_append_dropWhile
  have hget : ∀ i, (scanned tag).length = 38 → i < 38 → (scanned tag)[i]? = tag[i]? := by
    intro i hsize hi
    have happ : (scanned tag ++ tag.dropWhile (fun c => decide (code c ≠ 0)))[i]? = (scanned tag)[i]? :=
      List.getElem?_append_left (by omega)
    rw [← happ, hcut]
  unfold PassesAsGuid
  rw [scanned_scanned]
  refine or_congr_right (and_congr_right fun hsize => ?_)
  rw [hget 0 hsize (by omega), hget 37 hsize (by omega)]

theorem save_isSome_iff (l : CharLocale) (tag source : Bytes) :
    (saveVirtiofsTagMapping l tag source).isSome = true ↔ PassesAsGuid l tag (scanned tag).length := by
  have hpasses := toGuid_isSome_iff l tag (scanned tag).length
  have hlen : toGuid l (some tag) none = toGuid l (some tag) (some (scanned tag).length) := rfl
  rw [← hpasses, ← hlen, saveVirtiofsTagMapping]
  cases toGuid l (some tag) none with
  | none => rfl
  | some g => exact Iff.rfl

theorem tagSafe_iff (l : CharLocale) (tag : Bytes) :
    TagSafe l tag ↔ pathSep ∉ scanned tag ∨ ¬ PassesAsGuid l tag (scanned tag).length := by
  constructor
  · intro h
    by_cases hpasses : PassesAsGuid l tag (scanned tag).length
    · exact Or.inl (h.1 [] ((save_isSome_iff l tag []).mpr hpasses))
    · exact Or.inr hpasses
  · intro h
    have hsafe : PassesAsGuid l tag (scanned tag).length → pathSep ∉ scanned tag :=
      fun hpasses => h.elim id fun hnot => (hnot hpasses).elim
    refine ⟨fun source hsome => hsafe ((save_isSome_iff l tag source).mp hsome), fun root hsome => ?_⟩
    rcases mappingName_cases l tag root with hname | hname
    · rw [hname] at hsome ⊢
      exact hsafe ((passes_scanned l tag).mp ((toGuid_isSome_iff l _ _).mp hsome))
    · exact hname

theorem separator_not_mem_of_isGuid {text : Bytes} (h : IsGuid text) : pathSep ∉ text :=
  fun hmem => (code_of_isGuid h hmem).2 rfl

/-- What `GuidToString` prints is read back. A string is taken for the GUID it spells, and a tag without
a separator at that, unless it passes the scanner without being a GUID. -/
theorem guids_and_tags_iff {T : Type} [CharType T] [DecidableEq T] (l : CharLocale) :
    (∀ (g : Guid) (flags : GuidToStringFlags),
      toGuid l (some (guidToString g flags : List T)) (some (guidToString g flags : List T).length) = some g) ∧
    (∀ string : List T, (guidOf string).isSome = true ↔ IsGuid string) ∧
    (∀ string more : List T, toGuid l (some (string ++ more)) (some string.length) = guidOf string ↔
      IsGuid string ∨ ¬ PassesAsGuid l (string ++ more) string.length) ∧
    ∀ tag : Bytes, (toGuid l (some tag) none = guidOf (scanned tag) ∧ TagSafe l tag) ↔
      IsGuid (scanned tag) ∨ ¬ PassesAsGuid l tag (scanned tag).length := by
  refine ⟨toGuid_guidToString l, guidOf_isSome_iff, toGuid_eq_guidOf_iff l, fun tag => ?_⟩
  have hcut : scanned tag ++ tag.dropWhile (fun c => decide (code c ≠ 0)) = tag := List.takeWhile_append_dropWhile
  have hexact := toGuid_eq_guidOf_iff l (scanned tag) (tag.dropWhile fun c => decide (code c ≠ 0))
  rw [hcut] at hexact
  constructor
  · intro h
    exact hexact.mp h.1
  · intro h
    refine ⟨hexact.mpr h, (tagSafe_iff l tag).mpr ?_⟩
    exact h.imp_left separator_not_mem_of_isGuid

def shortTag : Bytes := "1-2-3-4 5-6 7 8 9 a b/../../../../et".toList.map ofChar

/-- A tag that is no GUID is accepted, and the link is made outside the directory of the links. -/
theorem saveVirtiofsTagMapping_outside :
    ¬ IsGuid shortTag ∧ (toGuid cLocale (some shortTag) (some shortTag.length)).isSome = true ∧
      saveVirtiofsTagMapping cLocale shortTag ("C:".toList.map ofChar) =
        some ("/run/wsl/virtiofs/1-2-3-4 5-6 7 8 9 a b/../../../../et".toList.map ofChar, "C:".toList.map ofChar) ∧
      pathSep ∈ shortTag := by
  refine ⟨by decide, by rfl, by decide, by decide⟩

end WslPlus.Paths.VirtioFs

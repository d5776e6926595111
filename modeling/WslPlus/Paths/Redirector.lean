import WslPlus.Paths.Escape

/-!
# Paths of the distribution

A path that is not on a mounted Windows drive is translated to the share of the
distribution, `\\wsl.localhost\` and its name, and back.

The string that is unescaped in place keeps its old length, so that a path with an escaped
character comes back with a NUL and what was behind it.
-/

namespace WslPlus.Paths

open List CString

/-- `std::tolower` in the locale `C`. -/
def toLower (c : UInt8) : UInt8 := if 0x41 ≤ c ∧ c ≤ 0x5a then c + 0x20 else c

def sameChar (caseInsensitive : Bool) (a b : UInt8) : Bool :=
  if caseInsensitive then toLower a == toLower b else a == b

def compare (first second : Bytes) (caseInsensitive : Bool) : Nat :=
  ((first.zip second).takeWhile fun p => sameChar caseInsensitive p.1 p.2).length

def startsWith (text start : Bytes) (caseInsensitive : Bool) : Bool :=
  if text.length < start.length then false
  else compare (text.take start.length) start caseInsensitive == start.length

def plan9Rdr : Bytes := utf8 ['\\', '\\', 'w', 's', 'l', '.', 'l', 'o', 'c', 'a', 'l', 'h', 'o', 's', 't', '\\']

def plan9RdrCompat : Bytes := utf8 ['\\', '\\', 'w', 's', 'l', '$', '\\']

/-- The path starts with the share of this distribution, not with that of one whose name
only starts with the same characters. -/
def matchesShare (path share : Bytes) : Bool :=
  startsWith path share true &&
    [0, pathSep, pathSepNt].contains (path.getD share.length 0)

def fromShare (path : Bytes) : Bytes :=
  if path.length = 0 then [pathSep]
  else editData (fun buffer => unescapePathInplace (utilCanonicalisePathSeparator pathSep buffer)) path

def utilWinPathTranslateInternal (distributionName path : Bytes) (reverse : Bool) : Bytes :=
  if distributionName = [] then []
  else if reverse = false then
    plan9Rdr ++ distributionName ++
      Window.overwrite (List.replicate (escapePathForNtLength path) 0) 0 (escapePathForNt path)
  else if matchesShare path (plan9Rdr ++ distributionName) then
    fromShare (path.drop (plan9Rdr ++ distributionName).length)
  else if matchesShare path (plan9RdrCompat ++ distributionName) then
    fromShare (path.drop (plan9RdrCompat ++ distributionName).length)
  else []

def translatedBack (distributionName path : Bytes) : Bytes :=
  utilWinPathTranslateInternal distributionName
    (cString (utilWinPathTranslateInternal distributionName path false)) true

structure LinuxName where
  text : List Char
  nonempty : text ≠ []
  noSeparator : '/' ∉ text
  noNul : Char.ofNat 0 ∉ text
  noDots : text ≠ ['.'] ∧ text ≠ ['.', '.']

abbrev LinuxPath := List LinuxName

def LinuxPath.text : LinuxPath → List Char
  | [] => ['/']
  | name :: path => (name :: path).flatMap fun n => '/' :: n.text

def LinuxName.bytes (name : LinuxName) : Bytes := utf8 name.text

def Escaped (c : Char) : Prop := c.toNat < 0x80 ∧ escapeCharNeedsEscape (UInt8.ofNat c.toNat) = true

instance (c : Char) : Decidable (Escaped c) := inferInstanceAs (Decidable (_ ∧ _))

theorem startsWith_append (start rest : Bytes) (caseInsensitive : Bool) :
    startsWith (start ++ rest) start caseInsensitive = true := by
  have hall : ∀ p ∈ start.zip start, sameChar caseInsensitive p.1 p.2 = true := by
    intro p hp
    rw [zip_eq_zipWith, zipWith_self, mem_map] at hp
    obtain ⟨c, -, rfl⟩ := hp
    unfold sameChar
    split <;> exact beq_self_eq_true _
  have hlen : ¬ (start ++ rest).length < start.length := by
    rw [length_append]
    omega
  rw [startsWith, if_neg hlen, take_left, compare, takeWhile_eq_self_iff.mpr hall, length_zip,
    Nat.min_self]
  exact beq_self_eq_true _

theorem matchesShare_append (share : Bytes) {rest : Bytes} (h : rest.head? = some pathSepNt) :
    matchesShare (share ++ rest) share = true := by
  rw [matchesShare, startsWith_append, Bool.true_and, getD_eq_getElem?_getD,
    getElem?_append_right (Nat.le_refl _), Nat.sub_self, ← List.head?_eq_getElem?, h]
  rfl

theorem mem_utf8_ascii {b : UInt8} {text : List Char} (hb : b ∈ utf8 text) (hlt : b.toNat < 0x80) :
    ∃ c ∈ text, c.toNat < 0x80 ∧ b = UInt8.ofNat c.toNat := by
  obtain ⟨c, hc, hbc⟩ := mem_flatMap.mp hb
  by_cases hascii : c.toNat < 0x80
  · rw [utf8EncodeChar_ascii hascii, mem_singleton] at hbc
    exact ⟨c, hc, hascii, hbc⟩
  · have hhigh := (utf8EncodeChar_high (Nat.le_of_not_lt hascii) hbc).1
    omega

theorem not_mem_utf8 {n : Nat} (hn : n < 0x80) {text : List Char} (h : Char.ofNat n ∉ text) :
    UInt8.ofNat n ∉ utf8 text := by
  intro hmem
  have hnat : (UInt8.ofNat n).toNat = n := toNat_ofNat_of_lt (by omega)
  obtain ⟨c, hc, hascii, heq⟩ := mem_utf8_ascii hmem (by rw [hnat]; exact hn)
  have hcn : n = c.toNat := by
    rw [← hnat, heq, toNat_ofNat_of_lt (by omega)]
  apply h
  rw [hcn, Char.ofNat_toNat]
  exact hc

theorem legal_utf8_iff (text : List Char) :
    (∀ b ∈ utf8 text, escapeCharNeedsEscape b = false) ↔ ∀ c ∈ text, ¬ Escaped c := by
  constructor
  · rintro h c hc ⟨hascii, hneeds⟩
    have hmem : UInt8.ofNat c.toNat ∈ utf8 text := by
      apply mem_flatMap.mpr
      refine ⟨c, hc, ?_⟩
      rw [utf8EncodeChar_ascii hascii]
      exact mem_singleton_self _
    rw [h _ hmem] at hneeds
    exact absurd hneeds (by decide)
  · intro h b hb
    rw [← Bool.not_eq_true]
    intro hneeds
    obtain ⟨c, hc, hascii, rfl⟩ := mem_utf8_ascii hb (needsEscape_lt hneeds)
    exact h c hc ⟨hascii, hneeds⟩

namespace LinuxName

theorem bytes_ne_nil (name : LinuxName) : name.bytes ≠ [] := by
  obtain ⟨c, text, htext⟩ := exists_cons_of_ne_nil name.nonempty
  rw [bytes, htext, utf8_cons]
  intro h
  exact String.utf8EncodeChar_ne_nil (append_eq_nil_iff.mp h).1

theorem sep_not_mem (name : LinuxName) : pathSep ∉ name.bytes := not_mem_utf8 (n := 0x2f)
    (by decide) name.noSeparator

theorem zero_not_mem (name : LinuxName) : 0 ∉ name.bytes := not_mem_utf8 (n := 0) (by decide) name.noNul

end LinuxName

theorem utf8_text {path : LinuxPath} (h : path ≠ []) :
    utf8 path.text = joined pathSep (path.map LinuxName.bytes) := by
  obtain ⟨name, path, rfl⟩ := exists_cons_of_ne_nil h
  rw [LinuxPath.text, utf8, flatMap_assoc, joined, flatMap_map]
  rfl

theorem text_ne_zero (path : LinuxPath) : ∀ c ∈ path.text, c.toNat ≠ 0 := by
  intro c hc hzero
  have hnul : c = Char.ofNat 0 := by rw [← hzero, Char.ofNat_toNat]
  cases path with
  | nil =>
    rw [mem_singleton.mp hc] at hzero
    exact absurd hzero (by decide)
  | cons name path =>
    obtain ⟨n, -, hcn⟩ := mem_flatMap.mp hc
    rcases mem_cons.mp hcn with rfl | hmem
    · exact absurd hzero (by decide)
    · rw [hnul] at hmem
      exact n.noNul hmem

theorem zero_not_mem_text (path : LinuxPath) : 0 ∉ utf8 path.text := by
  apply not_mem_utf8 (n := 0) (by decide)
  intro hmem
  exact text_ne_zero path _ hmem rfl

theorem overwrite_replicate (xs : Bytes) : Window.overwrite (List.replicate xs.length 0) 0 xs = xs := by
  simp [Window.overwrite]

/-- Components behind the share come back as they are in the share, unescaped in a buffer
of their length. -/
theorem fromShare_joined {names : List Bytes} (hne : names ≠ []) (hnames : ∀ name ∈ names, IsComponent name)
    (hzero : 0 ∉ joined pathSepNt names) :
    fromShare (joined pathSepNt names) =
      (unescapePathInplace (joined pathSep names ++ [0])).take (joined pathSep names).length := by
  have hlen : (joined pathSep names).length = (joined pathSepNt names).length := length_joined _ _ _
  obtain ⟨name, names, rfl⟩ := exists_cons_of_ne_nil hne
  rw [fromShare, if_neg (by simp), editData,
    canonicalise_buffer hzero (canonicalise_joined (by decide) (by decide) hnames) hlen, hlen]

theorem translateInternal_back {distributionName : Bytes} (hname : distributionName ≠ [])
    (hnul : 0 ∉ distributionName) {path : Bytes} (hzero : 0 ∉ path) (habs : path.head? = some pathSep) :
    translatedBack distributionName path = fromShare (escapePathForNt path) := by
  have hforward : utilWinPathTranslateInternal distributionName path false =
      (plan9Rdr ++ distributionName) ++ escapePathForNt path := by
    rw [utilWinPathTranslateInternal, if_neg hname, if_pos rfl, ← length_escapePathForNt, overwrite_replicate]
  have hhead : (escapePathForNt path).head? = some pathSepNt := by
    obtain ⟨rest, rfl⟩ : ∃ rest, path = pathSep :: rest := by
      cases path with
      | nil => exact absurd habs (by simp)
      | cons b rest =>
        rw [head?_cons, Option.some.injEq] at habs
        exact ⟨rest, by rw [habs]⟩
    rfl
  have hclean : 0 ∉ (plan9Rdr ++ distributionName) ++ escapePathForNt path := by
    simp only [mem_append, not_or]
    exact ⟨⟨by decide, hnul⟩, zero_not_mem_escape hzero⟩
  rw [translatedBack, hforward, cString_of_not_mem hclean, utilWinPathTranslateInternal, if_neg hname, if_neg (by decide),
    if_pos (matchesShare_append _ hhead), drop_left]

theorem map_escape_of_legal {names : List Bytes} (hsep : ∀ name ∈ names, pathSep ∉ name)
    (hlegal : ∀ b ∈ joined pathSep names, escapeCharNeedsEscape b = false) :
    names.map escapePathForNt = names := by
  have hname : ∀ name ∈ names, escapePathForNt name = id name := by
    intro name hmem
    apply escapePathForNt_of_legal _ (hsep name hmem)
    intro b hb
    apply hlegal
    exact mem_flatMap.mpr ⟨name, hmem, mem_cons_of_mem _ hb⟩
  rw [map_congr_left hname, map_id]

theorem isComponent_names (path : LinuxPath) :
    ∀ name ∈ (path.map LinuxName.bytes).map escapePathForNt, IsComponent name := by
  intro name hname
  rw [map_map] at hname
  obtain ⟨n, -, rfl⟩ := mem_map.mp hname
  exact isComponent_escape n.bytes_ne_nil n.sep_not_mem

theorem fromShare_iff {path : LinuxPath} (hne : path ≠ []) :
    fromShare (escapePathForNt (utf8 path.text)) = utf8 path.text ↔
      ∀ c ∈ path.text, ¬ Escaped c ∧ ¬ Unescaped c := by
  have htext := utf8_text hne
  have hsep : ∀ name ∈ path.map LinuxName.bytes, pathSep ∉ name := by
    intro name hname
    obtain ⟨n, -, rfl⟩ := mem_map.mp hname
    exact n.sep_not_mem
  have hesc : escapePathForNt (utf8 path.text) =
      joined pathSepNt ((path.map LinuxName.bytes).map escapePathForNt) := by
    rw [htext, escapePathForNt_joined]
  have hzero : 0 ∉ joined pathSepNt ((path.map LinuxName.bytes).map escapePathForNt) := by
    rw [← hesc]
    exact zero_not_mem_escape (zero_not_mem_text path)
  -- nothing is escaped, since both have one length
  have hlegal : ∀ h : fromShare (escapePathForNt (utf8 path.text)) = utf8 path.text,
      ∀ b ∈ utf8 path.text, escapeCharNeedsEscape b = false := by
    intro heq
    rw [← escapeLength_eq_iff, ← length_escapePathForNt, ← congrArg List.length heq, hesc,
      fromShare_joined (by simpa using hne) (isComponent_names path) hzero, length_take,
      length_unescapePathInplace, length_append, length_joined pathSepNt pathSep]
    omega
  have hsame : (∀ b ∈ utf8 path.text, escapeCharNeedsEscape b = false) →
      fromShare (escapePathForNt (utf8 path.text)) =
        (unescapePathInplace (utf8 path.text ++ [0])).take (utf8 path.text).length := by
    intro h
    rw [hesc, fromShare_joined (by simpa using hne) (isComponent_names path) hzero,
      map_escape_of_legal hsep (by rw [← htext]; exact h), ← htext]
  constructor
  · intro heq
    have hall := hlegal heq
    rw [hsame hall, unescapePathInplace_iff (text_ne_zero path)] at heq
    intro c hc
    exact ⟨(legal_utf8_iff _).mp hall c hc, heq c hc⟩
  · intro h
    rw [hsame ((legal_utf8_iff _).mpr fun c hc => (h c hc).1)]
    exact (unescapePathInplace_iff (text_ne_zero path)).mpr fun c hc => (h c hc).2

/-- A path comes back as the same string, with its length and without a NUL, exactly when
no character of it is escaped and none is taken for an escaped one. -/
theorem path_returns_iff {distributionName : Bytes} (hname : distributionName ≠ [])
    (hnul : 0 ∉ distributionName) (path : LinuxPath)
    (hprivate : ∀ c ∈ path.text, ¬ (0xf000 ≤ c.toNat ∧ c.toNat ≤ 0xf07f)) :
    translatedBack distributionName (utf8 path.text) = utf8 path.text ↔
      ∀ c ∈ path.text, ¬ Escaped c ∧
        ¬ (0xf080 ≤ c.toNat ∧ c.toNat ≤ 0xffff ∧ escapeCharNeedsEscape (UInt8.ofNat (c.toNat % 256)) = true) := by
  have habsolute : (utf8 path.text).head? = some pathSep := by
    cases path with
    | nil => rfl
    | cons name path => rfl
  rw [translateInternal_back hname hnul (zero_not_mem_text path) habsolute]
  have hrange : ∀ c ∈ path.text, (¬ Escaped c ∧ ¬ Unescaped c) ↔ ¬ Escaped c ∧
      ¬ (0xf080 ≤ c.toNat ∧ c.toNat ≤ 0xffff ∧ escapeCharNeedsEscape (UInt8.ofNat (c.toNat % 256)) = true) := by
    intro c hc
    have hout := hprivate c hc
    apply and_congr_right
    intro _
    apply not_congr
    constructor
    · rintro ⟨hlow, hhigh, hneeds⟩
      exact ⟨by omega, hhigh, hneeds⟩
    · rintro ⟨hlow, hhigh, hneeds⟩
      exact ⟨by omega, hhigh, hneeds⟩
  rw [← forall₂_congr hrange]
  by_cases hne : path = []
  · subst hne
    exact iff_of_true (by decide) (forall_mem_of_all (by decide))
  · exact fromShare_iff hne

def ubuntu : Bytes := utf8 ['U', 'b', 'u', 'n', 't', 'u']

def homeName : LinuxName := ⟨['h', 'o', 'm', 'e'], by decide, by decide, by decide, by decide⟩

def colonName : LinuxName := ⟨['a', ':', 'b'], by decide, by decide, by decide, by decide⟩

theorem path_returns_iff_home :
    translatedBack ubuntu (utf8 (LinuxPath.text [homeName])) = utf8 (LinuxPath.text [homeName]) := by
  apply (path_returns_iff (by decide) (by decide) [homeName] (forall_mem_of_all (by decide))).mpr
  exact forall_mem_of_all (by decide)

/-- The path `/a:b` comes back with a NUL and one byte more. -/
theorem colon_path_longer :
    (∀ c ∈ LinuxPath.text [colonName], ¬ (0xf000 ≤ c.toNat ∧ c.toNat ≤ 0xf07f)) ∧
      translatedBack ubuntu (utf8 (LinuxPath.text [colonName])) ≠ utf8 (LinuxPath.text [colonName]) ∧
      translatedBack ubuntu (utf8 (LinuxPath.text [colonName])) =
        utf8 (LinuxPath.text [colonName]) ++ [0, 0x62] := by
  refine ⟨forall_mem_of_all (by decide), by decide, by decide⟩

end WslPlus.Paths

import WslPlus.ConfigFile.Invalid
import WslPlus.Lib.Utf16

/-!
# Path settings

The path overload of SetWslConfigSetting doubles the backslashes of a path and writes it
like any other value. Only the backslash is taken care of: a `#`, blanks at the ends and
characters outside ASCII are written as they are and do not come back.
-/

namespace WslPlus.ConfigFile

open List Reader

variable {r : Reader} {c : WChar} {text p post : List WChar} {sect name : List UInt8}

/-- `std::regex_replace` of each backslash by two. -/
def escapePath (p : List WChar) : List WChar :=
  p.flatMap fun c => if c = L '\\' then [L '\\', L '\\'] else [c]

/-- `MultiByteToWide`; `decode` is `MultiByteToWideChar` for CP_UTF8 without flags. -/
def multiByteToWide (decode : List UInt8 → List WChar) (s : List UInt8) : Option (List WChar) :=
  if s.length = 0 then some []
  else if s.length > 2147483647 then none
  else some (decode s)

/-- The path overload of SetWslConfigSetting; `same` is the comparison of paths. -/
def setWslConfigSetting (same : List WChar → List WChar → Bool) (keyName : List UInt8)
    (defaultValue newValue : List WChar) (text : List WChar) : List WChar :=
  let configKey : ConfigKey := ⟨[keyName], escapePath newValue⟩
  if same defaultValue newValue then remove configKey text else update configKey text

/-- `SetConfig` takes the first setting of the key, and `ParseImpl` widens its value. -/
def pathSetting (decode : List UInt8 → List WChar) (keyName : List UInt8) (text : List WChar) :
    Option (List WChar) :=
  let configKey : ConfigKey := ⟨[keyName], []⟩
  ((parse text).find? fun p => configKey.matches p.1).bind fun p => multiByteToWide decode p.2

section Reading

/-- What a value in its bare part ends with: `kept` without the blanks after it. -/
def keptOf (kept blanks : List UInt8) : List WChar → List UInt8
  | [] => kept
  | c :: p =>
    if c = L '#' ∨ c = weof then kept
    else if isHSpace c then keptOf kept (blanks ++ [narrow c]) p
    else keptOf (kept ++ blanks ++ [narrow c]) [] p

def isPathChar (c : WChar) : Bool := c != 0 && c != L '"' && c != L '\n' && c != L '\r'

theorem escapePath_cons (c : WChar) (p : List WChar) :
    escapePath (c :: p) = (if c = L '\\' then [L '\\', L '\\'] else [c]) ++ escapePath p := rfl

theorem reports_ended (kept blanks : List UInt8) (hp : EndsValue post) :
    ∃ more, Reader.reports ⟨sect, .value name kept blanks false⟩ post =
      (cstr (qualify ⟨sect, .lineStart⟩ name), cstr kept) :: more := by
  obtain ⟨bs, w, rfl, hbs, hw⟩ := hp
  have hplain : bs.all isPlain = true :=
    all_eq_true.mpr fun c hc => isPlain_of_isHSpace (all_eq_true.mp hbs c hc)
  obtain ⟨k, b, hafter, -, -, hk, hemits⟩ := after_plain sect name kept blanks bs hplain
  obtain rfl := hk hbs
  rw [reports_append, hafter, hemits, nil_append]
  rcases hw with rfl | ⟨d, w', rfl, rfl | rfl⟩
  · exact ⟨[], rfl⟩
  · exact ⟨_, rfl⟩
  · exact ⟨_, rfl⟩

theorem reports_path (sect name kept blanks : List UInt8) (hc : p.all isPathChar = true) (hp : EndsValue post) :
    ∃ more, Reader.reports ⟨sect, .value name kept blanks false⟩ (escapePath p ++ post) =
      (cstr (qualify ⟨sect, .lineStart⟩ name), cstr (keptOf kept blanks p)) :: more := by
  induction p generalizing kept blanks with
  | nil => exact reports_ended kept blanks hp
  | cons c p ih =>
    rw [all_cons, Bool.and_eq_true] at hc
    obtain ⟨hc, hrest⟩ := hc
    simp only [isPathChar, Bool.and_eq_true, bne_iff_ne] at hc
    obtain ⟨⟨⟨-, hquote⟩, hnl⟩, -⟩ := hc
    rw [escapePath_cons]
    by_cases hslash : c = L '\\'
    · subst hslash
      have hkeep : keptOf kept blanks (L '\\' :: p) = keptOf (kept ++ blanks ++ [narrow (L '\\')]) [] p := by
        rfl
      obtain ⟨more, hmore⟩ := ih (kept ++ blanks ++ [narrow (L '\\')]) [] hrest
      exact ⟨more, by rw [hkeep]; exact hmore⟩
    rw [if_neg hslash, singleton_append, cons_append, reports_cons]
    by_cases hend : c = L '#' ∨ c = weof
    · have hkeep : keptOf kept blanks (c :: p) = kept := by rw [keptOf, if_pos hend]
      rw [hkeep]
      rcases hend with rfl | rfl
      · exact ⟨_, rfl⟩
      · exact ⟨_, rfl⟩
    simp only [not_or] at hend
    have heol : isEol c = false := by simp [isEol, hnl, hend.2]
    have hemit : Reader.emit ⟨sect, .value name kept blanks false⟩ c = [] := emit_eq_nil heol hend.1
    rw [hemit, nil_append]
    by_cases hsp : isHSpace c = true
    · have hn : Reader.next ⟨sect, .value name kept blanks false⟩ c =
          ⟨sect, .value name kept (blanks ++ [narrow c]) false⟩ := by
        simp [Reader.next, nextValue, heol, hquote, hslash, hend.1, hsp]
      rw [hn, keptOf, if_neg (by simp [hend]), if_pos hsp]
      exact ih kept _ hrest
    · have hn : Reader.next ⟨sect, .value name kept blanks false⟩ c =
          ⟨sect, .value name (kept ++ blanks ++ [narrow c]) [] false⟩ := by
        simp [Reader.next, nextValue, heol, hquote, hslash, hend.1, hsp]
      rw [hn, keptOf, if_neg (by simp [hend]), if_neg hsp]
      exact ih _ [] hrest

def readPath (p : List WChar) : List UInt8 := cstr (keptOf [] [] (p.dropWhile isHSpace))

theorem reports_escapePath (sect name : List UInt8) (hc : p.all isPathChar = true) (hp : EndsValue post) :
    ∃ more, Reader.reports ⟨sect, .valueSpace name⟩ (escapePath p ++ post) =
      (cstr (qualify ⟨sect, .lineStart⟩ name), readPath p) :: more := by
  induction p with
  | nil =>
    obtain ⟨bs, w, rfl, hbs, hw⟩ := hp
    obtain ⟨h1, h2⟩ := after_blanks sect name hbs
    rw [escapePath, flatMap_nil, nil_append, reports_append, h1, h2]
    rcases hw with rfl | ⟨d, w', rfl, rfl | rfl⟩
    · exact ⟨[], rfl⟩
    · exact ⟨_, rfl⟩
    · exact ⟨_, rfl⟩
  | cons c p ih =>
    by_cases hsp : isHSpace c = true
    · have hslash : c ≠ L '\\' := ne_of_test hsp (by decide)
      have hn : Reader.next ⟨sect, .valueSpace name⟩ c = ⟨sect, .valueSpace name⟩ := by
        simp [Reader.next, hsp]
      have hemit : Reader.emit ⟨sect, .valueSpace name⟩ c = [] :=
        emit_eq_nil (isEol_of_isHSpace hsp) (hash_of_isHSpace hsp)
      rw [escapePath_cons, if_neg hslash, singleton_append, cons_append, reports_cons, hn,
        hemit, nil_append, readPath, dropWhile_cons_of_pos hsp]
      rw [all_cons, Bool.and_eq_true] at hc
      exact ih hc.2
    · -- the value begins here
      have hread : readPath (c :: p) = cstr (keptOf [] [] (c :: p)) := by
        rw [readPath, dropWhile_cons_of_neg hsp]
      obtain ⟨more, hmore⟩ := reports_path sect name [] [] hc hp
      refine ⟨more, ?_⟩
      rw [hread, ← hmore, escapePath_cons]
      have hnext : ∀ d : WChar, isHSpace d = false → Reader.next ⟨sect, .valueSpace name⟩ d =
          Reader.next ⟨sect, .value name [] [] false⟩ d := by
        intro d hd
        simp [Reader.next, nextValue, hd]
      have hemit : ∀ d : WChar, Reader.emit ⟨sect, .valueSpace name⟩ d =
          Reader.emit ⟨sect, .value name [] [] false⟩ d := fun d => rfl
      split
      · rw [cons_append, cons_append, reports_cons, reports_cons, hnext _ (by decide), hemit]
      · rw [cons_append, cons_append, reports_cons, reports_cons,
          hnext _ ((Bool.not_eq_true _).mp hsp), hemit]

theorem keptOf_eq (kept : List UInt8) {blanks : List WChar} (hb : blanks.all isHSpace = true) (p : List WChar) :
    keptOf kept (blanks.map narrow) p = kept ++
      ((blanks ++ p.takeWhile fun c => c != L '#' && c != weof).rdropWhile isHSpace).map narrow := by
  have hdrop : ∀ bs : List WChar, bs.all isHSpace = true → bs.rdropWhile isHSpace = [] := by
    intro bs hbs
    rw [rdropWhile_eq_nil_iff]
    exact fun c hc => all_eq_true.mp hbs c hc
  induction p generalizing kept blanks with
  | nil => simp [keptOf, hdrop blanks hb]
  | cons c p ih =>
    rw [keptOf]
    split
    · rename_i hend
      have hstop : (c != L '#' && c != weof) = false := by rcases hend with rfl | rfl <;> decide
      rw [takeWhile_cons_of_neg (by simp [hstop]), append_nil, hdrop blanks hb]
      simp
    rename_i hend
    simp only [not_or] at hend
    rw [takeWhile_cons_of_pos (by simp [hend])]
    split
    · rename_i hsp
      have hb' : (blanks ++ [c]).all isHSpace = true := by simp [all_append, hb, hsp]
      have hstep := ih kept hb'
      rw [map_append, map_singleton] at hstep
      rw [hstep]
      simp
    · rename_i hsp
      have hnone : ([] : List WChar).all isHSpace = true := rfl
      have hstep := ih (kept ++ blanks.map narrow ++ [narrow c]) hnone
      rw [map_nil] at hstep
      rw [hstep, nil_append, rdropWhile_append_cons ((Bool.not_eq_true _).mp hsp)]
      simp

/-- A path that survives: ASCII, or the replacement character that every other character
is read as, without `#` and without blanks at the ends. -/
def pathSafe (p : List WChar) : Bool :=
  p.all (fun c => (c < 128 && c != L '#') || c == Utf16.replacement) &&
    !p.head?.any isHSpace && !p.getLast?.any isHSpace && decide (p.length ≤ 2147483647)

theorem readPath_eq (p : List WChar) :
    readPath p = cstr ((((p.dropWhile isHSpace).takeWhile fun c => c != L '#' && c != weof).rdropWhile
      isHSpace).map narrow) := by
  have hnone : ([] : List WChar).all isHSpace = true := rfl
  have h := keptOf_eq [] hnone (p.dropWhile isHSpace)
  rw [map_nil, nil_append, nil_append] at h
  rw [readPath, h]

theorem length_readPath_le (p : List WChar) : (readPath p).length ≤ p.length := by
  rw [readPath_eq]
  calc _ ≤ _ := (takeWhile_sublist _).length_le
    _ = _ := length_map _
    _ ≤ _ := ( rdropWhile_prefix _ _).length_le
    _ ≤ _ := (takeWhile_sublist _).length_le
    _ ≤ _ := (dropWhile_sublist _).length_le

theorem readPath_of_length_eq (h : (readPath p).length = p.length) :
    readPath p = p.map narrow ∧ (∀ c ∈ p, c ≠ L '#') ∧ p.head?.any isHSpace = false ∧
      p.getLast?.any isHSpace = false := by
  have hdrop := (dropWhile_sublist isHSpace (l := p)).length_le
  have htake := (takeWhile_sublist (fun c => c != L '#' && c != weof)
    (l := p.dropWhile isHSpace)).length_le
  have htrim := ( rdropWhile_prefix isHSpace
    ((p.dropWhile isHSpace).takeWhile fun c => c != L '#' && c != weof)).length_le
  rw [readPath_eq, cstr] at h
  have hcstr := (takeWhile_sublist (fun b : UInt8 => b != 0)
    (l := (((p.dropWhile isHSpace).takeWhile fun c => c != L '#' && c != weof).rdropWhile
      isHSpace).map narrow)).length_le
  rw [length_map] at hcstr
  have h1 : p.dropWhile isHSpace = p := (dropWhile_sublist _).eq_of_length (by omega)
  rw [h1] at htake htrim hcstr h
  have h2 : (p.takeWhile fun c => c != L '#' && c != weof) = p :=
    (takeWhile_sublist _).eq_of_length (by omega)
  rw [h2] at htrim hcstr h
  have h3 : p.rdropWhile isHSpace = p := ( rdropWhile_prefix _ _).sublist.eq_of_length (by omega)
  rw [h3] at hcstr h
  have h4 : cstr (p.map narrow) = p.map narrow :=
    (takeWhile_sublist _).eq_of_length (by rw [length_map]; exact h)
  refine ⟨by rw [readPath_eq, h1, h2, h3, h4], ?_, ?_, ?_⟩
  · intro c hc
    have hall := takeWhile_eq_self_iff.mp h2 c hc
    simp only [Bool.and_eq_true, bne_iff_ne] at hall
    exact hall.1
  · cases p with
    | nil => rfl
    | cons c p =>
      cases hsp : isHSpace c with
      | false => simp [hsp]
      | true =>
        have hlen := congrArg List.length h1
        rw [dropWhile_cons_of_pos hsp] at hlen
        have hle := (dropWhile_sublist isHSpace (l := p)).length_le
        simp only [length_cons] at hlen
        omega
  · rcases eq_nil_or_concat p with rfl | ⟨q, c, rfl⟩
    · rfl
    · have hlast := rdropWhile_eq_self_iff.mp h3 (by simp)
      simpa using hlast

theorem narrow_lt (h : c < 128) : narrow c < 128 ∧ (narrow c).toUInt16 = c := by
  have hlt : c.toNat < 128 := UInt16.lt_iff_toNat_lt.mp h
  have hnat : (narrow c).toNat = c.toNat := by
    rw [narrow, UInt16.toNat_toUInt8]
    omega
  refine ⟨?_, ?_⟩
  · rw [UInt8.lt_iff_toNat_lt, hnat]
    exact hlt
  · apply UInt16.toNat_inj.mp
    rw [UInt8.toNat_toUInt16, hnat]

theorem pathSafe_char (hc : p.all isPathChar = true) (h : pathSafe p = true) : ∀ c ∈ p,
    c ≠ L '#' ∧ c ≠ weof ∧ narrow c ≠ 0 ∧ Utf16.isSingle (narrow c) = true ∧
      Utf16.unitOf (narrow c) = c := by
  intro c hmem
  have hpath := all_eq_true.mp hc c hmem
  simp only [isPathChar, Bool.and_eq_true, bne_iff_ne] at hpath
  simp only [pathSafe, Bool.and_eq_true, all_eq_true] at h
  have hsafe := h.1.1.1 c hmem
  simp only [Bool.or_eq_true, Bool.and_eq_true, decide_eq_true_eq, bne_iff_ne, beq_iff_eq] at hsafe
  rcases hsafe with ⟨hlt, hhash⟩ | rfl
  · obtain ⟨h1, h2⟩ := narrow_lt hlt
    refine ⟨hhash, ?_, ?_, ?_, ?_⟩
    · rintro rfl
      exact absurd hlt (by decide)
    · intro hz
      rw [hz] at h2
      exact hpath.1.1.1 h2.symm
    · simp [Utf16.isSingle, h1]
    · rw [Utf16.unitOf, if_pos h1, h2]
  · decide

theorem readPath_of_pathSafe (hc : p.all isPathChar = true) (h : pathSafe p = true) :
    readPath p = p.map narrow := by
  have hchar := pathSafe_char hc h
  simp only [pathSafe, Bool.and_eq_true, Bool.not_eq_true'] at h
  obtain ⟨⟨⟨-, hhead⟩, hlast⟩, -⟩ := h
  have h1 : p.dropWhile isHSpace = p := by
    cases p with
    | nil => rfl
    | cons c p => exact dropWhile_cons_of_neg (by simpa using hhead)
  have h2 : (p.takeWhile fun c => c != L '#' && c != weof) = p := by
    rw [takeWhile_eq_self_iff]
    intro c hmem
    obtain ⟨hhash, heof, -⟩ := hchar c hmem
    simp [hhash, heof]
  have h3 : p.rdropWhile isHSpace = p := by
    rw [rdropWhile_eq_self_iff]
    intro hne
    rw [getLast?_eq_some_getLast hne] at hlast
    simpa using hlast
  have h4 : cstr (p.map narrow) = p.map narrow := by
    rw [cstr, takeWhile_eq_self_iff]
    intro b hb
    obtain ⟨c, hmem, rfl⟩ := mem_map.mp hb
    obtain ⟨-, -, hz, -⟩ := hchar c hmem
    simpa using hz
  rw [readPath_eq, h1, h2, h3, h4]

theorem multiByteToWide_readPath_iff {decode : List UInt8 → List WChar}
    (hd : ∀ s, Utf16.Decodes s (decode s)) (hc : p.all isPathChar = true) :
    multiByteToWide decode (readPath p) = some p ↔ pathSafe p = true := by
  unfold multiByteToWide
  constructor
  · intro h
    split at h
    · obtain rfl : [] = p := by simpa using h
      decide
    split at h
    · cases h
    rename_i hmax
    have heq : decode (readPath p) = p := by simpa using h
    have hle := (hd (readPath p)).length_le
    rw [heq] at hle
    have hlen := Nat.le_antisymm (length_readPath_le p) hle
    obtain ⟨hread, hhash, hhead, hlast⟩ := readPath_of_length_eq hlen
    have hunits := (hd (readPath p)).mem_of_length_eq (by rw [heq, hlen])
    rw [heq] at hunits
    simp only [pathSafe, Bool.and_eq_true, all_eq_true, Bool.or_eq_true, Bool.not_eq_true',
      decide_eq_true_eq, bne_iff_ne, beq_iff_eq]
    refine ⟨⟨⟨?_, hhead⟩, hlast⟩, by omega⟩
    intro c hmem
    exact (hunits c hmem).imp (fun hlt => ⟨hlt, hhash c hmem⟩) id
  · intro h
    have hread := readPath_of_pathSafe hc h
    have hmap := (hd (readPath p)).eq_map (by
      rw [hread]
      intro b hb
      obtain ⟨c, hmem, rfl⟩ := mem_map.mp hb
      exact (pathSafe_char hc h c hmem).2.2.2.1)
    have hp : decode (readPath p) = p := by
      rw [hmap, hread, map_map]
      exact (map_congr_left fun c hmem => (pathSafe_char hc h c hmem).2.2.2.2).trans (map_id p)
    have hlen : (readPath p).length = p.length := by rw [hread, length_map]
    have hmax : p.length ≤ 2147483647 := by
      simp only [pathSafe, Bool.and_eq_true, decide_eq_true_eq] at h
      exact h.2
    split
    · rename_i hz
      rw [length_eq_zero_iff.mp (hlen.symm.trans hz)]
    split
    · omega
    · rw [hp]

end Reading

section Writing

variable {same : List WChar → List WChar → Bool} {decode : List UInt8 → List WChar}
  {keyName : List UInt8} {defaultValue : List WChar}

theorem no_return_escapePath (hp : p.all isPathChar = true) : L '\r' ∉ escapePath p := by
  intro h
  obtain ⟨c, hc, hmem⟩ := mem_flatMap.mp h
  have hpath := all_eq_true.mp hp c hc
  simp only [isPathChar, Bool.and_eq_true, bne_iff_ne] at hpath
  split at hmem
  · exact absurd hmem (by decide)
  · exact hpath.2 (mem_singleton.mp hmem).symm

/-- In a file of valid lines a path comes back exactly when it is safe. -/
theorem path_reads_back_iff (hk : (⟨[keyName], []⟩ : ConfigKey).wellFormed)
    (hd : ∀ s, Utf16.Decodes s (decode s)) (hcr : L '\r' ∉ text) (hw : weof ∉ text)
    (hvalid : (parseConfigFile Args.parse text).2.warnings = [])
    (hplace : placeSafe ⟨[keyName], escapePath p⟩ text = true) (hp : p.all isPathChar = true)
    (hdiff : same defaultValue p = false) :
    pathSetting decode keyName (setWslConfigSetting same keyName defaultValue p text) = some p ↔
      pathSafe p = true := by
  have hsafe := writeSafe_of_valid hcr hw ((warnings_parse hcr).mp hvalid) hplace
  have hset : setWslConfigSetting same keyName defaultValue p text =
      update ⟨[keyName], escapePath p⟩ text := by simp [setWslConfigSetting, hdiff]
  have hread := update_reads_as (k := ⟨[keyName], escapePath p⟩) hk (no_return_escapePath hp) hcr hsafe
    fun sect name post hpost => reports_escapePath sect name hp hpost
  obtain ⟨pair, hfind, hsnd⟩ := Option.map_eq_some_iff.mp hread
  have hvalue : pathSetting decode keyName (update ⟨[keyName], escapePath p⟩ text) =
      multiByteToWide decode (readPath p) := by
    have hfind' : ((parse (update ⟨[keyName], escapePath p⟩ text)).find? fun p =>
        (⟨[keyName], []⟩ : ConfigKey).matches p.1) = some pair := hfind
    rw [pathSetting, hfind', ← hsnd]
    rfl
  rw [hset, hvalue, multiByteToWide_readPath_iff hd hp]

theorem wellFormed_kernel : (⟨[bytes "wsl2.kernel"], []⟩ : ConfigKey).wellFormed :=
  wellFormed_single (bytes "wsl2") (bytes "kernel") [] (by decide) (by decide) (by decide)

theorem path_reads_back_kernel :
    pathSetting (List.map Utf16.unitOf) (bytes "wsl2.kernel") (setWslConfigSetting (· == ·)
      (bytes "wsl2.kernel") [] (wide "C:\\k v\\bzImage") (wide "[wsl2]\nkernel=a # old\n")) =
        some (wide "C:\\k v\\bzImage") :=
  (path_reads_back_iff wellFormed_kernel Utf16.decodes_unitOf (by decide) (by decide)
    (by rfl) (by rfl) (by decide) (by decide)).mpr (by decide)

/-- The rest of a path from a `#` on is taken for a comment. -/
theorem path_loses_hash :
    ¬ ∀ (same : List WChar → List WChar → Bool) (decode : List UInt8 → List WChar)
      (keyName : List UInt8) (defaultValue p text : List WChar),
      (⟨[keyName], []⟩ : ConfigKey).wellFormed → (∀ s, Utf16.Decodes s (decode s)) →
      L '\r' ∉ text → (parseConfigFile Args.parse text).2.warnings = [] →
      p.all isPathChar = true → same defaultValue p = false →
      pathSetting decode keyName (setWslConfigSetting same keyName defaultValue p text) = some p := by
  intro h
  have hbad := h (· == ·) (List.map Utf16.unitOf) (bytes "wsl2.kernel") [] (wide "C:\\a#b")
    (wide "[wsl2]\n") wellFormed_kernel Utf16.decodes_unitOf (by decide) (by rfl)
    (by decide) (by decide)
  exact absurd hbad (by decide)

end Writing

end WslPlus.ConfigFile

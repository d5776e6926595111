import WslPlus.Paths.WslEnv

/-!
# The elements of a translated list

The elements of a list of paths are translated one by one and put together with the separator
of the other system. Nothing keeps that separator out of an element: a semicolon is allowed in
a Linux name and in a Windows name, and a colon comes out of a mount point, out of a Windows
path, or out of the character that stands for it in the share.
-/

namespace WslPlus.Paths

open List Option CString

def listElements (separator : UInt8) (list : Option Bytes) : List Bytes :=
  match list with
  | none => []
  | some list => list.splitOn separator

def EscapeOf (c : UInt8) (path : Bytes) : Prop :=
  ∃ b0 b1 b2, [b0, b1, b2] <:+: path ∧ isEscaped b0 b1 b2 = true ∧ unescapeChar b1 b2 = c

def semicolon : UInt8 := 0x3b

def colon : UInt8 := 0x3a

namespace Machine

variable (m : Machine)

/-- What the Windows name of a path is made of: the source of its mount and what is below the
mount point, or the name of the distribution and the path. -/
def windowsParts (path : Bytes) : Bytes :=
  let found := utilFindMount m.system m.entries path false
  if found.replacement = [] then if m.distributionName = [] then [] else m.distributionName ++ path
  else found.replacement ++ path.drop found.length

def BringsSemicolon (unixCwd path : Bytes) : Prop :=
  ∃ canonicalPath relative, absolutePath unixCwd path = some (canonicalPath, relative) ∧ canonicalPath ≠ [] ∧
    (if relative = true ∧ Covered (cString (m.translate unixCwd false)) (m.translate canonicalPath false) then
        (m.windowsParts unixCwd).count semicolon
      else 0) < (m.windowsParts canonicalPath).count semicolon

/-- A Windows path has a colon below the share, as it is or escaped, or there are more of them in
the mount point and below the source than in the directory that the path is made relative to. -/
def BringsColon (unixCwd path : Bytes) : Prop :=
  ∃ canonicalPath relative,
    m.dosToCanonicalPath unixCwd (canonicalise pathSepNt path) = some (canonicalPath, relative) ∧ canonicalPath ≠ [] ∧
      let found := utilFindMount m.system m.entries canonicalPath true
      if found.replacement = [] then
        ∃ rest, behindShare m.distributionName canonicalPath = some rest ∧
          (colon ∈ rest ∨ EscapeOf colon (canonicalise pathSep rest))
      else
        (if relative = true ∧ Covered unixCwd (m.translate canonicalPath true) then unixCwd.count colon else 0) <
          (found.replacement ++ canonicalPath.drop found.length).count colon

def BringsSeparator (isNtPathList : Bool) (path : Bytes) : Prop :=
  ∃ unixCwd ∈ m.cwd,
    if isNtPathList then utilIsAbsoluteWindowsPath path = true ∧ m.BringsColon unixCwd path
    else m.BringsSemicolon unixCwd path

end Machine

variable {separator : UInt8} {elements : List Bytes}

theorem foldl_appendPath (hne : ∀ element ∈ elements, element ≠ []) {list : Bytes} (hlist : list ≠ []) :
    elements.foldl (appendPath separator) list = List.intercalate [separator] (list :: elements) := by
  induction elements generalizing list with
  | nil => simp
  | cons element elements ih =>
    obtain ⟨hfirst, htail⟩ := forall_mem_cons.mp hne
    have happ : appendPath separator list element ≠ [] := by
      rw [appendPath, if_neg hlist]
      simp
    rw [foldl_cons, ih htail happ, appendPath, if_neg hlist]
    cases elements with
    | nil => simp
    | cons next elements => simp

theorem foldl_appendPath_nil (hne : ∀ element ∈ elements, element ≠ []) :
    elements.foldl (appendPath separator) [] = List.intercalate [separator] elements := by
  cases elements with
  | nil => rfl
  | cons element elements =>
    obtain ⟨hfirst, htail⟩ := forall_mem_cons.mp hne
    rw [foldl_cons, appendPath, if_pos rfl, foldl_appendPath htail hfirst]

theorem splitOn_intercalate_iff (separator : UInt8) (h : elements ≠ []) :
    (List.intercalate [separator] elements).splitOn separator = elements ↔
      ∀ element ∈ elements, separator ∉ element := by
  constructor
  · intro hsplit element helement
    rw [← hsplit] at helement
    exact (mem_splitOn helement).1
  · intro hclean
    exact splitOn_intercalate separator hclean h

variable {c : UInt8}

theorem count_escapePathForNt (hascii : c.toNat < 0x80) (hsep : isSeparator c = false)
    (hlegal : escapeCharNeedsEscape c = false) (path : Bytes) :
    (escapePathForNt path).count c = path.count c := by
  have hnt : c ≠ pathSepNt := by
    rintro rfl
    exact absurd hsep (by decide)
  have hunix : c ≠ pathSep := by
    rintro rfl
    exact absurd hsep (by decide)
  have hone : ∀ b, (escapeChar b).count c = if b = c then 1 else 0 := by
    intro b
    by_cases hb : b = c
    · subst hb
      rw [escapeChar, if_neg hunix, if_pos hlegal, if_pos rfl]
      simp
    · rw [if_neg hb, count_eq_zero]
      intro hmem
      rcases mem_escapeChar hmem with ⟨rfl, -, -⟩ | ⟨heq, -⟩ | hhigh
      · exact hb rfl
      · exact hnt heq
      · omega
  induction path with
  | nil => rfl
  | cons b path ih =>
    rw [escapePathForNt] at ih ⊢
    rw [flatMap_cons, count_append, ih, hone, count_cons]
    simp only [beq_iff_eq]
    omega

theorem isEscaped_spec {b0 b1 b2 : UInt8} (h : isEscaped b0 b1 b2 = true) :
    b0 = 0xef ∧ 0x80 ≤ b1.toNat ∧ 0x80 ≤ b2.toNat ∧ escapeCharNeedsEscape (unescapeChar b1 b2) = true := by
  have hhigh : ∀ b : UInt8, (b &&& 0x80 != 0) = true → 0x80 ≤ b.toNat := by
    intro b hb
    by_contra hlow
    have hdiv : (b.toNat &&& 0x80) / 2 ^ 7 = 0 := by
      rw [Nat.and_div_two_pow, Nat.div_eq_of_lt (by omega), Nat.zero_and]
    have hmod : (b.toNat &&& 0x80) % 2 ^ 7 = 0 := by
      rw [Nat.and_mod_two_pow]
      exact Nat.and_zero _
    have hzero : b.toNat &&& 0x80 = 0 := by omega
    rw [bne_iff_ne] at hb
    exact hb (UInt8.toNat_inj.mp hzero)
  unfold isEscaped at h
  simp only [Bool.and_eq_true, beq_iff_eq] at h
  obtain ⟨⟨⟨hlead, h1⟩, h2⟩, hneeds⟩ := h
  exact ⟨hlead, hhigh b1 h1, hhigh b2 h2, hneeds⟩

theorem isEscaped_ne_lead {b0 b1 b2 : UInt8} (h : isEscaped b0 b1 b2 = true) : b1 ≠ 0xef ∧ b2 ≠ 0xef := by
  obtain ⟨-, -, -, hneeds⟩ := isEscaped_spec h
  have hvalue := toNat_unescapeChar b1 b2
  constructor
  · rintro rfl
    have hlow := needsEscape_lt hneeds
    rw [hvalue] at hlow
    exact absurd (Nat.le_add_right _ _ |>.trans_lt hlow) (by decide)
  · rintro rfl
    have hlow := needsEscape_lt hneeds
    -- it would be a slash or the letter o, and neither is escaped
    have hkind : (unescapeChar b1 0xef) = 0x2f ∨ (unescapeChar b1 0xef) = 0x6f := by
      have hlast : (0xef : UInt8).toNat % 64 = 0x2f := rfl
      rw [hlast] at hvalue
      rw [hvalue] at hlow
      have hcases : b1.toNat % 4 = 0 ∨ b1.toNat % 4 = 1 := by omega
      rcases hcases with hb1 | hb1
      · left
        apply UInt8.toNat_inj.mp
        rw [hvalue, hb1]
        rfl
      · right
        apply UInt8.toNat_inj.mp
        rw [hvalue, hb1]
        rfl
    rcases hkind with hkind | hkind
    · rw [hkind] at hneeds
      exact absurd hneeds (by decide)
    · rw [hkind] at hneeds
      exact absurd hneeds (by decide)

theorem EscapeOf.mono {part path : Bytes} (h : EscapeOf c part) (hpart : part <:+: path) : EscapeOf c path := by
  obtain ⟨b0, b1, b2, hinfix, hesc⟩ := h
  exact ⟨b0, b1, b2, hinfix.trans hpart, hesc⟩

theorem escapeOf_cons_iff (c b : UInt8) (path : Bytes) :
    EscapeOf c (b :: path) ↔
      (∃ b1 b2 after, path = b1 :: b2 :: after ∧ isEscaped b b1 b2 = true ∧ unescapeChar b1 b2 = c) ∨
        EscapeOf c path := by
  constructor
  · rintro ⟨b0, b1, b2, hinfix, hesc, heq⟩
    rcases infix_cons_iff.mp hinfix with hstart | hinfix
    · obtain ⟨after, hafter⟩ := hstart
      obtain ⟨rfl, rfl⟩ := List.cons.inj hafter
      exact .inl ⟨b1, b2, after, rfl, hesc, heq⟩
    · exact .inr ⟨b0, b1, b2, hinfix, hesc, heq⟩
  · rintro (⟨b1, b2, after, rfl, hesc, heq⟩ | h)
    · exact ⟨b, b1, b2, ⟨[], after, rfl⟩, hesc, heq⟩
    · exact h.mono (infix_cons infix_rfl)

theorem EscapeOf.of_append {first second : Bytes} (h : EscapeOf c (first ++ 0 :: second)) :
    EscapeOf c first ∨ EscapeOf c second := by
  induction first with
  | nil =>
    rcases (escapeOf_cons_iff c 0 second).mp h with ⟨b1, b2, after, -, hesc, -⟩ | h
    · exact absurd (isEscaped_spec hesc).1 (by decide)
    · exact .inr h
  | cons b first ih =>
    rcases (escapeOf_cons_iff c b (first ++ 0 :: second)).mp h with ⟨b1, b2, after, heq, hesc, hvalue⟩ | h
    · left
      obtain ⟨hb1, hb2⟩ := isEscaped_ne_zero hesc
      rcases first with _ | ⟨c1, _ | ⟨c2, first⟩⟩
      · exact absurd (List.cons.inj heq).1.symm hb1
      · obtain ⟨-, heq⟩ := List.cons.inj heq
        exact absurd (List.cons.inj heq).1.symm hb2
      · simp only [cons_append, List.cons.injEq] at heq
        obtain ⟨rfl, rfl, -⟩ := heq
        exact ⟨b, c1, c2, ⟨[], first, rfl⟩, hesc, hvalue⟩
    · exact (ih h).imp_left fun h => h.mono (infix_cons infix_rfl)

theorem unescapeStep_kept {c b0 : UInt8} (hc : c ≠ 0) (rest : Bytes) :
    (c ∈ (unescapeStep b0 rest).2 → c ∈ rest) ∧ (EscapeOf c (unescapeStep b0 rest).2 → EscapeOf c rest) := by
  unfold unescapeStep
  split
  case h_2 => exact ⟨id, id⟩
  case h_1 b1 b2 remaining =>
    split
    case isFalse => exact ⟨id, id⟩
    case isTrue =>
      have hpart : cString remaining <:+: b1 :: b2 :: remaining :=
        ( takeWhile_prefix _).isInfix.trans ⟨[b1, b2], [], by simp⟩
      simp only [Window.overwrite, take_zero, nil_append, append_assoc, singleton_append]
      constructor
      · intro hmem
        rcases mem_append.mp hmem with hmem | hmem
        · exact hpart.subset hmem
        · rcases mem_cons.mp hmem with hzero | hmem
          · exact absurd hzero hc
          · exact mem_of_mem_drop hmem
      · intro hescape
        rcases hescape.of_append with hescape | hescape
        · exact hescape.mono hpart
        · exact hescape.mono (drop_suffix _ _).isInfix

theorem mem_unescapeFrom (hc : c ≠ 0) (count : Nat) {buffer : Bytes}
    (h : c ∈ unescapeFrom count buffer) : c ∈ buffer ∨ EscapeOf c buffer := by
  induction count generalizing buffer with
  | zero => exact .inl h
  | succ count ih =>
    cases buffer with
    | nil => exact .inl h
    | cons b0 rest =>
      rw [unescapeFrom] at h
      split at h
      · exact .inl h
      rw [mem_cons, escapeOf_cons_iff]
      rcases mem_cons.mp h with hfirst | h
      · unfold unescapeStep at hfirst
        split at hfirst
        case h_2 => exact .inl (.inl hfirst)
        case h_1 b1 b2 remaining =>
          split at hfirst
          case isFalse => exact .inl (.inl hfirst)
          case isTrue hesc => exact .inr (.inl ⟨b1, b2, remaining, rfl, hesc, hfirst.symm⟩)
      · obtain ⟨hmem, hescape⟩ := @unescapeStep_kept c b0 hc rest
        rcases ih h with h | h
        · exact .inl (.inr (hmem h))
        · exact .inr (.inr (hescape h))

/-- A character of ASCII stays in its buffer when the text is unescaped, and so does one that
was escaped, in front of the NUL. -/
theorem mem_unescape_of (hascii : c.toNat < 0x80) (count : Nat) {text : Bytes} (hzero : 0 ∉ text)
    (hcount : text.length ≤ count) (extra : Bytes) (h : c ∈ text ∨ EscapeOf c text) :
    c ∈ (unescapeFrom count (text ++ 0 :: extra)).take text.length := by
  induction count generalizing text extra with
  | zero =>
    have hnil := eq_nil_of_length_eq_zero (Nat.le_zero.mp hcount)
    subst hnil
    rcases h with h | ⟨b0, b1, b2, hinfix, -⟩
    · exact absurd h not_mem_nil
    · exact absurd hinfix.length_le (by simp)
  | succ count ih =>
    cases text with
    | nil =>
      rcases h with h | ⟨b0, b1, b2, hinfix, -⟩
      · exact absurd h not_mem_nil
      · exact absurd hinfix.length_le (by simp)
    | cons b text =>
      rw [mem_cons, not_or] at hzero
      rw [length_cons] at hcount
      rw [mem_cons, escapeOf_cons_iff] at h
      rw [cons_append, unescapeFrom, if_neg (Ne.symm hzero.1), length_cons, take_succ_cons,
        mem_cons]
      rcases unescapeStep_cases b hzero.2 extra with ⟨hstep, hno⟩ | ⟨b1, b2, after, extra', rfl, hesc, hstep⟩
      · rw [hstep]
        rcases h with (h | h) | ⟨b1, b2, after, htext, hesc, -⟩ | h
        · exact .inl h
        · exact .inr (ih hzero.2 (by omega) extra (.inl h))
        · exact absurd ⟨b1, b2, after, htext, hesc⟩ hno
        · exact .inr (ih hzero.2 (by omega) extra (.inr h))
      · rw [hstep]
        have hafter : 0 ∉ after := fun h => hzero.2 (mem_cons_of_mem _ (mem_cons_of_mem _ h))
        obtain ⟨rfl, hb1, hb2, -⟩ := isEscaped_spec hesc
        obtain ⟨hlead1, hlead2⟩ := isEscaped_ne_lead hesc
        have hrest (hmem : c ∈ after ∨ EscapeOf c after) :
            c ∈ (unescapeFrom count (after ++ 0 :: extra')).take (b1 :: b2 :: after).length := by
          rw [length_cons, length_cons] at hcount ⊢
          exact take_subset_take_left _ (by omega) (ih hafter (by omega) extra' hmem)
        rcases h with (rfl | h) | ⟨c1, c2, rest, heq, -, hvalue⟩ | h
        · exact absurd hascii (by decide)
        · simp only [mem_cons] at h
          rcases h with rfl | rfl | h
          · omega
          · omega
          · exact .inr (hrest (.inl h))
        · simp only [List.cons.injEq] at heq
          obtain ⟨rfl, rfl, -⟩ := heq
          exact .inl hvalue.symm
        · -- the bytes of the unescaped character are no lead bytes
          rw [escapeOf_cons_iff, escapeOf_cons_iff] at h
          rcases h with ⟨c1, c2, rest, -, hother, -⟩ | ⟨c1, c2, rest, -, hother, -⟩ | h
          · exact absurd (isEscaped_spec hother).1 hlead1
          · exact absurd (isEscaped_spec hother).1 hlead2
          · exact .inr (hrest (.inr h))

/-- A character of ASCII is in a path of the share that is translated exactly when it is in the
path or escaped there. -/
theorem mem_fromShare_iff (hascii : c.toNat < 0x80) (hnul : c ≠ 0) (hc : isSeparator c = false)
    {rest : Bytes} (hsingle : Single pathSepNt rest) (hsep : pathSep ∉ rest) (hzero : 0 ∉ rest) :
    c ∈ fromShare rest ↔ c ∈ rest ∨ EscapeOf c (canonicalise pathSep rest) := by
  obtain ⟨hlen, hclean, hbuf⟩ :=
    canonicalise_kept pathSep rfl (by decide) separator_kinds hsingle hsep hzero
  rw [← @mem_canonicalise_iff c pathSep rfl hc rest, fromShare]
  split
  case isTrue hnil =>
    have hrest := eq_nil_of_length_eq_zero hnil
    subst hrest
    apply iff_of_false
    · rw [mem_singleton]
      rintro rfl
      exact absurd hc (by decide)
    · rintro (h | ⟨b0, b1, b2, hinfix, -⟩)
      · exact absurd h not_mem_nil
      · exact absurd hinfix.length_le (by simp [canonicalise])
  case isFalse =>
    rw [editData, hbuf, ← hlen, unescapePathInplace]
    constructor
    · intro h
      rcases mem_unescapeFrom hnul _ (mem_of_mem_take h) with h | h
      · rcases mem_append.mp h with h | h
        · exact .inl h
        · exact absurd (mem_singleton.mp h) hnul
      · rcases h.of_append with h | ⟨b0, b1, b2, hinfix, -⟩
        · exact .inr h
        · exact absurd hinfix.length_le (by simp)
    · intro h
      exact mem_unescape_of hascii _ hclean (by rw [length_append]; omega) [] h

theorem length_canonicalise_le (separator : UInt8) (path : Bytes) :
    (canonicalise separator path).length ≤ path.length := by
  suffices h : ∀ dest, (path.foldl (canonicaliseStep separator) dest).length ≤ dest.length + path.length by
    have hempty := h []
    rwa [length_nil, Nat.zero_add] at hempty
  induction path with
  | nil => exact fun dest => Nat.le_refl _
  | cons b path ih =>
    intro dest
    have hstep : (canonicaliseStep separator dest b).length ≤ dest.length + 1 := by
      unfold canonicaliseStep
      split
      · split
        · omega
        · simp
      · simp
    have hrest := ih (canonicaliseStep separator dest b)
    rw [foldl_cons, length_cons]
    omega

theorem cString_append_editData (hnul : separator ≠ 0) {start path : Bytes} (hstart : 0 ∉ start)
    (hzero : 0 ∉ path) :
    cString (start ++ editData (utilCanonicalisePathSeparator separator) path) =
      start ++ canonicalise separator path := by
  have hle := length_canonicalise_le separator path
  have hclean : 0 ∉ start ++ canonicalise separator path := by
    rw [mem_append, not_or]
    exact ⟨hstart, zero_not_mem_canonicalise hnul hzero⟩
  obtain ⟨rest, hbuf⟩ : ∃ rest, utilCanonicalisePathSeparator separator (path ++ [0]) =
      canonicalise separator path ++ 0 :: rest := by
    refine ⟨(path ++ [0]).drop ((canonicalise separator path).length + 1), ?_⟩
    rw [utilCanonicalisePathSeparator, cString_append_zero hzero, Window.overwrite]
    simp
  rw [editData, hbuf, take_append, take_of_length_le hle, ← append_assoc]
  cases path.length - (canonicalise separator path).length with
  | zero =>
    rw [take_zero, append_nil]
    exact cString_of_not_mem hclean
  | succ n =>
    rw [take_succ_cons]
    exact cString_append_zero hclean _

theorem count_replaceStart {replacement suffix : Bytes} (hrepl : 0 ∉ replacement) (hzero : 0 ∉ suffix) :
    (cString (replaceStart replacement suffix false)).count semicolon =
    (replacement ++ suffix).count semicolon := by
  rcases replaceStart_cases replacement suffix with ⟨rfl, heq⟩ | heq | ⟨-, heq⟩
  · have hclean : 0 ∉ replacement ++ [pathSepNt] := by
      rw [mem_append, not_or]
      exact ⟨hrepl, by decide⟩
    rw [heq, cString_of_not_mem hclean, count_append, count_append]
    rfl
  · have hclean : 0 ∉ replacement ++ escapePathForNt suffix := by
      rw [mem_append, not_or]
      exact ⟨hrepl, zero_not_mem_escape hzero⟩
    rw [heq, cString_of_not_mem hclean, count_append, count_append,
      count_escapePathForNt (by decide) rfl rfl]
  · rw [heq, cString_append_editData (by decide) hrepl hzero, count_append, count_append,
      count_canonicalise rfl rfl]

namespace Machine

variable (m : Machine)

theorem count_translate {path : Bytes} (hzero : 0 ∉ path) :
    (cString (m.translate path false)).count semicolon = (m.windowsParts path).count semicolon := by
  unfold translate utilWinPathTranslate windowsParts
  simp only
  split
  · rw [utilWinPathTranslateInternal]
    split
    · rfl
    · have hclean : 0 ∉ plan9Rdr ++ m.distributionName ++ escapePathForNt path := by
        simp only [mem_append, not_or]
        exact ⟨⟨by decide, m.named⟩, zero_not_mem_escape hzero⟩
      rw [if_pos rfl, ← length_escapePathForNt, overwrite_replicate, cString_of_not_mem hclean, append_assoc,
        count_append, count_append, count_append, count_escapePathForNt (by decide) rfl rfl]
      have hshare : plan9Rdr.count semicolon = 0 := by decide
      rw [hshare, Nat.zero_add]
  · apply count_replaceStart (m.zero_not_mem_replacement path false)
    exact fun h => hzero (mem_of_mem_drop h)

end Machine

theorem head_of_behindShare {distributionName path rest : Bytes}
    (h : behindShare distributionName path = some rest) :
    path.head? = some pathSepNt := by
  have hlower : ∀ a : UInt8, toLower a = pathSepNt → a = pathSepNt := by
    intro a ha
    unfold toLower at ha
    split at ha
    case isTrue hletter =>
      have hcharacter : a = 0x3c := by
        rw [← UInt8.add_sub_cancel a 0x20, ha]
        rfl
      rw [hcharacter] at hletter
      exact absurd hletter (by decide)
    case isFalse => exact ha
  have hstart : ∀ share : Bytes, matchesShare path (pathSepNt :: share) = true → path.head? = some pathSepNt := by
    intro share hmatch
    rw [matchesShare, Bool.and_eq_true] at hmatch
    cases path with
    | nil => exact absurd hmatch.1 (by simp [startsWith])
    | cons a path =>
      rw [startsWith_cons, Bool.and_eq_true, sameChar, if_pos rfl, beq_iff_eq] at hmatch
      rw [head?_cons, hlower a hmatch.1.1]
  unfold behindShare at h
  split at h
  · exact absurd h.symm (some_ne_none _)
  split at h
  case isTrue hmatch => exact hstart _ hmatch
  split at h
  case isTrue hmatch => exact hstart _ hmatch
  · exact absurd h.symm (some_ne_none _)

namespace Machine

variable (m : Machine)

variable {path : Bytes}

theorem semicolon_mem_wslPathTranslate_iff (hzero : 0 ∉ path) :
    semicolon ∈ m.wslPathTranslate path false ↔ ∃ unixCwd ∈ m.cwd, m.BringsSemicolon unixCwd path := by
  unfold wslPathTranslate BringsSemicolon
  cases hcwd : m.cwd with
  | none => simp
  | some unixCwd =>
    have hunix : 0 ∉ unixCwd := m.located unixCwd hcwd
    simp only [Bool.false_eq_true, if_false, mem_def, Option.some.injEq, exists_eq_left']
    cases habs : absolutePath unixCwd path with
    | none => simp
    | some result =>
      obtain ⟨canonicalPath, relative⟩ := result
      obtain ⟨hsingle, hclean⟩ := absolutePath_tidy hunix hzero habs
      have hcwdCount := m.count_translate hunix
      have hcount := m.count_translate hclean
      rw [cString_of_not_mem (m.zero_not_mem_translate hsingle hclean)] at hcount
      simp only [Option.some.injEq, Prod.mk.injEq, and_assoc, exists_and_left, exists_eq_left']
      by_cases hnil : canonicalPath = []
      · rw [if_pos hnil]
        exact iff_of_false not_mem_nil fun h => h.1 hnil
      · rw [if_neg hnil, and_iff_right hnil, ← hcount, ← hcwdCount]
        by_cases hrelative : relative = true ∧ m.translate unixCwd false ≠ []
        · rw [if_pos hrelative, mem_relativise_iff rfl (by decide)]
          simp only [hrelative.1, true_and]
        · -- the path stays as it is: no relative path is left, or a directory without a name
          have hcut : (if relative = true ∧
                Covered (cString (m.translate unixCwd false)) (m.translate canonicalPath false) then
              (cString (m.translate unixCwd false)).count semicolon else 0) = 0 := by
            split
            case isTrue hcov =>
              have hempty : m.translate unixCwd false = [] := by
                by_contra hne
                exact hrelative ⟨hcov.1, hne⟩
              rw [hempty]
              rfl
            case isFalse => rfl
          rw [if_neg hrelative, hcut, count_pos_iff]

theorem colon_mem_share_iff (hsingle : Single pathSepNt (path.drop 1)) (hsep : pathSep ∉ path)
    (hzero : 0 ∉ path) (hfound : (utilFindMount m.system m.entries path true).replacement = []) :
    colon ∈ m.translate path true ↔
      ∃ rest, behindShare m.distributionName path = some rest ∧
        (colon ∈ rest ∨ EscapeOf colon (canonicalise pathSep rest)) := by
  rw [m.translate_share hfound]
  cases hshare : behindShare m.distributionName path with
  | none => simp
  | some rest =>
    obtain ⟨n, hn, rfl⟩ := behindShare_drop hshare
    rw [map_some, getD_some, mem_fromShare_iff (by decide) (by decide) rfl (hsingle.drop_of_pos hn)
      (fun h => hsep (mem_of_mem_drop h)) (fun h => hzero (mem_of_mem_drop h))]
    simp only [Option.some.injEq, exists_eq_left']

theorem head_of_relative {path unixCwd canonicalPath : Bytes}
    (habs : utilIsAbsoluteWindowsPath path = true)
    (h : m.dosToCanonicalPath unixCwd (canonicalise pathSepNt path) = some (canonicalPath, true)) :
    canonicalPath.head? ≠ some pathSepNt := by
  rcases m.dosToCanonicalPath_cases habs h with ⟨hfalse, -⟩ | ⟨drive, halpha, hcoll⟩
  · cases hfalse
  · have hback := (isAlpha_plain halpha).2.2
    unfold collapseWindowsPath at hcoll
    split at hcoll
    · exact absurd hcoll.symm (some_ne_none _)
    split at hcoll
    · apply (collapsePath_single hcoll).2.2
      intro heq
      exact hback (Option.some.inj heq)
    split at hcoll
    case isTrue hunc => exact absurd hunc.1 hback
    case isFalse => exact absurd hcoll.symm (some_ne_none _)

theorem colon_mem_wslPathTranslate_iff (hzero : 0 ∉ path) (habs : utilIsAbsoluteWindowsPath path = true) :
    colon ∈ m.wslPathTranslate path true ↔ ∃ unixCwd ∈ m.cwd, m.BringsColon unixCwd path := by
  unfold wslPathTranslate BringsColon
  cases hcwd : m.cwd with
  | none => simp
  | some unixCwd =>
    simp only [if_true, mem_def, Option.some.injEq, exists_eq_left']
    cases hcanonical : m.dosToCanonicalPath unixCwd (canonicalise pathSepNt path) with
    | none => simp
    | some result =>
      obtain ⟨canonicalPath, relative⟩ := result
      obtain ⟨hsingle, hsep, hclean⟩ := m.dosToCanonicalPath_tidy hzero habs hcanonical
      simp only [Option.some.injEq, Prod.mk.injEq, and_assoc, exists_and_left, exists_eq_left']
      by_cases hnil : canonicalPath = []
      · rw [if_pos hnil]
        exact iff_of_false not_mem_nil fun h => h.1 hnil
      rw [if_neg hnil, and_iff_right hnil]
      by_cases hfound : (utilFindMount m.system m.entries canonicalPath true).replacement = []
      · rw [if_pos hfound, ← m.colon_mem_share_iff hsingle hsep hclean hfound]
        cases relative with
        | false => rfl
        | true =>
          -- a path on a drive is not in the share
          have hempty : m.translate canonicalPath true = [] := by
            rw [m.translate_share hfound]
            cases hshare : behindShare m.distributionName canonicalPath with
            | none => rfl
            | some rest => exact absurd (head_of_behindShare hshare) (m.head_of_relative habs hcanonical)
          rw [if_pos rfl, hempty, mem_relativise_iff rfl (by decide)]
          apply iff_of_false
          · exact Nat.not_lt_zero _
          · exact not_mem_nil
      · have hcount : (m.translate canonicalPath true).count colon =
            ((utilFindMount m.system m.entries canonicalPath true).replacement ++
              canonicalPath.drop (utilFindMount m.system m.entries canonicalPath true).length).count colon := by
          rw [m.translate_mount hsingle hsep hclean hfound, count_append, count_append,
            count_canonicalise rfl rfl]
        rw [if_neg hfound, ← hcount]
        cases relative with
        | false => simp
        | true =>
          simp only [true_and, if_true]
          exact mem_relativise_iff rfl (by decide) _ _

theorem brings_iff_mem (hzero : 0 ∉ path) {isNtPathList : Bool}
    (habsolute : ¬ (isNtPathList = true ∧ utilIsAbsoluteWindowsPath path = false)) :
    m.BringsSeparator isNtPathList path ↔
    targetSeparator isNtPathList ∈ m.wslPathTranslate path isNtPathList := by
  cases isNtPathList with
  | false => exact (m.semicolon_mem_wslPathTranslate_iff hzero).symm
  | true =>
    have habs : utilIsAbsoluteWindowsPath path = true := by simpa using habsolute
    have hiff := m.colon_mem_wslPathTranslate_iff hzero habs
    simp only [BringsSeparator, habs, if_true, true_and]
    exact hiff.symm

theorem separator_mem_translatedElements_iff {pathList : Bytes} (hzero : 0 ∉ pathList) (isNtPathList : Bool) :
    (∀ element ∈ m.translatedElements pathList isNtPathList, targetSeparator isNtPathList ∉ element) ↔
      ∀ path ∈ tokens (sourceSeparator isNtPathList) pathList, ¬ m.BringsSeparator isNtPathList path := by
  have hpath (path : Bytes) (h : path ∈ tokens (sourceSeparator isNtPathList) pathList) :
      (∀ element, m.translateElement isNtPathList path = some element → targetSeparator isNtPathList ∉ element) ↔
        ¬ m.BringsSeparator isNtPathList path := by
    have hclean := zero_not_mem_token hzero h
    unfold translateElement
    split
    case isTrue hskipped =>
      refine iff_of_true (fun element hnone => absurd hnone.symm (some_ne_none _)) ?_
      rintro ⟨unixCwd, -, hbrings⟩
      rw [if_pos hskipped.1, hskipped.2] at hbrings
      exact absurd hbrings.1 (by decide)
    case isFalse habs =>
      rw [m.brings_iff_mem hclean habs]
      split
      case isTrue hfail =>
        rw [hfail]
        exact iff_of_true (fun element hnone => absurd hnone.symm (some_ne_none _)) not_mem_nil
      case isFalse => simp
  constructor
  · intro h path hmem
    apply (hpath path hmem).mp
    intro element helement
    exact h element (mem_filterMap.mpr ⟨path, hmem, helement⟩)
  · intro h element helement
    obtain ⟨path, hmem, htrans⟩ := mem_filterMap.mp helement
    exact (hpath path hmem).mpr (h path hmem) element htrans

/-- The translated list splits at its separator into the translations of the elements that can be
translated exactly when none of them brings the separator. -/
theorem list_elements_iff {pathList : Bytes} (hzero : 0 ∉ pathList) (isNtPathList : Bool) :
    listElements (targetSeparator isNtPathList) (m.utilTranslatePathList pathList isNtPathList) =
        m.translatedElements pathList isNtPathList ↔
      ∀ path ∈ tokens (sourceSeparator isNtPathList) pathList, ¬ m.BringsSeparator isNtPathList path := by
  rw [← m.separator_mem_translatedElements_iff hzero, utilTranslatePathList_eq]
  split
  case isTrue hnil => simp [hnil, listElements]
  case isFalse hne =>
    rw [foldl_appendPath_nil (m.translatedElements_ne_nil pathList isNtPathList)]
    exact splitOn_intercalate_iff _ hne

end Machine

/-- The directories `/h` and `/r`. -/
def plainList : Bytes := utf8 ['/', 'h', ':', '/', 'r']

theorem list_elements_plain :
    listElements (targetSeparator false) (ubuntuMachine.utilTranslatePathList plainList false) =
        [plan9Rdr ++ ubuntu ++ utf8 ['\\', 'h'], plan9Rdr ++ ubuntu ++ utf8 ['\\', 'r']] ∧
      ∀ path ∈ tokens (sourceSeparator false) plainList, ¬ ubuntuMachine.BringsSeparator false path := by
  constructor
  · decide
  · exact (ubuntuMachine.list_elements_iff (show 0 ∉ plainList by decide) false).mp (by decide)

/-- The directory `/a;b`. -/
def semicolonList : Bytes := utf8 ['/', 'a', ';', 'b']

/-- The file `/a:b` in the share. -/
def colonList : Bytes := plan9Rdr ++ ubuntu ++ utf8 ['\\', 'a', Char.ofNat 0xf03a, 'b']

/-- One element becomes two, in both directions. -/
theorem list_elements_split :
    (listElements (targetSeparator false) (ubuntuMachine.utilTranslatePathList semicolonList false) ≠
        ubuntuMachine.translatedElements semicolonList false ∧
      ubuntuMachine.translatedElements semicolonList false =
    [plan9Rdr ++ ubuntu ++ utf8 ['\\', 'a', ';', 'b']] ∧
      listElements (targetSeparator false) (ubuntuMachine.utilTranslatePathList semicolonList false) =
        [plan9Rdr ++ ubuntu ++ utf8 ['\\', 'a'], utf8 ['b']]) ∧
    listElements (targetSeparator true) (ubuntuMachine.utilTranslatePathList colonList true) ≠
      ubuntuMachine.translatedElements colonList true ∧
    (ubuntuMachine.translatedElements colonList true).map cString = [utf8 ['/', 'a', ':', 'b']] ∧
    (listElements (targetSeparator true) (ubuntuMachine.utilTranslatePathList colonList true)).map cString =
      [utf8 ['/', 'a'], utf8 ['b']] := by
  decide

end WslPlus.Paths

import WslPlus.ConfigFile.OldValue

/-!
# Writing a setting twice

The first write replaces a value, goes before a header or goes to the end of the file;
the second one finds the setting that the first has left and replaces its value.
-/

namespace WslPlus.ConfigFile

open Bool List Reader

variable {k : ConfigKey} {r r' : Reader} {c d : WChar} {text before rest v : List WChar}
  {sect : List UInt8} {q e : Bool}

section Lines

theorem whole_of_no_eol (h : ∀ c ∈ text, c ≠ L '\r' ∧ isEol c = false) : r.whole text = true := by
  induction text generalizing r with
  | nil => rfl
  | cons c text ih =>
    obtain ⟨hcr, heol⟩ := h c mem_cons_self
    have hcut : r.cutOff c = false := by
      obtain ⟨sect, phase⟩ := r
      cases phase <;> simp [cutOff, heol]
    have hw : c ≠ weof := by
      rintro rfl
      exact absurd heol (by decide)
    simp [whole, hcr, hw, hcut, ih fun x hx => h x (mem_cons_of_mem _ hx)]

def Reader.past (k : ConfigKey) (r : Reader) : Prop :=
  match r.phase with
  | .valueSpace name => k.matches (cstr (r.qualify name)) = false
  | .value _ _ _ inQuote => inQuote = false
  | .comment => True
  | _ => False

theorem past_away (h : r.past k) (c : WChar) :
    r.atKey k c = false ∧ r.atHeader k c = false ∧ r.cutOff c = false ∧
      r.next (L '\n') = ⟨r.sect, .lineStart⟩ := by
  obtain ⟨sect, phase⟩ := r
  cases phase with
  | valueSpace name =>
    have hm : k.matches (cstr (qualify ⟨sect, .valueSpace name⟩ name)) = false := h
    exact ⟨by simp [atKey, hm], rfl, rfl, rfl⟩
  | value name kept blanks inQuote => exact ⟨rfl, rfl, rfl, rfl⟩
  | comment => exact ⟨rfl, rfl, rfl, rfl⟩
  | _ => exact absurd h (by simp [past])

theorem comment_run (sect : List UInt8) (hv : ∀ c ∈ v, isEol c = false) :
    Reader.after ⟨sect, .comment⟩ v = ⟨sect, .comment⟩ ∧ away k ⟨sect, .comment⟩ v ∧
      copied ⟨sect, .comment⟩ v = v := by
  induction v with
  | nil => exact ⟨rfl, trivial, rfl⟩
  | cons c v ih =>
    have hn : Reader.next ⟨sect, .comment⟩ c = ⟨sect, .comment⟩ := by
      simp [Reader.next, hv c mem_cons_self]
    obtain ⟨h1, h2, h3⟩ := ih fun x hx => hv x (mem_cons_of_mem _ hx)
    have hq : quotedHash ⟨sect, .comment⟩ c = false := rfl
    refine ⟨by rw [after_cons, hn, h1], ⟨rfl, rfl, by rw [hn]; exact h2⟩, ?_⟩
    rw [copied, hn, h3, hq]
    rfl

theorem nextValue_not_space {name kept blanks : List UInt8} (n : List UInt8) :
    (r.nextValue name kept blanks q c).phase ≠ .valueSpace n := by
  unfold nextValue
  split_ifs <;> simp

theorem InValueOf.of_space (h : InValueOf r q e) {n : List UInt8}
    (hn : (r.next c).phase = .valueSpace n) : r.next c = r := by
  obtain ⟨sect, phase⟩ := r
  obtain ⟨name, ⟨-, ⟨rfl, -⟩ | ⟨kp, b, rfl⟩⟩ | ⟨-, w, rfl⟩⟩ := h
  · by_cases hsp : isHSpace c = true
    · simp [Reader.next, hsp]
    · simp only [Reader.next, if_neg hsp] at hn
      exact absurd hn (nextValue_not_space n)
  · exact absurd hn (nextValue_not_space n)
  · simp only [Reader.next] at hn
    split at hn <;> cases hn

def Reader.otherValue (k : ConfigKey) (r : Reader) : Prop :=
  ∀ name, r.phase = .valueSpace name → k.matches (cstr (r.qualify name)) = false

theorem InValueOf.otherValue (h : InValueOf r q e) (hm : r.otherValue k) :
    (r.next c).otherValue k ∧ r.atKey k c = false ∧ r.atHeader k c = false := by
  refine ⟨?_, ?_⟩
  · intro n hn
    have hsame := h.of_space hn
    rw [hsame] at hn ⊢
    exact hm n hn
  · obtain ⟨sect, phase⟩ := r
    obtain ⟨name, ⟨-, ⟨rfl, -⟩ | ⟨kp, b, rfl⟩⟩ | ⟨-, w, rfl⟩⟩ := h
    · have hname : k.matches (cstr (qualify ⟨sect, .valueSpace name⟩ name)) = false := hm name rfl
      exact ⟨by simp [atKey, hname], rfl⟩
    · exact ⟨rfl, rfl⟩
    · exact ⟨rfl, rfl⟩

theorem value_run (h : InValueOf r q e) (hm : r.otherValue k) (hc : closes q e v = true)
    (hv : ∀ c ∈ v, isEol c = false) : r.away k v ∧ (r.after v).past k ∧ (r.after v).sect = r.sect := by
  induction v generalizing r q e with
  | nil =>
    simp only [closes, and_eq_true, not_eq_true'] at hc
    obtain ⟨rfl, rfl⟩ := hc
    obtain ⟨sect, phase⟩ := r
    obtain ⟨name, ⟨-, ⟨rfl, -⟩ | ⟨kp, b, rfl⟩⟩ | ⟨hf, -⟩⟩ := h
    · exact ⟨trivial, hm name rfl, rfl⟩
    · exact ⟨trivial, rfl, rfl⟩
    · cases hf
  | cons c v ih =>
    have heol := hv c mem_cons_self
    have hrest : ∀ x ∈ v, isEol x = false := fun x hx => hv x (mem_cons_of_mem _ hx)
    obtain ⟨hm', hkey, hheader⟩ := h.otherValue (c := c) hm
    -- the rest of the run, from the state after this character
    have hstep : ∀ q' e', InValueOf (r.next c) q' e' → (r.next c).sect = r.sect →
        closes q' e' v = true →
        r.away k (c :: v) ∧ (r.after (c :: v)).past k ∧ (r.after (c :: v)).sect = r.sect := by
      intro q' e' hin hsect hclose
      obtain ⟨h1, h2, h3⟩ := ih hin hm' hclose hrest
      exact ⟨⟨hkey, hheader, h1⟩, h2, h3.trans hsect⟩
    rw [closes] at hc
    cases e with
    | true =>
      rw [if_pos rfl, and_eq_true] at hc
      have hj : r.jumps c = false := by
        obtain ⟨sect, phase⟩ := r
        obtain ⟨name, ⟨hf, -⟩ | ⟨-, w, rfl⟩⟩ := h
        · cases hf
        · simpa [jumps] using hc.1
      obtain ⟨hin, hsect, -⟩ := h.escaped hj
      exact hstep q false hin hsect hc.2
    | false =>
      rw [if_neg (by simp)] at hc
      by_cases hh : c = L '#' ∧ !q
      · have hnext := h.ended (.inr hh)
        rw [if_pos hh.1] at hnext
        obtain ⟨h1, h2, -⟩ := comment_run (k := k) r.sect hrest
        rw [away, after_cons, hnext, h1]
        exact ⟨⟨hkey, hheader, h2⟩, trivial, rfl⟩
      · obtain ⟨hsect, hin⟩ := h.plain heol hh
        refine hstep _ _ hin hsect ?_
        by_cases hq : c = L '"'
        · subst hq
          have hne : (L '"' == L '\\') = false := by decide
          simpa [hne] using hc
        by_cases hs : c = L '\\'
        · subst hs
          simpa [hq] using hc
        · have hs' : (c == L '\\') = false := by simpa using hs
          rw [if_neg hq, if_neg hs, if_neg hh] at hc
          simpa [hq, hs'] using hc

end Lines

section Leads

/-- The text is copied as it is, holds no value of the key, and ends where the reader is. -/
structure Arrives (k : ConfigKey) (lead : List WChar) (r : Reader) : Prop where
  stays : Stays start lead
  away : start.away k lead
  reader : start.after lead = r

theorem Arrives.append {t u : List WChar} (h : Arrives k t r) (hs : Stays r u) (ha : r.away k u) :
    Arrives k (t ++ u) (r.after u) := by
  obtain ⟨h1, h2, rfl⟩ := h
  exact ⟨h1.append hs, (away_append start t u).mpr ⟨h2, ha⟩, after_append start t u⟩

theorem Arrives.of_append {t u : List WChar} (h : Arrives k (t ++ u) r) :
    Arrives k t (start.after t) ∧ Stays (start.after t) u ∧ (start.after t).away k u := by
  obtain ⟨h1, h2⟩ := h.stays.of_append
  obtain ⟨h3, h4⟩ := (away_append start t u).mp h.away
  exact ⟨⟨h1, h3, rfl⟩, h2, h4⟩

theorem arrives_copied {place : Place} (hp : start.place k text = (place, before, rest))
    (hw : start.whole before = true) : Arrives k (start.copied before) (start.after (start.copied before)) := by
  obtain ⟨-, ha, -⟩ := place_spec hp
  exact ⟨stays_copied (.same start) hw, away_copied (.same start) ha, rfl⟩

theorem away_keyName (name : List UInt8) {key : List UInt8} (hk : ∀ b ∈ key, isalnum b.toUInt16 = true) :
    away k ⟨sect, .keyName name⟩ (widen key ++ [L '=']) := by
  induction key generalizing name with
  | nil => exact ⟨rfl, rfl, trivial⟩
  | cons b key ih =>
    have hn : Reader.next ⟨sect, .keyName name⟩ b.toUInt16 = ⟨sect, .keyName (name ++ [b])⟩ := by
      simp [Reader.next, hk b mem_cons_self]
    refine ⟨rfl, rfl, ?_⟩
    rw [hn]
    exact ih (name ++ [b]) fun x hx => hk x (mem_cons_of_mem _ hx)

theorem away_sectionName (sect name : List UInt8) {more : List UInt8}
    (hs : ∀ b ∈ more, isalnum b.toUInt16 = true) :
    away k ⟨sect, .sectionName name⟩ (widen more ++ [L ']', L '\n']) ∧
      whole ⟨sect, .sectionName name⟩ (widen more ++ [L ']', L '\n']) = true := by
  induction more generalizing name with
  | nil => exact ⟨⟨rfl, rfl, rfl, rfl, trivial⟩, rfl⟩
  | cons b more ih =>
    have hb := hs b mem_cons_self
    have hn : Reader.next ⟨sect, .sectionName name⟩ b.toUInt16 = ⟨sect, .sectionName (name ++ [b])⟩ := by
      simp [Reader.next, hb]
    have hcr : b.toUInt16 ≠ L '\r' := ne_of_test hb (by decide)
    have hw : b.toUInt16 ≠ weof := ne_of_test hb (by decide)
    have hcut : cutOff ⟨sect, .sectionName name⟩ b.toUInt16 = false := isEol_of_isalnum hb
    obtain ⟨h1, h2⟩ := ih (name ++ [b]) fun x hx => hs x (mem_cons_of_mem _ hx)
    have hcons : widen (b :: more) ++ [L ']', L '\n'] =
        b.toUInt16 :: (widen more ++ [L ']', L '\n']) := rfl
    rw [hcons, away, whole, hn, h2, hcut]
    exact ⟨⟨rfl, rfl, h1⟩, by simp [hcr, hw]⟩

theorem widen_plain {key : List UInt8} (hk : isIdent key = true) :
    ∀ c ∈ widen key ++ [L '='], c ≠ L '\r' ∧ isEol c = false ∧ isPlain c = true ∧ c ≠ L '#' := by
  intro c hc
  rcases mem_append.mp hc with hc | hc
  · have hd : ∀ d : WChar, isalnum d = false → c ≠ d := by
      rintro d hd rfl
      exact not_mem_widen hk hd hc
    have h1 := hd (L '\n') (by decide)
    have h2 := hd weof (by decide)
    have h3 := hd (L '#') (by decide)
    refine ⟨hd _ (by decide), by simp [isEol, h1, h2], ?_, h3⟩
    simp [isPlain, h1, h2, h3, hd (L '"') (by decide), hd (L '\\') (by decide)]
  · obtain rfl := mem_singleton.mp hc
    decide

theorem key_stays {key : List UInt8} (hk : isIdent key = true) : Stays r (widen key ++ [L '=']) := by
  have hplain := widen_plain hk
  exact stays_of_whole (whole_of_no_eol fun c hc => ⟨(hplain c hc).1, (hplain c hc).2.1⟩)
    fun h => (hplain _ h).2.2.2 rfl

variable {t : List WChar}

theorem Arrives.key {key : List UInt8} (h : Arrives k t ⟨sect, .lineStart⟩)
    (hk : isIdent key = true) : Arrives k (t ++ (widen key ++ [L '='])) ⟨sect, .valueSpace key⟩ := by
  have haway : Reader.away k ⟨sect, .lineStart⟩ (widen key ++ [L '=']) := by
    obtain ⟨b, bs, rfl, hb, hbs⟩ := isIdent_cons hk
    have hnum := isalnum_of_isalpha hb
    have hopen : b.toUInt16 ≠ L '[' := ne_of_test hnum (by decide)
    have hn : Reader.next ⟨sect, .lineStart⟩ b.toUInt16 = ⟨sect, .keyName [b]⟩ := by
      simp [Reader.next, isHSpace_of_isalnum hnum, isEol_of_isalnum hnum, hash_of_isalnum hnum, hopen, hb]
    refine ⟨rfl, by simp [atHeader, hopen], ?_⟩
    rw [hn]
    exact away_keyName [b] hbs
  have happ := h.append (key_stays hk) haway
  rw [(after_key sect hk).1] at happ
  exact happ

theorem arrives_insert {place : Place} (hp : start.place k text = (place, before, rest))
    (hw : start.whole before = true) (hphase : (start.after before).phase = .lineStart) :
    Arrives k (trimNewlines (start.copied before) ++ [L '\n'])
      (start.after (trimNewlines (start.copied before) ++ [L '\n'])) := by
  have hcopied := arrives_copied hp hw
  have hlike := (copied_like (.same start) before (unquoted_nothing start before)).1
  obtain ⟨n, hn⟩ := trimNewlines_append (start.copied before)
  cases n with
  | zero =>
    have heq : trimNewlines (start.copied before) = start.copied before := by simpa using hn.symm
    have hline : start.after (start.copied before) = ⟨(start.after before).sect, .lineStart⟩ := by
      rw [hlike.eq_of_phase (by simp [valueName, hphase]), ← hphase]
    rw [heq]
    rw [hline] at hcopied
    have happ := hcopied.append (u := [L '\n']) ⟨rfl, rfl⟩ ⟨rfl, rfl, trivial⟩
    rw [after_append, hline]
    exact happ
  | succ n =>
    rw [hn, replicate_succ, append_cons] at hcopied
    exact hcopied.of_append.1

theorem Arrives.header {name : List UInt8} (h : Arrives k t ⟨sect, .lineStart⟩)
    (hn : isIdent name = true) (hin : inSection k sect = false) :
    Arrives k (t ++ (L '[' :: widen name ++ [L ']', L '\n'])) ⟨name, .lineStart⟩ := by
  obtain ⟨b, bs, rfl, hb, hbs⟩ := isIdent_cons hn
  have hnum := isalnum_of_isalpha hb
  have hopen : Reader.next ⟨sect, .lineStart⟩ (L '[') = ⟨sect, .sectionFirst⟩ := rfl
  have hfirst : Reader.next ⟨sect, .sectionFirst⟩ b.toUInt16 = ⟨sect, .sectionName [b]⟩ := by
    simp [Reader.next, hb]
  obtain ⟨h1, h2⟩ := away_sectionName (k := k) sect [b] hbs
  have htext : L '[' :: widen (b :: bs) ++ [L ']', L '\n'] =
      L '[' :: b.toUInt16 :: (widen bs ++ [L ']', L '\n']) := rfl
  have haway : Reader.away k ⟨sect, .lineStart⟩ (L '[' :: widen (b :: bs) ++ [L ']', L '\n']) := by
    rw [htext, Reader.away, hopen, Reader.away, hfirst]
    exact ⟨rfl, by simp [atHeader, hin], rfl, rfl, h1⟩
  have hstays : Stays ⟨sect, .lineStart⟩ (L '[' :: widen (b :: bs) ++ [L ']', L '\n']) := by
    apply stays_of_whole
    · have hcr : b.toUInt16 ≠ L '\r' := ne_of_test hnum (by decide)
      have hw : b.toUInt16 ≠ weof := ne_of_test hnum (by decide)
      have hcut : cutOff ⟨sect, .sectionFirst⟩ b.toUInt16 = false := isEol_of_isalnum hnum
      have hne : L '[' ≠ L '\r' ∧ L '[' ≠ weof := by decide
      have hcut' : cutOff ⟨sect, .lineStart⟩ (L '[') = false := rfl
      rw [htext, Reader.whole, hopen, Reader.whole, hfirst, h2, hcut, hcut']
      simp [hcr, hw, hne]
    · have hne : L '#' ≠ L '[' ∧ L '#' ≠ L ']' ∧ L '#' ≠ L '\n' := by decide
      simp [hne, not_mem_widen hn (by decide : isalnum (L '#') = false)]
  have happ := h.append hstays haway
  rw [(after_header sect hn).1] at happ
  exact happ

theorem atKey_of_blank (hc : isHSpace c = false) : r.atKey k c = r.atKey k weof := by
  have heof : isHSpace weof = false := by decide
  obtain ⟨sect, phase⟩ := r
  cases phase <;> simp [atKey, hc, heof]

theorem Arrives.newline (h : Arrives k t r) (hk : r.atKey k weof = false)
    (hcut : r.cutOff weof = false) (hesc : r.inEscape = false) :
    Arrives k (t ++ [L '\n']) ⟨(r.next weof).sect, .lineStart⟩ := by
  have hkey : r.atKey k (L '\n') = false := by rw [atKey_of_blank (by decide), hk]
  have hheader : r.atHeader k (L '\n') = false := by
    have hne : (L '\n' == L '[') = false := by decide
    simp [atHeader, hne]
  have hcut' : r.cutOff (L '\n') = false := by
    have heol : isEol (L '\n') = isEol weof := by decide
    obtain ⟨sect, phase⟩ := r
    cases phase with
    | sectionFirst => exact hcut
    | sectionName name => exact hcut
    | keyName name => exact hcut
    | keySpace name => exact hcut
    | _ => rfl
  have hstays : Stays r [L '\n'] := by
    have hne : L '\n' ≠ L '\r' ∧ L '\n' ≠ weof := by decide
    apply stays_of_whole
    · simp [Reader.whole, hcut', hne]
    · decide
  have happ := h.append hstays ⟨hkey, hheader, trivial⟩
  rw [after_cons, after_nil, (next_newline hesc).1] at happ
  exact happ

end Leads

section Landing

theorem Like.jumps {keep : List UInt8 → Bool} (h : Like keep r r') (c : WChar) :
    r.jumps c = r'.jumps c := by cases h <;> rfl

theorem jumpsIn_copied (h : Alike r r') (hj : r.jumpsIn text = false) : r'.jumpsIn (r.copied text) = false := by
  induction text generalizing r r' with
  | nil => rfl
  | cons c text ih =>
    simp only [jumpsIn, or_eq_false_iff] at hj
    cases hq : r.quotedHash c with
    | true => simpa [Reader.copied, hq] using ih (alike_quotedHash h hq) hj.2
    | false =>
      have hc := (h.jumps c).symm.trans hj.1
      simp [Reader.copied, hq, jumpsIn, hc, ih (h.next c) hj.2]

theorem after_popped {t : List WChar} {n : Nat}
    (ht : r.after (t ++ List.replicate n (L '\n')) = ⟨sect, .lineStart⟩)
    (hj : r.jumpsIn (t ++ List.replicate n (L '\n')) = false) (hesc : (r.after t).inEscape = true) :
    ∃ name w, r.after (t ++ [L '\n']) = ⟨sect, .value name w [] false⟩ := by
  rw [after_append] at ht ⊢
  rw [jumpsIn_append, or_eq_false_iff] at hj
  generalize r.after t = r' at ht hj hesc
  obtain ⟨sect', phase⟩ := r'
  cases phase with
  | escape name w inQuote =>
    have hcontinued : Reader.next ⟨sect', .escape name w inQuote⟩ (L '\n') =
        ⟨sect', .value name (w ++ []) [] inQuote⟩ := rfl
    have heol : isEol (L '\n') = true := by decide
    match n with
    | 0 => cases ht
    | 1 => cases ht
    | n + 2 =>
      have hended : Reader.next ⟨sect', .value name (w ++ []) [] inQuote⟩ (L '\n') =
          ⟨sect', .lineStart⟩ := rfl
      have hquote : inQuote = false := by
        have hj' := hj.2
        simp only [replicate_succ, jumpsIn, hcontinued, or_eq_false_iff] at hj'
        simpa [Reader.jumps, heol] using hj'.2.1
      simp only [replicate_succ, after_cons, hcontinued, hended, (after_newlines sect' n).1] at ht
      subst hquote
      cases ht
      exact ⟨name, w ++ [], rfl⟩
  | _ => exact absurd hesc (by simp [inEscape])

theorem closes_plain {t : List WChar} (ht : t.all isPlain = true) (v : List WChar) :
    closes false false (t ++ v) = closes false false v := by
  induction t with
  | nil => rfl
  | cons c t ih =>
    rw [all_cons, and_eq_true] at ht
    simp only [isPlain, and_eq_true, bne_iff_ne, ne_eq] at ht
    obtain ⟨⟨⟨⟨⟨hhash, hquote⟩, hslash⟩, -⟩, -⟩, ht⟩ := ht
    simp [closes, hhash, hquote, hslash, ih ht]

/-- The reader behind the text that the writer puts before the value. -/
structure Lands (k : ConfigKey) (place : Place) (before : List WChar) (r : Reader) : Prop where
  arrives : Arrives k (place.lead k before) r
  value : InValueOf r false false
  safe : place.safe k before = true →
    ∃ name, r.phase = .valueSpace name ∧ k.matches (cstr (r.qualify name)) = true
  other : place.safe k before = false → r.otherValue k

theorem lands_replace (hp : start.place k text = (.replace, before, rest))
    (hw : start.whole before = true) : Lands k .replace before (start.after before) := by
  obtain ⟨-, -, hat⟩ := place_spec hp
  have hlike := (copied_like (.same start) before (unquoted_nothing start before)).1
  obtain ⟨name, hphase, hmatch⟩ := atKey_phase hat
  have harrives := arrives_copied hp hw
  rw [hlike.eq_of_valueSpace hphase] at harrives
  exact ⟨harrives, ⟨name, .inl ⟨rfl, .inl ⟨hphase, rfl⟩⟩⟩, fun _ => ⟨name, hphase, hmatch⟩,
    fun h => by simp [Place.safe] at h⟩

theorem lands_insert (hk : k.wellFormed) (hp : start.place k text = (.insert, before, rest))
    (hw : start.whole before = true) (hj : start.jumpsIn before = false) :
    ∃ r, Lands k .insert before r ∧ r.sect = (start.after before).sect := by
  obtain ⟨-, -, hat, -⟩ := place_spec hp
  have hlike := (copied_like (.same start) before (unquoted_nothing start before)).1
  obtain ⟨sectionName, keyName, hfront, -, hkey, hfk, -⟩ := front_wellFormed hk
  have hphase : (start.after before).phase = .lineStart := by
    simp only [atHeader, and_eq_true, beq_iff_eq] at hat
    exact hat.1.1
  have hread : start.after (start.copied before) = ⟨(start.after before).sect, .lineStart⟩ := by
    rw [hlike.eq_of_phase (by simp [valueName, hphase]), ← hphase]
  have harrives := arrives_insert hp hw hphase
  have hlead : Place.lead k before .insert =
      trimNewlines (start.copied before) ++ [L '\n'] ++ (widen keyName ++ [L '=']) := by
    rw [Place.lead, hfront]
    rfl
  have hsafe : Place.safe k before .insert =
      (!(start.after (trimNewlines (start.copied before))).inEscape &&
        k.matches (cstr (qualify ⟨(start.after before).sect, .lineStart⟩ keyName))) := by
    rw [Place.safe, hfk]
    rfl
  cases hesc : (start.after (trimNewlines (start.copied before))).inEscape with
  | false =>
    obtain ⟨hafter, -⟩ := after_trimNewlines hread hesc
    rw [hafter] at harrives
    rw [hesc, Bool.not_false, Bool.true_and] at hsafe
    refine ⟨⟨(start.after before).sect, .valueSpace keyName⟩,
      ⟨hlead ▸ harrives.key hkey, ⟨keyName, .inl ⟨rfl, .inl ⟨rfl, rfl⟩⟩⟩, ?_, ?_⟩, rfl⟩
    · exact fun h => ⟨keyName, rfl, hsafe.symm.trans h⟩
    · intro h name hname
      cases hname
      exact hsafe.symm.trans h
  | true =>
    -- the setting goes on with the value before it
    have hj' := jumpsIn_copied (.same start) hj
    obtain ⟨n, hn⟩ := trimNewlines_append (start.copied before)
    rw [hn] at hread hj'
    obtain ⟨name, w, hvalue⟩ := after_popped hread hj' hesc
    rw [hvalue] at harrives
    have hplain := widen_plain hkey
    have hall : (widen keyName ++ [L '=']).all isPlain = true :=
      all_eq_true.mpr fun c hc => (hplain c hc).2.2.1
    have hin : InValueOf ⟨(start.after before).sect, .value name w [] false⟩ false false :=
      ⟨name, .inl ⟨rfl, .inr ⟨w, [], rfl⟩⟩⟩
    have hclose : closes false false (widen keyName ++ [L '=']) = true := by
      rw [← append_nil (widen keyName ++ [L '=']), closes_plain hall]
      rfl
    obtain ⟨haway, -, -⟩ := value_run (k := k) hin (by rintro n h; cases h) hclose
      fun c hc => (hplain c hc).2.1
    obtain ⟨k', b', hafter, -⟩ := after_plain (start.after before).sect name w [] _ hall
    have happ := harrives.append (key_stays hkey) haway
    rw [hafter] at happ
    refine ⟨⟨(start.after before).sect, .value name k' b' false⟩,
      ⟨hlead ▸ happ, ⟨name, .inl ⟨rfl, .inr ⟨k', b', rfl⟩⟩⟩, ?_, ?_⟩, rfl⟩
    · intro h
      rw [hsafe, hesc] at h
      cases h
    · rintro - n h
      cases h

theorem lands_append (hk : k.wellFormed) (hp : start.place k text = (.append, before, rest))
    (hw : start.whole before = true) (hj : (start.after before).jumps weof = false) :
    ∃ r, Lands k .append before r := by
  obtain ⟨-, -, hat, -⟩ := place_spec hp
  have hlike := (copied_like (.same start) before (unquoted_nothing start before)).1
  obtain ⟨sectionName, keyName, hfront, hsect, hkey, hfk, hname⟩ := front_wellFormed hk
  have hcut := cutOff_of_jumps hj
  have hesc : (start.after before).inEscape = false := by
    generalize start.after before = r at hj
    obtain ⟨sect, phase⟩ := r
    cases phase with
    | escape name w inQuote => exact absurd hj (by simp [Reader.jumps]; decide)
    | _ => rfl
  have hline := (arrives_copied hp hw).newline ((hlike.atPlace k weof).1 ▸ hat) (hlike.cutOff weof ▸ hcut)
    (hlike.inEscape ▸ hesc)
  rw [← (hlike.next weof).sect] at hline
  generalize hs : ((start.after before).next weof).sect = sect at hline
  have hlead : Place.lead k before .append = start.copied before ++ [L '\n'] ++
      (if inSection k sect then [] else L '[' :: widen sectionName ++ [L ']', L '\n']) ++
        (widen keyName ++ [L '=']) := by
    rw [Place.lead, hfront, hcut, hs]
    simp
  have hsafe : Place.safe k before .append =
      (!inSection k sect || k.matches (cstr (qualify ⟨sect, .lineStart⟩ keyName))) := by
    rw [Place.safe, hfk, hesc, hs, ← hs]
    rfl
  cases hin : inSection k sect with
  | true =>
    rw [hin, if_pos rfl, append_nil] at hlead
    rw [hin, Bool.not_true, Bool.false_or] at hsafe
    refine ⟨_, ⟨hlead ▸ hline.key hkey, ⟨keyName, .inl ⟨rfl, .inl ⟨rfl, rfl⟩⟩⟩, ?_, ?_⟩⟩
    · exact fun h => ⟨keyName, rfl, hsafe.symm.trans h⟩
    · intro h name hname
      cases hname
      exact hsafe.symm.trans h
  | false =>
    rw [hin, if_neg (by simp)] at hlead
    rw [hin, Bool.not_false, Bool.true_or] at hsafe
    have hq : qualify ⟨sectionName, .valueSpace keyName⟩ keyName =
        sectionName ++ narrow (L '.') :: keyName := by
      obtain ⟨b, bs, rfl, -, -⟩ := isIdent_cons hsect
      simp [qualify]
    refine ⟨_, ⟨hlead ▸ (hline.header hsect hin).key hkey, ⟨keyName, .inl ⟨rfl, .inl ⟨rfl, rfl⟩⟩⟩,
      ?_, ?_⟩⟩
    · exact fun _ => ⟨keyName, rfl, hq ▸ hname⟩
    · intro h
      rw [hsafe] at h
      cases h

end Landing

section FirstRun

/-- A text that update mode copies as it is to the end of the file. -/
structure Keeps (r : Reader) (text : List WChar) : Prop where
  stays : Stays r text
  ends : (r.after text).cutOff weof = false

theorem Keeps.copiedToEnd (h : Keeps r text) : r.copiedToEnd text = text := by
  rw [Reader.copiedToEnd, h.stays.copied, h.ends]
  simp

theorem keeps_copied (ha : r.accepts text = true) (hcr : L '\r' ∉ text) (hw : weof ∉ text) :
    r.whole text = true ∧ r.copiedToEnd text = r.copied text ∧ Keeps r (r.copied text) := by
  rw [accepts_eq, and_eq_true, not_eq_true', not_eq_true'] at ha
  have hwhole := whole_of_jumpsIn ha.1 hcr hw
  have hends := cutOff_of_jumps ha.2
  have hlike := (copied_like (.same r) text (unquoted_nothing r text)).1
  refine ⟨hwhole, ?_, stays_copied (.same r) hwhole, (hlike.cutOff weof).symm.trans hends⟩
  rw [Reader.copiedToEnd, hends]
  simp

def Rests (sect : List UInt8) (w : List WChar) : Prop :=
  w = [] ∨ ∃ d w', w = d :: w' ∧ (d = L '\n' ∨ d = L '#') ∧
    Keeps ⟨sect, if d = L '#' then .comment else .lineStart⟩ w'

theorem Rests.atEnd {w : List WChar} (h : Rests sect w) : AtEnd w := by
  rcases h with rfl | ⟨d, w', rfl, hd, -⟩
  · exact .inl rfl
  · exact .inr ⟨d, w', rfl, hd⟩

theorem first_replace (hcr : L '\r' ∉ text) (hwe : weof ∉ text) (ha : start.accepts text = true)
    (hp : start.place k text = (.replace, before, rest)) (hw : start.whole before = true) :
    ∃ bs w, update k text = Place.lead k before .replace ++ (k.value ++ (bs ++ w)) ∧
      bs.all isHSpace = true ∧ Rests (start.after before).sect w := by
  obtain ⟨ht, -, hat⟩ := place_spec hp
  rw [ht] at ha
  have harest := (accepts_append ha).2
  obtain ⟨name, hphase, -⟩ := atKey_phase hat
  have hin : InValueOf (start.after before) false false := ⟨name, .inl ⟨rfl, .inl ⟨hphase, rfl⟩⟩⟩
  have hb : (oldBlanks false false [] rest).all isHSpace = true := oldBlanks_all rfl rest
  rcases update_replace hp hw hcr hwe with ⟨-, hout⟩ | ⟨d, rest', y, hold, hd, hy, hu, ho, hout⟩
  · refine ⟨_, [], ?_, hb, .inl rfl⟩
    rw [hout]
    simp [Place.lead]
  · have hsub := (oldValue_suffix false false rest).subset
    rw [hold] at hsub
    have hmem : ∀ c ∈ rest', c ∈ text := fun c hc => by
      rw [ht]
      exact mem_append_right _ (hsub (mem_cons_of_mem _ hc))
    have hwr : weof ∉ rest := fun h => hwe (by rw [ht]; exact mem_append_right _ h)
    obtain ⟨hwhole, hend, hkeeps⟩ := keeps_copied (accepts_oldValue hin harest hwr hold)
      (fun h => hcr (hmem _ h)) fun h => hwe (hmem _ h)
    refine ⟨_, d :: _, ?_, hb, .inr ⟨d, _, rfl, hd, hkeeps⟩⟩
    rw [hout, outputOf_updated hy hu hwhole, ho, hend]
    simp [Place.lead]

theorem first_insert (hk : k.wellFormed) (hcr : L '\r' ∉ text) (hwe : weof ∉ text)
    (ha : start.accepts text = true)
    (hp : start.place k text = (.insert, before, rest)) (hw : start.whole before = true) :
    ∃ w, update k text = Place.lead k before .insert ++ (k.value ++ (L '\n' :: L '\n' :: L '[' :: w)) ∧
      Keeps ⟨(start.after before).sect, .sectionFirst⟩ w := by
  obtain ⟨ht, -, -⟩ := place_spec hp
  obtain ⟨sectionName, keyName, hfront, -, -, -, -⟩ := front_wellFormed hk
  obtain ⟨hphase, rest', y, rfl, hy, hu, ho, hout⟩ := update_insert hp hw hfront
  have hmem : ∀ c ∈ rest', c ∈ text := fun c hc => by
    rw [ht]
    exact mem_append_right _ (mem_cons_of_mem _ hc)
  rw [ht] at ha
  have hopen : (start.after before).next (L '[') = ⟨(start.after before).sect, .sectionFirst⟩ := by
    generalize start.after before = r at hphase
    obtain ⟨sect, phase⟩ := r
    subst hphase
    rfl
  have harest := (accepts_append ha).2
  rw [accepts, hopen, and_eq_true] at harest
  obtain ⟨hwhole, hend, hkeeps⟩ := keeps_copied harest.2
    (fun h => hcr (hmem _ h)) fun h => hwe (hmem _ h)
  refine ⟨_, ?_, hkeeps⟩
  rw [hout, outputOf_updated hy hu hwhole, ho, hend]
  simp [Place.lead, hfront]

theorem first_append (hk : k.wellFormed) (hp : start.place k text = (.append, before, rest))
    (hw : start.whole before = true) : update k text = Place.lead k before .append ++ k.value := by
  obtain ⟨sectionName, keyName, hfront, -, -, -, -⟩ := front_wellFormed hk
  obtain ⟨-, -, hout⟩ := update_append hp hw hfront
  rw [hout]
  simp [Place.lead, hfront]

end FirstRun

section SecondRun

theorem place_append {t u : List WChar} {place : Place} (ha : r.away k t)
    (hp : (r.after t).place k u = (place, before, rest)) : r.place k (t ++ u) = (place, t ++ before, rest) := by
  induction t generalizing r with
  | nil => exact hp
  | cons c t ih =>
    obtain ⟨hkey, hheader, ha⟩ := ha
    rw [cons_append, Reader.place, hkey, hheader, ih ha hp]
    rfl

theorem place_value {name : List UInt8} (hphase : r.phase = .valueSpace name)
    (hm : k.matches (cstr (r.qualify name)) = true) (u : List WChar) :
    r.place k u = (.replace, u.takeWhile isHSpace, u.dropWhile isHSpace) := by
  obtain ⟨sect, phase⟩ := r
  subst hphase
  have heof : isHSpace weof = false := by decide
  induction u with
  | nil => simp [Reader.place, atKey, heof, hm]
  | cons c u ih =>
    cases hsp : isHSpace c with
    | true =>
      have hn : Reader.next ⟨sect, .valueSpace name⟩ c = ⟨sect, .valueSpace name⟩ := by
        simp [Reader.next, hsp]
      rw [Reader.place, hn, ih]
      simp [atKey, atHeader, hsp]
    | false => simp [Reader.place, atKey, hsp, hm]

theorem oldValue_dropWhile (u : List WChar) :
    oldValue false false (u.dropWhile isHSpace) = oldValue false false u := by
  have hb : (u.takeWhile isHSpace).all isHSpace = true := all_takeWhile
  have h := (pass_blanks hb [] (u.dropWhile isHSpace)).1
  rw [takeWhile_append_dropWhile] at h
  exact h.symm

theorem stays_blanks {bs : List WChar} (hb : bs.all isHSpace = true) : Stays r bs := by
  have hblank : ∀ c ∈ bs, c ≠ L '\r' ∧ isEol c = false ∧ c ≠ L '#' := by
    intro c hc
    rcases (isHSpace_iff c).mp (all_eq_true.mp hb c hc) with rfl | rfl <;> decide
  exact stays_of_whole (whole_of_no_eol fun c hc => ⟨(hblank c hc).1, (hblank c hc).2.1⟩)
    fun h => (hblank _ h).2.2 rfl

theorem clean_of_whole (h : r.whole text = true) : L '\r' ∉ text ∧ weof ∉ text := by
  induction text generalizing r with
  | nil => simp
  | cons c text ih =>
    simp only [Reader.whole, and_eq_true, bne_iff_ne, ne_eq] at h
    obtain ⟨h1, h2⟩ := ih h.2
    exact ⟨by simp [h1, Ne.symm h.1.1.1], by simp [h2, Ne.symm h.1.1.2]⟩

theorem Keeps.append {t u : List WChar} (h : Stays r t) (h' : Keeps (r.after t) u) : Keeps r (t ++ u) := by
  refine ⟨h.append h'.stays, ?_⟩
  rw [after_append]
  exact h'.ends

theorem Rests.keeps_comment {w : List WChar} (h : Rests sect w) : Keeps ⟨sect, .comment⟩ w := by
  rcases h with rfl | ⟨d, w', rfl, rfl | rfl, hkeeps⟩
  · exact ⟨⟨rfl, rfl⟩, rfl⟩
  · exact Keeps.append (t := [L '\n']) ⟨rfl, rfl⟩ hkeeps
  · exact Keeps.append (t := [L '#']) ⟨rfl, rfl⟩ hkeeps

theorem rest_keeps {bs w : List WChar} (hv : ∀ c ∈ v, c ≠ L '\r' ∧ isEol c = false)
    (hc : closes false false v = true) (hb : bs.all isHSpace = true) (hr : Rests sect w)
    (hold : oldValue false false (v ++ (bs ++ w)) = d :: rest) :
    Keeps ⟨sect, if d = L '#' then .comment else .lineStart⟩ rest := by
  cases hown : oldValue false false v with
  | nil =>
    rw [(pass_value hc hown [] _).1, (pass_blanks hb [] w).1, (pass_end hr.atEnd []).1] at hold
    rcases hr with rfl | ⟨d', w', rfl, -, hkeeps⟩
    · cases hold
    · obtain ⟨rfl, rfl⟩ := List.cons.inj hold
      exact hkeeps
  | cons d' more =>
    -- the value holds a comment, which goes on to the end of the line
    have hsub := (oldValue_suffix false false v).subset
    rw [hown] at hsub
    have hhash : d' = L '#' := by
      rcases oldValue_head hown with rfl | rfl
      · exact absurd (hv _ (hsub mem_cons_self)).2 (by decide)
      · rfl
    rw [pass_ended hown (bs ++ w)] at hold
    obtain ⟨rfl, rfl⟩ := List.cons.inj hold
    have hmore : ∀ c ∈ more, c ≠ L '\r' ∧ isEol c = false := fun c h =>
      hv c (hsub (mem_cons_of_mem _ h))
    have hmoreEol : ∀ c ∈ more, isEol c = false := fun c h => (hmore c h).2
    have hbsEol : ∀ c ∈ bs, isEol c = false := by
      intro c h
      rcases (isHSpace_iff c).mp (all_eq_true.mp hb c h) with rfl | rfl <;> decide
    obtain ⟨h1, -, h3⟩ := comment_run (k := ⟨[], []⟩) sect hmoreEol
    obtain ⟨h1', -, -⟩ := comment_run (k := ⟨[], []⟩) sect hbsEol
    rw [if_pos hhash]
    refine Keeps.append ⟨whole_of_no_eol hmore, h3⟩ ?_
    rw [h1]
    refine Keeps.append (stays_blanks hb) ?_
    rw [h1']
    exact hr.keeps_comment

theorem second_replace {lead bs w : List WChar} {name : List UInt8} (h : Arrives k lead r)
    (hphase : r.phase = .valueSpace name) (hm : k.matches (cstr (r.qualify name)) = true)
    (hv : ∀ c ∈ k.value, c ≠ L '\r' ∧ isEol c = false) (hc : closes false false k.value = true)
    (hb : bs.all isHSpace = true) (hr : Rests r.sect w) :
    update k (lead ++ (k.value ++ (bs ++ w))) = lead ++ (k.value ++ (bs ++ w)) ↔
      bareValue k.value = true := by
  rw [← rewrite_eq_iff hc hb hr.atEnd]
  have hplace := place_value hphase hm (k.value ++ (bs ++ w))
  have hold := oldValue_dropWhile (k.value ++ (bs ++ w))
  have hsplit := takeWhile_append_dropWhile (p := isHSpace) (l := k.value ++ (bs ++ w))
  have hlb : ((k.value ++ (bs ++ w)).takeWhile isHSpace).all isHSpace = true := all_takeWhile
  have hclean : L '\r' ∉ lead ++ (k.value ++ (bs ++ w)) ∧ weof ∉ lead ++ (k.value ++ (bs ++ w)) := by
    obtain ⟨h1, h2⟩ := clean_of_whole h.stays.whole
    obtain ⟨h3, h4⟩ := clean_of_whole (whole_of_no_eol (r := start) hv)
    obtain ⟨h5, h6⟩ := clean_of_whole (stays_blanks (r := start) hb).whole
    obtain ⟨h7, h8⟩ := clean_of_whole hr.keeps_comment.stays.whole
    simp [h1, h2, h3, h4, h5, h6, h7, h8]
  obtain ⟨harr, haway, hread⟩ := h
  have hafter : Reader.after r ((k.value ++ (bs ++ w)).takeWhile isHSpace) = r := by
    obtain ⟨sect, phase⟩ := r
    subst hphase
    exact (after_blanks sect name hlb).1
  have hbefore : Stays start (lead ++ (k.value ++ (bs ++ w)).takeWhile isHSpace) :=
    harr.append (stays_blanks hlb)
  rw [← hread] at hplace
  have hp := place_append haway hplace
  generalize htail : k.value ++ (bs ++ w) = tail at *
  -- the second output, written with what is read as the value
  have hout : update k (lead ++ tail) = lead ++ tail.takeWhile isHSpace ++
      (k.value ++ oldBlanks false false [] (tail.dropWhile isHSpace) ++
        oldValue false false (tail.dropWhile isHSpace)) := by
    rcases update_replace hp hbefore.whole hclean.1 hclean.2 with
      ⟨hnil, hout⟩ | ⟨d, rest', y, hcons, -, hy, hu, ho, hout⟩
    · rw [hout, hbefore.copied, hnil]
      simp
    · have hkeeps : Keeps ⟨r.sect, if d = L '#' then .comment else .lineStart⟩ rest' := by
        apply rest_keeps hv hc hb hr
        rw [htail, ← hold, hcons]
      have hsect : (start.after (lead ++ tail.takeWhile isHSpace)).sect = r.sect := by
        rw [after_append, hread, hafter]
      rw [hsect] at hy
      rw [hout, outputOf_updated hy hu hkeeps.stays.whole, ho, hkeeps.copiedToEnd, hbefore.copied, hcons]
      simp
  have hlead : lead ++ tail = lead ++ tail.takeWhile isHSpace ++ tail.dropWhile isHSpace := by
    rw [append_assoc, hsplit]
  rw [hout, hlead, append_right_inj]

theorem trimNewlines_lead (lead t : List WChar) :
    trimNewlines (lead ++ [L '='] ++ t) = lead ++ [L '='] ++ trimNewlines t := by
  have h := rdropWhile_append_cons (q := (· == L '\n')) (c := L '=') (by decide) lead t
  simpa [trimNewlines] using h

theorem second_insert {lead w : List WChar} (hk : k.wellFormed) (h : Arrives k (lead ++ [L '=']) r)
    (hin : InValueOf r false false) (hm : r.otherValue k) (hs : inSection k r.sect = true)
    (hv : ∀ c ∈ k.value, c ≠ L '\r' ∧ isEol c = false) (hc : closes false false k.value = true)
    (hkeeps : Keeps ⟨r.sect, .sectionFirst⟩ w) :
    update k (lead ++ [L '='] ++ (k.value ++ L '\n' :: L '\n' :: L '[' :: w)) ≠
      lead ++ [L '='] ++ (k.value ++ L '\n' :: L '\n' :: L '[' :: w) := by
  obtain ⟨sectionName, keyName, hfront, -, -, -, -⟩ := front_wellFormed hk
  obtain ⟨hstays, haway, hread⟩ := h
  obtain ⟨h1, h2, h3⟩ := value_run hin hm hc fun c hmem => (hv c hmem).2
  obtain ⟨ha1, ha2, ha3, ha4⟩ := past_away h2 (L '\n')
  rw [h3] at ha4
  have hheader : atHeader k ⟨r.sect, .lineStart⟩ (L '[') = true := by simp [atHeader, hs]
  have hplace : (r.after k.value).place k (L '\n' :: L '\n' :: L '[' :: w) =
      (.insert, [L '\n', L '\n'], L '[' :: w) := by
    have hline : Reader.next ⟨r.sect, .lineStart⟩ (L '\n') = ⟨r.sect, .lineStart⟩ := rfl
    have hkey : ∀ c, atKey k ⟨r.sect, .lineStart⟩ c = false := fun _ => rfl
    have hother : atHeader k ⟨r.sect, .lineStart⟩ (L '\n') = false := rfl
    simp [Reader.place, ha1, ha2, ha4, hline, hkey, hother, hheader]
  have hvalue : r.place k (k.value ++ L '\n' :: L '\n' :: L '[' :: w) =
      (.insert, k.value ++ [L '\n', L '\n'], L '[' :: w) := place_append h1 hplace
  rw [← hread] at hvalue
  have hp := place_append haway hvalue
  have hwhole : start.whole (lead ++ [L '='] ++ (k.value ++ [L '\n', L '\n'])) = true := by
    have hne : L '\n' ≠ L '\r' ∧ L '\n' ≠ weof := by decide
    have hcut : cutOff ⟨r.sect, .lineStart⟩ (L '\n') = false := rfl
    rw [whole_append, hstays.whole, hread, whole_append, whole_of_no_eol hv]
    simp [Reader.whole, ha3, ha4, hcut, hne]
  have hsect : (start.after (lead ++ [L '='] ++ (k.value ++ [L '\n', L '\n']))).sect = r.sect := by
    rw [after_append, hread, after_append, after_cons, ha4]
    rfl
  obtain ⟨-, rest', y, hrest, hy, hu, ho, hout⟩ := update_insert hp hwhole hfront
  obtain ⟨-, rfl⟩ := List.cons.inj hrest
  rw [hsect] at hy
  rw [hout, outputOf_updated hy hu hkeeps.stays.whole, hkeeps.copiedToEnd, ho, copied_append,
    hstays.copied, trimNewlines_lead]
  intro heq
  have hlen := congrArg List.length heq
  simp only [length_append, length_cons, length_nil] at hlen
  omega

theorem second_append {lead : List WChar} (hk : k.wellFormed) (h : Arrives k lead r)
    (hin : InValueOf r false false) (hm : r.otherValue k)
    (hv : ∀ c ∈ k.value, c ≠ L '\r' ∧ isEol c = false) (hc : closes false false k.value = true) :
    update k (lead ++ k.value) ≠ lead ++ k.value := by
  obtain ⟨sectionName, keyName, hfront, -, -, -, -⟩ := front_wellFormed hk
  obtain ⟨hstays, haway, hread⟩ := h
  obtain ⟨h1, h2, -⟩ := value_run hin hm hc fun c hmem => (hv c hmem).2
  obtain ⟨ha, -, -, -⟩ := past_away h2 weof
  have hend : (r.after k.value).place k [] = (.append, [], []) := by simp [Reader.place, ha]
  have hvalue : r.place k k.value = (.append, k.value, []) := by
    simpa using place_append h1 hend
  rw [← hread] at hvalue
  have hp := place_append haway hvalue
  have hwhole : start.whole (lead ++ k.value) = true := by
    rw [whole_append, hstays.whole, whole_of_no_eol hv]
    rfl
  obtain ⟨-, -, hout⟩ := update_append hp hwhole hfront
  rw [hout, copied_append, hstays.copied]
  intro heq
  have hlen := congrArg List.length heq
  simp only [length_append, length_cons, length_nil] at hlen
  omega

end SecondRun

section Twice

def oneLine (v : List WChar) : Bool := v.all fun c => c != L '\r' && !isEol c

theorem oneLine_all (h : oneLine v = true) : ∀ c ∈ v, c ≠ L '\r' ∧ isEol c = false := by
  intro c hc
  simpa using all_eq_true.mp h c hc

theorem closes_of_warnings {key : List UInt8} (hk : isIdent key = true) (hv : oneLine v = true)
    (hw : (parseConfigFile Args.parse (widen key ++ L '=' :: v)).2.warnings = []) :
    closes false false v = true := by
  have hplain := widen_plain hk
  have hline := oneLine_all hv
  have hcr : L '\r' ∉ widen key ++ [L '='] ++ v := by
    rw [mem_append]
    rintro (h | h)
    · exact (hplain _ h).1 rfl
    · exact (hline _ h).1 rfl
  have ha : start.accepts (widen key ++ [L '='] ++ v) = true := by
    rw [← warnings_parse hcr]
    simpa using hw
  have hrest := (accepts_append ha).2
  have hkey : start.after (widen key ++ [L '=']) = ⟨[], .valueSpace key⟩ := (after_key [] hk).1
  rw [hkey] at hrest
  exact closes_of_accepts ⟨key, .inl ⟨rfl, .inl ⟨rfl, rfl⟩⟩⟩ hrest fun c hc => (hline c hc).2

/-- The second write changes nothing exactly when the value is read as it was written and
the first write has landed where the reader looks for the key. -/
theorem update_twice_iff (hk : k.wellFormed) (hcr : L '\r' ∉ text) (hwe : weof ∉ text)
    (hvalid : (parseConfigFile Args.parse text).2.warnings = []) (hline : oneLine k.value = true)
    (hvalue : (parseConfigFile Args.parse (widen k.frontKey ++ L '=' :: k.value)).2.warnings = []) :
    update k (update k text) = update k text ↔
      bareValue k.value = true ∧ placeSafe k text = true := by
  obtain ⟨sectionName, keyName, hfront, -, hkey, hfk, -⟩ := front_wellFormed hk
  rw [hfk] at hvalue
  have hc := closes_of_warnings hkey hline hvalue
  have hv := oneLine_all hline
  have ha := (warnings_parse hcr).mp hvalid
  have hnone : ([] : List WChar).all isHSpace = true := rfl
  rcases hp : start.place k text with ⟨place, before, rest⟩
  obtain ⟨ht, -, hat⟩ := place_spec hp
  obtain ⟨hj, hw⟩ := whole_before hcr hwe ha hp
  have hplace : placeSafe k text = place.safe k before := by rw [placeSafe, hp]
  rw [hplace]
  cases place with
  | replace =>
    have hlands := lands_replace hp hw
    obtain ⟨name, hphase, hmatch⟩ := hlands.safe rfl
    obtain ⟨bs, w, hout, hb, hrests⟩ := first_replace hcr hwe ha hp hw
    rw [hout, second_replace hlands.arrives hphase hmatch hv hc hb hrests]
    simp [Place.safe]
  | insert =>
    obtain ⟨r, hlands, hsect⟩ := lands_insert hk hp hw hj
    obtain ⟨w, hout, hkeeps⟩ := first_insert hk hcr hwe ha hp hw
    rw [← hsect] at hkeeps
    rw [hout]
    cases hsafe : Place.safe k before .insert with
    | true =>
      obtain ⟨name, hphase, hmatch⟩ := hlands.safe hsafe
      have hrests : Rests r.sect (L '\n' :: L '\n' :: L '[' :: w) :=
        .inr ⟨_, _, rfl, .inl rfl, Keeps.append (t := [L '\n', L '[']) ⟨rfl, rfl⟩ hkeeps⟩
      simpa using second_replace hlands.arrives hphase hmatch hv hc hnone hrests
    | false =>
      have hin : inSection k r.sect = true := by
        have hheader := hat.1
        simp only [atHeader, and_eq_true] at hheader
        rw [hsect]
        exact hheader.2
      have harrives := hlands.arrives
      have hlead : Place.lead k before .insert =
          trimNewlines (start.copied before) ++ [L '\n'] ++ widen keyName ++ [L '='] := by
        rw [Place.lead, hfront]
        simp
      rw [hlead] at harrives ⊢
      have hne := second_insert hk harrives hlands.value (hlands.other hsafe) hin hv hc hkeeps
      exact ⟨fun heq => absurd heq hne, fun h => by cases h.2⟩
  | append =>
    rw [ht, (update_append hp hw hfront).1, append_nil] at ha
    have hend : (start.after before).jumps weof = false := by
      rw [accepts_eq, and_eq_true, not_eq_true', not_eq_true'] at ha
      exact ha.2
    obtain ⟨r, hlands⟩ := lands_append hk hp hw hend
    rw [first_append hk hp hw]
    cases hsafe : Place.safe k before .append with
    | true =>
      obtain ⟨name, hphase, hmatch⟩ := hlands.safe hsafe
      simpa using second_replace (w := []) hlands.arrives hphase hmatch hv hc hnone (.inl rfl)
    | false =>
      have hne := second_append hk hlands.arrives hlands.value (hlands.other hsafe) hv hc
      exact ⟨fun heq => absurd heq hne, fun h => by cases h.2⟩

/-- The three places of the first write. -/
theorem update_twice_memory :
    let k : ConfigKey := ⟨[bytes "wsl2.memory"], wide "8GB"⟩
    (∀ text ∈ [wide "[wsl2]\nmemory=4GB # half\n", wide "[wsl2]\nswap=0\n\n[boot]\n", wide "swap=0"],
      update k (update k text) = update k text) := by
  intro k text htext
  have hsafe : L '\r' ∉ text ∧ weof ∉ text ∧ (parseConfigFile Args.parse text).2.warnings = [] ∧
      placeSafe k text = true := by
    revert text
    decide +kernel
  obtain ⟨hcr, hw, hvalid, hplace⟩ := hsafe
  exact (update_twice_iff (wellFormed_memory _) hcr hw hvalid (by rfl)
    (by rfl)).mpr ⟨by rfl, hplace⟩

/-- The part behind the `#` is written once more every time. -/
theorem update_twice_hash :
    ¬ ∀ (k : ConfigKey) (text : List WChar), k.wellFormed → L '\r' ∉ text → weof ∉ text →
      (parseConfigFile Args.parse text).2.warnings = [] → oneLine k.value = true →
      (parseConfigFile Args.parse (widen k.frontKey ++ L '=' :: k.value)).2.warnings = [] →
      update k (update k text) = update k text := by
  intro h
  have hbad := h ⟨[bytes "wsl2.kernel"], wide "C:\\\\a#b"⟩ (wide "[wsl2]\n")
    (wellFormed_single (bytes "wsl2") (bytes "kernel") _ (by decide) (by decide) (by decide))
    (by decide) (by decide) (by rfl) (by rfl) (by rfl)
  exact absurd hbad (by decide)

end Twice

end WslPlus.ConfigFile
